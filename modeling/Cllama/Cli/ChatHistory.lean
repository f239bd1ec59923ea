import Cllama.Cli.Chat
import Cllama.Library.JsonTextLawful

/-!
# The history of the chat

At every prompt the history alternates between lines of the user and replies, whatever the
server has answered: an exchange that fails leaves it as it was.  The history can always be
written into the next request, because replies are well-formed and stay so when control tokens
are removed.
-/

namespace Cllama.Cli

open Cllama.Library

/-- The lines that do not lead to a request. -/
def chatCommands : List Bytes :=
  [] :: ["/bye", "/exit", "/reset", "/help"].map bytes

/-- A line of the user and the reply to it, as they are remembered. -/
def remembered (exchange : Bytes × Bytes) : List Json :=
  [message "user" exchange.1, message "assistant" exchange.2]

/-- User and assistant take turns, and the last turn is the assistant's. -/
def Alternates (history : List Json) : Prop :=
  ∃ exchanges : List (Bytes × Bytes), history = exchanges.flatMap remembered

theorem Alternates.nil : Alternates [] :=
  ⟨[], rfl⟩

theorem Alternates.append {history : List Json} (alternates : Alternates history)
    (line reply : Bytes) :
    Alternates (history ++ [message "user" line, message "assistant" reply]) := by
  rcases alternates with ⟨exchanges, rfl⟩
  exact ⟨exchanges ++ [(line, reply)], by simp [remembered]⟩

/-- What a line does to the history and which request it leads to. -/
structure TurnKeeps (codec : Codec) (settings : ChatSettings) (chat : Chat) (line : Bytes)
    (exchange : Http.Exchange) (next : Chat) : Prop where
  idle : line = [] ∨ line = bytes "/help" → next = chat
  reset : line = bytes "/reset" → next = { chat with history := [] }
  request : line ∉ chatCommands → ∃ body,
    codec.dump (settings.body (chat.history ++ [message "user" line])) = some body ∧
      next.requests = chat.requests ++ [body]
  failed : line ∉ chatCommands → (∀ text, outcome codec exchange ≠ .reply text) →
    next.history = chat.history
  replied : ∀ text, line ∉ chatCommands → outcome codec exchange = .reply text →
    ∃ reply, removeControlTokens text = some reply ∧
      next.history = chat.history ++ [message "user" line, message "assistant" reply]

section Turn

variable {codec : Codec} {settings : ChatSettings} {line : Bytes} {exchange : Http.Exchange}
  {chat next : Chat}

/-- Every way to the next prompt after a request. -/
theorem send_cases (sent : send codec settings line exchange chat = .ok next) :
    ∃ body, codec.dump (settings.body (chat.history ++ [message "user" line])) = some body ∧
      next.requests = chat.requests ++ [body] ∧
      ((∀ text, outcome codec exchange ≠ .reply text) ∧ next.history = chat.history ∨
        ∃ text reply, outcome codec exchange = .reply text ∧
          removeControlTokens text = some reply ∧
          next.history = chat.history ++ [message "user" line, message "assistant" reply]) := by
  unfold send at sent
  dsimp only at sent
  split at sent
  next => cases sent
  next body written =>
    refine ⟨body, written, ?_⟩
    cases isOutcome : outcome codec exchange with
    | reply text =>
        rw [isOutcome] at sent
        rcases exists_cleaned text with ⟨reply, removed, -⟩
        simp only [removed, Except.ok.injEq] at sent
        subst sent
        exact ⟨rfl, Or.inr ⟨text, reply, rfl, removed, by simp⟩⟩
    | _ =>
        rw [isOutcome] at sent
        simp only [List.dropLast_concat, Except.ok.injEq] at sent
        subst sent
        exact ⟨rfl, Or.inl ⟨nofun, rfl⟩⟩

/-- Every way to the next prompt. -/
theorem turn_cases (took : turn codec settings line exchange chat = .ok next) :
    (line = [] ∨ line = bytes "/help") ∧ next = chat ∨
      line = bytes "/reset" ∧ next = { chat with history := [] } ∨
        line ∉ chatCommands ∧ send codec settings line exchange chat = .ok next := by
  unfold turn at took
  split_ifs at took with isEmpty isBye isReset isHelp
  · cases took
    exact Or.inl ⟨Or.inl isEmpty, rfl⟩
  · cases took
    exact Or.inr (Or.inl ⟨isReset, rfl⟩)
  · cases took
    exact Or.inl ⟨Or.inr isHelp, rfl⟩
  · right
    right
    constructor
    · simp [chatCommands, isEmpty, isReset, isHelp, not_or.mp isBye]
    · exact took

theorem idle_mem (idle : line = [] ∨ line = bytes "/help") : line ∈ chatCommands := by
  rcases idle with rfl | rfl <;> decide

theorem turn_keeps (took : turn codec settings line exchange chat = .ok next) :
    TurnKeeps codec settings chat line exchange next := by
  have reset_mem : bytes "/reset" ∈ chatCommands := by decide
  rcases turn_cases took with ⟨idle, rfl⟩ | ⟨rfl, rfl⟩ | ⟨isMessage, sent⟩
  · have isCommand := idle_mem idle
    constructor
    · exact fun _ => rfl
    · rintro rfl
      exact absurd idle (by decide)
    · exact fun isMessage => absurd isCommand isMessage
    · exact fun _ _ => rfl
    · exact fun _ isMessage => absurd isCommand isMessage
  · constructor
    · exact fun idle => absurd idle (by decide)
    · exact fun _ => rfl
    · exact fun isMessage => absurd reset_mem isMessage
    · exact fun isMessage => absurd reset_mem isMessage
    · exact fun _ isMessage => absurd reset_mem isMessage
  · rcases send_cases sent with ⟨body, written, requested, ending⟩
    constructor
    · exact fun idle => absurd (idle_mem idle) isMessage
    · rintro rfl
      exact absurd reset_mem isMessage
    · exact fun _ => ⟨body, written, requested⟩
    · intro _ fails
      rcases ending with ⟨-, kept⟩ | ⟨text, -, isReply, -⟩
      · exact kept
      · exact absurd isReply (fails text)
    · intro text _ isReply
      rcases ending with ⟨fails, -⟩ | ⟨text', reply, isReply', removed, extended⟩
      · exact absurd isReply (fails text)
      · cases isReply.symm.trans isReply'
        exact ⟨reply, removed, extended⟩

/-- What holds of the history at a prompt holds at the next one if a reset and a reply keep
it. -/
theorem history_of_turn {holds : List Json → Prop}
    (took : turn codec settings line exchange chat = .ok next) (empty : holds [])
    (replied : ∀ text reply, outcome codec exchange = .reply text →
      removeControlTokens text = some reply →
      holds (chat.history ++ [message "user" line, message "assistant" reply]))
    (before : holds chat.history) : holds next.history := by
  rcases turn_cases took with ⟨-, rfl⟩ | ⟨-, rfl⟩ | ⟨-, sent⟩
  · exact before
  · exact empty
  · rcases send_cases sent with ⟨-, -, -, ⟨-, kept⟩ | ⟨text, reply, isReply, removed, extended⟩⟩
    · rw [kept]
      exact before
    · rw [extended]
      exact replied text reply isReply removed

theorem step_eq_some_iff {input : Bytes × Http.Exchange} :
    (chatLoop codec settings).step chat input = some next ↔
      turn codec settings input.1 input.2 chat = .ok next := by
  change (turn codec settings input.1 input.2 chat).toOption = some next ↔ _
  cases turn codec settings input.1 input.2 chat <;> simp [Except.toOption]

/-- The history alternates at every prompt. -/
theorem alternates_invariant :
    (chatLoop codec settings).Invariant fun chat => Alternates chat.history where
  initial := by
    rintro chat rfl
    exact Alternates.nil
  step := by
    intro chat input next alternates taken
    have took := step_eq_some_iff.mp taken
    exact history_of_turn took Alternates.nil (fun _ reply _ _ => alternates.append input.1 reply)
      alternates

end Turn

/-! ## Well-formed text -/

section Valid

variable {codec : Codec} {settings : ChatSettings} {line : Bytes} {exchange : Http.Exchange}
  {chat next : Chat}

theorem firstItem_wellFormed {json item : Json} (wellFormed : json.WellFormed)
    (found : firstItem json = some item) : item.WellFormed := by
  cases json with
  | arr items =>
      cases items with
      | nil =>
          cases found
          exact .null
      | cons head items =>
          cases found
          cases wellFormed with
          | arr each => exact each _ List.mem_cons_self
  | null =>
      cases found
      exact .null
  | _ => cases found

theorem valid_choiceContent {json : Json} {text : Bytes} (wellFormed : json.WellFormed)
    (read : choiceContent json = some text) : Utf8.valid text = true := by
  simp only [choiceContent, Option.bind_eq_bind, Option.bind_eq_some_iff] at read
  rcases read with ⟨choices, isChoices, choice, isChoice, message, isMessage, content, isContent,
    isText⟩
  have choice_wellFormed := firstItem_wellFormed (wellFormed.index isChoices) isChoice
  exact Json.valid_of_getString ((choice_wellFormed.index isMessage).index isContent) isText

/-- A reply is well-formed text. -/
theorem valid_of_outcome {text : Bytes} (sound : codec.Sound)
    (isReply : outcome codec exchange = .reply text) : Utf8.valid text = true := by
  unfold outcome at isReply
  split at isReply
  next => cases isReply
  next status body _ =>
    split at isReply
    next => cases isReply
    next =>
      cases isRead : readReply codec body with
      | none =>
          rw [isRead] at isReply
          cases isReply
      | some read =>
          rw [isRead, Option.getD_some] at isReply
          subst isReply
          simp only [readReply, Option.bind_eq_bind, Option.bind_eq_some_iff] at isRead
          rcases isRead with ⟨json, parsed, isRead⟩
          split_ifs at isRead
          · rcases Option.bind_eq_some_iff.mp isRead with ⟨text', content, same⟩
            cases same
            exact valid_choiceContent (sound.parse body json parsed) content
          · rcases Option.bind_eq_some_iff.mp isRead with ⟨_, -, same⟩
            cases same
          · cases isRead
            rfl

theorem message_wellFormed {role : String} {content : Bytes}
    (roleValid : Utf8.valid (bytes role) = true) (contentValid : Utf8.valid content = true) :
    (message role content).WellFormed :=
  Json.WellFormed.ofKeys [bytes "content", bytes "role"] rfl (of_decide_eq_true rfl)
    ⟨.str contentValid, .str roleValid⟩

theorem jsonFloat_wellFormed (value : Runner.CFloat) : (Runner.jsonFloat value).WellFormed := by
  cases value with
  | none => exact .null
  | some value => exact .real value

theorem body_wellFormed {history : List Json} (nameValid : Utf8.valid settings.name = true)
    (each : ∀ message ∈ history, message.WellFormed) :
    (settings.body history).WellFormed :=
  Json.WellFormed.ofKeys [bytes "max_tokens", bytes "messages", bytes "model",
      bytes "temperature", bytes "top_k", bytes "top_p"] rfl (of_decide_eq_true rfl)
    ⟨.int _, .arr each, .str nameValid, jsonFloat_wellFormed _, .int _, jsonFloat_wellFormed _⟩

/-- Replies and well-formed lines keep the messages well-formed. -/
theorem wellFormed_of_turn (sound : codec.Sound) (lineValid : Utf8.valid line = true)
    (each : ∀ message ∈ chat.history, message.WellFormed)
    (took : turn codec settings line exchange chat = .ok next) :
    ∀ message ∈ next.history, message.WellFormed := by
  apply @history_of_turn _ _ _ _ _ _ (fun history => ∀ message ∈ history, message.WellFormed) took
    (by simp) _ each
  intro text reply isReply removed message isMember
  simp only [List.mem_append, List.mem_cons, List.not_mem_nil, or_false] at isMember
  rcases isMember with isOld | rfl | rfl
  · exact each message isOld
  · exact message_wellFormed rfl lineValid
  · exact message_wellFormed rfl
      (valid_removeControlTokens (valid_of_outcome sound isReply) removed)

theorem wellFormed_of_run (sound : codec.Sound) {inputs : List (Bytes × Http.Exchange)}
    (valid : ∀ input ∈ inputs, Utf8.valid input.1 = true)
    (each : ∀ message ∈ chat.history, message.WellFormed)
    (ran : (chatLoop codec settings).run chat inputs = some next) :
    ∀ message ∈ next.history, message.WellFormed := by
  induction inputs generalizing chat with
  | nil =>
      cases ran
      exact each
  | cons input inputs ih =>
      rw [List.forall_mem_cons] at valid
      rw [Machine.run, List.foldlM_cons, Option.bind_eq_bind, Option.bind_eq_some_iff] at ran
      rcases ran with ⟨middle, taken, rest⟩
      have took := step_eq_some_iff.mp taken
      exact ih valid.2 (wellFormed_of_turn sound valid.1 each took) rest

/-- A line never ends the program by an exception. -/
theorem turn_continues (sound : codec.Sound) (nameValid : Utf8.valid settings.name = true)
    (lineValid : Utf8.valid line = true) (each : ∀ message ∈ chat.history, message.WellFormed) :
    (∃ next, turn codec settings line exchange chat = .ok next) ∨
      (line = bytes "/bye" ∨ line = bytes "/exit") := by
  unfold turn
  split_ifs with isEmpty isBye isReset isHelp
  · exact Or.inl ⟨_, rfl⟩
  · exact Or.inr isBye
  · exact Or.inl ⟨_, rfl⟩
  · exact Or.inl ⟨_, rfl⟩
  · left
    have all : ∀ message ∈ chat.history ++ [Cli.message "user" line], message.WellFormed := by
      rw [List.forall_mem_append, List.forall_mem_singleton]
      exact ⟨each, message_wellFormed rfl lineValid⟩
    rcases Option.isSome_iff_exists.mp ((sound.dump _).mpr (body_wellFormed nameValid all)) with
      ⟨body, written⟩
    simp only [send, written]
    cases outcome codec exchange with
    | reply text =>
        rcases exists_cleaned text with ⟨reply, removed, -⟩
        simp [removed]
    | _ => exact ⟨_, rfl⟩

end Valid

/-! ## Runs -/

/-- For every sequence of lines and of what the server does: at every prompt the history
alternates, and the next line does to it what it should; and as long as the lines are
well-formed, only the two lines that end the chat have no prompt after them. -/
theorem history_alternates (codec : Codec) (settings : ChatSettings)
    (inputs : List (Bytes × Http.Exchange)) (chat : Chat)
    (ran : (chatLoop codec settings).run ⟨[], []⟩ inputs = some chat) :
    Alternates chat.history ∧
      (∀ line exchange next, turn codec settings line exchange chat = .ok next →
        TurnKeeps codec settings chat line exchange next) ∧
      (codec.Sound → Utf8.valid settings.name = true →
        (∀ input ∈ inputs, Utf8.valid input.1 = true) →
        ∀ line exchange, Utf8.valid line = true →
          (∃ next, turn codec settings line exchange chat = .ok next) ∨
            (line = bytes "/bye" ∨ line = bytes "/exit")) := by
  refine ⟨?_, fun line exchange next took => turn_keeps took, ?_⟩
  · have start : Alternates (⟨[], []⟩ : Chat).history := Alternates.nil
    exact alternates_invariant.of_reaches start (Machine.reaches_of_run ran)
  · intro sound nameValid inputsValid line exchange lineValid
    exact turn_continues sound nameValid lineValid
      (wellFormed_of_run sound inputsValid (by simp) ran)

def plainSettings : ChatSettings where
  name := bytes "m"
  maxTokens := 8
  temp := none
  topP := none
  topK := 40

/-- A first request that is not answered, and a second one that is. -/
def twoInputs : List (Bytes × Http.Exchange) :=
  [(bytes "hi", ⟨[], none⟩),
    (bytes "hi", ⟨[bytes "[", bytes "]"], some 200⟩)]

theorem history_alternates_twice : ∃ chat,
    (chatLoop JsonText.whole plainSettings).run ⟨[], []⟩ twoInputs = some chat ∧
      Alternates chat.history ∧
      (∀ line exchange next, turn JsonText.whole plainSettings line exchange chat = .ok next →
        TurnKeeps JsonText.whole plainSettings chat line exchange next) ∧
      ∀ line exchange, Utf8.valid line = true →
        (∃ next, turn JsonText.whole plainSettings line exchange chat = .ok next) ∨
          (line = bytes "/bye" ∨ line = bytes "/exit") := by
  have goesOn : ∀ (chat : Chat) (exchange : Http.Exchange),
      (∀ message ∈ chat.history, message.WellFormed) →
      ∃ next, turn JsonText.whole plainSettings (bytes "hi") exchange chat = .ok next := by
    intro chat exchange each
    have cases := @turn_continues _ plainSettings (bytes "hi") exchange _ JsonText.whole_sound rfl
      rfl each
    exact cases.resolve_right (by decide)
  rcases goesOn ⟨[], []⟩ ⟨[], none⟩ (by simp) with ⟨middle, first⟩
  have each := wellFormed_of_turn JsonText.whole_sound rfl (by simp) first
  rcases goesOn middle ⟨[bytes "[", bytes "]"], some 200⟩ each with ⟨chat, second⟩
  have ran : (chatLoop JsonText.whole plainSettings).run ⟨[], []⟩ twoInputs = some chat := by
    rw [twoInputs, Machine.run, List.foldlM_cons, step_eq_some_iff.mpr first]
    rw [Option.bind_eq_bind, Option.bind_some, List.foldlM_cons, step_eq_some_iff.mpr second]
    rfl
  rcases history_alternates JsonText.whole plainSettings twoInputs chat ran with
    ⟨alternates, keeps, continues⟩
  exact ⟨chat, ran, alternates, keeps,
    continues JsonText.whole_sound rfl (of_decide_eq_true rfl)⟩

/-! ## Control tokens in the history -/

/-- No remembered reply has a control token in it. -/
def Clean (history : List Json) : Prop :=
  ∀ text, message "assistant" text ∈ history → ∀ tok ∈ controlTokens, ¬tok <:+: text

/-- The reply to a line, if there is one, does not hide a control token. -/
def RepliesFit (codec : Codec) (_ : Chat) (input : Bytes × Http.Exchange) : Prop :=
  input.1 ∉ chatCommands → ∀ text, outcome codec input.2 = .reply text →
    ¬Brackets.Hides tags text

section Clean

variable {codec : Codec} {settings : ChatSettings} {chat next : Chat}
  {input : Bytes × Http.Exchange}

theorem clean_append_iff {history : List Json} (clean : Clean history) (line reply : Bytes) :
    Clean (history ++ [message "user" line, message "assistant" reply]) ↔
      ∀ tok ∈ controlTokens, ¬tok <:+: reply := by
  have differs : bytes "assistant" ≠ bytes "user" := by decide
  constructor
  · intro after
    exact after reply (by simp)
  · intro absent text isMember
    simp only [message, List.mem_append, List.mem_cons, Json.obj.injEq, Prod.mk.injEq,
      Json.str.injEq, List.cons.injEq, differs, List.not_mem_nil, and_true, and_false, true_and,
      or_false, false_or] at isMember
    rcases isMember with isOld | rfl
    · exact clean text isOld
    · exact absent

theorem clean_step_iff (clean : Clean chat.history)
    (taken : (chatLoop codec settings).step chat input = some next) :
    Clean next.history ↔ RepliesFit codec chat input := by
  rcases turn_cases (step_eq_some_iff.mp taken) with
    ⟨idle, rfl⟩ | ⟨isReset, rfl⟩ | ⟨isMessage, sent⟩
  · exact iff_of_true clean fun isMessage => absurd (idle_mem idle) isMessage
  · apply iff_of_true
    · exact fun text isMember => absurd isMember List.not_mem_nil
    · intro isMessage
      rw [isReset] at isMessage
      exact absurd (by decide) isMessage
  · rcases send_cases sent with ⟨-, -, -, ⟨fails, kept⟩ | ⟨text, reply, isReply, removed, extended⟩⟩
    · rw [kept]
      exact iff_of_true clean fun _ text isReply => absurd isReply (fails text)
    · rw [extended, clean_append_iff clean, clean_iff_of_removed removed, RepliesFit, isReply]
      simp [isMessage]

end Clean

/-- The loops that remove control tokens end, and what they leave has none of them in it
exactly if the reply does not hide one in brackets that only a later pass closes up.  No reply
in the history has one at any prompt exactly if no reply of the server hides one. -/
theorem controlTokens_absent_iff (codec : Codec) (settings : ChatSettings) :
    (∀ reply, ∃ cleaned, removeControlTokens reply = some cleaned ∧
      ((∀ tok ∈ controlTokens, ¬tok <:+: cleaned) ↔ ¬Brackets.Hides tags reply)) ∧
    ∀ inputs, (∀ past next, past <+: inputs →
        (chatLoop codec settings).run ⟨[], []⟩ past = some next → Clean next.history) ↔
      (chatLoop codec settings).Along (RepliesFit codec) ⟨[], []⟩ inputs := by
  constructor
  · intro reply
    rcases exists_cleaned reply with ⟨cleaned, removed, -⟩
    exact ⟨cleaned, removed, clean_iff_of_removed removed⟩
  · intro inputs
    apply @Machine.safe_iff_along _ _ (chatLoop codec settings) fun chat => Clean chat.history
    · intro chat input next clean taken
      exact clean_step_iff clean taken
    · exact fun text isMember => absurd isMember List.not_mem_nil

end Cllama.Cli
