import Cllama.Api.Handlers
import Cllama.Boundary.CutResponses
import Cllama.Boundary.SamplingOptions
import Cllama.Cli.ChatHistory
import Cllama.Library.JsonEntries
import Cllama.Runner.ChatTemplate

/-!
# A chat from end to end

A line of the user goes with the messages before it from the command line to the controller, from
there to the manager, and on to the runner, which renders and generates; the text comes back the
same way.  Seen from the user, a chat is a sequence of exchanges in which each reply is generated
from the messages before it.
-/

namespace Cllama.Boundary

open Cllama.Library Cllama.Core RunnerMgr Cllama.Platform Cllama.Api Cllama.Cli

/-! ## Messages -/

/-- The roles and contents of some exchanges. -/
def spoken (exchanges : List (Bytes × Bytes)) : List (Bytes × Bytes) :=
  exchanges.flatMap fun exchange =>
    [(bytes "user", exchange.1), (bytes "assistant", exchange.2)]

/-- The roles and contents of a request. -/
def asked (exchanges : List (Bytes × Bytes)) (line : Bytes) : List (Bytes × Bytes) :=
  spoken exchanges ++ [(bytes "user", line)]

/-- The messages of the manager. -/
def managed (messages : List (Bytes × Bytes)) : List Message :=
  messages.map fun message => ⟨message.1, message.2⟩

/-- A message as it is written, by the client as well as by the manager. -/
def written (message : Bytes × Bytes) : Json :=
  .obj [(bytes "content", .str message.2), (bytes "role", .str message.1)]

theorem remembered_spoken (exchanges : List (Bytes × Bytes)) :
    exchanges.flatMap remembered = (spoken exchanges).map written := by
  rw [spoken, List.map_flatMap]
  rfl

theorem history_asked (exchanges : List (Bytes × Bytes)) (line : Bytes) :
    exchanges.flatMap remembered ++ [message "user" line] =
      (asked exchanges line).map written := by
  rw [asked, List.map_append, remembered_spoken]
  rfl

theorem messagesToJson_managed (messages : List (Bytes × Bytes)) :
    messagesToJson (managed messages) = .arr (messages.map written) := by
  rw [messagesToJson, managed, List.map_map]
  rfl

/-- The controller reads the messages that the client wrote. -/
theorem mapM_message (messages : List (Bytes × Bytes)) :
    (messages.map written).mapM Oatpp.message = some (managed messages) := by
  induction messages with
  | nil => rfl
  | cons message messages ih =>
      rw [List.map_cons, List.mapM_cons, ih]
      rfl

/-- So does the runner those that the manager wrote. -/
theorem conversation_managed (messages : List (Bytes × Bytes)) :
    Runner.Conversation (messagesToJson (managed messages)) messages := by
  rw [messagesToJson_managed, Runner.Conversation, Runner.elements]
  induction messages with
  | nil => exact .nil
  | cons message messages ih => exact .cons ⟨rfl, rfl⟩ ih

/-! ## From the client to the controller -/

variable {codec : Codec} {conversions : Conversions} {settings : ChatSettings}

/-- The settings have the types that the flags have. -/
structure Typed (conversions : Conversions) (settings : ChatSettings) : Prop where
  maxTokens : -2 ^ 31 ≤ settings.maxTokens ∧ settings.maxTokens < 2 ^ 31
  topK : -2 ^ 31 ≤ settings.topK ∧ settings.topK < 2 ^ 31
  temp : ∀ value, settings.temp = some value → conversions.float value = value
  topP : ∀ value, settings.topP = some value → conversions.float value = value

/-- The options of the manager for a chat at a temperature. -/
def chatOptions (conversions : Conversions) (settings : ChatSettings) (temp : ℚ) :
    CompletionOptions :=
  { defaultOptions conversions with maxTokens := settings.maxTokens, temperature := temp }

theorem jsonFloat_machine {value : Runner.CFloat}
    (isFloat : ∀ number, value = some number → conversions.float number = number) :
    (Runner.jsonFloat value).Machine conversions := by
  cases value with
  | none => exact .null
  | some number =>
      have same := conversions.double_float number
      rw [isFloat number rfl] at same
      exact .real same

theorem body_machine (typed : Typed conversions settings) (messages : List (Bytes × Bytes)) :
    (settings.body (messages.map written)).Machine conversions := by
  have each : ∀ item ∈ messages.map written, item.Machine conversions := by
    rw [List.forall_mem_map]
    intro message _
    apply Json.Machine.ofKeys [bytes "content", bytes "role"] rfl (by decide)
    exact ⟨.str _, .str _⟩
  apply Json.Machine.ofKeys [bytes "max_tokens", bytes "messages", bytes "model",
    bytes "temperature", bytes "top_k", bytes "top_p"] rfl (by decide)
  have ⟨maxTokens, topK, temp, topP⟩ := typed
  refine ⟨.int ?_ ?_, .arr each, .str _, jsonFloat_machine temp, .int ?_ ?_,
    jsonFloat_machine topP⟩
  all_goals omega

theorem oatpp_maxTokens (typed : Typed conversions settings) (history : List Json) :
    Oatpp.maxTokens conversions (settings.body history) = some settings.maxTokens := by
  have contains : (settings.body history).contains "max_tokens" = true := rfl
  have find : (settings.body history).find "max_tokens" = some (.int settings.maxTokens) := rfl
  rw [Oatpp.maxTokens, if_pos contains, find, Option.bind_some, Conversions.getInt,
    Conversions.wrap_of_int typed.maxTokens]

/-- A temperature that is no number is written as null, which is none. -/
theorem oatpp_temperature (typed : Typed conversions settings) (history : List Json) :
    Oatpp.temperature conversions (settings.body history) = settings.temp := by
  have contains : (settings.body history).contains "temperature" = true := rfl
  have find : (settings.body history).find "temperature" =
      some (Runner.jsonFloat settings.temp) := rfl
  rw [Oatpp.temperature, if_pos contains, find, Option.bind_some]
  cases isTemp : settings.temp with
  | none => rfl
  | some temp => rw [Runner.jsonFloat, Conversions.getFloat, typed.temp temp isTemp]

/-- The call that the controller makes for a chat. -/
theorem oatpp_command_chat (typed : Typed conversions settings) (manager : RunnerManager)
    (messages : List (Bytes × Bytes)) :
    Oatpp.command conversions manager .chatCompletions (settings.body (messages.map written)) =
      settings.temp.map fun temp =>
        .chatCompletion settings.name (managed messages)
          (chatOptions conversions settings temp) := by
  have model : (settings.body (messages.map written)).value Json.getString "model" [] =
      some settings.name := rfl
  have stream : (settings.body (messages.map written)).value Json.getBool "stream" false =
      some false := rfl
  have find : (settings.body (messages.map written)).find "messages" =
      some (.arr (messages.map written)) := rfl
  have items : Oatpp.messages (settings.body (messages.map written)) = some (managed messages) := by
    rw [Oatpp.messages, find]
    exact mapM_message messages
  rw [Oatpp.command, Oatpp.chatCompletions, model, stream, items, Oatpp.options,
    oatpp_maxTokens typed, oatpp_temperature typed]
  cases settings.temp <;> rfl

/-! ## From the controller to the runner -/

theorem chatOptions_deliverable (typed : Typed conversions settings) {temp : ℚ}
    (isTemp : settings.temp = some temp) :
    Deliverable conversions (chatOptions conversions settings temp) where
  maxTokens := typed.maxTokens
  temperature := typed.temp temp isTemp
  topP := conversions.float_float _
  topK := ⟨(by decide : (-2 ^ 31 : Int) ≤ 40), (by decide : (40 : Int) < 2 ^ 31)⟩

/-- What the runner reads of a chat. -/
theorem chatRequest_of_dump (faithful : codec.Faithful conversions)
    (messages : List (Bytes × Bytes)) {opts : CompletionOptions}
    (deliverable : Deliverable conversions opts) (chatTemplate : Bytes) {text : Bytes}
    (dumped : codec.dump (chatBody (managed messages) opts) = some text) :
    Runner.chatRequest codec conversions chatTemplate text =
      some (messagesToJson (managed messages), runnerOpts opts, chatTemplate) := by
  have index : (chatBody (managed messages) opts).index "messages" =
      some (messagesToJson (managed messages)) := rfl
  have options : (chatBody (managed messages) opts).value some "options" (.obj []) =
      some (optsToJson opts) := rfl
  have template : (chatBody (managed messages) opts).value Json.getString "chat_template"
      chatTemplate = some chatTemplate := rfl
  rw [Runner.chatRequest, faithful _ text (chatBody_machine _ deliverable) dumped]
  simp only [Option.bind_eq_bind, Option.bind_some, index, options, template,
    optsFromJson_optsToJson deliverable]
  rfl

section Generation

variable (llama : Runner.Llama) (typeError : Json → Bytes) (chatTemplate : Bytes)

/-- The generation for a conversation, under the default template of the runner. -/
def generationOf (conversions : Conversions) (settings : ChatSettings) (temp : ℚ)
    (messages : List (Bytes × Bytes)) : Runner.Generation :=
  Runner.generate llama (Runner.chatPrompt llama chatTemplate (Runner.handed messages))
    (runnerOpts (chatOptions conversions settings temp)) true

theorem chat_eq_generationOf (temp : ℚ) (messages : List (Bytes × Bytes)) :
    Runner.chat llama typeError (messagesToJson (managed messages))
        (runnerOpts (chatOptions conversions settings temp)) chatTemplate =
      generationOf llama chatTemplate conversions settings temp messages := by
  rw [Runner.chat, Runner.readMessages_conversation (conversation_managed messages)]
  rfl

/-- A request whose pieces come from a generation, which may not be over. -/
def Generates (generation : Runner.Generation) (state : Runner.State) : Prop :=
  state.produced <+: generation.pieces ∧
    ∀ text, state.finalText = some text → text = generation.text

/-- What arrives of the response of the runner to a chat.  A response with another status is not
looked at. -/
def RunnerAnswers (codec : Codec) (conversions : Conversions) (text : Bytes)
    (exchange : Http.Exchange) : Prop :=
  exchange.status = some 200 →
    ∃ messages opts template state,
      Runner.chatRequest codec conversions chatTemplate text = some (messages, opts, template) ∧
        (Runner.tokenStream codec).Reachable state ∧
        Generates (Runner.chat llama typeError messages opts template) state ∧
        exchange.body <+: state.output

variable {llama typeError chatTemplate}

/-- A blocking request for a chat that succeeds has the text of the generation, or none. -/
theorem text_of_reply (lawful : codec.Lawful) (encloses : Encloses codec)
    (faithful : codec.Faithful conversions) (typed : Typed conversions settings) {temp : ℚ}
    (isTemp : settings.temp = some temp) {messages : List (Bytes × Bytes)} {sent : Bytes}
    (dumped : codec.dump (chatBody (managed messages) (chatOptions conversions settings temp)) =
      some sent)
    {exchange : Http.Exchange}
    (answers : RunnerAnswers llama typeError chatTemplate codec conversions sent exchange)
    {text : Bytes} (replied : chatCompletionReply codec exchange = .ok text) :
    text = [] ∨
      text = (generationOf llama chatTemplate conversions settings temp messages).text := by
  rw [chatCompletionReply, postReply, Http.Exchange.reply] at replied
  cases status : exchange.status with
  | none =>
      rw [status] at replied
      cases replied
  | some code =>
      rw [status] at replied
      simp only [Option.map_some] at replied
      split at replied
      next => cases replied
      next success =>
        rw [Classical.not_not.mp success] at status
        rcases answers status with
          ⟨items, opts, template, state, request, reachable, generates, arrived⟩
        rw [chatRequest_of_dump faithful messages (chatOptions_deliverable typed isTemp)
          chatTemplate dumped, Option.some.injEq, Prod.mk.injEq, Prod.mk.injEq] at request
        rcases request with ⟨rfl, rfl, rfl⟩
        rw [chat_eq_generationOf] at generates
        have delivering := Runner.delivering_invariant.of_reachable reachable
        rcases parseNdjson_cut lawful encloses delivering.output arrived with
          ⟨front, isFront, -, parsed⟩ | ⟨-, parsed⟩
        · rw [parsed, Except.ok.injEq] at replied
          subst replied
          cases done : front.any isDone with
          | true => exact Or.inr (generates.2 _ (whole_of_done delivering isFront done).2)
          | false => exact Or.inl (textAfter_of_notDone done)
        · rw [parsed] at replied
          cases replied

end Generation

/-! ## From the manager to the client -/

theorem chatResponse_textual {stamps : Stamps} {model text : Bytes}
    (modelValid : Utf8.valid model = true) (textValid : Utf8.valid text = true) :
    (chatResponse stamps model (.ok text)).Textual := by
  have idValid : Utf8.valid (bytes "chatcmpl-" ++ bytes (toString stamps.id)) = true :=
    Utf8.valid_append (by decide) (Utf8.valid_digits _)
  apply Json.Textual.ofKeys [bytes "choices", bytes "created", bytes "id", bytes "model",
    bytes "object", bytes "usage"] rfl (by decide) (by decide)
  refine ⟨.arr (List.forall_mem_singleton.mpr ?_), .int _, .str idValid, .str modelValid,
    .str (by decide), ?_⟩
  · apply Json.Textual.ofKeys [bytes "finish_reason", bytes "index", bytes "logprobs",
      bytes "message"] rfl (by decide) (by decide)
    refine ⟨.str (by decide), .int _, .null, ?_⟩
    apply Json.Textual.ofKeys [bytes "content", bytes "role"] rfl (by decide) (by decide)
    exact ⟨.str textValid, .str (by decide)⟩
  · apply Json.Textual.ofKeys [bytes "completion_tokens", bytes "prompt_tokens",
      bytes "total_tokens"] rfl (by decide) (by decide)
    exact ⟨.int _, .int _, .int _⟩

/-- A response that has been written has well-formed texts. -/
theorem textual_chatResponse {stamps : Stamps} {model text : Bytes}
    (wellFormed : (chatResponse stamps model (.ok text)).WellFormed) :
    (chatResponse stamps model (.ok text)).Textual := by
  have modelValid : Utf8.valid model = true :=
    (@Json.WellFormed.find _ (.str model) "model" wellFormed rfl).valid
  have choices := @Json.WellFormed.find _ _ "choices" wellFormed rfl
  cases choices with
  | arr each =>
      have message := @Json.WellFormed.find _ _ "message" (each _ List.mem_cons_self) rfl
      have textValid := (@Json.WellFormed.find _ (.str text) "content" message rfl).valid
      exact chatResponse_textual modelValid textValid

theorem textual_chatResponse_error {stamps : Stamps} {model : Bytes} {error : Error}
    (wellFormed : (chatResponse stamps model (.error error)).WellFormed) :
    (chatResponse stamps model (.error error)).Textual := by
  have modelValid : Utf8.valid model = true :=
    (@Json.WellFormed.find _ (.str model) "model" wellFormed rfl).valid
  have reported := @Json.WellFormed.find _ _ "error" wellFormed rfl
  have messageValid : Utf8.valid error.message = true :=
    (@Json.WellFormed.find _ (.str error.message) "message" reported rfl).valid
  have idValid : Utf8.valid (bytes "chatcmpl-" ++ bytes (toString stamps.id)) = true :=
    Utf8.valid_append (by decide) (Utf8.valid_digits _)
  apply Json.Textual.ofKeys [bytes "created", bytes "error", bytes "id", bytes "model",
    bytes "object"] rfl (by decide) (by decide)
  refine ⟨.int _, ?_, .str idValid, .str modelValid, .str (by decide)⟩
  apply Json.Textual.ofKeys [bytes "message", bytes "type"] rfl (by decide) (by decide)
  exact ⟨.str messageValid, .str (by decide)⟩

theorem outcome_eq_reply (lawful : codec.Lawful) {stamps : Stamps} {model text : Bytes}
    {exchange : Http.Exchange}
    (dumped : codec.dump (chatResponse stamps model (.ok text)) = some exchange.body)
    (success : exchange.status = some 200) : outcome codec exchange = .reply text := by
  have reply : exchange.reply = some (200, exchange.body) := by
    rw [Http.Exchange.reply, success, Option.map_some]
  have textual := textual_chatResponse (lawful.wellFormed _ _ dumped)
  have read : readReply codec exchange.body = some (.reply text) := by
    rw [readReply, lawful.parse_dump _ _ textual dumped]
    rfl
  rw [outcome, reply]
  dsimp only
  rw [if_neg (not_not.mpr rfl), read, Option.getD_some]

theorem outcome_ne_reply (lawful : codec.Lawful) {stamps : Stamps} {model text : Bytes}
    {error : Error} {exchange : Http.Exchange}
    (dumped : codec.dump (chatResponse stamps model (.error error)) = some exchange.body)
    (success : exchange.status = some 200) : outcome codec exchange ≠ .reply text := by
  have reply : exchange.reply = some (200, exchange.body) := by
    rw [Http.Exchange.reply, success, Option.map_some]
  have textual := textual_chatResponse_error (lawful.wellFormed _ _ dumped)
  have choices : (chatResponse stamps model (.error error)).contains "choices" = false := rfl
  have reported : (chatResponse stamps model (.error error)).contains "error" = true := rfl
  intro isReply
  rw [outcome, reply] at isReply
  dsimp only at isReply
  rw [if_neg (not_not.mpr rfl), readReply, lawful.parse_dump _ _ textual dumped] at isReply
  simp only [Option.bind_eq_bind, Option.bind_some, choices, reported, Bool.false_and,
    Bool.false_eq_true, if_false, if_true] at isReply
  cases found : codec.dump
      (((chatResponse stamps model (.error error)).find "error").getD .null) <;>
    rw [found] at isReply <;> cases isReply

/-- What the client reads in a response of the controller: its text, and none in an error. -/
theorem outcome_of_chatResponse (lawful : codec.Lawful) {stamps : Stamps} {model text : Bytes}
    {result : CLlamaResult Bytes} {exchange : Http.Exchange}
    (dumped : codec.dump (chatResponse stamps model result) = some exchange.body)
    (success : exchange.status = some 200)
    (isReply : outcome codec exchange = .reply text) : result = .ok text := by
  cases result with
  | error error => exact absurd isReply (outcome_ne_reply lawful dumped success)
  | ok content =>
      rw [outcome_eq_reply lawful dumped success] at isReply
      cases isReply
      rfl

/-! ## A turn -/

section Turns

variable (llama : Runner.Llama) (typeError : Json → Bytes) (chatTemplate : Bytes)

/-- A successful response to a request of the client is one that the controller has written, on a
server in any state, and what the manager got from the runner that it found or started is a
response of the runner to what it sent. -/
def Served (codec : Codec) (conversions : Conversions) (body : Bytes)
    (exchange : Http.Exchange) : Prop :=
  exchange.status = some 200 → ∃ os stamps system handled,
    handled = handle os codec conversions stamps .chatCompletions body system ∧
      handled.response = some (.json 200 exchange.body) ∧
      ∀ model messages opts r next sent,
        handled.command = some (.chatCompletion model messages opts) →
        getOrStart os model system = (some (some r), next) →
        codec.dump (chatBody messages opts) = some sent →
        RunnerAnswers llama typeError chatTemplate codec conversions sent
          (next.world.request os r.client (bytes "/api/chat") sent).1.2

/-- The requests of a chat are served. -/
def TurnServed (codec : Codec) (conversions : Conversions) (settings : ChatSettings)
    (chat : Chat) (input : Bytes × Http.Exchange) : Prop :=
  input.1 ∉ chatCommands →
    ∀ body, codec.dump (settings.body (chat.history ++ [message "user" input.1])) = some body →
      Served llama typeError chatTemplate codec conversions body input.2

/-- A reply is the text that the model generates for the messages up to it, without control
tokens, or it is empty. -/
def RepliedTo (conversions : Conversions) (settings : ChatSettings)
    (before : List (Bytes × Bytes)) (line reply : Bytes) : Prop :=
  ∃ temp, settings.temp = some temp ∧
    (reply = [] ∨ removeControlTokens
      (generationOf llama chatTemplate conversions settings temp (asked before line)).text =
        some reply)

variable {llama typeError chatTemplate}

/-- What a library has to do for a chat. -/
structure Conversing (codec : Codec) (conversions : Conversions) : Prop where
  portable : codec.Portable
  faithful : codec.Faithful conversions
  encloses : Encloses codec

/-- A proxied request that succeeds has been sent to a runner, which answered it. -/
theorem proxy_eq_ok {os : Os} {α : Type} {modelName path : Bytes} {json : Json}
    {reply : Http.Exchange → CLlamaResult α} {system : System} {value : α}
    (called : (proxy os codec modelName path json reply system).1 = some (.ok value)) :
    ∃ r next sent, getOrStart os modelName system = (some (some r), next) ∧
      codec.dump json = some sent ∧
      reply (next.world.request os r.client path sent).1.2 = .ok value := by
  unfold proxy at called
  split at called
  · cases called
  · cases called
  next r next found =>
    split at called
    · cases called
    next sent dumped => exact ⟨r, next, sent, found, dumped, Option.some.inj called⟩

/-- A reply to the client is a text that the manager has got from a runner. -/
theorem exists_reply (conversing : Conversing codec conversions)
    (typed : Typed conversions settings) {messages : List (Bytes × Bytes)} {body text : Bytes}
    (dumped : codec.dump (settings.body (messages.map written)) = some body)
    {exchange : Http.Exchange}
    (served : Served llama typeError chatTemplate codec conversions body exchange)
    (isReply : outcome codec exchange = .reply text) :
    ∃ temp, settings.temp = some temp ∧
      (text = [] ∨
        text = (generationOf llama chatTemplate conversions settings temp messages).text) := by
  have success : exchange.status = some 200 := by
    rw [outcome, Http.Exchange.reply] at isReply
    cases status : exchange.status with
    | none =>
        rw [status] at isReply
        cases isReply
    | some code =>
        rw [status] at isReply
        simp only [Option.map_some] at isReply
        split at isReply
        next => cases isReply
        next same => rw [Classical.not_not.mp same]
  rcases served success with ⟨os, stamps, system, handled, isHandled, response, answers⟩
  have parsed := conversing.faithful _ _ (body_machine typed messages) dumped
  have free := conversing.portable.nul_not_mem _ _ dumped
  rw [Api.handle, Runner.cString_of_not_mem free, parsed] at isHandled
  dsimp only at isHandled
  rw [oatpp_command_chat typed] at isHandled
  cases isTemp : settings.temp with
  | none =>
      rw [isTemp, Option.map_none] at isHandled
      dsimp only at isHandled
      rw [isHandled] at response
      cases response
  | some temp =>
      refine ⟨temp, rfl, ?_⟩
      rw [isTemp, Option.map_some] at isHandled
      dsimp only at isHandled
      rw [Api.perform, respond] at isHandled
      rw [isHandled] at response answers
      dsimp only at response answers
      rcases Option.bind_eq_some_iff.mp response with ⟨result, called, replied⟩
      rcases Option.map_eq_some_iff.mp replied with ⟨responseText, responseDumped, same⟩
      cases same
      have isOk :=
        outcome_of_chatResponse conversing.portable.toLawful responseDumped success isReply
      subst isOk
      rcases proxy_eq_ok called with ⟨r, next, sent, found, sentDumped, isText⟩
      exact text_of_reply conversing.portable.toLawful conversing.encloses conversing.faithful
        typed isTemp sentDumped (answers _ _ _ r next sent rfl found sentDumped) isText

/-- Every turn extends the exchanges by one that is replied to, or leaves them, or drops them. -/
theorem exchanges_of_turn (conversing : Conversing codec conversions)
    (typed : Typed conversions settings) {chat next : Chat} {input : Bytes × Http.Exchange}
    {exchanges : List (Bytes × Bytes)} (history : chat.history = exchanges.flatMap remembered)
    (served : TurnServed llama typeError chatTemplate codec conversions settings chat input)
    (took : turn codec settings input.1 input.2 chat = .ok next) :
    next.history = exchanges.flatMap remembered ∨ next.history = [] ∨
      ∃ reply, next.history = (exchanges ++ [(input.1, reply)]).flatMap remembered ∧
        RepliedTo llama chatTemplate conversions settings exchanges input.1 reply := by
  rcases turn_cases took with ⟨-, rfl⟩ | ⟨-, rfl⟩ | ⟨isMessage, sent⟩
  · exact Or.inl history
  · exact Or.inr (Or.inl rfl)
  · rcases send_cases sent with
      ⟨body, dumped, -, ⟨-, kept⟩ | ⟨text, reply, isReply, removed, extended⟩⟩
    · exact Or.inl (kept.trans history)
    · right
      right
      refine ⟨reply, ?_, ?_⟩
      · rw [extended, history, List.flatMap_append]
        rfl
      · have servedBody := served isMessage body dumped
        rw [history, history_asked] at dumped
        rcases exists_reply conversing typed dumped servedBody isReply with
          ⟨temp, isTemp, isText⟩
        refine ⟨temp, isTemp, ?_⟩
        rcases isText with rfl | rfl
        · left
          have nothing : removeControlTokens [] = some [] := by decide
          rw [nothing, Option.some.injEq] at removed
          exact removed.symm
        · exact Or.inr removed

/-- A chat as the user sees it: every reply is one to the messages before it. -/
inductive Dialogue (llama : Runner.Llama) (chatTemplate : Bytes) (conversions : Conversions)
    (settings : ChatSettings) : List (Bytes × Bytes) → Prop where
  | nil : Dialogue llama chatTemplate conversions settings []
  | reply {exchanges : List (Bytes × Bytes)} {line reply : Bytes} :
      Dialogue llama chatTemplate conversions settings exchanges →
      RepliedTo llama chatTemplate conversions settings exchanges line reply →
      Dialogue llama chatTemplate conversions settings (exchanges ++ [(line, reply)])

theorem dialogue_of_run (conversing : Conversing codec conversions)
    (typed : Typed conversions settings) {inputs : List (Bytes × Http.Exchange)}
    {chat next : Chat} {exchanges : List (Bytes × Bytes)}
    (history : chat.history = exchanges.flatMap remembered)
    (dialogue : Dialogue llama chatTemplate conversions settings exchanges)
    (served : (chatLoop codec settings).Along
      (TurnServed llama typeError chatTemplate codec conversions settings) chat inputs)
    (ran : (chatLoop codec settings).run chat inputs = some next) :
    ∃ exchanges, next.history = exchanges.flatMap remembered ∧
      Dialogue llama chatTemplate conversions settings exchanges := by
  induction inputs generalizing chat exchanges with
  | nil =>
      cases ran
      exact ⟨exchanges, history, dialogue⟩
  | cons input inputs ih =>
      rw [Machine.run, List.foldlM_cons] at ran
      rcases Option.bind_eq_some_iff.mp ran with ⟨middle, taken, rest⟩
      rcases served middle taken with ⟨turnServed, later⟩
      rcases exchanges_of_turn conversing typed history turnServed (step_eq_some_iff.mp taken) with
        kept | empty | ⟨reply, extended, repliedTo⟩
      · exact ih kept dialogue later rest
      · exact @ih middle [] empty .nil later rest
      · exact ih extended (.reply dialogue repliedTo) later rest

end Turns

/-- A library that says `Hi` to everything. -/
def greeter : Runner.Llama where
  Context := Unit
  Sampler := Nat
  Token := Nat
  initFromModel _ := .ok (some ())
  nCtx _ := 2048
  tokenize _ _ _ := .ok (1, [0])
  decode _ _ := .ok (0, ())
  sampler _ _ _ := .ok 0
  sample count _ := .ok (count, count + 1)
  isEog token := decide (1 ≤ token)
  tokenToPiece _ _ := (2, bytes "Hi")
  chatApplyTemplate _ _ _ := (0, [])

def greeterSettings : ChatSettings := ⟨bytes "m", 1, some (1 / 2), some (1 / 2), 40⟩

def clientJson : Json := greeterSettings.body [message "user" (bytes "hi")]

def clientText : Bytes :=
  ["\x7b\"max_tokens\":1,", "\"messages\":[\x7b\"content\":\"hi\",", "\"role\":\"user\"\x7d],",
    "\"model\":\"m\",", "\"temperature\":0.5,", "\"top_k\":40,\"top_p\":0.5\x7d"].flatMap bytes

def managerJson : Json :=
  chatBody [⟨bytes "user", bytes "hi"⟩] ⟨1, 1 / 2, 15938355 / 16777216, 40⟩

def managerText : Bytes :=
  ["\x7b\"messages\":[\x7b\"content\":\"hi\",", "\"role\":\"user\"\x7d],",
    "\"options\":\x7b\"max_tokens\":1,", "\"temperature\":0.5,\"top_k\":40,",
    "\"top_p\":0.949999988079071\x7d\x7d"].flatMap bytes

/-- The reference format with the two requests of the greeting, which have fractions. -/
def greeterCodec : Codec :=
  (JsonText.reference.withEntry clientJson clientText).withEntry managerJson managerText

theorem Encloses.withEntry (encloses : Encloses codec) {json : Json} {entry : Bytes}
    (noRecord : ∀ record : Runner.Emitted, record.json ≠ json)
    (notWithin : ∀ (record : Runner.Emitted) (text : Bytes),
      codec.dump record.json = some text → ¬entry <+: text) :
    Encloses (codec.withEntry json entry) := by
  intro record text left dumped isPrefix cut
  rw [Codec.withEntry] at dumped ⊢
  dsimp only at dumped ⊢
  rw [if_neg (noRecord record)] at dumped
  split
  next isEntry =>
    rw [isEntry] at isPrefix
    exact absurd isPrefix (notWithin record text dumped)
  next => exact encloses record text left dumped isPrefix cut

/-- What a record starts with in the reference format. -/
theorem start_of_record {record : Runner.Emitted} {text : Bytes}
    (dumped : JsonText.reference.dump record.json = some text) :
    text.take 3 = bytes "\x7b\"t" ∨ text.take 3 = bytes "\x7b\"d" := by
  have token : JsonText.printString (bytes "token") = some (bytes "\"token\"") := by decide
  have done : JsonText.printString (bytes "done") = some (bytes "\"done\"") := by decide
  cases record with
  | token piece =>
      rcases Option.map_eq_some_iff.mp dumped with ⟨members, printed, rfl⟩
      rw [JsonText.printMembers, token] at printed
      simp only [Option.bind_eq_bind, Option.bind_eq_some_iff, Option.bind_some] at printed
      rcases printed with ⟨value, -, whole⟩
      cases whole
      exact Or.inl rfl
  | done final =>
      rcases Option.map_eq_some_iff.mp dumped with ⟨members, printed, rfl⟩
      rw [JsonText.printMembers, done] at printed
      simp only [Option.bind_eq_bind, Option.bind_eq_some_iff, Option.bind_some] at printed
      rcases printed with ⟨value, -, rest, -, whole⟩
      cases whole
      exact Or.inr rfl

theorem not_within_record {entry : Bytes} (start : entry.take 3 = bytes "\x7b\"m")
    (record : Runner.Emitted) (text : Bytes)
    (dumped : JsonText.reference.dump record.json = some text) : ¬entry <+: text := by
  rintro ⟨rest, rfl⟩
  have long : 3 ≤ entry.length := by
    have length := congrArg List.length start
    rw [List.length_take] at length
    have three : (bytes "\x7b\"m").length = 3 := by decide
    omega
  have within := start_of_record dumped
  rw [List.take_append_of_le_length long, start] at within
  exact absurd within (by decide)

theorem written_wellFormed : (written (bytes "user", bytes "hi")).WellFormed := by
  apply Json.WellFormed.ofKeys [bytes "content", bytes "role"] rfl (by decide)
  exact ⟨.str (by decide), .str (by decide)⟩

theorem clientJson_wellFormed : clientJson.WellFormed := by
  apply Json.WellFormed.ofKeys [bytes "max_tokens", bytes "messages", bytes "model",
    bytes "temperature", bytes "top_k", bytes "top_p"] rfl (by decide)
  exact ⟨.int _, .arr (List.forall_mem_singleton.mpr written_wellFormed), .str (by decide),
    .real _, .int _, .real _⟩

theorem managerJson_wellFormed : managerJson.WellFormed := by
  apply Json.WellFormed.ofKeys [bytes "messages", bytes "options"] rfl (by decide)
  refine ⟨.arr (List.forall_mem_singleton.mpr written_wellFormed), ?_⟩
  apply Json.WellFormed.ofKeys [bytes "max_tokens", bytes "temperature", bytes "top_k",
    bytes "top_p"] rfl (by decide)
  exact ⟨.int _, .real _, .int _, .real _⟩

theorem clientJson_not_textual : ¬clientJson.Textual := by
  intro textual
  have half : clientJson.find "temperature" = some (.real (1 / 2)) := rfl
  cases textual.find half

theorem managerJson_not_textual : ¬managerJson.Textual := by
  intro textual
  have options : managerJson.find "options" =
    some (optsToJson ⟨1, 1 / 2, 15938355 / 16777216, 40⟩) := rfl
  have half : (optsToJson ⟨1, 1 / 2, 15938355 / 16777216, 40⟩).find "temperature" =
    some (.real (1 / 2)) := rfl
  cases (textual.find options).find half

theorem record_ne_clientJson (record : Runner.Emitted) : record.json ≠ clientJson := by
  cases record <;> exact nofun

theorem record_ne_managerJson (record : Runner.Emitted) : record.json ≠ managerJson := by
  cases record with
  | token piece => exact nofun
  | done text =>
      intro same
      have present : ((Runner.Emitted.done text).json.find "done").isSome = true := rfl
      rw [same] at present
      exact absurd present (by decide)

theorem clientText_dumped : greeterCodec.dump clientJson = some clientText := by
  have differs : clientJson ≠ managerJson := by
    intro same
    have present : (clientJson.find "model").isSome = true := rfl
    rw [same] at present
    exact absurd present (by decide)
  rw [greeterCodec, Codec.withEntry, Codec.withEntry]
  dsimp only
  rw [if_neg differs, if_pos rfl]

theorem greeterCodec_conversing : Conversing greeterCodec nearest where
  portable := by
    apply (JsonText.reference_portable.withEntry _ _ clientJson_wellFormed
      clientJson_not_textual _ _).withEntry _ _ managerJson_wellFormed managerJson_not_textual
    all_goals decide +kernel
  faithful := by
    apply ((JsonText.reference_faithful nearest).withEntry _).withEntry
    all_goals decide +kernel
  encloses := by
    have started (record : Runner.Emitted) (text : Bytes) :=
      @not_within_record managerText (by decide +kernel) record text
    apply (reference_encloses.withEntry record_ne_clientJson
      (not_within_record (by decide +kernel))).withEntry record_ne_managerJson
    intro record text dumped
    rw [Codec.withEntry] at dumped
    dsimp only at dumped
    rw [if_neg (record_ne_clientJson record)] at dumped
    exact started record text dumped

/-- The response of the runner to the greeting. -/
def greeterOutput : Bytes :=
  ["\x7b\"token\":\"Hi\"\x7d\n", "\x7b\"done\":true,\"text\":\"Hi\"\x7d\n"].flatMap bytes

/-- A host on which the runner of `m` answers with it. -/
def greeterHost : Os where
  events n := if n = 3 then [(0, .listening)] else []
  fork _ := 7
  freePort _ := 4000
  fileExists _ := some true
  response _ := ⟨[greeterOutput], some 200⟩
  boundElsewhere _ _ := false
  pidElsewhere _ _ := false

/-- A server that has started the runner. -/
def greeterSystem : System :=
  (RunnerMgr.start greeterHost (bytes "m") (.create (bytes "r") (bytes "/models"))).2

/-- The runner when it has answered. -/
def greeted : Runner.State where
  stream := ⟨[], bytes "Hi", true, false⟩
  provider := .returned
  finalText := some (bytes "Hi")
  produced := [bytes "Hi"]
  pushed := [bytes "Hi"]
  inHand := []
  records := [.token (bytes "Hi"), .done (bytes "Hi")]
  output := greeterOutput
  writeFailed := false

theorem greeted_reachable : (Runner.tokenStream greeterCodec).Reachable greeted :=
  ⟨.fresh, rfl, Machine.reaches_of_run (by decide +kernel :
    (Runner.tokenStream greeterCodec).run .fresh
      [.onToken (bytes "Hi"), .call, .write true, .finish (bytes "Hi"), .lock, .write true] =
        some greeted)⟩

theorem greeterSettings_typed : Typed nearest greeterSettings where
  maxTokens := by decide
  topK := by decide
  temp value isTemp := by
    cases isTemp
    decide +kernel
  topP value isTopP := by
    cases isTopP
    decide +kernel

def greeting : List (Bytes × Bytes) := asked [] (bytes "hi")

theorem greeterHost_answers (world : World) (port : Int) (path body : Bytes) :
    (world.request greeterHost port path body).1.2.body <+: greeterOutput := by
  have whole : Http.Exchange.body ⟨[greeterOutput], some 200⟩ = greeterOutput := rfl
  rw [World.request]
  split
  · rw [greeterHost, whole]
  · exact List.nil_prefix

theorem greeting_handled :
    handle greeterHost greeterCodec nearest ⟨0, 0⟩ .chatCompletions clientText greeterSystem =
      Api.perform greeterHost greeterCodec ⟨0, 0⟩
        (.chatCompletion (bytes "m") (managed greeting)
          (chatOptions nearest greeterSettings (1 / 2))) greeterSystem := by
  have free : (0 : UInt8) ∉ clientText :=
    greeterCodec_conversing.portable.nul_not_mem clientJson clientText clientText_dumped
  have parsed := greeterCodec_conversing.faithful clientJson clientText
    (body_machine greeterSettings_typed greeting) clientText_dumped
  have command := oatpp_command_chat greeterSettings_typed greeterSystem.manager greeting
  rw [handle, Runner.cString_of_not_mem free, parsed]
  dsimp only
  rw [show clientJson = greeterSettings.body (greeting.map written) from rfl, command]
  rfl

/-- The server passes the greeting on to the runner, which answers it. -/
theorem greeting_served {body : Bytes}
    (dumpedResponse : greeterCodec.dump (chatResponse ⟨0, 0⟩ (bytes "m") (.ok (bytes "Hi"))) =
      some body) :
    Served greeter (fun _ => []) [] greeterCodec nearest clientText ⟨[body], some 200⟩ := by
  intro _
  have called : (RunnerMgr.chatCompletion greeterHost greeterCodec (bytes "m") (managed greeting)
      (chatOptions nearest greeterSettings (1 / 2)) greeterSystem).1 = some (.ok (bytes "Hi")) := by
    decide +kernel
  refine ⟨greeterHost, ⟨0, 0⟩, greeterSystem, _, rfl, ?_, ?_⟩
  · rw [greeting_handled, Api.perform, respond, called]
    dsimp only [Option.bind_some]
    rw [jsonResponse, dumpedResponse, Http.Exchange.body, List.flatten_singleton, Option.map_some]
  · intro model messages opts r next sent isCommand found dumped _
    rw [greeting_handled] at isCommand
    cases isCommand
    have request := chatRequest_of_dump greeterCodec_conversing.faithful greeting
      (chatOptions_deliverable greeterSettings_typed rfl) [] dumped
    refine ⟨_, _, _, greeted, request, greeted_reachable, ?_, ?_⟩
    · rw [chat_eq_generationOf]
      have generated : generationOf greeter [] nearest greeterSettings (1 / 2) greeting =
        ⟨[bytes "Hi"], .ok (bytes "Hi")⟩ := by decide +kernel
      rw [generated]
      exact ⟨List.prefix_refl _, fun text isText => (Option.some.inj isText).symm⟩
    · exact greeterHost_answers next.world r.client (bytes "/api/chat") sent

def greetedChat : Chat :=
  ⟨[message "user" (bytes "hi"), message "assistant" (bytes "Hi")], [clientText]⟩

theorem greeting_ran {exchange : Http.Exchange}
    (isReply : outcome greeterCodec exchange = .reply (bytes "Hi")) :
    (chatLoop greeterCodec greeterSettings).run ⟨[], []⟩ [(bytes "hi", exchange)] =
      some greetedChat := by
  have removed : removeControlTokens (bytes "Hi") = some (bytes "Hi") := by decide
  have sent : send greeterCodec greeterSettings (bytes "hi") exchange ⟨[], []⟩ =
      .ok greetedChat := by
    rw [send]
    dsimp only
    rw [show greeterSettings.body ([] ++ [message "user" (bytes "hi")]) = clientJson from rfl,
      clientText_dumped]
    dsimp only
    rw [isReply]
    dsimp only
    rw [removed]
    rfl
  have took : turn greeterCodec greeterSettings (bytes "hi") exchange ⟨[], []⟩ =
      .ok greetedChat := by
    rw [turn, if_neg (by decide), if_neg (by decide), if_neg (by decide), if_neg (by decide), sent]
  rw [Machine.run, List.foldlM_cons, step_eq_some_iff.mpr took]
  rfl

end Cllama.Boundary
