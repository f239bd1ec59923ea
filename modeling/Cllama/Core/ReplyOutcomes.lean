import Cllama.Core.Replies
import Cllama.Library.JsonText

/-!
# Which responses the manager reports as success

The blocking and the streaming requests answer the same question of the same response,
and this module says on which responses they do so alike, which responses keep the
runner's own error, and which let a truncated answer through.  All results are for
responses with status 200 that the transport delivered whole, and for every cutting of
the body into chunks.
-/

namespace Cllama.Core.RunnerMgr

open Cllama.Library

variable {codec : Codec}

/-- What follows the last line feed of a response. -/
def unterminated (chunks : List Bytes) : Bytes :=
  (Lines.split Codec.newline chunks.flatten).2

theorem mem_bodyLines_iff {chunks : List Bytes} {line : Bytes} (nonempty : line ≠ []) :
    line ∈ bodyLines chunks.flatten ↔
      line ∈ terminatedLines chunks ∨ line = unterminated chunks := by
  rw [bodyLines, ← terminatedLines, ← unterminated, List.mem_append]
  by_cases ends : unterminated chunks = []
  · simp [ends, nonempty]
  · simp [ends]

/-- The blocking parser takes the unterminated line for one more line. -/
theorem readLines_bodyLines (read : Bytes → Except Fault Record) (chunks : List Bytes)
    (text : Bytes) :
    readLines read (bodyLines chunks.flatten) text =
      match readLines read (terminatedLines chunks) text with
      | .error fault => .error fault
      | .ok next => readLine read next (unterminated chunks) := by
  rw [bodyLines, ← terminatedLines, ← unterminated, readLines_append]
  cases readLines read (terminatedLines chunks) text with
  | error fault => rfl
  | ok next =>
    dsimp only
    by_cases ends : unterminated chunks = []
    · simp [ends, readLine]
    · rw [if_neg ends, readLines]
      cases readLine read next (unterminated chunks) <;> rfl

theorem mapError_eq_ok {ε δ α : Type} {change : ε → δ} {result : Except ε α} {value : α} :
    result.mapError change = .ok value ↔ result = .ok value := by
  cases result <;> simp [Except.mapError]

theorem postReply_eq_ok {failure : String} {chunks : List Bytes} {text : Bytes} :
    postReply codec failure (delivered chunks) = .ok text ↔
      readLines (readRecord codec) (bodyLines chunks.flatten) [] = .ok text := by
  rw [postReply_eq, mapError_eq_ok]

theorem sendReply_continueAlways_eq_ok {failure : String} {chunks : List Bytes}
    {text : Bytes} :
    sendReply codec failure (some continueAlways) (delivered chunks) = .ok text ↔
      readLines (readStreamRecord codec) (terminatedLines chunks) [] = .ok text := by
  rw [sendReply_continueAlways, mapError_eq_ok]

/-! ## Agreement of the two kinds of request -/

/-- A blocking and a streaming request succeed on the same response, with the same text. -/
def Agree (codec : Codec) (chunks : List Bytes) : Prop :=
  ∀ text,
    (generateCompletionReply codec (delivered chunks) = .ok text ↔
      streamCompletionReply codec (some continueAlways) (delivered chunks) = .ok text) ∧
    (chatCompletionReply codec (delivered chunks) = .ok text ↔
      streamChatReply codec (some continueAlways) (delivered chunks) = .ok text)

/-- The responses on which they do: a terminated line is at fault for both; or one is at
fault for its token only, and the unterminated line for the blocking request; or there is
no fault, and the unterminated line does not change the text. -/
inductive Agreeable (codec : Codec) (chunks : List Bytes) : Prop where
  | fault :
      (∃ line ∈ terminatedLines chunks, Faulty (readRecord codec) line) → Agreeable codec chunks
  | faults :
      (∃ line ∈ terminatedLines chunks, Faulty (readStreamRecord codec) line) →
      Faulty (readRecord codec) (unterminated chunks) → Agreeable codec chunks
  | sound :
      (∀ line ∈ terminatedLines chunks, ¬Faulty (readStreamRecord codec) line) →
      ¬Faulty (readRecord codec) (unterminated chunks) →
      (∀ text, Completes (readRecord codec) (unterminated chunks) text →
        LeavesText (readRecord codec) (terminatedLines chunks) text) → Agreeable codec chunks

theorem readLines_ne_ok {read : Bytes → Except Fault Record} {lines : List Bytes}
    (fault : ∃ line ∈ lines, Faulty read line) (text final : Bytes) :
    readLines read lines text ≠ .ok final := by
  intro succeeded
  rcases fault with ⟨line, member, faulty⟩
  exact (readLines_isOk_iff lines text).mp ⟨final, succeeded⟩ line member faulty

/-- The two readings of a response, compared. -/
theorem readings_agree_iff (chunks : List Bytes) :
    (∀ text, readLines (readRecord codec) (bodyLines chunks.flatten) [] = .ok text ↔
      readLines (readStreamRecord codec) (terminatedLines chunks) [] = .ok text) ↔
      Agreeable codec chunks := by
  rw [readLines_bodyLines]
  by_cases fault : ∃ line ∈ terminatedLines chunks, Faulty (readRecord codec) line
  · have streamFault : ∃ line ∈ terminatedLines chunks, Faulty (readStreamRecord codec) line := by
      rcases fault with ⟨line, member, faulty⟩
      exact ⟨line, member, faulty.stream⟩
    cases read : readLines (readRecord codec) (terminatedLines chunks) [] with
    | ok next => exact absurd read (readLines_ne_ok fault [] next)
    | error _ =>
      refine iff_of_true (fun text => ?_) (.fault fault)
      exact iff_of_false (fun equal => by cases equal) (readLines_ne_ok streamFault [] text)
  · have sound : ∀ line ∈ terminatedLines chunks, ¬Faulty (readRecord codec) line :=
      fun line member faulty => fault ⟨line, member, faulty⟩
    rcases (readLines_isOk_iff (terminatedLines chunks) []).mpr sound with ⟨next, read⟩
    rw [read]
    dsimp only
    have restOk := @readLine_isOk_iff (readRecord codec) next (unterminated chunks)
    by_cases streamFault :
        ∃ line ∈ terminatedLines chunks, Faulty (readStreamRecord codec) line
    · constructor
      · intro agree
        refine .faults streamFault (not_not.mp fun restSound => ?_)
        rcases restOk.mpr restSound with ⟨final, restRead⟩
        exact readLines_ne_ok streamFault [] final ((agree final).mp restRead)
      · intro agreeable text
        rcases agreeable with fault' | ⟨-, restFault⟩ | ⟨streamSound, -, -⟩
        · exact absurd fault' fault
        · exact iff_of_false (fun restRead => restOk.mp ⟨text, restRead⟩ restFault)
            (readLines_ne_ok streamFault [] text)
        · rcases streamFault with ⟨line, member, faulty⟩
          exact absurd faulty (streamSound line member)
    · have streamSound : ∀ line ∈ terminatedLines chunks,
          ¬Faulty (readStreamRecord codec) line :=
        fun line member faulty => streamFault ⟨line, member, faulty⟩
      rw [readLines_stream_eq streamSound, read]
      constructor
      · intro agree
        have restRead := (agree next).mpr rfl
        refine .sound streamSound (restOk.mp ⟨next, restRead⟩) fun text completes => ?_
        rw [readLine_of_completes completes, Except.ok.injEq] at restRead
        exact (leavesText_iff read text).mpr restRead
      · intro agreeable text
        rcases agreeable with fault' | ⟨fault', -⟩ | ⟨-, restSound, unchanged⟩
        · exact absurd fault' fault
        · exact absurd fault' streamFault
        · rcases restOk.mpr restSound with ⟨final, restRead⟩
          have same : final = next := by
            rcases readLine_text restRead with completes | ⟨same, -⟩
            · exact (leavesText_iff read final).mp (unchanged final completes)
            · exact same
          rw [restRead, same]

/-- The blocking and the streaming requests agree on exactly the agreeable responses. -/
theorem agree_iff_agreeable (codec : Codec) (chunks : List Bytes) :
    Agree codec chunks ↔ Agreeable codec chunks := by
  rw [← readings_agree_iff]
  refine forall_congr' fun text => ?_
  rw [generateCompletionReply, chatCompletionReply, postReply_eq_ok, postReply_eq_ok,
    streamCompletionReply, streamChatReply, sendReply_continueAlways_eq_ok,
    sendReply_continueAlways_eq_ok, and_self_iff]

/-- An answer whose last line is not terminated is the full text to a blocking request
and the empty text to a streaming one. -/
theorem not_agree_of_unterminated_done :
    ¬Agree JsonText.reference [bytes "\x7b\"done\":true,\"text\":\"x\"\x7d"] := by
  intro agree
  have text := ((agree (bytes "x")).1.mp (by decide +kernel))
  exact absurd text (by decide +kernel)

/-! ## Errors of the runner in a streaming request -/

/-- The first faulty terminated line of a response is what a streaming request reports, as
the blocking parser does, and no response makes it report a failed connection. -/
def KeepsErrors (codec : Codec) (chunks : List Bytes) : Prop :=
  (∀ before line after fault, terminatedLines chunks = before ++ line :: after →
    (∀ other ∈ before, ¬Faulty (readStreamRecord codec) other) →
    line ≠ [] → readStreamRecord codec line = .error fault →
      streamCompletionReply codec (some continueAlways) (delivered chunks) =
          .error ⟨.modelError, fault.message⟩ ∧
        streamChatReply codec (some continueAlways) (delivered chunks) =
          .error ⟨.modelError, fault.message⟩ ∧
        (readRecord codec line = .error fault →
          parseNdjson codec chunks.flatten = .error ⟨.modelError, fault.message⟩)) ∧
  ∀ message,
    streamCompletionReply codec (some continueAlways) (delivered chunks) ≠
        .error ⟨.networkError, message⟩ ∧
      streamChatReply codec (some continueAlways) (delivered chunks) ≠
        .error ⟨.networkError, message⟩

/-- A fault makes the parser refuse the chunk, so the request ends without a response and
is reported as a failed connection. -/
theorem sendReply_of_fault {chunks : List Bytes}
    (fault : ∃ line ∈ terminatedLines chunks, Faulty (readStreamRecord codec) line)
    (failure : String) :
    sendReply codec failure (some continueAlways) (delivered chunks) =
      .error ⟨.networkError, bytes "Runner connection failed"⟩ := by
  rw [sendReply_continueAlways]
  cases read : readLines (readStreamRecord codec) (terminatedLines chunks) [] with
  | error _ => rfl
  | ok text => exact absurd read (readLines_ne_ok fault [] text)

/-- Errors of the runner survive a streaming request only when there are none. -/
theorem keepsErrors_iff (codec : Codec) (chunks : List Bytes) :
    KeepsErrors codec chunks ↔
      ∀ line ∈ terminatedLines chunks, ¬Faulty (readStreamRecord codec) line := by
  constructor
  · rintro ⟨-, connected⟩ line member faulty
    exact (connected _).1 (sendReply_of_fault ⟨line, member, faulty⟩ _)
  · intro sound
    constructor
    · intro before line after fault cut _ nonempty said
      have member : line ∈ terminatedLines chunks := by simp [cut]
      exact absurd ⟨nonempty, fault, said⟩ (sound line member)
    · intro message
      rcases (readLines_isOk_iff (terminatedLines chunks) []).mpr sound with ⟨text, read⟩
      simp [streamCompletionReply, streamChatReply, sendReply_continueAlways, read,
        Except.mapError]

/-- An error record is reported as a failed connection, and its message is lost. -/
theorem not_keepsErrors_of_error_record :
    ¬KeepsErrors JsonText.reference [bytes "\x7b\"error\":\"x\"\x7d\n"] := by
  rintro ⟨-, connected⟩
  exact (connected (bytes "Runner connection failed")).1 (by decide +kernel)

/-! ## Truncated answers -/

/-- A done record of the response has this text. -/
def Answers (codec : Codec) (chunks : List Bytes) (text : Bytes) : Prop :=
  ∃ line ∈ bodyLines chunks.flatten, Completes (readRecord codec) line text

/-- The blocking requests return only texts of done records. -/
def PostsComplete (codec : Codec) (chunks : List Bytes) : Prop :=
  ∀ text,
    (generateCompletionReply codec (delivered chunks) = .ok text → Answers codec chunks text) ∧
    (chatCompletionReply codec (delivered chunks) = .ok text → Answers codec chunks text)

/-- The streaming requests return only texts of done records, whatever the callback. -/
def StreamsComplete (codec : Codec) (chunks : List Bytes) : Prop :=
  ∀ onToken text,
    (streamCompletionReply codec onToken (delivered chunks) = .ok text →
      Answers codec chunks text) ∧
    (streamChatReply codec onToken (delivered chunks) = .ok text → Answers codec chunks text)

/-- With a callback or without, success means that the terminated lines are records which
leave the text behind. -/
theorem readLines_of_sendReply {failure : String} {chunks : List Bytes}
    {onToken : Option TokenCallback} {text : Bytes}
    (succeeded : sendReply codec failure onToken (delivered chunks) = .ok text) :
    readLines (readRecord codec) (terminatedLines chunks) [] = .ok text := by
  rw [sendReply_eq] at succeeded
  cases folded : Lines.foldWhile (streamParseLine codec) (terminatedLines chunks)
    (.fresh onToken) with
  | mk goOn ctx =>
    rw [folded] at succeeded
    cases goOn with
    | false => cases succeeded
    | true =>
      cases succeeded
      exact (foldWhile_streamParseLine_of_true folded).1

/-- Without a callback, terminated lines without a fault make a streaming request succeed. -/
theorem sendReply_of_sound {chunks : List Bytes}
    (sound : ∀ line ∈ terminatedLines chunks, ¬Faulty (readRecord codec) line)
    (failure : String) :
    ∃ text, sendReply codec failure none (delivered chunks) = .ok text := by
  rcases foldWhile_of_sound (rfl : (StreamCtx.fresh none).onToken = none) sound with ⟨ctx, ran⟩
  exact ⟨ctx.fullText, by rw [sendReply_eq, ran]⟩

/-- The text that terminated lines leave behind is that of a done record, unless they have
none: then only an unterminated done record with the empty text makes up for it. -/
theorem answers_of_readLines {chunks : List Bytes} {text : Bytes}
    (read : readLines (readRecord codec) (terminatedLines chunks) [] = .ok text) :
    Answers codec chunks text ↔
      (∃ line ∈ terminatedLines chunks, ∃ other, Completes (readRecord codec) line other) ∨
        Completes (readRecord codec) (unterminated chunks) [] := by
  constructor
  · rintro ⟨line, member, completes⟩
    rcases (mem_bodyLines_iff completes.1).mp member with terminated | rfl
    · exact Or.inl ⟨line, terminated, text, completes⟩
    · rcases readLines_text read with ⟨other, otherMember, otherCompletes⟩ | ⟨rfl, -⟩
      · exact Or.inl ⟨other, otherMember, text, otherCompletes⟩
      · exact Or.inr completes
  · intro finished
    rcases readLines_text read with ⟨line, member, completes⟩ | ⟨rfl, never⟩
    · exact ⟨line, (mem_bodyLines_iff completes.1).mpr (Or.inl member), completes⟩
    · rcases finished with ⟨line, member, other, completes⟩ | completes
      · exact absurd completes (never line member other)
      · exact ⟨_, (mem_bodyLines_iff completes.1).mpr (Or.inr rfl), completes⟩

/-- The blocking requests return only texts of done records exactly when the body has a
fault or a done record with a text; the streaming requests, exactly when its terminated
lines have one, or the unterminated line is a done record with the empty text. -/
theorem completeness_iff (codec : Codec) (chunks : List Bytes) :
    (PostsComplete codec chunks ↔
      ∃ line ∈ bodyLines chunks.flatten,
        Faulty (readRecord codec) line ∨ ∃ text, Completes (readRecord codec) line text) ∧
    (StreamsComplete codec chunks ↔
      (∃ line ∈ terminatedLines chunks,
        Faulty (readRecord codec) line ∨ ∃ text, Completes (readRecord codec) line text) ∨
      Completes (readRecord codec) (unterminated chunks) []) := by
  constructor
  · rw [PostsComplete]
    simp only [generateCompletionReply, chatCompletionReply, postReply_eq_ok, and_self_iff]
    constructor
    · intro complete
      by_contra neither
      have sound : ∀ line ∈ bodyLines chunks.flatten, ¬Faulty (readRecord codec) line :=
        fun line member faulty => neither ⟨line, member, Or.inl faulty⟩
      rcases (readLines_isOk_iff (bodyLines chunks.flatten) []).mpr sound with ⟨text, read⟩
      rcases complete text read with ⟨line, member, completes⟩
      exact neither ⟨line, member, Or.inr ⟨text, completes⟩⟩
    · rintro ⟨line, member, faulty | ⟨other, completes⟩⟩ text read
      · exact absurd read (readLines_ne_ok ⟨line, member, faulty⟩ [] text)
      · rcases readLines_text read with answered | ⟨-, never⟩
        · exact answered
        · exact absurd completes (never line member other)
  · constructor
    · intro complete
      by_contra neither
      rw [not_or] at neither
      have sound : ∀ line ∈ terminatedLines chunks, ¬Faulty (readRecord codec) line :=
        fun line member faulty => neither.1 ⟨line, member, Or.inl faulty⟩
      rcases sendReply_of_sound sound "Runner request failed: HTTP " with ⟨text, succeeded⟩
      have answered := (complete none text).1 succeeded
      rw [answers_of_readLines (readLines_of_sendReply succeeded)] at answered
      rcases answered with ⟨line, member, completes⟩ | completes
      · exact neither.1 ⟨line, member, Or.inr completes⟩
      · exact neither.2 completes
    · intro finished onToken text
      have answers : ∀ failure, sendReply codec failure onToken (delivered chunks) = .ok text →
          Answers codec chunks text := by
        intro failure succeeded
        have read := readLines_of_sendReply succeeded
        rw [answers_of_readLines read]
        rcases finished with ⟨line, member, faulty | completes⟩ | completes
        · exact absurd read (readLines_ne_ok ⟨line, member, faulty⟩ [] text)
        · exact Or.inl ⟨line, member, completes⟩
        · exact Or.inr completes
      exact ⟨answers _, answers _⟩

theorem Completes.done {read : Bytes → Except Fault Record} {line text : Bytes}
    (completes : Completes read line text) :
    (read line).toOption.bind Record.done = some (some text) := by
  rcases completes with ⟨-, token, said⟩
  rw [said]
  rfl

/-- A body of token records alone is an empty answer, to both kinds of request. -/
theorem not_complete_of_tokens :
    ¬PostsComplete JsonText.reference [bytes "\x7b\"token\":\"x\"\x7d\n"] ∧
      ¬StreamsComplete JsonText.reference [bytes "\x7b\"token\":\"x\"\x7d\n"] := by
  have unanswered : ¬Answers JsonText.reference [bytes "\x7b\"token\":\"x\"\x7d\n"] [] := by
    rintro ⟨line, member, completes⟩
    have lines : bodyLines ([bytes "\x7b\"token\":\"x\"\x7d\n"] : List Bytes).flatten =
        [bytes "\x7b\"token\":\"x\"\x7d"] := by decide +kernel
    rw [lines, List.mem_singleton] at member
    subst member
    exact absurd completes.done (by decide +kernel)
  constructor
  · intro complete
    exact unanswered ((complete []).1 (by decide +kernel))
  · intro complete
    exact unanswered ((complete (some continueAlways) []).1 (by decide +kernel))

end Cllama.Core.RunnerMgr
