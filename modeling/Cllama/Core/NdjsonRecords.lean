import Cllama.Core.NdjsonLines

/-!
# What the lines of a body say

A line is a record, or it ends the reading of the body: because it is no record, or
because it reports an error.  `readRecord` says which, without reference to a parser;
`readLines` is the text that a sequence of lines leaves behind.  The blocking parser
computes `readLines` of all lines of the body.  The streaming parser, with a callback
that always continues, computes it for the terminated lines only, and takes a token that
is no string for a fault.
-/

namespace Cllama.Core.RunnerMgr

open Cllama.Library

/-- Why a line ends the reading of a body. -/
inductive Fault where
  | invalid
  | reported (message : Bytes)
  deriving DecidableEq

def Fault.message : Fault → Bytes
  | .invalid => invalidNdjson
  | .reported message => message

/-- The error the manager makes of a fault. -/
def Fault.error (fault : Fault) : Error := ⟨.modelError, fault.message⟩

/-- A record: its token member, of any kind, and what it says about completion, namely
nothing or the final text if it has one. -/
structure Record where
  token : Option Json
  done : Option (Option Bytes)

namespace Record

/-- The text after a record. -/
def finish (record : Record) (text : Bytes) : Bytes :=
  match record.done with
  | some (some final) => final
  | _ => text

/-- Whether the token, if there is one, is a string. -/
def tokenValid (record : Record) : Bool :=
  match record.token with
  | none => true
  | some token => token.getString.isSome

end Record

/-- What a JSON value says as a record. -/
def readValue (json : Json) : Except Fault Record :=
  match json.find "error" with
  | some error =>
      match error.getString with
      | some message => .error (.reported message)
      | none => .error .invalid
  | none =>
      match json.value Json.getBool "done" false with
      | none => .error .invalid
      | some false => .ok ⟨json.find "token", none⟩
      | some true =>
          match json.find "text" with
          | none => .ok ⟨json.find "token", some none⟩
          | some text =>
              match text.getString with
              | none => .error .invalid
              | some final => .ok ⟨json.find "token", some (some final)⟩

/-- What a line says as a record. -/
def readRecord (codec : Codec) (line : Bytes) : Except Fault Record :=
  match codec.parse line with
  | none => .error .invalid
  | some json => readValue json

/-- The same, where a token has to be a string. -/
def readStreamRecord (codec : Codec) (line : Bytes) : Except Fault Record :=
  match readRecord codec line with
  | .error fault => .error fault
  | .ok record => if record.tokenValid = true then .ok record else .error .invalid

/-- One line, empty lines aside. -/
def readLine (read : Bytes → Except Fault Record) (text line : Bytes) : Except Fault Bytes :=
  if line = [] then .ok text else (read line).map fun record => record.finish text

/-- The text that lines leave behind, or the first fault among them. -/
def readLines (read : Bytes → Except Fault Record) : List Bytes → Bytes → Except Fault Bytes
  | [], text => .ok text
  | line :: lines, text =>
      match readLine read text line with
      | .error fault => .error fault
      | .ok next => readLines read lines next

/-! ## Reading a sequence of lines -/

/-- A line that ends the reading of a body. -/
def Faulty (read : Bytes → Except Fault Record) (line : Bytes) : Prop :=
  line ≠ [] ∧ ∃ fault, read line = .error fault

/-- A line that is a done record with this text. -/
def Completes (read : Bytes → Except Fault Record) (line text : Bytes) : Prop :=
  line ≠ [] ∧ ∃ token, read line = .ok ⟨token, some (some text)⟩

section ReadLines

variable {read : Bytes → Except Fault Record}

@[simp] theorem readLines_nil (text : Bytes) : readLines read [] text = .ok text := rfl

theorem readLines_append (left right : List Bytes) (text : Bytes) :
    readLines read (left ++ right) text =
      match readLines read left text with
      | .error fault => .error fault
      | .ok next => readLines read right next := by
  induction left generalizing text with
  | nil => rfl
  | cons line left ih =>
      rw [List.cons_append, readLines, readLines]
      cases readLine read text line with
      | error fault => rfl
      | ok next => exact ih next

/-- A line fails exactly when it is faulty, whatever the text so far. -/
theorem readLine_isOk_iff (text line : Bytes) :
    (∃ next, readLine read text line = .ok next) ↔ ¬Faulty read line := by
  rw [readLine, Faulty]
  split
  next empty => simp [empty]
  next nonempty =>
    cases read line with
    | error fault => simp [nonempty, Except.map]
    | ok record => simp [Except.map]

/-- Reading succeeds exactly when no line is faulty. -/
theorem readLines_isOk_iff (lines : List Bytes) (text : Bytes) :
    (∃ final, readLines read lines text = .ok final) ↔ ∀ line ∈ lines, ¬Faulty read line := by
  induction lines generalizing text with
  | nil => simp
  | cons line lines ih =>
      rw [readLines, List.forall_mem_cons, ← readLine_isOk_iff text line]
      cases readLine read text line with
      | error fault => simp
      | ok next => simp [ih]

/-- One line leaves its own text behind, or the text before it. -/
theorem readLine_text {line text next : Bytes} (taken : readLine read text line = .ok next) :
    Completes read line next ∨ next = text ∧ ∀ other, ¬Completes read line other := by
  rw [readLine] at taken
  split at taken
  next empty =>
    cases taken
    exact Or.inr ⟨rfl, fun other completes => completes.1 empty⟩
  next nonempty =>
    cases said : read line with
    | error fault =>
        rw [said] at taken
        cases taken
    | ok record =>
        rcases record with ⟨token, done⟩
        rw [said] at taken
        cases taken
        rcases done with _ | _ | final
        · exact Or.inr ⟨rfl, fun other completes => by simp [Completes, said] at completes⟩
        · exact Or.inr ⟨rfl, fun other completes => by simp [Completes, said] at completes⟩
        · exact Or.inl ⟨nonempty, token, said⟩

/-- The text left behind is the one before, or the text of a done record. -/
theorem readLines_text {lines : List Bytes} {text final : Bytes}
    (succeeded : readLines read lines text = .ok final) :
    (∃ line ∈ lines, Completes read line final) ∨
      final = text ∧ ∀ line ∈ lines, ∀ other, ¬Completes read line other := by
  induction lines generalizing text with
  | nil =>
      cases succeeded
      exact Or.inr ⟨rfl, fun line member => by cases member⟩
  | cons line lines ih =>
      rw [readLines] at succeeded
      cases taken : readLine read text line with
      | error fault =>
          rw [taken] at succeeded
          cases succeeded
      | ok next =>
          rw [taken] at succeeded
          rcases ih succeeded with later | ⟨rfl, noneLater⟩
          · rcases later with ⟨other, member, completes⟩
            exact Or.inl ⟨other, List.mem_cons_of_mem _ member, completes⟩
          · rcases readLine_text taken with here | ⟨same, notHere⟩
            · exact Or.inl ⟨line, List.mem_cons_self, here⟩
            · exact Or.inr ⟨same, List.forall_mem_cons.mpr ⟨notHere, noneLater⟩⟩

/-- The text that lines leave behind when none of them is faulty: that of the last done
record with a text, or none. -/
def LeavesText (read : Bytes → Except Fault Record) (lines : List Bytes) (text : Bytes) : Prop :=
  (∃ before line after, lines = before ++ line :: after ∧ Completes read line text ∧
    ∀ later ∈ after, ∀ other, ¬Completes read later other) ∨
  text = [] ∧ ∀ line ∈ lines, ∀ other, ¬Completes read line other

theorem readLine_of_completes {line text : Bytes} (completes : Completes read line text)
    (before : Bytes) : readLine read before line = .ok text := by
  rcases completes with ⟨nonempty, token, said⟩
  rw [readLine, if_neg nonempty, said]
  rfl

/-- Lines that are read leave exactly one text behind. -/
theorem leavesText_iff {lines : List Bytes} {final : Bytes}
    (succeeded : readLines read lines [] = .ok final) (text : Bytes) :
    LeavesText read lines text ↔ text = final := by
  constructor
  · rintro (⟨before, line, after, rfl, completes, noneLater⟩ | ⟨rfl, never⟩)
    · rw [readLines_append] at succeeded
      cases readBefore : readLines read before [] with
      | error fault =>
        rw [readBefore] at succeeded
        cases succeeded
      | ok next =>
        simp only [readBefore, readLines, readLine_of_completes completes] at succeeded
        rcases readLines_text succeeded with ⟨later, member, completesLater⟩ | ⟨same, -⟩
        · exact absurd completesLater (noneLater later member final)
        · exact same.symm
    · rcases readLines_text succeeded with ⟨line, member, completes⟩ | ⟨same, -⟩
      · exact absurd completes (never line member final)
      · exact same.symm
  · rintro rfl
    induction lines using List.reverseRecOn generalizing text with
    | nil =>
        cases succeeded
        exact Or.inr ⟨rfl, fun line member => by cases member⟩
    | append_singleton lines line ih =>
        rw [readLines_append] at succeeded
        cases readBefore : readLines read lines [] with
        | error fault =>
          rw [readBefore] at succeeded
          cases succeeded
        | ok next =>
          simp only [readBefore, readLines] at succeeded
          cases taken : readLine read next line with
          | error fault => simp [taken] at succeeded
          | ok here =>
            simp only [taken, Except.ok.injEq] at succeeded
            subst succeeded
            rcases readLine_text taken with completes | ⟨rfl, notHere⟩
            · exact Or.inl ⟨lines, line, [], rfl, completes, fun later member => by cases member⟩
            · rcases ih here readBefore with
                ⟨before, last, after, rfl, completes, noneLater⟩ | ⟨same, never⟩
              · refine Or.inl ⟨before, last, after ++ [line], by simp, completes, ?_⟩
                exact List.forall_mem_append.mpr ⟨noneLater, by simpa using notHere⟩
              · exact Or.inr ⟨same, List.forall_mem_append.mpr ⟨never, by simpa using notHere⟩⟩

end ReadLines

theorem readRecord_of_readStreamRecord {codec : Codec} {line : Bytes} {record : Record}
    (said : readStreamRecord codec line = .ok record) : readRecord codec line = .ok record := by
  rw [readStreamRecord] at said
  cases read : readRecord codec line with
  | error fault =>
    rw [read] at said
    cases said
  | ok found =>
    rw [read] at said
    dsimp only at said
    split at said
    · exact said
    · cases said

/-- Where no token is at fault, the stricter reading is the same. -/
theorem readLines_stream_eq {codec : Codec} {lines : List Bytes}
    (sound : ∀ line ∈ lines, ¬Faulty (readStreamRecord codec) line) (text : Bytes) :
    readLines (readStreamRecord codec) lines text = readLines (readRecord codec) lines text := by
  induction lines generalizing text with
  | nil => rfl
  | cons line lines ih =>
      rw [List.forall_mem_cons] at sound
      have same : readLine (readStreamRecord codec) text line =
          readLine (readRecord codec) text line := by
        by_cases empty : line = []
        · simp [readLine, empty]
        · cases said : readStreamRecord codec line with
          | error fault => exact absurd ⟨empty, fault, said⟩ sound.1
          | ok record =>
            rw [readLine, readLine, said, readRecord_of_readStreamRecord said]
      rw [readLines, readLines, same]
      split
      · rfl
      · exact ih sound.2 _

/-- The stricter reading finds the faults of the other. -/
theorem Faulty.stream {codec : Codec} {line : Bytes} (faulty : Faulty (readRecord codec) line) :
    Faulty (readStreamRecord codec) line := by
  rcases faulty with ⟨nonempty, fault, said⟩
  refine ⟨nonempty, fault, ?_⟩
  rw [readStreamRecord, said]

/-! ## The blocking parser -/

variable {codec : Codec}

/-- The `value` reader with a default, once the value is known to be an object. -/
theorem value_eq_of_value {α β : Type} {json : Json} {get : Json → Option α}
    {key : String} {default found : α} (object : json.value get key default = some found)
    (getOther : Json → Option β) (other : String) (fallback : β) :
    json.value getOther other fallback =
      match json.find other with
      | some member => getOther member
      | none => some fallback := by
  cases json with
  | obj members => rfl
  | _ => cases object

theorem parseNdjsonRecord_eq (line text : Bytes) :
    parseNdjsonRecord codec line text =
      match readRecord codec line with
      | .error .invalid => none
      | .error (.reported message) => some (.error message)
      | .ok record => some (.ok (record.finish text)) := by
  rw [parseNdjsonRecord, readRecord]
  cases codec.parse line with
  | none => rfl
  | some json =>
    simp only [Option.bind_eq_bind, Option.bind_some, readValue, Json.contains]
    cases json.find "error" with
    | some error =>
      cases read : error.getString with
      | none => simp [read]
      | some message => simp [read]
    | none =>
      cases finished : json.value Json.getBool "done" false with
      | none => simp
      | some done =>
        cases done with
        | false => simp [Record.finish]
        | true =>
          simp only [Option.isSome_none, Option.bind_some, if_true,
            value_eq_of_value finished Json.getString "text"]
          cases json.find "text" with
          | none => simp [Record.finish]
          | some member =>
            cases read : member.getString with
            | none => simp [read]
            | some final => simp [read, Record.finish]

/-- One round of the blocking parser takes one line. -/
theorem parseNdjsonLine_eq (text line : Bytes) :
    parseNdjsonLine codec text line =
      (readLine (readRecord codec) text line).mapError Fault.error := by
  rw [parseNdjsonLine, readLine]
  split
  · rfl
  · rw [parseNdjsonRecord_eq]
    cases readRecord codec line with
    | ok record => rfl
    | error fault => cases fault <;> rfl

/-- The blocking parser reads all lines of the body. -/
theorem parseNdjson_eq_readLines (body : Bytes) :
    parseNdjson codec body =
      (readLines (readRecord codec) (bodyLines body) []).mapError Fault.error := by
  rw [parseNdjson_eq]
  generalize ([] : Bytes) = text
  induction bodyLines body generalizing text with
  | nil => rfl
  | cons line lines ih =>
      rw [List.foldlM_cons, parseNdjsonLine_eq, readLines]
      cases readLine (readRecord codec) text line with
      | error fault => rfl
      | ok next => exact ih next

/-! ## The streaming parser -/

/-- The context after the callback has agreed to a record. -/
def StreamCtx.finish (ctx : StreamCtx) (record : Record) : StreamCtx :=
  { ctx with
    gotDone := ctx.gotDone || record.done.isSome
    fullText := record.finish ctx.fullText }

/-- What the readers of the source find in a record. -/
theorem readValue_eq_ok {json : Json} {record : Record} (said : readValue json = .ok record) :
    json.contains "error" = false ∧ json.find "token" = record.token ∧
      json.value Json.getBool "done" false = some record.done.isSome ∧
      (record.done.isSome = true → ∀ text,
        json.value Json.getString "text" text = some (record.finish text)) := by
  rw [readValue] at said
  cases absent : json.find "error" with
  | some error =>
    rw [absent] at said
    cases read : error.getString <;> simp [read] at said
  | none =>
    rw [absent] at said
    refine ⟨by simp [Json.contains, absent], ?_⟩
    cases finished : json.value Json.getBool "done" false with
    | none =>
      rw [finished] at said
      cases said
    | some done =>
      rw [finished] at said
      cases done with
      | false =>
        cases said
        exact ⟨rfl, rfl, fun impossible => by cases impossible⟩
      | true =>
        have reads := value_eq_of_value finished Json.getString "text"
        cases member : json.find "text" with
        | none =>
          simp only [member, Except.ok.injEq] at said reads
          subst said
          exact ⟨rfl, rfl, fun _ text => reads text⟩
        | some text =>
          cases read : text.getString with
          | none => simp [member, read] at said
          | some final =>
            simp only [member, read, Except.ok.injEq] at said reads
            subst said
            exact ⟨rfl, rfl, fun _ text => reads text⟩

/-- A record is handed to the callback, which decides whether the loop goes on. -/
theorem streamParseRecord_of_ok {line : Bytes} {record : Record}
    (said : readRecord codec line = .ok record) (ctx : StreamCtx) :
    streamParseRecord codec line ctx =
      match ctx.deliver record.token with
      | (none, ctx) => ctx.invalid
      | (some false, ctx) => (false, ctx)
      | (some true, ctx) => (true, ctx.finish record) := by
  rw [readRecord] at said
  rw [streamParseRecord]
  cases parsed : codec.parse line with
  | none =>
    rw [parsed] at said
    cases said
  | some json =>
    rw [parsed] at said
    rcases readValue_eq_ok said with ⟨noError, sameToken, finished, reads⟩
    dsimp only
    rw [noError, if_neg Bool.false_ne_true, sameToken, finished]
    rcases ctx.deliver record.token with ⟨answer, next⟩
    rcases answer with _ | _ | _
    · rfl
    · rfl
    · dsimp only
      rcases record with ⟨token, done⟩
      cases done with
      | none => simp [StreamCtx.finish, Record.finish]
      | some final =>
        simp only [Option.isSome_some, reads]
        simp [StreamCtx.finish]

/-- Handing over a token changes no result of the context. -/
theorem StreamCtx.deliver_frame (ctx : StreamCtx) (token : Option Json) :
    (ctx.deliver token).2.onToken = ctx.onToken ∧
      (ctx.deliver token).2.fullText = ctx.fullText ∧
      (ctx.deliver token).2.gotError = ctx.gotError ∧
      (ctx.deliver token).2.gotDone = ctx.gotDone := by
  unfold StreamCtx.deliver
  split
  · split <;> exact ⟨rfl, rfl, rfl, rfl⟩
  · exact ⟨rfl, rfl, rfl, rfl⟩

/-- The callback that always continues is never the one to stop the loop: only a token
that is no string does. -/
theorem StreamCtx.deliver_continueAlways {ctx : StreamCtx}
    (continuing : ctx.onToken = some continueAlways) (record : Record) :
    (ctx.deliver record.token).1 = if record.tokenValid = true then some true else none := by
  rcases ctx with ⟨leftover, fullText, gotError, errorMsg, gotDone, onToken, tokens⟩
  cases continuing
  rcases record with ⟨token, done⟩
  cases token with
  | none => rfl
  | some token =>
    cases read : token.getString with
    | none => simp [StreamCtx.deliver, Record.tokenValid, read]
    | some text => simp [StreamCtx.deliver, Record.tokenValid, read, continueAlways]

theorem StreamCtx.deliver_ne_stop {ctx : StreamCtx}
    (continuing : ctx.onToken = some continueAlways) (token : Option Json) :
    (ctx.deliver token).1 ≠ some false := by
  rw [deliver_continueAlways continuing ⟨token, none⟩]
  split <;> simp

/-- Why a value is a fault: what its error member is, or that its done member or the text
of a done record has the wrong type. -/
theorem readValue_eq_error {json : Json} {fault : Fault} (said : readValue json = .error fault) :
    (json.contains "error" = true ∧
      fault = ((json.find "error").bind Json.getString).elim .invalid .reported) ∨
    json.contains "error" = false ∧ fault = .invalid ∧
      (json.value Json.getBool "done" false = none ∨
        json.value Json.getBool "done" false = some true ∧
          ∀ text, json.value Json.getString "text" text = none) := by
  rw [readValue] at said
  cases member : json.find "error" with
  | some error =>
    left
    rw [member] at said
    dsimp only at said
    rw [Option.bind_some]
    refine ⟨by simp [Json.contains, member], ?_⟩
    cases read : error.getString with
    | none =>
      rw [read] at said
      cases said
      rfl
    | some message =>
      rw [read] at said
      cases said
      rfl
  | none =>
    right
    rw [member] at said
    dsimp only at said
    refine ⟨by simp [Json.contains, member], ?_⟩
    cases finished : json.value Json.getBool "done" false with
    | none =>
      rw [finished] at said
      cases said
      exact ⟨rfl, .inl rfl⟩
    | some done =>
      rw [finished] at said
      cases done with
      | false => cases said
      | true =>
        have reads := value_eq_of_value finished Json.getString "text"
        cases found : json.find "text" with
        | none =>
          rw [found] at said
          cases said
        | some text =>
          cases read : text.getString with
          | some final => simp [found, read] at said
          | none =>
            simp only [found, read, Except.error.injEq] at said reads
            exact ⟨said.symm, .inr ⟨rfl, reads⟩⟩

/-- A fault stops the loop; when the callback always continues, the context then holds
the message. -/
theorem streamParseRecord_of_error {line : Bytes} {fault : Fault}
    (said : readRecord codec line = .error fault) (ctx : StreamCtx) :
    (streamParseRecord codec line ctx).1 = false ∧
      (ctx.onToken = some continueAlways →
        (streamParseRecord codec line ctx).2.gotError = true ∧
          (streamParseRecord codec line ctx).2.errorMsg = fault.message) := by
  rw [readRecord] at said
  rw [streamParseRecord]
  cases parsed : codec.parse line with
  | none =>
    rw [parsed] at said
    cases said
    exact ⟨rfl, fun _ => ⟨rfl, rfl⟩⟩
  | some json =>
    rw [parsed] at said
    rcases readValue_eq_error said with ⟨present, rfl⟩ | ⟨absent, rfl, ends⟩
    · simp only [present, if_true]
      cases (json.find "error").bind Json.getString <;> exact ⟨rfl, fun _ => ⟨rfl, rfl⟩⟩
    · simp only [absent, Bool.false_eq_true, if_false]
      have answers := fun continuing =>
        @StreamCtx.deliver_ne_stop ctx continuing (json.find "token")
      generalize ctx.deliver (json.find "token") = answered at answers ⊢
      rcases answered with ⟨answer, next⟩
      rcases answer with _ | _ | _
      · exact ⟨rfl, fun _ => ⟨rfl, rfl⟩⟩
      · exact ⟨rfl, fun continuing => (answers continuing rfl).elim⟩
      · rcases ends with unread | ⟨finished, noText⟩
        · simp only [unread]
          exact ⟨rfl, fun _ => ⟨rfl, rfl⟩⟩
        · simp only [finished, noText]
          exact ⟨rfl, fun _ => ⟨rfl, rfl⟩⟩

/-- When a line lets the loop go on, whatever the callback, it is a record, and the text
so far is the one it leaves behind. -/
theorem streamParseLine_of_true {line : Bytes} {ctx next : StreamCtx}
    (running : streamParseLine codec line ctx = (true, next)) :
    readLine (readRecord codec) ctx.fullText line = .ok next.fullText ∧
      next.gotError = ctx.gotError := by
  rw [streamParseLine] at running
  rw [readLine]
  split at running
  next empty =>
    cases running
    exact ⟨if_pos empty, rfl⟩
  next nonempty =>
    rw [if_neg nonempty]
    cases said : readRecord codec line with
    | error fault =>
      have stopped := (streamParseRecord_of_error said ctx).1
      rw [running] at stopped
      cases stopped
    | ok record =>
      rw [streamParseRecord_of_ok said] at running
      have frame := ctx.deliver_frame record.token
      generalize ctx.deliver record.token = answered at running frame
      rcases answered with ⟨answer, after⟩
      rcases frame with ⟨-, sameText, sameError, -⟩
      rcases answer with _ | _ | _
      · cases running
      · cases running
      · cases running
        refine ⟨?_, sameError⟩
        rw [Except.map, ← sameText]
        rfl

/-- When the loop runs to its end, every line was a record. -/
theorem foldWhile_streamParseLine_of_true {lines : List Bytes} {ctx next : StreamCtx}
    (running : Lines.foldWhile (streamParseLine codec) lines ctx = (true, next)) :
    readLines (readRecord codec) lines ctx.fullText = .ok next.fullText ∧
      next.gotError = ctx.gotError := by
  induction lines generalizing ctx with
  | nil =>
      cases running
      exact ⟨rfl, rfl⟩
  | cons line lines ih =>
      rw [Lines.foldWhile] at running
      cases taken : streamParseLine codec line ctx with
      | mk goOn after =>
        rw [taken] at running
        cases goOn with
        | false => cases running
        | true =>
          rcases streamParseLine_of_true taken with ⟨read, sameError⟩
          rcases ih running with ⟨readRest, sameErrorRest⟩
          rw [readLines, read]
          exact ⟨readRest, sameErrorRest.trans sameError⟩

/-- With a callback that always continues, a line goes on or stops with a fault as its
reading says. -/
theorem streamParseLine_continueAlways {ctx : StreamCtx}
    (continuing : ctx.onToken = some continueAlways) (line : Bytes) :
    match readLine (readStreamRecord codec) ctx.fullText line with
    | .ok text => ∃ next, streamParseLine codec line ctx = (true, next) ∧
        next.fullText = text ∧ next.gotError = ctx.gotError ∧ next.onToken = ctx.onToken
    | .error fault => ∃ next, streamParseLine codec line ctx = (false, next) ∧
        next.gotError = true ∧ next.errorMsg = fault.message := by
  rw [readLine, streamParseLine]
  by_cases empty : line = []
  · rw [if_pos empty, if_pos empty]
    exact ⟨ctx, rfl, rfl, rfl, rfl⟩
  · rw [if_neg empty, if_neg empty, readStreamRecord]
    cases said : readRecord codec line with
    | error fault =>
      rcases streamParseRecord_of_error said ctx with ⟨stopped, reported⟩
      exact ⟨_, Prod.ext stopped rfl, reported continuing⟩
    | ok record =>
      have answered := ctx.deliver_continueAlways continuing record
      have frame := ctx.deliver_frame record.token
      rw [streamParseRecord_of_ok said]
      generalize ctx.deliver record.token = handed at answered frame ⊢
      rcases handed with ⟨answer, after⟩
      dsimp only
      cases valid : record.tokenValid with
      | false =>
        rw [valid] at answered
        cases answered
        rw [if_neg Bool.false_ne_true]
        exact ⟨_, rfl, rfl, rfl⟩
      | true =>
        rw [valid] at answered
        cases answered
        rcases frame with ⟨sameToken, sameText, sameError, -⟩
        rw [if_pos rfl]
        exact ⟨_, rfl, congrArg record.finish sameText, sameError, sameToken⟩

/-- The same for the whole loop. -/
theorem foldWhile_continueAlways {ctx : StreamCtx}
    (continuing : ctx.onToken = some continueAlways) (lines : List Bytes) :
    match readLines (readStreamRecord codec) lines ctx.fullText with
    | .ok text => ∃ next, Lines.foldWhile (streamParseLine codec) lines ctx = (true, next) ∧
        next.fullText = text ∧ next.gotError = ctx.gotError
    | .error fault => ∃ next, Lines.foldWhile (streamParseLine codec) lines ctx = (false, next) ∧
        next.gotError = true ∧ next.errorMsg = fault.message := by
  induction lines generalizing ctx with
  | nil => exact ⟨ctx, rfl, rfl, rfl⟩
  | cons line lines ih =>
      have head := @streamParseLine_continueAlways codec _ continuing line
      rw [readLines]
      cases read : readLine (readStreamRecord codec) ctx.fullText line with
      | error fault =>
        rw [read] at head
        rcases head with ⟨next, taken, reported⟩
        exact ⟨next, Lines.foldWhile_cons_stop taken, reported⟩
      | ok text =>
        rw [read] at head
        rcases head with ⟨next, taken, sameText, sameError, sameToken⟩
        have tail := ih (sameToken.trans continuing)
        rw [sameText, sameError] at tail
        rw [Lines.foldWhile_cons_continue taken]
        exact tail

/-- Without a callback, a line that is a record lets the loop go on. -/
theorem streamParseLine_of_sound {line : Bytes} {ctx : StreamCtx}
    (noCallback : ctx.onToken = none) (sound : ¬Faulty (readRecord codec) line) :
    ∃ next, streamParseLine codec line ctx = (true, next) ∧ next.onToken = none := by
  rw [streamParseLine]
  by_cases empty : line = []
  · exact ⟨ctx, if_pos empty, noCallback⟩
  · rw [if_neg empty]
    cases said : readRecord codec line with
    | error fault => exact absurd ⟨empty, fault, said⟩ sound
    | ok record =>
      have handed : ctx.deliver record.token = (some true, ctx) := by
        unfold StreamCtx.deliver
        rw [noCallback]
        cases record.token <;> rfl
      rw [streamParseRecord_of_ok said, handed]
      exact ⟨ctx.finish record, rfl, noCallback⟩

theorem foldWhile_of_sound {lines : List Bytes} {ctx : StreamCtx}
    (noCallback : ctx.onToken = none) (sound : ∀ line ∈ lines, ¬Faulty (readRecord codec) line) :
    ∃ next, Lines.foldWhile (streamParseLine codec) lines ctx = (true, next) := by
  induction lines generalizing ctx with
  | nil => exact ⟨ctx, rfl⟩
  | cons line lines ih =>
      rw [List.forall_mem_cons] at sound
      rcases streamParseLine_of_sound noCallback sound.1 with ⟨next, taken, stillNone⟩
      rw [Lines.foldWhile_cons_continue taken]
      exact ih stillNone sound.2

end Cllama.Core.RunnerMgr
