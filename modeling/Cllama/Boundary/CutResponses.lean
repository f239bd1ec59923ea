import Cllama.Boundary.RecordLines
import Cllama.Core.Replies
import Cllama.Library.JsonPrefix

/-!
# Responses that are cut short

The response of a runner has no length, so that one that is cut looks like one that is over.  A
blocking request finds the cut within a record only.  Between two records it takes what there is
for the response, and answers with the text that it holds, an empty one.
-/

namespace Cllama.Boundary

open Cllama.Library Cllama.Core RunnerMgr

variable {codec : Codec}

/-- Nothing that stands before the end of a record is a text of its own. -/
def Encloses (codec : Codec) : Prop :=
  ∀ (record : Runner.Emitted) (text left : Bytes), codec.dump record.json = some text →
    left <+: text → left ≠ text → codec.parse left = none

/-- A body ends with the last of some records, with or without its line feed. -/
def EndsAfter (codec : Codec) (front : List Runner.Emitted) (body : Bytes) : Prop :=
  ∃ whole, Runner.Emitted.lines codec front = some whole ∧
    (body = whole ∨ body ++ [Codec.newline] = whole)

theorem reference_encloses : Encloses JsonText.reference := by
  intro record text left dumped isPrefix cut
  have isLine : record.line JsonText.reference = some (text ++ [Codec.newline]) := by
    rw [Runner.Emitted.line, dumped, Option.map_some]
  rcases lineOf_of_line JsonText.reference_lawful isLine with ⟨line, lineOf, same⟩
  rw [← List.append_cancel_right same] at lineOf
  have opens : text.head? = some JsonText.openBrace := by
    cases record <;> rcases Option.map_eq_some_iff.mp dumped with ⟨members, -, rfl⟩ <;> rfl
  exact JsonText.read_cut lineOf.encodes.2.2 opens isPrefix cut

/-- The text that the lines of some records leave behind. -/
theorem readLines_lineOf {texts : List Bytes} {records : List Runner.Emitted}
    (lineOf : List.Forall₂ (LineOf codec) texts records) (text : Bytes) :
    readLines (readRecord codec) texts text = .ok (records.foldl textOf text) := by
  induction lineOf generalizing text with
  | nil => rfl
  | @cons _ record _ _ first _ ih =>
      rw [readLines, readLine, if_neg first.encodes.1, readRecord_encoded first.encodes]
      cases record with
      | token piece =>
          rw [readValue_token]
          exact ih text
      | done final =>
          rw [readValue_done]
          exact ih final

theorem lines_of_lineOf {texts : List Bytes} {records : List Runner.Emitted}
    (lineOf : List.Forall₂ (LineOf codec) texts records) :
    Runner.Emitted.lines codec records = some (texts.flatMap (· ++ [Codec.newline])) := by
  have mapped : records.mapM (Runner.Emitted.line codec) =
      some (texts.map (· ++ [Codec.newline])) := by
    induction lineOf with
    | nil => rfl
    | cons first _ ih => simp [Runner.Emitted.line, first.dumped, ih]
  rw [Runner.Emitted.lines, mapped, Option.map_some, List.flatMap_def]

/-- The octets of the first records are those of the first lines. -/
theorem lines_take {texts : List Bytes} {records : List Runner.Emitted}
    (lineOf : List.Forall₂ (LineOf codec) texts records) (count : Nat) :
    Runner.Emitted.lines codec (records.take count) =
      some ((texts.take count).flatMap (· ++ [Codec.newline])) :=
  lines_of_lineOf (List.forall₂_take count lineOf)

/-- What a blocking request makes of a body that has been cut anywhere: the text of the records
that it ends after, or an error if it ends within one. -/
theorem parseNdjson_cut (lawful : codec.Lawful) (encloses : Encloses codec)
    {records : List Runner.Emitted} {output body : Bytes}
    (written : Runner.Emitted.lines codec records = some output) (isPrefix : body <+: output) :
    (∃ front, front <+: records ∧ EndsAfter codec front body ∧
        parseNdjson codec body = .ok (textAfter front)) ∨
      (∀ front, front <+: records → ¬EndsAfter codec front body) ∧
        parseNdjson codec body = .error ⟨.modelError, invalidNdjson⟩ := by
  rcases lineOf_of_lines lawful written with ⟨texts, lineOf, rfl⟩
  have free := free_of_lineOf lineOf
  rcases Lines.split_of_prefix free isPrefix with ⟨count, rest, cut, isRest⟩
  have joined := @Lines.join_split _ _ Codec.newline body
  rw [cut] at joined
  dsimp only at joined
  have readFront (count : Nat) : readLines (readRecord codec) (texts.take count) [] =
      .ok (textAfter (records.take count)) := readLines_lineOf (List.forall₂_take count lineOf) []
  rw [parseNdjson_eq_readLines, bodyLines, cut]
  by_cases empty : rest = []
  · left
    refine ⟨records.take count, List.take_prefix _ _, ⟨_, lines_take lineOf count, Or.inl ?_⟩, ?_⟩
    · rw [← joined, empty, List.append_nil]
    · rw [if_pos empty, List.append_nil, readFront]
      rfl
  · rcases isRest.resolve_left empty with ⟨line, isLine, within⟩
    have next : texts.take (count + 1) = texts.take count ++ [line] := by
      rw [List.take_add_one, isLine]
      rfl
    rw [if_neg empty]
    by_cases all : rest = line
    · left
      refine ⟨records.take (count + 1), List.take_prefix _ _,
        ⟨_, lines_take lineOf (count + 1), Or.inr ?_⟩, ?_⟩
      · rw [← joined, next, all, List.flatMap_append, List.append_assoc]
        simp
      · rw [all, ← next, readFront]
        rfl
    · right
      constructor
      · rintro front isFront ⟨whole, wholeWritten, ends⟩
        rw [List.prefix_iff_eq_take.mp isFront, lines_take lineOf,
          Option.some.injEq] at wholeWritten
        have wholeCut := Lines.split_terminated
          fun text (member : text ∈ texts.take front.length) =>
            free text (List.mem_of_mem_take member)
        rw [wholeWritten] at wholeCut
        rcases ends with rfl | rfl
        · rw [cut, Prod.mk.injEq] at wholeCut
          exact empty wholeCut.2
        · have restFree : Codec.newline ∉ rest :=
            fun member => free line (List.mem_of_getElem? isLine) (within.subset member)
          rw [Lines.split_append, cut, Lines.split_line restFree, Prod.mk.injEq] at wholeCut
          have withRest : texts.take count ++ [rest] <+: texts := by
            rw [show texts.take count ++ [rest] = texts.take front.length from wholeCut.1]
            exact List.take_prefix _ _
          have withLine : texts.take count ++ [line] <+: texts := next ▸ List.take_prefix _ _
          have same := (List.prefix_of_prefix_length_le withRest withLine (by simp)).eq_of_length
            (by simp)
          exact all (List.cons.inj (List.append_cancel_left same)).1
      · rcases List.getElem?_eq_some_iff.mp isLine with ⟨bound, isText⟩
        have isRecord : count < records.length := lineOf.length_eq ▸ bound
        have ofRecord : LineOf codec texts[count] records[count] := lineOf.get bound isRecord
        rw [isText] at ofRecord
        have noText := encloses _ _ rest ofRecord.dumped within all
        rw [readLines_append, readFront]
        simp [readLines, readLine, empty, readRecord, noText, Except.mapError, Except.map,
          Fault.error, Fault.message]

/-- What both blocking requests make of a response. -/
def BlockingReply (codec : Codec) (exchange : Http.Exchange) (result : CLlamaResult Bytes) : Prop :=
  generateCompletionReply codec exchange = result ∧ chatCompletionReply codec exchange = result

theorem blockingReply_of_parse {exchange : Http.Exchange} (success : exchange.status = some 200)
    {result : CLlamaResult Bytes} (parsed : parseNdjson codec exchange.body = result) :
    BlockingReply codec exchange result := by
  have reply : exchange.reply = some (200, exchange.body) := by
    rw [Http.Exchange.reply, success, Option.map_some]
  constructor <;> simp [generateCompletionReply, chatCompletionReply, postReply, reply, parsed]

/-- Whatever the runner has done so far, and wherever its response is cut: if the cut is within a
record, a blocking request fails; otherwise it succeeds, with the text that the generation ended
with if the response includes the done record, and with an empty text if it does not. -/
theorem blockingReply_cut (codec : Codec) (lawful : codec.Lawful) (encloses : Encloses codec)
    {state : Runner.State} (reachable : (Runner.tokenStream codec).Reachable state)
    {exchange : Http.Exchange} (success : exchange.status = some 200)
    (isPrefix : exchange.body <+: state.output) :
    (∃ front, front <+: state.records ∧ EndsAfter codec front exchange.body ∧
        BlockingReply codec exchange (.ok (textAfter front)) ∧
        if front.any isDone then
          piecesOf front = state.produced ∧ state.finalText = some (textAfter front)
        else textAfter front = []) ∨
      (∀ front, front <+: state.records → ¬EndsAfter codec front exchange.body) ∧
        BlockingReply codec exchange
          (.error ⟨.modelError, bytes "Invalid NDJSON from runner"⟩) := by
  have delivering := Runner.delivering_invariant.of_reachable reachable
  rcases parseNdjson_cut lawful encloses delivering.output isPrefix with
    ⟨front, isFront, ends, parsed⟩ | ⟨within, parsed⟩
  · left
    refine ⟨front, isFront, ends, blockingReply_of_parse success parsed, ?_⟩
    split
    next done => exact whole_of_done delivering isFront done
    next notDone => exact textAfter_of_notDone (Bool.eq_false_of_not_eq_true notDone)
  · exact Or.inr ⟨within, blockingReply_of_parse success parsed⟩

/-- A runner that has written one record, and then is gone. -/
def crashed : Runner.State where
  stream := ⟨[], [], false, false⟩
  provider := .written
  finalText := none
  produced := [bytes "a"]
  pushed := [bytes "a"]
  inHand := []
  records := [.token (bytes "a")]
  output := bytes "\x7b\"token\":\"a\"\x7d\n"
  writeFailed := false

theorem crashed_reachable : (Runner.tokenStream JsonText.reference).Reachable crashed :=
  ⟨.fresh, rfl, Machine.reaches_of_run (by decide +kernel :
    (Runner.tokenStream JsonText.reference).run .fresh
      [.onToken (bytes "a"), .call, .write true] = some crashed)⟩

/-- That response is taken for an empty one. -/
theorem blockingReply_cut_crashed :
    BlockingReply JsonText.reference ⟨[crashed.output], some 200⟩ (.ok []) := by
  have cut := @blockingReply_cut JsonText.reference JsonText.reference_lawful reference_encloses
    crashed crashed_reachable ⟨[crashed.output], some 200⟩ rfl (by decide)
  rcases cut with ⟨front, isFront, -, replied, -⟩ | ⟨within, -⟩
  · have noText : textAfter front = [] := by
      apply textAfter_of_notDone
      rw [List.any_eq_false]
      intro record member
      have isToken := isFront.subset member
      rw [show crashed.records = [.token (bytes "a")] from rfl, List.mem_singleton] at isToken
      rw [isToken]
      decide
    rwa [noText] at replied
  · exact absurd ⟨crashed.output, by decide +kernel, Or.inl rfl⟩ (within crashed.records (by simp))

end Cllama.Boundary
