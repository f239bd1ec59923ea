import Cllama.Boundary.RoundTrip
import Cllama.Runner.Delivery

/-!
# What the runner has written

The octets that a runner has written at any time are lines of records; those that have arrived
anywhere are the lines of the first ones.  They are token records with the pieces generated so
far, until a done record ends them.
-/

namespace Cllama.Boundary

open Cllama.Library Cllama.Core RunnerMgr

variable {codec : Codec}

/-! ## Lines -/

/-- A line that the runner wrote for a record. -/
structure LineOf (codec : Codec) (line : Bytes) (record : Runner.Emitted) : Prop where
  encodes : Encodes codec line record
  valid : Utf8.valid (content record) = true
  dumped : codec.dump record.json = some line

/-- What has been written can be parsed. -/
theorem lineOf_of_line (lawful : codec.Lawful) {record : Runner.Emitted} {written : Bytes}
    (isLine : record.line codec = some written) :
    ∃ text, LineOf codec text record ∧ written = text ++ [Codec.newline] := by
  rcases Option.map_eq_some_iff.mp isLine with ⟨text, dumped, rfl⟩
  have valid : Utf8.valid (content record) = true := by
    have wellFormed := lawful.wellFormed _ text dumped
    cases record with
    | token piece => exact (@Json.WellFormed.find _ _ "token" wellFormed rfl).valid
    | done final => exact (@Json.WellFormed.find _ _ "text" wellFormed rfl).valid
  rcases exists_line lawful record valid with ⟨text', encodes, isLine'⟩
  rw [isLine', Option.some.injEq] at isLine
  have same : text' = text := List.append_cancel_right isLine
  exact ⟨text, ⟨same ▸ encodes, valid, dumped⟩, rfl⟩

/-- So can a whole response. -/
theorem lineOf_of_lines (lawful : codec.Lawful) {records : List Runner.Emitted} {output : Bytes}
    (written : Runner.Emitted.lines codec records = some output) :
    ∃ texts, List.Forall₂ (LineOf codec) texts records ∧
      output = texts.flatMap (· ++ [Codec.newline]) := by
  rw [Runner.Emitted.lines, Option.map_eq_some_iff] at written
  rcases written with ⟨parts, mapped, rfl⟩
  induction records generalizing parts with
  | nil =>
      cases mapped
      exact ⟨[], .nil, rfl⟩
  | cons record records ih =>
      simp only [List.mapM_cons, Option.bind_eq_bind, Option.bind_eq_some_iff, Option.pure_def,
        Option.some.injEq] at mapped
      rcases mapped with ⟨part, isLine, rest, mapped, rfl⟩
      rcases lineOf_of_line lawful isLine with ⟨text, lineOf, rfl⟩
      rcases ih rest mapped with ⟨texts, lineOfAll, joined⟩
      refine ⟨text :: texts, .cons lineOf lineOfAll, ?_⟩
      rw [List.flatten_cons, List.flatMap_cons, joined]

theorem free_of_lineOf {texts : List Bytes} {records : List Runner.Emitted}
    (lineOf : List.Forall₂ (LineOf codec) texts records) :
    ∀ text ∈ texts, Codec.newline ∉ text := by
  induction lineOf with
  | nil => exact List.forall_mem_nil _
  | cons first _ ih => exact List.forall_mem_cons.mpr ⟨first.encodes.2.1, ih⟩

/-- A line that has arrived is that of the record at its position. -/
theorem record_of_line (lawful : codec.Lawful) {records : List Runner.Emitted} {output : Bytes}
    (written : Runner.Emitted.lines codec records = some output) {arrived index : Nat}
    {line : Bytes}
    (found : (Lines.split Codec.newline (output.take arrived)).1[index]? = some line) :
    ∃ record, records[index]? = some record ∧ LineOf codec line record := by
  rcases lineOf_of_lines lawful written with ⟨texts, lineOf, rfl⟩
  have cut := Lines.split_terminated (free_of_lineOf lineOf)
  have first := @Lines.split_prefix _ _ Codec.newline _ _
    (List.take_prefix arrived (texts.flatMap (· ++ [Codec.newline])))
  rw [cut] at first
  rcases first with ⟨later, joined⟩
  dsimp only at joined
  rcases List.getElem?_eq_some_iff.mp found with ⟨inside, -⟩
  have isText : texts[index]? = some line := by
    rw [← joined, List.getElem?_append_left inside, found]
  rcases List.getElem?_eq_some_iff.mp isText with ⟨bound, rfl⟩
  have isRecord : index < records.length := lineOf.length_eq ▸ bound
  exact ⟨records[index], List.getElem?_eq_getElem isRecord, lineOf.get bound isRecord⟩

/-! ## Pieces and the text -/

/-- The pieces of some records. -/
def piecesOf (records : List Runner.Emitted) : List Bytes :=
  records.filterMap Runner.Emitted.piece?

/-- The text that a parser holds after a record. -/
def textOf (text : Bytes) : Runner.Emitted → Bytes
  | .token _ => text
  | .done final => final

/-- The text that a parser holds after some records. -/
def textAfter (records : List Runner.Emitted) : Bytes :=
  records.foldl textOf []

def isDone : Runner.Emitted → Bool
  | .token _ => false
  | .done _ => true

section Take

variable {records : List Runner.Emitted} {record : Runner.Emitted} {index : Nat}

theorem take_found (found : records[index]? = some record) :
    records.take (index + 1) = records.take index ++ [record] := by
  rw [List.take_add_one, found]
  rfl

theorem piecesOf_take (found : records[index]? = some record) :
    piecesOf (records.take (index + 1)) =
      piecesOf (records.take index) ++ record.piece?.toList := by
  rw [take_found found, piecesOf, List.filterMap_append, piecesOf]
  cases record <;> rfl

theorem textAfter_take (found : records[index]? = some record) :
    textAfter (records.take (index + 1)) = textOf (textAfter (records.take index)) record := by
  rw [take_found found, textAfter, List.foldl_append]
  rfl

theorem any_take (found : records[index]? = some record) :
    (records.take (index + 1)).any isDone = ((records.take index).any isDone || isDone record) := by
  rw [take_found found, List.any_append, List.any_cons, List.any_nil, Bool.or_false]

/-- Before a done record there is no text. -/
theorem textAfter_of_notDone (notDone : records.any isDone = false) : textAfter records = [] := by
  induction records using List.reverseRecOn with
  | nil => rfl
  | append_singleton records record ih =>
      rw [List.any_append, Bool.or_eq_false_iff] at notDone
      rw [textAfter, List.foldl_append]
      cases record with
      | token piece => exact ih notDone.1
      | done final => simp [isDone] at notDone

theorem any_isDone_tokens (pieces : List Bytes) :
    (pieces.map Runner.Emitted.token).any isDone = false := by
  rw [List.any_map]
  simp [Function.comp_def, isDone]

/-- Records up to the done record are those of a whole response. -/
theorem eq_of_done {pieces : List Bytes} {final : Bytes} {front : List Runner.Emitted}
    (isFront : front <+: pieces.map .token ++ [.done final]) (done : front.any isDone = true) :
    front = pieces.map .token ++ [.done final] := by
  rcases List.prefix_concat_iff.mp isFront with whole | early
  · exact whole
  · have none := any_isDone_tokens pieces
    rw [List.any_eq_true] at done
    rcases done with ⟨record, member, isDone⟩
    rw [List.any_eq_false] at none
    exact absurd isDone (none record (early.subset member))

theorem piecesOf_whole (pieces : List Bytes) (final : Bytes) :
    piecesOf (pieces.map .token ++ [.done final]) = pieces := by
  rw [piecesOf, List.filterMap_append, Runner.filterMap_piece_map_token]
  exact List.append_nil _

theorem textAfter_whole (pieces : List Bytes) (final : Bytes) :
    textAfter (pieces.map .token ++ [.done final]) = final := by
  rw [textAfter, List.foldl_append]
  rfl

end Take

/-! ## What the runner has written -/

section Runner

variable {state next : Runner.State}

/-- What has been written is still written in a later state. -/
def Grows (state next : Runner.State) : Prop :=
  state.records <+: next.records ∧ state.output <+: next.output

theorem Grows.of_eq (records : next.records = state.records) (output : next.output = state.output) :
    Grows state next := by
  rw [Grows, records, output]
  exact ⟨List.prefix_rfl, List.prefix_rfl⟩

theorem grows_drain (state : Runner.State) : Grows state (Runner.drain codec state) := by
  unfold Runner.drain
  split
  · split <;> exact .of_eq rfl rfl
  · split
    · split <;> exact .of_eq rfl rfl
    · exact .of_eq rfl rfl

theorem grows {action : Runner.Action}
    (taken : Runner.step codec state action = some next) : Grows state next := by
  cases action with
  | onToken piece =>
      simp only [Runner.step, Runner.onToken] at taken
      split at taken
      · cases taken
      · split at taken <;> cases taken <;> exact .of_eq rfl rfl
  | finish text =>
      simp only [Runner.step, Runner.finish] at taken
      split at taken <;> cases taken
      exact .of_eq rfl rfl
  | call =>
      simp only [Runner.step, Runner.call] at taken
      split at taken
      · split at taken
        · cases taken
        · split at taken <;> cases taken
          · exact .of_eq rfl rfl
          · exact grows_drain state
      · cases taken
  | write succeeds =>
      simp only [Runner.step] at taken
      unfold Runner.write at taken
      split at taken <;> cases taken
      · exact ⟨List.prefix_append _ _, List.prefix_append _ _⟩
      · exact .of_eq rfl rfl
      · exact ⟨List.prefix_append _ _, List.prefix_append _ _⟩
      · exact .of_eq rfl rfl
  | lock =>
      simp only [Runner.step] at taken
      unfold Runner.lock at taken
      split at taken <;> cases taken
      · exact grows_drain state
      · exact .of_eq rfl rfl
  | release =>
      simp only [Runner.step, Runner.release] at taken
      split at taken <;> cases taken
      exact .of_eq rfl rfl

/-- The pieces queued are the first ones produced, and all of them before an abort. -/
def Queued (state : Runner.State) : Prop :=
  state.pushed <+: state.produced ∧
    (state.stream.aborted = false → state.pushed = state.produced)

theorem Queued.drain (queued : Queued state) : Queued (Runner.drain codec state) := by
  unfold Runner.drain
  split
  · split <;> exact queued
  · split
    · split <;> exact queued
    · exact queued

theorem Queued.step (queued : Queued state) {action : Runner.Action}
    (taken : Runner.step codec state action = some next) : Queued next := by
  rcases queued with ⟨early, all⟩
  cases action with
  | onToken piece =>
      simp only [Runner.step, Runner.onToken] at taken
      split at taken
      · cases taken
      · split at taken <;> cases taken
        next aborted =>
          refine ⟨early.trans (List.prefix_append _ _), fun notAborted => ?_⟩
          rw [notAborted] at aborted
          cases aborted
        next notAborted =>
          have same := all (Bool.eq_false_of_not_eq_true notAborted)
          rw [Queued, same]
          exact ⟨List.prefix_rfl, fun _ => rfl⟩
  | finish text =>
      simp only [Runner.step, Runner.finish] at taken
      split at taken <;> cases taken
      exact ⟨early, all⟩
  | call =>
      simp only [Runner.step, Runner.call] at taken
      split at taken
      · split at taken
        · cases taken
        · split at taken <;> cases taken
          · exact ⟨early, all⟩
          · exact Queued.drain ⟨early, all⟩
      · cases taken
  | write succeeds =>
      simp only [Runner.step] at taken
      unfold Runner.write at taken
      split at taken <;> cases taken <;> exact ⟨early, all⟩
  | lock =>
      simp only [Runner.step] at taken
      unfold Runner.lock at taken
      split at taken <;> cases taken
      · exact Queued.drain ⟨early, all⟩
      · exact ⟨early, by simp⟩
  | release =>
      simp only [Runner.step, Runner.release] at taken
      split at taken <;> cases taken
      exact ⟨early, by simp⟩

/-- The pieces written are the first ones produced. -/
theorem prefix_of_writtenPieces (delivering : Runner.Delivering codec state)
    (queued : Queued state) : piecesOf state.records <+: state.produced := by
  refine List.IsPrefix.trans ?_ queued.1
  rw [← delivering.order, List.append_assoc]
  exact List.prefix_append _ _

/-- A done record that has been written is the last one, and comes after all pieces. -/
theorem finished_of_done (delivering : Runner.Delivering codec state)
    (done : state.records.any isDone = true) :
    ∃ text, state.finalText = some text ∧
      state.records = state.produced.map .token ++ [.done text] := by
  have notTokens : ¬state.TokensOnly := by
    intro tokensOnly
    rw [tokensOnly, any_isDone_tokens] at done
    cases done
  have finished : state.Finished := by
    have provider := delivering.provider
    cases place : state.provider <;> rw [place] at provider
    case idle | written | writing | finishing => exact absurd provider.1.2.2.2 notTokens
    case failed => exact absurd provider.1 notTokens
    case returned | closed => exact provider.resolve_left fun early => notTokens early.1
    case threw => exact absurd provider.2.2.2 notTokens
  refine ⟨state.stream.text, ?_, finished.2.2⟩
  rw [delivering.worker, if_pos finished.1]

/-- Records up to the done record have all pieces and the text that the worker ended with. -/
theorem whole_of_done (delivering : Runner.Delivering codec state)
    {front : List Runner.Emitted} (isFront : front <+: state.records)
    (done : front.any isDone = true) :
    piecesOf front = state.produced ∧ state.finalText = some (textAfter front) := by
  have written : state.records.any isDone = true := by
    rw [List.any_eq_true] at done ⊢
    rcases done with ⟨record, member, isDone⟩
    exact ⟨record, isFront.subset member, isDone⟩
  rcases finished_of_done delivering written with ⟨text, ended, records⟩
  rw [records] at isFront
  rw [eq_of_done isFront done, piecesOf_whole, textAfter_whole]
  exact ⟨rfl, ended⟩

end Runner

end Cllama.Boundary
