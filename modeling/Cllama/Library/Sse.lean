import Cllama.Library.Bytes
import Cllama.Library.Lines

/-!
# Server-sent events

The part of the event stream format that carries data: an event is a line of data and a
blank line.  A client cuts the stream at the blank lines and strips the name of the field.
Events whose data has no line feed are read back as they were written.
-/

namespace Cllama.Library.Sse

def newline : UInt8 := 0x0A

/-- The name of the data field, with its separator. -/
def field : Bytes := bytes "data: "

/-- The octets of one event. -/
def event (data : Bytes) : Bytes := field ++ data ++ [newline, newline]

/-- The blocks of lines that blank lines terminate; `block` holds the lines since the last
one. -/
def blocks (block : List Bytes) : List Bytes → List (List Bytes)
  | [] => []
  | line :: lines =>
      if line = [] then block :: blocks [] lines else blocks (block ++ [line]) lines

/-- The data of a line, if it has any. -/
def data? (line : Bytes) : Option Bytes :=
  if field <+: line then some (line.drop field.length) else none

/-- The data of the events in a stream. -/
def decode (stream : Bytes) : List Bytes :=
  (blocks [] (Lines.split newline stream).1).flatMap (List.filterMap data?)

theorem data?_field (data : Bytes) : data? (field ++ data) = some data := by
  rw [data?, if_pos (List.prefix_append field data), List.drop_left]

/-- The lines of some events. -/
theorem flatMap_event (events : List Bytes) :
    events.flatMap event =
      (events.flatMap fun data => [field ++ data, []]).flatMap (· ++ [newline]) := by
  rw [List.flatMap_assoc]
  apply List.flatMap_congr
  intro data _
  simp [event]

theorem blocks_events (events : List Bytes) :
    blocks [] (events.flatMap fun data => [field ++ data, []]) =
      events.map fun data => [field ++ data] := by
  induction events with
  | nil => rfl
  | cons data events ih =>
      have some : field ++ data ≠ [] := by
        intro empty
        cases empty
      rw [List.flatMap_cons, List.cons_append, List.cons_append, List.nil_append, blocks,
        if_neg some, blocks, if_pos rfl, ih, List.map_cons, List.nil_append]

theorem decode_flatMap_event {events : List Bytes} (free : ∀ data ∈ events, newline ∉ data) :
    decode (events.flatMap event) = events := by
  have lineFree : ∀ line ∈ events.flatMap (fun data => [field ++ data, []]),
      newline ∉ line := by
    intro line member
    rcases List.mem_flatMap.mp member with ⟨data, isEvent, isLine⟩
    rw [List.mem_pair] at isLine
    rcases isLine with rfl | rfl
    · rw [List.mem_append, not_or]
      exact ⟨by decide, free data isEvent⟩
    · exact List.not_mem_nil
  have cut := Lines.split_flatMap lineFree []
  rw [List.append_nil, Lines.split_nil, List.append_nil] at cut
  rw [decode, flatMap_event, cut, blocks_events, List.flatMap_map]
  simp only [List.filterMap_cons, data?_field, List.filterMap_nil]
  exact List.flatMap_singleton' events

/-! ## Streams that have not ended -/

theorem blocks_prefix (block left right : List Bytes) :
    blocks block left <+: blocks block (left ++ right) := by
  induction left generalizing block with
  | nil => exact List.nil_prefix
  | cons line left ih =>
      rw [List.cons_append, blocks, blocks]
      split
      · exact List.cons_prefix_cons.mpr ⟨rfl, ih []⟩
      · exact ih (block ++ [line])

/-- What has been decoded stays decoded when the stream goes on. -/
theorem decode_prefix {left whole : Bytes} (isPrefix : left <+: whole) :
    decode left <+: decode whole := by
  rcases @Lines.split_prefix _ _ newline _ _ isPrefix with ⟨right, lines⟩
  rcases blocks_prefix [] (Lines.split newline left).1 right with ⟨later, blocks⟩
  rw [decode, decode, ← lines, ← blocks, List.flatMap_append]
  exact List.prefix_append _ _

end Cllama.Library.Sse
