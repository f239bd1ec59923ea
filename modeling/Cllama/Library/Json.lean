import Cllama.Library.Bytes
import Mathlib.Data.Rat.Defs

/-!
# JSON values and codecs

JSON values as a C++ program handles them: strings are byte strings, of any content
until they are written out; the typed readers throw on a value of another kind, which
is `none` here.  A `Codec` is a serialiser together with a parser, both of which may
throw; `Codec.Lawful` is what a program may rely on when it sends text between two of
its processes.
-/

namespace Cllama.Library

/-- A JSON value. -/
inductive Json where
  | null
  | bool (value : Bool)
  | int (value : Int)
  | real (value : ℚ)
  | str (text : Bytes)
  | arr (items : List Json)
  | obj (members : List (Bytes × Json))
  deriving Repr

namespace Json

variable {α : Type}

/-- The member of an object under a key; nothing for a value of another kind. -/
def find (key : String) : Json → Option Json
  | .obj members => members.lookup (bytes key)
  | _ => none

/-- Whether the value is an object with the key. -/
def contains (key : String) (json : Json) : Bool :=
  (json.find key).isSome

/-- `operator[]`, which adds a missing member as null. -/
def index (key : String) : Json → Option Json
  | .obj members => some ((members.lookup (bytes key)).getD .null)
  | .null => some .null
  | _ => none

/-- Read a string; any other kind is a type error. -/
def getString : Json → Option Bytes
  | .str text => some text
  | _ => none

/-- Read a Boolean; any other kind is a type error. -/
def getBool : Json → Option Bool
  | .bool value => some value
  | _ => none

/-- Read the member of an object, or a default when it is absent.  A value that is no
object is a type error, and so is a member of the wrong kind. -/
def value (get : Json → Option α) (key : String) (default : α) : Json → Option α
  | .obj members =>
      match members.lookup (bytes key) with
      | some member => get member
      | none => some default
  | _ => none

/-- Values whose text determines them: no fractional number, only well-formed strings,
and the members of an object in strictly increasing order of their keys. -/
inductive Textual : Json → Prop where
  | null : Textual .null
  | bool (value : Bool) : Textual (.bool value)
  | int (value : Int) : Textual (.int value)
  | str {text : Bytes} : Utf8.valid text = true → Textual (.str text)
  | arr {items : List Json} : (∀ item ∈ items, Textual item) → Textual (.arr items)
  | obj {members : List (Bytes × Json)} :
      members.Pairwise (fun left right => left.1 < right.1) →
      (∀ member ∈ members, Utf8.valid member.1 = true) →
      (∀ member ∈ members, Textual member.2) → Textual (.obj members)

/-- An object whose keys are given as a list. -/
theorem Textual.ofKeys (keys : List Bytes) {members : List (Bytes × Json)}
    (same : members.map Prod.fst = keys) (sorted : keys.Pairwise (· < ·))
    (valid : ∀ key ∈ keys, Utf8.valid key = true)
    (values : (members.map Prod.snd).Forall Textual) : (Json.obj members).Textual := by
  subst same
  rw [List.forall_iff_forall_mem] at values
  apply Textual.obj
  · exact List.pairwise_map.mp sorted
  · exact List.forall_mem_map.mp valid
  · exact List.forall_mem_map.mp values

/-- Values all of whose strings are well-formed. -/
inductive WellFormed : Json → Prop where
  | null : WellFormed .null
  | bool (value : Bool) : WellFormed (.bool value)
  | int (value : Int) : WellFormed (.int value)
  | real (value : ℚ) : WellFormed (.real value)
  | str {text : Bytes} : Utf8.valid text = true → WellFormed (.str text)
  | arr {items : List Json} : (∀ item ∈ items, WellFormed item) → WellFormed (.arr items)
  | obj {members : List (Bytes × Json)} :
      (∀ member ∈ members, Utf8.valid member.1 = true) →
      (∀ member ∈ members, WellFormed member.2) → WellFormed (.obj members)

theorem WellFormed.ofMembers {members : List (Bytes × Json)}
    (wellFormed : ∀ member ∈ members, Utf8.valid member.1 = true ∧ member.2.WellFormed) :
    (Json.obj members).WellFormed :=
  .obj (fun member isMember => (wellFormed member isMember).1)
    (fun member isMember => (wellFormed member isMember).2)

/-- An object whose keys are given as a list. -/
theorem WellFormed.ofKeys (keys : List Bytes) {members : List (Bytes × Json)}
    (same : members.map Prod.fst = keys) (valid : ∀ key ∈ keys, Utf8.valid key = true)
    (values : (members.map Prod.snd).Forall WellFormed) : (Json.obj members).WellFormed := by
  subst same
  rw [List.forall_iff_forall_mem] at values
  apply WellFormed.obj
  · exact List.forall_mem_map.mp valid
  · exact List.forall_mem_map.mp values

theorem WellFormed.valid {text : Bytes} (wellFormed : (Json.str text).WellFormed) :
    Utf8.valid text = true := by
  cases wellFormed with
  | str valid => exact valid

theorem mem_of_lookup {key : Bytes} {members : List (Bytes × Json)} {member : Json}
    (found : members.lookup key = some member) : (key, member) ∈ members := by
  rcases List.lookup_eq_some_iff.mp found with ⟨before, after, rfl, -⟩
  exact List.mem_append_cons_self

/-- The members of a well-formed value are well-formed. -/
theorem WellFormed.find {json member : Json} {key : String} (wellFormed : json.WellFormed)
    (found : json.find key = some member) : member.WellFormed := by
  cases json with
  | obj members =>
      cases wellFormed with
      | obj _ values => exact values _ (mem_of_lookup found)
  | _ => cases found

/-- So is what `operator[]` finds. -/
theorem WellFormed.index {json member : Json} {key : String} (wellFormed : json.WellFormed)
    (found : json.index key = some member) : member.WellFormed := by
  cases json with
  | obj members =>
      rw [Json.index, Option.some.injEq] at found
      subst found
      cases isMember : members.lookup (bytes key) with
      | none => exact .null
      | some member =>
          have isFound : (Json.obj members).find key = some member := isMember
          exact wellFormed.find isFound
  | null =>
      cases found
      exact .null
  | _ => cases found

theorem valid_of_getString {json : Json} {text : Bytes} (wellFormed : json.WellFormed)
    (read : json.getString = some text) : Utf8.valid text = true := by
  cases json with
  | str text' =>
      cases read
      exact wellFormed.valid
  | _ => cases read

/-- A string member, or the empty text in its place. -/
theorem valid_of_value {json : Json} {key : String} {default text : Bytes}
    (wellFormed : json.WellFormed) (defaultValid : Utf8.valid default = true)
    (read : json.value getString key default = some text) : Utf8.valid text = true := by
  cases json with
  | obj members =>
      rw [value] at read
      split at read
      next member found =>
        have member : (Json.obj members).find key = some member := found
        exact valid_of_getString (wellFormed.find member) read
      next =>
        cases read
        exact defaultValid
  | _ => cases read

end Json

/-- A JSON library: `none` is a thrown exception. -/
structure Codec where
  parse : Bytes → Option Json
  dump : Json → Option Bytes

namespace Codec

/-- The line feed that frames newline-delimited JSON. -/
def newline : UInt8 := 0x0A

/-- Textual values can be written, on one line, and read back; a malformed string cannot be
written; the empty text is no value. -/
structure Lawful (codec : Codec) : Prop where
  parse_nil : codec.parse [] = none
  dump_isSome : ∀ json : Json, json.Textual → (codec.dump json).isSome = true
  wellFormed : ∀ (json : Json) (text : Bytes), codec.dump json = some text → json.WellFormed
  newline_not_mem : ∀ (json : Json) (text : Bytes),
    codec.dump json = some text → newline ∉ text
  parse_dump : ∀ (json : Json) (text : Bytes), json.Textual →
    codec.dump json = some text → codec.parse text = some json

/-- What is read is well-formed, and exactly what is well-formed can be written. -/
structure Sound (codec : Codec) : Prop where
  parse : ∀ (text : Bytes) (json : Json), codec.parse text = some json → json.WellFormed
  dump : ∀ json : Json, (codec.dump json).isSome = true ↔ json.WellFormed

variable {codec : Codec}

theorem Lawful.exists_dump (lawful : codec.Lawful) {json : Json} (textual : json.Textual) :
    ∃ text, codec.dump json = some text ∧ text ≠ [] ∧ newline ∉ text ∧
      codec.parse text = some json := by
  rcases Option.isSome_iff_exists.mp (lawful.dump_isSome json textual) with ⟨text, dumped⟩
  have parsed := lawful.parse_dump json text textual dumped
  refine ⟨text, dumped, ?_, lawful.newline_not_mem json text dumped, parsed⟩
  rintro rfl
  rw [lawful.parse_nil] at parsed
  cases parsed

end Codec

end Cllama.Library
