import Cllama.Library.Conversions
import Cllama.Library.JsonPortable

/-!
# Single texts

A library can be extended by the text of one more value, such as one with a fraction, for which
the reference format has no text.
-/

namespace Cllama.Library

namespace Json

mutual

/-- The two values are the same. -/
def same : Json → Json → Bool
  | .null, .null => true
  | .bool left, .bool right => decide (left = right)
  | .int left, .int right => decide (left = right)
  | .real left, .real right => decide (left = right)
  | .str left, .str right => decide (left = right)
  | .arr left, .arr right => sameItems left right
  | .obj left, .obj right => sameMembers left right
  | _, _ => false

def sameItems : List Json → List Json → Bool
  | [], [] => true
  | left :: lefts, right :: rights => same left right && sameItems lefts rights
  | _, _ => false

def sameMembers : List (Bytes × Json) → List (Bytes × Json) → Bool
  | [], [] => true
  | (key, left) :: lefts, (key', right) :: rights =>
      decide (key = key') && same left right && sameMembers lefts rights
  | _, _ => false

end

mutual

theorem same_iff : (left right : Json) → (same left right = true ↔ left = right)
  | .null, right => by cases right <;> simp [same]
  | .bool left, right => by cases right <;> simp [same]
  | .int left, right => by cases right <;> simp [same]
  | .real left, right => by cases right <;> simp [same]
  | .str left, right => by cases right <;> simp [same]
  | .arr left, right => by
      cases right with
      | arr right => rw [same, sameItems_iff, Json.arr.injEq]
      | _ => simp [same]
  | .obj left, right => by
      cases right with
      | obj right => rw [same, sameMembers_iff, Json.obj.injEq]
      | _ => simp [same]

theorem sameItems_iff : (left right : List Json) → (sameItems left right = true ↔ left = right)
  | [], right => by cases right <;> simp [sameItems]
  | left :: lefts, right => by
      cases right with
      | nil => simp [sameItems]
      | cons right rights =>
          rw [sameItems, Bool.and_eq_true, same_iff, sameItems_iff, List.cons.injEq]

theorem sameMembers_iff : (left right : List (Bytes × Json)) →
    (sameMembers left right = true ↔ left = right)
  | [], right => by cases right <;> simp [sameMembers]
  | (key, left) :: lefts, right => by
      cases right with
      | nil => simp [sameMembers]
      | cons right rights =>
          rw [sameMembers, Bool.and_eq_true, Bool.and_eq_true, decide_eq_true_eq, same_iff,
            sameMembers_iff, List.cons.injEq, Prod.ext_iff]

end

theorem Textual.find {json member : Json} {key : String} (textual : json.Textual)
    (found : json.find key = some member) : member.Textual := by
  cases textual with
  | obj sorted keys values => exact values _ (mem_of_lookup found)
  | _ => cases found

instance : DecidableEq Json := fun left right => decidable_of_iff _ (same_iff left right)

end Json

namespace Codec

/-- The library, with the text of one more value. -/
def withEntry (codec : Codec) (json : Json) (text : Bytes) : Codec where
  parse given := if given = text then some json else codec.parse given
  dump given := if given = json then some text else codec.dump given

variable {codec : Codec} {json : Json} {text : Bytes} {conversions : Conversions}

theorem Faithful.withEntry (faithful : codec.Faithful conversions)
    (unread : codec.parse text = none) : (codec.withEntry json text).Faithful conversions := by
  intro given givenText machine dumped
  rw [Codec.withEntry] at dumped ⊢
  dsimp only at dumped ⊢
  split at dumped
  next isEntry =>
    cases dumped
    rw [if_pos rfl, isEntry]
  next =>
    have parsed := faithful given givenText machine dumped
    split
    next isText =>
      rw [isText, unread] at parsed
      cases parsed
    next => exact parsed

theorem Portable.withEntry (portable : codec.Portable) (unread : codec.parse text = none)
    (nonempty : text ≠ []) (wellFormed : json.WellFormed) (notTextual : ¬json.Textual)
    (oneLine : newline ∉ text) (free : (0 : UInt8) ∉ text) :
    (codec.withEntry json text).Portable where
  parse_nil := by
    rw [Codec.withEntry]
    dsimp only
    rw [if_neg nonempty.symm, portable.parse_nil]
  dump_isSome given textual := by
    rw [Codec.withEntry]
    dsimp only
    split
    · rfl
    · exact portable.dump_isSome given textual
  wellFormed given givenText dumped := by
    rw [Codec.withEntry] at dumped
    dsimp only at dumped
    split at dumped
    next isEntry => rwa [isEntry]
    next => exact portable.wellFormed given givenText dumped
  newline_not_mem given givenText dumped := by
    rw [Codec.withEntry] at dumped
    dsimp only at dumped
    split at dumped
    · cases dumped
      exact oneLine
    · exact portable.newline_not_mem given givenText dumped
  parse_dump given givenText textual dumped := by
    rw [Codec.withEntry] at dumped ⊢
    dsimp only at dumped ⊢
    split at dumped
    next isEntry => exact absurd (isEntry ▸ textual) notTextual
    next =>
      have parsed := portable.parse_dump given givenText textual dumped
      split
      next isText =>
        rw [isText, unread] at parsed
        cases parsed
      next => exact parsed
  nul_not_mem given givenText dumped := by
    rw [Codec.withEntry] at dumped
    dsimp only at dumped
    split at dumped
    · cases dumped
      exact free
    · exact portable.nul_not_mem given givenText dumped
  parse_wellFormed givenText given parsed := by
    rw [Codec.withEntry] at parsed
    dsimp only at parsed
    split at parsed
    · cases parsed
      exact wellFormed
    · exact portable.parse_wellFormed givenText given parsed

end Codec

/-! ## The reference format -/

namespace JsonText

theorem printItems_each (items : List Json) {text : Bytes}
    (printed : printItems items = some text) : ∀ item ∈ items, (print item).isSome = true := by
  induction items generalizing text with
  | nil => exact List.forall_mem_nil _
  | cons item items ih =>
      cases items with
      | nil =>
          rcases Option.map_eq_some_iff.mp printed with ⟨start, isText, -⟩
          exact List.forall_mem_singleton.mpr (by rw [isText]; rfl)
      | cons next items =>
          rw [printItems] at printed
          simp only [Option.bind_eq_bind, Option.bind_eq_some_iff] at printed
          rcases printed with ⟨start, isText, others, othersText, -⟩
          exact List.forall_mem_cons.mpr ⟨by rw [isText]; rfl, ih othersText⟩

theorem printMembers_each (members : List (Bytes × Json)) {text : Bytes}
    (printed : printMembers members = some text) :
    ∀ member ∈ members, Utf8.valid member.1 = true ∧ (print member.2).isSome = true := by
  induction members generalizing text with
  | nil => exact List.forall_mem_nil _
  | cons member members ih =>
      rcases member with ⟨key, value⟩
      cases members with
      | nil =>
          rw [printMembers] at printed
          simp only [Option.bind_eq_bind, Option.bind_eq_some_iff] at printed
          rcases printed with ⟨name, isName, body, isText, -⟩
          exact List.forall_mem_singleton.mpr ⟨valid_of_printString isName, by rw [isText]; rfl⟩
      | cons next members =>
          rw [printMembers] at printed
          simp only [Option.bind_eq_bind, Option.bind_eq_some_iff] at printed
          rcases printed with ⟨name, isName, body, isText, others, othersText, -⟩
          exact List.forall_mem_cons.mpr
            ⟨⟨valid_of_printString isName, by rw [isText]; rfl⟩, ih othersText⟩

/-- What has a text in this format has no fraction. -/
theorem textual_of_print {conversions : Conversions} {json : Json}
    (machine : json.Machine conversions) {text : Bytes} (printed : print json = some text) :
    json.Textual := by
  induction machine generalizing text with
  | null => exact .null
  | bool value => exact .bool value
  | int => exact .int _
  | real => cases printed
  | str content => exact .str (valid_of_printString printed)
  | arr _ each =>
      rcases Option.map_eq_some_iff.mp printed with ⟨body, isText, -⟩
      apply Json.Textual.arr
      intro item member
      rcases Option.isSome_iff_exists.mp (printItems_each _ isText item member) with ⟨text, isItem⟩
      exact each item member isItem
  | obj sorted _ each =>
      rcases Option.map_eq_some_iff.mp printed with ⟨body, isText, -⟩
      have members := printMembers_each _ isText
      apply Json.Textual.obj (List.pairwise_map.mp sorted)
      · exact fun member isMember => (members member isMember).1
      · intro member isMember
        rcases Option.isSome_iff_exists.mp (members member isMember).2 with ⟨text, isValue⟩
        exact each member.2 (List.mem_map_of_mem isMember) isValue

theorem reference_faithful (conversions : Conversions) : reference.Faithful conversions := by
  intro json text machine printed
  exact reference_lawful.parse_dump json text (textual_of_print machine printed) printed

end JsonText

end Cllama.Library
