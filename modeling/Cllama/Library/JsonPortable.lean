import Cllama.Library.JsonLiteral
import Cllama.Library.JsonTextLawful

/-!
# JSON between programs

What one program writes as JSON and another one reads: the text survives a receiver that takes it
for a C string, and no malformed string comes in.
-/

namespace Cllama.Library

/-- A lawful library whose texts have no NUL and which reads well-formed strings only. -/
structure Codec.Portable (codec : Codec) : Prop extends codec.Lawful where
  nul_not_mem : ∀ (json : Json) (text : Bytes), codec.dump json = some text → (0 : UInt8) ∉ text
  parse_wellFormed : ∀ (text : Bytes) (json : Json),
    codec.parse text = some json → json.WellFormed

namespace JsonText

/-- No control characters. -/
def Printable (text : Bytes) : Prop := ∀ octet ∈ text, (0x20 : UInt8) ≤ octet

theorem Printable.cons {octet : UInt8} {text : Bytes} (first : (0x20 : UInt8) ≤ octet)
    (rest : Printable text) : Printable (octet :: text) :=
  List.forall_mem_cons.mpr ⟨first, rest⟩

theorem Printable.append {left right : Bytes} (first : Printable left) (rest : Printable right) :
    Printable (left ++ right) :=
  List.forall_mem_append.mpr ⟨first, rest⟩

theorem printable_literal {octet : UInt8} (printable : (0x20 : UInt8) ≤ octet) :
    Printable [octet] :=
  List.forall_mem_singleton.mpr printable

theorem printable_printString {text printed : Bytes} (written : printString text = some printed) :
    Printable printed := by
  rw [printString] at written
  split at written
  next =>
    cases written
    apply Printable.append
    · exact Printable.cons (by decide) fun octet member => JsonLiteral.printable_escape member
    · exact printable_literal (by decide)
  next => cases written

theorem printable_printInt (value : Int) : Printable (printInt value) := by
  have digits : ∀ value, Printable (printNat value) := by
    intro value octet member
    have digit := isDigit_of_mem_printNat member
    rw [isDigit, Bool.and_eq_true, decide_eq_true_eq, decide_eq_true_eq] at digit
    exact UInt8.le_trans (by decide) digit.1
  cases value with
  | ofNat value => exact digits value
  | negSucc value => exact Printable.cons (by decide) (digits (value + 1))

mutual

theorem printable_print : (json : Json) → {text : Bytes} → print json = some text →
    Printable text
  | .null, text, printed => by
      cases printed
      simp only [Printable]
      decide +kernel
  | .bool true, text, printed => by
      cases printed
      simp only [Printable]
      decide +kernel
  | .bool false, text, printed => by
      cases printed
      simp only [Printable]
      decide +kernel
  | .int value, text, printed => by
      cases printed
      exact printable_printInt value
  | .str content, text, printed => printable_printString printed
  | .arr items, text, printed => by
      rcases Option.map_eq_some_iff.mp printed with ⟨body, written, rfl⟩
      exact Printable.cons (by decide) (printable_printItems items written)
  | .obj members, text, printed => by
      rcases Option.map_eq_some_iff.mp printed with ⟨body, written, rfl⟩
      exact Printable.cons (by decide) (printable_printMembers members written)

theorem printable_printItems : (items : List Json) → {text : Bytes} →
    printItems items = some text → Printable text
  | [], text, printed => by
      cases printed
      exact printable_literal (by decide)
  | [item], text, printed => by
      rcases Option.map_eq_some_iff.mp printed with ⟨start, written, rfl⟩
      exact (printable_print item written).append (printable_literal (by decide))
  | item :: next :: items, text, printed => by
      rw [printItems] at printed
      simp only [Option.bind_eq_bind, Option.bind_eq_some_iff] at printed
      rcases printed with ⟨start, written, others, writtenOthers, same⟩
      cases same
      exact (printable_print item written).append
        (.cons (by decide) (printable_printItems (next :: items) writtenOthers))

theorem printable_printMembers : (members : List (Bytes × Json)) → {text : Bytes} →
    printMembers members = some text → Printable text
  | [], text, printed => by
      cases printed
      exact printable_literal (by decide)
  | [(key, value)], text, printed => by
      rw [printMembers] at printed
      simp only [Option.bind_eq_bind, Option.bind_eq_some_iff] at printed
      rcases printed with ⟨name, writtenName, body, written, same⟩
      cases same
      exact ((printable_printString writtenName).append
        (.cons (by decide) (printable_print value written))).append (printable_literal (by decide))
  | (key, value) :: next :: members, text, printed => by
      rw [printMembers] at printed
      simp only [Option.bind_eq_bind, Option.bind_eq_some_iff] at printed
      rcases printed with ⟨name, writtenName, body, written, others, writtenOthers, same⟩
      cases same
      exact ((printable_printString writtenName).append
        (.cons (by decide) (printable_print value written))).append
          (.cons (by decide) (printable_printMembers (next :: members) writtenOthers))

end

theorem reference_portable : reference.Portable where
  toLawful := reference_lawful
  nul_not_mem json _ printed member :=
    absurd (printable_print json printed 0 member) (by decide)
  parse_wellFormed _ _ parsed := read_wellFormed parsed

/-! ### An object with one string -/

theorem readString_escape (text rest : Bytes) : readString (escape text ++ quote :: rest) =
    if Utf8.valid text = true then some (text, rest) else none := by
  rw [readString, scanString_escape]
  rfl

theorem readValue_quote (fuel : Nat) (rest : Bytes) : readValue (fuel + 1) (quote :: rest) =
    (readString rest).map fun (text, rest) => (.str text, rest) := by
  rw [readValue, if_pos rfl]

theorem readMembers_string {key text rest : Bytes} (keyValid : Utf8.valid key = true) (fuel : Nat) :
    readMembers (fuel + 2) (quote :: (escape key ++ quote :: colon :: quote ::
      (escape text ++ quote :: closeBrace :: rest))) =
      if Utf8.valid text = true then some ([(key, .str text)], rest) else none := by
  rw [readMembers, if_pos rfl, readString_escape, if_pos keyValid]
  dsimp only
  rw [if_pos rfl, readValue_quote, readString_escape]
  cases Utf8.valid text <;> simp

/-- An object with one string is read exactly if the string is well-formed. -/
theorem read_string {key text : Bytes} (keyValid : Utf8.valid key = true) :
    read (openBrace :: quote :: (escape key ++ quote :: colon :: quote ::
      (escape text ++ [quote, closeBrace]))) =
      if Utf8.valid text = true then some (.obj [(key, .str text)]) else none := by
  have notQuote : openBrace ≠ quote := by decide
  have notBracket : openBrace ≠ openBracket := by decide
  have notBrace : ¬some quote = some closeBrace := by decide
  generalize whole : openBrace :: quote :: (escape key ++ quote :: colon :: quote ::
    (escape text ++ [quote, closeBrace])) = given
  have long : 3 ≤ given.length := by
    rw [← whole, List.length_cons, List.length_cons, List.length_append, List.length_cons]
    omega
  rcases Nat.exists_eq_add_of_le' long with ⟨fuel, isFuel⟩
  rw [read, isFuel, ← whole, readValue, if_neg notQuote, if_neg notBracket, if_pos rfl,
    List.head?_cons, if_neg notBrace, readMembers_string keyValid]
  cases Utf8.valid text <;> simp

end JsonText

end Cllama.Library
