import Cllama.Library.JsonTextLawful

/-!
# String literals of JSON

The grammar of string literals with all its escapes, and what a literal stands for.  A
character outside the basic plane may be written as two escapes.
-/

namespace Cllama.Library.JsonLiteral

open JsonText

def IsHigh (unit : Nat) : Prop := 0xD800 ≤ unit ∧ unit ≤ 0xDBFF

def IsLow (unit : Nat) : Prop := 0xDC00 ≤ unit ∧ unit ≤ 0xDFFF

/-- The octets of the character that two code units stand for. -/
def encodePair (high low : Nat) : Bytes :=
  String.utf8EncodeChar (Char.ofNat (0x10000 + (high - 0xD800) * 0x400 + (low - 0xDC00)))

/-- The characters between the quotes, and the text they stand for. -/
inductive Chars : Bytes → Bytes → Prop where
  | nil : Chars [] []
  | plain {octet : UInt8} {body text : Bytes} : octet ≠ quote → octet ≠ backslash →
      0x20 ≤ octet → Chars body text → Chars (octet :: body) (octet :: text)
  | short {escaped character : UInt8} {body text : Bytes} :
      unescapeOctet escaped = some character → Chars body text →
      Chars (backslash :: escaped :: body) (character :: text)
  | unicode {a b c d : UInt8} {unit : Nat} {character body text : Bytes} :
      hex4 a b c d = some unit → encodeUnit unit = some character → Chars body text →
      Chars (backslash :: 0x75 :: a :: b :: c :: d :: body) (character ++ text)
  | pair {a b c d a' b' c' d' : UInt8} {high low : Nat} {body text : Bytes} :
      hex4 a b c d = some high → IsHigh high → hex4 a' b' c' d' = some low → IsLow low →
      Chars body text →
      Chars (backslash :: 0x75 :: a :: b :: c :: d ::
          backslash :: 0x75 :: a' :: b' :: c' :: d' :: body)
        (encodePair high low ++ text)

/-- A literal is well-formed text between quotes. -/
def Literal (literal text : Bytes) : Prop :=
  ∃ body, literal = quote :: (body ++ [quote]) ∧ Utf8.valid literal = true ∧ Chars body text

theorem encodeUnit_high {unit : Nat} (high : IsHigh unit) : encodeUnit unit = none := by
  rcases high with ⟨least, most⟩
  exact if_pos ⟨least, by omega⟩

/-- A literal stands for one text only. -/
theorem Chars.unique {body text other : Bytes} (chars : Chars body text)
    (others : Chars body other) : other = text := by
  induction chars generalizing other with
  | nil =>
      cases others
      rfl
  | plain _ notBackslash _ _ ih =>
      cases others with
      | plain _ _ _ rest => rw [ih rest]
      | _ => exact absurd rfl notBackslash
  | short known _ ih =>
      cases others with
      | plain _ notBackslash _ _ => exact absurd rfl notBackslash
      | short known' rest =>
          cases known.symm.trans known'
          rw [ih rest]
      | _ => cases known
  | unicode isUnit encoded _ ih =>
      cases others with
      | plain _ notBackslash _ _ => exact absurd rfl notBackslash
      | short known _ => cases known
      | unicode isUnit' encoded' rest =>
          cases isUnit.symm.trans isUnit'
          cases encoded.symm.trans encoded'
          rw [ih rest]
      | pair isHigh high _ _ _ =>
          cases isUnit.symm.trans isHigh
          rw [encodeUnit_high high] at encoded
          cases encoded
  | pair isHigh high isLow _ _ ih =>
      cases others with
      | plain _ notBackslash _ _ => exact absurd rfl notBackslash
      | short known _ => cases known
      | unicode isUnit encoded _ =>
          cases isHigh.symm.trans isUnit
          rw [encodeUnit_high high] at encoded
          cases encoded
      | pair isHigh' _ isLow' _ rest =>
          cases isHigh.symm.trans isHigh'
          cases isLow.symm.trans isLow'
          rw [ih rest]

theorem chars_escapeOctet (octet : UInt8) {body text : Bytes} (chars : Chars body text) :
    Chars (escapeOctet octet ++ body) (octet :: text) := by
  by_cases special : octet = quote ∨ octet = backslash ∨ octet = 0x08 ∨ octet = 0x0C ∨
      octet = 0x0A ∨ octet = 0x0D ∨ octet = 0x09
  · rcases special with rfl | rfl | rfl | rfl | rfl | rfl | rfl <;>
      exact .short (by decide) chars
  · simp only [not_or] at special
    rcases special with ⟨notQuote, notBackslash, notB, notF, notN, notR, notT⟩
    simp only [escapeOctet, if_neg notQuote, if_neg notBackslash, if_neg notB, if_neg notF,
      if_neg notN, if_neg notR, if_neg notT]
    by_cases control : octet < 0x20
    · have unit := hex4_control octet.toNat (by simpa [UInt8.lt_iff_toNat_lt] using control)
      rcases Option.bind_eq_some_iff.mp unit with ⟨unit, parsed, encoded⟩
      rw [UInt8.ofNat_toNat] at encoded
      rw [if_pos control]
      exact .unicode parsed encoded chars
    · rw [if_neg control]
      exact .plain notQuote notBackslash (UInt8.not_lt.mp control) chars

theorem chars_escape (text : Bytes) : Chars (escape text) text := by
  induction text with
  | nil => exact .nil
  | cons octet text ih => exact chars_escapeOctet octet ih

/-! ## Well-formed text -/

theorem escapeOctet_ascii : ∀ octet : UInt8, octet < 0x80 →
    ∀ escaped ∈ escapeOctet octet, escaped < 0x80 ∧ 0x20 ≤ escaped := by
  have each : ∀ octet : UInt8, octet < 0x80 →
      (escapeOctet octet).all (fun escaped => decide (escaped < 0x80 ∧ 0x20 ≤ escaped)) = true :=
    forall_octet (by decide +kernel)
  intro octet ascii escaped isMember
  exact of_decide_eq_true (List.all_eq_true.mp (each octet ascii) escaped isMember)

theorem escapeOctet_high : ∀ octet : UInt8, ¬octet < 0x80 → escapeOctet octet = [octet] :=
  forall_octet (by decide +kernel)

/-- Escaping leaves text well-formed. -/
theorem foldlM_escape {text : Bytes} {start final : List (UInt8 × UInt8)}
    (low : ∀ range ∈ start, 0x80 ≤ range.1) (read : text.foldlM Utf8.step start = some final) :
    (escape text).foldlM Utf8.step start = some final := by
  induction text generalizing start with
  | nil => exact read
  | cons octet text ih =>
      rw [List.foldlM_cons, Option.bind_eq_bind, Option.bind_eq_some_iff] at read
      rcases read with ⟨next, stepped, rest⟩
      rw [escape, List.flatMap_cons, List.foldlM_append, ← escape]
      by_cases ascii : octet < 0x80
      · rcases Utf8.step_ascii ascii low stepped with ⟨rfl, rfl⟩
        have valid := Utf8.valid_of_ascii
          fun escaped isMember => (escapeOctet_ascii octet ascii escaped isMember).1
        rw [Utf8.valid, decide_eq_true_eq] at valid
        rw [valid]
        exact ih low rest
      · have nextLow := @Utf8.low_of_foldlM [octet] start next low (by simp [stepped])
        rw [escapeOctet_high octet ascii, List.foldlM_cons, stepped]
        exact ih nextLow rest

theorem valid_escape {text : Bytes} (valid : Utf8.valid text = true) :
    Utf8.valid (escape text) = true := by
  rw [Utf8.valid, decide_eq_true_eq] at valid ⊢
  exact foldlM_escape (by simp) valid

theorem literal_escape {text : Bytes} (valid : Utf8.valid text = true) :
    Literal (quote :: (escape text ++ [quote])) text := by
  refine ⟨escape text, rfl, ?_, chars_escape text⟩
  have quoted : Utf8.valid [quote] = true := rfl
  exact @Utf8.valid_append [quote] _ quoted (Utf8.valid_append (valid_escape valid) quoted)

theorem Literal.unique {literal text other : Bytes} (isLiteral : Literal literal text)
    (others : Literal literal other) : other = text := by
  rcases isLiteral with ⟨body, rfl, -, chars⟩
  rcases others with ⟨body', same, -, chars'⟩
  cases List.append_cancel_right (List.cons.inj same).2
  exact chars.unique chars'

theorem printable_escape {text : Bytes} {octet : UInt8} (isMember : octet ∈ escape text) :
    0x20 ≤ octet := by
  rw [escape, List.mem_flatMap] at isMember
  rcases isMember with ⟨original, -, escaped⟩
  by_cases ascii : original < 0x80
  · exact (escapeOctet_ascii original ascii octet escaped).2
  · rw [escapeOctet_high original ascii, List.mem_singleton] at escaped
    subst escaped
    exact UInt8.le_trans (by decide) (UInt8.not_lt.mp ascii)

end Cllama.Library.JsonLiteral
