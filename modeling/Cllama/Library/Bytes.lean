import Mathlib.Data.List.Basic
import Mathlib.Data.List.TakeWhile

/-!
# Byte strings

A byte string is a list of octets of any content, NUL and invalid UTF-8
included.  `Utf8.valid` is the well-formedness table of the Unicode standard
(shortest form, no surrogates, nothing above U+10FFFF), as JSON serialisers
check it.
-/

namespace Cllama.Library

/-- A string of octets. -/
abbrev Bytes := List UInt8

/-- The UTF-8 octets of a literal. -/
def bytes (literal : String) : Bytes :=
  literal.toList.flatMap String.utf8EncodeChar

/-! ## Up to an octet -/

section UpTo

variable {octet : UInt8} {text : Bytes}

theorem forall_ne_of_not_mem (absent : octet ∉ text) :
    ∀ other ∈ text, decide (other ≠ octet) = true := by
  intro other isMember
  rw [decide_eq_true_eq]
  rintro rfl
  exact absent isMember

theorem takeWhile_ne_eq_self (absent : octet ∉ text) : text.takeWhile (· ≠ octet) = text :=
  List.takeWhile_eq_self_iff.mpr (forall_ne_of_not_mem absent)

theorem takeWhile_ne_append (absent : octet ∉ text) (rest : Bytes) :
    (text ++ octet :: rest).takeWhile (· ≠ octet) = text := by
  rw [List.takeWhile_append_of_pos (forall_ne_of_not_mem absent),
    List.takeWhile_cons_of_neg (by simp), List.append_nil]

end UpTo

/-- Texts that are joined: the first one, and the others each behind a separator. -/
theorem intercalate_cons (sep text : Bytes) (texts : List Bytes) :
    sep.intercalate (text :: texts) = text ++ texts.flatMap (sep ++ ·) := by
  induction texts generalizing text with
  | nil => simp
  | cons next texts ih =>
      rw [List.intercalate_cons_cons, ih, List.flatMap_cons]
      simp

namespace Utf8

/-- The ranges in which the octets after a lead octet must lie.  The first range is
narrower where a wider one would admit an overlong form, a surrogate or a value above
U+10FFFF. -/
def follow (lead : UInt8) : Option (List (UInt8 × UInt8)) :=
  if lead < 0x80 then some []
  else if 0xC2 ≤ lead ∧ lead ≤ 0xDF then some [(0x80, 0xBF)]
  else if lead = 0xE0 then some [(0xA0, 0xBF), (0x80, 0xBF)]
  else if lead = 0xED then some [(0x80, 0x9F), (0x80, 0xBF)]
  else if 0xE1 ≤ lead ∧ lead ≤ 0xEF then some [(0x80, 0xBF), (0x80, 0xBF)]
  else if lead = 0xF0 then some [(0x90, 0xBF), (0x80, 0xBF), (0x80, 0xBF)]
  else if 0xF1 ≤ lead ∧ lead ≤ 0xF3 then some [(0x80, 0xBF), (0x80, 0xBF), (0x80, 0xBF)]
  else if lead = 0xF4 then some [(0x80, 0x8F), (0x80, 0xBF), (0x80, 0xBF)]
  else none

/-- One octet, with the ranges still awaited by an unfinished character. -/
def step : List (UInt8 × UInt8) → UInt8 → Option (List (UInt8 × UInt8))
  | [], octet => follow octet
  | (low, high) :: awaited, octet =>
      if low ≤ octet ∧ octet ≤ high then some awaited else none

/-- Whether a byte string is well-formed UTF-8: no character is malformed, and none is
left unfinished. -/
def valid (text : Bytes) : Bool :=
  decide (text.foldlM step [] = some [])

/-- What follows well-formed text decides whether the whole is. -/
theorem valid_append_iff {left right : Bytes} (leftValid : valid left = true) :
    valid (left ++ right) = true ↔ valid right = true := by
  simp only [valid, decide_eq_true_eq] at leftValid ⊢
  rw [List.foldlM_append, leftValid]
  exact Iff.rfl

theorem valid_append {left right : Bytes} (leftValid : valid left = true)
    (rightValid : valid right = true) : valid (left ++ right) = true :=
  (valid_append_iff leftValid).mpr rightValid

/-- ASCII text is well-formed. -/
theorem valid_of_ascii {text : Bytes} (ascii : ∀ octet ∈ text, octet < 0x80) :
    valid text = true := by
  rw [valid, decide_eq_true_eq]
  induction text with
  | nil => rfl
  | cons octet text ih =>
      rw [List.forall_mem_cons] at ascii
      rw [List.foldlM_cons, step, follow, if_pos ascii.1]
      exact ih ascii.2

theorem low_of_follow {lead : UInt8} {awaited : List (UInt8 × UInt8)}
    (follows : follow lead = some awaited) : ∀ range ∈ awaited, 0x80 ≤ range.1 := by
  unfold follow at follows
  split_ifs at follows <;> cases follows <;> simp

/-- Only octets from 0x80 on finish a character. -/
theorem low_of_foldlM {text : Bytes} {start awaited : List (UInt8 × UInt8)}
    (low : ∀ range ∈ start, 0x80 ≤ range.1) (read : text.foldlM step start = some awaited) :
    ∀ range ∈ awaited, 0x80 ≤ range.1 := by
  induction text generalizing start with
  | nil =>
      cases read
      exact low
  | cons octet text ih =>
      rw [List.foldlM_cons, Option.bind_eq_bind, Option.bind_eq_some_iff] at read
      rcases read with ⟨next, stepped, rest⟩
      apply ih _ rest
      cases start with
      | nil => exact low_of_follow stepped
      | cons range ranges =>
          rw [step] at stepped
          split at stepped
          next =>
            cases stepped
            exact fun other isMember => low other (List.mem_cons_of_mem _ isMember)
          next => cases stepped

/-- An ASCII octet is a character of its own. -/
theorem step_ascii {octet : UInt8} (ascii : octet < 0x80) {start next : List (UInt8 × UInt8)}
    (low : ∀ range ∈ start, 0x80 ≤ range.1) (stepped : step start octet = some next) :
    start = [] ∧ next = [] := by
  cases start with
  | nil =>
      rw [step, follow, if_pos ascii] at stepped
      cases stepped
      exact ⟨rfl, rfl⟩
  | cons range ranges =>
      have outside : ¬(range.1 ≤ octet ∧ octet ≤ range.2) := by
        intro inside
        have least := low range List.mem_cons_self
        exact UInt8.not_le.mpr ascii (UInt8.le_trans least inside.1)
      rw [step, if_neg outside] at stepped
      cases stepped

/-- Text is well-formed on both sides of an ASCII character. -/
theorem valid_cut {left right : Bytes} {octet : UInt8} (ascii : octet < 0x80)
    (whole : valid (left ++ octet :: right) = true) :
    valid left = true ∧ valid (octet :: right) = true := by
  have leftValid : valid left = true := by
    rw [valid, decide_eq_true_eq, List.foldlM_append, Option.bind_eq_bind,
      Option.bind_eq_some_iff] at whole
    rcases whole with ⟨awaited, read, rest⟩
    rw [List.foldlM_cons, Option.bind_eq_bind, Option.bind_eq_some_iff] at rest
    rcases rest with ⟨next, stepped, -⟩
    rw [valid, decide_eq_true_eq, read, (step_ascii ascii (low_of_foldlM (by simp) read) stepped).1]
  exact ⟨leftValid, (valid_append_iff leftValid).mp whole⟩

theorem valid_flatten {texts : List Bytes} (allValid : ∀ text ∈ texts, valid text = true) :
    valid texts.flatten = true := by
  induction texts with
  | nil => rfl
  | cons text texts ih =>
      rw [List.forall_mem_cons] at allValid
      exact valid_append allValid.1 (ih allValid.2)

/-- A decimal digit is one octet. -/
theorem lt_of_mem_digit {digit : Char} (isDigit : digit.isDigit = true) {octet : UInt8}
    (member : octet ∈ String.utf8EncodeChar digit) : octet < 0x80 := by
  simp only [Char.isDigit, Bool.and_eq_true, decide_eq_true_eq, ge_iff_le] at isDigit
  have bound : digit.val.toNat ≤ 57 := UInt32.le_iff_toNat_le.mp isDigit.2
  rw [String.utf8EncodeChar, if_pos (by omega), List.mem_singleton] at member
  rw [member, UInt8.lt_iff_toNat_lt]
  change digit.val.toNat % 256 < 128
  omega

/-- The decimal digits of a number are well-formed. -/
theorem valid_digits (value : Nat) : valid (bytes (toString value)) = true := by
  apply valid_of_ascii
  intro octet member
  have digits : (toString value).toList = Nat.toDigits 10 value := Nat.toList_repr
  rw [bytes, digits, List.mem_flatMap] at member
  rcases member with ⟨digit, isDigit, encoded⟩
  exact lt_of_mem_digit (Nat.isDigit_of_mem_toDigits (by decide) (by decide) isDigit) encoded

theorem bytes_append (left right : String) :
    bytes (left ++ right) = bytes left ++ bytes right := by
  rw [bytes, String.toList_append, List.flatMap_append]
  rfl

/-- So are those of a number with a sign. -/
theorem valid_integer (value : Int) : valid (bytes (toString value)) = true := by
  cases value with
  | ofNat value => exact valid_digits value
  | negSucc value =>
      have signed : toString (Int.negSucc value) = "-" ++ toString (value + 1) := rfl
      rw [signed, bytes_append]
      exact valid_append (by decide) (valid_digits _)

end Utf8

end Cllama.Library
