import Cllama.Library.Bytes

/-!
# Decimal numbers in C++ programs

How `stoi` and an input stream read an `int` out of a text.  A number that does not fit is
an exception of the one and a failure of the other.
-/

namespace Cllama.Library.Decimal

def isDigit (octet : UInt8) : Bool :=
  decide (0x30 ≤ octet) && decide (octet ≤ 0x39)

/-- `isspace` of the C locale. -/
def isSpace (octet : UInt8) : Bool :=
  octet = 0x20 || decide (0x09 ≤ octet) && decide (octet ≤ 0x0D)

/-- The number that digits stand for. -/
def value (digits : Bytes) : Nat :=
  digits.foldl (fun value digit => 10 * value + (digit.toNat - 0x30)) 0

/-- The greatest `int`. -/
def intMax : Nat := 2147483647

/-- `stoi` of a text of digits. -/
def stoi (digits : Bytes) : Option Nat :=
  if value digits ≤ intMax then some (value digits) else none

/-- The sign in front of a number, and what follows it. -/
def sign : Bytes → Bool × Bytes
  | 0x2D :: text => (true, text)
  | 0x2B :: text => (false, text)
  | text => (false, text)

/-- `>>` into an `int`, as far as the result is positive. -/
def extractPositive (text : Bytes) : Option Nat :=
  let (negative, text) := sign (text.dropWhile isSpace)
  let digits := text.takeWhile isDigit
  if negative = true ∨ value digits = 0 then none else stoi digits

/-- `stoi` of any text: white space, a sign and digits, with anything behind them. -/
def stoiInt (text : Bytes) : Option Int :=
  let (negative, text) := sign (text.dropWhile isSpace)
  let digits := text.takeWhile isDigit
  if digits = [] then none
  else
    let number : Int := if negative then -value digits else value digits
    if -2147483648 ≤ number ∧ number ≤ 2147483647 then some number else none

theorem pos_of_extractPositive {text : Bytes} {number : Nat}
    (read : extractPositive text = some number) : 0 < number := by
  simp only [extractPositive] at read
  split at read
  · cases read
  next accepted =>
    rw [not_or] at accepted
    rw [stoi] at read
    split at read
    · cases read
      exact Nat.pos_of_ne_zero accepted.2
    · cases read

/-! ## Numbers that have been written -/

theorem encode_digit {digit : Char} (isDigit : digit.isDigit = true) :
    String.utf8EncodeChar digit = [UInt8.ofNat digit.toNat] ∧
      0x30 ≤ digit.toNat ∧ digit.toNat ≤ 0x39 := by
  simp only [Char.isDigit, Bool.and_eq_true, decide_eq_true_eq, ge_iff_le] at isDigit
  have low : 48 ≤ digit.val.toNat := UInt32.le_iff_toNat_le.mp isDigit.1
  have high : digit.val.toNat ≤ 57 := UInt32.le_iff_toNat_le.mp isDigit.2
  refine ⟨?_, low, high⟩
  rw [String.utf8EncodeChar, if_pos (by omega)]
  rfl

/-- The octets of digits. -/
theorem octets_of_digits {digits : List Char} (allDigits : ∀ c ∈ digits, c.isDigit = true) :
    digits.flatMap String.utf8EncodeChar = digits.map fun c => UInt8.ofNat c.toNat := by
  induction digits with
  | nil => rfl
  | cons digit digits ih =>
      rw [List.forall_mem_cons] at allDigits
      rw [List.flatMap_cons, (encode_digit allDigits.1).1, ih allDigits.2]
      rfl

theorem allDigits_toDigits (number : Nat) :
    ∀ c ∈ Nat.toDigits 10 number, c.isDigit = true :=
  fun _ isMember => Nat.isDigit_of_mem_toDigits (by decide) (by decide) isMember

theorem bytes_toString (number : Nat) :
    bytes (toString number) = (Nat.toDigits 10 number).map fun c => UInt8.ofNat c.toNat := by
  have digits : (toString number).toList = Nat.toDigits 10 number := Nat.toList_repr
  rw [bytes, digits, octets_of_digits (allDigits_toDigits number)]

theorem isDigit_of_mem_toString {number : Nat} {octet : UInt8}
    (isMember : octet ∈ bytes (toString number)) : isDigit octet = true := by
  rw [bytes_toString] at isMember
  rcases List.mem_map.mp isMember with ⟨c, isDigit, rfl⟩
  have range := (encode_digit (allDigits_toDigits number c isDigit)).2
  rw [Decimal.isDigit, Bool.and_eq_true, decide_eq_true_eq, decide_eq_true_eq,
    UInt8.le_iff_toNat_le, UInt8.le_iff_toNat_le, UInt8.toNat_ofNat']
  change 48 ≤ c.toNat % 256 ∧ c.toNat % 256 ≤ 57
  omega

/-- The digits of a number stand for it. -/
theorem value_toString (number : Nat) : value (bytes (toString number)) = number := by
  have folded : ∀ (digits : List Char) (start : Nat), (∀ c ∈ digits, c.isDigit = true) →
      (digits.map fun c => UInt8.ofNat c.toNat).foldl
          (fun value digit => 10 * value + (digit.toNat - 0x30)) start =
        Nat.ofDigitChars 10 digits start := by
    intro digits
    induction digits with
    | nil => exact fun start _ => rfl
    | cons digit digits ih =>
        intro start allDigits
        rw [List.forall_mem_cons] at allDigits
        have range := (encode_digit allDigits.1).2
        have octet : (UInt8.ofNat digit.toNat).toNat = digit.toNat := by
          rw [UInt8.toNat_ofNat']
          omega
        rw [List.map_cons, List.foldl_cons, Nat.ofDigitChars_cons, octet, ih _ allDigits.2]
        rfl
  rw [value, bytes_toString, folded _ _ (allDigits_toDigits number)]
  exact Nat.ofDigitChars_toDigits (by decide) (by decide)

theorem not_isSpace_of_isDigit {octet : UInt8} (digit : isDigit octet = true) :
    isSpace octet = false ∧ octet ≠ 0x2D ∧ octet ≠ 0x2B := by
  simp only [isDigit, Bool.and_eq_true, decide_eq_true_eq, UInt8.le_iff_toNat_le] at digit
  change 48 ≤ octet.toNat ∧ octet.toNat ≤ 57 at digit
  have differs : ∀ other : UInt8, octet = other → octet.toNat = other.toNat :=
    fun other same => congrArg UInt8.toNat same
  refine ⟨?_, ?_, ?_⟩
  · rw [isSpace, Bool.or_eq_false_iff, Bool.and_eq_false_iff, decide_eq_false_iff_not,
      decide_eq_false_iff_not, decide_eq_false_iff_not, UInt8.le_iff_toNat_le,
      UInt8.le_iff_toNat_le]
    change ¬octet = 0x20 ∧ (¬9 ≤ octet.toNat ∨ ¬octet.toNat ≤ 13)
    refine ⟨fun same => ?_, Or.inr (by omega)⟩
    have := differs _ same
    change octet.toNat = 32 at this
    omega
  · intro same
    have := differs _ same
    change octet.toNat = 45 at this
    omega
  · intro same
    have := differs _ same
    change octet.toNat = 43 at this
    omega

/-- A number that was written on a line of its own is read back. -/
theorem extractPositive_toString {number : Nat} (positive : 0 < number)
    (fits : number ≤ intMax) :
    extractPositive (bytes (toString number) ++ [0x0A]) = some number := by
  have allDigits : ∀ octet ∈ bytes (toString number), isDigit octet = true :=
    fun octet isMember => isDigit_of_mem_toString isMember
  have number_eq := value_toString number
  generalize bytes (toString number) = digits at allDigits number_eq ⊢
  cases digits with
  | nil =>
      have zero : number = 0 := number_eq.symm
      omega
  | cons first digits =>
      have notSpace := not_isSpace_of_isDigit (allDigits first List.mem_cons_self)
      have unsigned : sign (first :: digits ++ [0x0A]) = (false, first :: digits ++ [0x0A]) := by
        rw [List.cons_append, sign]
        · exact fun rest same => notSpace.2.1 (List.cons.inj same).1
        · exact fun rest same => notSpace.2.2 (List.cons.inj same).1
      have start : (first :: digits ++ [0x0A]).dropWhile isSpace = first :: digits ++ [0x0A] := by
        rw [List.cons_append, List.dropWhile_cons, if_neg (by rw [notSpace.1]; decide)]
      have taken : (first :: digits ++ [0x0A]).takeWhile isDigit = first :: digits := by
        rw [List.takeWhile_append_of_pos allDigits]
        exact List.append_nil _
      rw [extractPositive, start, unsigned]
      dsimp only
      rw [taken, number_eq, if_neg (by simp; omega), stoi, number_eq, if_pos fits]

/-! ## Texts that are numbers -/

/-- A number that fits an `int`. -/
def Fits (number : Int) : Prop := -2147483648 ≤ number ∧ number ≤ 2147483647

structure Digits (text : Bytes) : Prop where
  nonempty : text ≠ []
  digits : ∀ octet ∈ text, isDigit octet = true

/-- A whole text is a decimal integer that fits an `int`. -/
inductive IsInt : Bytes → Int → Prop where
  | unsigned {digits : Bytes} : Digits digits → Fits (value digits) → IsInt digits (value digits)
  | plus {digits : Bytes} :
      Digits digits → Fits (value digits) → IsInt (0x2B :: digits) (value digits)
  | minus {digits : Bytes} :
      Digits digits → Fits (-value digits) → IsInt (0x2D :: digits) (-value digits)

/-- Digits have no sign. -/
theorem Digits.sign {text : Bytes} (digits : Digits text) :
    sign (text.dropWhile isSpace) = (false, text) := by
  cases text with
  | nil => exact absurd rfl digits.nonempty
  | cons first text =>
      have notSpace := not_isSpace_of_isDigit (digits.digits first List.mem_cons_self)
      rw [List.dropWhile_cons, if_neg (by rw [notSpace.1]; decide), Decimal.sign]
      · exact fun rest same => notSpace.2.1 (List.cons.inj same).1
      · exact fun rest same => notSpace.2.2 (List.cons.inj same).1

theorem Digits.takeWhile {text : Bytes} (digits : Digits text) :
    text.takeWhile isDigit = text :=
  List.takeWhile_eq_self_iff.mpr digits.digits

/-- A text that is a number is read as that number. -/
theorem IsInt.stoiInt {text : Bytes} {number : Int} (isInt : IsInt text number) :
    stoiInt text = some number := by
  cases isInt with
  | unsigned digits fits =>
      rw [Decimal.stoiInt, digits.sign]
      simp only [digits.takeWhile, digits.nonempty, if_false]
      exact if_pos fits
  | @plus text digits fits =>
      have start : (0x2B :: text).dropWhile isSpace = 0x2B :: text := rfl
      rw [Decimal.stoiInt, start, sign]
      simp only [digits.takeWhile, digits.nonempty, if_false]
      exact if_pos fits
  | @minus text digits fits =>
      have start : (0x2D :: text).dropWhile isSpace = 0x2D :: text := rfl
      rw [Decimal.stoiInt, start, sign]
      simp only [digits.takeWhile, digits.nonempty, if_false, if_true]
      exact if_pos fits

theorem IsInt.octets {text : Bytes} {number : Int} (isInt : IsInt text number) :
    ∀ octet ∈ text, isDigit octet = true ∨ octet = 0x2B ∨ octet = 0x2D := by
  cases isInt with
  | unsigned digits => exact fun octet isMember => Or.inl (digits.digits octet isMember)
  | plus digits =>
      rw [List.forall_mem_cons]
      exact ⟨Or.inr (Or.inl rfl), fun octet isMember => Or.inl (digits.digits octet isMember)⟩
  | minus digits =>
      rw [List.forall_mem_cons]
      exact ⟨Or.inr (Or.inr rfl), fun octet isMember => Or.inl (digits.digits octet isMember)⟩

theorem digits_toString (number : Nat) : Digits (bytes (toString number)) where
  nonempty := by
    rw [bytes_toString]
    simp
  digits octet isMember := isDigit_of_mem_toString isMember

/-- A number that is written out is a number. -/
theorem isInt_toString {number : Int} (fits : Fits number) :
    IsInt (bytes (toString number)) number := by
  cases number with
  | ofNat number =>
      have read := IsInt.unsigned (digits_toString number)
      rw [value_toString] at read
      exact read fits
  | negSucc number =>
      have signed : bytes (toString (Int.negSucc number)) =
          0x2D :: bytes (toString (number + 1)) := Utf8.bytes_append "-" _
      have read := IsInt.minus (digits_toString (number + 1))
      rw [value_toString] at read
      rw [signed]
      exact read fits

end Cllama.Library.Decimal
