import Mathlib.Algebra.BigOperators.Group.List.Basic
import Mathlib.Algebra.GroupWithZero.Nat
import Mathlib.Algebra.Order.BigOperators.Group.List
import Cllama.Library.Bytes

/-!
# Command lines on Windows

A process on Windows gets one string, which `CommandLineToArgvW` takes apart.  The program's
name ends at the next quote if it starts with one.  Behind it, blanks and tabs separate
arguments; a quote begins or ends a part in which they do not; backslashes in front of a
quote stand for half as many, and if one is left over the quote is a character of the
argument.
-/

namespace Cllama.Library.WindowsArgv

def quote : UInt8 := 0x22
def backslash : UInt8 := 0x5C

def isBlank (c : UInt8) : Bool := c == 0x20 || c == 0x09

/-- The argument read so far, if one has begun; backslashes are counted until it is known
whether a quote follows. -/
def finish (slashes : Nat) (current : Option Bytes) : List Bytes :=
  (current.map (· ++ List.replicate slashes backslash)).toList

/-- The arguments behind the name of the program. -/
def scan : Bytes → Bool → Nat → Option Bytes → List Bytes
  | [], _, slashes, current => finish slashes current
  | c :: rest, quoted, slashes, current =>
      let text := current.getD []
      if c = backslash then scan rest quoted (slashes + 1) (some text)
      else if c = quote then
        let text := text ++ List.replicate (slashes / 2) backslash
        if slashes % 2 = 0 then scan rest (!quoted) 0 (some text)
        else scan rest quoted 0 (some (text ++ [quote]))
      else if isBlank c && !quoted then finish slashes current ++ scan rest false 0 none
      else scan rest quoted 0 (some (text ++ (List.replicate slashes backslash ++ [c])))

/-- `CommandLineToArgvW`. -/
def commandLineToArgv : Bytes → List Bytes
  | [] => []
  | c :: rest =>
      if c = quote then
        rest.takeWhile (· ≠ quote) :: scan ((rest.dropWhile (· ≠ quote)).drop 1) false 0 none
      else
        (c :: rest).takeWhile (!isBlank ·) :: scan ((c :: rest).dropWhile (!isBlank ·)) false 0 none

/-! ## What arguments weigh -/

section Weight

variable (weigh : UInt8 → Nat) (each : Nat)

/-- The weight of characters. -/
def load (text : Bytes) : Nat :=
  (text.map weigh).sum

/-- The weight of arguments, each with something for itself. -/
def total (args : List Bytes) : Nat :=
  (args.map fun arg => each + load weigh arg).sum

@[simp] theorem load_nil : load weigh [] = 0 := rfl

@[simp] theorem load_cons (c : UInt8) (text : Bytes) :
    load weigh (c :: text) = weigh c + load weigh text :=
  List.sum_cons

@[simp] theorem load_append (left right : Bytes) :
    load weigh (left ++ right) = load weigh left + load weigh right := by
  simp [load]

@[simp] theorem load_replicate (count : Nat) (c : UInt8) :
    load weigh (List.replicate count c) = count * weigh c := by
  simp [load]

@[simp] theorem total_nil : total weigh each [] = 0 := rfl

@[simp] theorem total_cons (arg : Bytes) (args : List Bytes) :
    total weigh each (arg :: args) = each + load weigh arg + total weigh each args :=
  List.sum_cons

/-- What an argument that has been begun weighs; one that has not may still begin. -/
def pending (slashes : Nat) (current : Option Bytes) : Nat :=
  each + load weigh (current.getD []) + slashes * weigh backslash

theorem total_finish_le (slashes : Nat) (current : Option Bytes) :
    total weigh each (finish slashes current) ≤ pending weigh each slashes current := by
  cases current <;> simp [finish, pending]
  omega

variable {weigh each}

/-- The arguments weigh no more than the text, not counting its quotes: a quote that becomes a
character takes the place of a backslash, and an argument that of a blank. -/
theorem total_scan_le (quoteLight : weigh quote ≤ weigh backslash)
    (blankHeavy : ∀ c, isBlank c = true → each ≤ weigh c) (text : Bytes) (quoted : Bool)
    (slashes : Nat) (current : Option Bytes) :
    total weigh each (scan text quoted slashes current) ≤
      pending weigh each slashes current + load weigh (text.filter (· ≠ quote)) := by
  induction text generalizing quoted slashes current with
  | nil => exact Nat.le_add_right_of_le (total_finish_le weigh each slashes current)
  | cons c rest ih =>
      rw [scan]
      dsimp only
      split_ifs with isBackslash isQuote isEven isSeparator
      · subst isBackslash
        have step := ih quoted (slashes + 1) (some (current.getD []))
        simp only [pending, Option.getD_some, Nat.add_mul] at step ⊢
        rw [List.filter_cons_of_pos (by decide), load_cons]
        omega
      · subst isQuote
        have step := ih (!quoted) 0
          (some (current.getD [] ++ List.replicate (slashes / 2) backslash))
        have half := Nat.mul_le_mul_right (weigh backslash) (Nat.div_le_self slashes 2)
        simp only [pending, Option.getD_some, load_append, load_replicate] at step ⊢
        rw [List.filter_cons_of_neg (by decide)]
        omega
      · subst isQuote
        have step := ih quoted 0
          (some (current.getD [] ++ List.replicate (slashes / 2) backslash ++ [quote]))
        have half : (slashes / 2 + 1) * weigh backslash ≤ slashes * weigh backslash :=
          Nat.mul_le_mul_right _ (by omega)
        simp only [pending, Option.getD_some, load_append, load_replicate, load_cons,
          load_nil, Nat.add_mul] at step half ⊢
        rw [List.filter_cons_of_neg (by decide)]
        omega
      · rw [Bool.and_eq_true] at isSeparator
        have step := ih false 0 none
        have done := total_finish_le weigh each slashes current
        have blank := blankHeavy c isSeparator.1
        rw [List.filter_cons_of_pos (by simpa using isQuote), load_cons]
        simp only [total, List.map_append, List.sum_append, pending, Option.getD_none] at *
        simp only [load_nil] at step
        omega
      · have step := ih quoted 0
          (some (current.getD [] ++ (List.replicate slashes backslash ++ [c])))
        rw [List.filter_cons_of_pos (by simpa using isQuote), load_cons]
        simp only [pending, Option.getD_some, load_append, load_replicate, load_cons,
          load_nil] at step ⊢
        omega

end Weight

theorem not_mem_of_load_eq_zero {c : UInt8} {text : Bytes}
    (zero : load (fun other => if other = c then 1 else 0) text = 0) : c ∉ text := by
  intro isMember
  rw [load, List.sum_eq_zero_iff_forall_eq_nat] at zero
  have counted := zero _ (List.mem_map_of_mem isMember)
  simp at counted

theorem load_eq_zero {c : UInt8} {text : Bytes} (absent : c ∉ text) :
    load (fun other => if other = c then 1 else 0) text = 0 := by
  rw [load, List.sum_eq_zero_iff_forall_eq_nat]
  intro counted isMember
  rcases List.mem_map.mp isMember with ⟨other, isOther, rfl⟩
  rw [if_neg]
  rintro rfl
  exact absent isOther

/-- What is not in the text, and no character with a meaning, is in no argument. -/
theorem not_mem_scan {c : UInt8} (notQuote : quote ≠ c) {text : Bytes} (absent : c ∉ text) :
    ∀ arg ∈ scan text false 0 none, c ∉ arg := by
  have bound := @total_scan_le (fun other => if other = c then 1 else 0) 0 (by simp [notQuote])
    (by simp) text false 0 none
  have filtered : c ∉ text.filter (· ≠ quote) :=
    fun isMember => absent (List.mem_of_mem_filter isMember)
  rw [load_eq_zero filtered] at bound
  simp only [pending, Option.getD_none, load_nil, Nat.zero_mul, Nat.add_zero, Nat.le_zero, total,
    List.sum_eq_zero_iff_forall_eq_nat, Nat.zero_add] at bound
  intro arg isArg
  exact not_mem_of_load_eq_zero (bound _ (List.mem_map_of_mem isArg))

theorem not_mem_commandLineToArgv {c : UInt8} (notQuote : quote ≠ c) {text : Bytes}
    (absent : c ∉ text) : ∀ arg ∈ commandLineToArgv text, c ∉ arg := by
  cases text with
  | nil => simp [commandLineToArgv]
  | cons first rest =>
      rw [commandLineToArgv]
      split
      · have inRest : c ∉ rest := fun isMember => absent (List.mem_cons_of_mem _ isMember)
        rw [List.forall_mem_cons]
        constructor
        · exact fun isMember => inRest (List.takeWhile_subset _ isMember)
        · apply not_mem_scan notQuote
          exact fun isMember => inRest (List.dropWhile_subset _ (List.mem_of_mem_drop isMember))
      · rw [List.forall_mem_cons]
        constructor
        · exact fun isMember => absent (List.takeWhile_subset _ isMember)
        · apply not_mem_scan notQuote
          exact fun isMember => absent (List.dropWhile_subset _ isMember)

/-! ## What arguments are read -/

section Read

variable {text rest current : Bytes} {quoted : Bool} {slashes : Nat}

/-- A blank in front of an argument. -/
theorem scan_blank {c : UInt8} (blank : isBlank c = true) (rest : Bytes) :
    scan (c :: rest) false 0 none = scan rest false 0 none := by
  have notBackslash : c ≠ backslash := by
    rintro rfl
    cases blank
  have notQuote : c ≠ quote := by
    rintro rfl
    cases blank
  rw [scan]
  simp [notBackslash, notQuote, blank, finish]

/-- A blank behind an argument, or the end of the text. -/
theorem scan_end (ends : rest = [] ∨ ∃ c more, rest = c :: more ∧ isBlank c = true) :
    scan rest false slashes (some current) =
      (current ++ List.replicate slashes backslash) :: scan rest false 0 none := by
  rcases ends with rfl | ⟨c, more, rfl, blank⟩
  · rfl
  · have notBackslash : c ≠ backslash := by
      rintro rfl
      cases blank
    have notQuote : c ≠ quote := by
      rintro rfl
      cases blank
    rw [scan_blank blank, scan]
    simp [notBackslash, notQuote, blank, finish]

/-- An argument begins. -/
theorem scan_begin {c : UInt8} (begins : (isBlank c && !quoted) = false) (rest : Bytes) :
    scan (c :: rest) quoted 0 none = scan (c :: rest) quoted 0 (some []) := by
  rw [scan, scan]
  simp [begins]

/-- Characters that are no quotes, and no blanks unless they are quoted. -/
theorem exists_scan_inside (noQuote : quote ∉ text)
    (inside : ∀ c ∈ text, (isBlank c && !quoted) = false) (rest : Bytes) :
    ∃ slashes' current', scan (text ++ rest) quoted slashes (some current) =
        scan rest quoted slashes' (some current') ∧
      current' ++ List.replicate slashes' backslash =
        current ++ (List.replicate slashes backslash ++ text) ∧
      (0 < slashes' ↔ (List.replicate slashes backslash ++ text).getLast? = some backslash) := by
  induction text generalizing slashes current with
  | nil =>
      refine ⟨slashes, current, rfl, by simp, ?_⟩
      cases slashes <;> simp [List.replicate_succ']
  | cons c text ih =>
      rw [List.mem_cons, not_or] at noQuote
      rw [List.forall_mem_cons] at inside
      by_cases isBackslash : c = backslash
      · subst isBackslash
        rcases @ih current (slashes + 1) noQuote.2 inside.2 with
          ⟨slashes', current', scanned, same, ending⟩
        have shifted : List.replicate (slashes + 1) backslash ++ text =
            List.replicate slashes backslash ++ backslash :: text := by
          simp [List.replicate_succ']
        rw [shifted] at same ending
        refine ⟨slashes', current', ?_, same, ending⟩
        rw [← scanned, List.cons_append, scan]
        simp
      · rcases @ih (current ++ (List.replicate slashes backslash ++ [c])) 0 noQuote.2 inside.2
          with ⟨slashes', current', scanned, same, ending⟩
        refine ⟨slashes', current', ?_, ?_, ?_⟩
        · rw [← scanned, List.cons_append, scan]
          simp [isBackslash, Ne.symm noQuote.1, inside.1]
        · rw [same]
          simp
        · rw [ending]
          cases more : text.getLast? with
          | none =>
              rw [List.getLast?_eq_none_iff.mp more]
              simp [isBackslash]
          | some last => simp [more, List.getLast?_cons]

/-- A word between blanks is an argument. -/
theorem scan_word (nonempty : text ≠ []) (noQuote : quote ∉ text)
    (noBlank : ∀ c ∈ text, isBlank c = false)
    (ends : rest = [] ∨ ∃ c more, rest = c :: more ∧ isBlank c = true) :
    scan (text ++ rest) false 0 none = text :: scan rest false 0 none := by
  have inside : ∀ c ∈ text, (isBlank c && !false) = false := by simpa using noBlank
  rcases @exists_scan_inside text [] false 0 noQuote inside rest with
    ⟨slashes, current, scanned, same, -⟩
  have begun : scan (text ++ rest) false 0 none = scan (text ++ rest) false 0 (some []) := by
    cases text with
    | nil => exact absurd rfl nonempty
    | cons c text => exact scan_begin (inside c List.mem_cons_self) (text ++ rest)
  rw [begun, scanned, scan_end ends, same]
  simp

/-- A quote in front of an argument, up to the next one. -/
theorem exists_scan_quoted (noQuote : quote ∉ text) (rest : Bytes) :
    ∃ slashes current, scan (quote :: (text ++ quote :: rest)) false 0 none =
        scan (quote :: rest) true slashes (some current) ∧
      current ++ List.replicate slashes backslash = text ∧
      (0 < slashes ↔ text.getLast? = some backslash) := by
  rcases @exists_scan_inside text [] true 0 noQuote (by simp) (quote :: rest) with
    ⟨slashes, current, scanned, same, ending⟩
  refine ⟨slashes, current, ?_, by simpa using same, by simpa using ending⟩
  rw [← scanned, scan]
  simp [quote, backslash]

/-- The next quote, without a backslash in front of it, ends the quoted part. -/
theorem scan_quote (rest current : Bytes) :
    scan (quote :: rest) true 0 (some current) = scan rest false 0 (some current) := by
  rw [scan]
  simp [quote, backslash]

/-- With backslashes in front of it, some of them are lost. -/
theorem total_scan_quote_lt (positive : 0 < slashes) :
    total (fun c => if c = backslash then 1 else 0) 0
        (scan (quote :: rest) quoted slashes (some current)) <
      load (fun c => if c = backslash then 1 else 0)
          (current ++ List.replicate slashes backslash) +
        load (fun c => if c = backslash then 1 else 0) (rest.filter (· ≠ quote)) := by
  have bound := @total_scan_le (fun c => if c = backslash then 1 else 0) 0 (by decide) (by simp)
    rest
  rw [scan]
  dsimp only
  rw [if_neg (by decide), if_pos rfl]
  split
  · have step := bound (!quoted) 0
      (some ((some current).getD [] ++ List.replicate (slashes / 2) backslash))
    simp only [pending, Option.getD_some, load_append, load_replicate, if_true] at step ⊢
    omega
  · have step := bound quoted 0
      (some ((some current).getD [] ++ List.replicate (slashes / 2) backslash ++ [quote]))
    have light : (if quote = backslash then 1 else 0) = 0 := by decide
    simp only [pending, Option.getD_some, load_append, load_replicate, load_cons, load_nil,
      if_true, light] at step ⊢
    omega

end Read

end Cllama.Library.WindowsArgv
