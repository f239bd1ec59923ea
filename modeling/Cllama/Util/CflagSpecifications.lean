import Mathlib.Data.List.DropRight
import Cllama.Util.CflagBinding

/-!
# Specifications of two names

A specification may give two names to an option.  An option has room for one name of any form
and one of a single character; what a declaration keeps of the two names depends on how they are
written.
-/

namespace Cllama.Util

open Cllama.Library Cllama.Library.Decimal

variable {V F : Type}

/-! ## Specifications -/

/-- A dash and one character, or two dashes and at least one character. -/
inductive IsName : Bytes → Prop where
  | short (c : UInt8) : IsName (CmdOption.short c)
  | long {name : Bytes} : 2 < name.length → name.take 2 = [0x2D, 0x2D] → IsName name

/-- A name with white space around it. -/
def Padded (text name : Bytes) : Prop :=
  ∃ front back : Bytes, text = front ++ name ++ back ∧
    (∀ octet ∈ front, isSpace octet = true) ∧ ∀ octet ∈ back, isSpace octet = true

/-- Two names with a comma between them. -/
structure Specifies (text a b : Bytes) : Prop where
  names : IsName a ∧ IsName b
  spec : ∃ left right, text = left ++ 0x2C :: right ∧ Padded left a ∧ Padded right b

/-- What a trimmed name keeps. -/
def stem (name : Bytes) : Bytes := name.rdropWhile isSpace

def shortOf : Bytes → Option UInt8
  | [0x2D, c] => some c
  | _ => none

/-! ## Trimming -/

theorem IsName.head {name : Bytes} (isName : IsName name) : ∃ rest, name = 0x2D :: rest := by
  cases isName with
  | short c => exact ⟨[c], rfl⟩
  | @long name long dashes =>
      cases name with
      | nil => cases long
      | cons first rest =>
          rw [List.take_succ_cons, List.cons.injEq] at dashes
          rw [dashes.1]
          exact ⟨rest, rfl⟩

theorem rdropWhile_append_space {text back : Bytes}
    (spaces : ∀ octet ∈ back, isSpace octet = true) :
    (text ++ back).rdropWhile isSpace = text.rdropWhile isSpace := by
  rw [List.rdropWhile, List.reverse_append, List.dropWhile_append_of_pos, ← List.rdropWhile]
  intro octet isMember
  exact spaces octet (List.mem_reverse.mp isMember)

theorem trim_dashed {front rest back : Bytes} (spaces : ∀ octet ∈ front, isSpace octet = true)
    (ending : ∀ octet ∈ back, isSpace octet = true) :
    trim (front ++ 0x2D :: rest ++ back) = stem (0x2D :: rest) := by
  have start : (0x2D :: (rest ++ back)).dropWhile isSpace = 0x2D :: (rest ++ back) := rfl
  rw [trim, ← List.rdropWhile, List.append_assoc, List.dropWhile_append_of_pos spaces,
    List.cons_append, start, ← List.cons_append, rdropWhile_append_space ending, stem]

theorem trim_padded {text name : Bytes} (isName : IsName name) (padded : Padded text name) :
    trim text = stem name := by
  rcases padded with ⟨front, back, rfl, spaces, ending⟩
  rcases isName.head with ⟨rest, rfl⟩
  exact trim_dashed spaces ending

theorem mem_dropWhile {text : Bytes} {octet : UInt8} (isMember : octet ∈ text)
    (notSpace : isSpace octet = false) : octet ∈ text.dropWhile isSpace := by
  induction text with
  | nil => cases isMember
  | cons first text ih =>
      rw [List.dropWhile_cons]
      split
      next isFirst =>
        rcases List.mem_cons.mp isMember with rfl | inText
        · rw [isFirst] at notSpace
          cases notSpace
        · exact ih inText
      · exact isMember

theorem mem_stem {name : Bytes} {octet : UInt8} (isMember : octet ∈ name)
    (notSpace : isSpace octet = false) : octet ∈ stem name :=
  List.mem_reverse.mpr (mem_dropWhile (List.mem_reverse.mpr isMember) notSpace)

theorem stem_start (name : Bytes) : stem name <+: name :=
  List.rdropWhile_prefix _ _

theorem stem_head {c : UInt8} {rest : Bytes} (notSpace : isSpace c = false) :
    (stem (c :: rest)).head? = some c := by
  have isPrefix := stem_start (c :: rest)
  have isMember := mem_stem (List.mem_cons_self (a := c) (l := rest)) notSpace
  cases kept : stem (c :: rest) with
  | nil =>
      rw [kept] at isMember
      cases isMember
  | cons first kept_rest =>
      rw [kept, List.cons_prefix_cons] at isPrefix
      rw [isPrefix.1]
      rfl

/-- Trimming keeps everything but white space. -/
theorem mem_trim {text : Bytes} {octet : UInt8} (isMember : octet ∈ text)
    (notSpace : isSpace octet = false) : octet ∈ trim text :=
  mem_stem (mem_dropWhile isMember notSpace) notSpace

/-! ## Declarations -/

theorem shortOf_eq_some {text : Bytes} {c : UInt8} :
    shortOf text = some c ↔ text = CmdOption.short c := by
  constructor
  · intro isShort
    unfold shortOf at isShort
    split at isShort
    · cases isShort
      rfl
    · cases isShort
  · rintro rfl
    rfl

theorem shortOf_eq_none {text : Bytes} (notShort : text.length ≠ 2) : shortOf text = none := by
  rw [Option.eq_none_iff_forall_ne_some]
  intro c isShort
  rw [shortOf_eq_some] at isShort
  exact notShort (by rw [isShort]; rfl)

theorem declaredNames_of_cut {left right : Bytes} (noComma : 0x2C ∉ left) :
    declaredNames (left ++ 0x2C :: right) =
      (if (trim left).head? = some 0x2D then trim left else trim right,
        (shortOf (trim left)).or (shortOf (trim right))) := by
  have cut : (left ++ 0x2C :: right).takeWhile (· ≠ 0x2C) = left :=
    takeWhile_ne_append noComma right
  have behind : (left ++ 0x2C :: right).dropWhile (· ≠ 0x2C) = 0x2C :: right := by
    rw [List.dropWhile_append_of_pos (forall_ne_of_not_mem noComma),
      List.dropWhile_cons_of_neg (by simp)]
  rw [declaredNames, if_pos (List.mem_append_right _ List.mem_cons_self), cut, behind]
  simp only [List.drop_succ_cons, List.drop_zero, Prod.mk.injEq, true_and]
  generalize trim left = first
  generalize trim right = second
  split
  next c => rfl
  next c notFirst =>
    cases isFirst : shortOf first with
    | none => rfl
    | some d => exact absurd (shortOf_eq_some.mp isFirst) (notFirst d)
  next notFirst notSecond =>
    cases isFirst : shortOf first with
    | some d => exact absurd (shortOf_eq_some.mp isFirst) (notFirst d)
    | none =>
        cases isSecond : shortOf second with
        | some d => exact absurd (shortOf_eq_some.mp isSecond) (notSecond d)
        | none => rfl

/-- A specification without a comma in its first name is cut between the names. -/
theorem Specifies.declared {text a b lname : Bytes} {sname : Option UInt8}
    (specifies : Specifies text a b) (noComma : 0x2C ∉ a)
    (declared : declaredNames text = (lname, sname)) :
    lname = stem a ∧ sname = (shortOf (stem a)).or (shortOf (stem b)) := by
  rcases specifies.spec with ⟨left, right, rfl, leftPadded, rightPadded⟩
  have left_noComma : 0x2C ∉ left := by
    rcases leftPadded with ⟨front, back, rfl, spaces, ending⟩
    simp only [List.mem_append, not_or]
    exact ⟨⟨fun inFront => absurd (spaces _ inFront) (by decide), noComma⟩,
      fun inBack => absurd (ending _ inBack) (by decide)⟩
  have dashed : (stem a).head? = some 0x2D := by
    rcases specifies.names.1.head with ⟨rest, rfl⟩
    exact stem_head rfl
  rw [declaredNames_of_cut left_noComma, trim_padded specifies.names.1 leftPadded,
    trim_padded specifies.names.2 rightPadded, if_pos dashed, Prod.mk.injEq] at declared
  exact ⟨declared.1.symm, declared.2.symm⟩

/-- A comma in the first name cuts that name. -/
theorem Specifies.declared_of_comma {text a b lname : Bytes} {sname : Option UInt8}
    (specifies : Specifies text a b) (comma : 0x2C ∈ a)
    (declared : declaredNames text = (lname, sname)) :
    ∃ kept lost second, a = kept ++ 0x2C :: lost ∧ 0x2C ∉ kept ∧ 0x2C ∈ second ∧
      (lost = [] → second.head? = some 0x2C) ∧ lname = stem kept ∧
      sname = (shortOf (stem kept)).or (shortOf second) := by
  rcases specifies.spec with ⟨left, right, rfl, ⟨front, back, rfl, spaces, ending⟩, -⟩
  rcases specifies.names.1.head with ⟨rest, dashed⟩
  have cut := cut_of_mem comma
  have kept_noComma : 0x2C ∉ a.takeWhile (· ≠ 0x2C) :=
    fun isMember => by simpa using List.mem_takeWhile_imp isMember
  have start : a.takeWhile (· ≠ 0x2C) = 0x2D :: rest.takeWhile (· ≠ 0x2C) := by
    rw [dashed]
    rfl
  generalize a.takeWhile (· ≠ 0x2C) = kept at cut kept_noComma start
  generalize a.drop (kept.length + 1) = lost at cut
  have front_noComma : 0x2C ∉ front ++ kept := by
    rw [List.mem_append, not_or]
    exact ⟨fun inFront => absurd (spaces _ inFront) (by decide), kept_noComma⟩
  have whole : front ++ a ++ back ++ 0x2C :: right =
      (front ++ kept) ++ 0x2C :: (lost ++ back ++ 0x2C :: right) := by
    simp [cut]
  have first : trim (front ++ kept) = stem kept := by
    rw [start, ← List.append_nil (front ++ _)]
    exact trim_dashed spaces (List.forall_mem_nil _)
  have first_dashed : (stem kept).head? = some 0x2D := by
    rw [start]
    exact stem_head rfl
  rw [whole, declaredNames_of_cut front_noComma, first, if_pos first_dashed,
    Prod.mk.injEq] at declared
  refine ⟨kept, lost, trim (lost ++ back ++ 0x2C :: right), cut, kept_noComma,
    mem_trim (by simp) rfl, ?_, declared.1.symm, declared.2.symm⟩
  rintro rfl
  rw [trim, List.nil_append, List.dropWhile_append_of_pos ending]
  exact stem_head rfl

/-! ## What a declared option answers to -/

/-- An option is found by a token. -/
def CmdOption.answers (opt : CmdOption V F) (token : Bytes) : Bool :=
  match shape token with
  | .long name _ => opt.match name
  | .short c => opt.sname = some c
  | .plain => false

theorem answers_short {opt : CmdOption V F} {c : UInt8} :
    opt.answers (CmdOption.short c) = true ↔ opt.sname = some c := by
  simp [CmdOption.answers, CmdOption.short, shape]

theorem shape_of_long {name : Bytes} (long : 2 < name.length)
    (dashes : name.take 2 = [0x2D, 0x2D]) :
    shape name = .long (name.takeWhile (· ≠ 0x3D))
      (if 0x3D ∈ name then some (name.drop ((name.takeWhile (· ≠ 0x3D)).length + 1))
      else none) := by
  unfold shape
  exact if_pos ⟨long, dashes⟩

theorem answers_long {opt : CmdOption V F} {name : Bytes} (long : 2 < name.length)
    (dashes : name.take 2 = [0x2D, 0x2D]) :
    opt.answers name = true ↔
      name.takeWhile (· ≠ 0x3D) = opt.lname ∨
        ∃ c, opt.sname = some c ∧ name.takeWhile (· ≠ 0x3D) = CmdOption.short c := by
  rw [CmdOption.answers, shape_of_long long dashes]
  dsimp only
  rw [CmdOption.match, Bool.or_eq_true, decide_eq_true_eq, Option.any_eq_true]
  simp only [decide_eq_true_eq]

theorem not_mem_takeWhile (name : Bytes) : 0x3D ∉ name.takeWhile (· ≠ 0x3D) :=
  fun isMember => by simpa using List.mem_takeWhile_imp isMember

/-- What is in front of an equals sign keeps the two dashes. -/
theorem takeWhile_of_dashes {name : Bytes} (dashes : name.take 2 = [0x2D, 0x2D]) :
    ∃ rest, name.takeWhile (· ≠ 0x3D) = 0x2D :: 0x2D :: rest := by
  rcases name with _ | ⟨first, _ | ⟨second, name⟩⟩
  · cases dashes
  · cases dashes
  · cases dashes
    exact ⟨name.takeWhile (· ≠ 0x3D), rfl⟩

theorem short_of_takeWhile {name : Bytes} (dashes : name.take 2 = [0x2D, 0x2D]) {c : UInt8}
    (isShort : name.takeWhile (· ≠ 0x3D) = CmdOption.short c) : c = 0x2D := by
  rcases takeWhile_of_dashes dashes with ⟨rest, start⟩
  rw [start] at isShort
  cases isShort
  rfl

theorem takeWhile_ne_of_equals {name : Bytes} (hasEquals : 0x3D ∈ name) (other : Bytes) :
    other.takeWhile (· ≠ 0x3D) ≠ stem name := by
  intro same
  have isMember := mem_stem hasEquals rfl
  rw [← same] at isMember
  exact not_mem_takeWhile _ isMember

/-- A name that is cut at a comma is not its own beginning up to an equals sign. -/
theorem takeWhile_ne_stem {kept lost : Bytes} (noComma : 0x2C ∉ kept) :
    (kept ++ 0x2C :: lost).takeWhile (· ≠ 0x3D) ≠ stem kept := by
  by_cases hasEquals : 0x3D ∈ kept
  · exact takeWhile_ne_of_equals hasEquals _
  · intro same
    rw [List.takeWhile_append_of_pos (forall_ne_of_not_mem hasEquals)] at same
    have isMember : (0x2C : UInt8) ∈ stem kept := by
      rw [← same]
      exact List.mem_append_right _ List.mem_cons_self
    exact noComma ((stem_start kept).mem isMember)

/-- A name with a comma in it is not found. -/
theorem not_answers_of_comma {text a b : Bytes} (specifies : Specifies text a b)
    (comma : 0x2C ∈ a) {opt : CmdOption V F}
    (declared : declaredNames text = (opt.lname, opt.sname)) : ¬opt.answers a = true := by
  rcases specifies.declared_of_comma comma declared with
    ⟨kept, lost, second, cut, noComma, hasComma, headComma, lname, sname⟩
  have isName := specifies.names.1
  intro answers
  cases isName with
  | short c =>
      have alone : kept = [0x2D] ∧ c = 0x2C ∧ lost = [] := by
        rcases kept with _ | ⟨first, _ | ⟨second, kept⟩⟩
        · cases cut
        · cases cut
          exact ⟨rfl, rfl, rfl⟩
        · cases kept <;> cases cut
      rcases alone with ⟨rfl, rfl, rfl⟩
      have noShort : shortOf (stem [0x2D]) = none := rfl
      rw [answers_short, sname, noShort, Option.none_or, shortOf_eq_some] at answers
      rw [answers] at headComma
      cases headComma rfl
  | long long dashes =>
      rw [answers_long long dashes, lname, cut] at answers
      rcases answers with same | ⟨c, isShort, same⟩
      · exact takeWhile_ne_stem noComma same
      · rw [sname, Option.or_eq_some_iff, shortOf_eq_some, shortOf_eq_some] at isShort
        rcases isShort with isFirst | ⟨-, isSecond⟩
        · exact takeWhile_ne_stem noComma (same.trans isFirst.symm)
        · rw [cut] at dashes
          rw [isSecond, short_of_takeWhile dashes same] at hasComma
          exact absurd hasComma (by decide)

/-! ## The names that are kept -/

/-- Nothing is attached to a long name. -/
def Detached (name : Bytes) : Prop := 0x3D ∈ name → name.length = 2

theorem Detached.noEquals {name : Bytes} (detached : Detached name) (long : 2 < name.length) :
    0x3D ∉ name := fun hasEquals => by
  have short := detached hasEquals
  omega

structure Plain (name : Bytes) : Prop where
  noComma : 0x2C ∉ name
  noSpace : trim name = name
  detached : Detached name

/-- The names that both lead to the option: a long and a short one, or one name twice.  A flag,
which ignores what is attached to it, has more: what follows an equals sign in the second name is
no part of it, and a short name of two dashes is all of a first one that starts with them and an
equals sign. -/
inductive Kept (isFlag : Bool) : Bytes → Bytes → Prop where
  | both {a b : Bytes} : Plain a → 2 < a.length → b.length = 2 → trim b = b → Kept isFlag a b
  | same {a : Bytes} : Plain a → Kept isFlag a a
  | attached {a text : Bytes} : isFlag = true → Plain a → Kept isFlag a (a ++ 0x3D :: text)
  | dashes {text : Bytes} :
      isFlag = true → 0x2C ∉ text → Kept isFlag (0x2D :: 0x2D :: 0x3D :: text) [0x2D, 0x2D]

theorem IsName.trim {name : Bytes} (isName : IsName name) : trim name = stem name :=
  trim_padded isName ⟨[], [], (List.append_nil name).symm, List.forall_mem_nil _,
    List.forall_mem_nil _⟩

theorem stem_short {c d : UInt8} (isStem : stem (CmdOption.short c) = CmdOption.short d) :
    c = d := by
  have isPrefix := stem_start (CmdOption.short c)
  rw [isStem] at isPrefix
  cases isPrefix.eq_of_length rfl
  rfl

/-- Nothing is trimmed from what has been trimmed. -/
theorem stem_of_stem {name : Bytes} {kept : Bytes} (isStem : stem name = kept) :
    stem kept = kept := by
  rw [← isStem]
  exact List.rdropWhile_idempotent _ _

theorem equals_of_takeWhile {name : Bytes} (long : 2 < name.length) {c : UInt8}
    (isShort : name.takeWhile (· ≠ 0x3D) = CmdOption.short c) : 0x3D ∈ name := by
  by_contra noEquals
  rw [takeWhile_ne_eq_self noEquals] at isShort
  rw [isShort] at long
  exact absurd long (Nat.lt_irrefl 2)

section Declared

variable {text a b : Bytes} {opt : CmdOption V F}

/-- Only a flag may have something attached to its name. -/
theorem isFlag_of_equals {name : Bytes} (long : 2 < name.length) (hasEquals : 0x3D ∈ name)
    (detached : opt.isFlag = false → Detached name) : opt.isFlag = true := by
  by_contra notFlag
  have short := detached (Bool.eq_false_iff.mpr notFlag) hasEquals
  omega

/-- A short first name is kept unless it is a space. -/
theorem kept_of_short {c : UInt8} (isName : IsName b) (noComma : 0x2C ∉ CmdOption.short c)
    (lname : opt.lname = stem (CmdOption.short c))
    (sname : opt.sname = (shortOf (stem (CmdOption.short c))).or (shortOf (stem b)))
    (first : opt.answers (CmdOption.short c) = true) (second : opt.answers b = true)
    (detached : opt.isFlag = false → Detached b) : Kept opt.isFlag (CmdOption.short c) b := by
  rw [answers_short] at first
  have whole : stem (CmdOption.short c) = CmdOption.short c := by
    rw [first, eq_comm, Option.or_eq_some_iff, shortOf_eq_some, shortOf_eq_some] at sname
    rcases sname with isFirst | ⟨-, isSecond⟩
    · exact isFirst
    · exact stem_of_stem isSecond
  have plain : Plain (CmdOption.short c) :=
    ⟨noComma, (IsName.short c).trim.trans whole, fun _ => rfl⟩
  cases isName with
  | short d =>
      rw [answers_short, first] at second
      cases second
      exact .same plain
  | @long b long dashes =>
      rw [answers_long long dashes, lname, whole, first] at second
      have isShort : b.takeWhile (· ≠ 0x3D) = CmdOption.short c := by
        rcases second with same | ⟨d, isShort, same⟩
        · exact same
        · cases isShort
          exact same
      have hasEquals := equals_of_takeWhile long isShort
      rw [cut_of_mem hasEquals, isShort]
      exact .attached (isFlag_of_equals long hasEquals detached) plain

/-- A long first name from which nothing is trimmed is kept as a whole. -/
theorem kept_of_whole (long : 2 < a.length) (isName : IsName b) (plain : Plain a)
    (lname : opt.lname = a) (sname : opt.sname = shortOf (stem b))
    (second : opt.answers b = true) (detached : opt.isFlag = false → Detached b) :
    Kept opt.isFlag a b := by
  cases isName with
  | short d =>
      rw [answers_short, sname, shortOf_eq_some] at second
      exact .both plain long rfl ((IsName.short d).trim.trans second)
  | @long b long_b dashes =>
      rw [answers_long long_b dashes, lname] at second
      rcases second with same | ⟨d, isSecond, isShort⟩
      · by_cases hasEquals : 0x3D ∈ b
        · rw [cut_of_mem hasEquals, same]
          exact .attached (isFlag_of_equals long_b hasEquals detached) plain
        · rw [takeWhile_ne_eq_self hasEquals] at same
          rw [same]
          exact .same plain
      · rw [sname, shortOf_eq_some] at isSecond
        have hasEquals := equals_of_takeWhile long_b isShort
        exact absurd (isShort.trans isSecond.symm) (takeWhile_ne_of_equals hasEquals _)

/-- A long first name that is found by its two dashes alone is so by a second name of them. -/
theorem kept_of_dashes (isName : IsName b) (noComma : 0x2C ∉ a) (hasEquals : 0x3D ∈ a)
    (isShort : a.takeWhile (· ≠ 0x3D) = CmdOption.short 0x2D) (lname : opt.lname = stem a)
    (hasShort : opt.sname = some 0x2D) (isSecond : stem b = CmdOption.short 0x2D)
    (second : opt.answers b = true) (isFlag : opt.isFlag = true) : Kept opt.isFlag a b := by
  cases isName with
  | short d =>
      rcases stem_short isSecond
      have cut := cut_of_mem hasEquals
      rw [isShort] at cut
      rw [cut] at noComma ⊢
      refine .dashes isFlag fun isMember => noComma ?_
      exact List.mem_cons_of_mem _ (List.mem_cons_of_mem _ (List.mem_cons_of_mem _ isMember))
  | @long b long dashes =>
      rw [answers_long long dashes, lname, hasShort] at second
      rcases second with same | ⟨d, isDash, isShort_b⟩
      · exact absurd same (takeWhile_ne_of_equals hasEquals _)
      · cases isDash
        have hasEquals_b := equals_of_takeWhile long isShort_b
        exact absurd (isShort_b.trans isSecond.symm) (takeWhile_ne_of_equals hasEquals_b _)

/-- A long first name is kept as a whole, or is found by its dashes. -/
theorem kept_of_long (long : 2 < a.length) (dashes : a.take 2 = [0x2D, 0x2D])
    (isName : IsName b) (noComma : 0x2C ∉ a) (lname : opt.lname = stem a)
    (sname : opt.sname = (shortOf (stem a)).or (shortOf (stem b)))
    (first : opt.answers a = true) (second : opt.answers b = true)
    (detached : opt.isFlag = false → Detached a ∧ Detached b) : Kept opt.isFlag a b := by
  rw [answers_long long dashes, lname] at first
  rcases first with isStem | ⟨c, hasShort, isShort⟩
  · have noEquals : 0x3D ∉ a := fun hasEquals => takeWhile_ne_of_equals hasEquals _ isStem
    rw [takeWhile_ne_eq_self noEquals] at isStem
    have plain : Plain a :=
      ⟨noComma, (IsName.long long dashes).trim.trans isStem.symm,
        fun hasEquals => absurd hasEquals noEquals⟩
    rw [← isStem, shortOf_eq_none (by omega), Option.none_or] at sname
    exact kept_of_whole long isName plain (lname.trans isStem.symm) sname second
      fun valued => (detached valued).2
  · have hasEquals := equals_of_takeWhile long isShort
    have isFlag := isFlag_of_equals long hasEquals fun valued => (detached valued).1
    have isDash := short_of_takeWhile dashes isShort
    subst isDash
    rw [hasShort, eq_comm, Option.or_eq_some_iff, shortOf_eq_some, shortOf_eq_some] at sname
    rcases sname with isFirst | ⟨-, isSecond⟩
    · exact absurd (isShort.trans isFirst.symm) (takeWhile_ne_of_equals hasEquals _)
    · exact kept_of_dashes isName noComma hasEquals isShort lname hasShort isSecond second isFlag

theorem Plain.stem {name : Bytes} (plain : Plain name) (isName : IsName name) :
    stem name = name :=
  isName.trim.symm.trans plain.noSpace

/-- A plain first name is found. -/
theorem Plain.answers (plain : Plain a) (isName : IsName a) (lname : opt.lname = Util.stem a)
    (sname : opt.sname = (shortOf (Util.stem a)).or (shortOf (Util.stem b))) :
    opt.answers a = true := by
  rw [plain.stem isName] at lname sname
  cases isName with
  | short c =>
      rw [answers_short, sname]
      rfl
  | long long dashes =>
      rw [answers_long long dashes, takeWhile_ne_eq_self (plain.detached.noEquals long)]
      exact Or.inl lname.symm

/-- A name that something is attached to starts with two dashes. -/
theorem Plain.dashed {attached : Bytes} (plain : Plain a) (isName : IsName a)
    (isSecond : IsName (a ++ 0x3D :: attached)) : Dashed a := by
  have two : 2 ≤ a.length := by
    cases isName with
    | short c => exact le_rfl
    | long long => exact long.le
  have dashes : a.take 2 = [0x2D, 0x2D] := by
    have start : (a ++ 0x3D :: attached).take 2 = a.take 2 := List.take_append_of_le_length two
    rw [← start]
    generalize whole : a ++ 0x3D :: attached = b at isSecond
    cases isSecond with
    | short c =>
        have lengths := congrArg List.length whole
        simp [CmdOption.short] at lengths
        omega
    | long _ dashes => exact dashes
  refine ⟨dashes, ?_⟩
  cases isName with
  | short c =>
      cases dashes
      decide
  | long long => exact plain.detached.noEquals long

/-- A name of dashes and an equals sign is not trimmed to a short one. -/
theorem shortOf_stem_dashes (attached : Bytes) :
    shortOf (stem (0x2D :: 0x2D :: 0x3D :: attached)) = none := by
  rw [Option.eq_none_iff_forall_ne_some]
  intro c isShort
  rw [shortOf_eq_some] at isShort
  have isPrefix := stem_start (0x2D :: 0x2D :: 0x3D :: attached)
  have hasEquals : 0x3D ∈ stem (0x2D :: 0x2D :: 0x3D :: attached) := mem_stem (by simp) rfl
  rw [isShort] at isPrefix hasEquals
  simp only [CmdOption.short, List.cons_prefix_cons] at isPrefix
  rw [isPrefix.2.1] at hasEquals
  exact absurd hasEquals (by decide)

end Declared

/-- The first of two names that are kept has no comma. -/
theorem Kept.noComma {isFlag : Bool} {a b : Bytes} (kept : Kept isFlag a b) : 0x2C ∉ a := by
  cases kept with
  | both plain => exact plain.noComma
  | same plain => exact plain.noComma
  | attached _ plain => exact plain.noComma
  | dashes _ noComma => simp [noComma]

/-- Both of two names that are kept are found. -/
theorem Kept.answers {isFlag : Bool} {a b : Bytes} (kept : Kept isFlag a b)
    (names : IsName a ∧ IsName b) {opt : CmdOption V F} (lname : opt.lname = stem a)
    (sname : opt.sname = (shortOf (stem a)).or (shortOf (stem b))) :
    opt.answers a = true ∧ opt.answers b = true := by
  cases kept with
  | both plain long two noSpace =>
      refine ⟨plain.answers names.1 lname sname, ?_⟩
      cases names.2 with
      | short d =>
          rw [plain.stem names.1, shortOf_eq_none (by omega), Option.none_or, ← names.2.trim,
            noSpace] at sname
          rw [answers_short, sname]
          rfl
      | long long_b => omega
  | same plain => exact ⟨plain.answers names.1 lname sname, plain.answers names.1 lname sname⟩
  | attached _ plain =>
      refine ⟨plain.answers names.1 lname sname, ?_⟩
      rw [CmdOption.answers, shape_of_attached (plain.dashed names.1 names.2)]
      rw [plain.stem names.1] at lname
      simp [CmdOption.match, lname]
  | @dashes attached =>
      rw [shortOf_stem_dashes, Option.none_or] at sname
      have hasShort : opt.sname = some 0x2D := sname
      refine ⟨?_, answers_short.mpr hasShort⟩
      rw [answers_long (by simp) rfl]
      exact Or.inr ⟨0x2D, hasShort, rfl⟩

theorem Kept.detached {a b : Bytes} (kept : Kept false a b) : Detached a ∧ Detached b := by
  cases kept with
  | both plain _ two => exact ⟨plain.detached, fun _ => two⟩
  | same plain => exact ⟨plain.detached, plain.detached⟩
  | attached isFlag => cases isFlag
  | dashes isFlag => cases isFlag

/-- Both names lead to the option exactly if they are kept. -/
theorem kept_iff {text a b : Bytes} (specifies : Specifies text a b) {opt : CmdOption V F}
    (declared : declaredNames text = (opt.lname, opt.sname)) :
    (opt.answers a = true ∧ opt.answers b = true ∧
      (opt.isFlag = false → Detached a ∧ Detached b)) ↔ Kept opt.isFlag a b := by
  have names := specifies.names
  constructor
  · rintro ⟨first, second, detached⟩
    have noComma : 0x2C ∉ a := fun comma => not_answers_of_comma specifies comma declared first
    rcases specifies.declared noComma declared with ⟨lname, sname⟩
    cases names.1 with
    | short c =>
        exact kept_of_short names.2 noComma lname sname first second
          fun valued => (detached valued).2
    | long long dashes =>
        exact kept_of_long long dashes names.2 noComma lname sname first second detached
  · intro kept
    rcases specifies.declared kept.noComma declared with ⟨lname, sname⟩
    have answers := kept.answers names lname sname
    refine ⟨answers.1, answers.2, fun valued => ?_⟩
    rw [valued] at kept
    exact kept.detached

end Cllama.Util
