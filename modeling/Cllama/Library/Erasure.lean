import Mathlib.Algebra.Order.Group.Nat
import Mathlib.Data.List.Infix
import Mathlib.Logic.Relation

/-!
# Erasing bracketed tokens

A token is an opening character, plain characters and a closing character.  Two occurrences
of tokens in a text do not overlap, so erasures commute, although an erasure can join the text
on both sides into another token.  The last part characterises the texts from which tokens
erased kind by kind, one kind after the other, are all gone in the end.
-/

namespace Cllama.Library

universe u

/-- The characters that open and those that close a token. -/
structure Brackets (α : Type u) where
  isOpen : α → Bool
  isClose : α → Bool
  apart : ∀ c, isOpen c = true → isClose c = false

namespace Brackets

variable {α : Type u} (brackets : Brackets α)

/-- Text without brackets. -/
def Plain (text : List α) : Prop :=
  ∀ c ∈ text, brackets.isOpen c = false ∧ brackets.isClose c = false

instance (text : List α) : Decidable (brackets.Plain text) :=
  inferInstanceAs (Decidable (∀ c ∈ text, _))

/-- A token has brackets at its ends and none between them. -/
structure Token where
  first : α
  inner : List α
  last : α
  opens : brackets.isOpen first = true
  closes : brackets.isClose last = true
  plain : brackets.Plain inner

variable {brackets}

namespace Token

variable (token : brackets.Token)

def text : List α :=
  token.first :: (token.inner ++ [token.last])

theorem text_ne_nil : token.text ≠ [] :=
  List.cons_ne_nil _ _

theorem eq_of_text {token other : brackets.Token} (same : token.text = other.text) :
    token = other := by
  cases token
  cases other
  simp only [text, List.cons.injEq, List.append_singleton_inj] at same
  simp [same]

/-- Behind its first character a token has no opening character. -/
theorem isOpen_of_mem_tail {c : α} (isMember : c ∈ token.inner ++ [token.last]) :
    brackets.isOpen c = false := by
  rw [List.mem_append, List.mem_singleton] at isMember
  cases isMember with
  | inl isInner => exact (token.plain c isInner).1
  | inr isLast =>
      subst isLast
      by_contra opens
      have closed := brackets.apart _ (by simpa using opens)
      simp [token.closes] at closed

/-- Before its last character a token has no closing character. -/
theorem isClose_of_mem_front {c : α} (isMember : c ∈ token.first :: token.inner) :
    brackets.isClose c = false := by
  rw [List.mem_cons] at isMember
  cases isMember with
  | inl isFirst =>
      subst isFirst
      exact brackets.apart _ token.opens
  | inr isInner => exact (token.plain c isInner).2

/-- What stands before an opening character of a token is nothing. -/
theorem nil_of_open {before after : List α} {c : α} (opens : brackets.isOpen c = true)
    (cut : token.text = before ++ c :: after) : before = [] := by
  cases before with
  | nil => rfl
  | cons first before =>
      have isTail : c ∈ token.inner ++ [token.last] := by
        rw [(List.cons.inj cut).2]
        simp
      simp [token.isOpen_of_mem_tail isTail] at opens

/-- What stands behind a closing character of a token is nothing. -/
theorem nil_of_close {before after : List α} {c : α} (closes : brackets.isClose c = true)
    (cut : token.text = before ++ c :: after) : after = [] := by
  cases after using List.reverseRecOn with
  | nil => rfl
  | append_singleton after last =>
      have same : (token.first :: token.inner) ++ [token.last] =
          (before ++ c :: after) ++ [last] := by simpa [text] using cut
      have isFront : c ∈ token.first :: token.inner := by
        rw [(List.append_inj' same rfl).1]
        simp
      simp [token.isClose_of_mem_front isFront] at closes

end Token

/-! ## Balanced text -/

variable (brackets) in
/-- Every closing character has an opening one of its own before it, and the other way
round. -/
structure Balanced (text : List α) : Prop where
  before : ∀ start, start <+: text →
    start.countP brackets.isClose ≤ start.countP brackets.isOpen
  total : text.countP brackets.isOpen = text.countP brackets.isClose

theorem Plain.balanced {text : List α} (plain : brackets.Plain text) : brackets.Balanced text := by
  have none : ∀ start, start <+: text →
      start.countP brackets.isClose = 0 ∧ start.countP brackets.isOpen = 0 := by
    intro start isStart
    simp only [List.countP_eq_zero, Bool.not_eq_true]
    exact ⟨fun c isMember => (plain c (isStart.subset isMember)).2,
      fun c isMember => (plain c (isStart.subset isMember)).1⟩
  constructor
  · intro start isStart
    simp [none start isStart]
  · simp [none text (List.prefix_refl text)]

theorem Token.countP_tail (token : brackets.Token) :
    (token.inner ++ [token.last]).countP brackets.isOpen = 0 ∧
      (token.inner ++ [token.last]).countP brackets.isClose = 1 := by
  constructor
  · simp only [List.countP_eq_zero, Bool.not_eq_true]
    exact fun c isMember => token.isOpen_of_mem_tail isMember
  · have inner : token.inner.countP brackets.isClose = 0 := by
      simp only [List.countP_eq_zero, Bool.not_eq_true]
      exact fun c isMember => (token.plain c isMember).2
    simp [inner, token.closes]

theorem Token.countP_front (token : brackets.Token) :
    (token.first :: token.inner).countP brackets.isOpen = 1 ∧
      (token.first :: token.inner).countP brackets.isClose = 0 := by
  constructor
  · have inner : token.inner.countP brackets.isOpen = 0 := by
      simp only [List.countP_eq_zero, Bool.not_eq_true]
      exact fun c isMember => (token.plain c isMember).1
    simp [inner, token.opens]
  · simp only [List.countP_eq_zero, Bool.not_eq_true]
    exact fun c isMember => token.isClose_of_mem_front isMember

/-- Balanced text does not go on behind the end of a token that starts before it. -/
theorem Balanced.not_tail {text rest : List α} (balanced : brackets.Balanced text)
    (token : brackets.Token) : text ≠ token.inner ++ [token.last] ++ rest := by
  intro same
  have counts := balanced.before (token.inner ++ [token.last])
    (by rw [same]; exact List.prefix_append _ _)
  have tail := token.countP_tail
  omega

/-- Balanced text has no token before it that starts in it. -/
theorem Balanced.not_front {text before : List α} (balanced : brackets.Balanced text)
    (token : brackets.Token) : text ≠ before ++ (token.first :: token.inner) := by
  rintro rfl
  have counts := balanced.before before (List.prefix_append _ _)
  have total := balanced.total
  have front := token.countP_front
  simp only [List.countP_append] at total
  omega

/-- A part of a text between the two brackets of a token. -/
def Token.around (outer : brackets.Token) (front middle back : List α) : List α :=
  front ++ outer.first :: (middle ++ outer.last :: back)

/-- A token between the brackets of another: what is between them is its own inner part. -/
theorem Token.eq_inner {token outer : brackets.Token} {middle : List α}
    (same : token.text = outer.around [] middle []) :
    middle = token.inner ∧ (token.inner = outer.inner → token = outer) := by
  have parts : token.first = outer.first ∧ token.inner = middle ∧ token.last = outer.last := by
    simpa [text, around] using same
  constructor
  · exact parts.2.1.symm
  · intro isInner
    apply eq_of_text
    simp [text, parts.1, isInner, parts.2.2]

theorem Token.text_eq_around (token : brackets.Token) (before after : List α) :
    before ++ (token.text ++ after) = token.around before token.inner after := by
  simp [text, around]

/-- Where a token occurs in a text with a balanced part between two brackets: it is those
brackets with what is between them, or it is in one of the three parts. -/
inductive Occurs (token outer : brackets.Token) (front middle back before after : List α) :
    Prop where
  | whole : before = front → token.text = outer.around [] middle [] → after = back →
      Occurs token outer front middle back before after
  | front (gap : List α) : front = before ++ (token.text ++ gap) →
      after = outer.around gap middle back → Occurs token outer front middle back before after
  | middle (left right : List α) : middle = left ++ (token.text ++ right) →
      before = front ++ outer.first :: left → after = right ++ outer.last :: back →
      Occurs token outer front middle back before after
  | back (gap : List α) : back = gap ++ (token.text ++ after) →
      before = outer.around front middle gap → Occurs token outer front middle back before after

section Occurs

variable {token outer : brackets.Token} {front middle back before after : List α}

/-- A token that starts at the opening bracket ends at the closing one. -/
theorem eq_outer_of_first (balanced : brackets.Balanced middle)
    (same : token.text ++ after = outer.first :: (middle ++ outer.last :: back)) :
    token.text = outer.around [] middle [] ∧ after = back := by
  rw [Token.text, List.cons_append, List.cons.injEq] at same
  rcases List.append_eq_append_iff.mp same.2 with ⟨rest, isMiddle, -⟩ | ⟨rest, isTail, isBack⟩
  · exact absurd isMiddle (balanced.not_tail token)
  · cases rest with
    | nil =>
        rw [List.append_nil] at isTail
        exact absurd (by simp [isTail]) (@balanced.not_tail _ _ _ [] token)
    | cons c rest =>
        rw [List.cons_append, List.cons.injEq] at isBack
        rcases isBack with ⟨rfl, rfl⟩
        have cut : token.text = (outer.first :: middle) ++ outer.last :: rest := by
          simp [Token.text, same.1, isTail]
        cases token.nil_of_close outer.closes cut
        exact ⟨cut, rfl⟩

/-- A token that starts before the opening bracket or at it. -/
theorem occurs_before (balanced : brackets.Balanced middle) {gap : List α}
    (isFront : front = before ++ gap)
    (isToken : token.text ++ after = gap ++ outer.first :: (middle ++ outer.last :: back)) :
    Occurs token outer front middle back before after := by
  rcases List.append_eq_append_iff.mp isToken with ⟨gap', rfl, isAfter⟩ | ⟨cut, isText, isRest⟩
  · exact .front gap' isFront isAfter
  · cases cut with
    | nil =>
        rw [List.append_nil] at isText
        subst isText
        exact .front [] (by simpa using isFront) isRest.symm
    | cons c cut =>
        rw [List.cons_append, List.cons.injEq] at isRest
        rcases isRest with ⟨rfl, isRest⟩
        cases token.nil_of_open outer.opens isText
        rw [List.nil_append] at isToken
        rw [List.append_nil] at isFront
        rcases eq_outer_of_first balanced isToken with ⟨isWhole, isBack⟩
        exact .whole isFront.symm isWhole isBack

/-- A token that starts in the balanced part. -/
theorem occurs_inside (balanced : brackets.Balanced middle) {gap rest : List α}
    (isBefore : before = front ++ outer.first :: gap) (isMiddle : middle = gap ++ rest)
    (isToken : token.text ++ after = rest ++ outer.last :: back) :
    Occurs token outer front middle back before after := by
  rcases List.append_eq_append_iff.mp isToken with
    ⟨right, isRight, isAfter⟩ | ⟨cut, isText, isLast⟩
  · exact .middle gap right (by rw [isMiddle, isRight]) isBefore isAfter
  · cases cut with
    | nil =>
        rw [List.append_nil] at isText
        rw [← isText, ← List.append_nil token.text] at isMiddle
        exact .middle gap [] isMiddle isBefore isLast.symm
    | cons c cut =>
        rw [List.cons_append, List.cons.injEq] at isLast
        rcases isLast with ⟨rfl, -⟩
        cases token.nil_of_close outer.closes isText
        have ends : (token.first :: token.inner) ++ [token.last] = rest ++ [outer.last] := isText
        rw [← (List.append_inj' ends rfl).1] at isMiddle
        exact absurd isMiddle (balanced.not_front token)

/-- A token that starts at the closing bracket, which cannot be, or behind it. -/
theorem occurs_behind {gap rest : List α} (isBefore : before = front ++ outer.first :: gap)
    (isGap : gap = middle ++ rest) (isBack : outer.last :: back = rest ++ (token.text ++ after)) :
    Occurs token outer front middle back before after := by
  cases rest with
  | nil =>
      rw [List.nil_append, Token.text, List.cons_append, List.cons.injEq] at isBack
      have closed := brackets.apart _ token.opens
      rw [← isBack.1, outer.closes] at closed
      cases closed
  | cons c rest =>
      rw [List.cons_append, List.cons.injEq] at isBack
      rcases isBack with ⟨rfl, isBack⟩
      exact .back rest isBack (by rw [isBefore, isGap, Token.around])

theorem occurs (balanced : brackets.Balanced middle)
    (same : before ++ (token.text ++ after) = outer.around front middle back) :
    Occurs token outer front middle back before after := by
  rcases List.append_eq_append_iff.mp same with ⟨gap, isFront, isToken⟩ | ⟨gap, isBefore, isRest⟩
  · exact occurs_before balanced isFront isToken
  · cases gap with
    | nil =>
        rw [List.nil_append] at isRest
        rw [List.append_nil] at isBefore
        rcases eq_outer_of_first balanced isRest.symm with ⟨isWhole, isBack⟩
        exact .whole isBefore isWhole isBack
    | cons c gap =>
        rw [List.cons_append, List.cons.injEq] at isRest
        rcases isRest with ⟨rfl, isRest⟩
        rcases List.append_eq_append_iff.mp isRest with
          ⟨rest, isGap, isBack⟩ | ⟨rest, isMiddle, isToken⟩
        · exact occurs_behind isBefore isGap isBack
        · exact occurs_inside balanced isBefore isMiddle isToken

end Occurs

/-! ## Erasures -/

/-- One occurrence of one of the tokens is taken out. -/
inductive Erases (tokens : List brackets.Token) : List α → List α → Prop where
  | intro {token : brackets.Token} (before after : List α) (isMember : token ∈ tokens) :
      Erases tokens (before ++ (token.text ++ after)) (before ++ after)

/-- Occurrences of the tokens are taken out one after another. -/
abbrev ErasesTo (tokens : List brackets.Token) : List α → List α → Prop :=
  Relation.ReflTransGen (Erases tokens)

section Erases

variable {tokens more : List brackets.Token} {token : brackets.Token} {text next : List α}

theorem Erases.mono (within : tokens ⊆ more) (erases : Erases tokens text next) :
    Erases more text next := by
  cases erases with
  | intro before after isMember => exact .intro before after (within isMember)

theorem ErasesTo.mono (within : tokens ⊆ more) (erases : ErasesTo tokens text next) :
    ErasesTo more text next := by
  apply Relation.ReflTransGen.mono _ _ _ erases
  exact fun _ _ => Erases.mono within

theorem Erases.append (front back : List α) (erases : Erases tokens text next) :
    Erases tokens (front ++ (text ++ back)) (front ++ (next ++ back)) := by
  cases erases with
  | intro before after isMember =>
      simpa using Erases.intro (front ++ before) (after ++ back) isMember

theorem Erases.exists_token (erases : Erases tokens text next) :
    ∃ token ∈ tokens, token.text <:+: text := by
  cases erases with
  | @intro token before after isMember => exact ⟨token, isMember, before, after, by simp⟩

/-- Text without brackets has no token in it. -/
theorem Plain.not_infix (plain : brackets.Plain text) : ¬token.text <:+: text := by
  intro isInfix
  have isPlain := plain token.first (isInfix.subset List.mem_cons_self)
  simp [token.opens] at isPlain

theorem Plain.eq_of_erasesTo (plain : brackets.Plain text) (erases : ErasesTo tokens text next) :
    text = next := by
  cases Relation.ReflTransGen.cases_head erases with
  | inl same => exact same
  | inr further =>
      rcases further with ⟨middle, first, -⟩
      rcases first.exists_token with ⟨token, -, isInfix⟩
      exact absurd isInfix plain.not_infix

theorem prefix_append_cases {start left right : List α} (isStart : start <+: left ++ right) :
    start <+: left ∨ ∃ more, start = left ++ more ∧ more <+: right := by
  cases List.prefix_or_prefix_of_prefix isStart (List.prefix_append left right) with
  | inl isLeft => exact Or.inl isLeft
  | inr isMore =>
      rcases isMore with ⟨more, rfl⟩
      exact Or.inr ⟨more, rfl, (List.prefix_append_right_inj left).mp isStart⟩

theorem Token.balanced (token : brackets.Token) : brackets.Balanced token.text := by
  have opens := token.opens
  have closed := brackets.apart _ opens
  have tail := token.countP_tail
  constructor
  · intro start isStart
    cases start with
    | nil => simp
    | cons first start =>
        rcases List.cons_prefix_cons.mp isStart with ⟨rfl, isTail⟩
        have fewer := isTail.sublist.countP_le (p := brackets.isClose)
        simp only [List.countP_cons, opens, closed, if_true]
        simp only [Bool.false_eq_true, if_false]
        omega
  · simp only [text, List.countP_cons, opens, closed, if_true, tail]
    simp

/-- Putting a token into balanced text leaves it balanced. -/
theorem Balanced.of_erases (balanced : brackets.Balanced next) (erases : Erases tokens text next) :
    brackets.Balanced text := by
  cases erases with
  | @intro token before after isMember =>
      have token_total := token.balanced.total
      constructor
      · intro start isStart
        rcases prefix_append_cases isStart with isBefore | ⟨more, rfl, isMore⟩
        · exact balanced.before start (isBefore.trans (List.prefix_append _ _))
        · rcases prefix_append_cases isMore with isToken | ⟨more, rfl, isAfter⟩
          · have first := balanced.before before (List.prefix_append _ _)
            have second := token.balanced.before more isToken
            simp only [List.countP_append]
            omega
          · have both := balanced.before (before ++ more)
              ((List.prefix_append_right_inj before).mpr isAfter)
            simp only [List.countP_append] at both ⊢
            omega
      · have total := balanced.total
        simp only [List.countP_append] at total ⊢
        omega

theorem Balanced.of_erasesTo (balanced : brackets.Balanced next)
    (erases : ErasesTo tokens text next) : brackets.Balanced text := by
  induction erases using Relation.ReflTransGen.head_induction_on with
  | refl => exact balanced
  | head first _ ih => exact ih.of_erases first

/-- What an erasure does to a text with a balanced part between two brackets. -/
inductive Around (tokens : List brackets.Token) (outer : brackets.Token)
    (front middle back next : List α) : Prop where
  | whole {token : brackets.Token} : token ∈ tokens → token.text = outer.around [] middle [] →
      next = front ++ back → Around tokens outer front middle back next
  | front {front' : List α} : Erases tokens front front' → next = outer.around front' middle back →
      Around tokens outer front middle back next
  | middle {middle' : List α} : Erases tokens middle middle' →
      next = outer.around front middle' back → Around tokens outer front middle back next
  | back {back' : List α} : Erases tokens back back' → next = outer.around front middle back' →
      Around tokens outer front middle back next

variable {outer : brackets.Token} {front middle back : List α}

theorem Erases.around (balanced : brackets.Balanced middle)
    (erases : Erases tokens (outer.around front middle back) next) :
    Around tokens outer front middle back next := by
  generalize same : outer.around front middle back = text at erases
  cases erases with
  | @intro token before after isMember =>
      cases occurs balanced same.symm with
      | whole isBefore isWhole isAfter =>
          exact .whole isMember isWhole (by rw [isBefore, isAfter])
      | front gap isFront isAfter =>
          subst isFront isAfter
          exact .front (.intro before gap isMember) (by simp [Token.around])
      | middle left right isMiddle isBefore isAfter =>
          subst isMiddle isBefore isAfter
          exact .middle (.intro left right isMember) (by simp [Token.around])
      | back gap isBack isBefore =>
          subst isBack isBefore
          exact .back (.intro gap after isMember) (by simp [Token.around])

/-- Erasures commute. -/
theorem Erases.diamond {other : List α} (left : Erases tokens text next)
    (right : Erases tokens text other) :
    next = other ∨ ∃ joined, Erases tokens next joined ∧ Erases tokens other joined := by
  cases left with
  | @intro token before after isMember =>
      rw [token.text_eq_around] at right
      cases right.around token.plain.balanced with
      | whole _ _ isOther => exact Or.inl isOther.symm
      | @front front' erases isOther =>
          right
          rw [isOther, ← token.text_eq_around]
          exact ⟨front' ++ after, by simpa using erases.append [] after, .intro _ _ isMember⟩
      | middle erases _ =>
          rcases erases.exists_token with ⟨inside, -, isInfix⟩
          exact absurd isInfix token.plain.not_infix
      | @back back' erases isOther =>
          right
          rw [isOther, ← token.text_eq_around]
          exact ⟨before ++ back', by simpa using erases.append before [], .intro _ _ isMember⟩

/-- Text without brackets is reached whatever is erased first. -/
theorem ErasesTo.of_plain {goal : List α} (plain : brackets.Plain goal)
    (erases : ErasesTo tokens text goal) (first : ErasesTo tokens text next) :
    ErasesTo tokens next goal := by
  have diamond : ∀ text left right, Erases tokens text left → Erases tokens text right →
      ∃ joined, Relation.ReflGen (Erases tokens) left joined ∧ ErasesTo tokens right joined := by
    intro text left right toLeft toRight
    rcases toLeft.diamond toRight with rfl | ⟨joined, fromLeft, fromRight⟩
    · exact ⟨left, .refl, .refl⟩
    · exact ⟨joined, .single fromLeft, .single fromRight⟩
  rcases Relation.church_rosser diamond erases first with ⟨joined, fromGoal, fromNext⟩
  rw [plain.eq_of_erasesTo fromGoal]
  exact fromNext

/-- A token stays when other tokens are erased. -/
theorem Erases.infix (notMember : token ∉ tokens) (isInfix : token.text <:+: text)
    (erases : Erases tokens text next) : token.text <:+: next := by
  rcases isInfix with ⟨before, after, rfl⟩
  rw [List.append_assoc, token.text_eq_around] at erases
  cases erases.around token.plain.balanced with
  | @whole other isMember isWhole _ =>
      rcases Token.eq_inner isWhole with ⟨isInner, same⟩
      rw [same isInner.symm] at isMember
      exact absurd isMember notMember
  | @front front' _ isNext =>
      rw [isNext, ← token.text_eq_around]
      exact ⟨front', after, List.append_assoc _ _ _⟩
  | middle erases _ =>
      rcases erases.exists_token with ⟨inside, -, isInfix⟩
      exact absurd isInfix token.plain.not_infix
  | @back back' _ isNext =>
      rw [isNext, ← token.text_eq_around]
      exact ⟨before, back', List.append_assoc _ _ _⟩

theorem ErasesTo.infix (notMember : token ∉ tokens) (isInfix : token.text <:+: text)
    (erases : ErasesTo tokens text next) : token.text <:+: next := by
  induction erases with
  | refl => exact isInfix
  | tail _ last ih => exact last.infix notMember ih

/-- Two brackets were there before an erasure, with the same or more between them. -/
theorem Erases.exists_around (erases : Erases tokens text (outer.around front middle back)) :
    ∃ front' middle' back', text = outer.around front' middle' back' ∧
      ErasesTo tokens middle' middle := by
  generalize same : outer.around front middle back = next at erases
  cases erases with
  | @intro token before after isMember =>
      rcases List.append_eq_append_iff.mp same with
        ⟨gap, isBefore, isRest⟩ | ⟨gap, isFront, isAfter⟩
      · cases gap with
        | nil =>
            rw [List.append_nil] at isBefore
            refine ⟨front ++ token.text, middle, back, ?_, .refl⟩
            simp only [List.nil_append] at isRest
            simp [Token.around, isBefore, isRest]
        | cons c gap =>
            rw [List.cons_append, List.cons.injEq] at isRest
            rcases isRest with ⟨rfl, isRest⟩
            rcases List.append_eq_append_iff.mp isRest with
              ⟨rest, isGap, isBack⟩ | ⟨rest, isMiddle, isAfter⟩
            · cases rest with
              | nil =>
                  rw [List.append_nil] at isGap
                  rw [List.nil_append] at isBack
                  refine ⟨front, middle ++ token.text, back, ?_, ?_⟩
                  · simp [Token.around, isBefore, isGap, ← isBack]
                  · apply Relation.ReflTransGen.single
                    simpa using Erases.intro middle [] isMember
              | cons c rest =>
                  rw [List.cons_append, List.cons.injEq] at isBack
                  rcases isBack with ⟨rfl, isBack⟩
                  refine ⟨front, middle, rest ++ (token.text ++ after), ?_, .refl⟩
                  simp [Token.around, isBefore, isGap]
            · refine ⟨front, gap ++ (token.text ++ rest), back, ?_, ?_⟩
              · simp [Token.around, isBefore, isAfter]
              · rw [isMiddle]
                exact .single (.intro gap rest isMember)
      · refine ⟨before ++ (token.text ++ gap), middle, back, ?_, .refl⟩
        simp [Token.around, isAfter]

theorem ErasesTo.exists_around (erases : ErasesTo tokens text (outer.around front middle back)) :
    ∃ front' middle' back', text = outer.around front' middle' back' ∧
      ErasesTo tokens middle' middle := by
  generalize same : outer.around front middle back = next at erases
  induction erases generalizing front middle back with
  | refl => exact ⟨front, middle, back, same.symm, .refl⟩
  | tail _ last ih =>
      subst same
      rcases last.exists_around with ⟨front', middle', back', isText, shrinks⟩
      rcases ih isText.symm with ⟨front'', middle'', back'', isFirst, further⟩
      exact ⟨front'', middle'', back'', isFirst, further.trans shrinks⟩

end Erases

/-! ## Passes -/

/-- The tokens are erased one after the other, each until it does not occur any more. -/
inductive Passes : List brackets.Token → List α → List α → Prop where
  | nil (text : List α) : Passes [] text text
  | cons {token : brackets.Token} {tokens : List brackets.Token} {text middle final : List α} :
      ErasesTo [token] text middle → ¬token.text <:+: middle → Passes tokens middle final →
      Passes (token :: tokens) text final

/-- Between two brackets of a token there is what the erasure of all tokens turns into that
token, but the erasure of the tokens up to it does not. -/
def Hides (tokens : List brackets.Token) (text : List α) : Prop :=
  ∃ before token after, tokens = before ++ token :: after ∧
    ∃ front middle back, text = token.around front middle back ∧
      ErasesTo tokens middle token.inner ∧ ¬ErasesTo (before ++ [token]) middle token.inner

section Passes

variable {tokens before after : List brackets.Token} {token : brackets.Token}
  {text final : List α}

theorem Passes.erasesTo (passes : Passes tokens text final) : ErasesTo tokens text final := by
  induction passes with
  | nil => exact .refl
  | @cons token tokens _ _ _ pass _ _ ih =>
      have first := pass.mono (List.cons_subset_cons token (List.nil_subset tokens))
      exact first.trans (ih.mono (List.subset_cons_self token tokens))

theorem passes_append {left right : List brackets.Token}
    (passes : Passes (left ++ right) text final) :
    ∃ middle, Passes left text middle ∧ Passes right middle final := by
  induction left generalizing text with
  | nil => exact ⟨text, .nil text, passes⟩
  | cons token left ih =>
      cases passes with
      | cons pass gone rest =>
          rcases ih rest with ⟨middle, first, second⟩
          exact ⟨middle, .cons pass gone first, second⟩

/-- The text behind the pass of a token. -/
theorem Passes.split (passes : Passes (before ++ token :: after) text final) :
    ∃ middle, ErasesTo (before ++ [token]) text middle ∧ ¬token.text <:+: middle ∧
      ErasesTo after middle final := by
  rcases passes_append passes with ⟨first, toFirst, rest⟩
  cases rest with
  | @cons _ _ _ middle _ pass gone rest =>
      refine ⟨middle, ?_, gone, rest.erasesTo⟩
      have front := toFirst.erasesTo.mono (List.subset_append_left before [token])
      exact front.trans (pass.mono (List.subset_append_right before [token]))

/-- The brackets of a token are there as long as all that is erased leaves two brackets with
something between them that is not yet the token. -/
theorem exists_around_of_erasesTo {erased : List brackets.Token} {holds : List α → Prop}
    {front middle back : List α}
    (balanced : ∀ middle, holds middle → brackets.Balanced middle)
    (keeps : ∀ middle middle', holds middle → Erases erased middle middle' → holds middle')
    (other : ∀ middle, holds middle → ∀ token' ∈ erased,
      token'.text ≠ token.around [] middle [])
    (start : holds middle) (erases : ErasesTo erased (token.around front middle back) final) :
    ∃ front' middle' back', final = token.around front' middle' back' ∧ holds middle' := by
  induction erases with
  | refl => exact ⟨front, middle, back, rfl, start⟩
  | tail _ last ih =>
      rcases ih with ⟨front', middle', back', rfl, held⟩
      cases last.around (balanced middle' held) with
      | whole isMember isWhole _ => exact absurd isWhole (other middle' held _ isMember)
      | front _ isNext => exact ⟨_, _, _, isNext, held⟩
      | middle erases isNext => exact ⟨_, _, _, isNext, keeps _ _ held erases⟩
      | back _ isNext => exact ⟨_, _, _, isNext, held⟩

/-- Brackets with something between them that can become a token have a token in them. -/
theorem exists_infix_around {front middle back : List α} (isMember : token ∈ tokens)
    (erases : ErasesTo tokens middle token.inner) :
    ∃ token' ∈ tokens, token'.text <:+: token.around front middle back := by
  cases Relation.ReflTransGen.cases_head erases with
  | inl same =>
      subst same
      exact ⟨token, isMember, front, back, by simp [Token.around, Token.text]⟩
  | inr further =>
      rcases further with ⟨next, first, -⟩
      rcases first.exists_token with ⟨inside, isInside, isInfix⟩
      refine ⟨inside, isInside, isInfix.trans ⟨front ++ [token.first], token.last :: back, ?_⟩⟩
      simp [Token.around]

theorem subset_upTo : before ++ [token] ⊆ before ++ token :: after :=
  List.append_subset.mpr ⟨List.subset_append_left before _, by simp⟩

theorem subset_behind : after ⊆ before ++ token :: after :=
  fun _ isAfter => List.mem_append_right _ (List.mem_cons_of_mem _ isAfter)

/-- Up to its own pass a token that is formed too late is not yet there, but its brackets are. -/
theorem exists_around_upTo {front middle back : List α}
    (becomes : ErasesTo (before ++ token :: after) middle token.inner)
    (late : ¬ErasesTo (before ++ [token]) middle token.inner)
    (erases : ErasesTo (before ++ [token]) (token.around front middle back) final) :
    ∃ front' middle' back', final = token.around front' middle' back' ∧
      ErasesTo (before ++ token :: after) middle' token.inner := by
  have held := @exists_around_of_erasesTo _ _ token final (before ++ [token])
    (fun middle => ErasesTo (before ++ token :: after) middle token.inner ∧
      ¬ErasesTo (before ++ [token]) middle token.inner) front middle back
    (fun middle held => token.plain.balanced.of_erasesTo held.1)
    (fun middle middle' held erases =>
      ⟨held.1.of_plain token.plain (.single (erases.mono subset_upTo)),
        fun further => held.2 (.head erases further)⟩)
    (by
      intro middle held token' _ isWhole
      have isInner := (Token.eq_inner isWhole).1
      subst isInner
      rw [token'.plain.eq_of_erasesTo held.1] at held
      exact held.2 .refl)
    ⟨becomes, late⟩ erases
  rcases held with ⟨front', middle', back', isFinal, becomes', -⟩
  exact ⟨front', middle', back', isFinal, becomes'⟩

/-- Behind its own pass only other tokens are erased. -/
theorem exists_around_behind {front middle back : List α} (notAfter : token ∉ after)
    (becomes : ErasesTo (before ++ token :: after) middle token.inner)
    (erases : ErasesTo after (token.around front middle back) final) :
    ∃ front' middle' back', final = token.around front' middle' back' ∧
      ErasesTo (before ++ token :: after) middle' token.inner :=
  @exists_around_of_erasesTo _ _ token final after
    (fun middle => ErasesTo (before ++ token :: after) middle token.inner) front middle back
    (fun middle held => token.plain.balanced.of_erasesTo held)
    (fun middle middle' held erases =>
      held.of_plain token.plain (.single (erases.mono subset_behind)))
    (by
      intro middle held token' isAfter isWhole
      rcases Token.eq_inner isWhole with ⟨isInner, same⟩
      subst isInner
      rw [same (token'.plain.eq_of_erasesTo held)] at isAfter
      exact notAfter isAfter)
    becomes erases

/-- A token that is formed too late stays. -/
theorem exists_infix_of_hides (nodup : tokens.Nodup) (passes : Passes tokens text final)
    (hides : Hides tokens text) : ∃ token ∈ tokens, token.text <:+: final := by
  rcases hides with ⟨before, token, after, rfl, front, middle, back, rfl, becomes, late⟩
  have isMember : token ∈ before ++ token :: after := by simp
  have notAfter : token ∉ after := by
    have apart := (List.nodup_append.mp nodup).2.1
    exact (List.nodup_cons.mp apart).1
  rcases passes.split with ⟨text', toToken, -, toFinal⟩
  rcases exists_around_upTo becomes late toToken with ⟨front', middle', back', rfl, becomes'⟩
  rcases exists_around_behind notAfter becomes' toFinal with
    ⟨front'', middle'', back'', rfl, becomes''⟩
  exact exists_infix_around isMember becomes''

/-- A token that is there in the end was formed too late. -/
theorem hides_of_inside (nodup : tokens.Nodup) (passes : Passes tokens text final)
    (remains : ∃ token ∈ tokens, token.text <:+: final) : Hides tokens text := by
  classical
  have isFound : (tokens.find? fun token => token.text <:+: final).isSome = true := by
    simpa using remains
  rcases Option.isSome_iff_exists.mp isFound with ⟨token, found⟩
  rcases List.find?_eq_some_iff_append.mp found with ⟨isInfix, before, after, rfl, noneBefore⟩
  simp only [Bool.not_eq_true', decide_eq_false_iff_not] at noneBefore
  rcases passes.split with ⟨text', toToken, gone, toFinal⟩
  rcases of_decide_eq_true isInfix with ⟨front, back, rfl⟩
  rw [List.append_assoc, token.text_eq_around] at toFinal
  rcases toFinal.exists_around with ⟨front', middle', back', rfl, becomes⟩
  rcases toToken.exists_around with ⟨front'', middle'', back'', rfl, shrinks⟩
  refine ⟨before, token, after, rfl, front'', middle'', back'', rfl, ?_, ?_⟩
  · exact (shrinks.mono subset_upTo).trans (becomes.mono subset_behind)
  · intro early
    -- A token up to this one would have been left behind its pass, and would still be there.
    have further := early.of_plain token.plain shrinks
    rcases @exists_infix_around _ _ (before ++ [token]) token front' middle' back' (by simp)
      further with ⟨inside, isInside, insideInfix⟩
    rw [List.mem_append, List.mem_singleton] at isInside
    rcases isInside with isBefore | rfl
    · have notAfter : inside ∉ after := by
        intro isAfter
        have apart := (List.nodup_append.mp nodup).2.2
        exact apart inside isBefore inside (List.mem_cons_of_mem _ isAfter) rfl
      have stays := toFinal.infix notAfter insideInfix
      rw [← token.text_eq_around, ← List.append_assoc] at stays
      exact noneBefore inside isBefore stays
    · exact gone insideInfix

theorem absent_iff_not_hides (nodup : tokens.Nodup) (passes : Passes tokens text final) :
    (∀ token ∈ tokens, ¬token.text <:+: final) ↔ ¬Hides tokens text := by
  rw [← not_iff_not, not_not]
  push Not
  exact ⟨hides_of_inside nodup passes, exists_infix_of_hides nodup passes⟩

end Passes

end Brackets

end Cllama.Library
