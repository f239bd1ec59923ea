import Cllama.Library.Decimal
import Mathlib.Data.List.TakeWhile

/-!
# Words of a text

What an input stream reads out of a text with `>>` into strings.
-/

namespace Cllama.Library

open Decimal

/-- The longest pieces of a text without white space in them. -/
def words (text : Bytes) : List Bytes :=
  (text.splitOnP isSpace).filter (· ≠ [])

/-- A text is one word. -/
def IsWord (text : Bytes) : Prop :=
  text ≠ [] ∧ ∀ c ∈ text, isSpace c = false

theorem words_append {left right : Bytes} {sep : UInt8} (isSep : isSpace sep = true) :
    words (left ++ sep :: right) = words left ++ words right := by
  rw [words, List.splitOnP_append_cons _ _ isSep, List.filter_append]
  rfl

theorem words_nil : words [] = [] := rfl

theorem IsWord.words {text : Bytes} (isWord : IsWord text) : words text = [text] := by
  rw [Library.words, List.splitOnP_eq_singleton isWord.2]
  simp [isWord.1]

theorem words_of_space {text : Bytes} {c : UInt8} (space : isSpace c = true) :
    words (c :: text) = words text := by
  have split := @words_append [] text c space
  rwa [words_nil, List.nil_append, List.nil_append] at split

/-- The first word of a text, and the words behind it. -/
theorem words_of_not_space {text : Bytes} {c : UInt8} (plain : isSpace c = false) :
    ∃ others, words (c :: text) = (c :: text).takeWhile (!isSpace ·) :: others := by
  have isWord : IsWord ((c :: text).takeWhile (!isSpace ·)) := by
    constructor
    · simp [plain]
    · intro d isMember
      simpa using List.mem_takeWhile_imp isMember
  have cut := List.takeWhile_append_dropWhile (p := (!isSpace ·)) (l := c :: text)
  cases behind : (c :: text).dropWhile (!isSpace ·) with
  | nil =>
      rw [behind, List.append_nil] at cut
      rw [cut] at isWord ⊢
      exact ⟨[], isWord.words⟩
  | cons sep right =>
      have isSep : isSpace sep = true := by
        have stops := List.head_dropWhile_not (!isSpace ·) (l := c :: text) (by simp [behind])
        simpa [behind] using stops
      rw [behind] at cut
      refine ⟨words right, ?_⟩
      calc words (c :: text)
          = words ((c :: text).takeWhile (!isSpace ·) ++ sep :: right) := by rw [cut]
        _ = (c :: text).takeWhile (!isSpace ·) :: words right := by
            rw [words_append isSep, isWord.words]
            rfl

/-! ## Numbers as words -/

theorem sign_takeWhile (text : Bytes) :
    sign (text.takeWhile (!isSpace ·)) =
      ((sign text).1, (sign text).2.takeWhile (!isSpace ·)) := by
  have minus : isSpace 0x2D = false := by decide
  have plus : isSpace 0x2B = false := by decide
  rcases text with - | ⟨c, text⟩
  · rfl
  by_cases isMinus : c = 0x2D
  · subst isMinus
    simp [sign, minus]
  by_cases isPlus : c = 0x2B
  · subst isPlus
    simp [sign, plus]
  have unsigned : ∀ rest, sign (c :: rest) = (false, c :: rest) := by
    intro rest
    rw [sign]
    · exact fun _ same => isMinus (List.cons.inj same).1
    · exact fun _ same => isPlus (List.cons.inj same).1
  rw [unsigned]
  by_cases space : isSpace c = true
  · rw [List.takeWhile_cons_of_neg (by simp [space])]
    rfl
  · rw [List.takeWhile_cons_of_pos (by simp [space]), unsigned]

theorem takeWhile_isDigit (text : Bytes) :
    (text.takeWhile (!isSpace ·)).takeWhile isDigit = text.takeWhile isDigit := by
  rw [List.takeWhile_takeWhile]
  congr 1
  funext c
  cases digit : isDigit c with
  | false => rfl
  | true => simp [(not_isSpace_of_isDigit digit).1]

/-- A number is read out of the first word. -/
theorem stoiInt_of_words {text word : Bytes} {others : List Bytes}
    (read : words text = word :: others) : stoiInt word = stoiInt text := by
  induction text with
  | nil => cases read
  | cons c text ih =>
      cases space : isSpace c with
      | true =>
          rw [words_of_space space] at read
          rw [ih read, stoiInt, stoiInt, List.dropWhile_cons_of_pos space]
      | false =>
          rcases @words_of_not_space text c space with ⟨others', read'⟩
          rw [read'] at read
          cases read
          have start : ((c :: text).takeWhile (!isSpace ·)).dropWhile isSpace =
              (c :: text).takeWhile (!isSpace ·) := by
            rw [List.takeWhile_cons_of_pos (by simp [space]),
              List.dropWhile_cons_of_neg (by simp [space])]
          rw [stoiInt, stoiInt, start, List.dropWhile_cons_of_neg (by simp [space]),
            sign_takeWhile]
          dsimp only
          rw [takeWhile_isDigit]

end Cllama.Library
