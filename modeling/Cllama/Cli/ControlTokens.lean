import Cllama.Cli.Serve
import Cllama.Library.Erasure

/-!
# Control tokens in replies

The chat erases six texts from every reply, one after the other.  Each pass ends, but an
erasure can join the text around it into another of the six, and the pass for that one may be
over.  The exact condition says which replies are cleaned.
-/

namespace Cllama.Cli

open Cllama.Library

/-- The texts in the order in which they are removed. -/
def controlTokens : List Bytes :=
  ["<|im_start|>", "<|im_end|>", "<s>", "</s>", "[INST]", "[/INST]"].map bytes

/-- The inner loop, which erases the first occurrence as long as there is one.  Without
enough fuel the loop has not ended. -/
def removeToken (tok : Bytes) : Nat → Bytes → Option Bytes
  | 0, _ => none
  | fuel + 1, reply =>
      match find tok reply with
      | none => some reply
      | some pos => removeToken tok fuel (reply.take pos ++ reply.drop (pos + tok.length))

/-- The loop over the texts. -/
def removeControlTokens (reply : Bytes) : Option Bytes :=
  controlTokens.foldlM (fun reply tok => removeToken tok (reply.length + 1) reply) reply

/-! ## Passes -/

/-- Control tokens start and end with brackets and have none between them. -/
def tagBrackets : Brackets UInt8 where
  isOpen c := c == 0x3C || c == 0x5B
  isClose c := c == 0x3E || c == 0x5D
  apart c := by
    simp only [Bool.or_eq_true, beq_iff_eq]
    rintro (rfl | rfl) <;> rfl

def angled (inner : Bytes) (plain : tagBrackets.Plain inner) : tagBrackets.Token :=
  ⟨0x3C, inner, 0x3E, rfl, rfl, plain⟩

def square (inner : Bytes) (plain : tagBrackets.Plain inner) : tagBrackets.Token :=
  ⟨0x5B, inner, 0x5D, rfl, rfl, plain⟩

def tags : List tagBrackets.Token :=
  [angled (bytes "|im_start|") (of_decide_eq_true rfl),
    angled (bytes "|im_end|") (of_decide_eq_true rfl), angled (bytes "s") (of_decide_eq_true rfl),
    angled (bytes "/s") (of_decide_eq_true rfl), square (bytes "INST") (of_decide_eq_true rfl),
    square (bytes "/INST") (of_decide_eq_true rfl)]

theorem tags_text : tags.map Brackets.Token.text = controlTokens := rfl

theorem tags_nodup : tags.Nodup := by
  apply List.Nodup.of_map Brackets.Token.text
  rw [tags_text]
  decide

/-- The inner loop ends as soon as it may take as many steps as the reply has characters. -/
theorem exists_removeToken (tag : tagBrackets.Token) {fuel : Nat} {reply : Bytes}
    (enough : reply.length < fuel) :
    ∃ cleaned, removeToken tag.text fuel reply = some cleaned ∧
      Brackets.ErasesTo [tag] reply cleaned ∧ ¬tag.text <:+: cleaned := by
  induction fuel generalizing reply with
  | zero => cases enough
  | succ fuel ih =>
      rw [removeToken]
      cases found : find tag.text reply with
      | none => exact ⟨reply, rfl, .refl, find_eq_none_iff.mp found⟩
      | some pos =>
          rcases find_eq_some_iff.mp found with ⟨-, ⟨after, isRest⟩, -⟩
          have isReply : reply = reply.take pos ++ (tag.text ++ after) := by
            rw [isRest, List.take_append_drop]
          have isAfter : reply.drop (pos + tag.text.length) = after := by
            rw [← List.drop_drop, ← isRest, List.drop_left]
          have nonempty := List.length_pos_iff.mpr tag.text_ne_nil
          have shorter : (reply.take pos ++ after).length < fuel := by
            rw [isReply] at enough
            simp only [List.length_append] at enough ⊢
            omega
          rcases ih shorter with ⟨cleaned, removed, erases, gone⟩
          dsimp only
          rw [isAfter]
          refine ⟨cleaned, removed, .head ?_ erases, gone⟩
          nth_rewrite 1 [isReply]
          exact .intro _ _ List.mem_cons_self

theorem exists_passes (tags : List tagBrackets.Token) (reply : Bytes) :
    ∃ cleaned, (tags.map Brackets.Token.text).foldlM
        (fun reply tok => removeToken tok (reply.length + 1) reply) reply = some cleaned ∧
      Brackets.Passes tags reply cleaned := by
  induction tags generalizing reply with
  | nil => exact ⟨reply, rfl, .nil reply⟩
  | cons tag tags ih =>
      rcases exists_removeToken tag (Nat.lt_succ_self reply.length) with
        ⟨middle, removed, erases, gone⟩
      rcases ih middle with ⟨cleaned, rest, passes⟩
      refine ⟨cleaned, ?_, .cons erases gone passes⟩
      rw [List.map_cons, List.foldlM_cons, removed]
      exact rest

/-- The loops end. -/
theorem exists_cleaned (reply : Bytes) :
    ∃ cleaned, removeControlTokens reply = some cleaned ∧ Brackets.Passes tags reply cleaned :=
  exists_passes tags reply

/-- What is left has none of the six texts in it exactly if the reply does not hide one in
brackets that only a later pass closes up. -/
theorem clean_iff_of_removed {reply cleaned : Bytes}
    (removed : removeControlTokens reply = some cleaned) :
    (∀ tok ∈ controlTokens, ¬tok <:+: cleaned) ↔ ¬Brackets.Hides tags reply := by
  rcases exists_cleaned reply with ⟨cleaned', removed', passes⟩
  cases removed.symm.trans removed'
  rw [← Brackets.absent_iff_not_hides tags_nodup passes, ← tags_text, List.forall_mem_map]

theorem valid_of_erasesTo {reply cleaned : Bytes} (valid : Utf8.valid reply = true)
    (erases : Brackets.ErasesTo tags reply cleaned) : Utf8.valid cleaned = true := by
  have ascii : ∀ tag ∈ tags, ∀ octet ∈ tag.text, octet < 0x80 := by decide +kernel
  induction erases with
  | refl => exact valid
  | tail _ last ih =>
      cases last with
      | @intro tag before after isTag =>
          have isAscii := ascii tag isTag
          have cut := Utf8.valid_cut (isAscii tag.first List.mem_cons_self) ih
          have afterValid := (Utf8.valid_append_iff (Utf8.valid_of_ascii isAscii)).mp cut.2
          exact Utf8.valid_append cut.1 afterValid

/-- Well-formed text stays well-formed. -/
theorem valid_removeControlTokens {reply cleaned : Bytes} (valid : Utf8.valid reply = true)
    (removed : removeControlTokens reply = some cleaned) : Utf8.valid cleaned = true := by
  rcases exists_cleaned reply with ⟨cleaned', removed', passes⟩
  cases removed.symm.trans removed'
  exact valid_of_erasesTo valid passes.erasesTo

/-- The pass for the first text is over when the third one is erased from inside of it. -/
theorem not_forall_clean : ¬∀ reply, ∃ cleaned, removeControlTokens reply = some cleaned ∧
    ∀ tok ∈ controlTokens, ¬tok <:+: cleaned := by
  intro clean
  rcases clean (bytes "<|im_<s>start|>") with ⟨cleaned, removed, absent⟩
  have joined : removeControlTokens (bytes "<|im_<s>start|>") = some (bytes "<|im_start|>") := by
    decide
  cases joined.symm.trans removed
  exact absent (bytes "<|im_start|>") List.mem_cons_self (List.infix_refl _)

end Cllama.Cli
