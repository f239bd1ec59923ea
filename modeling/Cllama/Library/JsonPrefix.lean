import Cllama.Library.JsonPortable

/-!
# Texts that have been cut

A reader that has found the end of a value finds the same value when the text goes on, unless it
is a number that goes on.  So nothing that stands before the last bracket of an object is a text
of its own.
-/

namespace Cllama.Library.JsonText

theorem scanString_append {text content rest : Bytes}
    (scanned : scanString text = some (content, rest)) (later : Bytes) :
    scanString (text ++ later) = some (content, rest ++ later) := by
  fun_induction scanString text generalizing content rest with
  | case1 | case3 | case5 | case7 => cases scanned
  | case2 =>
      cases scanned
      exact scanString_quote _
  | case4 a b c d rest' _ ih =>
      simp only [Option.bind_eq_bind, Option.bind_eq_some_iff] at scanned
      rcases scanned with ⟨unit, isUnit, character, encoded, ⟨body, rest''⟩, found, built⟩
      cases built
      have known : (hex4 a b c d).bind encodeUnit = some character := by
        rw [isUnit, Option.bind_some, encoded]
      simp only [List.cons_append]
      rw [scanString_unicode _ known, ih found]
      rfl
  | case6 escaped rest' notUnicode _ ih =>
      simp only [Option.bind_eq_bind, Option.bind_eq_some_iff] at scanned
      rcases scanned with ⟨character, known, ⟨body, rest''⟩, found, built⟩
      cases built
      simp only [List.cons_append]
      rw [scanString_short _ known notUnicode, ih found]
      rfl
  | case8 octet rest' notQuote notBackslash printable ih =>
      simp only [Option.bind_eq_bind, Option.bind_eq_some_iff] at scanned
      rcases scanned with ⟨⟨body, rest''⟩, found, built⟩
      cases built
      simp only [List.cons_append]
      rw [scanString_plain _ notQuote notBackslash printable, ih found]
      rfl

theorem readString_append {text content rest : Bytes}
    (read : readString text = some (content, rest)) (later : Bytes) :
    readString (text ++ later) = some (content, rest ++ later) := by
  simp only [readString, Option.bind_eq_bind, Option.bind_eq_some_iff] at read
  rcases read with ⟨⟨content', rest'⟩, scanned, checked⟩
  rw [readString, scanString_append scanned]
  dsimp only at checked
  split at checked
  next valid =>
    cases checked
    simp [valid]
  next => cases checked

theorem readWord_append_right {word text rest : Bytes} (read : readWord word text = some rest)
    (later : Bytes) : readWord word (text ++ later) = some (rest ++ later) := by
  rw [readWord] at read
  split at read
  next isPrefix =>
    cases read
    rw [readWord, if_pos (isPrefix.trans (List.prefix_append _ _)),
      List.drop_append_of_le_length isPrefix.length_le]
  next => cases read

/-- The digits of a number end where something else follows. -/
theorem readNat_append {text rest : Bytes} {value : Nat} {octet : UInt8}
    (read : readNat text = some (value, octet :: rest)) (later : Bytes) :
    readNat (text ++ later) = some (value, octet :: rest ++ later) := by
  rw [readNat] at read
  split at read
  next => cases read
  next nonempty =>
    rw [Option.some.injEq, Prod.mk.injEq] at read
    rcases read with ⟨rfl, ends⟩
    have short : (text.takeWhile isDigit).length ≠ text.length := by
      intro all
      have joined := congrArg List.length (@List.takeWhile_append_dropWhile _ isDigit text)
      rw [ends, List.length_append, all] at joined
      simp at joined
    rw [readNat, List.takeWhile_append, List.dropWhile_append, ends, if_neg short,
      if_neg nonempty]
    rfl

theorem readInt_append {text rest : Bytes} {value : Int} {octet : UInt8}
    (read : readInt text = some (value, octet :: rest)) (later : Bytes) :
    readInt (text ++ later) = some (value, octet :: rest ++ later) := by
  cases text with
  | nil => cases read
  | cons first text =>
      rw [readInt] at read
      rw [List.cons_append, readInt]
      split at read
      next isMinus =>
        rcases Option.map_eq_some_iff.mp read with ⟨⟨digits, rest'⟩, found, built⟩
        cases built
        rw [if_pos isMinus, readNat_append found]
        rfl
      next notMinus =>
        rcases Option.map_eq_some_iff.mp read with ⟨⟨digits, rest'⟩, found, built⟩
        cases built
        have whole := readNat_append found later
        rw [List.cons_append] at whole
        rw [if_neg notMinus, whole]
        rfl

/-- The readers with some fuel, and with more of it, go on to find what they have found. -/
structure Continues (fuel : Nat) : Prop where
  value : ∀ {more text json octet rest}, fuel ≤ more →
    readValue fuel text = some (json, octet :: rest) →
    ∀ later, readValue more (text ++ later) = some (json, octet :: rest ++ later)
  items : ∀ {more text items rest}, fuel ≤ more → readItems fuel text = some (items, rest) →
    ∀ later, readItems more (text ++ later) = some (items, rest ++ later)
  members : ∀ {more text members rest}, fuel ≤ more →
    readMembers fuel text = some (members, rest) →
    ∀ later, readMembers more (text ++ later) = some (members, rest ++ later)

namespace Continues

variable {fuel more : Nat} (continues : Continues fuel) (enough : fuel ≤ more)

include continues enough

theorem readItems {text rest : Bytes} {items : List Json}
    (read : readItems (fuel + 1) text = some (items, rest)) (later : Bytes) :
    JsonText.readItems (more + 1) (text ++ later) = some (items, rest ++ later) := by
  rw [JsonText.readItems] at read ⊢
  split at read
  next item octet rest' found =>
    rw [continues.value enough found]
    simp only [List.cons_append]
    split at read
    next closes =>
      cases read
      rw [if_pos closes]
    next notClosed =>
      split at read
      next isComma =>
        rcases Option.map_eq_some_iff.mp read with ⟨⟨others, rest''⟩, foundOthers, built⟩
        cases built
        rw [if_neg notClosed, if_pos isComma, continues.items enough foundOthers]
        rfl
      next => cases read
  next => cases read

theorem readMembers {text rest : Bytes} {members : List (Bytes × Json)}
    (read : readMembers (fuel + 1) text = some (members, rest)) (later : Bytes) :
    JsonText.readMembers (more + 1) (text ++ later) = some (members, rest ++ later) := by
  cases text with
  | nil => simp [JsonText.readMembers] at read
  | cons octet text =>
      rw [JsonText.readMembers] at read
      rw [List.cons_append, JsonText.readMembers]
      split at read
      next isQuote =>
        rw [if_pos isQuote]
        split at read
        next key octet rest' foundKey =>
          rw [readString_append foundKey]
          simp only [List.cons_append]
          split at read
          next isColon =>
            rw [if_pos isColon]
            split at read
            next value octet rest'' found =>
              rw [continues.value enough found]
              simp only [List.cons_append]
              split at read
              next closes =>
                cases read
                rw [if_pos closes]
              next notClosed =>
                split at read
                next isComma =>
                  rcases Option.map_eq_some_iff.mp read with ⟨⟨others, rest⟩, foundOthers, built⟩
                  cases built
                  rw [if_neg notClosed, if_pos isComma, continues.members enough foundOthers]
                  rfl
                next => cases read
            next => cases read
          next => cases read
        next => cases read
      next => cases read

/-- An array or an object ends with its bracket, whatever follows. -/
theorem readValue_closed {text rest : Bytes} {json : Json}
    (read : readValue (fuel + 1) text = some (json, rest))
    (opens : text.head? = some openBracket ∨ text.head? = some openBrace) (later : Bytes) :
    JsonText.readValue (more + 1) (text ++ later) = some (json, rest ++ later) := by
  cases text with
  | nil => simp [JsonText.readValue] at read
  | cons octet text =>
      rw [List.head?_cons, Option.some.injEq, Option.some.injEq] at opens
      rw [JsonText.readValue] at read
      rw [List.cons_append, JsonText.readValue]
      rcases opens with rfl | rfl
      · rw [if_neg (by decide), if_pos rfl] at read ⊢
        split at read
        next closes =>
          cases read
          cases text with
          | nil => cases closes
          | cons first text =>
              rw [List.head?_cons] at closes
              rw [List.cons_append, List.head?_cons, if_pos closes]
              rfl
        next notClosed =>
          rcases Option.map_eq_some_iff.mp read with ⟨⟨items, rest'⟩, found, built⟩
          cases built
          cases text with
          | nil => cases fuel <;> simp [JsonText.readItems, JsonText.readValue] at found
          | cons first text =>
              have all := continues.items enough found later
              rw [List.cons_append] at all ⊢
              rw [List.head?_cons] at notClosed ⊢
              rw [if_neg notClosed, all]
              rfl
      · rw [if_neg (by decide), if_neg (by decide), if_pos rfl] at read ⊢
        split at read
        next closes =>
          cases read
          cases text with
          | nil => cases closes
          | cons first text =>
              rw [List.head?_cons] at closes
              rw [List.cons_append, List.head?_cons, if_pos closes]
              rfl
        next notClosed =>
          rcases Option.map_eq_some_iff.mp read with ⟨⟨members, rest'⟩, found, built⟩
          cases built
          cases text with
          | nil => cases fuel <;> simp [JsonText.readMembers] at found
          | cons first text =>
              have all := continues.members enough found later
              rw [List.cons_append] at all ⊢
              rw [List.head?_cons] at notClosed ⊢
              rw [if_neg notClosed, all]
              rfl

theorem readValue {text rest : Bytes} {json : Json} {next : UInt8}
    (read : readValue (fuel + 1) text = some (json, next :: rest)) (later : Bytes) :
    JsonText.readValue (more + 1) (text ++ later) = some (json, next :: rest ++ later) := by
  by_cases opens : text.head? = some openBracket ∨ text.head? = some openBrace
  · exact continues.readValue_closed enough read opens later
  · cases text with
    | nil => simp [JsonText.readValue] at read
    | cons octet text =>
        rw [List.head?_cons, Option.some.injEq, Option.some.injEq, not_or] at opens
        rw [JsonText.readValue, if_neg opens.1, if_neg opens.2] at read
        rw [List.cons_append, JsonText.readValue, if_neg opens.1, if_neg opens.2]
        split at read
        next isQuote =>
          rcases Option.map_eq_some_iff.mp read with ⟨⟨content, rest'⟩, found, built⟩
          cases built
          rw [if_pos isQuote, readString_append found]
          rfl
        next notQuote =>
          rw [if_neg notQuote]
          have word : ∀ {letters : Bytes} {value : Json},
              (readWord letters text).map (fun rest => (value, rest)) =
                some (json, next :: rest) →
              (readWord letters (text ++ later)).map (fun rest => (value, rest)) =
                some (json, next :: rest ++ later) := by
            intro letters value read
            rcases Option.map_eq_some_iff.mp read with ⟨rest', found, built⟩
            cases built
            rw [readWord_append_right found]
            rfl
          split at read
          next isNull => rw [if_pos isNull, word read]
          next notNull =>
            rw [if_neg notNull]
            split at read
            next isTrue => rw [if_pos isTrue, word read]
            next notTrue =>
              rw [if_neg notTrue]
              split at read
              next isFalse => rw [if_pos isFalse, word read]
              next notFalse =>
                rcases Option.map_eq_some_iff.mp read with ⟨⟨value, rest'⟩, found, built⟩
                cases built
                have all := readInt_append found later
                rw [List.cons_append] at all
                rw [if_neg notFalse, all]
                rfl

end Continues

/-- By induction on the fuel, which the three readers share. -/
theorem continues (fuel : Nat) : Continues fuel := by
  induction fuel with
  | zero =>
      constructor
      · intro more text json octet rest enough read
        cases text <;> simp [readValue] at read
      · intro more text items rest enough read
        simp [readItems] at read
      · intro more text members rest enough read
        simp [readMembers] at read
  | succ fuel ih =>
      constructor
      · intro more text json octet rest enough read later
        cases more with
        | zero => cases enough
        | succ more => exact ih.readValue (Nat.le_of_succ_le_succ enough) read later
      · intro more text items rest enough read later
        cases more with
        | zero => cases enough
        | succ more => exact ih.readItems (Nat.le_of_succ_le_succ enough) read later
      · intro more text members rest enough read later
        cases more with
        | zero => cases enough
        | succ more => exact ih.readMembers (Nat.le_of_succ_le_succ enough) read later

/-- What is left of the text of an object that has been cut is no text. -/
theorem read_cut {left text : Bytes} {json : Json} (parsed : read text = some json)
    (opens : text.head? = some openBrace) (isPrefix : left <+: text) (cut : left ≠ text) :
    read left = none := by
  rcases isPrefix with ⟨later, rfl⟩
  cases left with
  | nil => rfl
  | cons octet left =>
      rw [List.cons_append, List.head?_cons, Option.some.injEq] at opens
      subst opens
      by_contra isText
      rcases Option.ne_none_iff_exists'.mp isText with ⟨other, parsedLeft⟩
      rw [read] at parsed parsedLeft
      split at parsedLeft
      next value found =>
        have enough : left.length ≤ (left ++ later).length := by
          rw [List.length_append]
          exact Nat.le_add_right _ _
        have all := (continues left.length).readValue_closed enough found (Or.inr rfl) later
        rw [List.cons_append, List.length_cons] at parsed
        rw [List.cons_append] at all
        rw [all] at parsed
        split at parsed
        next same =>
          rw [Option.some.injEq, Prod.mk.injEq, List.nil_append] at same
          rw [same.2] at cut
          exact cut (List.append_nil _).symm
        next => cases parsed
      next => cases parsedLeft

end Cllama.Library.JsonText
