import Cllama.Library.JsonText

/-!
# The reference text format is lawful

Reading a printed value gives the value back, whatever text follows it; the proof goes
by induction on the value, with one lemma for the items of an array and one for the
members of an object.  No printed text contains a line feed.
-/

namespace Cllama.Library.JsonText

/-! ## String literals -/

theorem hex4_control (value : Nat) (small : value < 32) :
    (hex4 0x30 0x30 (hexDigit (value / 16)) (hexDigit (value % 16))).bind encodeUnit =
      some [UInt8.ofNat value] := by
  decide +revert +kernel

@[simp] theorem scanString_quote (rest : Bytes) :
    scanString (quote :: rest) = some ([], rest) := by
  rw [scanString.eq_def]
  simp

theorem scanString_plain {octet : UInt8} (rest : Bytes) (notQuote : octet ≠ quote)
    (notBackslash : octet ≠ backslash) (printable : ¬octet < 0x20) :
    scanString (octet :: rest) =
      (scanString rest).map fun (text, rest) => (octet :: text, rest) := by
  rw [scanString.eq_def]
  cases found : scanString rest <;> simp [notQuote, notBackslash, printable, found]

theorem scanString_short {escaped character : UInt8} (rest : Bytes)
    (known : unescapeOctet escaped = some character) (notUnicode : escaped ≠ 0x75) :
    scanString (backslash :: escaped :: rest) =
      (scanString rest).map fun (text, rest) => (character :: text, rest) := by
  rw [scanString.eq_def]
  cases found : scanString rest <;> simp [known, notUnicode, quote, backslash, found]

theorem scanString_unicode {a b c d : UInt8} {character : Bytes} (rest : Bytes)
    (known : (hex4 a b c d).bind encodeUnit = some character) :
    scanString (backslash :: 0x75 :: a :: b :: c :: d :: rest) =
      (scanString rest).map fun (text, rest) => (character ++ text, rest) := by
  obtain ⟨unit, parsed, encoded⟩ := Option.bind_eq_some_iff.mp known
  rw [scanString.eq_def]
  cases found : scanString rest <;> simp [parsed, encoded, quote, backslash, found]

theorem scanString_escapeOctet (octet : UInt8) (rest : Bytes) :
    scanString (escapeOctet octet ++ rest) =
      (scanString rest).map fun (text, rest) => (octet :: text, rest) := by
  by_cases special : octet = quote ∨ octet = backslash ∨ octet = 0x08 ∨ octet = 0x0C ∨
      octet = 0x0A ∨ octet = 0x0D ∨ octet = 0x09
  · rcases special with rfl | rfl | rfl | rfl | rfl | rfl | rfl <;>
      exact scanString_short rest (by decide) (by decide)
  · simp only [not_or] at special
    obtain ⟨notQuote, notBackslash, notB, notF, notN, notR, notT⟩ := special
    simp only [escapeOctet, if_neg notQuote, if_neg notBackslash, if_neg notB, if_neg notF,
      if_neg notN, if_neg notR, if_neg notT]
    by_cases control : octet < 0x20
    · rw [if_pos control]
      have unit := hex4_control octet.toNat (by simpa [UInt8.lt_iff_toNat_lt] using control)
      rw [UInt8.ofNat_toNat] at unit
      exact scanString_unicode rest unit
    · rw [if_neg control]
      exact scanString_plain rest notQuote notBackslash control

theorem scanString_escape (text rest : Bytes) :
    scanString (escape text ++ quote :: rest) = some (text, rest) := by
  induction text with
  | nil => simp [escape]
  | cons octet text ih =>
      rw [escape, List.flatMap_cons, List.append_assoc, scanString_escapeOctet]
      rw [← escape, ih]
      rfl

/-- A property of octets can be checked on their values. -/
theorem forall_octet {property : UInt8 → Prop}
    (holds : ∀ value < 256, property (UInt8.ofNat value)) (octet : UInt8) :
    property octet := by
  simpa using holds octet.toNat octet.toNat_lt

theorem newline_not_mem_escapeOctet (octet : UInt8) :
    Codec.newline ∉ escapeOctet octet := by
  apply @forall_octet fun octet => Codec.newline ∉ escapeOctet octet
  decide +kernel

/-! ## Numbers -/

/-- Text that goes on with no digit, as it does after a number in a JSON text. -/
def Quiet (text : Bytes) : Prop := ∀ octet ∈ text.head?, isDigit octet = false

theorem readNat_digits {digits : Bytes} (nonempty : digits ≠ [])
    (decimal : ∀ octet ∈ digits, isDigit octet = true) {rest : Bytes} (quiet : Quiet rest) :
    readNat (digits ++ rest) =
      some (Nat.ofDigits 10 (digits.reverse.map fun octet => octet.toNat - 0x30), rest) := by
  have stops : rest.takeWhile isDigit = [] ∧ rest.dropWhile isDigit = rest := by
    cases rest with
    | nil => simp
    | cons octet rest => 
      have := quiet octet (by simp)
      simp [this]
  rw [readNat, List.takeWhile_append_of_pos decimal, List.dropWhile_append_of_pos decimal]
  simp [stops, nonempty]

/-- A digit and its octet. -/
theorem digit_octet {digit : Nat} (decimal : digit < 10) :
    isDigit (UInt8.ofNat (0x30 + digit)) = true ∧
      (UInt8.ofNat (0x30 + digit)).toNat - 0x30 = digit := by
  decide +revert

theorem printNat_ne_nil (value : Nat) : printNat value ≠ [] := by
  rw [printNat]
  split
  next => exact List.cons_ne_nil _ _
  next positive =>
    rwa [ne_eq, List.map_eq_nil_iff, List.reverse_eq_nil_iff, Nat.digits_eq_nil_iff_eq_zero]

theorem isDigit_of_mem_printNat {value : Nat} {octet : UInt8}
    (member : octet ∈ printNat value) : isDigit octet = true := by
  rw [printNat] at member
  split at member
  next =>
    rw [List.mem_singleton] at member
    subst member
    rfl
  next =>
    obtain ⟨digit, isMember, rfl⟩ := List.mem_map.mp member
    exact (digit_octet (Nat.digits_lt_base (by decide) (List.mem_reverse.mp isMember))).1

theorem ofDigits_printNat (value : Nat) :
    Nat.ofDigits 10 ((printNat value).reverse.map fun octet => octet.toNat - 0x30) = value := by
  rw [printNat]
  split
  next zero => exact zero.symm
  next =>
    rw [← List.map_reverse, List.reverse_reverse, List.map_map]
    have same := List.map_congr_left (g := id)
      fun digit (member : digit ∈ Nat.digits 10 value) =>
        (digit_octet (Nat.digits_lt_base (by decide) member)).2
    rw [show (fun octet : UInt8 => octet.toNat - 0x30) ∘
      (fun digit => UInt8.ofNat (0x30 + digit)) =
        fun digit => (UInt8.ofNat (0x30 + digit)).toNat - 0x30 from rfl]
    rw [same, List.map_id, Nat.ofDigits_digits]

theorem readNat_printNat (value : Nat) {rest : Bytes} (quiet : Quiet rest) :
    readNat (printNat value ++ rest) = some (value, rest) := by
  rw [readNat_digits (printNat_ne_nil value) (fun _ => isDigit_of_mem_printNat) quiet,
    ofDigits_printNat]

theorem printInt_head (value : Int) : ∃ octet rest, printInt value = octet :: rest ∧
    (isDigit octet = true ∨ octet = minus) := by
  cases value with
  | ofNat value =>
      obtain ⟨octet, rest, printed⟩ := List.exists_cons_of_ne_nil (printNat_ne_nil value)
      exact ⟨octet, rest, printed, .inl (isDigit_of_mem_printNat (printed ▸ List.mem_cons_self))⟩
  | negSucc value => exact ⟨minus, printNat (value + 1), rfl, .inr rfl⟩

theorem readInt_printInt (value : Int) {rest : Bytes} (quiet : Quiet rest) :
    readInt (printInt value ++ rest) = some (value, rest) := by
  cases value with
  | ofNat value =>
      have parsed := readNat_printNat value quiet
      obtain ⟨octet, tail, printed⟩ := List.exists_cons_of_ne_nil (printNat_ne_nil value)
      have digit : isDigit octet = true :=
        isDigit_of_mem_printNat (printed ▸ List.mem_cons_self)
      have notMinus : octet ≠ minus := by
        rintro rfl
        exact absurd digit (by decide)
      rw [printInt, printed, List.cons_append, readInt, if_neg notMinus, ← List.cons_append,
        ← printed, parsed]
      rfl
  | negSucc value =>
      rw [printInt, List.cons_append, readInt, if_pos rfl, readNat_printNat _ quiet]
      rfl


/-! ## Values -/

theorem readString_printString {text printed : Bytes} (written : printString text = some printed)
    (rest : Bytes) :
    ∃ body, printed = quote :: body ∧ readString (body ++ rest) = some (text, rest) := by
  rw [printString] at written
  split at written
  next valid =>
    cases written
    refine ⟨escape text ++ [quote], rfl, ?_⟩
    rw [List.append_assoc, List.singleton_append, readString, scanString_escape]
    simp [valid]
  next => cases written

theorem readWord_append (word rest : Bytes) : readWord word (word ++ rest) = some rest := by
  simp [readWord]

/-- The first octet of a value never closes an array. -/
theorem print_head {json : Json} {text : Bytes} (printed : print json = some text) :
    ∃ octet tail, text = octet :: tail ∧ octet ≠ closeBracket := by
  cases json with
  | null => cases printed; exact ⟨_, _, rfl, by decide⟩
  | bool value => cases value <;> cases printed <;> exact ⟨_, _, rfl, by decide⟩
  | int value =>
      rw [print] at printed
      cases printed
      obtain ⟨octet, tail, head, start⟩ := printInt_head value
      refine ⟨octet, tail, head, ?_⟩
      rintro rfl
      exact absurd start (by decide)
  | real value => cases printed
  | str text =>
      rw [print] at printed
      obtain ⟨body, head, -⟩ := readString_printString printed []
      exact ⟨quote, body, head, by decide⟩
  | arr items =>
      rw [print] at printed
      obtain ⟨body, -, rfl⟩ := Option.map_eq_some_iff.mp printed
      exact ⟨_, _, rfl, by decide⟩
  | obj members =>
      rw [print] at printed
      obtain ⟨body, -, rfl⟩ := Option.map_eq_some_iff.mp printed
      exact ⟨_, _, rfl, by decide⟩

/-- What a non-empty array starts with after its bracket. -/
theorem printItems_head {items : List Json} {text : Bytes} (nonempty : items ≠ [])
    (printed : printItems items = some text) :
    ∃ octet tail, text = octet :: tail ∧ octet ≠ closeBracket := by
  match items, nonempty, printed with
  | [item], _, printed =>
      rw [printItems] at printed
      obtain ⟨start, written, rfl⟩ := Option.map_eq_some_iff.mp printed
      obtain ⟨octet, rest, rfl, other⟩ := print_head written
      exact ⟨octet, _, rfl, other⟩
  | item :: next :: items, _, printed =>
      rw [printItems] at printed
      simp only [Option.bind_eq_bind, Option.bind_eq_some_iff] at printed
      obtain ⟨start, written, tail, -, same⟩ := printed
      cases same
      obtain ⟨octet, rest, rfl, other⟩ := print_head written
      exact ⟨octet, _, rfl, other⟩

/-- What a non-empty object starts with after its brace. -/
theorem printMembers_head {members : List (Bytes × Json)} {text : Bytes}
    (nonempty : members ≠ []) (printed : printMembers members = some text) :
    ∃ tail, text = quote :: tail := by
  match members, nonempty, printed with
  | [(key, value)], _, printed =>
      rw [printMembers] at printed
      simp only [Option.bind_eq_bind, Option.bind_eq_some_iff] at printed
      obtain ⟨name, written, _, -, same⟩ := printed
      cases same
      obtain ⟨body, rfl, -⟩ := readString_printString written []
      exact ⟨_, rfl⟩
  | (key, value) :: next :: members, _, printed =>
      rw [printMembers] at printed
      simp only [Option.bind_eq_bind, Option.bind_eq_some_iff] at printed
      obtain ⟨name, written, _, -, _, -, same⟩ := printed
      cases same
      obtain ⟨body, rfl, -⟩ := readString_printString written []
      exact ⟨_, rfl⟩

theorem insertMember_first {member : Bytes × Json} {members : List (Bytes × Json)}
    (smaller : ∀ other ∈ members, member.1 < other.1) :
    insertMember member members = member :: members := by
  cases members with
  | nil => rfl
  | cons other members => rw [insertMember, if_pos (smaller other List.mem_cons_self)]


theorem readValue_items {fuel : Nat} {octet : UInt8} {rest : Bytes}
    (other : octet ≠ closeBracket) :
    readValue (fuel + 1) (openBracket :: octet :: rest) =
      (readItems fuel (octet :: rest)).map fun (items, rest) => (.arr items, rest) := by
  simp [readValue, openBracket, quote, other]

theorem readValue_members {fuel : Nat} {rest : Bytes} :
    readValue (fuel + 1) (openBrace :: quote :: rest) =
      (readMembers fuel (quote :: rest)).map fun (members, rest) => (.obj members, rest) := by
  simp [readValue, openBrace, openBracket, closeBrace, quote]

/-- Reading a value back from its text, whatever follows it. -/
def RoundTrips (json : Json) : Prop :=
  ∀ text, print json = some text → ∀ rest, Quiet rest → ∀ fuel, text.length ≤ fuel + 1 →
    readValue (fuel + 1) (text ++ rest) = some (json, rest)

theorem quiet_cons (octet : UInt8) (other : isDigit octet = false) (rest : Bytes) :
    Quiet (octet :: rest) := by
  simpa [Quiet] using other

theorem readItems_printItems {items : List Json} (each : ∀ item ∈ items, RoundTrips item)
    (nonempty : items ≠ []) {text : Bytes} (printed : printItems items = some text)
    (rest : Bytes) {fuel : Nat} (enough : text.length ≤ fuel + 1) :
    readItems (fuel + 1) (text ++ rest) = some (items, rest) := by
  induction items generalizing text fuel with
  | nil => contradiction
  | cons item items ih =>
      have first := each item List.mem_cons_self
      cases items with
      | nil =>
          rw [printItems] at printed
          obtain ⟨start, written, rfl⟩ := Option.map_eq_some_iff.mp printed
          obtain ⟨octet, tail, rfl, -⟩ := print_head written
          obtain ⟨fuel, rfl⟩ : ∃ smaller, fuel = smaller + 1 :=
            Nat.exists_eq_add_one_of_ne_zero (by simp at enough; omega)
          have parsed := first _ written _ (quiet_cons closeBracket rfl rest)
            fuel (by simp at enough ⊢; omega)
          rw [List.append_assoc, List.singleton_append, readItems, parsed]
          simp
      | cons next items =>
          rw [printItems] at printed
          simp only [Option.bind_eq_bind, Option.bind_eq_some_iff] at printed
          obtain ⟨start, written, others, writtenOthers, same⟩ := printed
          cases same
          obtain ⟨octet, tail, rfl, -⟩ := print_head written
          obtain ⟨fuel, rfl⟩ : ∃ smaller, fuel = smaller + 1 :=
            Nat.exists_eq_add_one_of_ne_zero (by simp at enough; omega)
          have parsed := first _ written _ (quiet_cons comma rfl (others ++ rest))
            fuel (by simp at enough ⊢; omega)
          have enoughOthers : others.length ≤ fuel + 1 := by simp at enough; omega
          have parsedOthers := ih (fun item member => each item (List.mem_cons_of_mem _ member))
            (List.cons_ne_nil _ _) writtenOthers enoughOthers
          rw [List.append_assoc, List.cons_append (a := comma), readItems, parsed]
          simp [comma, closeBracket, parsedOthers]

theorem readMembers_printMembers {members : List (Bytes × Json)}
    (sorted : members.Pairwise fun left right => left.1 < right.1)
    (each : ∀ member ∈ members, RoundTrips member.2) (nonempty : members ≠ [])
    {text : Bytes} (printed : printMembers members = some text) (rest : Bytes) {fuel : Nat}
    (enough : text.length ≤ fuel + 1) :
    readMembers (fuel + 1) (text ++ rest) = some (members, rest) := by
  induction members generalizing text fuel with
  | nil => contradiction
  | cons member members ih =>
      obtain ⟨key, value⟩ := member
      have first := each (key, value) List.mem_cons_self
      cases members with
      | nil =>
          rw [printMembers] at printed
          simp only [Option.bind_eq_bind, Option.bind_eq_some_iff] at printed
          obtain ⟨name, writtenName, body, written, same⟩ := printed
          cases same
          obtain ⟨tail, rfl, parsedName⟩ := readString_printString writtenName
            (colon :: (body ++ closeBrace :: rest))
          obtain ⟨fuel, rfl⟩ : ∃ smaller, fuel = smaller + 1 :=
            Nat.exists_eq_add_one_of_ne_zero (by simp at enough; omega)
          have parsed := first _ written _ (quiet_cons closeBrace rfl rest)
            fuel (by simp at enough; omega)
          simp only [List.cons_append, List.append_assoc, List.nil_append, readMembers,
            parsedName, parsed, if_true]
      | cons next members =>
          rw [printMembers] at printed
          simp only [Option.bind_eq_bind, Option.bind_eq_some_iff] at printed
          obtain ⟨name, writtenName, body, written, others, writtenOthers, same⟩ := printed
          cases same
          obtain ⟨tail, rfl, parsedName⟩ := readString_printString writtenName
            (colon :: (body ++ comma :: (others ++ rest)))
          obtain ⟨fuel, rfl⟩ : ∃ smaller, fuel = smaller + 1 :=
            Nat.exists_eq_add_one_of_ne_zero (by simp at enough; omega)
          have parsed := first _ written _ (quiet_cons comma rfl (others ++ rest))
            fuel (by simp at enough; omega)
          have enoughOthers : others.length ≤ fuel + 1 := by simp at enough; omega
          obtain ⟨smallest, restSorted⟩ := List.pairwise_cons.mp sorted
          have parsedOthers := ih restSorted
            (fun member isMember => each member (List.mem_cons_of_mem _ isMember))
            (List.cons_ne_nil _ _) writtenOthers enoughOthers
          have ordered := insertMember_first smallest
          have notClosing : comma ≠ closeBrace := by decide
          simp only [List.cons_append, List.append_assoc, readMembers, parsedName, parsed,
            parsedOthers, if_true, if_neg notClosing, Option.map_some, ordered]

theorem readValue_print {json : Json} (textual : json.Textual) : RoundTrips json := by
  induction textual with
  | null =>
      intro text printed rest _ fuel _
      cases printed
      have word := readWord_append (bytes "ull") rest
      rw [show bytes "null" = 0x6E :: bytes "ull" from rfl, List.cons_append]
      simp [readValue, word, quote, openBracket, openBrace]
  | bool value =>
      intro text printed rest _ fuel _
      cases value with
      | true =>
          cases printed
          have word := readWord_append (bytes "rue") rest
          rw [show bytes "true" = 0x74 :: bytes "rue" from rfl, List.cons_append]
          simp [readValue, word, quote, openBracket, openBrace]
      | false =>
          cases printed
          have word := readWord_append (bytes "alse") rest
          rw [show bytes "false" = 0x66 :: bytes "alse" from rfl, List.cons_append]
          simp [readValue, word, quote, openBracket, openBrace]
  | int value =>
      intro text printed rest quiet fuel _
      rw [print] at printed
      cases printed
      have parsed := readInt_printInt value quiet
      obtain ⟨octet, tail, head, start⟩ := printInt_head value
      have other : octet ≠ quote ∧ octet ≠ openBracket ∧ octet ≠ openBrace ∧
          octet ≠ 0x6E ∧ octet ≠ 0x74 ∧ octet ≠ 0x66 := by
        refine ⟨?_, ?_, ?_, ?_, ?_, ?_⟩ <;> rintro rfl <;> exact absurd start (by decide)
      rw [head, List.cons_append] at parsed ⊢
      simp [readValue, other, parsed]
  | str valid =>
      intro text printed rest _ fuel _
      rw [print] at printed
      obtain ⟨body, rfl, parsed⟩ := readString_printString printed rest
      simp [readValue, parsed]
  | @arr items _ each =>
      intro text printed rest _ fuel enough
      rw [print] at printed
      obtain ⟨body, written, rfl⟩ := Option.map_eq_some_iff.mp printed
      by_cases empty : items = []
      · subst empty
        cases written
        simp [readValue, openBracket, quote]
      · obtain ⟨octet, tail, rfl, other⟩ := printItems_head empty written
        obtain ⟨fuel, rfl⟩ : ∃ smaller, fuel = smaller + 1 :=
          Nat.exists_eq_add_one_of_ne_zero (by simp at enough; omega)
        have parsed := readItems_printItems each empty written rest
          (Nat.le_of_succ_le_succ enough)
        rw [List.cons_append, List.cons_append, readValue_items other, ← List.cons_append,
          parsed]
        rfl
  | @obj members sorted _ _ each =>
      intro text printed rest _ fuel enough
      rw [print] at printed
      obtain ⟨body, written, rfl⟩ := Option.map_eq_some_iff.mp printed
      by_cases empty : members = []
      · subst empty
        cases written
        simp [readValue, openBrace, openBracket, quote]
      · obtain ⟨tail, rfl⟩ := printMembers_head empty written
        obtain ⟨fuel, rfl⟩ : ∃ smaller, fuel = smaller + 1 :=
          Nat.exists_eq_add_one_of_ne_zero (by simp at enough; omega)
        have parsed := readMembers_printMembers sorted each empty written rest
          (Nat.le_of_succ_le_succ enough)
        rw [List.cons_append, List.cons_append, readValue_members, ← List.cons_append, parsed]
        rfl


/-! ## The laws -/

theorem newline_not_mem_printString {text printed : Bytes}
    (written : printString text = some printed) : Codec.newline ∉ printed := by
  rw [printString] at written
  split at written
  next =>
    cases written
    simp only [List.cons_append, List.mem_cons, List.mem_append, escape, List.mem_flatMap,
      List.not_mem_nil, or_false, not_or, not_exists, not_and]
    exact ⟨by decide, fun octet _ => newline_not_mem_escapeOctet octet, by decide⟩
  next => cases written

theorem newline_not_mem_printInt (value : Int) : Codec.newline ∉ printInt value := by
  have digits : ∀ value, Codec.newline ∉ printNat value := fun value member =>
    absurd (isDigit_of_mem_printNat member) (by decide)
  cases value with
  | ofNat value => exact digits value
  | negSucc value =>
      rw [printInt, List.mem_cons, not_or]
      exact ⟨by decide, digits _⟩

mutual

theorem newline_not_mem_print : (json : Json) → {text : Bytes} → print json = some text →
    Codec.newline ∉ text
  | .null, text, printed => by cases printed; decide
  | .bool true, text, printed => by cases printed; decide
  | .bool false, text, printed => by cases printed; decide
  | .int value, text, printed => by
      cases printed
      exact newline_not_mem_printInt value
  | .str content, text, printed => newline_not_mem_printString printed
  | .arr items, text, printed => by
      obtain ⟨body, written, rfl⟩ := Option.map_eq_some_iff.mp printed
      rw [List.mem_cons, not_or]
      exact ⟨by decide, newline_not_mem_printItems items written⟩
  | .obj members, text, printed => by
      obtain ⟨body, written, rfl⟩ := Option.map_eq_some_iff.mp printed
      rw [List.mem_cons, not_or]
      exact ⟨by decide, newline_not_mem_printMembers members written⟩

theorem newline_not_mem_printItems : (items : List Json) → {text : Bytes} →
    printItems items = some text → Codec.newline ∉ text
  | [], text, printed => by cases printed; decide
  | [item], text, printed => by
      obtain ⟨start, written, rfl⟩ := Option.map_eq_some_iff.mp printed
      rw [List.mem_append, not_or]
      exact ⟨newline_not_mem_print item written, by decide⟩
  | item :: next :: items, text, printed => by
      rw [printItems] at printed
      simp only [Option.bind_eq_bind, Option.bind_eq_some_iff] at printed
      obtain ⟨start, written, others, writtenOthers, same⟩ := printed
      cases same
      rw [List.mem_append, List.mem_cons, not_or, not_or]
      exact ⟨newline_not_mem_print item written, by decide,
        newline_not_mem_printItems (next :: items) writtenOthers⟩

theorem newline_not_mem_printMembers : (members : List (Bytes × Json)) → {text : Bytes} →
    printMembers members = some text → Codec.newline ∉ text
  | [], text, printed => by cases printed; decide
  | [(key, value)], text, printed => by
      rw [printMembers] at printed
      simp only [Option.bind_eq_bind, Option.bind_eq_some_iff] at printed
      obtain ⟨name, writtenName, body, written, same⟩ := printed
      cases same
      simp only [List.mem_append, List.mem_cons, not_or]
      exact ⟨⟨newline_not_mem_printString writtenName, by decide,
        newline_not_mem_print value written⟩, by decide⟩
  | (key, value) :: next :: members, text, printed => by
      rw [printMembers] at printed
      simp only [Option.bind_eq_bind, Option.bind_eq_some_iff] at printed
      obtain ⟨name, writtenName, body, written, others, writtenOthers, same⟩ := printed
      cases same
      simp only [List.mem_append, List.mem_cons, not_or]
      exact ⟨⟨newline_not_mem_printString writtenName, by decide,
        newline_not_mem_print value written⟩, by decide,
        newline_not_mem_printMembers (next :: members) writtenOthers⟩

end

theorem valid_of_printString {text printed : Bytes}
    (written : printString text = some printed) : Utf8.valid text = true := by
  rw [printString] at written
  split at written
  next valid => exact valid
  next => cases written

mutual

/-- Only well-formed values are written. -/
theorem wellFormed_of_print : (json : Json) → {text : Bytes} → print json = some text →
    json.WellFormed
  | .null, _, _ => .null
  | .bool value, _, _ => .bool value
  | .int value, _, _ => .int value
  | .str _, _, printed => .str (valid_of_printString printed)
  | .arr items, text, printed => by
      rcases Option.map_eq_some_iff.mp printed with ⟨body, written, -⟩
      exact .arr (wellFormed_of_printItems items written)
  | .obj members, text, printed => by
      rcases Option.map_eq_some_iff.mp printed with ⟨body, written, -⟩
      rcases wellFormed_of_printMembers members written with ⟨names, values⟩
      exact .obj names values

theorem wellFormed_of_printItems : (items : List Json) → {text : Bytes} →
    printItems items = some text → ∀ item ∈ items, item.WellFormed
  | [], _, _ => List.forall_mem_nil _
  | [item], text, printed => by
      rcases Option.map_eq_some_iff.mp printed with ⟨start, written, -⟩
      exact List.forall_mem_singleton.mpr (wellFormed_of_print item written)
  | item :: next :: items, text, printed => by
      rw [printItems] at printed
      simp only [Option.bind_eq_bind, Option.bind_eq_some_iff] at printed
      rcases printed with ⟨start, written, others, writtenOthers, -⟩
      exact List.forall_mem_cons.mpr ⟨wellFormed_of_print item written,
        wellFormed_of_printItems (next :: items) writtenOthers⟩

theorem wellFormed_of_printMembers : (members : List (Bytes × Json)) → {text : Bytes} →
    printMembers members = some text →
      (∀ member ∈ members, Utf8.valid member.1 = true) ∧
        ∀ member ∈ members, member.2.WellFormed
  | [], _, _ => ⟨List.forall_mem_nil _, List.forall_mem_nil _⟩
  | [(key, value)], text, printed => by
      rw [printMembers] at printed
      simp only [Option.bind_eq_bind, Option.bind_eq_some_iff] at printed
      rcases printed with ⟨name, writtenName, body, written, -⟩
      exact ⟨List.forall_mem_singleton.mpr (valid_of_printString writtenName),
        List.forall_mem_singleton.mpr (wellFormed_of_print value written)⟩
  | (key, value) :: next :: members, text, printed => by
      rw [printMembers] at printed
      simp only [Option.bind_eq_bind, Option.bind_eq_some_iff] at printed
      rcases printed with ⟨name, writtenName, body, written, others, writtenOthers, -⟩
      rcases wellFormed_of_printMembers (next :: members) writtenOthers with ⟨names, values⟩
      exact ⟨List.forall_mem_cons.mpr ⟨valid_of_printString writtenName, names⟩,
        List.forall_mem_cons.mpr ⟨wellFormed_of_print value written, values⟩⟩

end

theorem printItems_isSome {items : List Json}
    (each : ∀ item ∈ items, (print item).isSome = true) : (printItems items).isSome = true := by
  induction items with
  | nil => rfl
  | cons item items ih =>
      obtain ⟨start, written⟩ := Option.isSome_iff_exists.mp (each item List.mem_cons_self)
      cases items with
      | nil => simp [printItems, written]
      | cons next items =>
          obtain ⟨others, writtenOthers⟩ := Option.isSome_iff_exists.mp
            (ih fun item member => each item (List.mem_cons_of_mem _ member))
          simp [printItems, written, writtenOthers]

theorem printMembers_isSome {members : List (Bytes × Json)}
    (names : ∀ member ∈ members, Utf8.valid member.1 = true)
    (each : ∀ member ∈ members, (print member.2).isSome = true) :
    (printMembers members).isSome = true := by
  induction members with
  | nil => rfl
  | cons member members ih =>
      obtain ⟨key, value⟩ := member
      have name : printString key = some (quote :: escape key ++ [quote]) :=
        if_pos (names (key, value) List.mem_cons_self)
      obtain ⟨body, written⟩ := Option.isSome_iff_exists.mp (each (key, value) List.mem_cons_self)
      cases members with
      | nil => simp [printMembers, name, written]
      | cons next members =>
          obtain ⟨others, writtenOthers⟩ := Option.isSome_iff_exists.mp
            (ih (fun member isMember => names member (List.mem_cons_of_mem _ isMember))
              fun member isMember => each member (List.mem_cons_of_mem _ isMember))
          simp [printMembers, name, written, writtenOthers]

theorem print_isSome {json : Json} (textual : json.Textual) : (print json).isSome = true := by
  induction textual with
  | null => rfl
  | bool value => cases value <;> rfl
  | int value => rfl
  | str valid => simp [print, printString, valid]
  | arr _ each => simpa [print] using printItems_isSome each
  | obj _ names _ each => simpa [print] using printMembers_isSome names each

theorem read_print {json : Json} (textual : json.Textual) {text : Bytes}
    (printed : print json = some text) : read text = some json := by
  obtain ⟨octet, tail, rfl, -⟩ := print_head printed
  have parsed := readValue_print textual _ printed [] (by simp [Quiet]) tail.length
    (by simp)
  rw [List.append_nil] at parsed
  rw [read, List.length_cons, parsed]

/-! ## What is read is well-formed -/

theorem valid_of_readString {text content rest : Bytes}
    (parsed : readString text = some (content, rest)) : Utf8.valid content = true := by
  simp only [readString, Option.bind_eq_bind, Option.bind_eq_some_iff] at parsed
  rcases parsed with ⟨⟨content', rest'⟩, -, checked⟩
  dsimp only at checked
  split at checked
  next valid =>
    cases checked
    exact valid
  next => cases checked

/-- A member whose key is well-formed, and whose value is. -/
def WellFormedMember (member : Bytes × Json) : Prop :=
  Utf8.valid member.1 = true ∧ member.2.WellFormed

theorem insertMember_wellFormed {member : Bytes × Json} {members : List (Bytes × Json)}
    (first : WellFormedMember member) (others : ∀ other ∈ members, WellFormedMember other) :
    ∀ other ∈ insertMember member members, WellFormedMember other := by
  induction members with
  | nil => exact List.forall_mem_singleton.mpr first
  | cons next members ih =>
      rw [List.forall_mem_cons] at others
      rw [insertMember]
      split
      · exact List.forall_mem_cons.mpr ⟨first, List.forall_mem_cons.mpr others⟩
      · split
        · exact List.forall_mem_cons.mpr others
        · exact List.forall_mem_cons.mpr ⟨others.1, ih others.2⟩

/-- The readers with some fuel read well-formed values. -/
structure ReadsWellFormed (fuel : Nat) : Prop where
  value : ∀ {text json rest}, readValue fuel text = some (json, rest) → json.WellFormed
  items : ∀ {text items rest}, readItems fuel text = some (items, rest) →
    ∀ item ∈ items, item.WellFormed
  members : ∀ {text members rest}, readMembers fuel text = some (members, rest) →
    ∀ member ∈ members, WellFormedMember member

namespace ReadsWellFormed

variable {fuel : Nat} (reads : ReadsWellFormed fuel)

include reads

theorem readValue {text rest : Bytes} {json : Json}
    (parsed : readValue (fuel + 1) text = some (json, rest)) : json.WellFormed := by
  cases text with
  | nil => simp [JsonText.readValue] at parsed
  | cons octet text =>
      rw [JsonText.readValue] at parsed
      split at parsed
      · rcases Option.map_eq_some_iff.mp parsed with ⟨⟨content, rest'⟩, read, built⟩
        cases built
        exact .str (valid_of_readString read)
      split at parsed
      · split at parsed
        · cases parsed
          exact .arr (List.forall_mem_nil _)
        · rcases Option.map_eq_some_iff.mp parsed with ⟨⟨items, rest'⟩, read, built⟩
          cases built
          exact .arr (reads.items read)
      split at parsed
      · split at parsed
        · cases parsed
          exact .ofMembers (List.forall_mem_nil _)
        · rcases Option.map_eq_some_iff.mp parsed with ⟨⟨members, rest'⟩, read, built⟩
          cases built
          exact .ofMembers (reads.members read)
      split at parsed
      · rcases Option.map_eq_some_iff.mp parsed with ⟨rest', -, built⟩
        cases built
        exact .null
      split at parsed
      · rcases Option.map_eq_some_iff.mp parsed with ⟨rest', -, built⟩
        cases built
        exact .bool true
      split at parsed
      · rcases Option.map_eq_some_iff.mp parsed with ⟨rest', -, built⟩
        cases built
        exact .bool false
      · rcases Option.map_eq_some_iff.mp parsed with ⟨⟨value, rest'⟩, -, built⟩
        cases built
        exact .int value

theorem readItems {text rest : Bytes} {items : List Json}
    (parsed : readItems (fuel + 1) text = some (items, rest)) :
    ∀ item ∈ items, item.WellFormed := by
  rw [JsonText.readItems] at parsed
  split at parsed
  next item octet rest' read =>
    split at parsed
    · cases parsed
      exact List.forall_mem_singleton.mpr (reads.value read)
    split at parsed
    · rcases Option.map_eq_some_iff.mp parsed with ⟨⟨others, rest''⟩, readOthers, built⟩
      cases built
      exact List.forall_mem_cons.mpr ⟨reads.value read, reads.items readOthers⟩
    · cases parsed
  next => cases parsed

theorem readMembers {text rest : Bytes} {members : List (Bytes × Json)}
    (parsed : readMembers (fuel + 1) text = some (members, rest)) :
    ∀ member ∈ members, WellFormedMember member := by
  cases text with
  | nil => simp [JsonText.readMembers] at parsed
  | cons octet text =>
      rw [JsonText.readMembers] at parsed
      split at parsed
      · split at parsed
        next key octet rest' readKey =>
          split at parsed
          · split at parsed
            next value octet rest'' read =>
              have first : WellFormedMember (key, value) :=
                ⟨valid_of_readString readKey, reads.value read⟩
              split at parsed
              · cases parsed
                exact List.forall_mem_singleton.mpr first
              split at parsed
              · rcases Option.map_eq_some_iff.mp parsed with ⟨⟨others, rest⟩, readOthers, built⟩
                cases built
                exact insertMember_wellFormed first (reads.members readOthers)
              · cases parsed
            next => cases parsed
          · cases parsed
        next => cases parsed
      · cases parsed

end ReadsWellFormed

/-- By induction on the fuel, which the three readers share. -/
theorem reads_wellFormed (fuel : Nat) : ReadsWellFormed fuel := by
  induction fuel with
  | zero =>
      constructor
      · intro text json rest parsed
        cases text <;> simp [readValue] at parsed
      · intro text items rest parsed
        simp [readItems] at parsed
      · intro text members rest parsed
        simp [readMembers] at parsed
  | succ fuel reads => exact ⟨reads.readValue, reads.readItems, reads.readMembers⟩

theorem read_wellFormed {text : Bytes} {json : Json} (parsed : read text = some json) :
    json.WellFormed := by
  rw [read] at parsed
  split at parsed
  next value found =>
    cases parsed
    exact (reads_wellFormed _).value found
  next => cases parsed

/-- The reference format is written on one line and read back. -/
theorem reference_lawful : reference.Lawful where
  parse_nil := rfl
  dump_isSome _ textual := print_isSome textual
  wellFormed json _ printed := wellFormed_of_print json printed
  newline_not_mem json _ printed := newline_not_mem_print json printed
  parse_dump _ _ textual printed := read_print textual printed

/-! ## Fractions -/

mutual

/-- A value without what is behind the point of its numbers. -/
def integral : Json → Json
  | .real value => .int value.floor
  | .arr items => .arr (integralItems items)
  | .obj members => .obj (integralMembers members)
  | json => json

def integralItems : List Json → List Json
  | [] => []
  | item :: items => integral item :: integralItems items

def integralMembers : List (Bytes × Json) → List (Bytes × Json)
  | [] => []
  | (key, value) :: members => (key, integral value) :: integralMembers members

end

theorem integralItems_eq_map (items : List Json) : integralItems items = items.map integral := by
  induction items with
  | nil => rfl
  | cons item items ih => rw [integralItems, ih, List.map_cons]

theorem integralMembers_eq_map (members : List (Bytes × Json)) :
    integralMembers members = members.map fun member => (member.1, integral member.2) := by
  induction members with
  | nil => rfl
  | cons member members ih => rw [integralMembers, ih, List.map_cons]

theorem print_integral_isSome {json : Json} (wellFormed : json.WellFormed) :
    (print (integral json)).isSome = true := by
  induction wellFormed with
  | null => rfl
  | bool value => cases value <;> rfl
  | int value => rfl
  | real value => rfl
  | str valid => simp [integral, print, printString, valid]
  | arr _ each =>
      rw [integral, print, Option.isSome_map, integralItems_eq_map]
      exact printItems_isSome (List.forall_mem_map.mpr each)
  | obj names _ each =>
      rw [integral, print, Option.isSome_map, integralMembers_eq_map]
      exact printMembers_isSome (List.forall_mem_map.mpr names) (List.forall_mem_map.mpr each)

mutual

theorem wellFormed_of_integral : (json : Json) → (integral json).WellFormed → json.WellFormed
  | .null, _ => .null
  | .bool value, _ => .bool value
  | .int value, _ => .int value
  | .real value, _ => .real value
  | .str _, wellFormed => .str wellFormed.valid
  | .arr items, wellFormed => by
      rw [integral] at wellFormed
      cases wellFormed with
      | arr each => exact .arr (wellFormed_of_integralItems items each)
  | .obj members, wellFormed => by
      rw [integral] at wellFormed
      cases wellFormed with
      | obj names values =>
          exact .ofMembers (wellFormed_of_integralMembers members
            fun member isMember => ⟨names member isMember, values member isMember⟩)

theorem wellFormed_of_integralItems : (items : List Json) →
    (∀ item ∈ integralItems items, item.WellFormed) → ∀ item ∈ items, item.WellFormed
  | [], _ => List.forall_mem_nil _
  | item :: items, each => by
      rw [integralItems, List.forall_mem_cons] at each
      exact List.forall_mem_cons.mpr
        ⟨wellFormed_of_integral item each.1, wellFormed_of_integralItems items each.2⟩

theorem wellFormed_of_integralMembers : (members : List (Bytes × Json)) →
    (∀ member ∈ integralMembers members, WellFormedMember member) →
      ∀ member ∈ members, WellFormedMember member
  | [], _ => List.forall_mem_nil _
  | (key, value) :: members, each => by
      rw [integralMembers, List.forall_mem_cons] at each
      exact List.forall_mem_cons.mpr ⟨⟨each.1.1, wellFormed_of_integral value each.1.2⟩,
        wellFormed_of_integralMembers members each.2⟩

end

/-- The reference format, which drops what is behind the point when it writes. -/
def whole : Codec where
  parse := read
  dump json := print (integral json)

theorem whole_sound : whole.Sound where
  parse _ _ parsed := read_wellFormed parsed
  dump json := by
    constructor
    · intro written
      rcases Option.isSome_iff_exists.mp written with ⟨text, printed⟩
      exact wellFormed_of_integral json (wellFormed_of_print _ printed)
    · exact print_integral_isSome

end Cllama.Library.JsonText
