import Cllama.Library.Json
import Mathlib.Data.Nat.Digits.Lemmas

/-!
# A reference JSON text format

The compact text of a JSON value, and a parser for it.  The text is the one a C++ JSON
library writes without indentation: two-character escapes where they exist, `\u00xx`
for the other control characters, all other octets as they are.  Fractional numbers and
insignificant white space are outside this format.

`Cllama.Library.JsonTextLawful` proves that the format meets the laws a program relies on.
-/

namespace Cllama.Library.JsonText

/-! ## Octets with a meaning -/

def quote : UInt8 := 0x22
def backslash : UInt8 := 0x5C
def comma : UInt8 := 0x2C
def colon : UInt8 := 0x3A
def openBracket : UInt8 := 0x5B
def closeBracket : UInt8 := 0x5D
def openBrace : UInt8 := 0x7B
def closeBrace : UInt8 := 0x7D
def minus : UInt8 := 0x2D

/-! ## Writing -/

/-- A lower-case hexadecimal digit. -/
def hexDigit (value : Nat) : UInt8 :=
  if value < 10 then UInt8.ofNat (0x30 + value) else UInt8.ofNat (0x57 + value)

/-- One octet inside a string literal. -/
def escapeOctet (octet : UInt8) : Bytes :=
  if octet = quote then [backslash, quote]
  else if octet = backslash then [backslash, backslash]
  else if octet = 0x08 then [backslash, 0x62]
  else if octet = 0x0C then [backslash, 0x66]
  else if octet = 0x0A then [backslash, 0x6E]
  else if octet = 0x0D then [backslash, 0x72]
  else if octet = 0x09 then [backslash, 0x74]
  else if octet < 0x20 then
    [backslash, 0x75, 0x30, 0x30, hexDigit (octet.toNat / 16), hexDigit (octet.toNat % 16)]
  else [octet]

/-- The body of a string literal. -/
def escape (text : Bytes) : Bytes :=
  text.flatMap escapeOctet

/-- A string literal; text that is no UTF-8 cannot be written. -/
def printString (text : Bytes) : Option Bytes :=
  if Utf8.valid text = true then some (quote :: escape text ++ [quote]) else none

/-- Decimal digits, most significant first. -/
def printNat (value : Nat) : Bytes :=
  if value = 0 then [0x30]
  else (Nat.digits 10 value).reverse.map fun digit => UInt8.ofNat (0x30 + digit)

def printInt : Int → Bytes
  | .ofNat value => printNat value
  | .negSucc value => minus :: printNat (value + 1)

mutual

/-- The compact text of a value. -/
def print : Json → Option Bytes
  | .null => some (bytes "null")
  | .bool true => some (bytes "true")
  | .bool false => some (bytes "false")
  | .int value => some (printInt value)
  | .real _ => none
  | .str text => printString text
  | .arr items => (printItems items).map (openBracket :: ·)
  | .obj members => (printMembers members).map (openBrace :: ·)

/-- The items of an array, up to the closing bracket. -/
def printItems : List Json → Option Bytes
  | [] => some [closeBracket]
  | [item] => (print item).map (· ++ [closeBracket])
  | item :: next :: items => do
      let first ← print item
      let rest ← printItems (next :: items)
      return first ++ comma :: rest

/-- The members of an object, up to the closing brace. -/
def printMembers : List (Bytes × Json) → Option Bytes
  | [] => some [closeBrace]
  | [(key, value)] => do
      let name ← printString key
      let text ← print value
      return name ++ colon :: text ++ [closeBrace]
  | (key, value) :: next :: members => do
      let name ← printString key
      let text ← print value
      let rest ← printMembers (next :: members)
      return name ++ colon :: text ++ comma :: rest

end

/-! ## Reading -/

def hexValue (octet : UInt8) : Option Nat :=
  if 0x30 ≤ octet ∧ octet ≤ 0x39 then some (octet.toNat - 0x30)
  else if 0x61 ≤ octet ∧ octet ≤ 0x66 then some (octet.toNat - 0x57)
  else if 0x41 ≤ octet ∧ octet ≤ 0x46 then some (octet.toNat - 0x37)
  else none

/-- The code unit of four hexadecimal digits. -/
def hex4 (a b c d : UInt8) : Option Nat := do
  return (((← hexValue a) * 16 + (← hexValue b)) * 16 + (← hexValue c)) * 16 + (← hexValue d)

/-- The character of a two-character escape. -/
def unescapeOctet (octet : UInt8) : Option UInt8 :=
  if octet = quote ∨ octet = backslash ∨ octet = 0x2F then some octet
  else if octet = 0x62 then some 0x08
  else if octet = 0x66 then some 0x0C
  else if octet = 0x6E then some 0x0A
  else if octet = 0x72 then some 0x0D
  else if octet = 0x74 then some 0x09
  else none

/-- The UTF-8 octets of a code point outside the surrogate range. -/
def encodeUnit (unit : Nat) : Option Bytes :=
  if 0xD800 ≤ unit ∧ unit ≤ 0xDFFF then none
  else some (String.utf8EncodeChar (Char.ofNat unit))

/-- Read the rest of a string literal, past its closing quote. -/
def scanString : Bytes → Option (Bytes × Bytes)
  | [] => none
  | octet :: rest =>
      if octet = quote then some ([], rest)
      else if octet = backslash then
        match rest with
        | [] => none
        | escaped :: rest =>
            if escaped = 0x75 then
              match rest with
              | a :: b :: c :: d :: rest => do
                  let character ← encodeUnit (← hex4 a b c d)
                  let (text, rest) ← scanString rest
                  return (character ++ text, rest)
              | _ => none
            else do
              let character ← unescapeOctet escaped
              let (text, rest) ← scanString rest
              return (character :: text, rest)
      else if octet < 0x20 then none
      else do
        let (text, rest) ← scanString rest
        return (octet :: text, rest)

def readString (text : Bytes) : Option (Bytes × Bytes) := do
  let (content, rest) ← scanString text
  if Utf8.valid content = true then return (content, rest) else none

def isDigit (octet : UInt8) : Bool :=
  decide (0x30 ≤ octet) && decide (octet ≤ 0x39)

def readNat (text : Bytes) : Option (Nat × Bytes) :=
  if text.takeWhile isDigit = [] then none
  else some (Nat.ofDigits 10 ((text.takeWhile isDigit).reverse.map fun octet => octet.toNat - 0x30),
    text.dropWhile isDigit)

def readInt : Bytes → Option (Int × Bytes)
  | [] => none
  | octet :: rest =>
      if octet = minus then (readNat rest).map fun (value, rest) => (-(value : Int), rest)
      else (readNat (octet :: rest)).map fun (value, rest) => ((value : Int), rest)

/-- Read a fixed word. -/
def readWord (word text : Bytes) : Option Bytes :=
  if word <+: text then some (text.drop word.length) else none

/-- Put a member in front of members that follow it in the text.  Members are kept in
the order of their keys, and the later of two with one key wins. -/
def insertMember (member : Bytes × Json) : List (Bytes × Json) → List (Bytes × Json)
  | [] => [member]
  | other :: members =>
      if member.1 < other.1 then member :: other :: members
      else if member.1 = other.1 then other :: members
      else other :: insertMember member members

mutual

/-- Read one value; the fuel bounds the nesting of calls. -/
def readValue : Nat → Bytes → Option (Json × Bytes)
  | _, [] => none
  | 0, _ => none
  | fuel + 1, octet :: rest =>
      if octet = quote then (readString rest).map fun (text, rest) => (.str text, rest)
      else if octet = openBracket then
        if rest.head? = some closeBracket then some (.arr [], rest.tail)
        else (readItems fuel rest).map fun (items, rest) => (.arr items, rest)
      else if octet = openBrace then
        if rest.head? = some closeBrace then some (.obj [], rest.tail)
        else (readMembers fuel rest).map fun (members, rest) => (.obj members, rest)
      else if octet = 0x6E then (readWord (bytes "ull") rest).map fun rest => (.null, rest)
      else if octet = 0x74 then (readWord (bytes "rue") rest).map fun rest => (.bool true, rest)
      else if octet = 0x66 then
        (readWord (bytes "alse") rest).map fun rest => (.bool false, rest)
      else (readInt (octet :: rest)).map fun (value, rest) => (.int value, rest)

/-- Read the items of a non-empty array, past its closing bracket. -/
def readItems : Nat → Bytes → Option (List Json × Bytes)
  | 0, _ => none
  | fuel + 1, text =>
      match readValue fuel text with
      | some (item, octet :: rest) =>
          if octet = closeBracket then some ([item], rest)
          else if octet = comma then
            (readItems fuel rest).map fun (items, rest) => (item :: items, rest)
          else none
      | _ => none

/-- Read the members of a non-empty object, past its closing brace. -/
def readMembers : Nat → Bytes → Option (List (Bytes × Json) × Bytes)
  | 0, _ => none
  | _, [] => none
  | fuel + 1, octet :: text =>
      if octet = quote then
        match readString text with
        | some (key, octet :: rest) =>
            if octet = colon then
              match readValue fuel rest with
              | some (value, octet :: rest) =>
                  if octet = closeBrace then some ([(key, value)], rest)
                  else if octet = comma then
                    (readMembers fuel rest).map fun (members, rest) =>
                      (insertMember (key, value) members, rest)
                  else none
              | _ => none
            else none
        | _ => none
      else none

end

/-- Read a text that holds one value and nothing after it. -/
def read (text : Bytes) : Option Json :=
  match readValue text.length text with
  | some (json, []) => some json
  | _ => none

/-- The reference codec. -/
def reference : Codec where
  parse := read
  dump := print

example : reference.dump (.obj [(bytes "token", .str (bytes "a\n\"b"))]) =
    some (bytes "\x7b\"token\":\"a\\n\\\"b\"\x7d") := by decide +kernel

end Cllama.Library.JsonText
