import Cllama.Api.TranscriptShape
import Cllama.Library.JsonLiteral

/-!
# The error event of the cpprest router

The cpprest router puts its error events together from text, with an escaping function of its
own, which the oatpp router has as well.  The event is the one that a JSON library would have
written.
-/

namespace Cllama.Api

open Cllama.Library

/-- `%04x`: hexadecimal digits in lower case, with leading zeros up to four. -/
def format04x (value : Nat) : Bytes :=
  let digits := (Nat.toDigits 16 value).flatMap String.utf8EncodeChar
  List.replicate (4 - digits.length) 0x30 ++ digits

/-- One character of `escape_json`.  The buffer of `snprintf` has eight characters. -/
def escapeJsonChar (c : UInt8) : Bytes :=
  if c = 0x22 then bytes "\\\""
  else if c = 0x5C then bytes "\\\\"
  else if c = 0x08 then bytes "\\b"
  else if c = 0x0C then bytes "\\f"
  else if c = 0x0A then bytes "\\n"
  else if c = 0x0D then bytes "\\r"
  else if c = 0x09 then bytes "\\t"
  else if c < 0x20 then (bytes "\\u" ++ format04x c.toNat).take 7
  else [c]

def escapeJson (s : Bytes) : Bytes :=
  s.foldl (fun out c => out ++ escapeJsonChar c) []

/-- What the router writes when a stream ends with an error. -/
def errorText (message : Bytes) : Bytes :=
  bytes "data: \x7b\"error\":\"" ++ escapeJson message ++ bytes "\"\x7d\n\n"

theorem escapeJsonChar_eq : ∀ c : UInt8, escapeJsonChar c = JsonText.escapeOctet c :=
  JsonText.forall_octet (by decide +kernel)

theorem escapeJson_eq_escape (s : Bytes) : escapeJson s = JsonText.escape s := by
  have collected : ∀ out : Bytes,
      s.foldl (fun out c => out ++ escapeJsonChar c) out = out ++ JsonText.escape s := by
    induction s with
    | nil => simp [JsonText.escape]
    | cons c s ih =>
        intro out
        rw [List.foldl_cons, ih, escapeJsonChar_eq, List.append_assoc]
        rfl
  exact collected []

theorem print_errorEvent {message : Bytes} (valid : Utf8.valid message = true) :
    JsonText.print (errorEvent message) =
      some (bytes "\x7b\"error\":\"" ++ JsonText.escape message ++ bytes "\"\x7d") := by
  have key : JsonText.printString (bytes "error") = some (bytes "\"error\"") := by decide
  have value : JsonText.printString message =
      some (JsonText.quote :: JsonText.escape message ++ [JsonText.quote]) := if_pos valid
  have opening : bytes "\x7b\"error\":\"" =
      JsonText.openBrace :: (bytes "\"error\"" ++ [JsonText.colon, JsonText.quote]) := by decide
  have closing : bytes "\"\x7d" = [JsonText.quote, JsonText.closeBrace] := by decide
  rw [errorEvent, JsonText.print, JsonText.printMembers, key, JsonText.print, value, opening,
    closing]
  simp

/-- What a message becomes between quotes and in a stream. -/
structure ErrorDecodes (message : Bytes) : Prop where
  literal : JsonLiteral.Literal (0x22 :: (escapeJson message ++ [0x22])) message
  only : ∀ text, JsonLiteral.Literal (0x22 :: (escapeJson message ++ [0x22])) text →
    text = message
  printable : ∀ octet ∈ escapeJson message, 0x20 ≤ octet
  event : ∃ data, JsonText.read data = some (errorEvent message) ∧
    ∀ before after : List Bytes, (∀ other ∈ before ++ after, Sse.newline ∉ other) →
      Sse.decode (before.flatMap Sse.event ++ (errorText message ++ after.flatMap Sse.event)) =
        before ++ data :: after

/-- For every well-formed text: between quotes, its escaped form is a string literal that
stands for it and for nothing else, and has no control characters.  Wherever the error event
stands in a stream, it is read back as one event with the message. -/
theorem escapeJson_decodes (message : Bytes) (valid : Utf8.valid message = true) :
    ErrorDecodes message := by
  have isLiteral : JsonLiteral.Literal (0x22 :: (escapeJson message ++ [0x22])) message := by
    rw [escapeJson_eq_escape]
    exact JsonLiteral.literal_escape valid
  have printed := print_errorEvent valid
  constructor
  · exact isLiteral
  · exact fun text others => isLiteral.unique others
  · rw [escapeJson_eq_escape]
    exact fun octet isMember => JsonLiteral.printable_escape isMember
  · refine ⟨_, JsonText.read_print (textual_errorEvent valid) printed, ?_⟩
    intro before after free
    have isEvent : errorText message = Sse.event
        (bytes "\x7b\"error\":\"" ++ JsonText.escape message ++ bytes "\"\x7d") := by
      have opening : bytes "data: \x7b\"error\":\"" =
          Sse.field ++ bytes "\x7b\"error\":\"" := by decide
      have closing : bytes "\"\x7d\n\n" =
          bytes "\"\x7d" ++ [Sse.newline, Sse.newline] := by decide
      rw [errorText, Sse.event, escapeJson_eq_escape, opening, closing]
      simp only [List.append_assoc]
    have oneLine := JsonText.newline_not_mem_print _ printed
    rw [isEvent, ← List.flatMap_cons, ← List.flatMap_append, Sse.decode_flatMap_event]
    simp only [List.forall_mem_append, List.forall_mem_cons] at free ⊢
    exact ⟨free.1, oneLine, free.2⟩

theorem escapeJson_decodes_control : ErrorDecodes (bytes "\n\"é" ++ [0x00]) :=
  escapeJson_decodes (bytes "\n\"é" ++ [0x00]) (by decide)

end Cllama.Api
