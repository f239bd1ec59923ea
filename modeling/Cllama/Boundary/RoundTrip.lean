import Cllama.Core.NdjsonRecords
import Cllama.Library.JsonTextLawful
import Cllama.Runner.TokenStream

/-!
# From the runner's records to the manager's text

The content provider of the runner encodes pieces and a final text as records, one a
line; both parsers of the manager decode them.  Decoding is the inverse of encoding for
every cutting of the encoded bytes into chunks, and whatever the pieces contain, as long
as they are well-formed UTF-8: line feeds and quotes in a piece are escaped.
-/

namespace Cllama.Boundary

open Cllama.Library Cllama.Runner Cllama.Core RunnerMgr

variable {codec : Codec}

/-! ## Encoding -/

/-- The string of a record. -/
def content : Emitted → Bytes
  | .token piece => piece
  | .done text => text

theorem textual_json {record : Emitted} (valid : Utf8.valid (content record) = true) :
    record.json.Textual := by
  cases record with
  | token piece =>
      refine .obj (List.pairwise_singleton _ _) ?_ ?_
      · simp only [List.mem_singleton, forall_eq]
        decide
      · simp only [List.mem_singleton, forall_eq]
        exact .str valid
  | done text =>
      refine .obj ?_ ?_ ?_
      · simp only [List.pairwise_cons, List.mem_singleton, forall_eq]
        decide
      · simp only [List.mem_cons, List.not_mem_nil, or_false, forall_eq_or_imp, forall_eq]
        decide
      · simp only [List.mem_cons, List.not_mem_nil, or_false, forall_eq_or_imp, forall_eq]
        exact ⟨.bool true, .str valid⟩

/-- The line of a record, without its line feed, is one that parses to the record. -/
def Encodes (codec : Codec) (line : Bytes) (record : Emitted) : Prop :=
  line ≠ [] ∧ Codec.newline ∉ line ∧ codec.parse line = some record.json

theorem exists_line (lawful : codec.Lawful) (record : Emitted)
    (valid : Utf8.valid (content record) = true) :
    ∃ text, Encodes codec text record ∧
      record.line codec = some (text ++ [Codec.newline]) := by
  rcases lawful.exists_dump (textual_json valid) with ⟨text, dumped, nonempty, free, parsed⟩
  exact ⟨text, ⟨nonempty, free, parsed⟩, by rw [Emitted.line, dumped, Option.map_some]⟩

/-- Well-formed pieces are encoded on a line each. -/
theorem exists_lines (lawful : codec.Lawful) {pieces : List Bytes}
    (valid : ∀ piece ∈ pieces, Utf8.valid piece = true) :
    ∃ texts, List.Forall₂ (fun text piece => Encodes codec text (.token piece)) texts pieces ∧
      Emitted.lines codec (pieces.map .token) =
        some (texts.flatMap (· ++ [Codec.newline])) := by
  induction pieces using List.reverseRecOn with
  | nil => exact ⟨[], .nil, rfl⟩
  | append_singleton pieces piece ih =>
      rw [List.forall_mem_append, List.forall_mem_singleton] at valid
      rcases ih valid.1 with ⟨texts, encodes, written⟩
      rcases exists_line lawful (.token piece) valid.2 with ⟨text, encoded, line⟩
      refine ⟨texts ++ [text], List.rel_append encodes (.cons encoded .nil), ?_⟩
      rw [List.map_append, List.map_singleton, Emitted.lines_append_singleton written line]
      simp

theorem forall_free {texts pieces : List Bytes}
    (encodes : List.Forall₂ (fun text piece => Encodes codec text (.token piece)) texts pieces) :
    ∀ text ∈ texts, Codec.newline ∉ text := by
  induction encodes with
  | nil => exact fun text member => by cases member
  | cons encoded _ ih => exact List.forall_mem_cons.mpr ⟨encoded.2.1, ih⟩

/-! ## Decoding -/

theorem readValue_token (piece : Bytes) :
    readValue (Emitted.token piece).json = .ok ⟨some (.str piece), none⟩ := rfl

theorem readValue_done (text : Bytes) :
    readValue (Emitted.done text).json = .ok ⟨none, some (some text)⟩ := rfl

theorem readRecord_encoded {line : Bytes} {record : Emitted}
    (encoded : Encodes codec line record) : readRecord codec line = readValue record.json := by
  rw [readRecord, encoded.2.2]

/-- The streaming parser takes the line of a token record to the callback. -/
theorem streamParseLine_token {line piece : Bytes}
    (encoded : Encodes codec line (.token piece)) {ctx : StreamCtx}
    (continuing : ctx.onToken = some continueAlways) :
    streamParseLine codec line ctx = (true, { ctx with tokens := ctx.tokens ++ [piece] }) := by
  rcases ctx with ⟨leftover, fullText, gotError, errorMsg, gotDone, onToken, tokens⟩
  cases continuing
  have said := (readRecord_encoded encoded).trans (readValue_token piece)
  rw [streamParseLine, if_neg encoded.1, streamParseRecord_of_ok said]
  simp [StreamCtx.deliver, Json.getString, continueAlways, StreamCtx.finish, Record.finish]

theorem foldWhile_tokens {texts pieces : List Bytes}
    (encodes : List.Forall₂ (fun text piece => Encodes codec text (.token piece)) texts pieces)
    {ctx : StreamCtx} (continuing : ctx.onToken = some continueAlways) :
    Lines.foldWhile (streamParseLine codec) texts ctx =
      (true, { ctx with tokens := ctx.tokens ++ pieces }) := by
  induction encodes generalizing ctx with
  | nil => simp
  | @cons _ piece _ _ encoded _ ih =>
      have tail := @ih { ctx with tokens := ctx.tokens ++ [piece] } continuing
      rw [List.append_assoc, List.singleton_append] at tail
      rw [Lines.foldWhile_cons_continue (streamParseLine_token encoded continuing), tail]

/-- The line of a done record leaves its text, whatever the callback. -/
theorem streamParseLine_done {line text : Bytes}
    (encoded : Encodes codec line (.done text)) (ctx : StreamCtx) :
    streamParseLine codec line ctx = (true, { ctx with gotDone := true, fullText := text }) := by
  have said := (readRecord_encoded encoded).trans (readValue_done text)
  rw [streamParseLine, if_neg encoded.1, streamParseRecord_of_ok said]
  simp [StreamCtx.deliver, StreamCtx.finish, Record.finish]

theorem readLines_tokens {texts pieces : List Bytes}
    (encodes : List.Forall₂ (fun text piece => Encodes codec text (.token piece)) texts pieces)
    (text : Bytes) :
    readLines (readRecord codec) texts text = .ok text := by
  induction encodes with
  | nil => rfl
  | cons encoded _ ih =>
      rw [readLines, readLine, if_neg encoded.1, readRecord_encoded encoded, readValue_token]
      exact ih

/-! ## The round trip -/

/-- The lines of a whole response: one a piece, and that of the final text. -/
def EncodesAll (codec : Codec) (pieces : List Bytes) (text : Bytes) (texts : List Bytes) :
    Prop :=
  ∃ front last, texts = front ++ [last] ∧
    List.Forall₂ (fun text piece => Encodes codec text (.token piece)) front pieces ∧
    Encodes codec last (.done text)

theorem exists_encodesAll (lawful : codec.Lawful) {pieces : List Bytes} {text : Bytes}
    (piecesValid : ∀ piece ∈ pieces, Utf8.valid piece = true)
    (textValid : Utf8.valid text = true) :
    ∃ texts, EncodesAll codec pieces text texts ∧
      Emitted.lines codec (pieces.map .token ++ [.done text]) =
        some (texts.flatMap (· ++ [Codec.newline])) := by
  rcases exists_lines lawful piecesValid with ⟨front, encodes, written⟩
  rcases exists_line lawful (.done text) textValid with ⟨last, encoded, line⟩
  refine ⟨front ++ [last], ⟨front, last, rfl, encodes, encoded⟩, ?_⟩
  rw [Emitted.lines_append_singleton written line]
  simp

namespace EncodesAll

variable {pieces texts : List Bytes} {text : Bytes}

theorem split (encodes : EncodesAll codec pieces text texts) :
    Lines.split Codec.newline (texts.flatMap (· ++ [Codec.newline])) = (texts, []) := by
  rcases encodes with ⟨front, last, rfl, tokens, done⟩
  have free : ∀ text ∈ front ++ [last], Codec.newline ∉ text := by
    rw [List.forall_mem_append, List.forall_mem_singleton]
    exact ⟨forall_free tokens, done.2.1⟩
  have cut := Lines.split_flatMap free []
  rwa [List.append_nil, Lines.split_nil, List.append_nil] at cut

/-- The streaming parser hands over the pieces and holds the text. -/
theorem foldWhile (encodes : EncodesAll codec pieces text texts) :
    Lines.foldWhile (streamParseLine codec) texts (.fresh (some continueAlways)) =
      (true, ⟨[], text, false, [], true, some continueAlways, pieces⟩) := by
  rcases encodes with ⟨front, last, rfl, tokens, done⟩
  rw [Lines.foldWhile_append, foldWhile_tokens tokens rfl]
  exact Lines.foldWhile_cons_continue (streamParseLine_done done _)

theorem readLines (encodes : EncodesAll codec pieces text texts) :
    readLines (readRecord codec) texts [] = .ok text := by
  rcases encodes with ⟨front, last, rfl, tokens, done⟩
  have finished : readLine (readRecord codec) [] last = .ok text :=
    readLine_of_completes
      ⟨done.1, none, (readRecord_encoded done).trans (readValue_done text)⟩ []
  rw [readLines_append, readLines_tokens tokens]
  simp only [RunnerMgr.readLines, finished]

theorem bodyLines (encodes : EncodesAll codec pieces text texts) :
    bodyLines (texts.flatMap (· ++ [Codec.newline])) = texts := by
  rw [RunnerMgr.bodyLines, encodes.split, if_pos rfl, List.append_nil]

end EncodesAll

/-- The bytes written for some pieces and a final text are decoded to the same pieces and
text, by the streaming parser from any chunks and by the blocking parser. -/
theorem decode_encode (codec : Codec) (lawful : codec.Lawful) (pieces : List Bytes)
    (text : Bytes) (piecesValid : ∀ piece ∈ pieces, Utf8.valid piece = true)
    (textValid : Utf8.valid text = true) :
    ∃ body, Emitted.lines codec (pieces.map .token ++ [.done text]) = some body ∧
      (∀ chunks : List Bytes, chunks.flatten = body →
        let parsed := streamParseChunks codec chunks (.fresh (some continueAlways))
        parsed.1 = true ∧ parsed.2.tokens = pieces ∧ parsed.2.gotDone = true ∧
          parsed.2.gotError = false ∧ parsed.2.errorMsg = [] ∧ parsed.2.fullText = text ∧
          parsed.2.leftover = []) ∧
      parseNdjson codec body = .ok text := by
  rcases exists_encodesAll lawful piecesValid textValid with ⟨texts, encodes, written⟩
  refine ⟨texts.flatMap (· ++ [Codec.newline]), written, ?_, ?_⟩
  · intro chunks joined
    rcases @streamParseChunks_fresh codec chunks (some continueAlways) with
      ⟨outcome, buffer, results⟩
    rw [joined, encodes.split, encodes.foldWhile] at outcome results
    have leftover := streamParseChunks_leftover outcome
    rw [joined, encodes.split] at leftover
    refine ⟨outcome, ?_, ?_, ?_, ?_, ?_, leftover⟩ <;> rw [results]
  · rw [parseNdjson_eq_readLines, encodes.bodyLines, encodes.readLines]
    rfl

/-- Pieces that contain a line feed, a quote and a whole record. -/
theorem decode_encode_framed :
    ∃ body, Emitted.lines JsonText.reference
        ([bytes "a\n", bytes "\x7b\"done\":true\x7d\n"].map .token ++ [.done (bytes "b")]) =
        some body ∧
      (∀ chunks : List Bytes, chunks.flatten = body →
        let parsed := streamParseChunks JsonText.reference chunks (.fresh (some continueAlways))
        parsed.1 = true ∧ parsed.2.tokens = [bytes "a\n", bytes "\x7b\"done\":true\x7d\n"] ∧
          parsed.2.gotDone = true ∧ parsed.2.gotError = false ∧ parsed.2.errorMsg = [] ∧
          parsed.2.fullText = bytes "b" ∧ parsed.2.leftover = []) ∧
      parseNdjson JsonText.reference body = .ok (bytes "b") :=
  decode_encode JsonText.reference JsonText.reference_lawful _ _ (by decide) (by decide)

end Cllama.Boundary
