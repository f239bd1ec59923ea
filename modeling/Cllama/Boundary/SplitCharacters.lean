import Cllama.Boundary.FailureReports

/-!
# Pieces that end in the middle of a character

A vocabulary works on octets, so that a character may be spread over several pieces.  The
concatenation is then well-formed although the pieces are not, and the content provider,
which serialises the pieces one by one, throws.  This module says which texts can be
streamed.
-/

namespace Cllama.Boundary

open Cllama.Library Http Cllama.Runner Cllama.Core RunnerMgr

/-- The generation that hands over some pieces and returns their concatenation. -/
def generated (pieces : List Bytes) : Generation :=
  ⟨pieces, .ok pieces.flatten⟩

/-- Every generation that returns is of this kind. -/
theorem generate_eq_generated {llama : Llama} {prompt text : Bytes} {opts : CompletionOpts}
    {parseSpecial : Bool}
    (returned : (generate llama prompt opts parseSpecial).outcome = .ok text) :
    generate llama prompt opts parseSpecial =
      generated (generate llama prompt opts parseSpecial).pieces := by
  have joined := generate_joined llama prompt opts parseSpecial text returned
  generalize generate llama prompt opts parseSpecial = generation at returned joined ⊢
  rcases generation with ⟨pieces, outcome⟩
  cases returned
  rw [generated, joined]

variable {codec : Codec}

/-- The tokens that a streaming request hands to its callback. -/
def handedOver (codec : Codec) (exchange : Exchange) : List Bytes :=
  (exchange.send (streamParseChunk codec) (.fresh (some continueAlways))).2.tokens

/-- A text of some pieces can be streamed: the provider never throws, and every response to
the generation, of which there are some, is a success with the text, also if one puts it
together from the tokens. -/
structure Streams (codec : Codec) (pieces : List Bytes) : Prop where
  serialised : ∀ state, (tokenStream codec).Reachable state → state.produced <+: pieces →
    (∀ text, state.finalText = some text → text = pieces.flatten) → state.provider ≠ .threw
  answered : ∃ exchange, Response codec (generated pieces) exchange
  succeeds : ∀ exchange, Response codec (generated pieces) exchange →
    generateCompletionReply codec exchange = .ok pieces.flatten ∧
      streamCompletionReply codec (some continueAlways) exchange = .ok pieces.flatten ∧
      (handedOver codec exchange).flatten = pieces.flatten

theorem handedOver_of_encodesAll {pieces texts chunks : List Bytes} {text : Bytes}
    (encodes : EncodesAll codec pieces text texts)
    (joined : chunks.flatten = texts.flatMap (· ++ [Codec.newline])) :
    handedOver codec (delivered chunks) = pieces := by
  rcases @streamParseChunks_fresh codec chunks (some continueAlways) with
    ⟨outcome, buffer, results⟩
  rw [joined, encodes.split, encodes.foldWhile] at results
  rw [handedOver, send_eq]
  dsimp only
  rw [results]

/-- A piece that is not well-formed makes the provider throw. -/
theorem Streams.valid {pieces : List Bytes} (lawful : codec.Lawful)
    (streams : Streams codec pieces) : ∀ piece ∈ pieces, Utf8.valid piece = true := by
  intro piece member
  by_contra malformed
  have garbled : (Emitted.token piece).line codec = none := by
    rw [← Option.not_isSome_iff_eq_none, line_isSome_iff lawful]
    exact malformed
  rcases exists_threw member garbled with ⟨state, reachable, threw, produced, running⟩
  apply streams.serialised state reachable
  · rw [produced]
  · intro text ended
    rw [running] at ended
    cases ended
  · exact threw

/-- Well-formed pieces never make the provider throw. -/
theorem not_threw_of_valid {pieces : List Bytes} (lawful : codec.Lawful)
    (valid : ∀ piece ∈ pieces, Utf8.valid piece = true) {state : State}
    (reachable : (tokenStream codec).Reachable state) (produced : state.produced <+: pieces)
    (ended : ∀ text, state.finalText = some text → text = pieces.flatten) :
    state.provider ≠ .threw := by
  intro threw
  rcases (threwFor_invariant.of_reachable reachable).2 threw with
    ⟨piece, member, garbled⟩ | ⟨text, isText, garbled⟩
  · have written := (line_isSome_iff lawful (.token piece)).mpr
      (valid piece (produced.subset member))
    rw [garbled] at written
    cases written
  · have written := (line_isSome_iff lawful (.done text)).mpr
      (by rw [content, ended text isText]; exact Utf8.valid_flatten valid)
    rw [garbled] at written
    cases written

/-- A text can be streamed exactly when no character is spread over several pieces, that
is, when every piece is well-formed by itself. -/
theorem streams_iff (codec : Codec) (lawful : codec.Lawful) (pieces : List Bytes) :
    Streams codec pieces ↔ ∀ piece ∈ pieces, Utf8.valid piece = true := by
  constructor
  · exact Streams.valid lawful
  · intro valid
    have textValid : Utf8.valid (generated pieces).text = true := Utf8.valid_flatten valid
    have sound : ¬Garbled (generated pieces) := not_garbled_iff.mpr ⟨valid, textValid⟩
    constructor
    · intro state reachable produced ended
      exact not_threw_of_valid lawful valid reachable produced ended
    · rcases replies_of_not_garbled lawful sound with ⟨exchange, response, -⟩
      exact ⟨exchange, response⟩
    · intro exchange response
      cases response with
      | whole reachable produced ended closed written joined =>
          rcases exists_encodesAll lawful valid textValid with ⟨texts, encodes, lines⟩
          have output := lines_of_closed reachable produced ended closed written
          rw [generated] at output
          rw [generated, Generation.text] at lines
          rw [Generation.text, lines, Option.some.injEq] at output
          rw [← output] at joined
          rcases replies_of_encodesAll encodes joined with ⟨posted, sent⟩
          refine ⟨posted _, sent _, ?_⟩
          rw [handedOver_of_encodesAll encodes joined]
      | broken reachable produced ended threw failed =>
          exact absurd threw (not_threw_of_valid lawful valid reachable produced ended)

theorem streams_iff_whole_characters :
    Streams JsonText.reference [bytes "é", bytes "t\n"] ↔
      ∀ piece ∈ [bytes "é", bytes "t\n"], Utf8.valid piece = true :=
  streams_iff JsonText.reference JsonText.reference_lawful [bytes "é", bytes "t\n"]

/-- A library whose vocabulary spreads one character over two tokens. -/
def splitCharacter : Llama where
  Context := Unit
  Sampler := Nat
  Token := Nat
  initFromModel _ := .ok (some ())
  nCtx _ := 2048
  tokenize _ _ _ := .ok (1, [0])
  decode _ _ := .ok (0, ())
  sampler _ _ _ := .ok 0
  sample count _ := .ok (count, count + 1)
  isEog token := decide (2 ≤ token)
  tokenToPiece token _ := (1, if token = 0 then [0xC3] else [0xA9])
  chatApplyTemplate _ _ _ := (0, [])

/-- A character that is spread over two pieces of a generation cannot be streamed. -/
theorem not_streams_splitCharacter :
    generate splitCharacter (bytes "hi") {} false = generated [[0xC3], [0xA9]] ∧
      Utf8.valid [[0xC3], [0xA9]].flatten = true ∧
      ¬Streams JsonText.reference [[0xC3], [0xA9]] := by
  refine ⟨by decide +kernel, by decide, fun streams => ?_⟩
  have valid := streams.valid JsonText.reference_lawful [0xC3] List.mem_cons_self
  exact absurd valid (by decide)

end Cllama.Boundary
