import Cllama.Boundary.RoundTrip
import Cllama.Core.Replies
import Cllama.Runner.Delivery
import Cllama.Runner.Generate

/-!
# How a failed generation is reported

A request whose generation fails is answered by the same stream of records as any other:
the worker stores a text, the message of an exception at best, and the content provider
ends with a done record.  The manager therefore reports success.  An error reaches it
only when the provider itself throws, because a piece or the text is not well-formed
UTF-8 and cannot be serialised: then the response breaks off.
-/

namespace Cllama.Boundary

open Cllama.Library Http Cllama.Runner Cllama.Core RunnerMgr

/-! ## Failures -/

/-- A request for generation, as its handler passes it to the worker. -/
inductive Request where
  | completion (prompt : Bytes) (opts : CompletionOpts)
  | chat (messages : Json) (opts : CompletionOpts) (chatTemplate : Bytes)

variable (llama : Llama) (typeError : Json → Bytes)

/-- The failed calls after which `generate` returns the empty text. -/
inductive QuietFailure (prompt : Bytes) (opts : CompletionOpts) (parseSpecial : Bool) : Prop where
  | context :
      llama.initFromModel (contextSize opts) = .ok none → QuietFailure prompt opts parseSpecial
  | tokenize {ctx : llama.Context} {count : Int} {tokens : List llama.Token} :
      llama.initFromModel (contextSize opts) = .ok (some ctx) →
      llama.tokenize prompt (llama.nCtx ctx) parseSpecial = .ok (count, tokens) → count < 0 →
      QuietFailure prompt opts parseSpecial
  | decode {ctx next : llama.Context} {count code : Int} {tokens : List llama.Token} :
      llama.initFromModel (contextSize opts) = .ok (some ctx) →
      llama.tokenize prompt (llama.nCtx ctx) parseSpecial = .ok (count, tokens) → 0 ≤ count →
      llama.decode ctx (tokens.take count.toNat) = .ok (code, next) → code ≠ 0 →
      QuietFailure prompt opts parseSpecial

namespace Request

/-- What the worker does for a request. -/
def generation : Request → Generation
  | completion prompt opts => generate llama prompt opts false
  | chat messages opts chatTemplate => Runner.chat llama typeError messages opts chatTemplate

/-- The worker ends with an exception. -/
def Throws (request : Request) : Prop :=
  ∃ what, (request.generation llama typeError).outcome = .error what

/-- The context, the tokenisation or the decoding of the prompt fails. -/
def FailsQuietly : Request → Prop
  | completion prompt opts => QuietFailure llama prompt opts false
  | chat messages opts chatTemplate =>
      ∃ read, readMessages typeError (elements messages) = .ok read ∧
        QuietFailure llama (chatPrompt llama chatTemplate read) opts true

/-- The chat template cannot be applied. -/
def TemplateFails : Request → Prop
  | completion _ _ => False
  | chat messages _ chatTemplate =>
      ∃ read, readMessages typeError (elements messages) = .ok read ∧
        (llama.chatApplyTemplate (templateArg chatTemplate) read 0).1 < 0

/-- The generation fails. -/
def Fails (request : Request) : Prop :=
  request.Throws llama typeError ∨ request.FailsQuietly llama typeError ∨
    request.TemplateFails llama typeError

end Request

variable {llama typeError}

theorem generate_of_quietFailure {prompt : Bytes} {opts : CompletionOpts} {parseSpecial : Bool}
    (failure : QuietFailure llama prompt opts parseSpecial) :
    generate llama prompt opts parseSpecial = ⟨[], .ok []⟩ := by
  rw [generate]
  rcases failure with initialised | ⟨initialised, tokenised, negative⟩ |
    ⟨initialised, tokenised, counted, decoded, failed⟩
  · simp only [initialised]
  · simp only [initialised, tokenised, if_pos negative]
  · simp only [initialised, tokenised, if_neg (Int.not_lt.mpr counted), decoded, if_pos failed]

theorem generation_of_failsQuietly {request : Request}
    (failure : request.FailsQuietly llama typeError) :
    request.generation llama typeError = ⟨[], .ok []⟩ := by
  cases request with
  | completion prompt opts => exact generate_of_quietFailure failure
  | chat messages opts chatTemplate =>
      rcases failure with ⟨read, accepted, failure⟩
      rw [Request.generation, Runner.chat, accepted]
      exact generate_of_quietFailure failure

/-! ## Responses -/

variable {codec : Codec} {generation : Generation}

/-- What the manager can receive for a generation: the output of a stream that was closed
without a failed write, cut anywhere; or, when the content provider throws, no complete
response. -/
inductive Response (codec : Codec) (generation : Generation) : Exchange → Prop where
  | whole {state : State} {chunks : List Bytes} :
      (tokenStream codec).Reachable state →
      state.produced = generation.pieces → state.finalText = some generation.text →
      state.provider = .closed → state.writeFailed = false →
      chunks.flatten = state.output → Response codec generation (delivered chunks)
  | broken {state : State} {exchange : Exchange} :
      (tokenStream codec).Reachable state →
      state.produced <+: generation.pieces →
      (∀ text, state.finalText = some text → text = generation.text) →
      state.provider = .threw → exchange.status = none → Response codec generation exchange

/-- Every response to the generation is an error to the manager. -/
def Transparent (codec : Codec) (generation : Generation) : Prop :=
  ∀ exchange, Response codec generation exchange →
    (∃ error, generateCompletionReply codec exchange = .error error) ∧
    (∃ error, chatCompletionReply codec exchange = .error error) ∧
    ∀ onToken,
      (∃ error, streamCompletionReply codec onToken exchange = .error error) ∧
      (∃ error, streamChatReply codec onToken exchange = .error error)

/-- A piece or the text is not well-formed. -/
def Garbled (generation : Generation) : Prop :=
  ∃ string ∈ generation.pieces ++ [generation.text], Utf8.valid string = false

theorem valid_of_wellFormed {record : Emitted} (wellFormed : record.json.WellFormed) :
    Utf8.valid (content record) = true := by
  cases record with
  | token piece =>
      rcases wellFormed with _ | _ | _ | _ | _ | _ | ⟨-, values⟩
      rcases values (bytes "token", .str piece) (by simp) with _ | _ | _ | _ | valid
      exact valid
  | done text =>
      rcases wellFormed with _ | _ | _ | _ | _ | _ | ⟨-, values⟩
      rcases values (bytes "text", .str text) (by simp) with _ | _ | _ | _ | valid
      exact valid

/-- A record can be serialised exactly when its string is well-formed. -/
theorem line_isSome_iff (lawful : codec.Lawful) (record : Emitted) :
    (record.line codec).isSome = true ↔ Utf8.valid (content record) = true := by
  constructor
  · intro written
    rw [Emitted.line, Option.isSome_map] at written
    rcases Option.isSome_iff_exists.mp written with ⟨text, dumped⟩
    exact valid_of_wellFormed (lawful.wellFormed _ text dumped)
  · intro valid
    rcases exists_line lawful record valid with ⟨text, -, written⟩
    rw [written]
    rfl

theorem line_isSome_of_lines {records : List Emitted} {output : Bytes}
    (written : Emitted.lines codec records = some output) :
    ∀ record ∈ records, (record.line codec).isSome = true := by
  rw [Emitted.lines, Option.map_eq_some_iff] at written
  rcases written with ⟨parts, mapped, -⟩
  induction records generalizing parts with
  | nil => exact List.forall_mem_nil _
  | cons record records ih =>
      rw [List.mapM_cons] at mapped
      simp only [Option.bind_eq_bind, Option.bind_eq_some_iff] at mapped
      rcases mapped with ⟨line, dumped, others, mappedOthers, -⟩
      exact List.forall_mem_cons.mpr ⟨by rw [dumped]; rfl, ih others mappedOthers⟩

/-- Without a malformed string, the worker's records are those of valid strings. -/
theorem not_garbled_iff :
    ¬Garbled generation ↔ (∀ piece ∈ generation.pieces, Utf8.valid piece = true) ∧
      Utf8.valid generation.text = true := by
  simp only [Garbled, not_exists, not_and, Bool.not_eq_false, List.forall_mem_append,
    List.mem_singleton, forall_eq]

/-- What a whole response consists of. -/
theorem lines_of_closed {state : State} (reachable : (tokenStream codec).Reachable state)
    (produced : state.produced = generation.pieces)
    (ended : state.finalText = some generation.text) (closed : state.provider = .closed)
    (sound : state.writeFailed = false) :
    Emitted.lines codec (generation.pieces.map .token ++ [.done generation.text]) =
      some state.output := by
  have delivering := delivering_invariant.of_reachable reachable
  rcases delivering.closed closed sound with ⟨text, endedText, records⟩
  have output := delivering.output
  rw [ended, Option.some.injEq] at endedText
  rwa [records, produced, ← endedText] at output

/-- A garbled generation has no whole response, so that every response is an error. -/
theorem transparent_of_garbled (lawful : codec.Lawful) (garbled : Garbled generation) :
    Transparent codec generation := by
  intro exchange response
  cases response with
  | whole reachable produced ended closed sound joined =>
      have written := line_isSome_of_lines (lines_of_closed reachable produced ended closed sound)
      refine absurd garbled (not_garbled_iff.mpr ?_)
      simp only [List.forall_mem_append, List.forall_mem_map, List.mem_singleton, forall_eq,
        line_isSome_iff lawful] at written
      exact written
  | broken _ _ _ _ failed =>
      rcases exchange with ⟨chunks, status⟩
      cases failed
      exact ⟨⟨_, rfl⟩, ⟨_, rfl⟩, fun onToken =>
        ⟨⟨_, sendReply_of_no_response _ onToken chunks⟩,
          ⟨_, sendReply_of_no_response _ onToken chunks⟩⟩⟩

/-- A whole response, cut anywhere, is a success with the text of the worker. -/
theorem replies_of_encodesAll {pieces texts chunks : List Bytes} {text : Bytes}
    (encodes : EncodesAll codec pieces text texts)
    (joined : chunks.flatten = texts.flatMap (· ++ [Codec.newline])) :
    (∀ failure, postReply codec failure (delivered chunks) = .ok text) ∧
      ∀ failure, sendReply codec failure (some continueAlways) (delivered chunks) = .ok text := by
  constructor
  · intro failure
    rw [postReply_eq, joined, encodes.bodyLines, encodes.readLines]
    rfl
  · intro failure
    rw [sendReply_eq, terminatedLines, joined, encodes.split, encodes.foldWhile]

/-- Some whole response is a success, with the text of the worker. -/
theorem replies_of_not_garbled (lawful : codec.Lawful) (valid : ¬Garbled generation) :
    ∃ exchange, Response codec generation exchange ∧
      generateCompletionReply codec exchange = .ok generation.text ∧
      chatCompletionReply codec exchange = .ok generation.text ∧
      streamCompletionReply codec (some continueAlways) exchange = .ok generation.text ∧
      streamChatReply codec (some continueAlways) exchange = .ok generation.text := by
  rcases not_garbled_iff.mp valid with ⟨piecesValid, textValid⟩
  rcases @exists_closed codec generation.pieces generation.text
    (fun piece member => (line_isSome_iff lawful _).mpr (piecesValid piece member))
    ((line_isSome_iff lawful _).mpr textValid) with
    ⟨state, reachable, closed, sound, produced, ended⟩
  rcases exists_encodesAll lawful piecesValid textValid with ⟨texts, encodes, written⟩
  rw [lines_of_closed reachable produced ended closed sound, Option.some.injEq] at written
  have joined : [state.output].flatten = texts.flatMap (· ++ [Codec.newline]) := by
    rw [List.flatten_singleton, written]
  rcases replies_of_encodesAll encodes joined with ⟨posted, sent⟩
  exact ⟨delivered [state.output],
    .whole reachable produced ended closed sound List.flatten_singleton,
    posted _, posted _, sent _, sent _⟩

/-! ## The outcome of failed requests -/

/-- A library that cannot create a context. -/
def noContext : Llama where
  Context := Unit
  Sampler := Unit
  Token := Unit
  initFromModel _ := .ok none
  nCtx _ := 2048
  tokenize _ _ _ := .ok (0, [])
  decode _ _ := .ok (0, ())
  sampler _ _ _ := .ok ()
  sample _ _ := .ok ((), ())
  isEog _ := true
  tokenToPiece _ _ := (0, [])
  chatApplyTemplate _ _ _ := (0, [])

end Cllama.Boundary
