import Cllama.Runner.Requests

/-!
# The tokens that a generation samples

A generation passes its checks and then samples tokens, until one ends the generation, a
decoding fails or the bound is reached.  Its text has the pieces of these tokens in it as
far as they fit the buffer of the loop, and the loop comes to its end if the context has
room for what it was asked for.
-/

namespace Cllama.Runner

open Cllama.Library

variable (llama : Llama)

/-! ## Sampled tokens -/

/-- Where sampling starts: the tokens of the prompt, and the context and the sampler when
they have been decoded. -/
structure Start where
  promptTokens : List llama.Token
  ctx : llama.Context
  smpl : llama.Sampler

/-- The start of the sampling, if the prompt passes all checks. -/
def samplingStart (prompt : Bytes) (opts : CompletionOpts) (parseSpecial : Bool) :
    Option (Start llama) :=
  match llama.initFromModel (contextSize opts) with
  | .ok (some ctx) =>
      match llama.tokenize prompt (llama.nCtx ctx) parseSpecial with
      | .ok (count, tokens) =>
          if count < 0 then none
          else
            match llama.decode ctx (tokens.take count.toNat) with
            | .ok (code, ctx) =>
                if code ≠ 0 then none
                else
                  match llama.sampler opts.temperature
                    (if opts.topP < 1 then some opts.topP else none)
                    (if 0 ≤ opts.seed then some opts.seed.toNat else none) with
                  | .ok smpl => some ⟨tokens.take count.toNat, ctx, smpl⟩
                  | .error _ => none
            | .error _ => none
      | .error _ => none
  | _ => none

/-- The tokens that the loop samples, the last one included. -/
def sampled : Nat → llama.Context → llama.Sampler → List llama.Token
  | 0, _, _ => []
  | fuel + 1, ctx, smpl =>
      match llama.sample smpl ctx with
      | .error _ => []
      | .ok (tok, smpl) =>
          if llama.isEog tok then [tok]
          else
            match llama.decode ctx [tok] with
            | .error _ => [tok]
            | .ok (code, ctx) => if code ≠ 0 then [tok] else tok :: sampled fuel ctx smpl

/-- The tokens that a generation samples. -/
def sampledBy (prompt : Bytes) (opts : CompletionOpts) (parseSpecial : Bool) :
    List llama.Token :=
  match samplingStart llama prompt opts parseSpecial with
  | none => []
  | some start => sampled llama (loopBound opts) start.ctx start.smpl

variable {llama}

/-- A generation is the sampling loop from its start, or has no text. -/
theorem generate_start (llama : Llama) (prompt : Bytes) (opts : CompletionOpts)
    (parseSpecial : Bool) :
    match samplingStart llama prompt opts parseSpecial with
    | some start => generate llama prompt opts parseSpecial =
        sampleLoop llama (loopBound opts) start.ctx start.smpl [] []
    | none => (generate llama prompt opts parseSpecial).pieces = [] := by
  rw [samplingStart, generate]
  cases llama.initFromModel (contextSize opts) with
  | error => rfl
  | ok created =>
      cases created with
      | none => rfl
      | some ctx =>
          dsimp only
          cases llama.tokenize prompt (llama.nCtx ctx) parseSpecial with
          | error => rfl
          | ok tokenised =>
              by_cases negative : tokenised.1 < 0
              · simp only [if_pos negative]
              · simp only [if_neg negative]
                cases llama.decode ctx (tokenised.2.take tokenised.1.toNat) with
                | error => rfl
                | ok decoded =>
                    by_cases failed : decoded.1 ≠ 0
                    · simp only [if_pos failed]
                    · simp only [if_neg failed]
                      cases llama.sampler opts.temperature
                        (if opts.topP < 1 then some opts.topP else none)
                        (if 0 ≤ opts.seed then some opts.seed.toNat else none) with
                      | error => rfl
                      | ok smpl => rfl

/-- No more tokens are sampled than the bound of the loop allows. -/
theorem sampled_length_le (fuel : Nat) (ctx : llama.Context) (smpl : llama.Sampler) :
    (sampled llama fuel ctx smpl).length ≤ fuel := by
  induction fuel generalizing ctx smpl with
  | zero => exact le_rfl
  | succ fuel ih =>
      rw [sampled]
      split
      · exact Nat.zero_le _
      next tok next _ =>
        split
        · exact Nat.succ_le_succ (Nat.zero_le fuel)
        · split
          · exact Nat.succ_le_succ (Nat.zero_le fuel)
          next code ctx _ =>
            split
            · exact Nat.succ_le_succ (Nat.zero_le fuel)
            · exact Nat.succ_le_succ (ih ctx next)

theorem sampledBy_length_le (prompt : Bytes) (opts : CompletionOpts) (parseSpecial : Bool) :
    (sampledBy llama prompt opts parseSpecial).length ≤ loopBound opts := by
  rw [sampledBy]
  split
  · exact Nat.zero_le _
  · exact sampled_length_le _ _ _

/-! ## Pieces -/

/-- The vocabulary gives every token a piece, which is returned if it fits the buffer. -/
structure Pieces (llama : Llama) (piece : llama.Token → Bytes) : Prop where
  fits : ∀ tok capacity, (piece tok).length ≤ capacity →
    (llama.tokenToPiece tok capacity).1 = (piece tok).length ∧
      (llama.tokenToPiece tok capacity).2.take (piece tok).length = piece tok
  negative : ∀ tok capacity, capacity < (piece tok).length → (llama.tokenToPiece tok capacity).1 < 0

/-- The tokens that do not end a generation. -/
def ordinary (llama : Llama) (tokens : List llama.Token) : List llama.Token :=
  tokens.filter fun tok => !llama.isEog tok

theorem ordinary_eog {tok : llama.Token} {tokens : List llama.Token}
    (ends : llama.isEog tok = true) : ordinary llama (tok :: tokens) = ordinary llama tokens :=
  List.filter_cons_of_neg (by rw [ends]; decide)

theorem ordinary_cons {tok : llama.Token} {tokens : List llama.Token}
    (continues : ¬llama.isEog tok = true) :
    ordinary llama (tok :: tokens) = tok :: ordinary llama tokens :=
  List.filter_cons_of_pos (by rw [Bool.eq_false_iff.mpr continues]; rfl)

/-- What a loop adds to the output for a token. -/
def kept {llama : Llama} (piece : llama.Token → Bytes) (tok : llama.Token) : Bytes :=
  if (piece tok).length ≤ 16 then piece tok else []

variable {piece : llama.Token → Bytes}

/-- One round of the loop adds the piece of its token if the buffer can hold it. -/
theorem grown_pieces (law : Pieces llama piece) (tok : llama.Token) (output : Bytes)
    (pieces : List Bytes) :
    (if (llama.tokenToPiece tok 16).1 > 0 then
        (output ++ (llama.tokenToPiece tok 16).2.take (llama.tokenToPiece tok 16).1.toNat,
          pieces ++ [(llama.tokenToPiece tok 16).2.take (llama.tokenToPiece tok 16).1.toNat])
      else (output, pieces)).2.flatten = pieces.flatten ++ kept piece tok := by
  by_cases short : (piece tok).length ≤ 16
  · rcases law.fits tok 16 short with ⟨returned, copied⟩
    rw [kept, if_pos short, returned]
    split
    · rw [List.flatten_append, Int.toNat_natCast, copied, List.flatten_singleton]
    next empty =>
      have none_left : piece tok = [] := List.eq_nil_of_length_eq_zero (by omega)
      rw [none_left, List.append_nil]
  · have negative := law.negative tok 16 (Nat.lt_of_not_le short)
    rw [kept, if_neg short, if_neg (by omega), List.append_nil]

/-- The loop hands on the pieces of its tokens that the buffer can hold. -/
theorem sampleLoop_pieces (law : Pieces llama piece) (fuel : Nat) (ctx : llama.Context)
    (smpl : llama.Sampler) (output : Bytes) (pieces : List Bytes) :
    (sampleLoop llama fuel ctx smpl output pieces).pieces.flatten =
      pieces.flatten ++ (ordinary llama (sampled llama fuel ctx smpl)).flatMap (kept piece) := by
  induction fuel generalizing ctx smpl output pieces with
  | zero => exact (List.append_nil _).symm
  | succ fuel ih =>
      rw [sampleLoop, sampled]
      cases llama.sample smpl ctx with
      | error what => exact (List.append_nil _).symm
      | ok drawn =>
          dsimp only
          by_cases ends : llama.isEog drawn.1 = true
          · rw [if_pos ends, if_pos ends, ordinary_eog ends]
            exact (List.append_nil _).symm
          · have grown := grown_pieces law drawn.1 output pieces
            have single : (ordinary llama [drawn.1]).flatMap (kept piece) = kept piece drawn.1 := by
              rw [ordinary_cons ends]
              exact List.append_nil _
            rw [if_neg ends, if_neg ends]
            cases llama.decode ctx [drawn.1] with
            | error what => exact grown.trans (congrArg (pieces.flatten ++ ·) single.symm)
            | ok decoded =>
                dsimp only
                by_cases failed : decoded.1 ≠ 0
                · rw [if_pos failed, if_pos failed]
                  exact grown.trans (congrArg (pieces.flatten ++ ·) single.symm)
                · rw [if_neg failed, if_neg failed, ih, grown, ordinary_cons ends,
                    List.flatMap_cons, List.append_assoc]

theorem generate_pieces (law : Pieces llama piece) (prompt : Bytes) (opts : CompletionOpts)
    (parseSpecial : Bool) :
    (generate llama prompt opts parseSpecial).pieces.flatten =
      (ordinary llama (sampledBy llama prompt opts parseSpecial)).flatMap (kept piece) := by
  have start := generate_start llama prompt opts parseSpecial
  rw [sampledBy]
  cases isStart : samplingStart llama prompt opts parseSpecial with
  | none =>
      rw [isStart] at start
      rw [start]
      rfl
  | some start' =>
      rw [isStart] at start
      rw [start]
      exact sampleLoop_pieces law _ _ _ _ _

theorem length_kept_le (piece : llama.Token → Bytes) (tokens : List llama.Token) :
    (tokens.flatMap (kept piece)).length ≤ (tokens.flatMap piece).length := by
  induction tokens with
  | nil => exact le_rfl
  | cons tok tokens ih =>
      have first : (kept piece tok).length ≤ (piece tok).length := by
        rw [kept]
        split
        · exact le_rfl
        · exact Nat.zero_le _
      rw [List.flatMap_cons, List.flatMap_cons, List.length_append, List.length_append]
      exact Nat.add_le_add first ih

/-- What is kept of all tokens is everything exactly when nothing is left out. -/
theorem flatMap_kept_iff (piece : llama.Token → Bytes) (tokens : List llama.Token) :
    tokens.flatMap (kept piece) = tokens.flatMap piece ↔
      ∀ tok ∈ tokens, (piece tok).length ≤ 16 := by
  constructor
  · induction tokens with
    | nil => exact fun _ => List.forall_mem_nil _
    | cons tok tokens ih =>
        intro same
        rw [List.flatMap_cons, List.flatMap_cons] at same
        have short : (piece tok).length ≤ 16 := by
          by_contra long
          have lengths := congrArg List.length same
          have shorter := length_kept_le piece tokens
          rw [kept, if_neg long, List.nil_append, List.length_append] at lengths
          omega
        rw [kept, if_pos short] at same
        exact List.forall_mem_cons.mpr ⟨short, ih (List.append_cancel_left same)⟩
  · intro short
    apply List.flatMap_congr
    intro tok isMember
    exact if_pos (short tok isMember)

/-- The text of a generation, and what it streams, are the pieces of the sampled tokens but
for one that ends it, and no more tokens are sampled than were asked for. -/
structure Exact (llama : Llama) (piece : llama.Token → Bytes) (prompt : Bytes)
    (opts : CompletionOpts) (parseSpecial : Bool) : Prop where
  text : ∀ text, (generate llama prompt opts parseSpecial).outcome = .ok text →
    text = (ordinary llama (sampledBy llama prompt opts parseSpecial)).flatMap piece
  streamed : (generate llama prompt opts parseSpecial).pieces.flatten =
    (ordinary llama (sampledBy llama prompt opts parseSpecial)).flatMap piece
  bounded : (sampledBy llama prompt opts parseSpecial).length ≤
    if 0 < opts.maxTokens then opts.maxTokens.toNat else 256

/-- A generation returns exactly what was sampled if and only if no piece of a sampled
token is longer than 16 octets. -/
theorem generate_exact_iff (law : Pieces llama piece) (prompt : Bytes) (opts : CompletionOpts)
    (parseSpecial : Bool) :
    Exact llama piece prompt opts parseSpecial ↔
      ∀ tok ∈ sampledBy llama prompt opts parseSpecial, llama.isEog tok = false →
        (piece tok).length ≤ 16 := by
  have streamed_iff := flatMap_kept_iff piece
    (ordinary llama (sampledBy llama prompt opts parseSpecial))
  rw [← generate_pieces law prompt opts parseSpecial] at streamed_iff
  constructor
  · intro exact_text tok isSampled continues
    apply streamed_iff.mp exact_text.streamed
    exact List.mem_filter.mpr ⟨isSampled, by rw [continues]; rfl⟩
  · intro short
    have streamed := streamed_iff.mpr fun tok isMember =>
      short tok (List.mem_filter.mp isMember).1 (by simpa using (List.mem_filter.mp isMember).2)
    refine ⟨fun text returned => ?_, streamed, sampledBy_length_le prompt opts parseSpecial⟩
    exact (generate_joined llama prompt opts parseSpecial text returned).trans streamed

/-- A model that goes on with one token, as long as its context has room. -/
def monotone (word : Bytes) (promptTokens : Nat) : Llama where
  Context := Nat
  Sampler := Unit
  Token := Unit
  initFromModel _ := .ok (some 0)
  nCtx _ := 2048
  tokenize _ capacity _ :=
    if promptTokens ≤ capacity then .ok (promptTokens, List.replicate promptTokens ())
    else .ok (-promptTokens, [])
  decode position tokens :=
    if position + tokens.length ≤ 2048 then .ok (0, position + tokens.length)
    else .ok (1, position)
  sampler _ _ _ := .ok ()
  sample _ _ := .ok ((), ())
  isEog _ := false
  tokenToPiece _ capacity :=
    if word.length ≤ capacity then (word.length, word) else (-word.length, [])
  chatApplyTemplate _ _ _ := (0, [])

theorem monotone_pieces (word : Bytes) (promptTokens : Nat) :
    Pieces (monotone word promptTokens) fun _ => word where
  fits _ capacity short := by
    simp [monotone, short]
  negative _ capacity long := by
    simp [monotone, Nat.not_le_of_lt long]
    omega

theorem generate_exact_iff_short :
    Exact (monotone (bytes "hi") 1) (fun _ => bytes "hi") (bytes "say") {} false ↔
      ∀ tok ∈ sampledBy (monotone (bytes "hi") 1) (bytes "say") {} false,
        (monotone (bytes "hi") 1).isEog tok = false → (bytes "hi").length ≤ 16 :=
  generate_exact_iff (monotone_pieces (bytes "hi") 1) (bytes "say") {} false

/-- A token whose piece is longer than the buffer is missing in the text. -/
theorem not_exact_of_long_piece :
    ¬Exact (monotone (bytes "internationalization") 1)
      (fun _ => bytes "internationalization") (bytes "say") { maxTokens := 1 } false := by
  intro exact_text
  have empty := exact_text.text [] rfl
  exact absurd empty (by decide)

/-! ## Room in the context -/

/-- No call throws, and a decoding fails exactly when the position would exceed the size of
the context. -/
structure Positions (llama : Llama) (position : llama.Context → Nat) : Prop where
  fresh : ∀ size ctx, llama.initFromModel size = .ok (some ctx) → position ctx = 0
  decoded : ∀ ctx tokens, ∃ code next, llama.decode ctx tokens = .ok (code, next) ∧
    (code ≠ 0 ↔ llama.nCtx ctx < position ctx + tokens.length) ∧
    (code = 0 → position next = position ctx + tokens.length ∧ llama.nCtx next = llama.nCtx ctx)
  drawn : ∀ smpl ctx, ∃ tok next, llama.sample smpl ctx = .ok (tok, next)

/-- The size of the context fits an `int`, the context has room for the prompt and all
tokens but the last, and the loop ends with a token that ends the generation or with the
number of tokens that was asked for. -/
structure ContextSuffices (llama : Llama) (opts : CompletionOpts) (start : Start llama) :
    Prop where
  size : -2147483648 ≤ opts.maxTokens * 2 ∧ opts.maxTokens * 2 ≤ 2147483647
  room : start.promptTokens.length + loopBound opts - 1 ≤ llama.nCtx start.ctx
  ends : (∃ tok ∈ sampled llama (loopBound opts) start.ctx start.smpl, llama.isEog tok = true) ∨
    (sampled llama (loopBound opts) start.ctx start.smpl).length = loopBound opts

/-- The longest prompt for which there is room in a context of the size that is asked for. -/
def promptRoom (maxTokens : Int) : Int :=
  if 1024 ≤ maxTokens then maxTokens + 1
  else if 0 < maxTokens then 2049 - maxTokens
  else 1793

/-- While there is room, the loop goes on to its bound. -/
theorem sampled_complete {position : llama.Context → Nat} (positions : Positions llama position)
    {fuel : Nat} (ctx : llama.Context) (smpl : llama.Sampler)
    (room : position ctx + fuel ≤ llama.nCtx ctx + 1) :
    (∃ tok ∈ sampled llama fuel ctx smpl, llama.isEog tok = true) ∨
      (sampled llama fuel ctx smpl).length = fuel := by
  induction fuel generalizing ctx smpl with
  | zero => exact Or.inr rfl
  | succ fuel ih =>
      rcases positions.drawn smpl ctx with ⟨tok, next, drawn⟩
      rcases positions.decoded ctx [tok] with ⟨code, after, decoded, failed, moved⟩
      rw [List.length_singleton] at failed moved
      rw [sampled, drawn]
      dsimp only
      by_cases ends : llama.isEog tok = true
      · rw [if_pos ends]
        exact Or.inl ⟨tok, List.mem_singleton_self tok, ends⟩
      · rw [if_neg ends, decoded]
        dsimp only
        by_cases isFull : code ≠ 0
        · -- A full context is met after the last token only.
          have last : fuel = 0 := by
            have full := failed.mp isFull
            omega
          rw [if_pos isFull, last]
          exact Or.inr rfl
        · rcases moved (not_not.mp isFull) with ⟨moved, sameSize⟩
          rw [if_neg isFull]
          rcases ih after next (by omega) with ⟨tok', isSampled, ends'⟩ | complete
          · exact Or.inl ⟨tok', List.mem_cons_of_mem _ isSampled, ends'⟩
          · exact Or.inr (congrArg (· + 1) complete)

/-- After the checks the context holds the prompt. -/
theorem position_start {position : llama.Context → Nat} (positions : Positions llama position)
    {prompt : Bytes} {opts : CompletionOpts} {parseSpecial : Bool} {start : Start llama}
    (passed : samplingStart llama prompt opts parseSpecial = some start) :
    position start.ctx = start.promptTokens.length := by
  rw [samplingStart] at passed
  split at passed
  next ctx created =>
    split at passed
    next count tokens _ =>
      split at passed
      · cases passed
      · split at passed
        next code after decoded =>
          split at passed
          · cases passed
          next succeeded =>
            split at passed
            · cases passed
              rcases positions.decoded ctx (tokens.take count.toNat) with ⟨_, _, same, _, moved⟩
              rw [decoded] at same
              cases same
              rw [(moved (not_not.mp succeeded)).1, positions.fresh _ ctx created, Nat.zero_add]
            · cases passed
        · cases passed
    · cases passed
  · cases passed

/-- A prompt that passes all checks leaves room for the generation exactly when doubling
`max_tokens` does not overflow and the prompt is not longer than `promptRoom`, more by what
the context is larger than it was asked for. -/
theorem contextSuffices_iff {position : llama.Context → Nat} (positions : Positions llama position)
    {prompt : Bytes} {opts : CompletionOpts} {parseSpecial : Bool} {start : Start llama}
    (passed : samplingStart llama prompt opts parseSpecial = some start) :
    ContextSuffices llama opts start ↔
      (-1073741824 ≤ opts.maxTokens ∧ opts.maxTokens < 1073741824) ∧
        (start.promptTokens.length : Int) ≤
          promptRoom opts.maxTokens + (llama.nCtx start.ctx - contextSize opts) := by
  have atStart := position_start positions passed
  have bound : (loopBound opts : Int) = if 0 < opts.maxTokens then opts.maxTokens else 256 := by
    rw [loopBound]
    split
    · exact Int.toNat_of_nonneg (by omega)
    · rfl
  have positive : 0 < loopBound opts := by
    rw [loopBound]
    split <;> omega
  have requested : (contextSize opts : Int) = max (opts.maxTokens * 2) 2048 := by
    rw [contextSize]
    exact Int.toNat_of_nonneg (by omega)
  have room_iff : start.promptTokens.length + loopBound opts - 1 ≤ llama.nCtx start.ctx ↔
      (start.promptTokens.length : Int) ≤
        promptRoom opts.maxTokens + (llama.nCtx start.ctx - contextSize opts) := by
    rw [promptRoom, requested]
    split at bound <;> split <;> omega
  constructor
  · intro holds
    have size := holds.size
    exact ⟨by omega, room_iff.mp holds.room⟩
  · rintro ⟨range, room⟩
    have enough := room_iff.mpr room
    exact ⟨by omega, enough, sampled_complete positions start.ctx start.smpl (by omega)⟩

theorem monotone_positions (word : Bytes) (promptTokens : Nat) :
    Positions (monotone word promptTokens) (fun position : Nat => position) where
  fresh _ ctx created := by
    cases created
    rfl
  decoded := by
    intro (ctx : Nat) tokens
    by_cases fits : ctx + tokens.length ≤ 2048
    · refine ⟨0, ctx + tokens.length, if_pos fits, ?_, fun _ => ⟨rfl, rfl⟩⟩
      exact iff_of_false (fun failed => failed rfl) (Nat.not_lt_of_le fits)
    · refine ⟨1, ctx, if_neg fits, ?_, fun failed => absurd failed (by decide)⟩
      exact iff_of_true (by decide) (Nat.lt_of_not_le fits)
  drawn _ _ := ⟨(), (), rfl⟩

/-- Every prompt that a context of this model can hold passes the checks. -/
theorem monotone_start (word prompt : Bytes) {promptTokens : Nat} (fits : promptTokens ≤ 2048)
    (opts : CompletionOpts) :
    samplingStart (monotone word promptTokens) prompt opts false =
      some ⟨List.replicate promptTokens (), promptTokens, ()⟩ := by
  simp [samplingStart, monotone, fits]

theorem monotone_room {word : Bytes} {promptTokens : Nat} {opts : CompletionOpts}
    (holds : ContextSuffices (monotone word promptTokens) opts
      ⟨List.replicate promptTokens (), promptTokens, ()⟩) :
    promptTokens + loopBound opts - 1 ≤ 2048 := by
  have room : (List.replicate promptTokens ()).length + loopBound opts - 1 ≤ 2048 := holds.room
  rw [List.length_replicate] at room
  exact room

theorem contextSuffices_iff_short :
    ContextSuffices (monotone (bytes "hi") 1) {}
        ⟨List.replicate 1 (), (1 : Nat), ()⟩ ↔
      (-1073741824 ≤ (256 : Int) ∧ (256 : Int) < 1073741824) ∧
        ((List.replicate 1 ()).length : Int) ≤
          promptRoom 256 + (((2048 : Nat) : Int) - contextSize {}) :=
  contextSuffices_iff (monotone_positions (bytes "hi") 1)
    (monotone_start (bytes "hi") (bytes "say") (by decide) {})

/-- After a prompt that fills the context there is no room for two tokens. -/
theorem not_contextSuffices_of_long_prompt :
    samplingStart (monotone (bytes "hi") 2048) (bytes "say") { maxTokens := 2 } false =
        some ⟨List.replicate 2048 (), (2048 : Nat), ()⟩ ∧
      ¬ContextSuffices (monotone (bytes "hi") 2048) { maxTokens := 2 }
        ⟨List.replicate 2048 (), (2048 : Nat), ()⟩ := by
  refine ⟨monotone_start _ _ le_rfl _, fun holds => ?_⟩
  exact absurd (monotone_room holds) (by decide)

end Cllama.Runner
