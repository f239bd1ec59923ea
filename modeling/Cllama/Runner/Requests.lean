import Cllama.Library.Conversions
import Cllama.Runner.Generate

/-!
# Requests of the runner

The handlers of `/api/completion` and `/api/chat` take the prompt, or the messages, and the
sampling options out of a JSON body.  A generation depends on its options only by the size
of the context, the chain of samplers and the bound of the sampling loop.
-/

namespace Cllama.Runner

open Cllama.Library

variable {α : Type} (codec : Codec) (conversions : Conversions)

/-- `CompletionOpts{}`, whose fractions are `float` literals. -/
def defaultOpts : CompletionOpts :=
  { temperature := conversions.float (7 / 10), topP := conversions.float (9 / 10) }

/-- A member, if the value contains it. -/
def contained (get : Json → Option α) (key : String) (default : α) (j : Json) : Option α :=
  match j.find key with
  | some member => get member
  | none => some default

def optsFromJson (j : Json) : Option CompletionOpts := do
  let o := defaultOpts conversions
  let maxTokens ← contained conversions.getInt "max_tokens" o.maxTokens j
  let temperature ← contained conversions.getFloat "temperature" o.temperature j
  let topP ← contained conversions.getFloat "top_p" o.topP j
  let topK ← contained conversions.getInt "top_k" o.topK j
  return { o with maxTokens := maxTokens, temperature := temperature, topP := topP, topK := topK }

/-- What the handler of `/api/completion` reads; an exception is answered with status 400. -/
def completionRequest (body : Bytes) : Option (Bytes × CompletionOpts) := do
  let j ← codec.parse body
  let prompt ← (j.index "prompt").bind Json.getString
  let opts ← (j.value some "options" (.obj [])).bind (optsFromJson conversions)
  return (prompt, opts)

/-- What the handler of `/api/chat` reads. -/
def chatRequest (chatTemplate body : Bytes) : Option (Json × CompletionOpts × Bytes) := do
  let j ← codec.parse body
  let msgs ← j.index "messages"
  let opts ← (j.value some "options" (.obj [])).bind (optsFromJson conversions)
  let tmpl ← j.value Json.getString "chat_template" chatTemplate
  return (msgs, opts, tmpl)

/-! ## What a generation takes from its options -/

/-- The stages of a sampler chain; a random seed is `none`. -/
inductive SamplerStage where
  | temp (t : ℚ)
  | topK (k : Int)
  | topP (p : ℚ) (minKeep : Nat)
  | dist (seed : Option Nat)
  deriving DecidableEq

/-- The chain that `generate` builds. -/
def samplerChain (opts : CompletionOpts) : List SamplerStage :=
  [.temp opts.temperature] ++ (if opts.topP < 1 then [.topP opts.topP 1] else []) ++
    [.dist (if 0 ≤ opts.seed then some opts.seed.toNat else none)]

/-- The bound of the sampling loop. -/
def loopBound (opts : CompletionOpts) : Nat :=
  if 0 < opts.maxTokens then opts.maxTokens.toNat else 256

theorem samplerChain_inj {opts opts' : CompletionOpts}
    (same : samplerChain opts = samplerChain opts') :
    opts.temperature = opts'.temperature ∧
      (if opts.topP < 1 then some opts.topP else none) =
        (if opts'.topP < 1 then some opts'.topP else none) ∧
      (if 0 ≤ opts.seed then some opts.seed.toNat else none) =
        (if 0 ≤ opts'.seed then some opts'.seed.toNat else none) := by
  rw [samplerChain, samplerChain] at same
  by_cases cut : opts.topP < 1 <;> by_cases cut' : opts'.topP < 1 <;>
    simp only [cut, cut', ↓reduceIte, List.cons_append, List.nil_append, List.cons.injEq,
      SamplerStage.temp.injEq, SamplerStage.topP.injEq, SamplerStage.dist.injEq, reduceCtorEq,
      and_true, and_false] at same ⊢
  · exact ⟨same.1, congrArg some same.2.1, same.2.2⟩
  · exact ⟨same.1, trivial, same.2⟩

theorem generate_congr (llama : Llama) (prompt : Bytes) {opts opts' : CompletionOpts}
    (parseSpecial : Bool) (context : contextSize opts = contextSize opts')
    (chain : samplerChain opts = samplerChain opts') (bound : loopBound opts = loopBound opts') :
    generate llama prompt opts parseSpecial = generate llama prompt opts' parseSpecial := by
  rcases samplerChain_inj chain with ⟨temperature, topP, seed⟩
  rw [loopBound, loopBound] at bound
  rw [generate, generate, context, temperature, topP, seed, bound]

end Cllama.Runner
