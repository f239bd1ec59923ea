import Mathlib.Data.List.TakeDrop
import Cllama.Library.Json

/-!
# Embeddings in the runner

`embed` decodes a text in a context for embeddings and copies floats from where llama.cpp
points it to.  How many it copies is the size of the context, and a copy beyond the floats
that are there is undefined.
-/

namespace Cllama.Runner

open Cllama.Library

/-- A `float`, if it is finite. -/
abbrev CFloat := Option ℚ

/-- The calls of llama.cpp for a model whose embeddings have a dimension; a null pointer is
`none`. -/
structure Embedder where
  Context : Type
  Token : Type
  dim : Nat
  initFromModel : (nCtx : Nat) → Option Context
  nCtx : Context → Nat
  tokenize : (input : Bytes) → (capacity : Nat) → (parseSpecial : Bool) → Int × List Token
  decode : Context → List Token → Int × Context
  embeddings : Context → Option { data : List CFloat // data.length = dim }

/-- A number as it is written; one that is not finite is written as null. -/
def jsonFloat : CFloat → Json
  | some value => .real value
  | none => .null

/-- A copy of as many floats as asked for, unless it goes beyond those that are there. -/
def copyFloats (data : List CFloat) (count : Nat) : Option (List CFloat) :=
  if count ≤ data.length then some (data.take count) else none

def embeddingJson (data : List CFloat) : Json :=
  .obj [(bytes "embedding", .arr (data.map jsonFloat))]

variable (embedder : Embedder)

/-- The context in the end and the floats it points to, if no call fails. -/
def embedded (input : Bytes) :
    Option (embedder.Context × { data : List CFloat // data.length = embedder.dim }) := do
  let ctx ← embedder.initFromModel 512
  let (count, tokens) := embedder.tokenize input (embedder.nCtx ctx) false
  if count < 0 then none
  else
    let (code, ctx) := embedder.decode ctx (tokens.take count.toNat)
    if code ≠ 0 then none
    else
      let emb ← embedder.embeddings ctx
      return (ctx, emb)

/-- The object of an embedding, an empty one after a failed call; none is undefined. -/
def embed (input : Bytes) : Option Json :=
  match embedded embedder input with
  | none => some (.obj [])
  | some (ctx, emb) =>
      let nEmbd := embedder.nCtx ctx
      (copyFloats emb.val nEmbd).map embeddingJson

theorem jsonFloat_injective : Function.Injective jsonFloat := by
  intro left right same
  cases left <;> cases right <;> cases same <;> rfl

theorem embeddingJson_injective : Function.Injective embeddingJson := by
  intro left right same
  apply List.map_injective_iff.mpr jsonFloat_injective
  simpa [embeddingJson] using same

/-- All floats are copied exactly when there are as many as asked for. -/
theorem copyFloats_eq_iff (data : List CFloat) (count : Nat) :
    copyFloats data count = some data ↔ count = data.length := by
  rw [copyFloats]
  split
  next within =>
    rw [Option.some.injEq, List.take_eq_self_iff]
    omega
  next beyond =>
    apply iff_of_false nofun
    omega

/-- The object has all floats exactly when the context has the size of the dimension. -/
theorem embed_eq_iff {embedder : Embedder} {input : Bytes} {ctx : embedder.Context}
    {emb : { data : List CFloat // data.length = embedder.dim }}
    (reached : embedded embedder input = some (ctx, emb)) :
    embed embedder input = some (embeddingJson emb.val) ↔ embedder.nCtx ctx = embedder.dim := by
  rw [embed, reached]
  dsimp only
  have copied_iff := copyFloats_eq_iff emb.val (embedder.nCtx ctx)
  rw [emb.property] at copied_iff
  rw [Option.map_eq_some_iff, ← copied_iff]
  constructor
  · rintro ⟨floats, copied, same⟩
    rw [copied, embeddingJson_injective same]
  · intro copied
    exact ⟨emb.val, copied, rfl⟩

end Cllama.Runner
