import Cllama.Core.RunnerMgr
import Cllama.Library.Conversions
import Cllama.Runner.Embed

/-!
# Embeddings on their way to the client

The runner writes the floats of an embedding into a JSON array, and the manager reads them
back.  The array has the dimension of the model only if the size of the context happens to
be that dimension.
-/

namespace Cllama.Boundary

open Cllama.Library Http Cllama.Runner Cllama.Core RunnerMgr

/-- The manager has a runner for the name and exchanges a request for an embedding with it. -/
def Exchanged (os : Platform.Os) (codec : Codec) (modelName input : Bytes) (system : System)
    (exchange : Exchange) : Prop :=
  ∃ r next text answerer world, getOrStart os modelName system = (some (some r), next) ∧
    codec.dump (embeddingsBody input) = some text ∧
    next.world.request os r.client (bytes "/api/embeddings") text = ((answerer, exchange), world)

/-- The runner's array has the floats that llama.cpp points to, nothing else is read, and
the manager's embedding has them, too. -/
def EmbedsExactly (codec : Codec) (embedder : Embedder) (input : Bytes)
    (data : List CFloat) : Prop :=
  embed embedder input = some (embeddingJson data) ∧
    ∀ text exchange, codec.dump (embeddingJson data) = some text →
      exchange.reply = some (200, text) → ∃ floats : List ℚ, data = floats.map some ∧
        embeddingsReply codec exchange = .ok ⟨floats, embedder.dim⟩

variable {codec : Codec} {conversions : Conversions}

/-- Floats are read back as they are. -/
theorem getFloats_map (floats : List ℚ) :
    getFloats (.arr ((floats.map some).map jsonFloat)) = some floats := by
  rw [getFloats]
  induction floats with
  | nil => rfl
  | cons value floats ih =>
      rw [List.map_cons, List.map_cons, List.mapM_cons, ih]
      rfl

theorem exists_floats {data : List CFloat} (finite : ∀ value ∈ data, value.isSome = true) :
    ∃ floats : List ℚ, data = floats.map some := by
  induction data with
  | nil => exact ⟨[], rfl⟩
  | cons value data ih =>
      rw [List.forall_mem_cons] at finite
      rcases Option.isSome_iff_exists.mp finite.1 with ⟨number, rfl⟩
      rcases ih finite.2 with ⟨floats, rfl⟩
      exact ⟨number :: floats, rfl⟩

/-- What the manager receives is what the runner wrote. -/
theorem reply_of_dump (faithful : codec.Faithful conversions) {data : List CFloat}
    (rounded : ∀ value, some value ∈ data → conversions.float value = value) {text : Bytes}
    (dumped : codec.dump (embeddingJson data) = some text) {exchange : Exchange}
    (replied : exchange.reply = some (200, text)) :
    embeddingsReply codec exchange =
      match getFloats (.arr (data.map jsonFloat)) with
      | none => .error ⟨.modelError, bytes "Invalid runner response"⟩
      | some floats => .ok ⟨floats, floats.length⟩ := by
  have machine : (embeddingJson data).Machine conversions := by
    apply Json.Machine.ofKeys [bytes "embedding"] rfl (by decide)
    refine .arr fun item isItem => ?_
    rcases List.mem_map.mp isItem with ⟨value, isMember, rfl⟩
    cases value with
    | none => exact .null
    | some value => exact .real (rounded value isMember ▸ conversions.double_float value)
  have parsed := faithful _ _ machine dumped
  rw [embeddingsReply, replied]
  dsimp only
  rw [if_neg (by decide), parsed]
  rfl

/-- The call returns what it makes of the runner's response. -/
theorem generateEmbeddings_of_exchanged {os : Platform.Os} {modelName input : Bytes}
    {system : System} {exchange : Exchange}
    (exchanged : Exchanged os codec modelName input system exchange) :
    (generateEmbeddings os codec modelName input system).1 =
      some (embeddingsReply codec exchange) := by
  rcases exchanged with ⟨r, next, text, answerer, world, started, dumped, sent⟩
  rw [generateEmbeddings, proxy, started]
  dsimp only
  rw [dumped]
  dsimp only
  rw [sent]

/-- The embedding of an input arrives as the floats that llama.cpp points to exactly when
the size of the context is the dimension of the model and all floats are finite. -/
theorem embedsExactly_iff (faithful : codec.Faithful conversions) {embedder : Embedder}
    {input : Bytes} {ctx : embedder.Context}
    {emb : { data : List CFloat // data.length = embedder.dim }}
    (reached : embedded embedder input = some (ctx, emb))
    (written : (codec.dump (embeddingJson emb.val)).isSome = true)
    (rounded : ∀ value, some value ∈ emb.val → conversions.float value = value) :
    (∀ os modelName system exchange, Exchanged os codec modelName input system exchange →
        (generateEmbeddings os codec modelName input system).1 =
          some (embeddingsReply codec exchange)) ∧
      (EmbedsExactly codec embedder input emb.val ↔
        embedder.nCtx ctx = embedder.dim ∧ ∀ value ∈ emb.val, value.isSome = true) := by
  refine ⟨fun _ _ _ _ => generateEmbeddings_of_exchanged, ?_⟩
  rw [EmbedsExactly, embed_eq_iff reached]
  apply and_congr_right
  intro _
  constructor
  · intro delivered
    rcases Option.isSome_iff_exists.mp written with ⟨text, dumped⟩
    rcases delivered text ⟨[text], some 200⟩ dumped (by simp [Exchange.reply, Exchange.body]) with
      ⟨floats, same, _⟩
    intro value isMember
    rw [same] at isMember
    rcases List.mem_map.mp isMember with ⟨number, -, rfl⟩
    rfl
  · intro finite text exchange dumped replied
    rcases exists_floats finite with ⟨floats, same⟩
    refine ⟨floats, same, ?_⟩
    rw [reply_of_dump faithful rounded dumped replied, same, getFloats_map, ← emb.property, same,
      List.length_map]

/-- A model with constant embeddings. -/
def constant (value : ℚ) (dim nCtx : Nat) : Embedder where
  Context := Unit
  Token := Unit
  dim := dim
  initFromModel _ := some ()
  nCtx _ := nCtx
  tokenize _ _ _ := (1, [()])
  decode _ _ := (0, ())
  embeddings _ := some ⟨List.replicate dim (some value), List.length_replicate⟩

/-- A library for a single text. -/
def halfText : Codec where
  parse text :=
    if text = bytes "\x7b\"embedding\":[0.5]\x7d" then some (embeddingJson [some (1 / 2)]) else none
  dump
    | .obj [(key, .arr [.real value])] =>
        if key = bytes "embedding" ∧ value = 1 / 2 then some (bytes "\x7b\"embedding\":[0.5]\x7d")
        else none
    | _ => none

theorem halfText_faithful (conversions : Conversions) : halfText.Faithful conversions := by
  intro json text _ dumped
  simp only [halfText] at dumped ⊢
  split at dumped
  · split at dumped
    next same =>
      cases dumped
      rw [if_pos rfl, same.1, same.2]
      rfl
    · cases dumped
  · cases dumped

theorem embedsExactly_iff_half :
    (∀ os modelName system exchange, Exchanged os halfText modelName (bytes "hi") system exchange →
        (generateEmbeddings os halfText modelName (bytes "hi") system).1 =
          some (embeddingsReply halfText exchange)) ∧
      (EmbedsExactly halfText (constant (1 / 2) 1 1) (bytes "hi") [some (1 / 2)] ↔
        1 = 1 ∧ ∀ value ∈ [some (1 / 2 : ℚ)], value.isSome = true) :=
  embedsExactly_iff (halfText_faithful .exact)
    (show embedded (constant (1 / 2) 1 1) (bytes "hi") = some ((), ⟨[some (1 / 2)], rfl⟩) from rfl)
    (by decide +kernel) fun _ _ => rfl

/-- A context of 512 tokens cuts an embedding of 768 numbers. -/
theorem not_embedsExactly_of_dimension :
    ¬EmbedsExactly halfText (constant (1 / 2) 768 512) (bytes "hi")
      (List.replicate 768 (some (1 / 2))) := by
  intro embeds
  have reached : embedded (constant (1 / 2) 768 512) (bytes "hi") =
      some ((), ⟨List.replicate 768 (some (1 / 2)), List.length_replicate⟩) := rfl
  have same : 512 = 768 := (embed_eq_iff reached).mp embeds.1
  cases same

end Cllama.Boundary
