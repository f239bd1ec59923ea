import Cllama.Api.Requests
import Cllama.Runner.Requests
import Mathlib.Tactic.Ring

/-!
# Sampling options on their way to the sampler

The body of a request is read by a router, its options are written into another body by
the manager, and read again by the runner, which builds a chain of samplers from them.
`max_tokens` and `temperature` arrive; `top_p` and `top_k` are dropped by the routers, and
the runner has no sampler for `top_k`.
-/

namespace Cllama.Boundary

open Cllama.Library Cllama.Api Cllama.Core.RunnerMgr

inductive Router where
  | oatpp
  | cppRest

/-- The call that a router makes for a body. -/
def Router.command (conversions : Conversions) (manager : RunnerManager) :
    Router → Route → Json → Option Command
  | .oatpp => Oatpp.command conversions manager
  | .cppRest => CppRest.command conversions manager

/-- The sampling options that a call passes on. -/
def optionsOf : Command → Option CompletionOptions
  | .generateCompletion _ _ opts | .streamCompletion _ _ opts | .chatCompletion _ _ opts
  | .streamChat _ _ opts => some opts
  | _ => none

/-- The body that the manager sends to the runner. -/
def hop : Command → Option Json
  | .generateCompletion _ prompt opts | .streamCompletion _ prompt opts =>
      some (completionBody prompt opts)
  | .chatCompletion _ messages opts | .streamChat _ messages opts =>
      some (chatBody messages opts)
  | _ => none

variable (codec : Codec) (conversions : Conversions) (chatTemplate : Bytes)

/-- The options that the runner reads from a body. -/
def receive (text : Bytes) : Command → Option Runner.CompletionOpts
  | .generateCompletion _ _ _ | .streamCompletion _ _ _ =>
      (Runner.completionRequest codec conversions text).map (·.2)
  | .chatCompletion _ _ _ | .streamChat _ _ _ =>
      (Runner.chatRequest codec conversions chatTemplate text).map (·.2.1)
  | _ => none

/-- The options of the generation that a call starts in the runner. -/
def received (command : Command) : Option Runner.CompletionOpts := do
  let body ← hop command
  let text ← codec.dump body
  receive codec conversions chatTemplate text command

/-! ## What the client sent -/

/-- An integer that a client sent. -/
def sentInt (key : String) (body : Json) : Option Int :=
  match body.find key with
  | some (.int value) => some value
  | _ => none

/-- A number that a client sent. -/
def sent (key : String) (body : Json) : Option ℚ :=
  match body.find key with
  | some (.int value) => some value
  | some (.real value) => some value
  | _ => none

/-- A member is absent, or an `int`. -/
def IntOrAbsent (key : String) (body : Json) : Prop :=
  ∀ member, body.find key = some member →
    ∃ value, member = .int value ∧ -2 ^ 31 ≤ value ∧ value < 2 ^ 31

/-- A member is absent, or a number that a `double` can hold. -/
def NumberOrAbsent (key : String) (body : Json) : Prop :=
  ∀ member, body.find key = some member →
    (∃ value : Int, member = .int value ∧ conversions.double value = value) ∨
      ∃ value, member = .real value ∧ conversions.double value = value

/-- The sampling members of a body are absent or well-typed numbers in range. -/
structure InRange (body : Json) : Prop where
  maxTokens : IntOrAbsent "max_tokens" body
  temperature : NumberOrAbsent conversions "temperature" body
  topP : NumberOrAbsent conversions "top_p" body
  topK : IntOrAbsent "top_k" body

/-- The options hold what the client sent, and the generation samples by it.  A nucleus of
at least one, and a `top_k` that is not positive, cut nothing. -/
structure Reaches (body : Json) (opts : Runner.CompletionOpts) : Prop where
  maxTokens : ∀ n, sentInt "max_tokens" body = some n →
    opts.maxTokens = n ∧ (0 < n → Runner.loopBound opts = n)
  temperature : ∀ t, sent "temperature" body = some t →
    opts.temperature = conversions.float t ∧
      .temp (conversions.float t) ∈ Runner.samplerChain opts
  topP : ∀ p, sent "top_p" body = some p →
    opts.topP = conversions.float p ∧
      (conversions.float p < 1 → .topP (conversions.float p) 1 ∈ Runner.samplerChain opts)
  topK : ∀ k, sentInt "top_k" body = some k →
    opts.topK = k ∧ (0 < k → .topK k ∈ Runner.samplerChain opts)

/-! ## The hop -/

variable {codec conversions}

/-- Options that survive the hop. -/
structure Deliverable (conversions : Conversions) (opts : CompletionOptions) : Prop where
  maxTokens : -2 ^ 31 ≤ opts.maxTokens ∧ opts.maxTokens < 2 ^ 31
  temperature : conversions.float opts.temperature = opts.temperature
  topP : conversions.float opts.topP = opts.topP
  topK : -2 ^ 31 ≤ opts.topK ∧ opts.topK < 2 ^ 31

/-- The options of the runner for those of the manager. -/
def runnerOpts (opts : CompletionOptions) : Runner.CompletionOpts :=
  ⟨opts.maxTokens, opts.temperature, opts.topP, opts.topK, -1⟩

theorem optsFromJson_optsToJson {opts : CompletionOptions}
    (deliverable : Deliverable conversions opts) :
    Runner.optsFromJson conversions (optsToJson opts) = some (runnerOpts opts) := by
  rcases deliverable with ⟨maxTokens, temperature, topP, topK⟩
  have find : (optsToJson opts).find "max_tokens" = some (.int opts.maxTokens) ∧
      (optsToJson opts).find "temperature" = some (.real opts.temperature) ∧
      (optsToJson opts).find "top_p" = some (.real opts.topP) ∧
      (optsToJson opts).find "top_k" = some (.int opts.topK) := ⟨rfl, rfl, rfl, rfl⟩
  simp only [Runner.optsFromJson, Runner.contained, find, Conversions.getInt,
    Conversions.getFloat, Conversions.wrap_of_int maxTokens, Conversions.wrap_of_int topK,
    temperature, topP]
  rfl

theorem optsToJson_machine {opts : CompletionOptions}
    (deliverable : Deliverable conversions opts) : (optsToJson opts).Machine conversions := by
  rcases deliverable with ⟨maxTokens, temperature, topP, topK⟩
  apply Json.Machine.ofKeys [bytes "max_tokens", bytes "temperature", bytes "top_k",
    bytes "top_p"] rfl (by decide)
  exact ⟨.int (by omega) (by omega), .real (temperature ▸ conversions.double_float _),
    .int (by omega) (by omega), .real (topP ▸ conversions.double_float _)⟩

theorem completionBody_machine (prompt : Bytes) {opts : CompletionOptions}
    (deliverable : Deliverable conversions opts) :
    (completionBody prompt opts).Machine conversions := by
  apply Json.Machine.ofKeys [bytes "options", bytes "prompt"] rfl (by decide)
  exact ⟨optsToJson_machine deliverable, .str prompt⟩

theorem chatBody_machine (messages : List Message) {opts : CompletionOptions}
    (deliverable : Deliverable conversions opts) :
    (chatBody messages opts).Machine conversions := by
  have message : ∀ m : Message,
      (Json.obj [(bytes "content", .str m.content), (bytes "role", .str m.role)]).Machine
        conversions := by
    intro m
    apply Json.Machine.ofKeys [bytes "content", bytes "role"] rfl (by decide)
    exact ⟨.str _, .str _⟩
  apply Json.Machine.ofKeys [bytes "messages", bytes "options"] rfl (by decide)
  refine ⟨.arr ?_, optsToJson_machine deliverable⟩
  intro item isItem
  rcases List.mem_map.mp isItem with ⟨m, -, rfl⟩
  exact message m

/-- The runner gets the options of the call. -/
theorem received_eq (faithful : codec.Faithful conversions) {command : Command} {text : Bytes}
    {opts : CompletionOptions} (calls : optionsOf command = some opts)
    (deliverable : Deliverable conversions opts)
    (written : (hop command).bind codec.dump = some text) :
    received codec conversions chatTemplate command = some (runnerOpts opts) := by
  rcases Option.bind_eq_some_iff.mp written with ⟨body, sends, dumped⟩
  have reads := optsFromJson_optsToJson deliverable
  have completion : ∀ prompt : Bytes, body = completionBody prompt opts →
      (Runner.completionRequest codec conversions text).map (·.2) = some (runnerOpts opts) := by
    rintro prompt rfl
    rw [Runner.completionRequest,
      faithful _ text (completionBody_machine prompt deliverable) dumped]
    have options : (completionBody prompt opts).value some "options" (.obj []) =
        some (optsToJson opts) := rfl
    simp only [Option.bind_eq_bind, Option.bind_some, options, reads]
    rfl
  have chat : ∀ messages : List Message, body = chatBody messages opts →
      (Runner.chatRequest codec conversions chatTemplate text).map (·.2.1) =
        some (runnerOpts opts) := by
    rintro messages rfl
    rw [Runner.chatRequest, faithful _ text (chatBody_machine messages deliverable) dumped]
    have options : (chatBody messages opts).value some "options" (.obj []) =
        some (optsToJson opts) := rfl
    simp only [Option.bind_eq_bind, Option.bind_some, options, reads]
    rfl
  rw [received, sends]
  change (codec.dump body).bind _ = _
  rw [dumped]
  cases command with
  | generateCompletion model prompt opts' | streamCompletion model prompt opts' =>
      cases calls
      cases sends
      exact completion prompt rfl
  | chatCompletion model messages opts' | streamChat model messages opts' =>
      cases calls
      cases sends
      exact chat messages rfl
  | _ => cases calls

/-! ## The routers -/

variable {α : Type} {body : Json} {key : String}

/-- An integer member in range is taken as it is. -/
theorem contained_int {read : Json → Option Int} {default n : Int}
    (range : IntOrAbsent key body)
    (reads : ∀ value : Int, -2 ^ 31 ≤ value ∧ value < 2 ^ 31 → read (.int value) = some value)
    (fits : -2 ^ 31 ≤ default ∧ default < 2 ^ 31)
    (taken : Runner.contained read key default body = some n) :
    (-2 ^ 31 ≤ n ∧ n < 2 ^ 31) ∧ ∀ value, sentInt key body = some value → n = value := by
  rw [Runner.contained] at taken
  rw [sentInt]
  cases found : body.find key with
  | none =>
      rw [found] at taken
      cases taken
      exact ⟨fits, nofun⟩
  | some member =>
      rcases range member found with ⟨value, rfl, inRange⟩
      rw [found] at taken
      dsimp only at taken
      rw [reads value inRange] at taken
      cases taken
      exact ⟨inRange, fun sentValue same => Option.some.inj same⟩

/-- A member that is a number is rounded to `float` once. -/
theorem contained_number {read : Json → Option ℚ} {default t : ℚ}
    (range : NumberOrAbsent conversions key body)
    (reads : ∀ value : Int, conversions.double value = value →
      read (.int value) = some (conversions.float value))
    (readsReal : ∀ value : ℚ, read (.real value) = some (conversions.float value))
    (rounded : conversions.float default = default)
    (taken : Runner.contained read key default body = some t) :
    conversions.float t = t ∧
      ∀ value, sent key body = some value → t = conversions.float value := by
  rw [Runner.contained] at taken
  rw [sent]
  cases found : body.find key with
  | none =>
      rw [found] at taken
      cases taken
      exact ⟨rounded, nofun⟩
  | some member =>
      rw [found] at taken
      dsimp only at taken
      rcases range member found with ⟨value, rfl, exactly⟩ | ⟨value, rfl, -⟩
      · rw [reads value exactly] at taken
        cases taken
        exact ⟨conversions.float_float _, fun sentValue same => by rw [Option.some.inj same]⟩
      · rw [readsReal value] at taken
        cases taken
        exact ⟨conversions.float_float _, fun sentValue same => by rw [Option.some.inj same]⟩

/-- Options as a router takes them from a body. -/
structure Taken (conversions : Conversions) (body : Json) (opts : CompletionOptions) : Prop where
  deliverable : Deliverable conversions opts
  maxTokens : ∀ n, sentInt "max_tokens" body = some n → opts.maxTokens = n
  temperature : ∀ t, sent "temperature" body = some t → opts.temperature = conversions.float t
  topP : opts.topP = conversions.float (19 / 20)
  topK : opts.topK = 40

theorem taken_of_contained (readInt : Json → Option Int) (readNumber : Json → Option ℚ)
    {n : Int} {t : ℚ} (range : InRange conversions body)
    (readsInt : ∀ value : Int, -2 ^ 31 ≤ value ∧ value < 2 ^ 31 →
      readInt (.int value) = some value)
    (readsWhole : ∀ value : Int, conversions.double value = value →
      readNumber (.int value) = some (conversions.float value))
    (readsReal : ∀ value : ℚ, readNumber (.real value) = some (conversions.float value))
    (maxTokens : Runner.contained readInt "max_tokens" (defaultOptions conversions).maxTokens body =
      some n)
    (temperature : Runner.contained readNumber "temperature"
      (defaultOptions conversions).temperature body = some t) :
    Taken conversions body
      { defaultOptions conversions with maxTokens := n, temperature := t } := by
  have fits : ∀ value : Int, value = 100 ∨ value = 40 → -2 ^ 31 ≤ value ∧ value < 2 ^ 31 := by
    omega
  have whole := contained_int range.maxTokens readsInt (fits _ (Or.inl rfl)) maxTokens
  have number := contained_number range.temperature readsWhole readsReal
    (conversions.float_float _) temperature
  exact ⟨⟨whole.1, number.1, conversions.float_float _, fits _ (Or.inr rfl)⟩, whole.2, number.2,
    rfl, rfl⟩

theorem ite_contains (read : Json → Option α) (key : String) (default : α) (body : Json) :
    (if body.contains key then (body.find key).bind read else some default) =
      Runner.contained read key default body := by
  rw [Json.contains, Runner.contained]
  cases body.find key <;> rfl

/-- `operator[]` finds a member that the value contains. -/
theorem ite_contains_index (read : Json → Option α) (key : String) (default : α) (body : Json) :
    (if body.contains key then (body.index key).bind read else some default) =
      Runner.contained read key default body := by
  rw [← ite_contains]
  cases body with
  | obj members =>
      rw [Json.contains, Json.index, Json.find]
      cases members.lookup (bytes key) <;> rfl
  | _ => rfl

theorem oatpp_taken {opts : CompletionOptions} (range : InRange conversions body)
    (read : Oatpp.options conversions body = some opts) : Taken conversions body opts := by
  simp only [Oatpp.options, Oatpp.maxTokens, Oatpp.temperature, ite_contains, Option.bind_eq_bind,
    Option.bind_eq_some_iff] at read
  rcases read with ⟨n, maxTokens, t, temperature, built⟩
  cases built
  apply taken_of_contained conversions.getInt conversions.getFloat range
  · intro value fits
    rw [Conversions.getInt, Conversions.wrap_of_int fits]
  · intro value _
    rfl
  · intro value
    rfl
  · exact maxTokens
  · exact temperature

theorem cppRest_taken {opts : CompletionOptions} (range : InRange conversions body)
    (read : CppRest.options conversions body = some opts) : Taken conversions body opts := by
  simp only [CppRest.options, CppRest.maxTokens, CppRest.temperature, Option.map_bind,
    ite_contains_index, Option.bind_eq_bind, Option.bind_eq_some_iff] at read
  rcases read with ⟨n, maxTokens, t, temperature, built⟩
  cases built
  apply taken_of_contained conversions.asInteger
    (Option.map conversions.float ∘ conversions.asDouble) range
  · intro value fits
    rw [Conversions.asInteger, Conversions.wrap_of_int fits]
  · intro value exactly
    rw [Function.comp_apply, Conversions.asDouble, Option.map_some, exactly]
  · intro value
    rfl
  · exact maxTokens
  · exact temperature

/-- The endpoints whose requests have sampling options. -/
def Sampled (route : Route) : Prop := route = .completions ∨ route = .chatCompletions

/-- The call for a sampled route passes on the options that the router took. -/
theorem command_taken {router : Router} {manager : RunnerManager} {route : Route}
    {command : Command} (sampled : Sampled route) (range : InRange conversions body)
    (accepted : router.command conversions manager route body = some command) :
    ∃ opts, optionsOf command = some opts ∧ Taken conversions body opts := by
  cases router with
  | oatpp =>
      rcases sampled with rfl | rfl
      · simp only [Router.command, Oatpp.command, Oatpp.completions, Option.bind_eq_bind,
          Option.bind_eq_some_iff] at accepted
        rcases accepted with ⟨model, -, prompt, -, stream, -, opts, read, built⟩
        cases stream <;> cases built <;> exact ⟨opts, rfl, oatpp_taken range read⟩
      · simp only [Router.command, Oatpp.command, Oatpp.chatCompletions, Option.bind_eq_bind,
          Option.bind_eq_some_iff] at accepted
        rcases accepted with ⟨model, -, stream, -, messages, -, opts, read, built⟩
        cases stream <;> cases built <;> exact ⟨opts, rfl, oatpp_taken range read⟩
  | cppRest =>
      rcases sampled with rfl | rfl
      · simp only [Router.command, CppRest.command, CppRest.completions, Option.bind_eq_bind,
          Option.bind_eq_some_iff] at accepted
        rcases accepted with ⟨model, -, prompt, -, stream, -, opts, read, built⟩
        cases stream <;> cases built <;> exact ⟨opts, rfl, cppRest_taken range read⟩
      · simp only [Router.command, CppRest.command, CppRest.chat, Option.bind_eq_bind,
          Option.bind_eq_some_iff] at accepted
        rcases accepted with ⟨model, -, stream, -, messages, -, opts, read, built⟩
        cases stream <;> cases built <;> exact ⟨opts, rfl, cppRest_taken range read⟩

/-! ## The samplers -/

/-- What of the options of a body reaches the samplers. -/
theorem reaches_runnerOpts_iff {opts : CompletionOptions} (taken : Taken conversions body opts) :
    Reaches conversions body (runnerOpts opts) ↔
      (∀ k, sentInt "top_k" body ≠ some k) ∧
        ∀ p, sent "top_p" body = some p → conversions.float p = conversions.float (19 / 20) := by
  constructor
  · intro reaches
    constructor
    · intro k isSent
      rcases reaches.topK k isSent with ⟨held, used⟩
      have sentDefault : k = 40 := held.symm.trans taken.topK
      have stage := used (by omega)
      simp [Runner.samplerChain] at stage
    · intro p isSent
      rw [← taken.topP]
      exact (reaches.topP p isSent).1.symm
  · rintro ⟨noTopK, sameTopP⟩
    constructor
    · intro n isSent
      have held := taken.maxTokens n isSent
      refine ⟨held, fun positive => ?_⟩
      rw [Runner.loopBound, if_pos (by rw [← held] at positive; exact positive)]
      change (opts.maxTokens.toNat : Int) = n
      omega
    · intro t isSent
      have held := taken.temperature t isSent
      refine ⟨held, ?_⟩
      rw [← held]
      simp [Runner.samplerChain, runnerOpts]
    · intro p isSent
      have held := taken.topP.trans (sameTopP p isSent).symm
      refine ⟨held, fun cuts => ?_⟩
      rw [← held] at cuts ⊢
      simp [Runner.samplerChain, runnerOpts, cuts]
    · intro k isSent
      exact absurd isSent (noTopK k)

/-- The sampling members of an accepted request that the manager can send reach the samplers
if no `top_k` is sent, and no `top_p` but the default one. -/
theorem reaches_iff (codec : Codec) (conversions : Conversions) (chatTemplate : Bytes)
    (manager : RunnerManager) (router : Router) (route : Route) (body : Json) (command : Command)
    (text : Bytes) (faithful : codec.Faithful conversions) (sampled : Sampled route)
    (range : InRange conversions body)
    (accepted : router.command conversions manager route body = some command)
    (written : (hop command).bind codec.dump = some text) :
    ∃ opts, received codec conversions chatTemplate command = some opts ∧
      (Reaches conversions body opts ↔
        (∀ k, sentInt "top_k" body ≠ some k) ∧
          ∀ p, sent "top_p" body = some p →
            conversions.float p = conversions.float (19 / 20)) := by
  rcases command_taken sampled range accepted with ⟨opts, calls, taken⟩
  exact ⟨runnerOpts opts, received_eq chatTemplate faithful calls taken.deliverable written,
    reaches_runnerOpts_iff taken⟩

/-- Rounding to multiples of 2⁻²⁴, as a `float` between one half and one has them. -/
def nearest : Conversions where
  float value := (((value * 2 ^ 25).floor + 1) / 2 : Int) / 2 ^ 24
  double := id
  truncate value := value.num.tdiv value.den
  float_float value := by
    generalize ((value * 2 ^ 25).floor + 1) / 2 = k
    have doubled : (k : ℚ) / 2 ^ 24 * 2 ^ 25 = ((2 * k : Int) : ℚ) := by
      push_cast
      ring
    rw [doubled, Rat.floor_intCast]
    congr 2
    omega
  double_float _ := rfl

/-- The text of the completion request for which the manager was asked below. -/
def completionText : Bytes :=
  bytes ("\x7b\"options\":\x7b\"max_tokens\":7,\"temperature\":0.5,\"top_k\":40," ++
    "\"top_p\":0.949999988079071\x7d,\"prompt\":\"hi\"\x7d")

def completionOptions : CompletionOptions := ⟨7, 1 / 2, 15938355 / 16777216, 40⟩

/-- A library for a single text. -/
def singleText : Codec where
  parse text := if text = completionText then some (completionBody (bytes "hi") completionOptions)
    else none
  dump
    | .obj [(options, .obj [(a, .int n), (b, .real t), (c, .int k), (d, .real p)]),
        (prompt, .str input)] =>
        if [options, a, b, c, d, prompt, input] = [bytes "options", bytes "max_tokens",
            bytes "temperature", bytes "top_k", bytes "top_p", bytes "prompt", bytes "hi"] ∧
          CompletionOptions.mk n t p k = completionOptions then some completionText else none
    | _ => none

theorem singleText_faithful (conversions : Conversions) : singleText.Faithful conversions := by
  intro json text _ dumped
  simp only [singleText] at dumped ⊢
  split at dumped
  · split at dumped
    next same =>
      cases dumped
      rw [if_pos rfl]
      simp only [List.cons.injEq, and_true, completionOptions, CompletionOptions.mk.injEq] at same
      rcases same with ⟨⟨rfl, rfl, rfl, rfl, rfl, rfl, rfl⟩, rfl, rfl, rfl, rfl⟩
      rfl
    · cases dumped
  · cases dumped

/-- A completion request with a `top_k`. -/
def request : Json :=
  .obj [(bytes "max_tokens", .int 7), (bytes "model", .str (bytes "m")),
    (bytes "prompt", .str (bytes "hi")), (bytes "temperature", .real (1 / 2)),
    (bytes "top_k", .int 1)]

/-- The call for the request. -/
def requestCommand : Command := .generateCompletion (bytes "m") (bytes "hi") completionOptions

theorem request_range : InRange nearest request where
  maxTokens member found := by
    have isSeven : request.find "max_tokens" = some (.int 7) := rfl
    rw [isSeven] at found
    cases found
    exact ⟨7, rfl, by decide, by decide⟩
  temperature member found := by
    have isHalf : request.find "temperature" = some (.real (1 / 2)) := rfl
    rw [isHalf] at found
    cases found
    exact Or.inr ⟨1 / 2, rfl, rfl⟩
  topP member found := by
    have absent : request.find "top_p" = none := rfl
    rw [absent] at found
    cases found
  topK member found := by
    have isOne : request.find "top_k" = some (.int 1) := rfl
    rw [isOne] at found
    cases found
    exact ⟨1, rfl, by decide, by decide⟩

theorem request_accepted :
    Router.oatpp.command nearest ⟨[], [], ∅, ∅, ∅⟩ .completions request = some requestCommand := by
  decide +kernel

theorem request_written : (hop requestCommand).bind singleText.dump = some completionText := by
  decide +kernel

theorem reaches_iff_request :
    ∃ opts, received singleText nearest [] requestCommand = some opts ∧
      (Reaches nearest request opts ↔
        (∀ k, sentInt "top_k" request ≠ some k) ∧
          ∀ p, sent "top_p" request = some p → nearest.float p = nearest.float (19 / 20)) :=
  reaches_iff singleText nearest [] ⟨[], [], ∅, ∅, ∅⟩ .oatpp .completions request requestCommand
    completionText (singleText_faithful nearest) (Or.inl rfl) request_range request_accepted
    request_written

/-- The runner does not sample by a `top_k` of one. -/
theorem not_reaches_topK :
    InRange nearest request ∧
      Router.oatpp.command nearest ⟨[], [], ∅, ∅, ∅⟩ .completions request =
        some requestCommand ∧
      ∃ opts, received singleText nearest [] requestCommand = some opts ∧
        ¬Reaches nearest request opts := by
  have taken : Taken nearest request completionOptions := by
    rcases command_taken (Or.inl rfl) request_range request_accepted with ⟨opts, calls, taken⟩
    cases calls
    exact taken
  refine ⟨request_range, request_accepted, runnerOpts completionOptions, ?_, ?_⟩
  · exact received_eq [] (singleText_faithful nearest) rfl taken.deliverable request_written
  · intro reaches
    have held : (40 : Int) = 1 := (reaches.topK 1 rfl).1
    cases held

end Cllama.Boundary
