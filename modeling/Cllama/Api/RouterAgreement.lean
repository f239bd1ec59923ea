import Cllama.Api.Requests
import Cllama.Library.JsonText

/-!
# Requests on which the two routers agree

Field by field: what the oatpp controller cannot read, the cpprest router cannot read
either; what both can read is read alike, except for missing members, Booleans in place of
numbers and integers too large for a `double`.  `Reads` compares the two readings of one
field, and is closed under reading one field after another.
-/

namespace Cllama.Api

open Cllama.Library Cllama.Core RunnerMgr

variable {α β : Type} {conversions : Conversions}

/-! ## Comparing two readings -/

/-- One after the other. -/
def both (first : Option α) (second : Option β) : Option (α × β) :=
  first.bind fun a => second.map fun b => (a, b)

theorem both_eq_none {first : Option α} {second : Option β} :
    both first second = none ↔ first = none ∨ second = none := by
  cases first <;> cases second <;> simp [both]

theorem two_eq {γ : Type} (build : α → β → γ) (a : Option α) (b : Option β) :
    (do let x ← a; let y ← b; return build x y) =
      (both a b).map fun pair => build pair.1 pair.2 := by
  cases a <;> cases b <;> rfl

theorem four_eq {γ δ ε : Type} (build : α → β → γ → δ → ε) (a : Option α) (b : Option β)
    (c : Option γ) (d : Option δ) :
    (do let x ← a; let y ← b; let z ← c; let w ← d; return build x y z w) =
      (both a (both b (both c d))).map fun tuple =>
        build tuple.1 tuple.2.1 tuple.2.2.1 tuple.2.2.2 := by
  cases a <;> cases b <;> cases c <;> cases d <;> rfl

/-- The first reading fails on wrong fields, the second one then fails too, and otherwise
the two are the same on matching ones. -/
structure Reads (first second : Option α) (wrong matching : Prop) : Prop where
  rejects : first = none ↔ wrong
  stricter : first = none → second = none
  same : first ≠ none → (first = second ↔ matching)

namespace Reads

variable {a a' : Option α} {b b' : Option β} {wrong wrong' matching matching' : Prop}

theorem of_same (rejects : a = none ↔ wrong) (same : matching) : Reads a a wrong matching where
  rejects := rejects
  stricter := id
  same _ := iff_of_true rfl same

theorem of_none (rejects : a = none ↔ wrong) (differs : ¬matching) :
    Reads a none wrong matching where
  rejects := rejects
  stricter _ := rfl
  same accepted := iff_of_false accepted differs

theorem eq_iff (reads : Reads a a' wrong matching) : a = a' ↔ wrong ∨ matching := by
  by_cases rejected : a = none
  · rw [rejected, reads.stricter rejected]
    exact iff_of_true rfl (Or.inl (reads.rejects.mp rejected))
  · rw [reads.same rejected]
    exact (or_iff_right fun isWrong => rejected (reads.rejects.mpr isWrong)).symm

theorem congr (reads : Reads a a' wrong matching) (sameWrong : wrong ↔ wrong')
    (sameMatching : matching ↔ matching') : Reads a a' wrong' matching' := by
  rwa [← propext sameWrong, ← propext sameMatching]

theorem both (first : Reads a a' wrong matching) (second : Reads b b' wrong' matching') :
    Reads (both a b) (both a' b') (wrong ∨ wrong') (matching ∧ matching') := by
  constructor
  · rw [both_eq_none, first.rejects, second.rejects]
  · intro rejected
    rcases both_eq_none.mp rejected with left | right
    · rw [first.stricter left]
      rfl
    · rw [second.stricter right]
      cases a' <;> rfl
  · intro accepted
    rw [ne_eq, both_eq_none, not_or] at accepted
    rw [← first.same accepted.1, ← second.same accepted.2]
    cases a with
    | none => exact absurd rfl accepted.1
    | some x =>
        cases b with
        | none => exact absurd rfl accepted.2
        | some y => cases a' <;> cases b' <;> simp [Api.both]

theorem mapOfSame (reads : Reads a a' wrong matching) {build : α → β}
    (same : a ≠ none → (a.map build = a'.map build ↔ matching)) :
    Reads (a.map build) (a'.map build) wrong matching := by
  constructor
  · rw [Option.map_eq_none_iff]
    exact reads.rejects
  · intro rejected
    rw [Option.map_eq_none_iff] at rejected
    rw [reads.stricter rejected, Option.map_none]
  · intro accepted
    rw [ne_eq, Option.map_eq_none_iff] at accepted
    exact same accepted

theorem map (reads : Reads a a' wrong matching) {build : α → β}
    (injective : Function.Injective build) :
    Reads (a.map build) (a'.map build) wrong matching := by
  apply reads.mapOfSame
  intro accepted
  rw [(Option.map_injective injective).eq_iff]
  exact reads.same accepted

/-- What is read a second time matches; `build` may then forget about it. -/
theorem mapOfRead (reads : Reads a a' wrong matching) (read : a' ≠ none → matching)
    (build : α → β) : Reads (a.map build) (a'.map build) wrong matching := by
  apply reads.mapOfSame
  intro accepted
  constructor
  · intro same
    apply read
    intro rejected
    rw [rejected, Option.map_none, Option.map_eq_none_iff] at same
    exact accepted same
  · intro matches'
    rw [(reads.same accepted).mpr matches']

/-- Two readings of every item of a list. -/
theorem mapM {read read' : β → Option α} {wrong matching : β → Prop} {items : List β}
    (each : ∀ item ∈ items, Reads (read item) (read' item) (wrong item) (matching item)) :
    Reads (items.mapM read) (items.mapM read') (∃ item ∈ items, wrong item)
      (∀ item ∈ items, matching item) := by
  have mapM_cons : ∀ (f : β → Option α) (item : β) (items : List β),
      (item :: items).mapM f = (Api.both (f item) (items.mapM f)).map fun pair =>
        pair.1 :: pair.2 := by
    intro f item items
    rw [List.mapM_cons]
    cases f item <;> cases items.mapM f <;> rfl
  induction items with
  | nil => exact .of_same (by simp) (by simp)
  | cons item items ih =>
      rw [List.forall_mem_cons] at each
      rw [mapM_cons, mapM_cons]
      have injective : Function.Injective fun pair : α × List α => pair.1 :: pair.2 := by
        rintro ⟨x, xs⟩ ⟨y, ys⟩ same
        rw [List.cons.injEq] at same
        exact Prod.ext same.1 same.2
      apply ((each.1.both (ih each.2)).map injective).congr
      · simp
      · simp

end Reads

/-! ## Fields -/

inductive Kind where
  | string
  | boolean
  | integer
  | fraction
  | messages
  deriving DecidableEq

/-- A member that a handler reads; the cpprest router requires it or not. -/
structure Field where
  key : String
  kind : Kind
  required : Bool

/-- The members that the handlers of an endpoint read. -/
def Route.fields : Route → List Field
  | .completions =>
      [⟨"model", .string, true⟩, ⟨"prompt", .string, true⟩, ⟨"stream", .boolean, false⟩,
        ⟨"max_tokens", .integer, false⟩, ⟨"temperature", .fraction, false⟩]
  | .chatCompletions =>
      [⟨"model", .string, true⟩, ⟨"stream", .boolean, false⟩, ⟨"messages", .messages, true⟩,
        ⟨"max_tokens", .integer, false⟩, ⟨"temperature", .fraction, false⟩]
  | .embeddings => [⟨"model", .string, true⟩, ⟨"input", .string, true⟩]
  | .run =>
      [⟨"name", .string, true⟩, ⟨"binary", .string, true⟩, ⟨"model", .string, true⟩,
        ⟨"type", .string, false⟩]
  | .stop => [⟨"name", .string, true⟩]

/-- A string member of a message, if it is there. -/
def StringIfPresent (key : String) (json : Json) : Prop :=
  ∀ value, json.find key = some value → ∃ text, value = .str text

/-- An object whose role and content, as far as they are there, are strings. -/
def IsMessage (json : Json) : Prop :=
  (∃ members, json = .obj members) ∧ StringIfPresent "role" json ∧ StringIfPresent "content" json

/-- The values that `nlohmann::json` reads as a field of a kind. -/
def Kind.Readable : Kind → Json → Prop
  | .string, value => ∃ text, value = .str text
  | .boolean, value => ∃ flag, value = .bool flag
  | .integer, value | .fraction, value =>
      (∃ number, value = .int number) ∨ (∃ number, value = .real number) ∨
        ∃ flag, value = .bool flag
  | .messages, value => ∀ item ∈ Runner.elements value, IsMessage item

/-- A member is there and cannot be read. -/
def Field.Wrong (field : Field) (body : Json) : Prop :=
  ∃ value, body.find field.key = some value ∧ ¬field.kind.Readable value

/-- A readable member that the two libraries read alike: it is there if it is required; a
number is no Boolean, and a whole number rounds to the same `float` directly and by way of
a `double`; messages are an array, and each has a role and a content. -/
def Field.Matching (conversions : Conversions) (field : Field) (body : Json) : Prop :=
  (field.required = true → (body.find field.key).isSome = true) ∧
    match field.kind with
    | .string | .boolean => True
    | .integer => ∀ flag, body.find field.key ≠ some (.bool flag)
    | .fraction => (∀ flag, body.find field.key ≠ some (.bool flag)) ∧
        ∀ number : Int, body.find field.key = some (.int number) →
          conversions.float (conversions.double number) = conversions.float number
    | .messages => ∃ items, body.find field.key = some (.arr items) ∧
        ∀ item ∈ items, item.contains "role" = true ∧ item.contains "content" = true

/-- A request with a field that nobody can read, or all of whose fields are read alike. -/
def Agreeable (conversions : Conversions) (route : Route) (body : Json) : Prop :=
  (∃ field ∈ route.fields, field.Wrong body) ∨
    ∀ field ∈ route.fields, field.Matching conversions body

/-! ## The readings of a field -/

section Readings

variable (conversions : Conversions) (members : List (Bytes × Json))

theorem reads_string (key : String) :
    Reads ((Json.obj members).value Json.getString key []) (CppRest.stringField key (.obj members))
      (Field.Wrong ⟨key, .string, true⟩ (.obj members))
      (Field.Matching conversions ⟨key, .string, true⟩ (.obj members)) := by
  rw [Json.value, CppRest.stringField, Json.index, Field.Wrong, Field.Matching, Json.find]
  cases members.lookup (bytes key) with
  | none => exact .of_none (by simp) (by simp)
  | some value =>
      cases value <;> constructor <;> simp [Json.getString, Kind.Readable]

theorem reads_type :
    Reads ((Json.obj members).value Json.getString "type" []) (CppRest.runnerType (.obj members))
      (Field.Wrong ⟨"type", .string, false⟩ (.obj members))
      (Field.Matching conversions ⟨"type", .string, false⟩ (.obj members)) := by
  rw [Json.value, CppRest.runnerType, CppRest.stringField, Json.index, Field.Wrong,
    Field.Matching, Json.contains, Json.find]
  cases members.lookup (bytes "type") with
  | none => exact .of_same (by simp) (by simp)
  | some value =>
      cases value <;> constructor <;> simp [Json.getString, Kind.Readable]

theorem reads_stream :
    Reads ((Json.obj members).value Json.getBool "stream" false) (CppRest.stream (.obj members))
      (Field.Wrong ⟨"stream", .boolean, false⟩ (.obj members))
      (Field.Matching conversions ⟨"stream", .boolean, false⟩ (.obj members)) := by
  rw [Json.value, CppRest.stream, Json.index, Field.Wrong, Field.Matching, Json.contains,
    Json.find]
  cases members.lookup (bytes "stream") with
  | none => exact .of_same (by simp) (by simp)
  | some value =>
      cases value <;> constructor <;> simp [Json.getBool, Kind.Readable]

theorem reads_maxTokens :
    Reads (Oatpp.maxTokens conversions (.obj members))
      (CppRest.maxTokens conversions (.obj members))
      (Field.Wrong ⟨"max_tokens", .integer, false⟩ (.obj members))
      (Field.Matching conversions ⟨"max_tokens", .integer, false⟩ (.obj members)) := by
  rw [Oatpp.maxTokens, CppRest.maxTokens, Json.index, Field.Wrong, Field.Matching,
    Json.contains, Json.find]
  cases members.lookup (bytes "max_tokens") with
  | none => exact .of_same (by simp) (by simp)
  | some value =>
      cases value <;> constructor <;>
        simp [Conversions.getInt, Conversions.asInteger, Kind.Readable]

theorem reads_temperature :
    Reads (Oatpp.temperature conversions (.obj members))
      (CppRest.temperature conversions (.obj members))
      (Field.Wrong ⟨"temperature", .fraction, false⟩ (.obj members))
      (Field.Matching conversions ⟨"temperature", .fraction, false⟩ (.obj members)) := by
  rw [Oatpp.temperature, CppRest.temperature, Json.index, Field.Wrong, Field.Matching,
    Json.contains, Json.find]
  cases members.lookup (bytes "temperature") with
  | none => exact .of_same (by simp) (by simp)
  | some value =>
      cases value <;> constructor <;>
        simp [Conversions.getFloat, Conversions.asDouble, Kind.Readable, eq_comm]

theorem reads_options :
    Reads (Oatpp.options conversions (.obj members)) (CppRest.options conversions (.obj members))
      (Field.Wrong ⟨"max_tokens", .integer, false⟩ (.obj members) ∨
        Field.Wrong ⟨"temperature", .fraction, false⟩ (.obj members))
      (Field.Matching conversions ⟨"max_tokens", .integer, false⟩ (.obj members) ∧
        Field.Matching conversions ⟨"temperature", .fraction, false⟩ (.obj members)) := by
  rw [Oatpp.options, CppRest.options, two_eq, two_eq]
  apply ((reads_maxTokens conversions members).both (reads_temperature conversions members)).map
  rintro ⟨n, t⟩ ⟨n', t'⟩ same
  rw [CompletionOptions.mk.injEq] at same
  exact Prod.ext same.1 same.2.1

/-! ## The readings of the messages -/

theorem reads_member (members : List (Bytes × Json)) (key : String) :
    Reads ((Json.obj members).value Json.getString key [])
      (((Json.obj members).find key).bind Json.getString)
      (¬StringIfPresent key (.obj members)) ((Json.obj members).contains key = true) := by
  rw [Json.value, StringIfPresent, Json.contains, Json.find]
  cases members.lookup (bytes key) with
  | none => exact .of_none (by simp) (by simp)
  | some value => cases value <;> constructor <;> simp [Json.getString]

theorem reads_message (item : Json) :
    Reads (Oatpp.message item) (CppRest.message item) (¬IsMessage item)
      (item.contains "role" = true ∧ item.contains "content" = true) := by
  have injective : Function.Injective fun pair : Bytes × Bytes => Message.mk pair.1 pair.2 := by
    rintro ⟨role, content⟩ ⟨role', content'⟩ same
    rw [Message.mk.injEq] at same
    exact Prod.ext same.1 same.2
  cases item with
  | obj members =>
      rw [Oatpp.message, CppRest.message, two_eq, two_eq]
      apply (((reads_member members "role").both (reads_member members "content")).map
        injective).congr
      · simp [IsMessage, imp_iff_not_or]
      · exact Iff.rfl
  | _ =>
      exact .of_none (by simp [Oatpp.message, Json.value, IsMessage])
        (by simp [Json.contains, Json.find])

theorem reads_messages (members : List (Bytes × Json)) :
    Reads (Oatpp.messages (.obj members)) (CppRest.messages (.obj members))
      (Field.Wrong ⟨"messages", .messages, true⟩ (.obj members))
      (Field.Matching conversions ⟨"messages", .messages, true⟩ (.obj members)) := by
  rw [Oatpp.messages, CppRest.messages, Json.index, Field.Wrong, Field.Matching, Json.find]
  cases members.lookup (bytes "messages") with
  | none => exact .of_none (by simp) (by simp)
  | some value =>
      have items := Reads.mapM fun item (_ : item ∈ Runner.elements value) => reads_message item
      have wrong : (∃ item ∈ Runner.elements value, ¬IsMessage item) ↔
          ∃ found, some value = some found ∧ ¬Kind.messages.Readable found := by
        simp [Kind.Readable]
      cases value with
      | arr elements =>
          apply items.congr wrong
          simp [Runner.elements]
      | _ => exact .of_none (items.rejects.trans wrong) (by simp)

end Readings

/-! ## The routers -/

variable (conversions : Conversions) (members : List (Bytes × Json))

theorem reads_completions :
    Reads (Oatpp.completions conversions (.obj members))
      (CppRest.completions conversions (.obj members))
      (∃ field ∈ Route.completions.fields, field.Wrong (.obj members))
      (∀ field ∈ Route.completions.fields, field.Matching conversions (.obj members)) := by
  rw [Oatpp.completions, CppRest.completions, four_eq, four_eq]
  have fields := (reads_string conversions members "model").both
    ((reads_string conversions members "prompt").both
      ((reads_stream conversions members).both (reads_options conversions members)))
  apply (fields.map _).congr
  · simp [Route.fields]
  · simp [Route.fields]
  · rintro ⟨model, prompt, stream, opts⟩ ⟨model', prompt', stream', opts'⟩ same
    cases stream <;> cases stream' <;> simp_all

theorem reads_chatCompletions :
    Reads (Oatpp.chatCompletions conversions (.obj members))
      (CppRest.chat conversions (.obj members))
      (∃ field ∈ Route.chatCompletions.fields, field.Wrong (.obj members))
      (∀ field ∈ Route.chatCompletions.fields, field.Matching conversions (.obj members)) := by
  rw [Oatpp.chatCompletions, CppRest.chat, four_eq, four_eq]
  have fields := (reads_string conversions members "model").both
    ((reads_stream conversions members).both
      ((reads_messages conversions members).both (reads_options conversions members)))
  apply (fields.map _).congr
  · simp [Route.fields]
  · simp [Route.fields]
  · rintro ⟨model, stream, messages, opts⟩ ⟨model', stream', messages', opts'⟩ same
    cases stream <;> cases stream' <;> simp_all

theorem reads_embeddings :
    Reads (Oatpp.embeddings (.obj members)) (CppRest.embeddings (.obj members))
      (∃ field ∈ Route.embeddings.fields, field.Wrong (.obj members))
      (∀ field ∈ Route.embeddings.fields, field.Matching conversions (.obj members)) := by
  rw [Oatpp.embeddings, CppRest.embeddings, two_eq, two_eq]
  have fields := (reads_string conversions members "model").both
    (reads_string conversions members "input")
  apply (fields.map _).congr
  · simp [Route.fields]
  · simp [Route.fields]
  · rintro ⟨model, input⟩ ⟨model', input'⟩ same
    simp_all

theorem read_string (key : String) (read : CppRest.stringField key (.obj members) ≠ none) :
    Field.Matching conversions ⟨key, .string, true⟩ (.obj members) := by
  rw [CppRest.stringField, Json.index] at read
  rw [Field.Matching, Json.find]
  cases found : members.lookup (bytes key) with
  | none =>
      rw [found] at read
      exact absurd rfl read
  | some value => exact ⟨fun _ => rfl, trivial⟩

theorem reads_run (manager : RunnerManager) :
    Reads (Oatpp.run manager (.obj members)) (CppRest.run manager (.obj members))
      (∃ field ∈ Route.run.fields, field.Wrong (.obj members))
      (∀ field ∈ Route.run.fields, field.Matching conversions (.obj members)) := by
  rw [Oatpp.run, CppRest.run, four_eq, four_eq]
  have fields := (reads_string conversions members "name").both
    ((reads_string conversions members "binary").both
      ((reads_string conversions members "model").both
        (reads_type conversions members)))
  -- two model names may resolve to one path, but the cpprest router only reads equal names
  apply (fields.mapOfRead _ _).congr
  · simp [Route.fields]
  · simp [Route.fields]
  · intro read
    rw [ne_eq, both_eq_none, both_eq_none, both_eq_none, not_or, not_or, not_or] at read
    exact ⟨read_string conversions members _ read.1, read_string conversions members _ read.2.1,
      read_string conversions members _ read.2.2.1, nofun, trivial⟩

theorem reads_stop :
    Reads (Oatpp.stop (.obj members)) (CppRest.stop (.obj members))
      (∃ field ∈ Route.stop.fields, field.Wrong (.obj members))
      (∀ field ∈ Route.stop.fields, field.Matching conversions (.obj members)) := by
  have single : ∀ name : Option Bytes,
      (do let runnerName ← name; return Command.stop runnerName) = name.map Command.stop := by
    intro name
    cases name <;> rfl
  rw [Oatpp.stop, CppRest.stop, single, single]
  apply ((reads_string conversions members "name").map _).congr
  · simp [Route.fields]
  · simp [Route.fields]
  · intro name name' same
    rwa [Command.stop.injEq] at same

/-- The routers make the same call, or both make none, exactly for agreeable bodies. -/
theorem command_eq_iff_agreeable (conversions : Conversions) (manager : RunnerManager)
    (route : Route) (members : List (Bytes × Json)) :
    Oatpp.command conversions manager route (.obj members) =
        CppRest.command conversions manager route (.obj members) ↔
      Agreeable conversions route (.obj members) := by
  cases route with
  | completions => exact (reads_completions conversions members).eq_iff
  | chatCompletions => exact (reads_chatCompletions conversions members).eq_iff
  | embeddings => exact (reads_embeddings conversions members).eq_iff
  | run => exact (reads_run conversions members manager).eq_iff
  | stop => exact (reads_stop conversions members).eq_iff

/-- A completion request without a prompt: the oatpp controller takes an empty prompt, the
cpprest router rejects the request. -/
theorem command_ne_of_no_prompt :
    ∃ (conversions : Conversions) (manager : RunnerManager) (body : Json),
      body = .obj [(bytes "model", .str (bytes "qwen.gguf"))] ∧
        Oatpp.command conversions manager .completions body ≠
          CppRest.command conversions manager .completions body := by
  refine ⟨.exact, ⟨[], [], ∅, ∅, ∅⟩, _, rfl, ?_⟩
  decide +kernel

end Cllama.Api
