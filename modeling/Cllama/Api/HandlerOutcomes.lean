import Cllama.Api.Handlers
import Cllama.Api.RouterAgreement
import Cllama.Library.JsonTextLawful

/-!
# Which requests the handlers answer

A request whose members have the right kinds is answered unless the file system fails, and
a malformed one is only answered when it cannot be parsed.  All texts that go into a
response come out of a parsed body, so that the response can be written; the path of a
missing model is the one exception.
-/

namespace Cllama.Api

open Cllama.Library Cllama.Core RunnerMgr Cllama.Platform

variable {os : Os} {codec : Codec}

/-! ## Results of the manager -/

/-- A result whose value is good, or whose message can be written. -/
def Reported {α : Type} (good : α → Prop) : CLlamaResult α → Prop
  | .ok value => good value
  | .error error => Utf8.valid error.message = true

/-- A text that can be written. -/
def Writable (text : Bytes) : Prop := Utf8.valid text = true

theorem valid_httpFailure {failure : String} (valid : Utf8.valid (bytes failure) = true)
    (code : Int) : Utf8.valid (httpFailure failure code) = true :=
  Utf8.valid_append valid (Utf8.valid_integer code)

/-- What a line says can be written, since it has been parsed. -/
theorem readRecord_writable (sound : codec.Sound) (line : Bytes) :
    match readRecord codec line with
    | .error fault => Writable fault.message
    | .ok record => ∀ text, Writable text → Writable (record.finish text) := by
  rw [readRecord]
  cases parsed : codec.parse line with
  | none => exact (by decide : Utf8.valid invalidNdjson = true)
  | some json =>
      have wellFormed := sound.parse _ _ parsed
      have invalid : Utf8.valid invalidNdjson = true := by decide
      dsimp only
      rw [readValue]
      cases failed : json.find "error" with
      | some error =>
          dsimp only
          cases read : error.getString with
          | some message => exact Json.valid_of_getString (wellFormed.find failed) read
          | none => exact invalid
      | none =>
          dsimp only
          cases json.value Json.getBool "done" false with
          | none => exact invalid
          | some done =>
              cases done with
              | false => exact fun text valid => valid
              | true =>
                  dsimp only
                  cases present : json.find "text" with
                  | none => exact fun text valid => valid
                  | some member =>
                      dsimp only
                      cases read : member.getString with
                      | none => exact invalid
                      | some final =>
                          exact fun _ _ => Json.valid_of_getString (wellFormed.find present) read

theorem readLine_writable (sound : codec.Sound) {text : Bytes} (start : Writable text)
    (line : Bytes) :
    match readLine (readRecord codec) text line with
    | .error fault => Writable fault.message
    | .ok next => Writable next := by
  have record := readRecord_writable sound line
  rw [readLine]
  by_cases empty : line = []
  · rw [if_pos empty]
    exact start
  · rw [if_neg empty]
    cases read : readRecord codec line with
    | error fault =>
        rw [read] at record
        exact record
    | ok found =>
        rw [read] at record
        exact record text start

/-- By induction on the lines, whose text so far can be written. -/
theorem parseNdjson_reported (sound : codec.Sound) (body : Bytes) :
    Reported Writable (parseNdjson codec body) := by
  rw [parseNdjson_eq_readLines]
  have start : Writable [] := rfl
  generalize ([] : Bytes) = text at start
  induction bodyLines body generalizing text with
  | nil => exact start
  | cons line lines ih =>
      have first := readLine_writable sound start line
      rw [readLines]
      cases read : readLine (readRecord codec) text line with
      | error fault =>
          rw [read] at first
          exact first
      | ok next =>
          rw [read] at first
          exact ih next first

theorem postReply_reported (sound : codec.Sound) {failure : String}
    (valid : Utf8.valid (bytes failure) = true) (exchange : Http.Exchange) :
    Reported Writable (postReply codec failure exchange) := by
  rw [postReply]
  split
  · exact valid_httpFailure valid 0
  · split
    · exact valid_httpFailure valid _
    · exact parseNdjson_reported sound _

theorem embeddingsReply_reported (exchange : Http.Exchange) :
    Reported (fun _ => True) (embeddingsReply codec exchange) := by
  rw [embeddingsReply]
  split
  · exact valid_httpFailure (by decide) 0
  · split
    · exact valid_httpFailure (by decide) _
    · split
      · exact (by decide : Utf8.valid (bytes "Invalid runner response") = true)
      · trivial

/-! ## Calls that throw -/

/-- A model is served, or the file system answers whether it exists. -/
def Found (os : Os) (system : System) (modelName : Bytes) : Prop :=
  (find modelName system).isSome = true ∨ os.fileExists system.world.clock ≠ none

theorem getOrStart_eq_none_iff (modelName : Bytes) (system : System) :
    (getOrStart os modelName system).1 = none ↔ ¬Found os system modelName := by
  rw [getOrStart, Found]
  cases found : find modelName system with
  | some r => simp
  | none =>
      unfold World.exists?
      cases os.fileExists system.world.clock with
      | none => simp
      | some isFile =>
          cases isFile with
          | false => simp
          | true =>
              dsimp only
              split <;> simp

/-- A proxied request whose body can be written throws only when the model is not found. -/
theorem proxy_outcome {α : Type} {good : α → Prop} {modelName path : Bytes} {body : Json}
    {reply : Http.Exchange → CLlamaResult α} {system : System} (modelValid : Writable modelName)
    (written : (codec.dump body).isSome = true)
    (reported : ∀ exchange, Reported good (reply exchange)) :
    match (proxy os codec modelName path body reply system).1 with
    | none => ¬Found os system modelName
    | some result => Found os system modelName ∧ Reported good result := by
  rcases Option.isSome_iff_exists.mp written with ⟨text, dumped⟩
  have throws := @getOrStart_eq_none_iff os modelName system
  unfold proxy
  rcases started : getOrStart os modelName system with ⟨outcome, next⟩
  rw [started] at throws
  cases outcome with
  | none => exact throws.mp rfl
  | some runner =>
      have found : Found os system modelName := by
        by_cases isFound : Found os system modelName
        · exact isFound
        · cases throws.mpr isFound
      cases runner with
      | none => exact ⟨found, Utf8.valid_append (by decide) modelValid⟩
      | some r =>
          simp only [dumped]
          exact ⟨found, reported _⟩

/-- The conditions under which starting a runner does not throw, and can be reported. -/
def Startable (os : Os) (system : System) (runnerName modelPath : Bytes) : Prop :=
  (find runnerName system).isSome = true ∨ os.fileExists system.world.clock = some true ∨
    os.fileExists system.world.clock = some false ∧ Writable modelPath

/-- What starting a runner comes to. -/
theorem startRunner_outcome {runnerName : Bytes} (runnerBin runnerType modelPath : Bytes)
    {system : System} (nameValid : Writable runnerName) :
    (∃ result, (startRunner os runnerName runnerBin runnerType modelPath system).1 = some result ∧
        Reported (fun _ => True) result) ↔
      Startable os system runnerName modelPath := by
  unfold startRunner Startable
  split
  next running =>
    apply iff_of_true
    · exact ⟨_, rfl, Utf8.valid_append (by decide) nameValid⟩
    · exact Or.inl running
  next absent =>
    unfold World.exists?
    cases os.fileExists system.world.clock with
    | none => simp [absent]
    | some isFile =>
        cases isFile with
        | false =>
            have prefixed : Utf8.valid (bytes "Model file not found: " ++ modelPath) = true ↔
                Writable modelPath := by
              exact Utf8.valid_append_iff (by decide)
            simpa [absent, Reported] using prefixed
        | true =>
            apply iff_of_true
            · dsimp only
              split
              · exact ⟨_, rfl, (by decide : Utf8.valid (bytes "Failed to find free port") = true)⟩
              · split
                · exact ⟨_, rfl, Utf8.valid_append (by decide) nameValid⟩
                · exact ⟨_, rfl, trivial⟩
            · exact Or.inr (Or.inl rfl)

/-! ## Responses -/

theorem jsonResponse_isSome_iff (sound : codec.Sound) (status : Nat) (json : Json) :
    (jsonResponse codec status json).isSome = true ↔ json.WellFormed := by
  rw [jsonResponse, Option.isSome_map]
  exact sound.dump json

theorem serverError_wellFormed {error : Error} (valid : Writable error.message) :
    (serverError error).WellFormed := by
  apply Json.WellFormed.ofKeys [bytes "message", bytes "type"] rfl (by decide)
  exact ⟨.str valid, .str (by decide)⟩

theorem usage_wellFormed : usage.WellFormed := by
  apply Json.WellFormed.ofKeys [bytes "completion_tokens", bytes "prompt_tokens",
    bytes "total_tokens"] rfl (by decide)
  exact ⟨.int 0, .int 0, .int 0⟩

theorem textResponse_wellFormed {object id model : Bytes} {created : Nat} {choice : Bytes → Json}
    {result : CLlamaResult Bytes} (objectValid : Writable object) (idValid : Writable id)
    (modelValid : Writable model)
    (choiceWellFormed : ∀ text, Writable text → (choice text).WellFormed)
    (reported : Reported Writable result) :
    (textResponse object id model created choice result).WellFormed := by
  cases result with
  | ok text =>
      apply Json.WellFormed.ofKeys [bytes "choices", bytes "created", bytes "id", bytes "model",
        bytes "object", bytes "usage"] rfl (by decide)
      exact ⟨.arr (List.forall_mem_singleton.mpr (choiceWellFormed text reported)), .int _,
        .str idValid, .str modelValid, .str objectValid, usage_wellFormed⟩
  | error error =>
      apply Json.WellFormed.ofKeys [bytes "created", bytes "error", bytes "id", bytes "model",
        bytes "object"] rfl (by decide)
      exact ⟨.int _, serverError_wellFormed reported, .str idValid, .str modelValid,
        .str objectValid⟩

theorem completionResponse_wellFormed {stamps : Stamps} {model : Bytes}
    {result : CLlamaResult Bytes} (modelValid : Writable model)
    (reported : Reported Writable result) :
    (completionResponse stamps model result).WellFormed := by
  apply textResponse_wellFormed (by decide : Utf8.valid (bytes "text_completion") = true)
    (Utf8.valid_append (by decide) (Utf8.valid_digits _)) modelValid ?_ reported
  intro text valid
  apply Json.WellFormed.ofKeys [bytes "finish_reason", bytes "index", bytes "logprobs",
    bytes "text"] rfl (by decide)
  exact ⟨.str (by decide), .int 0, .null, .str valid⟩

theorem chatResponse_wellFormed {stamps : Stamps} {model : Bytes}
    {result : CLlamaResult Bytes} (modelValid : Writable model)
    (reported : Reported Writable result) : (chatResponse stamps model result).WellFormed := by
  apply textResponse_wellFormed (by decide : Utf8.valid (bytes "chat.completion") = true)
    (Utf8.valid_append (by decide) (Utf8.valid_digits _)) modelValid ?_ reported
  intro content valid
  have message : (Json.obj [(bytes "content", .str content),
      (bytes "role", .str (bytes "assistant"))]).WellFormed := by
    apply Json.WellFormed.ofKeys [bytes "content", bytes "role"] rfl (by decide)
    exact ⟨.str valid, .str (by decide)⟩
  apply Json.WellFormed.ofKeys [bytes "finish_reason", bytes "index", bytes "logprobs",
    bytes "message"] rfl (by decide)
  exact ⟨.str (by decide), .int 0, .null, message⟩

theorem embeddingsResponse_wellFormed {stamps : Stamps} {model : Bytes}
    {result : CLlamaResult Embedding} (modelValid : Writable model)
    (reported : Reported (fun _ => True) result) :
    (embeddingsResponse stamps model result).WellFormed := by
  have idValid : Writable (bytes "embd-" ++ bytes (toString stamps.id)) :=
    Utf8.valid_append (by decide) (Utf8.valid_digits _)
  cases result with
  | ok emb =>
      have numbers : (Json.arr (emb.data.map .real)).WellFormed :=
        .arr (List.forall_mem_map.mpr fun value _ => .real value)
      have embedding : (Json.obj [(bytes "embedding", .arr (emb.data.map .real)),
          (bytes "index", .int 0), (bytes "object", .str (bytes "embedding"))]).WellFormed := by
        apply Json.WellFormed.ofKeys [bytes "embedding", bytes "index", bytes "object"] rfl
          (by decide)
        exact ⟨numbers, .int 0, .str (by decide)⟩
      have tokens : (Json.obj [(bytes "prompt_tokens", .int 0),
          (bytes "total_tokens", .int 0)]).WellFormed := by
        apply Json.WellFormed.ofKeys [bytes "prompt_tokens", bytes "total_tokens"] rfl (by decide)
        exact ⟨.int 0, .int 0⟩
      apply Json.WellFormed.ofKeys [bytes "data", bytes "id", bytes "model", bytes "object",
        bytes "usage"] rfl (by decide)
      exact ⟨.arr (List.forall_mem_singleton.mpr embedding), .str idValid, .str modelValid,
        .str (by decide), tokens⟩
  | error error =>
      apply Json.WellFormed.ofKeys [bytes "error", bytes "id", bytes "model", bytes "object"] rfl
        (by decide)
      exact ⟨serverError_wellFormed reported, .str idValid, .str modelValid, .str (by decide)⟩

/-- The response to a start can be written exactly if the message of its error can. -/
theorem runResponse_wellFormed_iff {runnerName runnerType : Bytes} {result : CLlamaResult Bool}
    (nameValid : Writable runnerName) (typeValid : Writable runnerType) :
    (runResponse runnerName runnerType result).WellFormed ↔
      Reported (fun _ => True) result := by
  cases result with
  | ok started =>
      apply iff_of_true _ trivial
      apply Json.WellFormed.ofKeys [bytes "name", bytes "runner_type", bytes "status"] rfl
        (by decide)
      refine ⟨.str nameValid, .str ?_, .str (by decide)⟩
      split
      · decide
      · exact typeValid
  | error error =>
      constructor
      · intro wellFormed
        exact (@Json.WellFormed.find _ _ "error" wellFormed rfl).valid
      · intro reported
        apply Json.WellFormed.ofKeys [bytes "error", bytes "status"] rfl (by decide)
        exact ⟨.str reported, .str (by decide)⟩

/-! ## Well-typed bodies -/

/-- The values of a kind. -/
def Kind.Typed : Kind → Json → Prop
  | .string, value => ∃ text, value = .str text
  | .boolean, value => ∃ flag, value = .bool flag
  | .integer, value | .fraction, value =>
      (∃ number, value = .int number) ∨ ∃ number, value = .real number
  | .messages, value => ∃ items, value = .arr items ∧ ∀ item ∈ items, IsMessage item

/-- An object whose members have the kinds that the endpoint reads them as. -/
structure WellTyped (route : Route) (json : Json) : Prop where
  object : ∃ members, json = .obj members
  fields : ∀ field ∈ route.fields, ∀ value, json.find field.key = some value →
    field.kind.Typed value

/-- A Boolean member, or false. -/
def flag (key : String) (json : Json) : Bool :=
  (json.value Json.getBool key false).getD false

/-- A string member, or the empty text. -/
def text (key : String) (json : Json) : Bytes :=
  (json.value Json.getString key []).getD []

section Members

variable {json : Json} {key : String}

theorem value_eq_text (object : ∃ members, json = .obj members)
    (typed : ∀ value, json.find key = some value → Kind.string.Typed value) :
    json.value Json.getString key [] = some (text key json) := by
  rcases object with ⟨members, rfl⟩
  rw [text, Json.value]
  rw [Json.find] at typed
  cases found : members.lookup (bytes key) with
  | none => rfl
  | some value =>
      rcases typed value found with ⟨content, rfl⟩
      rfl

theorem text_writable (key : String) (wellFormed : json.WellFormed) : Writable (text key json) := by
  rw [text]
  cases read : json.value Json.getString key [] with
  | none => rfl
  | some content => exact Json.valid_of_value wellFormed rfl read

theorem value_eq_flag (object : ∃ members, json = .obj members)
    (typed : ∀ value, json.find key = some value → Kind.boolean.Typed value) :
    json.value Json.getBool key false = some (flag key json) := by
  rcases object with ⟨members, rfl⟩
  rw [flag, Json.value]
  rw [Json.find] at typed
  cases found : members.lookup (bytes key) with
  | none => rfl
  | some value =>
      rcases typed value found with ⟨truth, rfl⟩
      rfl

theorem message_of_isMessage {item : Json} (isMessage : IsMessage item) :
    Oatpp.message item = some ⟨text "role" item, text "content" item⟩ := by
  rcases isMessage with ⟨object, role, content⟩
  rw [Oatpp.message, value_eq_text object role, value_eq_text object content]
  rfl

/-- Well-typed messages are read, and can be written. -/
theorem messages_of_typed (wellFormed : json.WellFormed)
    (typed : ∀ value, json.find "messages" = some value → Kind.messages.Typed value) :
    ∃ messages, Oatpp.messages json = some messages ∧
      ∀ m ∈ messages, Writable m.role ∧ Writable m.content := by
  rw [Oatpp.messages]
  cases found : json.find "messages" with
  | none => exact ⟨[], rfl, List.forall_mem_nil _⟩
  | some value =>
      rcases typed value found with ⟨items, rfl, areMessages⟩
      have each : ∀ item ∈ items, item.WellFormed := by
        cases wellFormed.find found with
        | arr each => exact each
      refine ⟨items.map fun item => ⟨text "role" item, text "content" item⟩, ?_, ?_⟩
      · change items.mapM Oatpp.message = _
        clear found typed
        induction items with
        | nil => rfl
        | cons item items ih =>
            rw [List.forall_mem_cons] at areMessages each
            rw [List.mapM_cons, message_of_isMessage areMessages.1, ih areMessages.2 each.2]
            rfl
      · intro m isMember
        rcases List.mem_map.mp isMember with ⟨item, isItem, rfl⟩
        exact ⟨text_writable "role" (each item isItem), text_writable "content" (each item isItem)⟩

theorem options_isSome (conversions : Conversions)
    (maxTokens : ∀ value, json.find "max_tokens" = some value → Kind.integer.Typed value)
    (temperature : ∀ value, json.find "temperature" = some value → Kind.fraction.Typed value) :
    ∃ opts, Oatpp.options conversions json = some opts := by
  have readMaxTokens : ∃ n, Oatpp.maxTokens conversions json = some n := by
    rw [Oatpp.maxTokens, Json.contains]
    cases found : json.find "max_tokens" with
    | none => exact ⟨_, rfl⟩
    | some value =>
        rcases maxTokens value found with ⟨number, rfl⟩ | ⟨number, rfl⟩ <;> exact ⟨_, rfl⟩
  have readTemperature : ∃ t, Oatpp.temperature conversions json = some t := by
    rw [Oatpp.temperature, Json.contains]
    cases found : json.find "temperature" with
    | none => exact ⟨_, rfl⟩
    | some value =>
        rcases temperature value found with ⟨number, rfl⟩ | ⟨number, rfl⟩ <;> exact ⟨_, rfl⟩
  rcases readMaxTokens with ⟨n, readMaxTokens⟩
  rcases readTemperature with ⟨t, readTemperature⟩
  rw [Oatpp.options, readMaxTokens, readTemperature]
  exact ⟨_, rfl⟩

end Members

/-! ## The bodies for the runner -/

theorem optsToJson_wellFormed (opts : CompletionOptions) : (optsToJson opts).WellFormed := by
  apply Json.WellFormed.ofKeys [bytes "max_tokens", bytes "temperature", bytes "top_k",
    bytes "top_p"] rfl (by decide)
  exact ⟨.int _, .real _, .int _, .real _⟩

theorem completionBody_wellFormed {prompt : Bytes} (valid : Writable prompt)
    (opts : CompletionOptions) : (completionBody prompt opts).WellFormed := by
  apply Json.WellFormed.ofKeys [bytes "options", bytes "prompt"] rfl (by decide)
  exact ⟨optsToJson_wellFormed opts, .str valid⟩

theorem chatBody_wellFormed {messages : List Message}
    (valid : ∀ m ∈ messages, Writable m.role ∧ Writable m.content) (opts : CompletionOptions) :
    (chatBody messages opts).WellFormed := by
  apply Json.WellFormed.ofKeys [bytes "messages", bytes "options"] rfl (by decide)
  refine ⟨.arr (List.forall_mem_map.mpr fun m isMember => ?_), optsToJson_wellFormed opts⟩
  apply Json.WellFormed.ofKeys [bytes "content", bytes "role"] rfl (by decide)
  exact ⟨.str (valid m isMember).2, .str (valid m isMember).1⟩

theorem embeddingsBody_wellFormed {input : Bytes} (valid : Writable input) :
    (embeddingsBody input).WellFormed := by
  apply Json.WellFormed.ofKeys [bytes "input"] rfl (by decide)
  exact Json.WellFormed.str valid

/-! ## The handlers -/

/-- Nothing but the body keeps a handler from answering: the file system says whether a model
exists, and the path of a missing one can be written. -/
def Unhindered (os : Os) (system : System) : Route → Json → Prop
  | .completions, json | .chatCompletions, json =>
      flag "stream" json = true ∨ Found os system (text "model" json)
  | .embeddings, json => Found os system (text "model" json)
  | .run, json =>
      Startable os system (text "name" json)
        (resolvePath system.manager (text "model" json))
  | .stop, _ => True

variable {conversions : Conversions} {stamps : Stamps} {system : System}

theorem eq_json_of_jsonResponse {status : Nat} {json : Json} {response : Response}
    (written : jsonResponse codec status json = some response) :
    ∃ text, response = .json status text := by
  rcases Option.map_eq_some_iff.mp written with ⟨text, -, rfl⟩
  exact ⟨text, rfl⟩

theorem eq_json_of_respond {α : Type} {command : Command}
    {call : Option (CLlamaResult α) × System} {build : CLlamaResult α → Json}
    {response : Response}
    (responds : (respond codec command call build).response = some response) :
    ∃ text, response = .json 200 text := by
  rcases Option.bind_eq_some_iff.mp responds with ⟨result, -, written⟩
  exact eq_json_of_jsonResponse written

/-- The response to a call is an event stream, or JSON with status 200. -/
theorem response_cases {command : Command} {response : Response}
    (responds : (perform os codec stamps command system).response = some response) :
    response = .eventStream ∨ ∃ text, response = .json 200 text := by
  cases command with
  | streamCompletion | streamChat =>
      cases responds
      exact Or.inl rfl
  | stop => exact Or.inr (eq_json_of_jsonResponse responds)
  | _ => exact Or.inr (eq_json_of_respond responds)

theorem respond_ne_eventStream {α : Type} (command : Command)
    (call : Option (CLlamaResult α) × System) (build : CLlamaResult α → Json) :
    (respond codec command call build).response ≠ some .eventStream := by
  intro streams
  rcases eq_json_of_respond streams with ⟨text, same⟩
  cases same

theorem respond_isSome_iff_wellFormed (sound : codec.Sound) {α : Type} (command : Command)
    (call : Option (CLlamaResult α) × System) (build : CLlamaResult α → Json) :
    (respond codec command call build).response.isSome = true ↔
      ∃ result, call.1 = some result ∧ (build result).WellFormed := by
  rcases call with ⟨returned, next⟩
  cases returned with
  | none => simp [respond]
  | some result => simpa [respond] using jsonResponse_isSome_iff sound 200 (build result)

/-- A call is answered when it does not throw. -/
theorem respond_isSome_iff (sound : codec.Sound) {α : Type} {good : α → Prop} {claim : Prop}
    (command : Command) {call : Option (CLlamaResult α) × System}
    {build : CLlamaResult α → Json}
    (outcome : match call.1 with
      | none => ¬claim
      | some result => claim ∧ Reported good result)
    (wellFormed : ∀ result, Reported good result → (build result).WellFormed) :
    (respond codec command call build).response.isSome = true ↔ claim := by
  rw [respond_isSome_iff_wellFormed sound]
  cases returned : call.1 with
  | none =>
      rw [returned] at outcome
      exact iff_of_false nofun outcome
  | some result =>
      rw [returned] at outcome
      exact iff_of_true ⟨result, rfl, wellFormed result outcome.2⟩ outcome.1

/-- A handler makes its call, and answers unless it is hindered. -/
def Settled (os : Os) (codec : Codec) (conversions : Conversions) (stamps : Stamps)
    (system : System) (route : Route) (json : Json) : Prop :=
  ∃ command, Oatpp.command conversions system.manager route json = some command ∧
    ((perform os codec stamps command system).response.isSome = true ↔
      Unhindered os system route json) ∧
    ((perform os codec stamps command system).response = some .eventStream →
      flag "stream" json = true)

section Settled

variable {json : Json}

/-- A stream is opened at once; otherwise the call is answered if its model is found. -/
theorem settled_of_streamable {route : Route} {stream call : Command}
    (read : Oatpp.command conversions system.manager route json =
      some (if flag "stream" json then stream else call))
    (unhindered : Unhindered os system route json ↔
      flag "stream" json = true ∨ Found os system (text "model" json))
    (streams : (perform os codec stamps stream system).response = some .eventStream)
    (answers : (perform os codec stamps call system).response.isSome = true ↔
      Found os system (text "model" json))
    (plain : (perform os codec stamps call system).response ≠ some .eventStream) :
    Settled os codec conversions stamps system route json := by
  refine ⟨_, read, ?_⟩
  rw [unhindered]
  cases flag "stream" json with
  | true =>
      constructor
      · apply iff_of_true _ (Or.inl rfl)
        rw [if_pos rfl, streams]
        rfl
      · exact fun _ => rfl
  | false =>
      rw [if_neg Bool.false_ne_true]
      constructor
      · rw [answers]
        exact (or_iff_right Bool.false_ne_true).symm
      · exact fun isStream => absurd isStream plain

theorem completions_settled (sound : codec.Sound) (wellFormed : json.WellFormed)
    (typed : WellTyped .completions json) :
    Settled os codec conversions stamps system .completions json := by
  rcases typed with ⟨object, fields⟩
  simp only [Route.fields, List.forall_mem_cons] at fields
  rcases fields with ⟨model, prompt, stream, maxTokens, temperature, -⟩
  rcases options_isSome conversions maxTokens temperature with ⟨opts, readOpts⟩
  have read : Oatpp.command conversions system.manager .completions json =
      some (if flag "stream" json then
        .streamCompletion (text "model" json) (text "prompt" json) opts
      else .generateCompletion (text "model" json) (text "prompt" json) opts) := by
    rw [Oatpp.command, Oatpp.completions, value_eq_text object model,
      value_eq_text object prompt, value_eq_flag object stream, readOpts]
    rfl
  apply settled_of_streamable read Iff.rfl rfl
  · have modelValid := text_writable "model" wellFormed
    have body := completionBody_wellFormed (text_writable "prompt" wellFormed) opts
    exact respond_isSome_iff sound _
      (proxy_outcome modelValid ((sound.dump _).mpr body) (postReply_reported sound (by decide)))
      fun result reported => completionResponse_wellFormed modelValid reported
  · exact respond_ne_eventStream _ _ _

theorem chatCompletions_settled (sound : codec.Sound) (wellFormed : json.WellFormed)
    (typed : WellTyped .chatCompletions json) :
    Settled os codec conversions stamps system .chatCompletions json := by
  rcases typed with ⟨object, fields⟩
  simp only [Route.fields, List.forall_mem_cons] at fields
  rcases fields with ⟨model, stream, items, maxTokens, temperature, -⟩
  rcases options_isSome conversions maxTokens temperature with ⟨opts, readOpts⟩
  rcases messages_of_typed wellFormed items with ⟨messages, readMessages, messagesValid⟩
  have read : Oatpp.command conversions system.manager .chatCompletions json =
      some (if flag "stream" json then .streamChat (text "model" json) messages opts
      else .chatCompletion (text "model" json) messages opts) := by
    rw [Oatpp.command, Oatpp.chatCompletions, value_eq_text object model,
      value_eq_flag object stream, readMessages, readOpts]
    rfl
  apply settled_of_streamable read Iff.rfl rfl
  · have modelValid := text_writable "model" wellFormed
    have body := chatBody_wellFormed messagesValid opts
    exact respond_isSome_iff sound _
      (proxy_outcome modelValid ((sound.dump _).mpr body) (postReply_reported sound (by decide)))
      fun result reported => chatResponse_wellFormed modelValid reported
  · exact respond_ne_eventStream _ _ _

theorem embeddings_settled (sound : codec.Sound) (wellFormed : json.WellFormed)
    (typed : WellTyped .embeddings json) :
    Settled os codec conversions stamps system .embeddings json := by
  rcases typed with ⟨object, fields⟩
  simp only [Route.fields, List.forall_mem_cons] at fields
  rcases fields with ⟨model, input, -⟩
  have read : Oatpp.command conversions system.manager .embeddings json =
      some (.generateEmbeddings (text "model" json) (text "input" json)) := by
    rw [Oatpp.command, Oatpp.embeddings, value_eq_text object model, value_eq_text object input]
    rfl
  have modelValid := text_writable "model" wellFormed
  have body := embeddingsBody_wellFormed (text_writable "input" wellFormed)
  refine ⟨_, read, ?_, fun streams => absurd streams (respond_ne_eventStream _ _ _)⟩
  exact respond_isSome_iff sound _
    (proxy_outcome modelValid ((sound.dump _).mpr body) embeddingsReply_reported)
    fun result reported => embeddingsResponse_wellFormed modelValid reported

theorem run_settled (sound : codec.Sound) (wellFormed : json.WellFormed)
    (typed : WellTyped .run json) :
    Settled os codec conversions stamps system .run json := by
  rcases typed with ⟨object, fields⟩
  simp only [Route.fields, List.forall_mem_cons] at fields
  rcases fields with ⟨name, binary, model, runnerType, -⟩
  have read : Oatpp.command conversions system.manager .run json =
      some (.startRunner (text "name" json) (text "binary" json) (text "type" json)
        (resolvePath system.manager (text "model" json))) := by
    rw [Oatpp.command, Oatpp.run, value_eq_text object name, value_eq_text object binary,
      value_eq_text object model, value_eq_text object runnerType]
    rfl
  have nameValid := text_writable "name" wellFormed
  have typeValid := text_writable "type" wellFormed
  refine ⟨_, read, ?_, fun streams => absurd streams (respond_ne_eventStream _ _ _)⟩
  rw [Unhindered, ← startRunner_outcome (text "binary" json) (text "type" json) _ nameValid]
  apply (respond_isSome_iff_wellFormed sound _ _ _).trans
  apply exists_congr
  intro result
  rw [runResponse_wellFormed_iff nameValid typeValid]

theorem stop_settled (sound : codec.Sound) (wellFormed : json.WellFormed)
    (typed : WellTyped .stop json) :
    Settled os codec conversions stamps system .stop json := by
  rcases typed with ⟨object, fields⟩
  simp only [Route.fields, List.forall_mem_cons] at fields
  have read : Oatpp.command conversions system.manager .stop json =
      some (.stop (text "name" json)) := by
    rw [Oatpp.command, Oatpp.stop, value_eq_text object fields.1]
    rfl
  have response : (stopResponse (text "name" json)).WellFormed := by
    apply Json.WellFormed.ofKeys [bytes "name", bytes "status"] rfl (by decide)
    exact ⟨.str (text_writable "name" wellFormed), .str (by decide)⟩
  refine ⟨_, read, iff_of_true ((jsonResponse_isSome_iff sound 200 _).mpr response) trivial, ?_⟩
  intro streams
  rcases eq_json_of_jsonResponse streams with ⟨written, same⟩
  cases same

theorem settled (sound : codec.Sound) {route : Route} (wellFormed : json.WellFormed)
    (typed : WellTyped route json) : Settled os codec conversions stamps system route json := by
  cases route with
  | completions => exact completions_settled sound wellFormed typed
  | chatCompletions => exact chatCompletions_settled sound wellFormed typed
  | embeddings => exact embeddings_settled sound wellFormed typed
  | run => exact run_settled sound wellFormed typed
  | stop => exact stop_settled sound wellFormed typed

end Settled

/-! ## Bodies -/

/-- The value of a body that is JSON, in which no octet is NUL. -/
def jsonOf (codec : Codec) (body : Bytes) : Option Json :=
  if 0 ∈ body then none else codec.parse body

/-- A body that is JSON, an object, and well-typed. -/
def Proper (codec : Codec) (route : Route) (body : Bytes) : Prop :=
  ∃ json, jsonOf codec body = some json ∧ WellTyped route json

/-- The handler returns a response of its own, JSON unless the request asks for a stream, and
it answers anything but a proper body with status 400 and an error, without any call. -/
structure Answered (codec : Codec) (route : Route) (body : Bytes) (handled : Handled) : Prop where
  responds : ∃ response, handled.response = some response ∧
    (response = .eventStream → ∃ json, jsonOf codec body = some json ∧ flag "stream" json = true)
  rejects : ¬Proper codec route body →
    (∃ error written, codec.dump (.obj [(bytes "error", error)]) = some written ∧
      handled.response = some (.json 400 written)) ∧ handled.command = none

/-- A body that cannot be parsed, except for `/v1/stop`, or a proper one that is not hindered
from being answered. -/
def Answerable (os : Os) (codec : Codec) (system : System) (route : Route) (body : Bytes) :
    Prop :=
  route ≠ .stop ∧ codec.parse (Runner.cString body) = none ∨
    ∃ json, jsonOf codec body = some json ∧ WellTyped route json ∧
      Unhindered os system route json

/-- What a body says as JSON is what the handler parses. -/
theorem parse_of_jsonOf {body : Bytes} {json : Json} (isJson : jsonOf codec body = some json) :
    codec.parse (Runner.cString body) = some json := by
  rw [jsonOf] at isJson
  split at isJson
  · cases isJson
  next free =>
    rw [Runner.cString_of_not_mem free]
    exact isJson

/-- A call is never answered with status 400. -/
theorem perform_ne_badRequest {command : Command} {written : Bytes} :
    (perform os codec stamps command system).response ≠ some (.json 400 written) := by
  intro bad
  rcases response_cases bad with same | ⟨text, same⟩
  · cases same
  · cases same

/-- A body that is parsed is never answered with status 400. -/
theorem handle_ne_badRequest {route : Route} {body written : Bytes} {jbody : Json}
    (parsed : codec.parse (Runner.cString body) = some jbody) :
    (handle os codec conversions stamps route body system).response ≠
      some (.json 400 written) := by
  rw [handle, parsed]
  dsimp only
  split
  · exact nofun
  · exact perform_ne_badRequest

theorem invalidJson_written (sound : codec.Sound) :
    ∃ written, codec.dump invalidJson = some written := by
  apply Option.isSome_iff_exists.mp
  apply (sound.dump _).mpr
  apply Json.WellFormed.ofKeys [bytes "error"] rfl (by decide)
  exact Json.WellFormed.str (by decide)

/-- A body that cannot be parsed is rejected, unless it is for `/v1/stop`. -/
theorem answered_iff_of_unparsed (sound : codec.Sound) {route : Route} {body : Bytes}
    (unparsed : codec.parse (Runner.cString body) = none) :
    Answered codec route body (handle os codec conversions stamps route body system) ↔
      route ≠ .stop := by
  rw [handle, unparsed]
  constructor
  · rintro answered rfl
    rcases answered.responds with ⟨response, responds, -⟩
    cases responds
  · intro notStop
    rcases invalidJson_written sound with ⟨written, dumped⟩
    have bad : jsonResponse codec 400 invalidJson = some (.json 400 written) := by
      rw [jsonResponse, dumped, Option.map_some]
    dsimp only
    rw [if_neg notStop, bad]
    exact ⟨⟨_, rfl, nofun⟩, fun _ => ⟨⟨_, written, dumped, rfl⟩, rfl⟩⟩

/-- A body that can be parsed is answered if it is proper and nothing hinders the handler. -/
theorem answered_iff_of_parsed (sound : codec.Sound) {route : Route} {body : Bytes}
    {jbody : Json} (parsed : codec.parse (Runner.cString body) = some jbody) :
    Answered codec route body (handle os codec conversions stamps route body system) ↔
      ∃ json, jsonOf codec body = some json ∧ WellTyped route json ∧
        Unhindered os system route json := by
  have response : ∀ {json}, jsonOf codec body = some json → WellTyped route json →
      ∃ command, handle os codec conversions stamps route body system =
          perform os codec stamps command system ∧
        ((perform os codec stamps command system).response.isSome = true ↔
          Unhindered os system route json) ∧
        ((perform os codec stamps command system).response = some .eventStream →
          flag "stream" json = true) := by
    intro json isJson typed
    have isParsed := parse_of_jsonOf isJson
    rcases settled sound (sound.parse _ _ isParsed) typed with ⟨command, calls, settled⟩
    refine ⟨command, ?_, settled⟩
    rw [handle, isParsed]
    dsimp only
    rw [calls]
  constructor
  · intro answered
    have proper : Proper codec route body := by
      by_cases isProper : Proper codec route body
      · exact isProper
      · rcases (answered.rejects isProper).1 with ⟨error, written, -, bad⟩
        exact absurd bad (handle_ne_badRequest parsed)
    rcases proper with ⟨json, isJson, typed⟩
    rcases response isJson typed with ⟨command, handled, unhindered, -⟩
    refine ⟨json, isJson, typed, unhindered.mp ?_⟩
    rcases answered.responds with ⟨written, responds, -⟩
    rw [← handled, responds]
    rfl
  · rintro ⟨json, isJson, typed, isUnhindered⟩
    rcases response isJson typed with ⟨command, handled, unhindered, streams⟩
    rcases Option.isSome_iff_exists.mp (unhindered.mpr isUnhindered) with ⟨written, responds⟩
    rw [handled]
    constructor
    · refine ⟨written, responds, ?_⟩
      rintro rfl
      exact ⟨json, isJson, streams responds⟩
    · exact fun improper => absurd ⟨json, isJson, typed⟩ improper

/-- For every body, the handler does what it should exactly when the body is answerable. -/
theorem answered_iff (os : Os) (codec : Codec) (conversions : Conversions) (stamps : Stamps)
    (system : System) (route : Route) (body : Bytes) (sound : codec.Sound) :
    Answered codec route body (handle os codec conversions stamps route body system) ↔
      Answerable os codec system route body := by
  rw [Answerable]
  cases parsed : codec.parse (Runner.cString body) with
  | none =>
      have notJson : ∀ json, jsonOf codec body ≠ some json := by
        intro json isJson
        rw [parse_of_jsonOf isJson] at parsed
        cases parsed
      rw [answered_iff_of_unparsed sound parsed]
      simp [notJson]
  | some jbody =>
      rw [answered_iff_of_parsed sound parsed]
      simp

/-- A system on whose disk no model is found. -/
def noModels : Os where
  events _ := []
  fork _ := -1
  freePort _ := 0
  fileExists _ := some false
  response _ := ⟨[], none⟩
  boundElsewhere _ _ := false
  pidElsewhere _ _ := false

theorem answered_iff_stop :
    Answered JsonText.whole .stop (bytes "qwen")
        (handle noModels JsonText.whole .exact ⟨0, 0⟩ .stop (bytes "qwen") (.create [] [])) ↔
      Answerable noModels JsonText.whole (.create [] []) .stop (bytes "qwen") :=
  answered_iff noModels JsonText.whole .exact ⟨0, 0⟩ (.create [] []) .stop (bytes "qwen")
    JsonText.whole_sound

/-- A type error escapes the handler of `/v1/completions` when the body is an array. -/
theorem not_answered_of_array :
    ¬Answered JsonText.whole .completions (bytes "[]")
      (handle noModels JsonText.whole .exact ⟨0, 0⟩ .completions (bytes "[]") (.create [] [])) := by
  intro answered
  have escapes : (handle noModels JsonText.whole .exact ⟨0, 0⟩ .completions (bytes "[]")
      (.create [] [])).response = none := by decide +kernel
  rcases answered.responds with ⟨response, responds, -⟩
  rw [escapes] at responds
  cases responds

end Cllama.Api
