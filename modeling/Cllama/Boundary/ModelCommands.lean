import Cllama.Boundary.ClientCommands

/-!
# The models of the client and the server

`model list` shows the names of the files in the server's folder.  The response is written as a
whole, so it is there only if every name can be written.  A model can be neither fetched nor
deleted through the server.
-/

namespace Cllama.Boundary

open Cllama.Library Cllama.Core RunnerMgr Cllama.Platform Cllama.Api Cllama.Cli

variable {os : Os} {libraries : Libraries}

/-! ## The list of models -/

theorem modelItem_textual (created : Nat) {m : ModelInfo} (valid : Utf8.valid m.name = true) :
    (Oatpp.modelItem created m).Textual := by
  apply Json.Textual.ofKeys [bytes "created", bytes "id", bytes "object", bytes "owned_by"] rfl
    (by decide) (by decide +kernel)
  exact ⟨.int _, .str valid, .str (by decide), .str (by decide)⟩

/-- A name that is not UTF-8 keeps the whole list from being written. -/
theorem dump_models_eq_none {codec : Codec} (lawful : codec.Lawful) (created : Nat)
    {models : List ModelInfo} {m : ModelInfo} (isModel : m ∈ models)
    (invalid : Utf8.valid m.name = false) :
    codec.dump (Oatpp.listResponse (models.map (Oatpp.modelItem created))) = none := by
  cases dumped : codec.dump (Oatpp.listResponse (models.map (Oatpp.modelItem created))) with
  | none => rfl
  | some text =>
      have wellFormed := lawful.wellFormed _ text dumped
      have items : (Json.arr (models.map (Oatpp.modelItem created))).WellFormed :=
        @Json.WellFormed.index _ _ "data" wellFormed rfl
      have item : (Oatpp.modelItem created m).WellFormed := by
        cases items with
        | arr each => exact each _ (List.mem_map_of_mem isModel)
      have name : (Json.str m.name).WellFormed := @Json.WellFormed.find _ _ "id" item rfl
      rw [name.valid] at invalid
      cases invalid

/-- The names are printed as the library writes them. -/
theorem printAll_models {codec : Codec} (lawful : codec.Lawful) (created : Nat)
    {models : List ModelInfo} (valid : ∀ m ∈ models, Utf8.valid m.name = true) :
    ∃ names, models.mapM (fun m => codec.dump (.str m.name)) = some names ∧
      printAll ((models.map (Oatpp.modelItem created)).map fun m =>
        ((m.find "id").bind codec.dump).map line) = (names.flatMap line, true) := by
  induction models with
  | nil => exact ⟨[], rfl, rfl⟩
  | cons m models ih =>
      rw [List.forall_mem_cons] at valid
      rcases ih valid.2 with ⟨names, written, printed⟩
      rcases lawful.exists_dump (.str valid.1) with ⟨name, dumped, -, -, -⟩
      have found : (Oatpp.modelItem created m).find "id" = some (.str m.name) := rfl
      refine ⟨name :: names, ?_, ?_⟩
      · simp [List.mapM_cons, dumped, written]
      · rw [List.map_cons, List.map_cons, found, Option.bind_some, dumped, Option.map_some,
          printAll, printed]
        rfl

/-- A request without a body for the list of the models. -/
def modelsRequest (stamps : Stamps) (directory : Option Directory) : HttpRequest where
  method := .get
  path := bytes "/v1/models"
  body := []
  stamps := stamps
  directory := directory

/-- What `model list` ends with, whatever the server's state. -/
theorem modelList_eq (lawful : libraries.codec.Lawful) {pages : Int → Bytes}
    (page : libraries.codec.parse (pages 500) = none) (serverUrl : Bytes) (server : Server)
    (stamps : Stamps) (directory : Option Directory) :
    let models := listModels server.system.manager directory
    let finished := cmdModelList libraries.codec serverUrl
      (server.answer .oatpp os libraries pages (modelsRequest stamps directory))
    ((∀ m ∈ models, Utf8.valid m.name = true) → ∃ names,
        models.mapM (fun m => libraries.codec.dump (.str m.name)) = some names ∧
          finished = ⟨some 0, if models = [] then line (bytes "No models found.")
            else names.flatMap line, []⟩) ∧
      ((∃ m ∈ models, Utf8.valid m.name = false) → finished = ⟨some 0, line (pages 500), []⟩) := by
  intro models finished
  have endpoint : Oatpp.endpoint .get (bytes "/v1/models") = some .listModels := by
    decide +kernel
  have answered : server.answer .oatpp os libraries pages (modelsRequest stamps directory) =
      received pages ⟨jsonResponse libraries.codec 200
        (Oatpp.listResponse (models.map (Oatpp.modelItem stamps.created))), none,
        server.system⟩ := by
    rw [Server.answer, modelsRequest, RouterImpl.endpoint, endpoint]
    rfl
  constructor
  · intro valid
    have textual : (Oatpp.listResponse (models.map (Oatpp.modelItem stamps.created))).Textual :=
      listResponse_textual
        (List.forall_mem_map.mpr fun m isModel =>
          modelItem_textual stamps.created (valid m isModel))
    rcases lawful.exists_dump textual with ⟨text, dumped, -, -, parsed⟩
    rcases printAll_models lawful stamps.created valid with ⟨names, written, printed⟩
    have read : (Oatpp.listResponse (models.map (Oatpp.modelItem stamps.created))).index "data" =
        some (.arr (models.map (Oatpp.modelItem stamps.created))) := rfl
    refine ⟨names, written, ?_⟩
    simp only [finished, answered, jsonResponse, dumped, Option.map_some, received, cmdModelList,
      parsed, Option.bind_some, read, Runner.elements, printed]
    cases models with
    | nil => rfl
    | cons m models => simp [isEmpty, guarded]
  · rintro ⟨m, isModel, invalid⟩
    have lost := dump_models_eq_none lawful stamps.created isModel invalid
    simp only [finished, answered, jsonResponse, lost, Option.map_none, received, cmdModelList,
      page, Option.bind_none, guarded]
    rfl

/-! ## Fetching and deleting -/

/-- The commands that would change the models. -/
inductive ModelChange where
  | pull
  | remove

namespace ModelChange

/-- What is posted to. -/
def path : ModelChange → Bytes
  | .pull => bytes "/v1/pull"
  | .remove => bytes "/v1/delete"

def endpoint : ModelChange → ApiEndpoint
  | .pull => .pull
  | .remove => .delete

/-- What the server answers. -/
def refusal : ModelChange → String
  | .pull => "pull not supported — use Ollama backend"
  | .remove => "delete not supported via API — use CLI"

def command (codec : Codec) (serverUrl : Bytes) :
    ModelChange → Bytes → (Bytes → Option (Int × Bytes)) → Finished
  | .pull => cmdModelPull codec serverUrl
  | .remove => cmdModelRemove codec serverUrl

variable (change : ModelChange) (router : RouterImpl)

theorem endpoint_path : router.endpoint .post change.path = some change.endpoint := by
  cases router <;> cases change <;> decide +kernel

theorem response_textual : (Oatpp.errorResponse change.refusal).Textual := by
  apply Json.Textual.ofKeys [bytes "error", bytes "status"] rfl (by decide) (by decide +kernel)
  have valid : Utf8.valid (bytes change.refusal) = true := by
    cases change <;> decide +kernel
  exact ⟨.str valid, .str (by decide)⟩

theorem serve_eq {stamps : Stamps} {directory : Option Directory} {body : Bytes}
    {system : System} :
    router.serve os libraries stamps directory change.endpoint body system =
      ⟨jsonResponse (libraryOf libraries router) 200 (Oatpp.errorResponse change.refusal), none,
        system⟩ := by
  cases router with
  | oatpp => cases change <;> rfl
  | cpprest =>
      cases change with
      | pull =>
          simp only [endpoint, RouterImpl.serve, CppRest.serve, CppRest.pullResponse_eq]
          rfl
      | remove =>
          simp only [endpoint, RouterImpl.serve, CppRest.serve, CppRest.deleteResponse_eq]
          rfl

/-- The server is as before, whatever is posted. -/
theorem receive_eq (server : Server) (text : Bytes) (stamps : Stamps)
    (directory : Option Directory) :
    server.receive router os libraries (postRequest change.path text stamps directory) =
      server := by
  rw [receive_post (change.endpoint_path router), change.serve_eq, after_jsonResponse]

/-- The command logs the error, and ends as if it had succeeded. -/
theorem command_eq (interoperable : Interoperable libraries) (pages : Int → Bytes)
    (serverUrl : Bytes) (server : Server) (stamps : Stamps) (directory : Option Directory)
    {name : Bytes} (valid : Utf8.valid name = true) :
    change.command libraries.codec serverUrl name (fun text =>
        server.answer router os libraries pages (postRequest change.path text stamps directory)) =
      ⟨some 0, [], [bytes "Error: " ++ bytes change.refusal]⟩ := by
  have textual : (Json.obj [(bytes "model", .str name)]).Textual := by
    apply Json.Textual.ofKeys [bytes "model"] rfl (by simp) (by decide +kernel)
    exact .str valid
  rcases interoperable.client.exists_dump textual with ⟨text, dumped, -, -, -⟩
  rcases interoperable.exists_written router change.response_textual with
    ⟨written, dumpedResponse, parsed⟩
  have sent : server.answer router os libraries pages
      (postRequest change.path text stamps directory) = some (200, written) := by
    rw [answer_post (change.endpoint_path router), change.serve_eq,
      received_jsonResponse dumpedResponse]
  have status : (Oatpp.errorResponse change.refusal).value Json.getString "status" [] =
      some (bytes "error") := rfl
  have error : (Oatpp.errorResponse change.refusal).value Json.getString "error"
      (bytes "unknown") = some (bytes change.refusal) := rfl
  cases change <;>
    simp only [command, cmdModelPull, cmdModelRemove, cmdModel, post, dumped, sent, parsed, status,
      error, if_true]

end ModelChange

/-- A folder with a model whose name is one octet, which is no text. -/
def unlistable : Directory :=
  oneModel ([0xFF] ++ bytes ".gguf") (by decide) (by decide)

/-- The page that a framework sends for an exception. -/
def errorPage (status : Int) : Bytes := bytes "HTTP " ++ bytes (toString status)

end Cllama.Boundary
