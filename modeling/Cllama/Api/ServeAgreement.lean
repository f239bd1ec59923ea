import Cllama.Api.HandlerOutcomes
import Cllama.Api.RouterAgreement
import Cllama.Api.Server

/-!
# Requests that the two routers serve alike

The routers know the same endpoints, build the same responses and make the same calls of the
manager.  What tells them apart is the body: one that is no JSON value, or one that they read
differently.
-/

namespace Cllama.Api

open Cllama.Library Cllama.Core RunnerMgr Cllama.Platform

variable {os : Os} {codec : Codec} {conversions : Conversions} {clock : Clock} {stamps : Stamps}
  {directory : Option Directory}

/-! ## Endpoints -/

/-- The paths of the endpoints. -/
def paths : List Bytes := Oatpp.endpoints.map (·.1.2)

theorem endpoint_eq_of_mem (method : Method) :
    ∀ path ∈ paths, Oatpp.endpoint method path = CppRest.endpoint method path := by
  cases method <;> decide +kernel

theorem oatpp_endpoint_of_not_mem (method : Method) {path : Bytes} (unknown : path ∉ paths) :
    Oatpp.endpoint method path = none := by
  apply List.lookup_eq_none_iff.mpr
  intro declared isDeclared
  rw [bne_iff_ne]
  rintro same
  exact unknown (List.mem_map.mpr ⟨declared, isDeclared, (congrArg Prod.snd same).symm⟩)

theorem cppRest_endpoint_of_not_mem (method : Method) {path : Bytes} (unknown : path ∉ paths) :
    CppRest.endpoint method path = none := by
  simp only [paths, Oatpp.endpoints, List.map_cons, List.map_nil, List.mem_cons, List.not_mem_nil,
    or_false, not_or] at unknown
  cases method with
  | get => simp only [CppRest.endpoint, CppRest.handleGet, unknown, or_self, if_false]
  | post => simp only [CppRest.endpoint, CppRest.handlePost, unknown, if_false]

theorem endpoint_eq (method : Method) (path : Bytes) :
    Oatpp.endpoint method path = CppRest.endpoint method path := by
  by_cases known : path ∈ paths
  · exact endpoint_eq_of_mem method path known
  · rw [oatpp_endpoint_of_not_mem method known, cppRest_endpoint_of_not_mem method known]

theorem cppRest_endpoint_of_declared :
    ∀ declared ∈ Oatpp.endpoints,
      CppRest.endpoint declared.1.1 declared.1.2 = some declared.2 := by
  decide +kernel

/-- The comparisons of the cpprest router lead to the endpoints that the controller declares, and
to no others. -/
theorem declared_iff (method : Method) (path : Bytes) (endpoint : ApiEndpoint) :
    ((method, path), endpoint) ∈ Oatpp.endpoints ↔
      CppRest.endpoint method path = some endpoint := by
  constructor
  · exact cppRest_endpoint_of_declared ((method, path), endpoint)
  · intro found
    rw [← endpoint_eq] at found
    rcases List.lookup_eq_some_iff.mp found with ⟨before, after, split, -⟩
    rw [split]
    exact List.mem_append_cons_self

/-! ## Responses -/

namespace CppRest

theorem serverError_eq (error : Error) : serverError error = Api.serverError error := by
  simp +decide [serverError, Api.serverError, object, assign]

theorem textResponse_eq {objectName id model : Bytes} {created : Nat}
    {choice choice' : Bytes → Json} (same : ∀ text, choice text = choice' text)
    (result : CLlamaResult Bytes) :
    textResponse objectName id model created choice result =
      Api.textResponse objectName id model created choice' result := by
  cases result with
  | ok text => simp +decide [textResponse, Api.textResponse, usage, object, assign, same]
  | error error =>
      simp +decide [textResponse, Api.textResponse, object, assign, serverError_eq]

theorem completionResponse_eq (stamps : Stamps) (model : Bytes) (result : CLlamaResult Bytes) :
    completionResponse stamps model result = Api.completionResponse stamps model result := by
  apply textResponse_eq
  intro text
  simp +decide [makeChoiceText, object, assign]

theorem chatResponse_eq (stamps : Stamps) (model : Bytes) (result : CLlamaResult Bytes) :
    chatResponse stamps model result = Api.chatResponse stamps model result := by
  apply textResponse_eq
  intro content
  simp +decide [makeChoiceMessage, object, assign]

theorem embeddingsResponse_eq (stamps : Stamps) (model : Bytes)
    (result : CLlamaResult Embedding) :
    embeddingsResponse stamps model result = Api.embeddingsResponse stamps model result := by
  cases result with
  | ok emb => simp +decide [embeddingsResponse, Api.embeddingsResponse, object, assign]
  | error error =>
      simp +decide [embeddingsResponse, Api.embeddingsResponse, object, assign, serverError_eq]

theorem runResponse_eq (runnerName runnerType : Bytes) (result : CLlamaResult Bool) :
    runResponse runnerName runnerType result = Api.runResponse runnerName runnerType result := by
  cases result <;> simp +decide [runResponse, Api.runResponse, object, assign]

theorem stopResponse_eq (runnerName : Bytes) :
    stopResponse runnerName = Api.stopResponse runnerName := by
  simp +decide [stopResponse, Api.stopResponse, object, assign]

theorem listResponse_eq (items : List Json) : listResponse items = Oatpp.listResponse items := by
  simp +decide [listResponse, Oatpp.listResponse, object, assign]

theorem modelItem_eq (created : Nat) : modelItem created = Oatpp.modelItem created := by
  funext m
  simp +decide [modelItem, Oatpp.modelItem, object, assign]

theorem runnerItem_eq (clock : Clock) (r : RunnerInfo) :
    runnerItem clock r = Oatpp.runnerItem clock r := by
  simp +decide [runnerItem, Oatpp.runnerItem, object, assign]

theorem rootResponse_eq : rootResponse = Oatpp.rootResponse := rfl

theorem healthResponse_eq : healthResponse = Oatpp.healthResponse := rfl

theorem stopAllResponse_eq : stopAllResponse = Oatpp.stopAllResponse := rfl

theorem errorResponse_eq (error : String) : errorResponse error = Oatpp.errorResponse error := by
  simp +decide [errorResponse, Oatpp.errorResponse, object, assign]

theorem pullResponse_eq : pullResponse = Oatpp.pullResponse := errorResponse_eq _

theorem deleteResponse_eq : deleteResponse = Oatpp.deleteResponse := errorResponse_eq _

/-- With one library on both sides, a call is answered alike. -/
theorem perform_eq (command : Command) (system : System) :
    perform os ⟨codec, codec, conversions, clock⟩ stamps command system =
      Api.perform os codec stamps command system := by
  cases command with
  | generateCompletion model prompt opts =>
      simp only [perform, Api.perform, respond, completionResponse_eq]
  | chatCompletion model messages opts =>
      simp only [perform, Api.perform, respond, chatResponse_eq]
  | generateEmbeddings model input =>
      simp only [perform, Api.perform, respond, embeddingsResponse_eq]
  | startRunner runnerName runnerBin runnerType modelPath =>
      simp only [perform, Api.perform, respond, runResponse_eq]
  | stop runnerName => simp only [perform, Api.perform, stopResponse_eq]
  | streamCompletion | streamChat => rfl

end CppRest

/-! ## Requests -/

/-- The two readings of a value agree, unless it is an object with fields that they read
differently. -/
theorem command_eq_iff (manager : RunnerManager) (route : Route) (json : Json) :
    Oatpp.command conversions manager route json = CppRest.command conversions manager route json ↔
      ∀ members, json = .obj members → Agreeable conversions route json := by
  cases json with
  | obj members =>
      simp only [Json.obj.injEq, forall_eq']
      cases route with
      | completions => exact (reads_completions conversions members).eq_iff
      | chatCompletions => exact (reads_chatCompletions conversions members).eq_iff
      | embeddings => exact (reads_embeddings conversions members).eq_iff
      | run => exact (reads_run conversions members manager).eq_iff
      | stop => exact (reads_stop conversions members).eq_iff
  | null | bool | int | real | str | arr =>
      apply iff_of_true
      · cases route <;> rfl
      · intro members isObject
        cases isObject

/-- Bodies that are served alike. -/
def ServedAlike (codec : Codec) (conversions : Conversions) (route : Route) (body : Bytes) : Prop :=
  match codec.parse body with
  | none => route = .stop
  | some json => ∀ members, json = .obj members → Agreeable conversions route json

/-- A handler records the call it makes. -/
theorem command_of_performed (system : System) {performed : Command → Handled}
    (records : ∀ command, (performed command).command = some command) (call : Option Command) :
    (match call with
      | none => (⟨none, none, system⟩ : Handled)
      | some command => performed command).command = call := by
  cases call with
  | none => rfl
  | some command => exact records command

/-- Two handlers that make different calls do not serve a request alike. -/
theorem handle_eq_iff (lawful : codec.Lawful) (route : Route) {body : Bytes}
    (noNul : (0 : UInt8) ∉ body) (system : System) :
    handle os codec conversions stamps route body system =
        CppRest.handle os ⟨codec, codec, conversions, clock⟩ stamps route body system ↔
      ServedAlike codec conversions route body := by
  have text : Runner.cString body = body := takeWhile_ne_eq_self noNul
  rw [handle, CppRest.handle, ServedAlike, text]
  dsimp only
  cases codec.parse body with
  | none =>
      have written : (jsonResponse codec 400 invalidJson).isSome = true := by
        rw [jsonResponse, Option.isSome_map]
        apply lawful.dump_isSome
        exact .ofKeys [bytes "error"] rfl (by simp) (by decide +kernel)
          (List.forall_iff_forall_mem.mpr (List.forall_mem_singleton.mpr (.str (by decide))))
      dsimp only [Option.bind_none]
      constructor
      · intro same
        by_contra other
        rw [if_neg other] at same
        have response := congrArg Handled.response same
        dsimp only at response
        rw [response] at written
        cases written
      · intro isStop
        rw [if_pos isStop]
  | some json =>
      dsimp only [Option.bind_some]
      rw [← command_eq_iff system.manager]
      constructor
      · intro same
        have left := command_of_performed system
          (fun command => (@Oatpp.obeyed os stamps codec command system).called)
          (Oatpp.command conversions system.manager route json)
        have right := command_of_performed system
          (fun command => (@CppRest.obeyed os ⟨codec, codec, conversions, clock⟩ stamps command
            system).called)
          (CppRest.command conversions system.manager route json)
        exact left.symm.trans ((congrArg Handled.command same).trans right)
      · intro same
        rw [same]
        cases CppRest.command conversions system.manager route json with
        | none => rfl
        | some command => exact (CppRest.perform_eq command system).symm

end Cllama.Api
