import Cllama.Core.RunnerMgr
import Cllama.Library.Conversions
import Cllama.Runner.Generate

/-!
# Requests as the two routers read them

Both routers turn the JSON body of a request into one call of the runner manager.  They
are written against two JSON libraries: `nlohmann::json` has defaults for missing members
and converts Booleans to numbers, `web::json` throws on a missing member and reads only
what has the right kind.  A rejected request, one whose handler throws before it calls the
manager, is `none`.
-/

namespace Cllama.Api

open Cllama.Library Cllama.Core RunnerMgr

deriving instance DecidableEq for CompletionOptions, Message

/-- The endpoints that take a JSON body. -/
inductive Route where
  | completions
  | chatCompletions
  | embeddings
  | run
  | stop
  deriving DecidableEq

/-- A call of the runner manager with its arguments. -/
inductive Command where
  | generateCompletion (model prompt : Bytes) (opts : CompletionOptions)
  | streamCompletion (model prompt : Bytes) (opts : CompletionOptions)
  | chatCompletion (model : Bytes) (messages : List Message) (opts : CompletionOptions)
  | streamChat (model : Bytes) (messages : List Message) (opts : CompletionOptions)
  | generateEmbeddings (model input : Bytes)
  | startRunner (runnerName runnerBinary runnerType modelPath : Bytes)
  | stop (runnerName : Bytes)
  deriving DecidableEq

/-- `CompletionOptions{}`, whose fractions are `float` literals. -/
def defaultOptions (conversions : Conversions) : CompletionOptions :=
  { temperature := conversions.float (4 / 5), topP := conversions.float (19 / 20) }

/-! ## The oatpp controller -/

namespace Oatpp

variable (conversions : Conversions) (manager : RunnerManager)

def maxTokens (body : Json) : Option Int :=
  if body.contains "max_tokens" then (body.find "max_tokens").bind conversions.getInt
  else some (defaultOptions conversions).maxTokens

def temperature (body : Json) : Option ℚ :=
  if body.contains "temperature" then (body.find "temperature").bind conversions.getFloat
  else some (defaultOptions conversions).temperature

def options (body : Json) : Option CompletionOptions := do
  let maxTokens ← maxTokens conversions body
  let temperature ← temperature conversions body
  return { defaultOptions conversions with maxTokens := maxTokens, temperature := temperature }

def message (json : Json) : Option Message := do
  let role ← json.value Json.getString "role" []
  let content ← json.value Json.getString "content" []
  return ⟨role, content⟩

/-- The loop over the messages, which takes the elements of a value of any kind. -/
def messages (body : Json) : Option (List Message) :=
  match body.find "messages" with
  | none => some []
  | some json => (Runner.elements json).mapM message

def completions (body : Json) : Option Command := do
  let model ← body.value Json.getString "model" []
  let prompt ← body.value Json.getString "prompt" []
  let stream ← body.value Json.getBool "stream" false
  let opts ← options conversions body
  return if stream then .streamCompletion model prompt opts
    else .generateCompletion model prompt opts

def chatCompletions (body : Json) : Option Command := do
  let model ← body.value Json.getString "model" []
  let stream ← body.value Json.getBool "stream" false
  let messages ← messages body
  let opts ← options conversions body
  return if stream then .streamChat model messages opts else .chatCompletion model messages opts

def embeddings (body : Json) : Option Command := do
  let model ← body.value Json.getString "model" []
  let input ← body.value Json.getString "input" []
  return .generateEmbeddings model input

def run (body : Json) : Option Command := do
  let runnerName ← body.value Json.getString "name" []
  let runnerBin ← body.value Json.getString "binary" []
  let modelName ← body.value Json.getString "model" []
  let runnerType ← body.value Json.getString "type" []
  return .startRunner runnerName runnerBin runnerType (resolvePath manager modelName)

def stop (body : Json) : Option Command := do
  let runnerName ← body.value Json.getString "name" []
  return .stop runnerName

/-- The call for a body, which throws if the body is no object. -/
def command : Route → Json → Option Command
  | .completions => completions conversions
  | .chatCompletions => chatCompletions conversions
  | .embeddings => embeddings
  | .run => run manager
  | .stop => stop

end Oatpp

/-! ## The cpprest router -/

namespace CppRest

variable (conversions : Conversions) (manager : RunnerManager)

def asArray : Json → Option (List Json)
  | .arr items => some items
  | _ => none

def stringField (key : String) (body : Json) : Option Bytes :=
  (body.index key).bind Json.getString

def stream (body : Json) : Option Bool :=
  if body.contains "stream" then (body.index "stream").bind Json.getBool else some false

def maxTokens (body : Json) : Option Int :=
  if body.contains "max_tokens" then (body.index "max_tokens").bind conversions.asInteger
  else some (defaultOptions conversions).maxTokens

def temperature (body : Json) : Option ℚ :=
  if body.contains "temperature" then
    ((body.index "temperature").bind conversions.asDouble).map conversions.float
  else some (defaultOptions conversions).temperature

def options (body : Json) : Option CompletionOptions := do
  let maxTokens ← maxTokens conversions body
  let temperature ← temperature conversions body
  return { defaultOptions conversions with maxTokens := maxTokens, temperature := temperature }

def message (json : Json) : Option Message := do
  let role ← (json.find "role").bind Json.getString
  let content ← (json.find "content").bind Json.getString
  return ⟨role, content⟩

def messages (body : Json) : Option (List Message) := do
  let items ← (body.index "messages").bind asArray
  items.mapM message

def runnerType (body : Json) : Option Bytes :=
  if body.contains "type" then stringField "type" body else some []

def completions (body : Json) : Option Command := do
  let model ← stringField "model" body
  let prompt ← stringField "prompt" body
  let stream ← stream body
  let opts ← options conversions body
  return if stream then .streamCompletion model prompt opts
    else .generateCompletion model prompt opts

def chat (body : Json) : Option Command := do
  let model ← stringField "model" body
  let stream ← stream body
  let messages ← messages body
  let opts ← options conversions body
  return if stream then .streamChat model messages opts else .chatCompletion model messages opts

def embeddings (body : Json) : Option Command := do
  let model ← stringField "model" body
  let input ← stringField "input" body
  return .generateEmbeddings model input

def run (body : Json) : Option Command := do
  let runnerName ← stringField "name" body
  let runnerBin ← stringField "binary" body
  let modelName ← stringField "model" body
  let runnerType ← runnerType body
  return .startRunner runnerName runnerBin runnerType (resolvePath manager modelName)

def stop (body : Json) : Option Command := do
  let runnerName ← stringField "name" body
  return .stop runnerName

/-- The call for a body. -/
def command : Route → Json → Option Command
  | .completions => completions conversions
  | .chatCompletions => chat conversions
  | .embeddings => embeddings
  | .run => run manager
  | .stop => stop

end CppRest

end Cllama.Api
