import Cllama.Cli.Chat
import Cllama.Library.Conversions
import Cllama.Runner.Generate

/-!
# The commands that ask the server

The client commands make one request each.  What they print they print piece by piece: an
exception leaves what has been printed before, and the body of the response is printed after it.
-/

namespace Cllama.Cli

open Cllama.Library

/-! ## Printing -/

/-- What a command leaves behind: its exit code, unless an exception escapes, what it has written
to the standard output, and the errors and warnings in the log. -/
structure Finished where
  code : Option Int
  output : Bytes
  log : List Bytes := []
  deriving DecidableEq

/-- `setw`, left-aligned. -/
def column (width : Nat) (text : Bytes) : Bytes :=
  text ++ List.replicate (width - text.length) 0x20

/-- Print what is computed piece by piece, up to the first exception. -/
def printAll : List (Option Bytes) → Bytes × Bool
  | [] => ([], true)
  | none :: _ => ([], false)
  | some text :: pieces =>
      let rest := printAll pieces
      (text ++ rest.1, rest.2)

/-- The text behind the last separator, of either kind. -/
def lastComponent (path : Bytes) : Bytes :=
  (path.reverse.takeWhile fun octet => decide (octet ≠ 0x2F ∧ octet ≠ 0x5C)).reverse

def line (text : Bytes) : Bytes := text ++ [0x0A]

/-- The `try` block of a command: a failure has the body printed. -/
def guarded (body : Bytes) (printed : Bytes × Bool) : Finished :=
  ⟨some 0, if printed.2 then printed.1 else printed.1 ++ line body, []⟩

def notConnected (serverUrl : Bytes) : Finished :=
  ⟨some 1, [], [bytes "Failed to connect to server at " ++ serverUrl]⟩

/-! ## Listing -/

section Listing

variable (codec : Codec) (conversions : Conversions) (serverUrl : Bytes)

def runnerTable : Bytes :=
  column 8 (bytes "PID") ++ column 8 (bytes "PORT") ++ column 12 (bytes "TYPE") ++
    column 20 (bytes "NAME") ++ column 28 (bytes "MODEL") ++ line (bytes "STARTED_AT") ++
    line (List.replicate 96 0x2D)

/-- The columns of a runner, in the order in which they are printed. -/
def runnerColumns (r : Json) : List (Option Bytes) :=
  match r.value Json.getString "model_path" [] with
  | none => [none]
  | some modelPath =>
      [(r.value conversions.getInt "pid" 0).map fun pid => column 8 (bytes (toString pid)),
        (r.value conversions.getInt "port" 0).map fun port => column 8 (bytes (toString port)),
        (r.value Json.getString "runner_type" (bytes "?")).map (column 12),
        (r.value Json.getString "name" (bytes "?")).map (column 20),
        some (column 28 (lastComponent modelPath)),
        (r.value Json.getString "started_at" (bytes "?")).map line]

/-- `cmd_runner_list`.  A width that is still set when an exception comes is less than the length
of a body that can bring it about. -/
def cmdRunnerList (reply : Option (Int × Bytes)) : Finished :=
  match reply with
  | none => notConnected serverUrl
  | some (_, body) =>
      match (codec.parse body).bind (Json.index "data") with
      | none => guarded body ([], false)
      | some data =>
          if isEmpty data then guarded body (line (bytes "No active runners."), true)
          else
            guarded body (printAll (some runnerTable ::
              (Runner.elements data).flatMap (runnerColumns conversions)))

/-- `cmd_model_list`. -/
def cmdModelList (reply : Option (Int × Bytes)) : Finished :=
  match reply with
  | none => notConnected serverUrl
  | some (_, body) =>
      match (codec.parse body).bind (Json.index "data") with
      | none => guarded body ([], false)
      | some data =>
          if isEmpty data then guarded body (line (bytes "No models found."), true)
          else
            guarded body (printAll ((Runner.elements data).map fun m =>
              ((m.find "id").bind codec.dump).map line))

end Listing

/-! ## Starting and stopping -/

section Requests

variable (codec : Codec) (serverUrl : Bytes)

/-- Make a request with a body, which throws where the body cannot be written. -/
def post (body : Json) (send : Bytes → Option (Int × Bytes))
    (finish : Int → Bytes → Finished) : Finished :=
  match codec.dump body with
  | none => ⟨none, [], []⟩
  | some text =>
      match send text with
      | none => notConnected serverUrl
      | some (status, received) => finish status received

/-- What a runner is started with. -/
structure RunnerStart where
  runnerName : Bytes
  binary : Bytes
  runnerType : Bytes
  model : Bytes

namespace RunnerStart

variable (start : RunnerStart)

def name : Bytes :=
  if start.runnerName = [] then start.model else start.runnerName

def body : Json :=
  .obj ([(bytes "binary", .str start.binary), (bytes "model", .str start.model),
    (bytes "name", .str start.name)] ++
      if start.runnerType = [] then [] else [(bytes "type", .str start.runnerType)])

end RunnerStart

/-- `cmd_runner_start`. -/
def cmdRunnerStart (start : RunnerStart) (send : Bytes → Option (Int × Bytes)) : Finished :=
  post codec serverUrl start.body send fun status received =>
    if status ≠ 200 then
      ⟨some 1, [],
        [bytes "Server returned HTTP " ++ bytes (toString status) ++ bytes ": " ++ received]⟩
    else
      match codec.parse received with
      | none => guarded received ([], false)
      | some json =>
          match json.value Json.getString "status" [] with
          | none => guarded received ([], false)
          | some status =>
              if status = bytes "error" then
                match json.value Json.getString "error" (bytes "unknown") with
                | none => guarded received ([], false)
                | some error => ⟨some 1, [], [bytes "Error: " ++ error]⟩
              else
                guarded received (printAll [some (bytes "Runner started: "),
                  (json.value Json.getString "name" start.name).map line])

def nameBody (name : Bytes) : Json := .obj [(bytes "name", .str name)]

/-- `cmd_runner_stop`, with the paths it posts to. -/
def cmdRunnerStop (name : Bytes) (send : Bytes → Bytes → Option (Int × Bytes)) : Finished :=
  if name = bytes "all" then
    match send (bytes "/v1/stop-all") (bytes "\x7b\x7d") with
    | none => notConnected serverUrl
    | some (_, received) =>
        match codec.parse received with
        | none => guarded received ([], false)
        | some json =>
            guarded received (printAll [some (bytes "All runners stopped: "),
              (json.value Json.getString "status" (bytes "?")).map line])
  else
    post codec serverUrl (nameBody name) (send (bytes "/v1/stop")) fun _ received =>
      match codec.parse received with
      | none => guarded received ([], false)
      | some json =>
          guarded received (printAll [some (bytes "Runner stopped: "),
            (json.value Json.getString "name" name).map line])

/-- `cmd_model_pull` and `cmd_model_remove`, which differ in what they say of a success. -/
def cmdModel (done : String) (name : Bytes) (send : Bytes → Option (Int × Bytes)) : Finished :=
  post codec serverUrl (.obj [(bytes "model", .str name)]) send fun _ received =>
    match codec.parse received with
    | none => guarded received ([], false)
    | some json =>
        match json.value Json.getString "status" [] with
        | none => guarded received ([], false)
        | some status =>
            if status = bytes "error" then
              match json.value Json.getString "error" (bytes "unknown") with
              | none => guarded received ([], false)
              | some error => ⟨some 0, [], [bytes "Error: " ++ error]⟩
            else ⟨some 0, bytes done ++ line name, []⟩

def cmdModelPull : Bytes → (Bytes → Option (Int × Bytes)) → Finished :=
  cmdModel codec serverUrl "Pulled "

def cmdModelRemove : Bytes → (Bytes → Option (Int × Bytes)) → Finished :=
  cmdModel codec serverUrl "Removed "

end Requests

end Cllama.Cli
