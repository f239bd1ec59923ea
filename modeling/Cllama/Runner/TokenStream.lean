import Cllama.Library.Json
import Cllama.Library.Transition

/-!
# The token stream between generation and response

A completion request of the runner starts a detached worker that generates text, and
answers with a content provider that the HTTP server calls for more of the body.  The two
share a `TokenStream` under a mutex.  Every region under the mutex is one step here; the
provider gives the mutex up around each write.  The provider is called again as long as
it returns true, and the done callback is called after it has returned false.
-/

namespace Cllama.Runner

open Cllama.Library

/-- `TokenStream`, the state under the mutex. -/
structure TokenStream where
  tokens : List Bytes
  text : Bytes
  done : Bool
  aborted : Bool
  deriving DecidableEq

/-- A record of the response. -/
inductive Emitted where
  | token (piece : Bytes)
  | done (text : Bytes)
  deriving DecidableEq

namespace Emitted

/-- The JSON value of a record; the keys of an object are sorted. -/
def json : Emitted → Json
  | token piece => .obj [(bytes "token", .str piece)]
  | done text => .obj [(bytes "done", .bool true), (bytes "text", .str text)]

/-- The line of a record, unless its serialisation throws. -/
def line (codec : Codec) (record : Emitted) : Option Bytes :=
  (codec.dump record.json).map (· ++ [Codec.newline])

/-- The lines of some records. -/
def lines (codec : Codec) (records : List Emitted) : Option Bytes :=
  (records.mapM (line codec)).map List.flatten

theorem lines_append_singleton {codec : Codec} {records : List Emitted} {record : Emitted}
    {output text : Bytes} (written : lines codec records = some output)
    (next : record.line codec = some text) :
    lines codec (records ++ [record]) = some (output ++ text) := by
  rw [lines, Option.map_eq_some_iff] at written ⊢
  rcases written with ⟨parts, mapped, rfl⟩
  exact ⟨parts ++ [text], by simp [List.mapM_append, mapped, next], by simp⟩

/-- The piece of a token record. -/
def piece? : Emitted → Option Bytes
  | token piece => some piece
  | done _ => none

end Emitted

/-- Where the content provider stands: before a call; in a write of a token line; before
taking the mutex again after a write, successful or not; in the write of the final line;
after it has returned false; after the done callback; or gone with an exception. -/
inductive Provider where
  | idle
  | writing (line : Bytes)
  | written
  | failed
  | finishing (line : Bytes)
  | returned
  | closed
  | threw
  deriving DecidableEq

/-- The two parties and what they share.  `finalText` is the text that the worker ended
with.  The rest is history: the pieces the worker produced and those it queued, the piece
taken from the queue and not written, the records and the octets written, and whether a
write has failed. -/
structure State where
  stream : TokenStream
  provider : Provider
  finalText : Option Bytes
  produced : List Bytes
  pushed : List Bytes
  inHand : List Bytes
  records : List Emitted
  output : Bytes
  writeFailed : Bool
  deriving DecidableEq

/-- The state in which a request starts. -/
def State.fresh : State where
  stream := ⟨[], [], false, false⟩
  provider := .idle
  finalText := none
  produced := []
  pushed := []
  inHand := []
  records := []
  output := []
  writeFailed := false

/-- A step of the worker, of the content provider or of the HTTP server. -/
inductive Action where
  | onToken (piece : Bytes)
  | finish (text : Bytes)
  | call
  | write (succeeds : Bool)
  | lock
  | release
  deriving DecidableEq

variable (codec : Codec)

/-- The region of `on_token`. -/
def onToken (piece : Bytes) (state : State) : Option State :=
  if state.finalText.isSome then none
  else if state.stream.aborted then
    some { state with produced := state.produced ++ [piece] }
  else
    some { state with
      stream := { state.stream with tokens := state.stream.tokens ++ [piece] }
      produced := state.produced ++ [piece]
      pushed := state.pushed ++ [piece] }

/-- The last region of the worker, with the generated text or that of an exception. -/
def finish (text : Bytes) (state : State) : Option State :=
  if state.finalText.isSome then none
  else
    some { state with
      stream := { state.stream with text := text, done := true }
      finalText := some text }

/-- The part of a provider region from the loop test on, up to the next write or the end
of the call. -/
def drain (state : State) : State :=
  match state.stream.tokens with
  | piece :: tokens =>
      match (Emitted.token piece).line codec with
      | none => { state with provider := .threw }
      | some line =>
          { state with
            stream := { state.stream with tokens := tokens }
            provider := .writing line
            inHand := [piece] }
  | [] =>
      if state.stream.done then
        match (Emitted.done state.stream.text).line codec with
        | none => { state with provider := .threw }
        | some line => { state with provider := .finishing line }
      else { state with provider := .idle }

/-- The first region of a call, once the awaited condition holds. -/
def call (state : State) : Option State :=
  if state.provider = .idle then
    if state.stream.tokens = [] ∧ ¬state.stream.done ∧ ¬state.stream.aborted then none
    else if state.stream.aborted then some { state with provider := .returned }
    else some (drain codec state)
  else none

/-- A write returns.  The result of the final write is ignored. -/
def write (succeeds : Bool) (state : State) : Option State :=
  match state.provider, succeeds with
  | .writing line, true =>
      some { state with
        provider := .written
        inHand := []
        records := state.records ++ state.inHand.map .token
        output := state.output ++ line }
  | .writing _, false => some { state with provider := .failed, writeFailed := true }
  | .finishing line, true =>
      some { state with
        provider := .returned
        records := state.records ++ [.done state.stream.text]
        output := state.output ++ line }
  | .finishing _, false => some { state with provider := .returned, writeFailed := true }
  | _, _ => none

/-- The region after the write of a token line. -/
def lock (state : State) : Option State :=
  match state.provider with
  | .written => some (drain codec state)
  | .failed =>
      some { state with
        stream := { state.stream with aborted := true }
        provider := .returned }
  | _ => none

/-- The done callback. -/
def release (state : State) : Option State :=
  if state.provider = .returned then
    some { state with
      stream := { state.stream with aborted := true }
      provider := .closed }
  else none

def step (state : State) : Action → Option State
  | .onToken piece => onToken piece state
  | .finish text => finish text state
  | .call => call codec state
  | .write succeeds => write succeeds state
  | .lock => lock codec state
  | .release => release state

/-- The machine of one request. -/
def tokenStream : Machine State Action where
  Initial := (· = .fresh)
  step := step codec

end Cllama.Runner
