import Cllama.Cli.ControlTokens
import Cllama.Library.Http
import Cllama.Library.Transition
import Cllama.Runner.Embed

/-!
# The chat of the command line

`cmd_runner_chat` reads lines.  A line that is no command is sent to the server together with
the messages before it.  The line is remembered before the request is made; a failure takes it
back, a reply is remembered after the control tokens have been removed from it.
-/

namespace Cllama.Cli

open Cllama.Library Cllama.Runner

/-! ## Messages -/

/-- What `cmd_runner_chat` is called with. -/
structure ChatSettings where
  name : Bytes
  maxTokens : Int
  temp : CFloat
  topP : CFloat
  topK : Int

def message (role : String) (content : Bytes) : Json :=
  .obj [(bytes "content", .str content), (bytes "role", .str (bytes role))]

/-- The body of a request. -/
def ChatSettings.body (settings : ChatSettings) (history : List Json) : Json :=
  .obj
    [(bytes "max_tokens", .int settings.maxTokens), (bytes "messages", .arr history),
      (bytes "model", .str settings.name), (bytes "temperature", jsonFloat settings.temp),
      (bytes "top_k", .int settings.topK), (bytes "top_p", jsonFloat settings.topP)]

/-! ## Responses -/

/-- `empty`, which holds of null and of containers without elements. -/
def isEmpty : Json → Bool
  | .null => true
  | .arr items => items.isEmpty
  | .obj members => members.isEmpty
  | _ => false

/-- `operator[]` with the index zero, which adds a missing element as null. -/
def firstItem : Json → Option Json
  | .arr items => some (items.head?.getD .null)
  | .null => some .null
  | _ => none

/-- `j["choices"][0]["message"]["content"]` as a string. -/
def choiceContent (json : Json) : Option Bytes := do
  let choices ← json.index "choices"
  let choice ← firstItem choices
  let message ← choice.index "message"
  let content ← message.index "content"
  content.getString

/-- What becomes of a request. -/
inductive Outcome where
  | notConnected
  | serverError
  | notParsed
  | reportedError
  | reply (text : Bytes)

variable (codec : Codec)

/-- The block that may throw.  An error is written to the log, which may throw as well. -/
def readReply (body : Bytes) : Option Outcome := do
  let json ← codec.parse body
  if json.contains "choices" && !isEmpty ((json.find "choices").getD .null) then
    let text ← choiceContent json
    return .reply text
  else if json.contains "error" then
    let _ ← codec.dump ((json.find "error").getD .null)
    return .reportedError
  else return .reply []

def outcome (exchange : Http.Exchange) : Outcome :=
  match exchange.reply with
  | none => .notConnected
  | some (status, body) =>
      if status ≠ 200 then .serverError
      else (readReply codec body).getD .notParsed

/-! ## The loop -/

/-- The messages remembered, and the bodies of the requests made. -/
structure Chat where
  history : List Json
  requests : List Bytes

/-- Ways to leave the loop without another prompt. -/
inductive Exit where
  | goodbye
  | exception
  | hangs

variable (settings : ChatSettings)

/-- A line that is sent to the server. -/
def send (line : Bytes) (exchange : Http.Exchange) (chat : Chat) : Except Exit Chat :=
  let history := chat.history ++ [message "user" line]
  match codec.dump (settings.body history) with
  | none => .error .exception
  | some body =>
      let requests := chat.requests ++ [body]
      match outcome codec exchange with
      | .notConnected => .ok ⟨history.dropLast, requests⟩
      | .serverError => .ok ⟨history.dropLast, requests⟩
      | .notParsed => .ok ⟨history.dropLast, requests⟩
      | .reportedError => .ok ⟨history.dropLast, requests⟩
      | .reply text =>
          match removeControlTokens text with
          | none => .error .hangs
          | some reply => .ok ⟨history ++ [message "assistant" reply], requests⟩

/-- One line typed at the prompt, and the exchange if it leads to a request. -/
def turn (line : Bytes) (exchange : Http.Exchange) (chat : Chat) : Except Exit Chat :=
  if line = [] then .ok chat
  else if line = bytes "/bye" ∨ line = bytes "/exit" then .error .goodbye
  else if line = bytes "/reset" then .ok { chat with history := [] }
  else if line = bytes "/help" then .ok chat
  else send codec settings line exchange chat

/-- The loop of `cmd_runner_chat`. -/
def chatLoop : Machine Chat (Bytes × Http.Exchange) where
  Initial chat := chat = ⟨[], []⟩
  step chat input := (turn codec settings input.1 input.2 chat).toOption

end Cllama.Cli
