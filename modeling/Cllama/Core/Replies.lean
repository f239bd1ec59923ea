import Cllama.Core.NdjsonRecords
import Cllama.Library.Http

/-!
# What the manager makes of a runner's response

Once a runner is there to answer, a proxied request is one HTTP exchange with it.  The
blocking requests post and parse the body; the streaming requests parse the chunks as
they arrive and look at the context afterwards.  `postReply_eq` and `sendReply_eq` give
their results by the lines of the body.
-/

namespace Cllama.Core.RunnerMgr

open Cllama.Library Http

variable (codec : Codec)

/-- The message of a blocking request without a usable response. -/
def httpFailure (failure : String) (code : Int) : Bytes := bytes failure ++ bytes (toString code)

/-- The end of `generate_completion` and `chat_completion`. -/
def postReply (failure : String) (exchange : Exchange) : CLlamaResult Bytes :=
  match exchange.reply with
  | none => .error ⟨.networkError, httpFailure failure 0⟩
  | some (status, body) =>
      if status ≠ 200 then .error ⟨.networkError, httpFailure failure status⟩
      else parseNdjson codec body

/-- The end of `stream_completion` and `stream_chat`, from the request on. -/
def sendReply (failure : String) (onToken : Option TokenCallback) (exchange : Exchange) :
    CLlamaResult Bytes :=
  match exchange.send (streamParseChunk codec) (.fresh onToken) with
  | (none, _) => .error ⟨.networkError, bytes "Runner connection failed"⟩
  | (some status, ctx) =>
      if status ≠ 200 then .error ⟨.networkError, httpFailure failure status⟩
      else if ctx.gotError then .error ⟨.modelError, ctx.errorMsg⟩
      else .ok ctx.fullText

def generateCompletionReply (exchange : Exchange) : CLlamaResult Bytes :=
  postReply codec "Runner request failed: HTTP " exchange

def chatCompletionReply (exchange : Exchange) : CLlamaResult Bytes :=
  postReply codec "Runner chat failed: HTTP " exchange

def streamCompletionReply (onToken : Option TokenCallback) (exchange : Exchange) :
    CLlamaResult Bytes :=
  sendReply codec "Runner request failed: HTTP " onToken exchange

def streamChatReply (onToken : Option TokenCallback) (exchange : Exchange) :
    CLlamaResult Bytes :=
  sendReply codec "Runner chat failed: HTTP " onToken exchange

variable {codec}

/-- Without a response, a streaming request reports a failed connection, whatever the
chunks that had arrived. -/
theorem sendReply_of_no_response (failure : String) (onToken : Option TokenCallback)
    (chunks : List Bytes) :
    sendReply codec failure onToken ⟨chunks, none⟩ =
      .error ⟨.networkError, bytes "Runner connection failed"⟩ := by
  rw [sendReply, Exchange.send]
  rcases Lines.foldWhile (streamParseChunk codec) chunks (.fresh onToken) with ⟨goOn, ctx⟩
  cases goOn <;> rfl

/-! ## Results by the lines of the body -/

/-- The terminated lines of a response. -/
def terminatedLines (chunks : List Bytes) : List Bytes :=
  (Lines.split Codec.newline chunks.flatten).1

/-- A response that the transport delivered whole, with status 200. -/
def delivered (chunks : List Bytes) : Exchange := ⟨chunks, some 200⟩

/-- The blocking requests read all lines. -/
theorem postReply_eq (failure : String) (chunks : List Bytes) :
    postReply codec failure (delivered chunks) =
      (readLines (readRecord codec) (bodyLines chunks.flatten) []).mapError Fault.error := by
  rw [← parseNdjson_eq_readLines]
  rfl

theorem send_eq (chunks : List Bytes) (onToken : Option TokenCallback) :
    (delivered chunks).send (streamParseChunk codec) (.fresh onToken) =
      (if (streamParseChunks codec chunks (.fresh onToken)).1 then some 200 else none,
        (streamParseChunks codec chunks (.fresh onToken)).2) := by
  have same : ∀ ctx, Lines.foldWhile (streamParseChunk codec) chunks ctx =
      streamParseChunks codec chunks ctx := by
    induction chunks with
    | nil => exact fun ctx => rfl
    | cons chunk chunks ih =>
        intro ctx
        rw [Lines.foldWhile, streamParseChunks]
        rcases streamParseChunk codec chunk ctx with ⟨goOn, next⟩
        cases goOn with
        | false => rfl
        | true => exact ih next
  rw [Exchange.send, delivered, same]
  rcases streamParseChunks codec chunks (.fresh onToken) with ⟨goOn, ctx⟩
  cases goOn <;> rfl

/-- A streaming request succeeds exactly when the loop runs over all terminated lines
without stopping, and then with the text the context holds. -/
theorem sendReply_eq (failure : String) (chunks : List Bytes)
    (onToken : Option TokenCallback) :
    sendReply codec failure onToken (delivered chunks) =
      match Lines.foldWhile (streamParseLine codec) (terminatedLines chunks)
        (.fresh onToken) with
      | (true, ctx) => .ok ctx.fullText
      | (false, _) => .error ⟨.networkError, bytes "Runner connection failed"⟩ := by
  rcases @streamParseChunks_fresh codec chunks onToken with ⟨outcome, buffer, results⟩
  rw [sendReply, send_eq, outcome, results]
  rw [← terminatedLines]
  cases folded : Lines.foldWhile (streamParseLine codec) (terminatedLines chunks)
    (.fresh onToken) with
  | mk goOn ctx =>
    cases goOn with
    | false => rfl
    | true =>
      rcases foldWhile_streamParseLine_of_true folded with ⟨-, sameError⟩
      have noError : ctx.gotError = false := sameError
      simp [noError]

/-- With a callback that always continues, the terminated lines decide. -/
theorem sendReply_continueAlways (failure : String) (chunks : List Bytes) :
    sendReply codec failure (some continueAlways) (delivered chunks) =
      (readLines (readStreamRecord codec) (terminatedLines chunks) []).mapError
        fun _ => ⟨.networkError, bytes "Runner connection failed"⟩ := by
  have folded := @foldWhile_continueAlways codec (.fresh (some continueAlways)) rfl
    (terminatedLines chunks)
  rw [sendReply_eq]
  rw [show (StreamCtx.fresh (some continueAlways)).fullText = [] from rfl] at folded
  cases read : readLines (readStreamRecord codec) (terminatedLines chunks) [] with
  | error fault =>
    rw [read] at folded
    rcases folded with ⟨ctx, stopped, -⟩
    rw [stopped]
    rfl
  | ok text =>
    rw [read] at folded
    rcases folded with ⟨ctx, ran, sameText, -⟩
    rw [ran, ← sameText]
    rfl

end Cllama.Core.RunnerMgr
