import Cllama.Core.Error
import Cllama.Library.Json

/-!
# The NDJSON parsers of the runner manager

A runner answers with one JSON record a line.  The manager reads such a body in two
ways: `parseNdjson` takes the whole body of a blocking request, `streamParseChunk` takes
the chunks of a streaming request as the HTTP client delivers them and keeps its state
in a `StreamCtx` in between.  A thrown C++ exception is `none` in the readers used here.
-/

namespace Cllama.Core.RunnerMgr

open Cllama.Library

variable (codec : Codec)

/-- The message for a line that is no record. -/
def invalidNdjson : Bytes := bytes "Invalid NDJSON from runner"

/-! ## Blocking requests -/

/-- `std::getline`: the characters up to the next line feed, which is consumed, or up to
the end.  It fails when nothing is left to extract. -/
def getline : Bytes → Option (Bytes × Bytes)
  | [] => none
  | stream@(_ :: _) =>
      some (stream.takeWhile (· ≠ Codec.newline),
        (stream.dropWhile (· ≠ Codec.newline)).tail)

/-- The `try` block of `parse_ndjson`: return with an error message, or go on with the
text so far. -/
def parseNdjsonRecord (line text : Bytes) : Option (Except Bytes Bytes) := do
  let json ← codec.parse line
  if json.contains "error" then
    let message ← (json.find "error").bind Json.getString
    return .error message
  if ← json.value Json.getBool "done" false then
    let text ← json.value Json.getString "text" text
    return .ok text
  return .ok text

/-- One round of the loop of `parse_ndjson`. -/
def parseNdjsonLine (text line : Bytes) : CLlamaResult Bytes :=
  if line = [] then .ok text
  else
    match parseNdjsonRecord codec line text with
    | none => .error ⟨.modelError, invalidNdjson⟩
    | some (.error message) => .error ⟨.modelError, message⟩
    | some (.ok text) => .ok text

/-- The loop of `parse_ndjson`.  Every round consumes a character, so the length of the
stream is enough fuel. -/
def parseNdjsonLoop : Nat → Bytes → Bytes → CLlamaResult Bytes
  | 0, _, text => .ok text
  | fuel + 1, stream, text =>
      match getline stream with
      | none => .ok text
      | some (line, stream) =>
          match parseNdjsonLine codec text line with
          | .error error => .error error
          | .ok text => parseNdjsonLoop fuel stream text

def parseNdjson (body : Bytes) : CLlamaResult Bytes :=
  parseNdjsonLoop codec body.length body []

/-! ## Streaming requests -/

/-- A token callback, as a function of the tokens it has received, the latest last.  It
answers whether to go on, or throws. -/
abbrev TokenCallback := List Bytes → Option Bool

/-- The callback that always asks for more. -/
def continueAlways : TokenCallback := fun _ => some true

/-- `StreamCtx`, with the tokens handed to the callback so far. -/
structure StreamCtx where
  leftover : Bytes
  fullText : Bytes
  gotError : Bool
  errorMsg : Bytes
  gotDone : Bool
  onToken : Option TokenCallback
  tokens : List Bytes

/-- The context a streaming request starts with. -/
def StreamCtx.fresh (onToken : Option TokenCallback) : StreamCtx where
  leftover := []
  fullText := []
  gotError := false
  errorMsg := []
  gotDone := false
  onToken := onToken
  tokens := []

/-- The `catch` block of `stream_parse_chunk`. -/
def StreamCtx.invalid (ctx : StreamCtx) : Bool × StreamCtx :=
  (false, { ctx with gotError := true, errorMsg := invalidNdjson })

/-- Hand the token member of a record to the callback, when there are both; the answer is
the callback's. -/
def StreamCtx.deliver (ctx : StreamCtx) (token : Option Json) : Option Bool × StreamCtx :=
  match token, ctx.onToken with
  | some token, some onToken =>
      match token.getString with
      | none => (none, ctx)
      | some token =>
          (onToken (ctx.tokens ++ [token]), { ctx with tokens := ctx.tokens ++ [token] })
  | _, _ => (some true, ctx)

/-- One round of the loop of `stream_parse_chunk` on a non-empty line. -/
def streamParseRecord (line : Bytes) (ctx : StreamCtx) : Bool × StreamCtx :=
  match codec.parse line with
  | none => ctx.invalid
  | some json =>
      if json.contains "error" then
        match (json.find "error").bind Json.getString with
        | none => { ctx with gotError := true }.invalid
        | some message => (false, { ctx with gotError := true, errorMsg := message })
      else
        match ctx.deliver (json.find "token") with
        | (none, ctx) => ctx.invalid
        | (some false, ctx) => (false, ctx)
        | (some true, ctx) =>
            match json.value Json.getBool "done" false with
            | none => ctx.invalid
            | some false => (true, ctx)
            | some true =>
                match json.value Json.getString "text" ctx.fullText with
                | none => { ctx with gotDone := true }.invalid
                | some text => (true, { ctx with gotDone := true, fullText := text })

def streamParseLine (line : Bytes) (ctx : StreamCtx) : Bool × StreamCtx :=
  if line = [] then (true, ctx) else streamParseRecord codec line ctx

/-- `std::string::find` of a character, from a position on. -/
def findFrom (symbol : UInt8) (text : Bytes) (pos : Nat) : Option Nat :=
  ((text.drop pos).findIdx? (· = symbol)).map (· + pos)

/-- The loop of `stream_parse_chunk`, with the position it has reached in the buffer.
Every round moves the position, so the length of the buffer is enough fuel. -/
def streamParseLoop : Nat → Nat → StreamCtx → Bool × Nat × StreamCtx
  | 0, pos, ctx => (true, pos, ctx)
  | fuel + 1, pos, ctx =>
      match findFrom Codec.newline ctx.leftover pos with
      | none => (true, pos, ctx)
      | some nl =>
          match streamParseLine codec ((ctx.leftover.drop pos).take (nl - pos)) ctx with
          | (true, ctx) => streamParseLoop fuel (nl + 1) ctx
          | (false, ctx) => (false, nl + 1, ctx)

/-- `stream_parse_chunk`: `false` asks the HTTP client to stop.  The parsed lines are
erased from the buffer only when the loop runs to its end. -/
def streamParseChunk (data : Bytes) (ctx : StreamCtx) : Bool × StreamCtx :=
  let ctx := { ctx with leftover := ctx.leftover ++ data }
  match streamParseLoop codec ctx.leftover.length 0 ctx with
  | (true, pos, ctx) => (true, { ctx with leftover := ctx.leftover.drop pos })
  | (false, _, ctx) => (false, ctx)

/-- Feed chunks one after another, up to the first refused one. -/
def streamParseChunks : List Bytes → StreamCtx → Bool × StreamCtx
  | [], ctx => (true, ctx)
  | chunk :: chunks, ctx =>
      match streamParseChunk codec chunk ctx with
      | (true, ctx) => streamParseChunks chunks ctx
      | (false, ctx) => (false, ctx)

end Cllama.Core.RunnerMgr
