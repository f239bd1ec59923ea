import Mathlib.Data.List.TakeWhile
import Cllama.Library.Json

/-!
# Text generation in the runner

`generate` and `chat` drive llama.cpp.  The library is a parameter: what its calls return
is decided outside the program, and any of them may throw, with a message.  A failed call
is not reported to the caller; it ends the generation with an empty text.
-/

namespace Cllama.Runner

open Cllama.Library

structure CompletionOpts where
  maxTokens : Int := 256
  temperature : ℚ := 7 / 10
  topP : ℚ := 9 / 10
  topK : Int := 40
  seed : Int := -1

/-- The calls of llama.cpp, as functions of the handles passed to them.  A null context is
`none`; an exception is an error with its message. -/
structure Llama where
  Context : Type
  Sampler : Type
  Token : Type
  initFromModel : (nCtx : Nat) → Except Bytes (Option Context)
  nCtx : Context → Nat
  tokenize : (prompt : Bytes) → (capacity : Nat) → (parseSpecial : Bool) →
    Except Bytes (Int × List Token)
  decode : Context → List Token → Except Bytes (Int × Context)
  sampler : (temperature : ℚ) → (topP : Option ℚ) → (seed : Option Nat) → Except Bytes Sampler
  sample : Sampler → Context → Except Bytes (Token × Sampler)
  isEog : Token → Bool
  tokenToPiece : Token → (capacity : Nat) → Int × Bytes
  chatApplyTemplate : (template : Option Bytes) → (messages : List (Bytes × Bytes)) →
    (capacity : Nat) → Int × Bytes

/-- What a generation does: the pieces it hands to `on_token`, and then its text or the
message of an exception. -/
structure Generation where
  pieces : List Bytes
  outcome : Except Bytes Bytes
  deriving DecidableEq

/-- The text that the worker stores in the end; it does not tell an exception's message
from generated text. -/
def Generation.text (generation : Generation) : Bytes :=
  match generation.outcome with
  | .ok text => text
  | .error what => what

variable (llama : Llama)

/-- The size of the context that is asked for. -/
def contextSize (opts : CompletionOpts) : Nat :=
  (max (opts.maxTokens * 2) 2048).toNat

/-- The sampling loop of `generate`, with the output and the pieces so far. -/
def sampleLoop : Nat → llama.Context → llama.Sampler → Bytes → List Bytes → Generation
  | 0, _, _, output, pieces => ⟨pieces, .ok output⟩
  | fuel + 1, ctx, smpl, output, pieces =>
      match llama.sample smpl ctx with
      | .error what => ⟨pieces, .error what⟩
      | .ok (tok, smpl) =>
          if llama.isEog tok then ⟨pieces, .ok output⟩
          else
            let (n, buffer) := llama.tokenToPiece tok 16
            let piece := buffer.take n.toNat
            let (output, pieces) :=
              if n > 0 then (output ++ piece, pieces ++ [piece]) else (output, pieces)
            match llama.decode ctx [tok] with
            | .error what => ⟨pieces, .error what⟩
            | .ok (code, ctx) =>
                if code ≠ 0 then ⟨pieces, .ok output⟩
                else sampleLoop fuel ctx smpl output pieces

/-- A text that is returned is the concatenation of the pieces. -/
def Generation.Joined (generation : Generation) : Prop :=
  ∀ text, generation.outcome = .ok text → text = generation.pieces.flatten

theorem joined_error (pieces : List Bytes) (what : Bytes) :
    Generation.Joined ⟨pieces, .error what⟩ := nofun

theorem joined_ok {pieces : List Bytes} {output : Bytes} (joined : output = pieces.flatten) :
    Generation.Joined ⟨pieces, .ok output⟩ := by
  intro text returned
  cases returned
  exact joined

/-- The loop keeps the output the concatenation of the pieces. -/
theorem sampleLoop_joined {fuel : Nat} {ctx : llama.Context} {smpl : llama.Sampler}
    {output : Bytes} {pieces : List Bytes} (joined : output = pieces.flatten) :
    (sampleLoop llama fuel ctx smpl output pieces).Joined := by
  induction fuel generalizing ctx smpl output pieces with
  | zero => exact joined_ok joined
  | succ fuel ih =>
      rw [sampleLoop]
      split
      · exact joined_error _ _
      next tok next sampled =>
        split
        · exact joined_ok joined
        · have grown : ∀ (n : Int) (piece : Bytes),
              (if n > 0 then (output ++ piece, pieces ++ [piece]) else (output, pieces)).1 =
              (if n > 0 then (output ++ piece, pieces ++ [piece])
                else (output, pieces)).2.flatten := by
            intro n piece
            split
            · simp [joined]
            · exact joined
          dsimp only
          split
          · exact joined_error _ _
          · split
            · exact joined_ok (grown _ _)
            · exact ih (grown _ _)

def generate (prompt : Bytes) (opts : CompletionOpts) (parseSpecial : Bool) : Generation :=
  match llama.initFromModel (contextSize opts) with
  | .error what => ⟨[], .error what⟩
  | .ok none => ⟨[], .ok []⟩
  | .ok (some ctx) =>
      match llama.tokenize prompt (llama.nCtx ctx) parseSpecial with
      | .error what => ⟨[], .error what⟩
      | .ok (count, tokens) =>
          if count < 0 then ⟨[], .ok []⟩
          else
            match llama.decode ctx (tokens.take count.toNat) with
            | .error what => ⟨[], .error what⟩
            | .ok (code, ctx) =>
                if code ≠ 0 then ⟨[], .ok []⟩
                else
                  match llama.sampler opts.temperature
                    (if opts.topP < 1 then some opts.topP else none)
                    (if 0 ≤ opts.seed then some opts.seed.toNat else none) with
                  | .error what => ⟨[], .error what⟩
                  | .ok smpl =>
                      sampleLoop llama
                        (if 0 < opts.maxTokens then opts.maxTokens.toNat else 256) ctx smpl [] []

/-- What `generate` returns is the concatenation of the pieces it handed over. -/
theorem generate_joined (prompt : Bytes) (opts : CompletionOpts) (parseSpecial : Bool) :
    (generate llama prompt opts parseSpecial).Joined := by
  rw [generate]
  split
  · exact joined_error _ _
  · exact joined_ok rfl
  · split
    · exact joined_error _ _
    · split
      · exact joined_ok rfl
      · split
        · exact joined_error _ _
        · split
          · exact joined_ok rfl
          · split
            · exact joined_error _ _
            · exact sampleLoop_joined llama rfl

/-- The string that a NUL-terminated buffer holds. -/
def cString (buffer : Bytes) : Bytes := buffer.takeWhile (· ≠ 0)

theorem cString_of_not_mem {text : Bytes} (free : (0 : UInt8) ∉ text) : cString text = text :=
  takeWhile_ne_eq_self free

/-- The messages of a chat request.  `typeError` is the exception for a message without a
string as role or content; a missing member, which the source does not check for, is taken
for one too. -/
def readMessages (typeError : Json → Bytes) : List Json → Except Bytes (List (Bytes × Bytes))
  | [] => .ok []
  | message :: messages =>
      match (message.find "role").bind Json.getString,
        (message.find "content").bind Json.getString with
      | some role, some content =>
          (readMessages typeError messages).map ((cString role, cString content) :: ·)
      | _, _ => .error (typeError message)

/-- The values a range-based loop over a JSON value visits. -/
def elements : Json → List Json
  | .null => []
  | .arr items => items
  | .obj members => members.map Prod.snd
  | json => [json]

/-- The template that is passed to llama.cpp, a null pointer or a C string. -/
def templateArg (template : Bytes) : Option Bytes :=
  if template = [] then none else some (cString template)

/-- The prompt of a chat; a failed template leaves the buffer as it was allocated. -/
def chatPrompt (template : Bytes) (messages : List (Bytes × Bytes)) : Bytes :=
  let tmpl := templateArg template
  let size := (max (llama.chatApplyTemplate tmpl messages 0).1 64).toNat
  cString (llama.chatApplyTemplate tmpl messages size).2

def chat (typeError : Json → Bytes) (messagesJson : Json) (opts : CompletionOpts)
    (chatTemplate : Bytes) : Generation :=
  match readMessages typeError (elements messagesJson) with
  | .error what => ⟨[], .error what⟩
  | .ok messages => generate llama (chatPrompt llama chatTemplate messages) opts true

end Cllama.Runner
