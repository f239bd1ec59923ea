import Cllama.Core.Ndjson
import Cllama.Library.Lines
import Mathlib.Data.List.TakeWhile

/-!
# The NDJSON parsers as readers of lines

Both parsers walk over a buffer with their own cursor.  This module relates the walks to
`Lines.split`: the blocking parser folds over the lines of the body, the last one
included even when it is not terminated; the streaming parser is the incremental reader
`Lines.feed`.  Independence of the chunking is then a fact about that reader.
-/

namespace Cllama.Core.RunnerMgr

open Cllama.Library

variable {codec : Codec}

/-! ## Blocking requests -/

/-- The lines that `std::getline` extracts from a body. -/
def bodyLines (body : Bytes) : List Bytes :=
  (Lines.split Codec.newline body).1 ++
    if (Lines.split Codec.newline body).2 = [] then []
    else [(Lines.split Codec.newline body).2]

theorem bodyLines_of_not_mem {body : Bytes} (nonempty : body ≠ [])
    (free : Codec.newline ∉ body) : bodyLines body = [body] := by
  simp [bodyLines, Lines.split_of_not_mem free, nonempty]

theorem bodyLines_line {line : Bytes} (free : Codec.newline ∉ line) (body : Bytes) :
    bodyLines (line ++ Codec.newline :: body) = line :: bodyLines body := by
  simp [bodyLines, Lines.split_line free]

theorem getline_eq {stream : Bytes} (nonempty : stream ≠ []) :
    getline stream = some (stream.takeWhile (· ≠ Codec.newline),
      (stream.dropWhile (· ≠ Codec.newline)).tail) := by
  cases stream with
  | nil => contradiction
  | cons symbol stream => rfl

theorem getline_of_not_mem {stream : Bytes} (nonempty : stream ≠ [])
    (free : Codec.newline ∉ stream) : getline stream = some (stream, []) := by
  have others : ∀ other ∈ stream, decide (other ≠ Codec.newline) = true := by
    intro other member
    exact decide_eq_true fun equal => free (equal ▸ member)
  rw [getline_eq nonempty, List.takeWhile_eq_self_iff.mpr others,
    List.dropWhile_eq_nil_iff.mpr others]
  rfl

theorem getline_line {line : Bytes} (free : Codec.newline ∉ line) (stream : Bytes) :
    getline (line ++ Codec.newline :: stream) = some (line, stream) := by
  have others : ∀ other ∈ line, decide (other ≠ Codec.newline) = true := by
    intro other member
    exact decide_eq_true fun equal => free (equal ▸ member)
  rw [getline_eq (by simp), List.takeWhile_append_of_pos others,
    List.dropWhile_append_of_pos others]
  simp

/-- The blocking parser folds over the lines of the body. -/
theorem parseNdjsonLoop_eq {fuel : Nat} {stream : Bytes} (enough : stream.length ≤ fuel)
    (text : Bytes) :
    parseNdjsonLoop codec fuel stream text =
      (bodyLines stream).foldlM (parseNdjsonLine codec) text := by
  induction fuel generalizing stream text with
  | zero =>
      rw [List.length_eq_zero_iff.mp (Nat.le_zero.mp enough)]
      rfl
  | succ fuel ih =>
      by_cases empty : stream = []
      · subst empty
        rfl
      by_cases member : Codec.newline ∈ stream
      · rcases List.eq_append_cons_of_mem member with ⟨line, rest, rfl, free⟩
        have shorter : rest.length ≤ fuel := by
          simp only [List.length_append, List.length_cons] at enough
          omega
        rw [parseNdjsonLoop, getline_line free, bodyLines_line free, List.foldlM_cons]
        dsimp only
        cases parseNdjsonLine codec text line with
        | error error => rfl
        | ok next => exact ih shorter next
      · rw [parseNdjsonLoop, getline_of_not_mem empty member, bodyLines_of_not_mem empty member]
        dsimp only
        cases parsed : parseNdjsonLine codec text stream with
        | error error => simp [parsed, bind, Except.bind]
        | ok next =>
            have shorter : ([] : Bytes).length ≤ fuel := Nat.zero_le fuel
            have ended := ih shorter next
            dsimp only
            rw [ended, List.foldlM_cons, parsed]
            rfl

theorem parseNdjson_eq (body : Bytes) :
    parseNdjson codec body = (bodyLines body).foldlM (parseNdjsonLine codec) [] :=
  parseNdjsonLoop_eq (Nat.le_refl _) []

/-! ## Streaming requests -/

theorem StreamCtx.deliver_leftover (ctx : StreamCtx) (buffer : Bytes) (token : Option Json) :
    { ctx with leftover := buffer }.deliver token =
      ((ctx.deliver token).1, { (ctx.deliver token).2 with leftover := buffer }) := by
  rcases ctx with ⟨leftover, fullText, gotError, errorMsg, gotDone, onToken, tokens⟩
  unfold StreamCtx.deliver
  cases token with
  | none => rfl
  | some token =>
    cases onToken with
    | none => rfl
    | some onToken =>
      dsimp only
      cases token.getString <;> rfl

/-- A round of the loop neither reads nor writes the buffer. -/
theorem streamParseLine_leftover (line buffer : Bytes) (ctx : StreamCtx) :
    streamParseLine codec line { ctx with leftover := buffer } =
      ((streamParseLine codec line ctx).1,
        { (streamParseLine codec line ctx).2 with leftover := buffer }) := by
  unfold streamParseLine
  split
  · rfl
  unfold streamParseRecord
  cases codec.parse line with
  | none => rfl
  | some json =>
    dsimp only
    split
    · cases (json.find "error").bind Json.getString <;> rfl
    rw [StreamCtx.deliver_leftover]
    rcases ctx.deliver (json.find "token") with ⟨answer, ctx⟩
    cases answer with
    | none => rfl
    | some goOn =>
      cases goOn with
      | false => rfl
      | true =>
        dsimp only
        cases json.value Json.getBool "done" false with
        | none => rfl
        | some done =>
          cases done with
          | false => rfl
          | true =>
            dsimp only
            cases json.value Json.getString "text" ctx.fullText <;> rfl

theorem findFrom_of_not_mem {text : Bytes} {pos : Nat}
    (free : Codec.newline ∉ text.drop pos) : findFrom Codec.newline text pos = none := by
  rw [findFrom, Option.map_eq_none_iff, List.findIdx?_eq_none_iff]
  intro other member
  exact decide_eq_false fun equal => free (equal ▸ member)

theorem findFrom_line {text line rest : Bytes} {pos : Nat}
    (cut : text.drop pos = line ++ Codec.newline :: rest) (free : Codec.newline ∉ line) :
    findFrom Codec.newline text pos = some (line.length + pos) := by
  have index : (line ++ Codec.newline :: rest).findIdx? (· = Codec.newline) =
      some line.length := by
    rw [List.findIdx?_append, List.findIdx?_eq_none_iff.mpr]
    · simp [List.findIdx?_cons]
    · intro other member
      exact decide_eq_false fun equal => free (equal ▸ member)
  rw [findFrom, cut, index]
  rfl

/-- The loop folds over the terminated lines from its position on; when it runs to its
end, it stands after the last line feed. -/
theorem streamParseLoop_eq {fuel pos : Nat} {ctx : StreamCtx}
    (enough : (ctx.leftover.drop pos).length ≤ fuel) :
    ∃ last, streamParseLoop codec fuel pos ctx =
        ((Lines.foldWhile (streamParseLine codec)
            (Lines.split Codec.newline (ctx.leftover.drop pos)).1 ctx).1, last,
          (Lines.foldWhile (streamParseLine codec)
            (Lines.split Codec.newline (ctx.leftover.drop pos)).1 ctx).2) ∧
      ((streamParseLoop codec fuel pos ctx).1 = true →
        ctx.leftover.drop last = (Lines.split Codec.newline (ctx.leftover.drop pos)).2) := by
  induction fuel generalizing pos ctx with
  | zero =>
      have empty : ctx.leftover.drop pos = [] :=
        List.length_eq_zero_iff.mp (Nat.le_zero.mp enough)
      exact ⟨pos, by simp [streamParseLoop, empty], fun _ => by simp [empty]⟩
  | succ fuel ih =>
      by_cases member : Codec.newline ∈ ctx.leftover.drop pos
      · rcases List.eq_append_cons_of_mem member with ⟨line, rest, cut, free⟩
        have found := findFrom_line cut free
        have lineCut : (ctx.leftover.drop pos).take (line.length + pos - pos) = line := by
          rw [cut, Nat.add_sub_cancel, List.take_left]
        have restCut : ctx.leftover.drop (line.length + pos + 1) = rest := by
          rw [show line.length + pos + 1 = pos + (line.length + 1) by omega, ← List.drop_drop,
            cut]
          simp
        rw [streamParseLoop, found]
        dsimp only
        rw [lineCut, cut, Lines.split_line free, Lines.foldWhile]
        have kept : (streamParseLine codec line ctx).2.leftover = ctx.leftover := by
          have frame : streamParseLine codec line ctx = _ :=
            streamParseLine_leftover line ctx.leftover ctx
          exact congrArg (fun result => result.2.leftover) frame
        cases parsed : streamParseLine codec line ctx with
        | mk goOn next =>
          cases goOn with
          | false => exact ⟨line.length + pos + 1, rfl, fun running => by cases running⟩
          | true =>
            rw [parsed] at kept
            dsimp only at kept
            have shorter : (next.leftover.drop (line.length + pos + 1)).length ≤ fuel := by
              rw [kept, restCut]
              have size := congrArg List.length cut
              simp only [List.length_append, List.length_cons] at size
              omega
            have tail := ih shorter
            rw [kept, restCut] at tail
            exact tail
      · rw [streamParseLoop, findFrom_of_not_mem member, Lines.split_of_not_mem member]
        exact ⟨pos, rfl, fun _ => rfl⟩

/-- A fold of rounds carries the buffer along. -/
theorem foldWhile_leftover (lines : List Bytes) (buffer : Bytes) (ctx : StreamCtx) :
    Lines.foldWhile (streamParseLine codec) lines { ctx with leftover := buffer } =
      ((Lines.foldWhile (streamParseLine codec) lines ctx).1,
        { (Lines.foldWhile (streamParseLine codec) lines ctx).2 with leftover := buffer }) := by
  induction lines generalizing ctx with
  | nil => rfl
  | cons line lines ih =>
      rw [Lines.foldWhile, Lines.foldWhile, streamParseLine_leftover]
      rcases streamParseLine codec line ctx with ⟨goOn, next⟩
      cases goOn with
      | false => rfl
      | true => exact ih next

/-- What a reader holds, as a context: its buffer and the rest of its state. -/
def StreamCtx.ofReader (reader : Bytes × StreamCtx) : StreamCtx :=
  { reader.2 with leftover := reader.1 }

/-- The streaming parser is the incremental reader of lines. -/
theorem streamParseChunk_eq (data : Bytes) (reader : Bytes × StreamCtx) :
    streamParseChunk codec data (.ofReader reader) =
      ((Lines.feed Codec.newline (streamParseLine codec) data reader).1,
        .ofReader (Lines.feed Codec.newline (streamParseLine codec) data reader).2) := by
  rcases reader with ⟨buffer, ctx⟩
  have loop := @streamParseLoop_eq codec _ 0
    { ctx with leftover := buffer ++ data } (Nat.le_refl _)
  simp only [List.drop_zero, foldWhile_leftover] at loop
  rcases loop with ⟨last, ran, stands⟩
  rw [streamParseChunk, Lines.feed]
  dsimp only [StreamCtx.ofReader]
  rw [ran] at stands ⊢
  generalize Lines.foldWhile (streamParseLine codec)
    (Lines.split Codec.newline (buffer ++ data)).1 ctx = folded at stands ⊢
  rcases folded with ⟨goOn, next⟩
  cases goOn with
  | false => rfl
  | true => rw [← stands rfl]

/-- Feeding chunks to the parser is feeding them to the reader of lines. -/
theorem streamParseChunks_eq (chunks : List Bytes) (reader : Bytes × StreamCtx) :
    streamParseChunks codec chunks (.ofReader reader) =
      ((Lines.feedAll Codec.newline (streamParseLine codec) chunks reader).1,
        .ofReader (Lines.feedAll Codec.newline (streamParseLine codec) chunks reader).2) := by
  induction chunks generalizing reader with
  | nil => rfl
  | cons chunk chunks ih =>
      rw [streamParseChunks, streamParseChunk_eq, Lines.feedAll, Lines.foldWhile]
      rcases Lines.feed Codec.newline (streamParseLine codec) chunk reader with ⟨goOn, next⟩
      cases goOn with
      | false => rfl
      | true => exact ih next

/-- A fresh context fed with chunks: the outcome and all results but the buffer are those
of a fold over the terminated lines of the whole stream. -/
theorem streamParseChunks_fresh (chunks : List Bytes) (onToken : Option TokenCallback) :
    (streamParseChunks codec chunks (.fresh onToken)).1 =
        (Lines.foldWhile (streamParseLine codec)
          (Lines.split Codec.newline chunks.flatten).1 (.fresh onToken)).1 ∧
      ∃ buffer, (streamParseChunks codec chunks (.fresh onToken)).2 =
        { (Lines.foldWhile (streamParseLine codec)
            (Lines.split Codec.newline chunks.flatten).1 (.fresh onToken)).2 with
          leftover := buffer } := by
  have whole := @Lines.feedAll_eq_feed _ _ _ Codec.newline (streamParseLine codec) chunks []
    List.not_mem_nil (.fresh onToken)
  have lines := @Lines.feed_eq _ _ _ Codec.newline (streamParseLine codec) chunks.flatten []
    (.fresh onToken)
  rw [show StreamCtx.fresh onToken = .ofReader ([], .fresh onToken) from rfl,
    streamParseChunks_eq]
  constructor
  · exact whole.1.trans lines.1
  · refine ⟨(Lines.feedAll Codec.newline (streamParseLine codec) chunks
      ([], .fresh onToken)).2.1, ?_⟩
    rw [StreamCtx.ofReader, whole.2.1, lines.2]
    rfl

/-- The parser that was never stopped holds what follows the last line feed. -/
theorem streamParseChunks_leftover {chunks : List Bytes} {onToken : Option TokenCallback}
    (running : (streamParseChunks codec chunks (.fresh onToken)).1 = true) :
    (streamParseChunks codec chunks (.fresh onToken)).2.leftover =
      (Lines.split Codec.newline chunks.flatten).2 := by
  have whole := @Lines.feedAll_eq_feed _ _ _ Codec.newline (streamParseLine codec) chunks []
    List.not_mem_nil (.fresh onToken)
  rw [show StreamCtx.fresh onToken = .ofReader ([], .fresh onToken) from rfl,
    streamParseChunks_eq] at running ⊢
  have ended := whole.1.symm.trans running
  exact (whole.2.2 running).trans (Lines.feed_rest ended)

/-! ## Independence of the chunking -/

/-- Feeding the chunks of a stream one after another to a fresh context, up to the first
refusal, gives what one call with the whole stream gives: the same callback calls, error,
text and outcome, and the same leftover when no call refused. -/
theorem streamParseChunks_eq_streamParseChunk (codec : Codec) (chunks : List Bytes)
    (onToken : Option TokenCallback) :
    let parts := streamParseChunks codec chunks (.fresh onToken)
    let whole := streamParseChunk codec chunks.flatten (.fresh onToken)
    parts.1 = whole.1 ∧ parts.2.tokens = whole.2.tokens ∧
      parts.2.gotError = whole.2.gotError ∧ parts.2.errorMsg = whole.2.errorMsg ∧
      parts.2.gotDone = whole.2.gotDone ∧ parts.2.fullText = whole.2.fullText ∧
      (parts.1 = true → parts.2.leftover = whole.2.leftover ∧
        parts.2.leftover = (chunks.flatten.reverse.takeWhile (· ≠ Codec.newline)).reverse) := by
  have whole := @Lines.feedAll_eq_feed _ _ _ Codec.newline (streamParseLine codec) chunks []
    List.not_mem_nil (.fresh onToken)
  rw [show StreamCtx.fresh onToken = .ofReader ([], .fresh onToken) from rfl,
    streamParseChunks_eq, streamParseChunk_eq]
  dsimp only [StreamCtx.ofReader]
  rw [whole.1, whole.2.1]
  refine ⟨rfl, rfl, rfl, rfl, rfl, rfl, fun running => ?_⟩
  have sameRest := whole.2.2 (whole.1.trans running)
  refine ⟨sameRest, ?_⟩
  rw [sameRest, Lines.feed_rest running, List.nil_append, Lines.split_rest_eq]

end Cllama.Core.RunnerMgr
