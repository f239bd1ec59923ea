import Mathlib.Data.List.Induction

/-!
# Delimited streams

A stream of symbols in which a delimiter ends each line.  `split` cuts a finite
stream into its terminated lines and the unterminated rest; it is the meaning
against which an incremental reader is judged.  `feed` is such a reader in the
abstract: it keeps the rest of the chunks seen so far, and hands every line that
becomes complete to a step function that may stop it.  `feedAll_eq_feed` is
independence of the way the stream was cut into chunks.
-/

namespace Cllama.Library.Lines

universe u v

variable {α : Type u} [DecidableEq α] {σ : Type v}

/-- The terminated lines of a stream, without their delimiters, and the rest after the
last delimiter. -/
def split (delimiter : α) : List α → List (List α) × List α
  | [] => ([], [])
  | symbol :: stream =>
      if symbol = delimiter then
        ([] :: (split delimiter stream).1, (split delimiter stream).2)
      else
        match split delimiter stream with
        | ([], rest) => ([], symbol :: rest)
        | (line :: lines, rest) => ((symbol :: line) :: lines, rest)

variable {delimiter : α}

@[simp] theorem split_nil : split delimiter [] = ([], []) := rfl

@[simp] theorem split_delimiter_cons (stream : List α) :
    split delimiter (delimiter :: stream) =
      ([] :: (split delimiter stream).1, (split delimiter stream).2) := by
  simp [split]

/-- Without a delimiter there is no terminated line. -/
theorem split_of_not_mem {stream : List α} (free : delimiter ∉ stream) :
    split delimiter stream = ([], stream) := by
  induction stream with
  | nil => rfl
  | cons symbol stream ih =>
      rw [List.mem_cons, not_or] at free
      simp [split, Ne.symm free.1, ih free.2]

/-- The first delimiter ends the first line. -/
theorem split_line {line : List α} (free : delimiter ∉ line) (stream : List α) :
    split delimiter (line ++ delimiter :: stream) =
      (line :: (split delimiter stream).1, (split delimiter stream).2) := by
  induction line with
  | nil => simp
  | cons symbol line ih =>
      rw [List.mem_cons, not_or] at free
      simp [split, Ne.symm free.1, ih free.2]

/-- The lines of a longer stream are those of the first part, followed by those of its
rest prolonged by the second part. -/
theorem split_append (left right : List α) :
    split delimiter (left ++ right) =
      ((split delimiter left).1 ++
        (split delimiter ((split delimiter left).2 ++ right)).1,
        (split delimiter ((split delimiter left).2 ++ right)).2) := by
  induction left with
  | nil => simp
  | cons symbol left ih =>
      by_cases ends : symbol = delimiter
      · subst ends
        simp [ih]
      · rw [List.cons_append, split, if_neg ends, ih]
        rw [split, if_neg ends]
        rcases split delimiter left with ⟨lines, rest⟩
        cases lines with
        | nil => simp [split, if_neg ends]
        | cons line lines => simp

/-- Nothing is lost. -/
theorem join_split (stream : List α) :
    (split delimiter stream).1.flatMap (· ++ [delimiter]) ++ (split delimiter stream).2 =
      stream := by
  induction stream with
  | nil => rfl
  | cons symbol stream ih =>
      rw [split]
      split
      · next ends => simp [ends, ih]
      · split
        · next cut =>
            rw [cut] at ih
            exact congrArg (symbol :: ·) ih
        · next cut =>
            rw [cut] at ih
            exact congrArg (symbol :: ·) ih

/-- No line and no rest contains the delimiter. -/
theorem split_free (stream : List α) :
    (∀ line ∈ (split delimiter stream).1, delimiter ∉ line) ∧
      delimiter ∉ (split delimiter stream).2 := by
  induction stream with
  | nil => simp
  | cons symbol stream ih =>
      rw [split]
      split
      · next ends => simpa using ih
      · next inside =>
          split
          · next rest cut =>
              rw [cut] at ih
              simpa [Ne.symm inside] using ih
          · next line lines rest cut =>
              rw [cut] at ih
              simpa [Ne.symm inside] using ih

/-- Terminating lines that contain no delimiter, and splitting, gives them back. -/
theorem split_flatMap {lines : List (List α)} (free : ∀ line ∈ lines, delimiter ∉ line)
    (rest : List α) :
    split delimiter (lines.flatMap (· ++ [delimiter]) ++ rest) =
      (lines ++ (split delimiter rest).1, (split delimiter rest).2) := by
  induction lines with
  | nil => simp
  | cons line lines ih =>
      have restFree : ∀ other ∈ lines, delimiter ∉ other :=
        fun other member => free other (List.mem_cons_of_mem _ member)
      simp only [List.flatMap_cons, List.append_assoc, List.cons_append, List.nil_append]
      rw [split_line (free line List.mem_cons_self), ih restFree]

theorem split_terminated {lines : List (List α)} (free : ∀ line ∈ lines, delimiter ∉ line) :
    split delimiter (lines.flatMap (· ++ [delimiter])) = (lines, []) := by
  have cut := split_flatMap free []
  rwa [List.append_nil, split_nil, List.append_nil] at cut

/-- A stream that goes on has the same lines at first. -/
theorem split_prefix {left whole : List α} (isPrefix : left <+: whole) :
    (split delimiter left).1 <+: (split delimiter whole).1 := by
  rcases isPrefix with ⟨right, rfl⟩
  rw [split_append]
  exact List.prefix_append _ _

/-- A stream of terminated lines that is cut has the first lines, and a rest from the front of
the next one. -/
theorem split_of_prefix {lines : List (List α)} (free : ∀ line ∈ lines, delimiter ∉ line)
    {stream : List α} (isPrefix : stream <+: lines.flatMap (· ++ [delimiter])) :
    ∃ count rest, split delimiter stream = (lines.take count, rest) ∧
      (rest = [] ∨ ∃ line, lines[count]? = some line ∧ rest <+: line) := by
  induction lines generalizing stream with
  | nil =>
      rw [List.flatMap_nil, List.prefix_nil] at isPrefix
      exact ⟨0, [], by rw [isPrefix]; rfl, Or.inl rfl⟩
  | cons line lines ih =>
      rw [List.forall_mem_cons] at free
      rw [List.flatMap_cons] at isPrefix
      rcases List.prefix_or_prefix_of_prefix isPrefix (List.prefix_append _ _) with
        short | ⟨later, rfl⟩
      · rcases List.prefix_concat_iff.mp short with rfl | within
        · exact ⟨1, [], by simp [split_line free.1], Or.inl rfl⟩
        · have lineFree : delimiter ∉ stream := fun member => free.1 (within.subset member)
          exact ⟨0, stream, split_of_not_mem lineFree, Or.inr ⟨line, rfl, within⟩⟩
      · rw [List.prefix_append_right_inj] at isPrefix
        rcases ih free.2 isPrefix with ⟨count, rest, cut, isRest⟩
        refine ⟨count + 1, rest, ?_, isRest⟩
        rw [List.append_assoc, List.singleton_append, split_line free.1, cut]
        rfl

/-- The rest is what stands after the last delimiter. -/
theorem split_rest_eq (stream : List α) :
    (split delimiter stream).2 =
      (stream.reverse.takeWhile (fun symbol => decide (symbol ≠ delimiter))).reverse := by
  induction stream using List.reverseRecOn with
  | nil => rfl
  | append_singleton stream symbol ih =>
      rw [split_append, List.reverse_append, List.reverse_singleton, List.singleton_append]
      by_cases ends : symbol = delimiter
      · subst ends
        simp [split_line (split_free stream).2 []]
      · have free : delimiter ∉ (split delimiter stream).2 ++ [symbol] := by
          simp [(split_free stream).2, Ne.symm ends]
        rw [split_of_not_mem free, ih]
        simp [ends]

/-! ## Folding with an early stop -/

/-- Fold a step over items until it answers `false`. -/
def foldWhile {β : Type u} (step : β → σ → Bool × σ) : List β → σ → Bool × σ
  | [], state => (true, state)
  | item :: items, state =>
      match step item state with
      | (true, next) => foldWhile step items next
      | (false, next) => (false, next)

section FoldWhile

variable {β : Type u} {step : β → σ → Bool × σ}

@[simp] theorem foldWhile_nil (state : σ) : foldWhile step [] state = (true, state) := rfl

theorem foldWhile_cons_continue {item : β} {items : List β} {state next : σ}
    (taken : step item state = (true, next)) :
    foldWhile step (item :: items) state = foldWhile step items next := by
  rw [foldWhile, taken]

theorem foldWhile_cons_stop {item : β} {items : List β} {state next : σ}
    (taken : step item state = (false, next)) :
    foldWhile step (item :: items) state = (false, next) := by
  rw [foldWhile, taken]

theorem foldWhile_append (left right : List β) (state : σ) :
    foldWhile step (left ++ right) state =
      match foldWhile step left state with
      | (true, next) => foldWhile step right next
      | (false, next) => (false, next) := by
  induction left generalizing state with
  | nil => rfl
  | cons item items ih =>
      rw [List.cons_append, foldWhile, foldWhile]
      rcases step item state with ⟨goOn, next⟩
      cases goOn
      · rfl
      · exact ih next

end FoldWhile

/-! ## An incremental reader -/

/-- Feed one chunk to a reader that holds the unterminated rest of earlier chunks.  When
the step stops the reader, the buffered symbols stay as they are. -/
def feed (delimiter : α) (step : List α → σ → Bool × σ) (chunk : List α) :
    List α × σ → Bool × (List α × σ)
  | (buffered, state) =>
      match foldWhile step (split delimiter (buffered ++ chunk)).1 state with
      | (true, next) => (true, ((split delimiter (buffered ++ chunk)).2, next))
      | (false, next) => (false, (buffered ++ chunk, next))

/-- Feed chunks one after another, up to the first that stops the reader. -/
def feedAll (delimiter : α) (step : List α → σ → Bool × σ) :
    List (List α) → List α × σ → Bool × (List α × σ) :=
  foldWhile (feed delimiter step)

variable {step : List α → σ → Bool × σ}

theorem feed_eq (chunk buffered : List α) (state : σ) :
    (feed delimiter step chunk (buffered, state)).1 =
        (foldWhile step (split delimiter (buffered ++ chunk)).1 state).1 ∧
      (feed delimiter step chunk (buffered, state)).2.2 =
        (foldWhile step (split delimiter (buffered ++ chunk)).1 state).2 := by
  rw [feed]
  split <;> simp_all

theorem feed_rest {chunk buffered : List α} {state : σ}
    (running : (feed delimiter step chunk (buffered, state)).1 = true) :
    (feed delimiter step chunk (buffered, state)).2.1 =
      (split delimiter (buffered ++ chunk)).2 := by
  rw [feed] at running ⊢
  split <;> simp_all

/-- Feeding a reader chunk by chunk is feeding it the whole stream: the outcome and the
state agree, and so does the buffered rest unless the reader was stopped. -/
theorem feedAll_eq_feed (chunks : List (List α)) {buffered : List α}
    (free : delimiter ∉ buffered) (state : σ) :
    (feedAll delimiter step chunks (buffered, state)).1 =
        (feed delimiter step chunks.flatten (buffered, state)).1 ∧
      (feedAll delimiter step chunks (buffered, state)).2.2 =
        (feed delimiter step chunks.flatten (buffered, state)).2.2 ∧
      ((feedAll delimiter step chunks (buffered, state)).1 = true →
        (feedAll delimiter step chunks (buffered, state)).2.1 =
          (feed delimiter step chunks.flatten (buffered, state)).2.1) := by
  induction chunks generalizing buffered state with
  | nil => simp [feedAll, feed, split_of_not_mem free]
  | cons chunk chunks ih =>
      have whole := @feed_eq _ _ _ delimiter step (chunk ++ chunks.flatten) buffered state
      rw [← List.append_assoc, split_append, foldWhile_append] at whole
      rw [List.flatten_cons]
      cases lines : foldWhile step (split delimiter (buffered ++ chunk)).1 state with
      | mk goOn next =>
        rw [lines] at whole
        cases goOn with
        | false =>
            have stopped : feed delimiter step chunk (buffered, state) =
                (false, (buffered ++ chunk, next)) := by rw [feed, lines]
            rw [feedAll, foldWhile_cons_stop stopped, whole.1, whole.2]
            simp
        | true =>
            have running : feed delimiter step chunk (buffered, state) =
                (true, ((split delimiter (buffered ++ chunk)).2, next)) := by rw [feed, lines]
            have restFree : delimiter ∉ (split delimiter (buffered ++ chunk)).2 :=
              (split_free (buffered ++ chunk)).2
            have tail := @feed_eq _ _ _ delimiter step chunks.flatten
              (split delimiter (buffered ++ chunk)).2 next
            obtain ⟨sameOutcome, sameState, sameRest⟩ := ih restFree next
            rw [feedAll, foldWhile_cons_continue running]
            refine ⟨?_, ?_, ?_⟩
            · exact (sameOutcome.trans tail.1).trans whole.1.symm
            · exact (sameState.trans tail.2).trans whole.2.symm
            · intro ended
              have wholeEnded : (feed delimiter step (chunk ++ chunks.flatten)
                  (buffered, state)).1 = true := by
                rw [whole.1, ← tail.1, ← sameOutcome]
                exact ended
              rw [feed_rest wholeEnded, ← List.append_assoc, split_append (buffered ++ chunk)]
              exact (sameRest ended).trans (feed_rest (sameOutcome ▸ ended))

end Cllama.Library.Lines
