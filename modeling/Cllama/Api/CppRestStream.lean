import Cllama.Api.ErrorEvent
import Cllama.Library.JsonPortable

/-!
# The streams of the cpprest router

The cpprest router answers a streaming request first.  Its handler then calls the manager and puts
the events into a `producer_consumer_buffer`, from which the response is read.  The buffer has no
bound, so that no token is refused.  An exception of the manager leaves the handler and the buffer
open.
-/

namespace Cllama.Api.CppRest

open Cllama.Library Cllama.Core

/-! ## The handler and the reader -/

/-- Where the handler stands: before the role event; in the call of the manager; before the event
of an error; before the final mark; before it closes the buffer; at its end; or left with an
exception. -/
inductive HandlerPlace where
  | starting
  | streaming
  | reporting (message : Bytes)
  | ending
  | closing
  | finished
  | escaped
  deriving DecidableEq

/-- The buffer, what was read from it, the handler, and the tokens handed over so far. -/
structure StreamState where
  buf : Bytes
  closed : Bool
  reads : List Bytes
  place : HandlerPlace
  tokens : List Bytes

namespace StreamState

/-- `putn_nocopy`, after which the handler goes on. -/
def put (data : Bytes) (place : HandlerPlace) (state : StreamState) : StreamState :=
  { state with buf := state.buf ++ data, place := place }

/-- A chat starts with its role event. -/
def fresh (streaming : Streaming) : StreamState where
  buf := []
  closed := false
  reads := []
  place :=
    match streaming.endpoint with
    | .completions => .streaming
    | .chatCompletions => .starting
  tokens := []

variable (codec : Codec) (streaming : Streaming) (outcome : Outcome)

/-- A step of the handler outside of the manager. -/
def work (state : StreamState) : Option StreamState :=
  match state.place with
  | .starting =>
      match sse codec streaming.roleEvent with
      | some text => some (state.put text .streaming)
      | none => some { state with place := .escaped }
  | .reporting message => some (state.put (errorText message) .ending)
  | .ending => some (state.put (Sse.event doneMark) .closing)
  | .closing => some { state with closed := true, place := .finished }
  | _ => none

/-- The manager hands a token, a string out of a parsed record, to the callback. -/
def token (piece : Bytes) (state : StreamState) : Option StreamState :=
  if state.place = .streaming ∧ Utf8.valid piece then
    (sse codec (streaming.tokenEvent piece)).map fun text =>
      { state.put text .streaming with tokens := state.tokens ++ [piece] }
  else none

/-- The call of the manager ends.  There is no handler for an exception. -/
def returned (state : StreamState) : Option StreamState :=
  if state.place = .streaming then
    match outcome with
    | .ok (.ok _) => some { state with place := .ending }
    | .ok (.error error) => some { state with place := .reporting error.message }
    | .error _ => some { state with place := .escaped }
  else none

/-- The response asks for `count` octets.  It gets them when there are as many, or what there is
once the buffer is closed. -/
def read (count : Nat) (state : StreamState) : Option StreamState :=
  if count = 0 ∨ (state.buf.length < count ∧ ¬state.closed) then none
  else some { state with
    buf := state.buf.drop count
    reads := state.reads ++ [state.buf.take count] }

def step (state : StreamState) : TranscriptAction → Option StreamState
  | .work => work codec streaming state
  | .token piece => token codec streaming piece state
  | .returned => returned outcome state
  | .read count => read count state

end StreamState

/-- The machine of one streaming request whose call of the manager ends in a given way. -/
def streamMachine (codec : Codec) (streaming : Streaming) (outcome : Outcome) :
    Machine StreamState TranscriptAction where
  Initial := (· = .fresh streaming)
  step := StreamState.step codec streaming outcome

variable {codec : Codec} {typeError : Json → Bytes} {streaming : Streaming} {outcome : Outcome}

/-! ## What the buffer takes -/

/-- The octets of the error event. -/
def errorOctets : Outcome → Bytes
  | .ok (.error error) => errorText error.message
  | _ => []

/-- What has been put after the events of the tokens. -/
def HandlerPlace.tail (outcome : Outcome) : HandlerPlace → Bytes
  | .ending => errorOctets outcome
  | .closing | .finished => errorOctets outcome ++ Sse.event doneMark
  | _ => []

/-- The role event and the events of the tokens. -/
def StreamState.events (streaming : Streaming) (state : StreamState) : List Json :=
  match state.place with
  | .starting => []
  | _ => streaming.opening ++ state.tokens.map streaming.tokenEvent

/-- How the handler can have come to a place. -/
def HandlerPlace.Standing (streaming : Streaming) (outcome : Outcome) (tokens : List Bytes) :
    HandlerPlace → Prop
  | .starting => streaming.endpoint = .chatCompletions ∧ tokens = []
  | .streaming => True
  | .reporting message => ∃ code, outcome = .ok (.error ⟨code, message⟩)
  | .ending | .closing | .finished => ∃ result, outcome = .ok result
  | .escaped => ∃ what, outcome = .error what

/-- Some events and octets after them are what was put so far. -/
def Put (codec : Codec) (state : StreamState) (jsons : List Json) (tail : Bytes) : Prop :=
  ∃ texts, Dumps codec jsons texts ∧
    state.reads.flatten ++ state.buf = texts.flatMap Sse.event ++ tail

/-- The invariant of a request. -/
structure Putting (codec : Codec) (streaming : Streaming) (outcome : Outcome)
    (state : StreamState) : Prop where
  tokens : ∀ token ∈ state.tokens, Utf8.valid token = true
  closed : state.closed = true ↔ state.place = .finished
  ended : [] ∈ state.reads → state.closed = true ∧ state.buf = []
  standing : state.place.Standing streaming outcome state.tokens
  put : Put codec state (state.events streaming) (state.place.tail outcome)

theorem Put.event {state : StreamState} {jsons : List Json} (put : Put codec state jsons [])
    {json : Json} {text : Bytes} (dumped : codec.dump json = some text) (place : HandlerPlace) :
    Put codec (state.put (Sse.event text) place) (jsons ++ [json]) [] := by
  rcases put with ⟨texts, dumps, octets⟩
  refine ⟨texts ++ [text], dumps.append (.cons dumped .nil), ?_⟩
  rw [StreamState.put, ← List.append_assoc, octets]
  simp

theorem Put.octets {state : StreamState} {jsons : List Json} {tail : Bytes}
    (put : Put codec state jsons tail) (data : Bytes) (place : HandlerPlace) :
    Put codec (state.put data place) jsons (tail ++ data) := by
  rcases put with ⟨texts, dumps, octets⟩
  refine ⟨texts, dumps, ?_⟩
  rw [StreamState.put, ← List.append_assoc, octets, List.append_assoc]

namespace Putting

variable {state next : StreamState}

/-- A handler that has not come to its end has not closed the buffer. -/
theorem opened (putting : Putting codec streaming outcome state)
    (running : state.place ≠ .finished) : state.closed = false := by
  apply eq_false_of_ne_true
  intro closed
  exact running (putting.closed.mp closed)

theorem unended (putting : Putting codec streaming outcome state)
    (running : state.place ≠ .finished) : [] ∉ state.reads := by
  intro ended
  exact running (putting.closed.mp (putting.ended ended).1)

/-- A handler that has not come to its end leaves the buffer open. -/
theorem goesOn (putting : Putting codec streaming outcome state)
    (running : state.place ≠ .finished) (stillRunning : next.place ≠ .finished)
    (closed : next.closed = state.closed) (reads : next.reads = state.reads)
    (tokens : ∀ token ∈ next.tokens, Utf8.valid token = true)
    (standing : next.place.Standing streaming outcome next.tokens)
    (put : Put codec next (next.events streaming) (next.place.tail outcome)) :
    Putting codec streaming outcome next where
  tokens := tokens
  closed := by
    rw [closed, putting.opened running]
    exact iff_of_false Bool.false_ne_true stillRunning
  ended := by
    rw [reads]
    exact fun ended => absurd ended (putting.unended running)
  standing := standing
  put := put

theorem work (lawful : codec.Lawful) (putting : Putting codec streaming outcome state)
    (taken : StreamState.work codec streaming state = some next) :
    Putting codec streaming outcome next := by
  rcases state with ⟨buf, closed, reads, place, tokens⟩
  cases place with
  | starting =>
      rcases @exists_sse codec lawful _ (@Streaming.textual_roleEvent streaming) with
        ⟨text, dumped, octets⟩
      simp only [StreamState.work, octets, Option.some.injEq] at taken
      subst taken
      rcases putting.standing with ⟨chat, noTokens⟩
      dsimp only at noTokens
      refine putting.goesOn (by simp) (by simp [StreamState.put]) rfl rfl putting.tokens trivial ?_
      have grown := putting.put.event dumped .streaming
      simpa [StreamState.events, HandlerPlace.tail, StreamState.put, Streaming.opening, chat,
        noTokens] using grown
  | reporting message =>
      simp only [StreamState.work, Option.some.injEq] at taken
      subst taken
      rcases putting.standing with ⟨code, isOutcome⟩
      refine putting.goesOn (by simp) (by simp [StreamState.put]) rfl rfl putting.tokens
        ⟨_, isOutcome⟩ ?_
      have grown := putting.put.octets (errorText message) .ending
      simpa [StreamState.events, HandlerPlace.tail, StreamState.put, errorOctets,
        isOutcome] using grown
  | ending =>
      simp only [StreamState.work, Option.some.injEq] at taken
      subst taken
      exact putting.goesOn (by simp) (by simp [StreamState.put]) rfl rfl putting.tokens
        putting.standing (putting.put.octets (Sse.event doneMark) .closing)
  | closing =>
      simp only [StreamState.work, Option.some.injEq] at taken
      subst taken
      have unended := putting.unended (by simp)
      exact ⟨putting.tokens, by simp, fun ended => absurd ended unended, putting.standing,
        putting.put⟩
  | streaming => cases taken
  | finished => cases taken
  | escaped => cases taken

theorem token (putting : Putting codec streaming outcome state) {piece : Bytes}
    (taken : StreamState.token codec streaming piece state = some next) :
    Putting codec streaming outcome next := by
  rcases state with ⟨buf, closed, reads, place, tokens⟩
  rw [StreamState.token] at taken
  split at taken
  next enabled =>
    rcases enabled with ⟨rfl, pieceValid⟩
    rcases Option.map_eq_some_iff.mp taken with ⟨octets, serialised, rfl⟩
    rcases sse_eq_some serialised with ⟨text, dumped, rfl⟩
    have valid := List.forall_mem_append.mpr
      ⟨putting.tokens, List.forall_mem_singleton.mpr pieceValid⟩
    refine putting.goesOn (by simp) (by simp [StreamState.put]) rfl rfl valid trivial ?_
    have grown := putting.put.event dumped .streaming
    simpa [StreamState.events, HandlerPlace.tail, StreamState.put, Put] using grown
  · cases taken

theorem returned (putting : Putting codec streaming outcome state)
    (taken : StreamState.returned outcome state = some next) :
    Putting codec streaming outcome next := by
  rcases state with ⟨buf, closed, reads, place, tokens⟩
  unfold StreamState.returned at taken
  split at taken
  next streams =>
    cases streams
    -- nothing is put, only the place changes
    split at taken
    · cases taken
      exact putting.goesOn (by simp) (by simp) rfl rfl putting.tokens ⟨_, rfl⟩ putting.put
    next error =>
      cases taken
      exact putting.goesOn (by simp) (by simp) rfl rfl putting.tokens ⟨error.code, rfl⟩
        putting.put
    next what =>
      cases taken
      exact putting.goesOn (by simp) (by simp) rfl rfl putting.tokens ⟨what, rfl⟩ putting.put
  · cases taken

/-- A read takes from the front of the buffer, and returns nothing only from one that is closed
and empty. -/
theorem read (putting : Putting codec streaming outcome state) {count : Nat}
    (taken : state.read count = some next) : Putting codec streaming outcome next := by
  rw [StreamState.read] at taken
  split at taken
  · cases taken
  next enabled =>
    cases taken
    rcases putting with ⟨valid, isClosed, ended, standing, texts, dumps, octets⟩
    refine ⟨valid, isClosed, ?_, standing, texts, dumps, ?_⟩
    · intro isEnded
      rcases List.mem_append.mp isEnded with before | nothing
      · rcases ended before with ⟨closed, empty⟩
        exact ⟨closed, by simp [empty]⟩
      · have empty : state.buf = [] := by
          have none := (List.mem_singleton.mp nothing).symm
          rcases List.take_eq_nil_iff.mp none with isZero | empty
          · exact absurd (Or.inl isZero) enabled
          · exact empty
        refine ⟨?_, by simp [empty]⟩
        by_contra stillOpen
        apply enabled
        rw [empty]
        by_cases isZero : count = 0
        · exact Or.inl isZero
        · exact Or.inr ⟨Nat.pos_of_ne_zero isZero, stillOpen⟩
    · simpa using octets

end Putting

theorem putting_invariant (lawful : codec.Lawful) :
    (streamMachine codec streaming outcome).Invariant (Putting codec streaming outcome) where
  initial := by
    rintro state rfl
    constructor
    · exact List.forall_mem_nil _
    · cases endpoint : streaming.endpoint <;> simp [StreamState.fresh, endpoint]
    · exact fun ended => absurd ended List.not_mem_nil
    · cases endpoint : streaming.endpoint <;>
        simp [StreamState.fresh, HandlerPlace.Standing, endpoint]
    · have nothing : Dumps codec [] [] := .nil
      refine ⟨[], ?_, ?_⟩
      · cases endpoint : streaming.endpoint <;>
          simpa [StreamState.fresh, StreamState.events, Streaming.opening, endpoint] using nothing
      · cases endpoint : streaming.endpoint <;>
          simp [StreamState.fresh, HandlerPlace.tail, endpoint]
  step := by
    intro state action next putting taken
    cases action with
    | work => exact putting.work lawful taken
    | token piece => exact putting.token taken
    | returned => exact putting.returned taken
    | read count => exact putting.read taken

/-! ## The end of the response -/

/-- The response can come to its end. -/
def Ends (codec : Codec) (streaming : Streaming) (outcome : Outcome) (state : StreamState) : Prop :=
  ∃ next, (streamMachine codec streaming outcome).Reaches state next ∧ [] ∈ next.reads

namespace Ends

variable {state next : StreamState} {result : CLlamaResult Bytes}

theorem of_step (action : TranscriptAction)
    (taken : state.step codec streaming outcome action = some next)
    (ends : Ends codec streaming outcome next) : Ends codec streaming outcome state := by
  rcases ends with ⟨last, reaches, ended⟩
  exact ⟨last, .head ⟨action, taken⟩ reaches, ended⟩

/-- A closed buffer is read with one read, and the next one finds the end. -/
theorem finished (closed : state.closed = true) : Ends codec streaming outcome state := by
  have first : state.step codec streaming outcome (.read (state.buf.length + 1)) =
      some ⟨[], true, state.reads ++ [state.buf], state.place, state.tokens⟩ := by
    simp [StreamState.step, StreamState.read, closed, List.take_of_length_le]
  have second : StreamState.step codec streaming outcome
        ⟨[], true, state.reads ++ [state.buf], state.place, state.tokens⟩ (.read 1) =
      some ⟨[], true, state.reads ++ [state.buf] ++ [[]], state.place, state.tokens⟩ := by
    simp [StreamState.step, StreamState.read]
  exact of_step _ first (of_step _ second ⟨_, .refl, by simp⟩)

theorem closing (place : state.place = .closing) : Ends codec streaming outcome state := by
  have taken : state.step codec streaming outcome .work =
      some { state with closed := true, place := .finished } := by
    simp [StreamState.step, StreamState.work, place]
  exact of_step _ taken (finished rfl)

theorem ending (place : state.place = .ending) : Ends codec streaming outcome state := by
  have taken : state.step codec streaming outcome .work =
      some (state.put (Sse.event doneMark) .closing) := by
    simp [StreamState.step, StreamState.work, place]
  exact of_step _ taken (closing rfl)

theorem reporting {message : Bytes} (place : state.place = .reporting message) :
    Ends codec streaming outcome state := by
  have taken : state.step codec streaming outcome .work =
      some (state.put (errorText message) .ending) := by
    simp [StreamState.step, StreamState.work, place]
  exact of_step _ taken (ending rfl)

theorem streams (isOutcome : outcome = .ok result) (place : state.place = .streaming) :
    Ends codec streaming outcome state := by
  cases result with
  | ok text =>
      have taken : state.step codec streaming outcome .returned =
          some { state with place := .ending } := by
        simp [StreamState.step, StreamState.returned, place, isOutcome]
      exact of_step _ taken (ending rfl)
  | error error =>
      have taken : state.step codec streaming outcome .returned =
          some { state with place := .reporting error.message } := by
        simp [StreamState.step, StreamState.returned, place, isOutcome]
      exact of_step _ taken (reporting rfl)

theorem starting (lawful : codec.Lawful) (isOutcome : outcome = .ok result)
    (place : state.place = .starting) : Ends codec streaming outcome state := by
  rcases @exists_sse codec lawful _ (@Streaming.textual_roleEvent streaming) with
    ⟨text, -, octets⟩
  have taken : state.step codec streaming outcome .work =
      some (state.put (Sse.event text) .streaming) := by
    simp [StreamState.step, StreamState.work, place, octets]
  exact of_step _ taken (streams isOutcome rfl)

end Ends

/-- Once the call of the manager is known to return, the response ends from everywhere. -/
theorem ends_of_ok (lawful : codec.Lawful) {result : CLlamaResult Bytes}
    (isOutcome : outcome = .ok result) {state : StreamState}
    (putting : Putting codec streaming outcome state) : Ends codec streaming outcome state := by
  have standing := putting.standing
  cases place : state.place with
  | starting => exact .starting lawful isOutcome place
  | streaming => exact .streams isOutcome place
  | reporting message => exact .reporting place
  | ending => exact .ending place
  | closing => exact .closing place
  | finished => exact .finished (putting.closed.mpr place)
  | escaped =>
      rw [place] at standing
      rcases standing with ⟨what, threw⟩
      rw [threw] at isOutcome
      cases isOutcome

/-- What a client has read when it finds the end of a response. -/
theorem read_of_ended {state : StreamState} (putting : Putting codec streaming outcome state)
    (ended : [] ∈ state.reads) :
    (∃ result, outcome = .ok result) ∧ ∃ texts,
      Dumps codec (streaming.opening ++ state.tokens.map streaming.tokenEvent) texts ∧
        state.reads.flatten = texts.flatMap Sse.event ++ (errorOctets outcome ++
          Sse.event doneMark) := by
  rcases putting.ended ended with ⟨closed, empty⟩
  have finished := putting.closed.mp closed
  have standing := putting.standing
  rcases putting.put with ⟨texts, dumps, octets⟩
  rw [finished] at standing octets
  rw [empty, List.append_nil] at octets
  rw [StreamState.events, finished] at dumps
  exact ⟨standing, texts, dumps, octets⟩

/-- What the client reads, at any time, are the first octets of the events; the response can come
to its end; and at its end the client has read the role event, the events of the tokens, that of
an error if there is one, and the final mark. -/
structure StreamShaped (codec : Codec) (streaming : Streaming) (outcome : Outcome)
    (state : StreamState) : Prop where
  early : ∃ texts, Dumps codec (state.events streaming) texts ∧
    state.reads.flatten <+: texts.flatMap Sse.event ++ state.place.tail outcome
  ends : Ends codec streaming outcome state
  whole : [] ∈ state.reads → ∃ texts,
    Dumps codec (streaming.opening ++ state.tokens.map streaming.tokenEvent) texts ∧
      state.reads.flatten = texts.flatMap Sse.event ++ (errorOctets outcome ++
        Sse.event doneMark)

/-- The data of the error event. -/
def errorData (message : Bytes) : Bytes :=
  bytes "\x7b\"error\":\"" ++ escapeJson message ++ bytes "\"\x7d"

/-- A parser of JSON reads the data of an error event as its message, and rejects one that is not
well-formed text. -/
def ReadsErrors (codec : Codec) : Prop :=
  ∀ message, codec.parse (errorData message) =
    if Utf8.valid message = true then some (errorEvent message) else none

theorem errorText_eq_event (message : Bytes) :
    errorText message = Sse.event (errorData message) := by
  have opening : bytes "data: \x7b\"error\":\"" = Sse.field ++ bytes "\x7b\"error\":\"" := by
    decide
  have closing : bytes "\"\x7d\n\n" = bytes "\"\x7d" ++ [Sse.newline, Sse.newline] := by
    decide
  rw [errorText, Sse.event, errorData, opening, closing]
  simp only [List.append_assoc]

theorem newline_not_mem_errorData (message : Bytes) : Sse.newline ∉ errorData message := by
  rw [errorData, escapeJson_eq_escape, List.mem_append, List.mem_append, not_or, not_or]
  refine ⟨⟨by decide, ?_⟩, by decide⟩
  intro member
  rcases List.mem_flatMap.mp member with ⟨octet, -, isNewline⟩
  exact JsonText.newline_not_mem_escapeOctet octet isNewline

theorem reference_readsErrors : ReadsErrors JsonText.reference := by
  intro message
  have plain : bytes "error" = JsonText.escape (bytes "error") := by decide
  have opening : bytes "\x7b\"error\":\"" = JsonText.openBrace :: JsonText.quote ::
      (bytes "error" ++ [JsonText.quote, JsonText.colon, JsonText.quote]) := by
    decide
  have closing : bytes "\"\x7d" = [JsonText.quote, JsonText.closeBrace] := by decide
  have shape : errorData message = JsonText.openBrace :: JsonText.quote ::
      (JsonText.escape (bytes "error") ++ JsonText.quote :: JsonText.colon :: JsonText.quote ::
        (JsonText.escape message ++ [JsonText.quote, JsonText.closeBrace])) := by
    rw [errorData, escapeJson_eq_escape, opening, closing, ← plain]
    simp
  rw [shape]
  exact JsonText.read_string (by decide)

/-- The events that a client decodes; what is no JSON, such as the final mark, is none. -/
def eventsOf (codec : Codec) (stream : Bytes) : List (Option Json) :=
  (Sse.decode stream).map codec.parse

theorem map_parse (lawful : codec.Lawful) {jsons : List Json} {texts : List Bytes}
    (dumps : Dumps codec jsons texts) (textual : ∀ json ∈ jsons, json.Textual) :
    texts.map codec.parse = jsons.map some := by
  induction dumps with
  | nil => rfl
  | cons dumped _ ih =>
      rw [List.forall_mem_cons] at textual
      rw [List.map_cons, List.map_cons, lawful.parse_dump _ _ textual.1 dumped, ih textual.2]

theorem textual_tokens {tokens : List Bytes}
    (valid : ∀ token ∈ tokens, Utf8.valid token = true) :
    ∀ json ∈ streaming.opening ++ tokens.map streaming.tokenEvent, json.Textual := by
  rw [List.forall_mem_append, List.forall_mem_map]
  exact ⟨textual_opening, fun token member => Streaming.textual_tokenEvent (valid token member)⟩

/-- The data of the error event of a call. -/
def errorsOf : Outcome → List Bytes
  | .ok (.error error) => [errorData error.message]
  | _ => []

/-- What a client of this router decodes of a whole response. -/
theorem eventsOf_ended (lawful : codec.Lawful) (notJson : codec.parse doneMark = none)
    {state : StreamState} (putting : Putting codec streaming outcome state)
    (ended : [] ∈ state.reads) :
    eventsOf codec state.reads.flatten =
      (streaming.opening ++ state.tokens.map streaming.tokenEvent).map some ++
        ((errorsOf outcome).map codec.parse ++ [none]) := by
  rcases (read_of_ended putting ended).2 with ⟨texts, dumps, octets⟩
  have tail : errorOctets outcome ++ Sse.event doneMark =
      (errorsOf outcome ++ [doneMark]).flatMap Sse.event := by
    unfold errorOctets errorsOf
    split <;> simp [errorText_eq_event]
  have free : ∀ data ∈ texts ++ (errorsOf outcome ++ [doneMark]), Sse.newline ∉ data := by
    rw [List.forall_mem_append, List.forall_mem_append]
    refine ⟨dumps.newline_not_mem lawful, ?_, List.forall_mem_singleton.mpr (by decide)⟩
    unfold errorsOf
    split
    · exact List.forall_mem_singleton.mpr (newline_not_mem_errorData _)
    · exact List.forall_mem_nil _
  rw [octets, tail, ← List.flatMap_append, eventsOf, Sse.decode_flatMap_event free,
    List.map_append, map_parse lawful dumps (textual_tokens putting.tokens)]
  simp [notJson]

/-- What a client of the other router decodes, if its pipe was not aborted. -/
theorem eventsOf_transcript (lawful : codec.Lawful) (notJson : codec.parse doneMark = none)
    (typeErrorValid : ∀ json, Utf8.valid (typeError json) = true)
    (sound : ∀ what, outcome = .error what → Utf8.valid what = true) {state : TranscriptState}
    (reachable : (transcript codec typeError streaming outcome).Reachable state)
    (ended : [] ∈ state.pipe.reads) (unaborted : state.pipe.pipe.aborted = false) :
    eventsOf codec state.pipe.reads.flatten =
      (expected codec typeError streaming outcome state.tokens).map some ++ [none] := by
  have shaped := shaped_of_reachable lawful notJson typeErrorValid sound reachable
  have writing := (writing_invariant lawful typeErrorValid sound).of_reachable reachable
  rcases shaped.events ended with ⟨texts, dumps, whole, -⟩
  have free : ∀ data ∈ texts ++ [doneMark], Sse.newline ∉ data := by
    rw [List.forall_mem_append]
    exact ⟨dumps.newline_not_mem lawful, List.forall_mem_singleton.mpr (by decide)⟩
  rw [(whole unaborted).1, eventsOf, Sse.decode_flatMap_event free, List.map_append,
    map_parse lawful dumps (textual_expected lawful writing.tokens dumps), List.map_singleton,
    notJson]

/-- The events of an error are the same on both sides exactly if its message is well-formed. -/
theorem errors_iff (lawful : codec.Lawful) (readsErrors : ReadsErrors codec)
    {result : CLlamaResult Bytes} (isOutcome : outcome = .ok result) :
    (errorMessage codec typeError outcome).toList.map (fun message => some (errorEvent message)) =
        (errorsOf outcome).map codec.parse ↔
      ∀ error, outcome = .ok (.error error) → Utf8.valid error.message = true := by
  subst isOutcome
  cases result with
  | ok text => simp [errorMessage, errorsOf]
  | error error =>
      cases valid : Utf8.valid error.message with
      | true =>
          have dumped := (dump_errorEvent_isSome lawful error.message).mpr valid
          rcases Option.isSome_iff_exists.mp dumped with ⟨text, isText⟩
          simp [errorMessage, isText, errorsOf, readsErrors error.message, valid]
      | false =>
          have lost : codec.dump (errorEvent error.message) = none := by
            rw [← Option.not_isSome_iff_eq_none, dump_errorEvent_isSome lawful, valid]
            exact Bool.false_ne_true
          simp [errorMessage, lost, errorsOf, readsErrors error.message, valid]

/-- The clients of the two routers, whatever their pace: when both have found the end of a
response to the same tokens, and the pipe was not aborted, they have decoded the same events
exactly if the message of the error, if there was one, is well-formed text. -/
theorem eventsOf_eq_iff (codec : Codec) (lawful : codec.Lawful)
    (notJson : codec.parse doneMark = none) (readsErrors : ReadsErrors codec)
    (typeError : Json → Bytes) (typeErrorValid : ∀ json, Utf8.valid (typeError json) = true)
    (streaming : Streaming) (outcome : Outcome) {left : TranscriptState} {right : StreamState}
    (leftReachable : (transcript codec typeError streaming outcome).Reachable left)
    (rightReachable : (streamMachine codec streaming outcome).Reachable right)
    (same : left.tokens = right.tokens) (leftEnded : [] ∈ left.pipe.reads)
    (rightEnded : [] ∈ right.reads) (unaborted : left.pipe.pipe.aborted = false) :
    eventsOf codec left.pipe.reads.flatten = eventsOf codec right.reads.flatten ↔
      ∀ error, outcome = .ok (.error error) → Utf8.valid error.message = true := by
  have putting := (@putting_invariant codec streaming outcome lawful).of_reachable rightReachable
  rcases (read_of_ended putting rightEnded).1 with ⟨result, isOutcome⟩
  have sound : ∀ what, outcome = .error what → Utf8.valid what = true := by
    intro what threw
    rw [threw] at isOutcome
    cases isOutcome
  rw [eventsOf_transcript lawful notJson typeErrorValid sound leftReachable leftEnded unaborted,
    eventsOf_ended lawful notJson putting rightEnded,
    ← @errors_iff codec typeError outcome lawful readsErrors result isOutcome,
    expected, same, List.map_append, List.map_map]
  simp [Function.comp_def]

/-- A completion whose runner is gone after one token. -/
def oneToken : Streaming := ⟨.completions, 1, 2, bytes "tiny", by decide⟩

def gone : Outcome := .ok (.error ⟨.modelError, bytes "gone"⟩)

/-- The steps of the handlers of both routers, and of their clients. -/
def oneStream : List TranscriptAction :=
  [.token (bytes "a"), .returned, .work, .work, .work, .read 512, .read 512]

def oatppEnd : TranscriptState :=
  ((transcript JsonText.reference (fun _ => []) oneToken gone).run (.fresh oneToken)
    oneStream).getD (.fresh oneToken)

def cppRestEnd : StreamState :=
  ((streamMachine JsonText.reference oneToken gone).run (.fresh oneToken)
    oneStream).getD (.fresh oneToken)

theorem eventsOf_eq_iff_gone :
    eventsOf JsonText.reference oatppEnd.pipe.reads.flatten =
        eventsOf JsonText.reference cppRestEnd.reads.flatten ↔
      ∀ error, gone = .ok (.error error) → Utf8.valid error.message = true := by
  apply eventsOf_eq_iff JsonText.reference JsonText.reference_lawful (by decide +kernel)
    reference_readsErrors (fun _ => []) (fun _ => by decide) oneToken gone
  · exact Machine.reachable_getD rfl (by decide +kernel)
  · exact Machine.reachable_getD rfl (by decide +kernel)
  all_goals decide +kernel

end Cllama.Api.CppRest
