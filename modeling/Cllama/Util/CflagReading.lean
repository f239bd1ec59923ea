import Cllama.Util.CflagBinding

/-!
# Reading and setting

The loop of a parse reads arguments and sets values by turns.  What it reads does not depend on
what it sets, so a parse is a reading, the assignments that it asks for, and a verdict on what
has been read; an assignment that fails comes before the verdict.
-/

namespace Cllama.Util

open Cllama.Library

variable {V F : Type}

/-- A result, unless there is a failure. -/
def judge {α : Type} (failure : Option Failure) (result : α) : Except Failure α :=
  match failure with
  | some failure => .error failure
  | none => .ok result

/-- The options that are found, with their positions and the texts for them, the positional
arguments, and the failure at which the reading stops, if it does. -/
structure Reading (V F : Type) where
  found : List ((CmdOption V F × Nat) × Bytes)
  positional : List Bytes
  stop : Option Failure

namespace Reading

variable (reading : Reading V F)

def nothing : Reading V F := ⟨[], [], none⟩

def stopped (message : Bytes) : Reading V F := ⟨[], [], some (.exit message 1)⟩

/-- What is read behind an option and its text. -/
def behind (found : CmdOption V F × Nat) (raw : Bytes) : Reading V F :=
  { reading with found := (found, raw) :: reading.found }

def behindPositional (a : Bytes) : Reading V F :=
  { reading with positional := a :: reading.positional }

/-- The values of the options, and their texts. -/
def pairs : List (TypedValue V F × Bytes) :=
  reading.found.map fun entry => (entry.1.1.val, entry.2)

/-- The positions of the options that are set. -/
def wasSet (before : List Nat) : List Nat :=
  reading.found.foldl
    (fun positions entry =>
      if entry.1.1.val.target.isSome then entry.1.2 :: positions else positions)
    before

end Reading

namespace Command

variable (cmd : Command V F)

/-- What the loop reads. -/
def reading : List Bytes → Reading V F
  | [] => .nothing
  | a :: args =>
      match shape a with
      | .long name attached =>
          match cmd.findOption name with
          | none => .stopped (bytes "Unknown option: " ++ a)
          | some found =>
              if found.1.isFlag then (reading args).behind found (bytes "true")
              else
                match attached with
                | some raw => (reading args).behind found raw
                | none =>
                    match args with
                    | raw :: args => (reading args).behind found raw
                    | [] => .stopped (bytes "Option " ++ name ++ bytes " requires a value")
      | .short c =>
          match cmd.findShort c with
          | none => .stopped (bytes "Unknown option: " ++ a)
          | some found =>
              if found.1.isFlag then (reading args).behind found (bytes "true")
              else
                match args with
                | raw :: args => (reading args).behind found raw
                | [] => .stopped (bytes "Option " ++ a ++ bytes " requires a value")
      | .plain => (reading args).behindPositional a

/-- The values that are set, and their texts: positional arguments are bound only if the
reading gets to the end. -/
def given (args : List Bytes) : List (TypedValue V F × Bytes) :=
  (cmd.reading args).pairs ++
    if (cmd.reading args).stop = none then
      argumentPairs cmd.arguments (cmd.reading args).positional
    else []

/-- Why the arguments are rejected whatever their values. -/
def verdict (args : List Bytes) : Option Failure :=
  match (cmd.reading args).stop with
  | some failure => some failure
  | none =>
      match (cmd.arguments.drop (cmd.reading args).positional.length).find? (·.required) with
      | some arg => some (.exit (bytes "Missing required argument: " ++ arg.name) 1)
      | none =>
          (cmd.options.zipIdx.find? fun opt =>
              opt.1.required && opt.2 ∉ (cmd.reading args).wasSet []).map
            fun opt => .exit (bytes "Missing required option: " ++ opt.1.shown) 1

end Command

namespace App

variable (app : App V F)

/-- The command that the arguments select, and those that it binds, which are none without
arguments. -/
def dispatch : List Bytes → Except Failure (Position V F × Option (List Bytes))
  | [] =>
      match app.default with
      | some position => .ok (position, none)
      | none => .error (.exit [] 0)
  | first :: args =>
      if first = bytes "help" then .error (app.help args)
      else if first = bytes "--help" ∨ first = bytes "-h" then .error (.exit [] 0)
      else
        match app.select first args with
        | none => .error (.exit (bytes "Unknown command: " ++ first) 1)
        | some (position, args) =>
            if args.head? = some (bytes "--help") ∨ args.head? = some (bytes "-h") then
              .error (.exit [] 0)
            else .ok (position, some args)

/-- The values that the arguments set, and their texts. -/
def given (args : List Bytes) : List (TypedValue V F × Bytes) :=
  match app.dispatch args with
  | .ok (position, some args) => position.command.given args
  | _ => []

/-- Why no command is returned whatever the values. -/
def verdict (args : List Bytes) : Option Failure :=
  match app.dispatch args with
  | .error failure => some failure
  | .ok (_, none) => none
  | .ok (position, some args) => position.command.verdict args

end App

/-! ## What is rejected -/

theorem Command.stop_reading {cmd : Command V F} {args : List Bytes} {failure : Failure}
    (isStop : (cmd.reading args).stop = some failure) :
    ∃ message, failure = .exit message 1 := by
  fun_induction Command.reading cmd args with
  | case1 => cases isStop
  | case2 | case6 | case7 | case10 =>
      cases isStop
      exact ⟨_, rfl⟩
  | case3 _ _ _ _ _ _ _ _ ih | case4 _ _ _ _ _ _ _ _ ih | case5 _ _ _ _ _ _ _ _ ih
  | case8 _ _ _ _ _ _ _ ih | case9 _ _ _ _ _ _ _ _ ih | case11 _ _ _ ih => exact ih isStop

/-- A command that rejects its arguments is a usage error. -/
theorem Command.exit_of_verdict {cmd : Command V F} {args : List Bytes} {failure : Failure}
    (rejected : cmd.verdict args = some failure) : ∃ message, failure = .exit message 1 := by
  unfold Command.verdict at rejected
  split at rejected
  next stop isStop =>
    cases rejected
    exact Command.stop_reading isStop
  · split at rejected
    · cases rejected
      exact ⟨_, rfl⟩
    · rcases Option.map_eq_some_iff.mp rejected with ⟨opt, -, rfl⟩
      exact ⟨_, rfl⟩

theorem App.exit_of_help (app : App V F) (names : List Bytes) :
    ∃ message code, app.help names = .exit message code := by
  cases names with
  | nil => exact ⟨_, _, rfl⟩
  | cons name names =>
      rw [App.help]
      split <;> exact ⟨_, _, rfl⟩

theorem App.exit_of_dispatch {app : App V F} {args : List Bytes} {failure : Failure}
    (rejected : app.dispatch args = .error failure) :
    ∃ message code, failure = .exit message code := by
  unfold App.dispatch at rejected
  split at rejected
  · split at rejected
    · cases rejected
    · cases rejected
      exact ⟨_, _, rfl⟩
  · split at rejected
    · cases rejected
      exact app.exit_of_help _
    · split at rejected
      · cases rejected
        exact ⟨_, _, rfl⟩
      · split at rejected
        · cases rejected
          exact ⟨_, _, rfl⟩
        · split at rejected
          · cases rejected
            exact ⟨_, _, rfl⟩
          · cases rejected

/-- No command is returned: the process exits, and with a usage error if any text is given to
a value. -/
theorem App.exit_of_verdict {app : App V F} {args : List Bytes} {failure : Failure}
    (rejected : app.verdict args = some failure) :
    ∃ message code, failure = .exit message code ∧ (app.given args ≠ [] → code = 1) := by
  unfold App.verdict at rejected
  rw [App.given]
  split at rejected
  next failure isRejected =>
    cases rejected
    rcases App.exit_of_dispatch isRejected with ⟨message, code, rfl⟩
    exact ⟨message, code, rfl, fun gives => absurd (by rw [isRejected]) gives⟩
  · cases rejected
  · rcases Command.exit_of_verdict rejected with ⟨message, rfl⟩
    exact ⟨message, 1, rfl, fun _ => rfl⟩

/-! ## Setting what has been read -/

section Parse

variable [DecidableEq V] (stof : Bytes → Option F) (cmd : Command V F)

/-- The loop under a reading. -/
def Reading.apply (reading : Reading V F) (bound : Bound V F) : Except Failure (Bound V F) := do
  let store ← assign stof reading.pairs bound.store
  judge reading.stop
    ⟨store, reading.wasSet bound.wasSet, bound.positional ++ reading.positional⟩

variable {stof}

theorem Reading.apply_behind (reading : Reading V F) (found : CmdOption V F × Nat) (raw : Bytes)
    (bound : Bound V F) :
    (reading.behind found raw).apply stof bound =
      bound.set stof found raw >>= fun after => reading.apply stof after := by
  rw [Reading.apply, Reading.pairs, Reading.behind, List.map_cons, assign, List.foldlM_cons,
    Bound.set]
  cases found.1.val.set stof raw bound.store with
  | error failure => rfl
  | ok store => rfl

theorem Reading.apply_behindPositional (reading : Reading V F) (a : Bytes) (bound : Bound V F) :
    (reading.behindPositional a).apply stof bound =
      reading.apply stof { bound with positional := bound.positional ++ [a] } := by
  simp [Reading.apply, Reading.behindPositional, Reading.pairs, Reading.wasSet]

/-- The loop is what its reading asks for. -/
theorem parseLoop_eq (args : List Bytes) (bound : Bound V F) :
    parseLoop stof cmd args bound = (cmd.reading args).apply stof bound := by
  fun_induction Command.reading cmd args generalizing bound with
  | case1 =>
      simp [parseLoop, Reading.apply, Reading.nothing, Reading.pairs, Reading.wasSet, assign, judge,
        pure, Except.pure, bind, Except.bind]
  | case2 a args name attached isLong notFound =>
      rw [parseLoop.eq_def]
      simp only [isLong, notFound]
      rfl
  | case3 a args name attached isLong found isFound isFlag ih =>
      rw [parseLoop.eq_def, Reading.apply_behind]
      simp only [isLong, isFound, isFlag, if_true, ih]
  | case4 a args name found isFound valued raw isLong ih =>
      rw [parseLoop.eq_def, Reading.apply_behind]
      simp [isLong, isFound, valued, ih]
  | case5 a name found isFound valued raw args isLong ih =>
      rw [parseLoop.eq_def, Reading.apply_behind]
      simp [isLong, isFound, valued, ih]
  | case6 a name found isFound valued isLong =>
      rw [parseLoop.eq_def]
      simp [isLong, isFound, valued]
      rfl
  | case7 a args c isShort notFound =>
      rw [parseLoop.eq_def]
      simp only [isShort, notFound]
      rfl
  | case8 a args c isShort found isFound isFlag ih =>
      rw [parseLoop.eq_def, Reading.apply_behind]
      simp only [isShort, isFound, isFlag, if_true, ih]
  | case9 a c isShort found isFound valued raw args ih =>
      rw [parseLoop.eq_def, Reading.apply_behind]
      simp [isShort, isFound, valued, ih]
  | case10 a c isShort found isFound valued =>
      rw [parseLoop.eq_def]
      simp [isShort, isFound, valued]
      rfl
  | case11 a args isPlain ih =>
      rw [parseLoop.eq_def, Reading.apply_behindPositional]
      simp [isPlain, ih]

theorem bindArguments_eq (tokens : List Bytes) (store : V → Value F) :
    bindArguments stof cmd tokens store =
      assign stof (argumentPairs cmd.arguments tokens) store := by
  rw [assign, argumentPairs, List.foldlM_map, bindArguments]

theorem assign_append_eq (first second : List (TypedValue V F × Bytes)) (store : V → Value F) :
    assign stof (first ++ second) store = assign stof first store >>= assign stof second := by
  rw [assign, List.foldlM_append]
  rfl

/-- Binding the arguments of a command sets what they give, unless they are rejected. -/
theorem bindCommand_eq (args : List Bytes) (store : V → Value F) :
    bindCommand stof cmd args store =
      assign stof (cmd.given args) store >>= judge (cmd.verdict args) := by
  rw [bindCommand, parseLoop_eq, Reading.apply]
  cases isStop : (cmd.reading args).stop with
  | some failure =>
      simp only [Command.given, Command.verdict, isStop, reduceCtorEq, if_false, List.append_nil]
      cases assign stof (cmd.reading args).pairs store <;> rfl
  | none =>
      simp only [Command.given, Command.verdict, isStop, if_true, assign_append_eq]
      cases assign stof (cmd.reading args).pairs store with
      | error failure => rfl
      | ok middle =>
          simp only [judge, bind, Except.bind, bindArguments_eq, List.nil_append]
          cases assign stof (argumentPairs cmd.arguments (cmd.reading args).positional) middle with
          | error failure => rfl
          | ok next =>
              dsimp only
              cases (cmd.arguments.drop (cmd.reading args).positional.length).find?
                (·.required) with
              | some arg => rfl
              | none =>
                  dsimp only
                  cases cmd.options.zipIdx.find? fun opt =>
                    opt.1.required && opt.2 ∉ (cmd.reading args).wasSet [] with
                  | some opt => rfl
                  | none => rfl

/-- A parse selects a command and binds its arguments. -/
theorem App.parse_dispatch (app : App V F) (args : List Bytes) (store : V → Value F) :
    app.parse stof args store =
      app.dispatch args >>= fun target =>
        match target.2 with
        | none => .ok (target.1, store)
        | some args => (bindCommand stof target.1.command args store).map (Prod.mk target.1) := by
  cases args with
  | nil =>
      rw [App.parse, App.dispatch]
      cases app.default <;> rfl
  | cons first args =>
      rw [App.parse, App.dispatch]
      by_cases asksHelp : first = bytes "help"
      · rw [if_pos asksHelp, if_pos asksHelp]
        rfl
      rw [if_neg asksHelp, if_neg asksHelp]
      by_cases asksTop : first = bytes "--help" ∨ first = bytes "-h"
      · rw [if_pos asksTop, if_pos asksTop]
        rfl
      rw [if_neg asksTop, if_neg asksTop]
      cases app.select first args with
      | none => rfl
      | some selected =>
          rcases selected with ⟨position, rest⟩
          dsimp only
          by_cases asks : rest.head? = some (bytes "--help") ∨ rest.head? = some (bytes "-h")
          · rw [if_pos asks, if_pos asks]
            rfl
          · rw [if_neg asks, if_neg asks]
            rfl

/-- A parse sets what the arguments give, unless they are rejected. -/
theorem App.parse_eq (app : App V F) (args : List Bytes) (store : V → Value F) :
    (app.parse stof args store).map Prod.snd =
      assign stof (app.given args) store >>= judge (app.verdict args) := by
  rw [App.parse_dispatch, App.given, App.verdict]
  rcases app.dispatch args with failure | ⟨position, _ | args⟩
  · rfl
  · rfl
  · change ((bindCommand stof position.command args store).map (Prod.mk position)).map Prod.snd =
      assign stof (position.command.given args) store >>= judge (position.command.verdict args)
    rw [bindCommand_eq]
    cases assign stof (position.command.given args) store >>=
      judge (position.command.verdict args) <;> rfl

end Parse

end Cllama.Util
