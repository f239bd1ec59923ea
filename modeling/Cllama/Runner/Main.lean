import Mathlib.Data.List.Induction
import Cllama.Library.Decimal

/-!
# How a runner starts

`main` of the runner reads its command line, loads the model and listens on the port.  Each option
takes the argument behind it, whatever it looks like; what is no option is skipped, and of several
values for one option the last one counts.
-/

namespace Cllama.Runner

open Cllama.Library

/-- The variables that the options set. -/
structure Arguments where
  modelPath : Bytes
  port : Int
  chatTemplate : Bytes
  deriving DecidableEq

/-- How `main` ends before it serves requests. -/
inductive Failure where
  | exit (code : Nat)
  | exception
  deriving DecidableEq

/-- The loop over `argv`.  `next` exits if there is no argument left. -/
def readArguments (arguments : Arguments) : List Bytes → Except Failure Arguments
  | [] => .ok arguments
  | a :: rest =>
      if a = bytes "--model" then
        match rest with
        | [] => .error (.exit 1)
        | value :: rest => readArguments { arguments with modelPath := value } rest
      else if a = bytes "--port" then
        match rest with
        | [] => .error (.exit 1)
        | value :: rest =>
            match Decimal.stoiInt value with
            | none => .error .exception
            | some port => readArguments { arguments with port := port } rest
      else if a = bytes "--chat-template" then
        match rest with
        | [] => .error (.exit 1)
        | value :: rest => readArguments { arguments with chatTemplate := value } rest
      else readArguments arguments rest

/-- `main` up to where it serves requests: whether the model can be loaded, and whether the port
can be listened on, is decided outside. -/
def main (loads : Bytes → Bool) (listens : Int → Bool) (argv : List Bytes) :
    Except Failure Arguments :=
  match readArguments ⟨[], 0, []⟩ (argv.drop 1) with
  | .error failure => .error failure
  | .ok arguments =>
      if arguments.modelPath = [] ∨ arguments.port = 0 then .error (.exit 1)
      else if ¬loads arguments.modelPath then .error (.exit 1)
      else if ¬listens arguments.port then .error (.exit 1)
      else .ok arguments

/-! ## The options of `spawn_runner` -/

/-- What the manager passes. -/
def runnerArgs (modelPath : Bytes) (port : Int) : List Bytes :=
  [bytes "--model", modelPath, bytes "--port", bytes (toString port)]

section Read

variable {arguments result : Arguments} {rest : List Bytes} {value : Bytes} {port : Int}

theorem readArguments_model :
    readArguments arguments (bytes "--model" :: value :: rest) =
      readArguments { arguments with modelPath := value } rest := by
  rw [readArguments, if_pos rfl]

theorem readArguments_port (number : Decimal.stoiInt value = some port) :
    readArguments arguments (bytes "--port" :: value :: rest) =
      readArguments { arguments with port := port } rest := by
  rw [readArguments, if_neg (by decide), if_pos rfl]
  simp only [number]

theorem main_eq_ok_iff {loads : Bytes → Bool} {listens : Int → Bool} {argv : List Bytes} :
    main loads listens argv = .ok result ↔
      readArguments ⟨[], 0, []⟩ (argv.drop 1) = .ok result ∧
        (result.modelPath ≠ [] ∧ result.port ≠ 0) ∧
        loads result.modelPath = true ∧ listens result.port = true := by
  rw [main]
  cases readArguments ⟨[], 0, []⟩ (argv.drop 1) with
  | error failure => simp
  | ok arguments =>
      dsimp only
      rw [Except.ok.injEq]
      split_ifs with isMissing loaded listening
      · rw [false_iff]
        rintro ⟨rfl, given, -⟩
        exact isMissing.elim given.1 given.2
      · rw [Except.ok.injEq, iff_self_and]
        rintro rfl
        exact ⟨not_or.mp isMissing, loaded, listening⟩
      · rw [false_iff]
        rintro ⟨rfl, -, -, isListening⟩
        exact listening isListening
      · rw [false_iff]
        rintro ⟨rfl, -, isLoaded, -⟩
        exact loaded isLoaded

theorem readArguments_runnerArgs (fits : Decimal.Fits port) :
    readArguments ⟨[], 0, []⟩ (runnerArgs value port) = .ok ⟨value, port, []⟩ := by
  rw [runnerArgs, readArguments_model, readArguments_port (Decimal.isInt_toString fits).stoiInt]
  rfl

/-- The path is none of the command line's making: it is one of the arguments, as it is. -/
theorem readArguments_modelPath (read : readArguments arguments rest = .ok result) :
    result.modelPath = arguments.modelPath ∨ result.modelPath ∈ rest := by
  induction rest using List.twoStepInduction generalizing arguments with
  | nil =>
      cases read
      exact Or.inl rfl
  | singleton a =>
      rw [readArguments] at read
      split_ifs at read
      cases read
      exact Or.inl rfl
  | cons_cons a value rest ih skip =>
      rw [readArguments] at read
      split_ifs at read
      · rcases ih read with same | isMember
        · exact Or.inr (by simp [same])
        · exact Or.inr (by simp [isMember])
      · cases number : Decimal.stoiInt value with
        | none => simp [number] at read
        | some port =>
            simp only [number] at read
            rcases ih read with same | isMember
            · exact Or.inl same
            · exact Or.inr (by simp [isMember])
      · rcases ih read with same | isMember
        · exact Or.inl same
        · exact Or.inr (by simp [isMember])
      · rcases skip value read with same | isMember
        · exact Or.inl same
        · exact Or.inr (by simp [isMember])

end Read

end Cllama.Runner
