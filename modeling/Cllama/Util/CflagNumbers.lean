import Cllama.Util.CflagCommands
import Cllama.Util.CflagReading

/-!
# Numbers on a command line

The texts for values of type `int` go through `std::stoi`, which takes a number off the front of
a text and throws if there is none or it does not fit.  A parse validates them only as far as
the texts themselves do not need it.
-/

namespace Cllama.Util

open Cllama.Library Cllama.Library.Decimal

variable {V F : Type} {stof : Bytes → Option F}

/-! ## Conversions -/

def TypedValue.isInt (value : TypedValue V F) : Bool :=
  value.fallback matches .int _

def TypedValue.isFloat (value : TypedValue V F) : Bool :=
  value.fallback matches .float _

/-- A text that is a number is converted to it. -/
theorem TypedValue.convert_of_isInt {value : TypedValue V F} (isInt : value.isInt = true)
    {text : Bytes} {number : Int} (isNumber : IsInt text number) :
    value.convert stof text = some (.int number) := by
  rw [TypedValue.isInt] at isInt
  rw [TypedValue.convert]
  split at isInt
  next isFallback =>
    rw [isFallback]
    dsimp only
    rw [isNumber.stoiInt]
    rfl
  · cases isInt

section Parse

variable [DecidableEq V]

/-! ## Assignments that fail -/

theorem TypedValue.set_of_converts {value : TypedValue V F} {raw : Bytes}
    (converts : value.target.isSome = true → (value.convert stof raw).isSome = true)
    (store : V → Value F) : ∃ next, value.set stof raw store = .ok next := by
  rw [TypedValue.set]
  cases hasTarget : value.target with
  | none => exact ⟨store, rfl⟩
  | some var =>
      rw [hasTarget] at converts
      rcases Option.isSome_iff_exists.mp (converts rfl) with ⟨converted, isConverted⟩
      rw [isConverted]
      exact ⟨_, rfl⟩

theorem TypedValue.exception_of_set {value : TypedValue V F} {raw : Bytes} {store : V → Value F}
    {failure : Failure} (fails : value.set stof raw store = .error failure) :
    failure = .exception := by
  unfold TypedValue.set at fails
  split at fails
  · cases fails
  · split at fails <;> cases fails
    rfl

/-- Texts that can be converted can be assigned. -/
theorem assign_of_converts {pairs : List (TypedValue V F × Bytes)}
    (converts : ∀ pair ∈ pairs, pair.1.target.isSome = true →
      (pair.1.convert stof pair.2).isSome = true)
    (store : V → Value F) : ∃ next, assign stof pairs store = .ok next := by
  induction pairs generalizing store with
  | nil => exact ⟨store, rfl⟩
  | cons pair pairs ih =>
      rw [List.forall_mem_cons] at converts
      rcases TypedValue.set_of_converts converts.1 store with ⟨middle, isSet⟩
      rcases ih converts.2 middle with ⟨next, assigned⟩
      refine ⟨next, ?_⟩
      rw [assign, List.foldlM_cons, isSet]
      exact assigned

theorem exception_of_assign {pairs : List (TypedValue V F × Bytes)} {store : V → Value F}
    {failure : Failure} (fails : assign stof pairs store = .error failure) :
    failure = .exception := by
  induction pairs generalizing store with
  | nil => cases fails
  | cons pair pairs ih =>
      rw [assign, List.foldlM_cons] at fails
      cases isSet : pair.1.set stof pair.2 store with
      | error failure =>
          rw [isSet] at fails
          cases fails
          exact TypedValue.exception_of_set isSet
      | ok middle =>
          rw [isSet] at fails
          exact ih fails

/-- A variable that is not assigned to keeps its value. -/
theorem assign_other {pairs : List (TypedValue V F × Bytes)} {store next : V → Value F}
    (assigned : assign stof pairs store = .ok next) {var : V}
    (others : ∀ pair ∈ pairs, pair.1.target ≠ some var) : next var = store var := by
  induction pairs generalizing store with
  | nil =>
      cases assigned
      rfl
  | cons pair pairs ih =>
      rw [List.forall_mem_cons] at others
      rw [assign, List.foldlM_cons] at assigned
      rcases bind_eq_ok assigned with ⟨middle, isSet, rest⟩
      rw [ih rest others.2, TypedValue.set_other isSet others.1]

/-- The last text for a variable decides. -/
theorem assign_last {front back : List (TypedValue V F × Bytes)} {value : TypedValue V F}
    {text : Bytes} {store next : V → Value F}
    (assigned : assign stof (front ++ (value, text) :: back) store = .ok next) {var : V}
    (hasTarget : value.target = some var) (others : ∀ pair ∈ back, pair.1.target ≠ some var) :
    value.convert stof text = some (next var) := by
  rw [assign_append_eq] at assigned
  rcases bind_eq_ok assigned with ⟨before, -, assigned⟩
  rw [assign, List.foldlM_cons] at assigned
  rcases bind_eq_ok assigned with ⟨middle, isSet, rest⟩
  rw [TypedValue.set_at isSet hasTarget, assign_other rest others]

/-! ## What a parse ends in -/

theorem ok_of_map {ε α β : Type} {x : Except ε α} {f : α → β} {b : β}
    (isOk : x.map f = .ok b) : ∃ a, x = .ok a ∧ f a = b := by
  cases x with
  | error e => cases isOk
  | ok a =>
      cases isOk
      exact ⟨a, rfl, rfl⟩

theorem error_of_map {ε α β : Type} {x : Except ε α} {f : α → β} {e : ε}
    (isError : x.map f = .error e) : x = .error e := by
  cases x with
  | error e =>
      cases isError
      rfl
  | ok a => cases isError

theorem App.parse_of_assign {app : App V F} {args : List Bytes} {store next : V → Value F}
    (assigned : assign stof (app.given args) store = .ok next)
    (accepted : app.verdict args = none) :
    ∃ position, app.parse stof args store = .ok (position, next) := by
  have parsed : (app.parse stof args store).map Prod.snd = .ok next := by
    rw [App.parse_eq, assigned, accepted]
    rfl
  rcases ok_of_map parsed with ⟨⟨position, found⟩, returned, rfl⟩
  exact ⟨position, returned⟩

theorem App.parse_of_verdict {app : App V F} {args : List Bytes} {store next : V → Value F}
    {failure : Failure} (assigned : assign stof (app.given args) store = .ok next)
    (rejected : app.verdict args = some failure) :
    app.parse stof args store = .error failure := by
  apply error_of_map
  rw [App.parse_eq, assigned, rejected]
  rfl

theorem App.parse_exception {app : App V F} {args : List Bytes} {store : V → Value F}
    {failure : Failure} (fails : assign stof (app.given args) store = .error failure) :
    app.parse stof args store = .error failure := by
  apply error_of_map
  rw [App.parse_eq, fails]
  rfl

/-! ## Validation -/

/-- What a parse does with the texts for values of type `int`. -/
structure Validates (stof : Bytes → Option F) (app : App V F) (args : List Bytes)
    (store : V → Value F) : Prop where
  noException : app.parse stof args store ≠ .error .exception
  rejected : ∀ value text, (value, text) ∈ app.given args → value.isInt = true →
    (∀ number, ¬IsInt text number) →
    ∃ message, app.parse stof args store = .error (.exit message 1)
  bound : ∀ position next, app.parse stof args store = .ok (position, next) →
    ∀ front value text back, app.given args = front ++ (value, text) :: back →
      value.isInt = true → ∀ var, value.target = some var →
      (∀ pair ∈ back, pair.1.target ≠ some var) →
      ∃ number, IsInt text number ∧ next var = .int number
  accepted : (∀ pair ∈ app.given args, pair.1.isInt = true → ∃ number, IsInt pair.2 number) →
    (∀ pair ∈ app.given args, pair.1.isFloat = true → (stof pair.2).isSome = true) →
    app.verdict args = none → ∃ position next, app.parse stof args store = .ok (position, next)

section Validation

variable {app : App V F} {args : List Bytes} {store next : V → Value F}

/-- Arguments that are rejected whatever their values are validated once they are assigned. -/
theorem Validates.of_verdict {failure : Failure}
    (assigned : assign stof (app.given args) store = .ok next)
    (judged : app.verdict args = some failure) : Validates stof app args store := by
  have rejected := App.parse_of_verdict assigned judged
  rcases App.exit_of_verdict judged with ⟨message, code, rfl, usage⟩
  constructor
  · rw [rejected]
    nofun
  · intro value text isMember isInt noNumber
    rw [← usage (List.ne_nil_of_mem isMember)]
    exact ⟨message, rejected⟩
  · intro position next parsed
    rw [rejected] at parsed
    cases parsed
  · intro _ _ accepted
    rw [judged] at accepted
    cases accepted

/-- Numbers that are assigned are validated. -/
theorem Validates.of_numbers (assigned : assign stof (app.given args) store = .ok next)
    (judged : app.verdict args = none)
    (numbers : ∀ pair ∈ app.given args, pair.1.isInt = true → ∃ number, IsInt pair.2 number) :
    Validates stof app args store := by
  rcases App.parse_of_assign assigned judged with ⟨position, parsed⟩
  constructor
  · rw [parsed]
    nofun
  · intro value text isMember isInt noNumber
    rcases numbers _ isMember isInt with ⟨number, isNumber⟩
    exact absurd isNumber (noNumber number)
  · intro position' next' parsed' front value text back isGiven isInt var hasTarget others
    rw [parsed] at parsed'
    cases parsed'
    have isMember : (value, text) ∈ app.given args := by simp [isGiven]
    rcases numbers _ isMember isInt with ⟨number, isNumber⟩
    rw [isGiven] at assigned
    have converted := assign_last assigned hasTarget others
    rw [TypedValue.convert_of_isInt isInt isNumber, Option.some.injEq] at converted
    exact ⟨number, isNumber, converted.symm⟩
  · exact fun _ _ _ => ⟨position, next, parsed⟩

theorem Validates.assigns (validates : Validates stof app args store) :
    ∃ next, assign stof (app.given args) store = .ok next := by
  cases assigned : assign stof (app.given args) store with
  | ok next => exact ⟨next, rfl⟩
  | error failure =>
      rcases exception_of_assign assigned
      exact absurd (App.parse_exception assigned) validates.noException

theorem Validates.numbers (validates : Validates stof app args store)
    (judged : app.verdict args = none) :
    ∀ pair ∈ app.given args, pair.1.isInt = true → ∃ number, IsInt pair.2 number := by
  intro pair isMember isInt
  by_contra noNumber
  rcases validates.rejected pair.1 pair.2 isMember isInt (not_exists.mp noNumber) with
    ⟨message, rejected⟩
  rcases validates.assigns with ⟨next, assigned⟩
  rcases App.parse_of_assign assigned judged with ⟨position, parsed⟩
  rw [rejected] at parsed
  cases parsed

end Validation

/-- A parse validates its numbers exactly if all texts can be converted, and either the
arguments are rejected anyway or each text for an `int` is one as a whole. -/
theorem App.validates_iff (stof : Bytes → Option F) (app : App V F) (args : List Bytes)
    (store : V → Value F) :
    Validates stof app args store ↔
      (∀ pair ∈ app.given args, pair.1.target.isSome = true →
        (pair.1.convert stof pair.2).isSome = true) ∧
      (app.verdict args = none →
        ∀ pair ∈ app.given args, pair.1.isInt = true → ∃ number, IsInt pair.2 number) := by
  constructor
  · intro validates
    rcases validates.assigns with ⟨next, assigned⟩
    constructor
    · intro pair isMember hasTarget
      rcases Option.isSome_iff_exists.mp hasTarget with ⟨var, hasTarget⟩
      exact assign_converts assigned pair isMember var hasTarget
    · exact validates.numbers
  · rintro ⟨converts, numbers⟩
    rcases assign_of_converts converts store with ⟨next, assigned⟩
    cases judged : app.verdict args with
    | some failure => exact .of_verdict assigned judged
    | none => exact .of_numbers assigned judged (numbers judged)

end Parse

/-- A port that is no number is an exception, and one with a unit behind it is accepted. -/
theorem sample_not_validates :
    sample.parse (fun _ => none) (["serve", "start", "--port", "abc", "x.gguf"].map bytes)
      (sample.declare fun _ => .string []) = .error .exception ∧
    (∃ position next,
      sample.parse (fun _ => none) (["serve", "start", "--port=80x", "x.gguf"].map bytes)
        (sample.declare fun _ => .string []) = .ok (position, next) ∧ next 1 = .int 80) ∧
    ¬Validates (fun _ => none) sample (["serve", "start", "--port", "abc", "x.gguf"].map bytes)
      (sample.declare fun _ => .string []) ∧
    ¬Validates (fun _ => none) sample (["serve", "start", "--port=80x", "x.gguf"].map bytes)
      (sample.declare fun _ => .string []) := by
  refine ⟨rfl, ⟨_, _, rfl, rfl⟩, fun validates => validates.noException rfl, fun validates => ?_⟩
  have isGiven : sample.given (["serve", "start", "--port=80x", "x.gguf"].map bytes) =
      [(⟨some 1, .int 8080⟩, bytes "80x"), (⟨some 3, .string []⟩, bytes "x.gguf")] := rfl
  have noNumber : ∀ number, ¬IsInt (bytes "80x") number :=
    fun number isInt => absurd (isInt.octets 0x78 (by decide)) (by decide)
  have isMember : (⟨some 1, .int 8080⟩, bytes "80x") ∈
      sample.given (["serve", "start", "--port=80x", "x.gguf"].map bytes) := by
    rw [isGiven]
    exact List.mem_cons_self
  rcases validates.rejected _ _ isMember rfl noNumber with ⟨message, rejected⟩
  cases rejected

end Cllama.Util
