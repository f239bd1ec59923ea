import Cllama.Library.Json
import Mathlib.Algebra.Group.Int.Defs

/-!
# Reading numbers of JSON values

How a C++ program gets an `int` or a `float` out of a JSON number.  The rounding of the
floating-point types is a parameter, and so is the conversion of a `double` to `int`,
which is undefined out of range; a `float` is a value that rounding leaves alone.
-/

namespace Cllama.Library

/-- The conversions between the number types; every `float` is a `double`. -/
structure Conversions where
  float : ℚ → ℚ
  double : ℚ → ℚ
  truncate : ℚ → Int
  float_float : ∀ value, float (float value) = float value
  double_float : ∀ value, double (float value) = float value

namespace Conversions

/-- Numbers that are not rounded. -/
def exact : Conversions where
  float := id
  double := id
  truncate value := value.num.tdiv value.den
  float_float _ := rfl
  double_float _ := rfl

/-- The low 32 bits of an integer, as an `int`. -/
def wrap (value : Int) : Int := value.bmod 4294967296

theorem wrap_of_int {value : Int} (range : -2 ^ 31 ≤ value ∧ value < 2 ^ 31) :
    wrap value = value := by
  rw [wrap, Int.bmod_eq_of_le]
  · omega
  · omega

variable (conversions : Conversions)

/-- `get<int>`: a number of any kind, or a Boolean. -/
def getInt : Json → Option Int
  | .int value => some (wrap value)
  | .real value => some (conversions.truncate value)
  | .bool value => some (if value then 1 else 0)
  | _ => none

/-- `get<float>`: a number of any kind, or a Boolean. -/
def getFloat : Json → Option ℚ
  | .int value => some (conversions.float value)
  | .real value => some (conversions.float value)
  | .bool value => some (if value then 1 else 0)
  | _ => none

/-- `as_integer`: a number. -/
def asInteger : Json → Option Int
  | .int value => some (wrap value)
  | .real value => some (conversions.truncate value)
  | _ => none

/-- `as_double`: a number. -/
def asDouble : Json → Option ℚ
  | .int value => some (conversions.double value)
  | .real value => some value
  | _ => none

end Conversions

/-- Values with numbers that a machine word or a `double` holds, and with the members of an
object in strictly increasing order of their keys. -/
inductive Json.Machine (conversions : Conversions) : Json → Prop where
  | null : Machine conversions .null
  | bool (value : Bool) : Machine conversions (.bool value)
  | int {value : Int} : -2 ^ 63 ≤ value → value < 2 ^ 64 → Machine conversions (.int value)
  | real {value : ℚ} : conversions.double value = value → Machine conversions (.real value)
  | str (text : Bytes) : Machine conversions (.str text)
  | arr {items : List Json} :
      (∀ item ∈ items, Machine conversions item) → Machine conversions (.arr items)
  | obj {members : List (Bytes × Json)} :
      (members.map Prod.fst).Pairwise (· < ·) →
      (∀ value ∈ members.map Prod.snd, Machine conversions value) →
      Machine conversions (.obj members)

/-- An object with the given keys. -/
theorem Json.Machine.ofKeys {conversions : Conversions} (keys : List Bytes)
    {members : List (Bytes × Json)} (same : members.map Prod.fst = keys)
    (sorted : keys.Pairwise (· < ·))
    (values : (members.map Prod.snd).Forall (Json.Machine conversions)) :
    (Json.obj members).Machine conversions := by
  subst same
  exact .obj sorted (List.forall_iff_forall_mem.mp values)

/-- What can be written is read back. -/
def Codec.Faithful (codec : Codec) (conversions : Conversions) : Prop :=
  ∀ (json : Json) (text : Bytes), json.Machine conversions →
    codec.dump json = some text → codec.parse text = some json

end Cllama.Library
