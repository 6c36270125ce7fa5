/-
  Faults: what the machine itself complains of.

  A fault is never a typed failure.  It becomes the payload of a defect, and travels as one.  Three
  of them name the type that was expected in the place where another was met, or none at all; the
  fourth says that a node made for one evaluation was evaluated again.
-/
import EffectMachine.Text.Quoted
import EffectMachine.Text.Record

namespace EffectMachine

/-- A complaint of the machine. -/
inductive Fault where
  /-- An environment was read where none is bound. -/
  | missingEnvironment (expected : String)
  /-- The bound environment is of another type. -/
  | environmentMismatch (expected : String)
  /-- A value or an error is of another type than its consumer's. -/
  | valueMismatch (expected : String)
  /-- A node made for one evaluation was evaluated again. -/
  | alreadyConsumed
deriving DecidableEq

namespace Fault

/-- The word for the kind of fault. -/
def kind : Fault → String
  | missingEnvironment _ => "MissingEnvironment"
  | environmentMismatch _ => "EnvironmentMismatch"
  | valueMismatch _ => "ValueMismatch"
  | alreadyConsumed => "AlreadyConsumed"

/-- The name of the type that was expected, where there was one. -/
def expected? : Fault → Option String
  | missingEnvironment t => some t
  | environmentMismatch t => some t
  | valueMismatch t => some t
  | alreadyConsumed => none

/-- The sentence that says what is wrong. -/
def message : Fault → String
  | missingEnvironment t => "no environment bound (expected " ++ t ++ ")"
  | environmentMismatch t => "bound environment is not a " ++ t
  | valueMismatch t => "effect value is not a " ++ t
  | alreadyConsumed => "single-use effect node evaluated more than once"

/-- The description of a fault: its kind, and the expected type as its only field. -/
def debug (f : Fault) : String :=
  match f.expected? with
  | some t => Text.record f.kind [Text.field "expected" (Text.debug t)]
  | none => f.kind

theorem expected?_eq_none_iff (f : Fault) : f.expected? = none ↔ f = alreadyConsumed := by
  cases f <;> simp [expected?]

example : (valueMismatch "").debug = "ValueMismatch \x7b expected: \"\" \x7d" := by decide +kernel

end Fault

end EffectMachine
