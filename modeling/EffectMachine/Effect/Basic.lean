/-
  Effects, and the plain ways to make one.

  An `Effect D K R E A` describes a computation that reads an environment of type `R`, may fail
  with an error of type `E`, and otherwise produces a value of type `A`.  The three types are all
  there is to it besides a tree of nodes: they are what the values that flow through the tree are
  checked against, and they keep combinators from being misapplied.  To make an effect runs
  nothing.

  Everything here can be evaluated any number of times, with one exception: `halt` owns its cause
  and gives it away on the first evaluation.  A cell has to be taken for that, and so making such
  an effect is an act.
-/
import EffectMachine.Language
import EffectMachine.Arguments

namespace EffectMachine

/-- A description of a computation, by the types of its environment, its errors and its values. -/
structure Effect (D K : Type) (R E A : Ty) where
  node : Node D K

namespace Effect

variable {D K σ : Type} {R E A : Ty}

/-- The description of an effect, which shows the kind of its first node. -/
def debug (e : Effect D K R E A) : String :=
  Text.record "Effect" [Text.field "node" (Text.debug e.node.kind)]

/-! ## From values and causes -/

/-- Succeeds with the value. -/
def succeed (v : Value D K) : Effect D K R E A := ⟨.succeed (.shared v)⟩

/-- Fails with the error. -/
def fail (e : Value D K) : Effect D K R E A := ⟨.failCause (.shared (.fail e))⟩

/-- Succeeds or fails as the outcome says. -/
def ofOutcome : Outcome (Value D K) (Value D K) → Effect D K R E A
  | .success v => succeed v
  | .failure e => fail e

/-- Succeeds with the value there is, or fails with the error the closure produces. -/
def ofOption (v : Option (Value D K)) (onNone : K) : Effect D K R E A :=
  match v with
  | some v => succeed v
  | none => ⟨.failCause (.failing onNone)⟩

/-- Ends in the cause that the closure produces, anew for every evaluation. -/
def haltWith (f : K) : Effect D K R E A := ⟨.failCause (.made f)⟩

/-- Ends in the cause on the first evaluation, and dies of the fault `alreadyConsumed` on any
    later one. -/
def halt (c : Cause (Value D K)) : Act D K σ (Effect D K R E A) := do
  return ⟨.failCause (.halted (← Act.cell) c)⟩

/-- Dies with the payload. -/
def die (payload : Value D K) : Effect D K R E A := ⟨.failCause (.shared (.dieWith payload))⟩

/-! ## From closures -/

/-- Succeeds with what the closure returns.  What it raises leaves the run. -/
def total (f : K) : Effect D K R E A := ⟨.total f []⟩

/-- Succeeds with what the closure returns.  What it raises becomes a defect. -/
def attempt (f : K) : Effect D K R E A := ⟨.attempt f []⟩

/-! ## From the environment -/

/-- The effect that the closure makes of the bound environment. -/
def accessM (f : K) : Effect D K R E A := ⟨.read R (.call f)⟩

/-- Succeeds with what the closure makes of the bound environment. -/
def access (f : K) : Effect D K R E A := ⟨.read R (.nowOf f)⟩

/-- Succeeds or fails as the closure's outcome on the bound environment says. -/
def accessOutcome (f : K) : Effect D K R E A := ⟨.read R (.outcomeOf f)⟩

/-- Succeeds with the bound environment. -/
def environment : Effect D K R E R := ⟨.read R .now⟩

end Effect

end EffectMachine
