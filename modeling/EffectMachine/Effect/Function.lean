/-
  Functions as effects, and back.

  A function of some arguments corresponds to an effect whose environment is the arguments of a
  call.  One direction makes the effect that applies a closure to the arguments it reads; what the
  closure raises becomes a defect.  The other binds the arguments of a call and runs.
-/
import EffectMachine.Effect.Run

namespace EffectMachine.Effect

variable {D K σ : Type} {E A T : Ty}

/-- Applies the closure to the positional arguments. -/
def ofFunction (f : K) : Effect D K (.arguments T) E A := ⟨.read (.arguments T) (.applyTo f)⟩

/-- Applies the closure to the call as a whole, named arguments included. -/
def ofCallFunction (f : K) : Effect D K (.arguments T) E A :=
  ⟨.read (.arguments T) (.applyWhole f)⟩

/-- The function of positional arguments that an effect stands for. -/
def toFunction (e : Effect D K (.arguments T) E A) (positional : Value D K) :
    Act D K σ (Value D K) :=
  e.runWith (.arguments positional [])

/-- The function of positional and named arguments that an effect stands for. -/
def toCallFunction (e : Effect D K (.arguments T) E A) (positional : Value D K)
    (named : NamedArguments (Value D K)) : Act D K σ (Value D K) :=
  e.runWith (.arguments positional named)

end EffectMachine.Effect
