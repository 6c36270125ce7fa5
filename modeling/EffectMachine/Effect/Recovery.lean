/-
  Effects that look at how another one ended.

  All but the last two see typed failures only, and raise a defect again as it was.  `foldCause`
  sees both, and `narrow` turns the defects with a payload of one type into typed failures.
-/
import EffectMachine.Effect.Basic

namespace EffectMachine.Effect

variable {D K : Type} {R E E' A B : Ty}

/-- Transforms the typed error; a value passes through unchecked. -/
def mapError (e : Effect D K R E A) (f : K) : Effect D K R E' A :=
  ⟨.fold e.node (.mapError E f) .passThrough⟩

/-- The effect with one link behind it for typed errors and one for values. -/
def folded (e : Effect D K R E A) (onFailure onSuccess : Link D K) : Effect D K R E' B :=
  ⟨.fold e.node (.onFailure E onFailure) (.typed A onSuccess)⟩

/-- Goes on with the effect that one closure makes of the error, or the other of the value. -/
def foldM (e : Effect D K R E A) (onFailure onSuccess : K) : Effect D K R E' B :=
  e.folded (.call onFailure) (.call onSuccess)

/-- Succeeds with what one closure makes of the error, or the other of the value. -/
def fold (e : Effect D K R E A) (onFailure onSuccess : K) : Effect D K R E' B :=
  e.folded (.nowOf onFailure) (.nowOf onSuccess)

/-- Goes on with the effect that the closure makes of the error. -/
def recover (e : Effect D K R E A) (f : K) : Effect D K R E' A := e.folded (.call f) .now

/-- On a typed failure, goes on with another effect. -/
def orElse (e : Effect D K R E A) (that : Effect D K R E' A) : Effect D K R E' A :=
  e.folded (.replace that.node) .now

/-- Succeeds with the outcome: a failure with the error, or a success with the value. -/
def either (e : Effect D K R E A) : Effect D K R E' (.outcome E A) :=
  e.folded (.nowFailure E A) (.nowSuccess E A)

/-- Fails with the value and succeeds with the error. -/
def swap (e : Effect D K R E A) : Effect D K R A E := e.folded .now .failNow

/-- Dies with the typed error as payload. -/
def orDie (e : Effect D K R E A) : Effect D K R E' A :=
  ⟨.fold e.node (.escalate E) (.typed A .now)⟩

/-- Goes on with the effect that one closure makes of the cause, or the other of the value. -/
def foldCause (e : Effect D K R E A) (onCause onSuccess : K) : Effect D K R E' B :=
  ⟨.fold e.node (.onCause E onCause) (.typed A (.call onSuccess))⟩

/-- Fails with what the closure makes of the payload of a defect, if that is of exactly this
    type. -/
def narrow (e : Effect D K R E A) (payload : Ty) (into : K) : Effect D K R E A :=
  ⟨.fold e.node (.narrow E payload into) (.typed A .now)⟩

end EffectMachine.Effect
