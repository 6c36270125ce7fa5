/-
  Effects one after another.

  Each of these puts one node in front of an effect, with what is to be done on its success behind
  it.  If the effect fails or dies nothing of that is done, and the whole ends as the effect did.
-/
import EffectMachine.Effect.Basic

namespace EffectMachine.Effect

variable {D K : Type} {R E A B C : Ty}

/-- The effect with a link behind it, for values of its type. -/
def linked (e : Effect D K R E A) (link : Link D K) : Effect D K R E B :=
  ⟨.flatMap e.node (.typed A link)⟩

/-- Transforms the value. -/
def map (e : Effect D K R E A) (f : K) : Effect D K R E B := e.linked (.nowOf f)

/-- Goes on with the effect that the closure makes of the value. -/
def andThen (e : Effect D K R E A) (f : K) : Effect D K R E B := e.linked (.call f)

/-- Goes on with another effect, whatever the value. -/
def followedBy (e : Effect D K R E A) (that : Effect D K R E B) : Effect D K R E B :=
  e.linked (.replace that.node)

/-- Runs two effects in turn and pairs their values. -/
def zip (e : Effect D K R E A) (that : Effect D K R E B) : Effect D K R E (.tuple [A, B]) :=
  e.linked (.zip that.node B none)

/-- Runs two effects in turn and joins their values by the closure. -/
def zipWith (e : Effect D K R E A) (that : Effect D K R E B) (f : K) : Effect D K R E C :=
  e.linked (.zip that.node B (some f))

/-- Fails with the error made of the value unless the value passes. -/
def require (e : Effect D K R E A) (passes error : K) : Effect D K R E A :=
  e.linked (.require passes error)

/-- Dies with the payload made of the value unless the value passes. -/
def assert (e : Effect D K R E A) (passes payload : K) : Effect D K R E A :=
  e.linked (.assert passes payload)

/-- Succeeds or fails as the outcome produced says. -/
def absolve (e : Effect D K R E (.outcome E A)) : Effect D K R E A := e.linked .absolve

/-- Runs the effect produced. -/
def flatten (e : Effect D K R E (.effect R E A)) : Effect D K R E A := e.linked .flatten

end EffectMachine.Effect
