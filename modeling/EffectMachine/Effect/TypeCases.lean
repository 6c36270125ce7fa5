/-
  Cases by the type of a value.

  `matchTypes` parks the value of an effect in a defect, and each `atType` behind it looks at what
  is parked: a value of its own type becomes the environment of its case, and any other goes on to
  the cases further behind.  A value no case takes leaves as the defect it is parked in.
-/
import EffectMachine.Effect.Basic

namespace EffectMachine.Effect

variable {D K : Type} {R E A B : Ty}

/-- Parks the value for the type cases that follow. -/
def matchTypes (e : Effect D K R E A) : Effect D K R E B :=
  ⟨.flatMap e.node (.typed A .park)⟩

/-- Runs the case on a parked value of its type, as its environment. -/
def atType (e : Effect D K R E A) {T : Ty} (case : Effect D K T E A) : Effect D K R E A :=
  ⟨.fold e.node (.typeCase E T case.node) (.typed A .now)⟩

end EffectMachine.Effect
