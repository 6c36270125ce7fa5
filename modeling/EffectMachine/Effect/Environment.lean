/-
  Effects and the environments they read.

  To provide an environment is to bind it for one effect: it is dropped again when that effect has
  ended, and the result reads nothing of its own.
-/
import EffectMachine.Effect.Basic

namespace EffectMachine.Effect

variable {D K : Type} {R R' R₁ R₂ E E' A : Ty}

/-- Binds the environment, a copy of it for every evaluation. -/
def provide (e : Effect D K R E A) (env : Value D K) : Effect D K R' E A :=
  ⟨.provide (.shared env) e.node⟩

/-- Of an effect that reads `R₁` and produces one that reads `R₂`, the effect that reads `R₂`
    first and produces one that reads `R₁`. -/
def swapEnvironments (e : Effect D K R₁ E (.effect R₂ E A)) :
    Effect D K R₂ E' (.effect R₁ E A) :=
  ⟨.read R₂ (.supply e.node R₁ R₂ E A)⟩

end EffectMachine.Effect
