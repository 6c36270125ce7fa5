/-
  Running effects.

  A run evaluates the tree of an effect and checks at the end that what came out is of the types
  the effect was declared with.  `runOutcome` hands the ending over as an outcome; `run` goes on
  with the value of a success, and raises the error or the payload in the place of a failure.

  On a runner a run returns the runner as it is afterwards, also if the run was cut short.  Without
  one it takes a fresh runner and raises what was raised.
-/
import EffectMachine.Effect.Environment

namespace EffectMachine

variable {D K σ : Type} {R E A : Ty}

/-- What an ending amounts to for the types declared: a value or an error of another type is a
    fault. -/
def Ending.checked (E A : Ty) : Ending D K → Ending D K
  | .success v => match v.cast? A with
    | some v => .success v
    | none => .failure (.ofFault (.valueMismatch A.name))
  | .failure c => .failure (c.typed E)

/-- The value of an ending; the error of a failure, or the payload of a defect, is raised. -/
def Ending.raised : Ending D K → Raised D K (Value D K)
  | .success v => .ok v
  | .failure (.fail e) => .error e
  | .failure (.die d) => .error d.payload

namespace Runner

/-- Runs an effect for its outcome, with an environment bound for this once if one is given. -/
def runBound (r : Runner D K) (env : Option (Value D K)) (e : Effect D K R E A) :
    Act D K σ (Runner D K × Raised D K (Ending D K)) :=
  .run r env e.node fun r ending => .done (r, ending.map (Ending.checked E A))

/-- Runs an effect for its outcome. -/
def runOutcome (r : Runner D K) (e : Effect D K .unit E A) :
    Act D K σ (Runner D K × Raised D K (Ending D K)) := r.runBound none e

/-- Runs an effect for its value. -/
def run (r : Runner D K) (e : Effect D K .unit E A) :
    Act D K σ (Runner D K × Raised D K (Value D K)) := do
  let (r, ending) ← r.runOutcome e
  return (r, ending.bind Ending.raised)

end Runner

namespace Effect

/-- Runs the effect on a fresh runner for its outcome. -/
def runOutcome (e : Effect D K .unit E A) : Act D K σ (Ending D K) := do
  Act.ofRaised (← Runner.fresh.runOutcome e).2

/-- Runs the effect on a fresh runner for its value. -/
def run (e : Effect D K .unit E A) : Act D K σ (Value D K) := do
  Act.ofRaised (← Runner.fresh.run e).2

/-- Runs the effect for its value on a fresh runner, with this environment bound for the run. -/
def runWith (e : Effect D K R E A) (env : Value D K) : Act D K σ (Value D K) := do
  Act.ofRaised ((← Runner.fresh.runBound (some env) e).2.bind Ending.raised)

end Effect

end EffectMachine
