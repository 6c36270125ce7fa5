/-
  What a node means, read off its tree.

  This is the evaluator one would write without a machine: it recurses on what a node is made of,
  and needs no stack of frames, since what is pending lies in the recursion itself.  Next to the
  ending it gives the number of nodes dispatched.

  Nor does it need a stack of environments.  The environment bound innermost, or none, is a
  parameter: what an environment is provided for is evaluated with that environment in its place,
  and whatever comes after it with the one from before.  How many environments are bound is not
  known here, and so the binding and dropping of them is not reported.

  Like the machine it works on fuel, of which every node evaluated inside another takes one less.
-/
import EffectMachine.Machine

namespace EffectMachine

variable {D K σ : Type}

/-- A play that comes to no end. -/
def Play.endless {α : Type} : Play D K σ α := fun _ _ => none

/-- Evaluates a node with this environment bound, or none: its ending, and how many nodes that
    took. -/
def Node.denote [Language D K σ] :
    Nat → Option (Value D K) → Node D K → Play D K σ (Ending D K × Nat)
  | 0, _, _ => Play.endless
  | fuel + 1, env, node =>
    match node with
    | .succeed slot => return (← slot.settle, 1)
    | .failCause source => return (.failure (← source.take), 1)
    | .total f args => return (.success (← Play.act (Language.value f args)), 1)
    | .attempt f args => return (← Machine.attempted f args, 1)
    | .flatMap inner k => do
      match ← denote fuel env inner with
      | (.success v, steps) =>
        let (ending, more) ← denote fuel env (← k.resume v)
        return (ending, steps + more + 1)
      | (.failure c, steps) => return (.failure c, steps + 1)
    | .fold inner h k => do
      let (ending, steps) ← denote fuel env inner
      let next ← match ending with
        | .success v => k.resume v
        | .failure c => h.resume c
      let (ending, more) ← denote fuel env next
      return (ending, steps + more + 1)
    | .provide slot inner => do
      match ← slot.take with
      | some bound =>
        let (ending, steps) ← denote fuel (some bound) inner
        return (ending, steps + 1)
      | none => return (.failure (.ofFault .alreadyConsumed), 1)
    | .read type link => do
      let (ending, steps) ← denote fuel env (← link.followEnvironment type env)
      return (ending, steps + 1)

end EffectMachine
