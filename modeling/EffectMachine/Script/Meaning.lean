/-
  The meanings of a script's closures.

  A function binds its parameters to the values it is called on, read as data, and evaluates its
  body; what differs between the roles is only how the result is handed over.  A builder builds its
  recipe in the same way.  A closure called in a role it was not made for raises.
-/
import EffectMachine.Machine
import EffectMachine.Script.Build

namespace EffectMachine.Script

namespace Closure

/-- What a closure computes from some values, as a datum. -/
def compute (f : Closure) (args : List Flow) : Doing Datum :=
  match f, args with
  | .function params body _ scope, args =>
    body.eval (Scope.bindAll params (Datum.ofValues args) scope)
  | .callFunction body scope, [.arguments positional named] =>
    let data := Datum.ofValues positional.components
    body.eval (Scope.bindAll (argumentNames data.length ++ ["named"])
      (data ++ [.list (Datum.ofNamed named)]) scope)
  | .convert _, [v] => return .ofValue v
  | .convertSecond _, [.tuple [_, v]] => return .ofValue v
  | _, _ => badProgram "not a function of these values"

/-- The form in which a closure hands over what it computes. -/
def form : Closure → Form
  | .function _ _ form _ => form
  | .convert form => form
  | .convertSecond form => form
  | _ => .dynamic

/-- The tree that a closure builds from some values. -/
def build (f : Closure) (args : List Flow) : Doing (Node Datum Closure) :=
  match f, args with
  | .builder params env body scope, args => do
    return (← body.build env (Scope.bindAll params (Datum.ofValues args) scope)).node
  | .succeeds, [v] => return .succeed (.shared (Datum.ofValue v).dynamic)
  | _, _ => badProgram "not a function to effects"

/-- The tree that a closure builds from a cause.  Where it has no case for the cause, it ends in the
    cause again. -/
def handle (f : Closure) (c : Cause Flow) : Doing (Node Datum Closure) :=
  match f, c with
  | .handler x env (some body) _ scope, .fail e => do
    return (← body.build env ((x, .datum (.ofValue e)) :: scope)).node
  | .handler x env _ (some body) scope, .die d => do
    let seen := Datum.pair (.str d.payload.type.name) (.ofValue d.payload)
    return (← body.build env ((x, .datum seen) :: scope)).node
  | .handler _ env _ _ _, c => do
    let e : Plan env ← Effect.halt c
    return e.node
  | _, _ => badProgram "not a handler of causes"

end Closure

instance : Language Datum Closure Ledger where
  value f args := return (← f.compute args).as f.form
  test f v := return (← f.compute [v]) == .bool true
  outcome f v := return Datum.dynamicOutcome (← f.compute [v]).toOutcome
  effect f args := f.build args
  handler f c := f.handle c
  cause
    | .cause c scope => c.eval scope
    | _ => badProgram "not a producer of causes"

end EffectMachine.Script
