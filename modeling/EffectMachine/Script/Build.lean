/-
  Evaluating expressions and building effects.

  Both are acts over a `Ledger`, the state that the closures of a script share: a log, and counters
  by name.  An operator that is given operands it has no meaning for raises a text that names it,
  and so does a name that is bound to nothing.

  Building an effect evaluates only what is needed to make it.  The bodies of closures are taken
  as they stand, together with the scope; they are evaluated when a run calls them.
-/
import EffectMachine.Effect.Sequence
import EffectMachine.Effect.Recovery
import EffectMachine.Effect.TypeCases
import EffectMachine.Effect.Function
import EffectMachine.Script.Datum

namespace EffectMachine.Script

/-- What the closures of a script share. -/
structure Ledger where
  /-- What has been logged, the latest first. -/
  log : List Datum
  /-- How often each name has been counted. -/
  counters : List (String × Nat)

/-- A ledger with nothing in it. -/
def Ledger.empty : Ledger := ⟨[], []⟩

/-- The acts of scripts. -/
abbrev Doing (α : Type) : Type := Act Datum Closure Ledger α

/-- The effects of scripts: errors and values are dynamic, the environment is not. -/
abbrev Plan (env : Ty) : Type := Effect Datum Closure env .dynamic .dynamic

variable {α : Type}

/-! ## What goes wrong in a script -/

/-- Raises that an operator has no meaning for its operands. -/
def badOperands (word : String) : Doing α := .raise (.text ("bad operands for " ++ word))

/-- Raises that the script itself is at fault. -/
def badProgram (why : String) : Doing α := .raise (.text ("bad program: " ++ why))

/-! ## Scopes

  Data, effects and functions are looked up apart: a name can stand for one of each, for the one
  bound innermost. -/

namespace Scope

/-- Binds names to data, the last one innermost. -/
def bindAll (names : List String) (data : List Datum) (scope : Scope) : Scope :=
  (names.zip data).foldl (fun scope b => (b.1, .datum b.2) :: scope) scope

/-- The datum a name stands for. -/
def datum (name : String) (scope : Scope) : Doing Datum :=
  let bound := scope.findSome? fun
    | (n, .datum d) => if n = name then some d else none
    | _ => none
  match bound with
  | some d => return d
  | none => badProgram ("unbound " ++ name)

/-- The effect a name stands for, which must read this type. -/
def plan (name : String) (env : Ty) (scope : Scope) : Doing (Plan env) :=
  let bound := scope.findSome? fun
    | (n, .effect r node) => if n = name then some (r, node) else none
    | _ => none
  match bound with
  | some (r, node) => if r = env then return ⟨node⟩ else badProgram ("environment of " ++ name)
  | none => badProgram ("unbound " ++ name)

/-- The function a name stands for, as a closure that builds effects reading this type.  In its own
    body the name stands for the function again. -/
def builder (name : String) (env : Ty) (scope : Scope) : Doing Closure :=
  let bound := scope.findSome? fun
    | (n, .function x body outer) => if n = name then some (x, body, outer) else none
    | _ => none
  match bound with
  | some (x, body, outer) =>
    return .builder [x] env body ((name, .function x body outer) :: outer)
  | none => badProgram ("unbound " ++ name)

end Scope

/-! ## Operators -/

/-- Counts once more, and returns the count before. -/
def tick (name : String) : Doing Datum := do
  let ledger ← Act.state
  let count := (ledger.counters.lookup name).getD 0
  Act.modify fun l => { l with counters := (name, count + 1) :: l.counters.eraseP (·.1 == name) }
  return .int (Int64.ofNat count)

/-- Puts a datum on the log. -/
def log (d : Datum) : Doing Datum := do
  Act.modify fun l => { l with log := d :: l.log }
  return d

/-- What an operator makes of its operands.  Integers wrap; the remainder is never negative. -/
def Operator.applyTo (op : Operator) (operands : List Datum) : Doing Datum :=
  match op, operands with
  | add, [.int a, .int b] => return .int (a + b)
  | sub, [.int a, .int b] => return .int (a - b)
  | mul, [.int a, .int b] => return .int (a * b)
  | mod, [.int a, .int b] =>
    if b = 0 then badOperands op.word else return .int (Int64.ofInt (a.toInt % b.toInt))
  | lt, [.int a, .int b] => return .bool (a < b)
  | eq, [a, b] => return .bool (a == b)
  | not, [.bool b] => return .bool !b
  | len, [.str s] => return .int (Int64.ofNat s.length)
  | len, [.list items] => return .int (Int64.ofNat items.length)
  | cat, ds => return .str (String.join (ds.map Datum.display))
  | shown, [d] => return .str d.display
  | list, ds => return .list ds
  | push, [.list items, d] => return .list (items ++ [d])
  | pair, [a, b] => return .pair a b
  | fst, [.pair a _] => return a
  | snd, [.pair _ b] => return b
  | success, [d] => return .outcome (.success d)
  | failure, [d] => return .outcome (.failure d)
  | bippy, [d] => return .bippy d
  | notBippy, [d] => return .notBippy d
  | seq, ds => return ds.getLast?.getD .unit
  | log, [d] => Script.log d
  | tick, [.str name] => Script.tick name
  | raise, [d] => .raise d.own
  | raiseLiteral, [d] => .raise (.literal d.display)
  | raiseDatum, [d] => .raise d.dynamic
  | _, _ => badOperands op.word

/-! ## Effects that pass under a type they are not of -/

/-- The same tree, declared with other types. -/
def redeclare {D K : Type} {R E A R' E' A' : Ty} (e : Effect D K R E A) : Effect D K R' E' A' :=
  ⟨e.node⟩

/-- An effect of values of type `wide`, declared as `narrow` and consumed as such. -/
def recastValue {env : Ty} (e : Plan env) (consumer : ValueConsumer) : Plan env :=
  let wide : Effect Datum Closure env .dynamic (.named "wide") := e.map (.convert .wide)
  let narrow : Effect Datum Closure env .dynamic (.named "narrow") := redeclare wide
  let unit : Plan env := .succeed (Datum.dynamic .unit)
  match consumer with
  | .map => narrow.map (.convert .dynamic)
  | .andThen => narrow.andThen .succeeds
  | .zip => (unit.zip narrow).map (.convertSecond .dynamic)
  | .fold => narrow.fold (.convert .dynamic) (.convert .dynamic)
  | .either =>
    let outcomes : Effect Datum Closure env .dynamic (.outcome .dynamic (.named "narrow")) :=
      narrow.either
    outcomes.map (.convert .dynamic)
  | .matchTypes => narrow.matchTypes

/-- An effect of errors of type `wide`, declared as `narrow` and consumed as such. -/
def recastError {env : Ty} (e : Plan env) (consumer : ErrorConsumer) : Plan env :=
  let wide : Effect Datum Closure env (.named "wide") .dynamic := e.mapError (.convert .wide)
  let narrow : Effect Datum Closure env (.named "narrow") .dynamic := redeclare wide
  match consumer with
  | .mapError => narrow.mapError (.convert .dynamic)
  | .recover => narrow.recover .succeeds
  | .orDie => narrow.orDie
  | .swap =>
    let mapped : Plan env := narrow.swap.map (.convert .dynamic)
    mapped.mapError (.convert .dynamic)

/-! ## Evaluating and building -/

/-- The names of the arguments of a function of `n` arguments. -/
def argumentNames (n : Nat) : List String :=
  (List.range n).map fun i => "a" ++ toString (i + 1)

/-- Goes round `count` times, with the number of the round. -/
def rounds (f : Nat → α → Doing α) : (count round : Nat) → α → Doing α
  | 0, _, a => return a
  | count + 1, round, a => do rounds f count (round + 1) (← f round a)

/-- The datum that is written out. -/
def Literal.datum : Literal → Datum
  | unit => .unit
  | bool b => .bool b
  | int n => .int n
  | str s => .str s

mutual

/-- The datum that an expression computes. -/
def Expr.eval (scope : Scope) : Expr → Doing Datum
  | .literal l => return l.datum
  | .var name => scope.datum name
  | .apply op operands => do op.applyTo (← evalAll scope operands)
  | .cond test yes no => do
    match ← test.eval scope with
    | .bool true => yes.eval scope
    | .bool false => no.eval scope
    | _ => badOperands "if"
  | .effect env recipe => do return .effect env (← recipe.build env scope).node
  | .run recipe => do
    let plan ← recipe.build .unit scope
    return .ofValue (← plan.run)

/-- The data of some expressions, from left to right. -/
def evalAll (scope : Scope) : List Expr → Doing (List Datum)
  | [] => return []
  | e :: es => do
    let d ← e.eval scope
    return d :: (← evalAll scope es)

/-- The data of named expressions, from left to right. -/
def evalNamed (scope : Scope) : List (String × Expr) → Doing (List (String × Datum))
  | [] => return []
  | (name, e) :: es => do
    let d ← e.eval scope
    return (name, d) :: (← evalNamed scope es)

/-- The effect that a recipe builds for environments of this type. -/
def Recipe.build (env : Ty) (scope : Scope) : Recipe → Doing (Plan env)
  | .succeed v => do return .succeed (← v.eval scope).dynamic
  | .fail e => do return .fail (← e.eval scope).dynamic
  | .ofOutcome o => do
    return .ofOutcome (Datum.dynamicOutcome (← o.eval scope).toOutcome)
  | .ofOption (some v) _ => do return .succeed (← v.eval scope).dynamic
  | .ofOption none e => return .ofOption none (.function [] e .dynamic scope)
  | .halt c => do Effect.halt (← c.eval scope)
  | .haltWith c => return .haltWith (.cause c scope)
  | .die v => do return .die (← v.eval scope).own
  | .dieDatum v => do return .die (← v.eval scope).dynamic
  | .total body => return .total (.function [] body .dynamic scope)
  | .attempt body => return .attempt (.function [] body .dynamic scope)
  | .access x body => return .access (.function [x] body .dynamic scope)
  | .accessM x body => return .accessM (.builder [x] env body scope)
  | .accessOutcome x body => return .accessOutcome (.function [x] body .dynamic scope)
  | .environment =>
    let read : Effect Datum Closure env .dynamic env := .environment
    return read.map (.convert .dynamic)
  | .applied args named body => do
    let data ← evalAll scope args
    let positional : Flow := .tuple (data.map Datum.dynamic)
    let T := Ty.tuple (data.map fun _ => Ty.dynamic)
    match named with
    | none =>
      let f : Plan (.arguments T) :=
        .ofFunction (.function (argumentNames data.length) body .dynamic scope)
      return f.provide (.arguments positional [])
    | some named =>
      let entries ← evalNamed scope named
      let f : Plan (.arguments T) := .ofCallFunction (.callFunction body scope)
      let named := NamedArguments.ofList (entries.map fun e => (e.1, e.2.own))
      return f.provide (.arguments positional named)
  | .function wholeCall body =>
    if h : env = .arguments (.tuple [.dynamic, .dynamic]) then
      return if wholeCall then h ▸ .ofCallFunction (.callFunction body scope)
        else h ▸ .ofFunction (.function (argumentNames 2) body .dynamic scope)
    else badProgram "not a function of two arguments"
  | .ref name => scope.plan name env
  | .letIn name bound body => do
    let e ← bound.build env scope
    body.build env ((name, .effect env e.node) :: scope)
  | .bind x v body => do
    let d ← v.eval scope
    body.build env ((x, .datum d) :: scope)
  | .cond test yes no => do
    match ← test.eval scope with
    | .bool true => yes.build env scope
    | .bool false => no.build env scope
    | _ => badOperands "if"
  | .fixIn name x function body => body.build env ((name, .function x function scope) :: scope)
  | .call name arg => do
    let d ← arg.eval scope
    let f ← scope.builder name env
    return ⟨← Act.callFor f [d.dynamic]⟩
  | .iterate first count x name step => do
    rounds (fun i acc => step.build env
      ((name, .effect env acc.node) :: (x, .datum (.int (Int64.ofNat i))) :: scope))
      count 0 (← first.build env scope)
  | .provide inner v recipe => do
    let d ← v.eval scope
    match d.asEnvironment? inner with
    | some value =>
      let e ← recipe.build inner scope
      return e.provide value
    | none => badProgram "not an environment of its type"
  | .swapEnvironments outer recipe => do
    let e ← recipe.build outer scope
    let nested : Effect Datum Closure outer .dynamic (.effect env .dynamic .dynamic) :=
      e.map (.convert (.effect env))
    let swapped : Effect Datum Closure env .dynamic (.effect outer .dynamic .dynamic) :=
      nested.swapEnvironments
    return swapped.map (.convert .dynamic)
  | .recastEnvironment recipe => do
    if env = .named "wide" then
      return redeclare (← recipe.build (.named "narrow") scope)
    else badProgram "not the type wide"
  | .behind recipe c => do c.put env scope (← recipe.build env scope)

/-- The cause that an expression describes. -/
def CauseExpr.eval (scope : Scope) : CauseExpr → Doing (Cause Flow)
  | .fail e => do return .fail (← e.eval scope).dynamic
  | .die v => do return .dieWith (← v.eval scope).own
  | .dieDatum v => do return .dieWith (← v.eval scope).dynamic
  | .dieLiteral v => do return .dieWith (.literal (← v.eval scope).display)

/-- The effect with a combinator behind it. -/
def Combinator.put (env : Ty) (scope : Scope) (c : Combinator) (e : Plan env) :
    Doing (Plan env) :=
  match c with
  | .map x body => return e.map (.function [x] body .dynamic scope)
  | .mapError x body => return e.mapError (.function [x] body .dynamic scope)
  | .andThen x body => return e.andThen (.builder [x] env body scope)
  | .recover x body => return e.recover (.builder [x] env body scope)
  | .followedBy that => do
    let that ← that.build env scope
    return e.followedBy that
  | .orElse that => do
    let that ← that.build env scope
    return e.orElse that
  | .zip that => do
    let that ← that.build env scope
    return (e.zip that).map (.convert .dynamic)
  | .zipWith that x y body => do
    let that ← that.build env scope
    return e.zipWith that (.function [x, y] body .dynamic scope)
  | .fold x onFailure y onSuccess =>
    return e.fold (.function [x] onFailure .dynamic scope) (.function [y] onSuccess .dynamic scope)
  | .foldM x onFailure y onSuccess =>
    return e.foldM (.builder [x] env onFailure scope) (.builder [y] env onSuccess scope)
  | .foldCause x onFail onDie y onSuccess =>
    return e.foldCause (.handler x env onFail onDie scope)
      (match onSuccess with
        | some body => .builder [y] env body scope
        | none => .succeeds)
  | .either =>
    let outcomes : Effect Datum Closure env .dynamic (.outcome .dynamic .dynamic) := e.either
    return outcomes.map (.convert .dynamic)
  | .absolve =>
    let outcomes : Effect Datum Closure env .dynamic (.outcome .dynamic .dynamic) :=
      e.map (.convert .outcome)
    return outcomes.absolve
  | .swap => return e.swap
  | .flatten =>
    let effects : Effect Datum Closure env .dynamic (.effect env .dynamic .dynamic) :=
      e.map (.convert (.effect env))
    -- a datum that is no effect of this type has become the effect that succeeds with it
    return effects.flatten
  | .orDie form =>
    if form = .dynamic then return e.orDie
    else
      let errors : Effect Datum Closure env form.type .dynamic := e.mapError (.convert form)
      return errors.orDie
  | .matchTypes form =>
    if form = .dynamic then return e.matchTypes
    else
      let values : Effect Datum Closure env .dynamic form.type := e.map (.convert form)
      return values.matchTypes
  | .atType type case => do
    let case ← case.build type scope
    return e.atType case
  | .require x passes error =>
    return e.require (.function [x] passes .dynamic scope) (.function [x] error .dynamic scope)
  | .assert x passes payload form =>
    return e.assert (.function [x] passes .dynamic scope) (.function [x] payload form scope)
  | .narrow payload => return e.narrow payload (.convert .dynamic)
  | .recastValue consumer => return recastValue e consumer
  | .recastError consumer => return recastError e consumer

end

end EffectMachine.Script
