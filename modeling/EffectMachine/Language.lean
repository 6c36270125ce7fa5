/-
  Languages: what closures mean, and what the library's own functions do.

  A `Language` gives every closure its meanings, one for each of the roles a closure can have: it
  can be a function to values, a test, a function to outcomes, a function to effects, a handler of
  causes, or a producer of causes.  Each meaning is an act, so a closure may use shared state,
  raise, and run effects.  Nothing more is assumed of a language.

  On top of it this file says what the slots, sources, links, continuations and handlers of `Node`
  do.  What a play of theirs raises, a closure has raised.  Where the library makes a node for a
  single evaluation, it takes a new cell for it on the spot.
-/
import EffectMachine.Play

namespace EffectMachine

/-- The meanings of closures, by the role a closure is called in. -/
class Language (D K : Type) (σ : outParam Type) where
  /-- A function of some values to a value. -/
  value : K → List (Value D K) → Act D K σ (Value D K)
  /-- A test of a value. -/
  test : K → Value D K → Act D K σ Bool
  /-- A function of a value to an outcome. -/
  outcome : K → Value D K → Act D K σ (Outcome (Value D K) (Value D K))
  /-- A function of some values to the tree of an effect. -/
  effect : K → List (Value D K) → Act D K σ (Node D K)
  /-- A function of a cause to the tree of an effect. -/
  handler : K → Cause (Value D K) → Act D K σ (Node D K)
  /-- A producer of causes. -/
  cause : K → Act D K σ (Cause (Value D K))

variable {D K σ : Type}

/-! ## Nodes made while running -/

namespace Node

/-- Succeeds with the value, once. -/
def succeedOnce (v : Value D K) : Play D K σ (Node D K) := do
  return succeed (.once (← Play.cell) v)

/-- Ends in the cause, once. -/
def haltOnce (c : Cause (Value D K)) : Play D K σ (Node D K) := do
  return failCause (.once (← Play.cell) c)

/-- Dies of a fault, as often as it is evaluated. -/
def ofFault (f : Fault) : Node D K := failCause (.shared (.ofFault f))

/-- Succeeds or fails, once, as the outcome says. -/
def ofOutcomeOnce : Outcome (Value D K) (Value D K) → Play D K σ (Node D K)
  | .success a => succeedOnce a
  | .failure e => haltOnce (.fail e)

end Node

/-! ## Slots and sources -/

/-- The value of a slot, unless it was for one evaluation and that has been. -/
def Slot.take : Slot D K → Play D K σ (Option (Value D K))
  | shared v => return some v
  | once c v => return if ← Play.take c then some v else none

/-- The ending of a node that succeeds with the value of a slot. -/
def Slot.settle (slot : Slot D K) : Play D K σ (Ending D K) := do
  match ← slot.take with
  | some v => return .success v
  | none => return .failure (.ofFault .alreadyConsumed)

/-- The cause of a source. -/
def Source.take [Language D K σ] : Source D K → Play D K σ (Cause (Value D K))
  | shared c => return c
  | halted c cause => return if ← Play.takeHalt c then cause else .ofFault .alreadyConsumed
  | once c cause => return if ← Play.take c then cause else .ofFault .alreadyConsumed
  | made f => Play.act (Language.cause f)
  | failing f => return .fail (← Play.act (Language.value f []))

/-! ## Links -/

/-- Two values joined: in a pair, or by the closure if one is given. -/
def joined [Language D K σ] (join : Option K) (a b : Value D K) : Play D K σ (Value D K) :=
  match join with
  | none => return .pair a b
  | some f => Play.act (Language.value f [a, b])

/-- The node that follows on a value. -/
def Link.follow [Language D K σ] (link : Link D K) (v : Value D K) : Play D K σ (Node D K) :=
  match link with
  | now => Node.succeedOnce v
  | nowOf f => do Node.succeedOnce (← Play.act (Language.value f [v]))
  | nowSuccess e a => Node.succeedOnce (.outcome e a (.success v))
  | nowFailure e a => Node.succeedOnce (.outcome e a (.failure v))
  | failNow => Node.haltOnce (.fail v)
  | call f => Play.act (Language.effect f [v])
  | outcomeOf f => do Node.ofOutcomeOnce (← Play.act (Language.outcome f v))
  | replace that => return that
  | zip that t how => return .flatMap that (.typedOnce (← Play.cell) t (.join v how))
  | join a how => do Node.succeedOnce (← joined how a v)
  | require passes error => do
    if ← Play.act (Language.test passes v) then Node.succeedOnce v
    else Node.haltOnce (.fail (← Play.act (Language.value error [v])))
  | assert passes payload => do
    if ← Play.act (Language.test passes v) then Node.succeedOnce v
    else Node.haltOnce (.dieWith (← Play.act (Language.value payload [v])))
  | absolve =>
    match v with
    | .outcome _ _ o => Node.ofOutcomeOnce o
    | v => return .ofFault (.valueMismatch v.type.name)
  | flatten =>
    match v with
    | .effect _ _ _ inner => return inner
    | v => return .ofFault (.valueMismatch v.type.name)
  | provide env =>
    match v with
    | .effect _ _ _ inner => return .provide (.shared env) inner
    | v => return .ofFault (.valueMismatch v.type.name)
  | supply outer r s e a =>
    Node.succeedOnce
      (.effect r e a (.flatMap outer (.typed (.effect s e a) (.provide v))))
  | park => Node.haltOnce (.dieWith (.unmatched (.ofValue v)))
  | applyTo f =>
    match v with
    | .arguments positional _ => return .attempt f positional.components
    | v => return .attempt f [v]
  | applyWhole f => return .attempt f [v]

/-- Follows a link if the value is of the expected type, and dies if not. -/
def Link.followTyped [Language D K σ] (type : Ty) (link : Link D K) (v : Value D K) :
    Play D K σ (Node D K) :=
  match v.cast? type with
  | some v => link.follow v
  | none => return .ofFault (.valueMismatch type.name)

/-- The node that follows on the environment bound innermost, or on there being none. -/
def Link.followEnvironment [Language D K σ] (type : Ty) (link : Link D K) :
    Option (Value D K) → Play D K σ (Node D K)
  | none => return .ofFault (.missingEnvironment type.name)
  | some env => match env.cast? type with
    | some env => link.follow env
    | none => return .ofFault (.environmentMismatch type.name)

/-! ## Continuations and handlers -/

/-- The node that follows on a success. -/
def Continuation.resume [Language D K σ] (k : Continuation D K) (v : Value D K) :
    Play D K σ (Node D K) :=
  match k with
  | passThrough => Node.succeedOnce v
  | typed type link => link.followTyped type v
  | typedOnce c type link => do
    if ← Play.take c then link.followTyped type v else return .ofFault .alreadyConsumed

/-- The node that follows on a cause. -/
def Handler.resume [Language D K σ] (h : Handler D K) (c : Cause (Value D K)) :
    Play D K σ (Node D K) :=
  match h with
  | mapError error f => do
    Node.haltOnce (← Play.act ((c.typed error).mapM fun e => Language.value f [e]))
  | onCause error f => Play.act (Language.handler f (c.typed error))
  | onFailure error link =>
    match c.typed error with
    | .fail e => link.follow e
    | .die d => Node.haltOnce (.die d)
  | escalate error =>
    match c.typed error with
    | .fail e => Node.haltOnce (.dieWith e)
    | .die d => Node.haltOnce (.die d)
  | narrow error payload into =>
    match c.typed error with
    | .fail e => Node.haltOnce (.fail e)
    | .die d => match d.cast? payload with
      | some p => do Node.haltOnce (.fail (← Play.act (Language.value into [p])))
      | none => Node.haltOnce (.die d)
  | typeCase error type case =>
    match c.typed error with
    | .fail e => Node.haltOnce (.fail e)
    | .die ⟨.unmatched u, _⟩ => match u.take? type with
      | some v => return .provide (.once (← Play.cell) v) case
      -- the defect is made anew here, and so carries the name of its payload's type
      | none => Node.haltOnce (.dieWith (.unmatched u))
    | .die d => Node.haltOnce (.die d)

end EffectMachine
