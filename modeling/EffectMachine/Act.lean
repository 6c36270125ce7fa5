/-
  Acts: what a closure does when it is called.

  A closure may do more than compute: it reads and writes the state it shares with other closures,
  it may raise instead of returning, and it may run an effect of its own.  An `Act` is such a
  course of action written down as a tree: the node at the root says what is done first, and its
  branches, one for every answer, what is done then.  Nothing happens while an act is put together;
  `Act.exec` plays it against a `World`.

  Two things an act asks for are not the act's own business, to run an effect and to call another
  closure for the effect it builds.  `exec` takes them as a parameter, the `Callees`, each of which
  answers `none` if it comes to no end.

  What is raised is a value, and lies outside of `α`: playing an act ends in `.ok a`, or in
  `.error payload` for an act that raised.

  What an act sees of the world is the shared state, and of the cells those it has asked for
  itself.  The trace and the cells the library makes use of are out of its sight, so that they have
  no part in what a program results in.
-/
import EffectMachine.Runner
import EffectMachine.Trace

namespace EffectMachine

/-- How an evaluation ends that is not cut short by raising: a value, or a cause. -/
abbrev Ending (D K : Type) : Type := Outcome (Cause (Value D K)) (Value D K)

/-- What is raised, or what is returned. -/
abbrev Raised (D K α : Type) : Type := Except (Value D K) α

/-- A course of action that returns an `α`. -/
inductive Act (D K σ α : Type) : Type where
  | done (a : α)
  | raise (payload : Value D K)
  /-- Look at the shared state. -/
  | look (k : σ → Act D K σ α)
  /-- Replace the shared state. -/
  | write (s : σ) (k : Act D K σ α)
  /-- A new cell, for a cause to be handed over once. -/
  | newCell (k : Nat → Act D K σ α)
  /-- Evaluate a node on a runner, with an environment bound for this once if one is given; the
      answer is the runner after it, and how it ended. -/
  | run (runner : Runner D K) (env : Option (Value D K)) (node : Node D K)
      (k : Runner D K → Raised D K (Ending D K) → Act D K σ α)
  /-- Call a closure for the node it builds. -/
  | build (f : K) (args : List (Value D K)) (k : Raised D K (Node D K) → Act D K σ α)

namespace Act

variable {D K σ α β : Type}

/-! ## Acts in sequence -/

/-- One act, and then another that may depend on what the first returned. -/
protected def bind (act : Act D K σ α) (f : α → Act D K σ β) : Act D K σ β :=
  match act with
  | done a => f a
  | raise p => raise p
  | look k => look fun s => (k s).bind f
  | write s k => write s (k.bind f)
  | newCell k => newCell fun c => (k c).bind f
  | run r env n k => run r env n fun r' e => (k r' e).bind f
  | build g args k => build g args fun n => (k n).bind f

/-- An act that does as `act` does, except that it goes on as `handler` says where `act` raises. -/
protected def tryCatch (act : Act D K σ α) (handler : Value D K → Act D K σ α) : Act D K σ α :=
  match act with
  | done a => done a
  | raise p => handler p
  | look k => look fun s => (k s).tryCatch handler
  | write s k => write s (k.tryCatch handler)
  | newCell k => newCell fun c => (k c).tryCatch handler
  | run r env n k => run r env n fun r' e => (k r' e).tryCatch handler
  | build g args k => build g args fun n => (k n).tryCatch handler

instance : Monad (Act D K σ) where
  pure := done
  bind := Act.bind

instance : MonadExcept (Value D K) (Act D K σ) where
  throw := raise
  tryCatch := Act.tryCatch

protected theorem bind_done (act : Act D K σ α) : act.bind done = act := by
  induction act with
  | done a => rfl
  | raise p => rfl
  | write s k ih => simp [Act.bind, ih]
  | look k ih | newCell k ih | run r env n k ih | build g args k ih =>
    simp [Act.bind, ih]

protected theorem bind_assoc {γ : Type} (act : Act D K σ α) (f : α → Act D K σ β)
    (g : β → Act D K σ γ) : (act.bind f).bind g = act.bind fun a => (f a).bind g := by
  induction act with
  | done a => rfl
  | raise p => rfl
  | write s k ih => simp [Act.bind, ih]
  | look k ih | newCell k ih | run r env n k ih | build h args k ih =>
    simp [Act.bind, ih]

instance : LawfulMonad (Act D K σ) :=
  LawfulMonad.mk' _ Act.bind_done (fun _ _ => rfl) Act.bind_assoc

/-! ## The questions an act can ask -/

/-- The shared state. -/
def state : Act D K σ σ := look done

/-- Changes the shared state. -/
def modify (f : σ → σ) : Act D K σ Unit := look fun s => write (f s) (done ())

/-- A new cell, for a cause to be handed over once. -/
def cell : Act D K σ Nat := newCell done

/-- Goes on with what was returned, and raises what was raised. -/
def ofRaised : Raised D K α → Act D K σ α
  | .ok a => done a
  | .error p => raise p

/-- The node that a closure builds from these arguments. -/
def callFor (f : K) (args : List (Value D K)) : Act D K σ (Node D K) := build f args ofRaised

/-- An act that never raises: it returns the defect made of what `act` raises. -/
def capture (act : Act D K σ α) : Act D K σ (Except (Defect (Value D K)) α) :=
  Act.tryCatch (act.bind fun a => done (.ok a)) fun p => done (.error (Defect.ofRaised p))

end Act

/-! ## Playing an act -/

/-- What acts are played against. -/
structure World (σ : Type) where
  /-- The state closures share. -/
  state : σ
  /-- For every cell an act has asked for, whether it has been taken. -/
  halts : Array Bool
  /-- For every cell the library has made use of, whether it has been taken. -/
  cells : Array Bool
  /-- What runs have reported, the latest first. -/
  trace : List Event

namespace World

variable {σ : Type}

/-- A world in which nothing has happened. -/
def start (s : σ) : World σ := ⟨s, #[], #[], []⟩

/-- Puts an event on the trace. -/
def report (w : World σ) (e : Event) : World σ := { w with trace := e :: w.trace }

end World

/-- What an act relies on: how effects are run, and what closures build. -/
structure Callees (D K σ : Type) where
  run : Runner D K → Option (Value D K) → Node D K → World σ →
    Option (Raised D K (Ending D K) × Runner D K × World σ)
  build : K → List (Value D K) → World σ → Option (Raised D K (Node D K) × World σ)

namespace Callees

variable {D K σ : Type}

/-- Callees that come to no end. -/
def none : Callees D K σ := ⟨fun _ _ _ _ => .none, fun _ _ _ => .none⟩

end Callees

variable {D K σ α : Type}

/-- Plays an act: what it returned or raised, and the world after it. -/
def Act.exec (callees : Callees D K σ) : Act D K σ α → World σ → Option (Raised D K α × World σ)
  | done a, w => some (.ok a, w)
  | raise p, w => some (.error p, w)
  | look k, w => exec callees (k w.state) w
  -- the world is taken apart here, so that its arrays have one owner and grow in place
  | write s k, ⟨_, halts, cells, trace⟩ => exec callees k ⟨s, halts, cells, trace⟩
  | newCell k, ⟨s, halts, cells, trace⟩ =>
    exec callees (k halts.size) ⟨s, halts.push false, cells, trace⟩
  | run r env n k, w =>
    match callees.run r env n w with
    | some (ending, r', w') => exec callees (k r' ending) w'
    | none => none
  | build f args k, w =>
    match callees.build f args w with
    | some (node, w') => exec callees (k node) w'
    | none => none

namespace Act

@[simp] theorem exec_pure (callees : Callees D K σ) (a : α) (w : World σ) :
    (pure a : Act D K σ α).exec callees w = some (.ok a, w) := rfl

/-- A sequence of two acts is played one after the other, unless the first one raises. -/
theorem exec_bind {β : Type} (callees : Callees D K σ) (act : Act D K σ α)
    (f : α → Act D K σ β) (w : World σ) :
    (act >>= f).exec callees w =
      match act.exec callees w with
      | some (.ok a, w) => (f a).exec callees w
      | some (.error p, w) => some (.error p, w)
      | none => none := by
  change (act.bind f).exec callees w = _
  induction act generalizing w with
  | done a => rfl
  | raise p => rfl
  | look k ih => simp [Act.bind, exec, ih]
  | write s k ih => simp [Act.bind, exec, ih]
  | newCell k ih => simp [Act.bind, exec, ih]
  | run r env n k ih => simp only [Act.bind, exec]; split <;> simp [*]
  | build g args k ih => simp only [Act.bind, exec]; split <;> simp [*]

/-- What `capture` returns in the place of raising is the defect of what was raised. -/
theorem exec_capture (callees : Callees D K σ) (act : Act D K σ α) (w : World σ) :
    act.capture.exec callees w =
      (act.exec callees w).map fun (r, w) => (.ok (r.mapError Defect.ofRaised), w) := by
  unfold capture
  induction act generalizing w with
  | done a => rfl
  | raise p => rfl
  | look k ih => simp [Act.bind, Act.tryCatch, exec, ih]
  | write s k ih => simp [Act.bind, Act.tryCatch, exec, ih]
  | newCell k ih => simp [Act.bind, Act.tryCatch, exec, ih]
  | run r env n k ih => simp only [Act.bind, Act.tryCatch, exec]; split <;> simp [*]
  | build g args k ih => simp only [Act.bind, Act.tryCatch, exec]; split <;> simp [*]

end Act

end EffectMachine
