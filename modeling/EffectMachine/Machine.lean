/-
  The machine that evaluates nodes.

  It works on three things: what to do next (`Control`), the stack of `Frame`s that wait for the
  ending of the node at hand, and the stack of bound environments.  One step either dispatches a
  node or hands an ending to the topmost frame.  Neither a long chain of continuations nor a deep
  nest of handlers makes a step any larger: what is pending lies on the stack of frames.

  A `restore` frame is pushed for every environment that is bound and holds the depth to go back
  to, so that the environments above it are dropped as the ending passes, whatever the ending is.

  A closure that raises ends the evaluation then and there.  The one exception is an attempted
  closure, whose payload becomes a defect and goes on as an ending.

  How long an evaluation takes is not known beforehand, and it may take forever.  `drive` takes as
  many steps as it is given fuel for, and the runs and calls inside an act take theirs from the
  fuel that is left; `none` is the answer of an evaluation that fuel did not suffice for.
-/
import EffectMachine.Language

namespace EffectMachine

variable {D K σ α : Type}

/-- Something that waits for an ending. -/
inductive Frame (D K : Type) where
  /-- Waits for a success. -/
  | apply (k : Continuation D K)
  /-- Waits for either. -/
  | fold (onCause : Handler D K) (onSuccess : Continuation D K)
  /-- Waits to drop the environments above this depth. -/
  | restore (depth : Nat)

/-- What the machine does next. -/
inductive Control (D K : Type) where
  | dispatch (node : Node D K)
  | settle (ending : Ending D K)

/-- The state of an evaluation. -/
structure Machine (D K : Type) where
  control : Control D K
  /-- The pending frames, the topmost first. -/
  frames : List (Frame D K)
  /-- The bound environments, the innermost last. -/
  environments : Array (Value D K)
  /-- How many nodes have been dispatched. -/
  steps : Nat

/-- Where a step leads. -/
inductive Progress (D K : Type) where
  | running (m : Machine D K)
  /-- The evaluation ended, with these environments bound and after so many steps. -/
  | finished (ending : Raised D K (Ending D K)) (environments : Array (Value D K)) (steps : Nat)

namespace Machine

/-- Goes on as `next` says with what a play returns, and ends the evaluation if it raises. -/
def perform (callees : Callees D K σ) (play : Play D K σ α) (next : α → Machine D K)
    (environments : Array (Value D K)) (steps : Nat) (w : World σ) :
    Option (Progress D K × World σ) :=
  match play callees w with
  | some (.ok a, w) => some (.running (next a), w)
  | some (.error p, w) => some (.finished (.error p) environments steps, w)
  | none => none

/-- The ending of an attempted closure: what it raises becomes a defect, which is reported. -/
def attempted [Language D K σ] (f : K) (args : List (Value D K)) : Play D K σ (Ending D K) := do
  match ← Play.attempt (Language.value f args) with
  | .ok v => return .success v
  | .error p =>
    Play.report .raised
    return .failure (.die (.ofRaised p))

/-- Evaluates one node. -/
def dispatch [Language D K σ] (callees : Callees D K σ) (node : Node D K)
    (frames : List (Frame D K)) (envs : Array (Value D K)) (steps : Nat) (w : World σ) :
    Option (Progress D K × World σ) :=
  match node with
  | .succeed slot =>
    perform callees slot.settle (fun e => ⟨.settle e, frames, envs, steps⟩) envs steps w
  | .failCause source =>
    perform callees source.take (fun c => ⟨.settle (.failure c), frames, envs, steps⟩) envs steps w
  | .total f args =>
    perform callees (Play.act (Language.value f args))
      (fun v => ⟨.settle (.success v), frames, envs, steps⟩) envs steps w
  | .attempt f args =>
    perform callees (attempted f args) (fun e => ⟨.settle e, frames, envs, steps⟩) envs steps w
  | .flatMap inner k => some (.running ⟨.dispatch inner, .apply k :: frames, envs, steps⟩, w)
  | .fold inner h k => some (.running ⟨.dispatch inner, .fold h k :: frames, envs, steps⟩, w)
  | .provide slot inner =>
    match slot.take callees w with
    | some (.ok (some env), w) =>
      let depth := envs.size
      some (.running ⟨.dispatch inner, .restore depth :: frames, envs.push env, steps⟩,
        w.report (.bound (depth + 1)))
    | some (.ok none, w) =>
      some (.running ⟨.settle (.failure (.ofFault .alreadyConsumed)), frames, envs, steps⟩, w)
    | some (.error p, w) => some (.finished (.error p) envs steps, w)
    | none => none
  | .read type link =>
    perform callees (link.followEnvironment type envs.back?)
      (fun n => ⟨.dispatch n, frames, envs, steps⟩) envs steps w

/-- Hands an ending to the topmost frame. -/
def settle [Language D K σ] (callees : Callees D K σ) (ending : Ending D K)
    (frames : List (Frame D K)) (envs : Array (Value D K)) (steps : Nat) (w : World σ) :
    Option (Progress D K × World σ) :=
  match frames with
  | [] => some (.finished (.ok ending) envs steps, w)
  | .restore depth :: frames =>
    some (.running ⟨.settle ending, frames, envs.shrink depth, steps⟩, w.report (.restored depth))
  | .apply k :: frames =>
    match ending with
    | .success v =>
      perform callees (k.resume v) (fun n => ⟨.dispatch n, frames, envs, steps⟩) envs steps w
    -- a failure skips the frame, and no closure is called
    | .failure c => some (.running ⟨.settle (.failure c), frames, envs, steps⟩, w)
  | .fold h k :: frames =>
    perform callees
      (match ending with
        | .success v => k.resume v
        | .failure c => h.resume c)
      (fun n => ⟨.dispatch n, frames, envs, steps⟩) envs steps w

/-- One step. -/
def step [Language D K σ] (callees : Callees D K σ) :
    Machine D K → World σ → Option (Progress D K × World σ)
  | ⟨.dispatch node, frames, envs, steps⟩, w => dispatch callees node frames envs (steps + 1) w
  | ⟨.settle ending, frames, envs, steps⟩, w => settle callees ending frames envs steps w

/-- As many steps as it takes, if the fuel suffices: how the evaluation ended, with what
    environments bound, and after how many dispatched nodes. -/
def drive [Language D K σ] (callees : Callees D K σ) :
    Nat → Machine D K → World σ →
      Option ((Raised D K (Ending D K) × Array (Value D K) × Nat) × World σ)
  | 0, _, _ => none
  | fuel + 1, m, w =>
    match m.step callees w with
    | some (.running m, w) => drive callees fuel m w
    | some (.finished ending envs steps, w) => some ((ending, envs, steps), w)
    | none => none

end Machine

/-! ## Runs -/

namespace Runner

/-- The node that a run begins with: the effect's own, or if an environment is bound for the run
    the node that binds it, once. -/
def entry (env : Option (Value D K)) (node : Node D K) : Play D K σ (Node D K) := do
  match env with
  | some env => return .provide (.once (← Play.cell) env) node
  | none => return node

/-- Evaluates a node on a runner: how it ended, the runner after it, and the world after it.
    The environments bound on the way are dropped in any case; the number of steps is kept, and
    the end reported, if the evaluation was not cut short.  Where there is no room for the frames
    it is cut short before the first node. -/
def evaluate [Language D K σ] (callees : Callees D K σ) (fuel : Nat) (r : Runner D K)
    (node : Node D K) (w : World σ) :
    Option (Raised D K (Ending D K) × Runner D K × World σ) :=
  let base := r.environments.size
  let w := (w.report (.span r.settings.label)).report .enter
  if r.settings.framesFit then
    match Machine.drive callees fuel ⟨.dispatch node, [], r.environments, 0⟩ w with
    | some ((.ok ending, envs, steps), w) =>
      some (.ok ending, ⟨r.settings, envs.shrink base, steps⟩,
        (w.report (.finished steps ending.isSuccess)).report .exit)
    -- a run that was cut short leaves the number of steps as it was
    | some ((.error p, envs, _), w) =>
      some (.error p, { r with environments := envs.shrink base }, w.report .exit)
    | none => none
  else some (.error overflow, r, w.report .exit)

/-- Evaluates a node on a runner, with an environment bound for this once if one is given. -/
def evaluateWith [Language D K σ] (callees : Callees D K σ) (fuel : Nat) (r : Runner D K)
    (env : Option (Value D K)) (node : Node D K) (w : World σ) :
    Option (Raised D K (Ending D K) × Runner D K × World σ) :=
  match entry env node callees w with
  | some (.ok node, w) => r.evaluate callees fuel node w
  | some (.error p, w) => some (.error p, r, w)
  | none => none

end Runner

namespace Callees

/-- The callees that runs and calls nested up to `fuel` deep can be left to. -/
def ofFuel [Language D K σ] : Nat → Callees D K σ
  | 0 => none
  | fuel + 1 =>
    { run := fun r env node w => r.evaluateWith (ofFuel fuel) fuel env node w
      build := fun f args w => (Language.effect f args).exec (ofFuel fuel) w }

end Callees

/-- More steps than any run will take that somebody waits for. -/
def ampleFuel : Nat := 0x4000000000000000

/-- Plays an act together with all that it runs and calls. -/
def Act.perform [Language D K σ] (act : Act D K σ α) (w : World σ) :
    Option (Raised D K α × World σ) :=
  act.exec (Callees.ofFuel ampleFuel) w

end EffectMachine
