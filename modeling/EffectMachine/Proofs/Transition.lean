/-
  The steps of the machine, as rules.

  `Machine.step` says what one step does.  Here the same is said the other way round, by one rule
  for every way in which a step can go, so that whoever argues about steps has these rules to go
  through and need not take the function apart again.  There are two kinds of steps: those that
  lead on to another state (`Leads`) and those that end the evaluation (`Leaves`).

  Three tables keep the rules few.  `Node.leaf?` holds the nodes with no node inside, which all end
  in what is played for them.  `Node.enter?` holds those that put a frame on the stack and go on
  with the node inside.  `Frame.answer?` holds what is played when an ending meets a frame that
  waits for it.

  `Reaches` is the reflexive and transitive closure of steps that lead on, and `Ends` forgets how
  much fuel an evaluation took.
-/
import EffectMachine.Machine
import Mathlib.Logic.Relation

namespace EffectMachine

variable {D K σ α : Type}

/-! ## Tables -/

/-- What is played for a node that has no node inside. -/
def Node.leaf? [Language D K σ] : Node D K → Option (Play D K σ (Ending D K))
  | .succeed slot => some slot.settle
  | .failCause source => some (Outcome.failure <$> source.take)
  | .total f args => some (Outcome.success <$> Play.act (Language.value f args))
  | .attempt f args => some (Machine.attempted f args)
  | _ => none

/-- The node inside, and the frame that waits for its ending. -/
def Node.enter? : Node D K → Option (Node D K × Frame D K)
  | .flatMap inner k => some (inner, .apply k)
  | .fold inner h k => some (inner, .fold h k)
  | _ => none

/-- What is played when this ending meets the frame, if the frame waits for it. -/
def Frame.answer? [Language D K σ] : Frame D K → Ending D K → Option (Play D K σ (Node D K))
  | .apply k, .success v => some (k.resume v)
  | .fold _ k, .success v => some (k.resume v)
  | .fold h _, .failure c => some (h.resume c)
  | _, _ => none

/-- A frame that a node puts on the stack answers to every ending, but for a failure it skips. -/
theorem Frame.skips_of_enter [Language D K σ] {node inner : Node D K} {frame : Frame D K}
    {ending : Ending D K} (henter : node.enter? = some (inner, frame))
    (hframe : frame.answer? (σ := σ) ending = none) :
    ∃ k c, frame = .apply k ∧ ending = .failure c := by
  cases node with
  | flatMap inner k =>
    cases henter
    cases ending with
    | success v => cases hframe
    | failure c => exact ⟨k, c, rfl, rfl⟩
  | fold inner onCause k => cases henter; cases ending <;> cases hframe
  | succeed slot | failCause source | total f args | attempt f args | provide slot inner
  | read type link => cases henter

/-- To bind an environment and go back to the depth before is to do nothing. -/
theorem shrink_push (envs : Array α) (env : α) : (envs.push env).shrink envs.size = envs := by
  rw [Array.shrink_eq_take, Array.take_eq_extract, Array.extract_push_of_le (Nat.le_refl _),
    Array.extract_size]

/-! ## Rules -/

namespace Machine

/-- The steps that lead on. -/
inductive Leads [Language D K σ] (callees : Callees D K σ) :
    Machine D K → World σ → Machine D K → World σ → Prop where
  | leaf {node play ending frames envs steps w w'} (hleaf : node.leaf? = some play)
      (hplay : play callees w = some (.ok ending, w')) :
      Leads callees ⟨.dispatch node, frames, envs, steps⟩ w
        ⟨.settle ending, frames, envs, steps + 1⟩ w'
  | enter {node inner frame frames envs steps w} (henter : node.enter? = some (inner, frame)) :
      Leads callees ⟨.dispatch node, frames, envs, steps⟩ w
        ⟨.dispatch inner, frame :: frames, envs, steps + 1⟩ w
  | bind {slot env inner frames envs steps w w'}
      (htake : slot.take callees w = some (.ok (some env), w')) :
      Leads callees ⟨.dispatch (.provide slot inner), frames, envs, steps⟩ w
        ⟨.dispatch inner, .restore envs.size :: frames, envs.push env, steps + 1⟩
        (w'.report (.bound (envs.size + 1)))
  | consumed {slot inner frames envs steps w w'}
      (htake : slot.take callees w = some (.ok none, w')) :
      Leads callees ⟨.dispatch (.provide slot inner), frames, envs, steps⟩ w
        ⟨.settle (.failure (.ofFault .alreadyConsumed)), frames, envs, steps + 1⟩ w'
  | read {type link next frames envs steps w w'}
      (hplay : link.followEnvironment type envs.back? callees w = some (.ok next, w')) :
      Leads callees ⟨.dispatch (.read type link), frames, envs, steps⟩ w
        ⟨.dispatch next, frames, envs, steps + 1⟩ w'
  | resume {ending frame play next frames envs steps w w'}
      (hframe : frame.answer? ending = some play)
      (hplay : play callees w = some (.ok next, w')) :
      Leads callees ⟨.settle ending, frame :: frames, envs, steps⟩ w
        ⟨.dispatch next, frames, envs, steps⟩ w'
  | skip {c k frames envs steps w} :
      Leads callees ⟨.settle (.failure c), .apply k :: frames, envs, steps⟩ w
        ⟨.settle (.failure c), frames, envs, steps⟩ w
  | restore {ending depth frames envs steps w} :
      Leads callees ⟨.settle ending, .restore depth :: frames, envs, steps⟩ w
        ⟨.settle ending, frames, envs.shrink depth, steps⟩ (w.report (.restored depth))

/-- The steps that end the evaluation: how it ends, after how many dispatched nodes. -/
inductive Leaves [Language D K σ] (callees : Callees D K σ) :
    Machine D K → World σ → Raised D K (Ending D K) → Nat → World σ → Prop where
  | finish {ending envs steps w} :
      Leaves callees ⟨.settle ending, [], envs, steps⟩ w (.ok ending) steps w
  | leaf {node play p frames envs steps w w'} (hleaf : node.leaf? = some play)
      (hplay : play callees w = some (.error p, w')) :
      Leaves callees ⟨.dispatch node, frames, envs, steps⟩ w (.error p) (steps + 1) w'
  | read {type link p frames envs steps w w'}
      (hplay : link.followEnvironment type envs.back? callees w = some (.error p, w')) :
      Leaves callees ⟨.dispatch (.read type link), frames, envs, steps⟩ w (.error p) (steps + 1) w'
  | resume {ending frame play p frames envs steps w w'} (hframe : frame.answer? ending = some play)
      (hplay : play callees w = some (.error p, w')) :
      Leaves callees ⟨.settle ending, frame :: frames, envs, steps⟩ w (.error p) steps w'

/-! ## The rules and the function -/

/-- Where a step that plays something leads: on with what is returned, or out with what is
    raised. -/
theorem perform_eq_some_iff {callees : Callees D K σ} {play : Play D K σ α} {next : α → Machine D K}
    {envs : Array (Value D K)} {steps : Nat} {w w' : World σ} {progress : Progress D K} :
    perform callees play next envs steps w = some (progress, w') ↔
      (∃ a, play callees w = some (.ok a, w') ∧ progress = .running (next a)) ∨
      (∃ p, play callees w = some (.error p, w') ∧ progress = .finished (.error p) envs steps) := by
  unfold perform
  rcases play callees w with _ | ⟨_ | a, w₁⟩ <;> simp <;> grind

/-- To take the value of a slot raises nothing. -/
theorem take_ne_error (slot : Slot D K) (callees : Callees D K σ) (w w' : World σ) (p : Value D K) :
    slot.take callees w ≠ some (.error p, w') := by
  cases slot with
  | shared v => simp [Slot.take, Play.pure_apply]
  | once c v =>
    simp only [Slot.take, Play.bind_apply, Play.take]
    intro h
    cases h

/-- It makes no difference whether a function is applied by the play or by what comes next. -/
theorem perform_map {β : Type} {callees : Callees D K σ} (f : α → β) (play : Play D K σ α)
    (next : β → Machine D K) (envs : Array (Value D K)) (steps : Nat) (w : World σ) :
    perform callees (f <$> play) next envs steps w =
      perform callees play (fun a => next (f a)) envs steps w := by
  rw [map_eq_pure_bind]
  unfold perform
  rw [Play.bind_apply]
  rcases play callees w with _ | ⟨_ | a, w₁⟩ <;> rfl

section Steps

variable [Language D K σ] {callees : Callees D K σ} {frames : List (Frame D K)}
  {envs : Array (Value D K)} {steps : Nat} {w w' : World σ}

/-- A leaf is played, and its ending is settled. -/
theorem step_leaf {node : Node D K} {play : Play D K σ (Ending D K)} (h : node.leaf? = some play) :
    step callees ⟨.dispatch node, frames, envs, steps⟩ w =
      perform callees play (fun e => ⟨.settle e, frames, envs, steps + 1⟩) envs (steps + 1) w := by
  cases node with
  | succeed slot => cases h; rfl
  | failCause source => cases h; rw [perform_map]; rfl
  | total f args => cases h; rw [perform_map]; rfl
  | attempt f args => cases h; rfl
  | flatMap inner k | fold inner onCause k | provide slot inner | read type link => cases h

/-- A node with a part is dispatched by its part, and a frame waits for the ending. -/
theorem step_enter {node inner : Node D K} {frame : Frame D K}
    (h : node.enter? = some (inner, frame)) :
    step callees ⟨.dispatch node, frames, envs, steps⟩ w =
      some (.running ⟨.dispatch inner, frame :: frames, envs, steps + 1⟩, w) := by
  cases node with
  | flatMap inner k => cases h; rfl
  | fold inner onCause k => cases h; rfl
  | succeed slot | failCause source | total f args | attempt f args | provide slot inner
  | read type link => cases h

/-- A frame that answers is popped, and the node it returns is dispatched. -/
theorem step_answer {ending : Ending D K} {frame : Frame D K} {play : Play D K σ (Node D K)}
    (h : frame.answer? ending = some play) :
    step callees ⟨.settle ending, frame :: frames, envs, steps⟩ w =
      perform callees play (fun n => ⟨.dispatch n, frames, envs, steps⟩) envs steps w := by
  cases frame with
  | apply k => cases ending <;> cases h; rfl
  | fold onCause k => cases ending <;> cases h <;> rfl
  | restore depth => cases ending <;> cases h

/-- Every step goes by one of the rules, and one that ends the evaluation leaves the environments
    as they were. -/
theorem step_cases {m : Machine D K} {progress : Progress D K}
    (h : m.step callees w = some (progress, w')) :
    (∃ m', progress = .running m' ∧ Leads callees m w m' w') ∨
      ∃ ending steps, progress = .finished ending m.environments steps ∧
        Leaves callees m w ending steps w' := by
  obtain ⟨control, frames, envs, steps⟩ := m
  cases control with
  | dispatch node =>
    -- the leaves by their table, the other nodes one by one
    cases hleaf : node.leaf? with
    | some play =>
      rw [step_leaf hleaf] at h
      obtain ⟨e, hplay, rfl⟩ | ⟨p, hplay, rfl⟩ := perform_eq_some_iff.mp h
      · exact .inl ⟨_, rfl, .leaf hleaf hplay⟩
      · exact .inr ⟨_, _, rfl, .leaf hleaf hplay⟩
    | none =>
      cases node with
      | succeed slot | failCause source | total f args | attempt f args => cases hleaf
      | flatMap inner k => cases h; exact .inl ⟨_, rfl, .enter rfl⟩
      | fold inner onCause k => cases h; exact .inl ⟨_, rfl, .enter rfl⟩
      | provide slot inner =>
        simp only [step, dispatch] at h
        rcases htake : slot.take callees w with _ | ⟨p | env?, w₁⟩
        · rw [htake] at h; cases h
        · exact absurd htake (take_ne_error slot callees w w₁ p)
        · rw [htake] at h
          cases env? with
          | none => cases h; exact .inl ⟨_, rfl, .consumed htake⟩
          | some env => cases h; exact .inl ⟨_, rfl, .bind htake⟩
      | read type link =>
        obtain ⟨n, hplay, rfl⟩ | ⟨p, hplay, rfl⟩ := perform_eq_some_iff.mp h
        · exact .inl ⟨_, rfl, .read hplay⟩
        · exact .inr ⟨_, _, rfl, .read hplay⟩
  | settle ending =>
    cases frames with
    | nil => cases h; exact .inr ⟨_, _, rfl, .finish⟩
    | cons frame frames =>
      -- the frames that answer by their table, the others by what they do instead
      cases hframe : frame.answer? ending with
      | some play =>
        rw [step_answer hframe] at h
        obtain ⟨n, hplay, rfl⟩ | ⟨p, hplay, rfl⟩ := perform_eq_some_iff.mp h
        · exact .inl ⟨_, rfl, .resume hframe hplay⟩
        · exact .inr ⟨_, _, rfl, .resume hframe hplay⟩
      | none =>
        cases frame with
        | apply k =>
          cases ending with
          | success v => cases hframe
          | failure c => cases h; exact .inl ⟨_, rfl, .skip⟩
        | fold onCause k => cases ending <;> cases hframe
        | restore depth => cases h; exact .inl ⟨_, rfl, .restore⟩

/-- What goes by a rule that leads on is a step. -/
theorem Leads.step_eq {m m' : Machine D K} (h : Leads callees m w m' w') :
    m.step callees w = some (.running m', w') := by
  cases h with
  | leaf hleaf hplay =>
    rw [step_leaf hleaf]
    exact perform_eq_some_iff.mpr (.inl ⟨_, hplay, rfl⟩)
  | enter henter => exact step_enter henter
  | bind htake => simp only [step, dispatch, htake]
  | consumed htake => simp only [step, dispatch, htake]
  | read hplay => exact perform_eq_some_iff.mpr (.inl ⟨_, hplay, rfl⟩)
  | resume hframe hplay =>
    rw [step_answer hframe]
    exact perform_eq_some_iff.mpr (.inl ⟨_, hplay, rfl⟩)
  | skip => rfl
  | restore => rfl

/-- What goes by a rule that ends the evaluation is a step. -/
theorem Leaves.step_eq {m : Machine D K} {ending : Raised D K (Ending D K)} {steps' : Nat}
    (h : Leaves callees m w ending steps' w') :
    m.step callees w = some (.finished ending m.environments steps', w') := by
  cases h with
  | finish => rfl
  | leaf hleaf hplay =>
    rw [step_leaf hleaf]
    exact perform_eq_some_iff.mpr (.inr ⟨_, hplay, rfl⟩)
  | read hplay => exact perform_eq_some_iff.mpr (.inr ⟨_, hplay, rfl⟩)
  | resume hframe hplay =>
    rw [step_answer hframe]
    exact perform_eq_some_iff.mpr (.inr ⟨_, hplay, rfl⟩)

end Steps

/-! ## Many steps -/

section Runs

variable [Language D K σ]

/-- Some number of steps lead from one state of an evaluation, and of the world, to another. -/
def Reaches (callees : Callees D K σ) : Machine D K × World σ → Machine D K × World σ → Prop :=
  Relation.ReflTransGen fun a b => Leads callees a.1 a.2 b.1 b.2

/-- The evaluation comes to an end: how, with which environments bound, and after how many
    dispatched nodes. -/
def Ends (callees : Callees D K σ) (m : Machine D K) (w : World σ)
    (ending : Raised D K (Ending D K)) (envs : Array (Value D K)) (steps : Nat) (w' : World σ) :
    Prop :=
  ∃ fuel, drive callees fuel m w = some ((ending, envs, steps), w')

variable {callees : Callees D K σ} {m m' : Machine D K} {w w' w'' : World σ}
  {ending : Raised D K (Ending D K)} {envs : Array (Value D K)} {steps : Nat}

theorem Reaches.single (h : Leads callees m w m' w') : Reaches callees (m, w) (m', w') :=
  Relation.ReflTransGen.single (b := (m', w')) h

theorem Reaches.tail {a : Machine D K × World σ} (hreach : Reaches callees a (m, w))
    (h : Leads callees m w m' w') : Reaches callees a (m', w') :=
  Relation.ReflTransGen.tail (c := (m', w')) hreach h

theorem Reaches.trans {a b c : Machine D K × World σ} (hab : Reaches callees a b)
    (hbc : Reaches callees b c) : Reaches callees a c :=
  Relation.ReflTransGen.trans hab hbc

/-- An evaluation comes to the same end from the next state. -/
theorem Ends.of_leads (hstep : Leads callees m w m' w')
    (h : Ends callees m' w' ending envs steps w'') : Ends callees m w ending envs steps w'' := by
  obtain ⟨fuel, hdrive⟩ := h
  refine ⟨fuel + 1, ?_⟩
  rw [drive, hstep.step_eq]
  exact hdrive

theorem Ends.of_leaves (h : Leaves callees m w ending steps w') :
    Ends callees m w ending m.environments steps w' := by
  refine ⟨1, ?_⟩
  rw [drive, h.step_eq]

theorem Ends.of_reaches {a b : Machine D K × World σ} (hreach : Reaches callees a b)
    (h : Ends callees b.1 b.2 ending envs steps w'') :
    Ends callees a.1 a.2 ending envs steps w'' := by
  induction hreach using Relation.ReflTransGen.head_induction_on with
  | refl => exact h
  | head hstep _ ih => exact .of_leads hstep ih

/-- Where the fuel suffices, the first step leads on to where less of it suffices, or ends the
    evaluation. -/
theorem drive_cases {fuel : Nat}
    (h : drive callees fuel m w = some ((ending, envs, steps), w')) :
    ∃ less, fuel = less + 1 ∧
      ((∃ m₁ w₁, Leads callees m w m₁ w₁ ∧
          drive callees less m₁ w₁ = some ((ending, envs, steps), w')) ∨
        Leaves callees m w ending steps w' ∧ envs = m.environments) := by
  cases fuel with
  | zero => cases h
  | succ less =>
    refine ⟨less, rfl, ?_⟩
    rw [drive] at h
    rcases hstep : m.step callees w with _ | ⟨progress, v⟩
    · rw [hstep] at h; cases h
    · rw [hstep] at h
      obtain ⟨next, rfl, hleads⟩ | ⟨e, s, rfl, hleaves⟩ := step_cases hstep
      · exact .inl ⟨next, v, hleads, h⟩
      · cases h
        exact .inr ⟨hleaves, rfl⟩

/-- An evaluation that comes to an end passes through a last state, and ends from there. -/
theorem Ends.exists_reaches (h : Ends callees m w ending envs steps w') :
    ∃ last v, Reaches callees (m, w) (last, v) ∧ Leaves callees last v ending steps w' ∧
      envs = last.environments := by
  obtain ⟨fuel, hdrive⟩ := h
  induction fuel generalizing m w with
  | zero => cases hdrive
  | succ fuel ih =>
    obtain ⟨less, hless, ⟨next, v, hleads, hrest⟩ | ⟨hleaves, rfl⟩⟩ := drive_cases hdrive
    · cases hless
      obtain ⟨last, v', hreach, hlast⟩ := ih hrest
      exact ⟨last, v', .head hleads hreach, hlast⟩
    · exact ⟨m, w, .refl, hleaves, rfl⟩

end Runs

end Machine

/-! ## Evaluations on a runner -/

namespace Runner

/-- The state an evaluation on this runner begins in. -/
def start (r : Runner D K) (node : Node D K) : Machine D K :=
  ⟨.dispatch node, [], r.environments, 0⟩

/-- The world an evaluation on this runner begins in, with its span reported. -/
def opened (r : Runner D K) (w : World σ) : World σ :=
  (w.report (.span r.settings.label)).report .enter

variable [Language D K σ] {callees : Callees D K σ} {fuel : Nat} {r r' : Runner D K}
  {node : Node D K} {ending : Raised D K (Ending D K)} {w w' : World σ}

/-- An evaluation that comes to an end had no room for its frames, or the machine came to an end
    that it returns, or to one that it raises. -/
theorem evaluate_cases (h : r.evaluate callees fuel node w = some (ending, r', w')) :
    (r.settings.framesFit = false ∧ ending = .error overflow ∧ r' = r ∧
        w' = (r.opened w).report .exit) ∨
      (r.settings.framesFit = true ∧ ∃ e envs steps w₁,
        Machine.drive callees fuel (r.start node) (r.opened w) = some ((.ok e, envs, steps), w₁) ∧
        ending = .ok e ∧ r' = ⟨r.settings, envs.shrink r.environments.size, steps⟩ ∧
        w' = (w₁.report (.finished steps e.isSuccess)).report .exit) ∨
      (r.settings.framesFit = true ∧ ∃ p envs steps w₁,
        Machine.drive callees fuel (r.start node) (r.opened w) =
          some ((.error p, envs, steps), w₁) ∧
        ending = .error p ∧ r' = { r with environments := envs.shrink r.environments.size } ∧
        w' = w₁.report .exit) := by
  unfold evaluate at h
  cases hfit : r.settings.framesFit with
  | false =>
    simp only [hfit] at h
    cases h
    exact .inl ⟨rfl, rfl, rfl, rfl⟩
  | true =>
    refine .inr ?_
    rcases hdrive : Machine.drive callees fuel (r.start node) (r.opened w) with
      _ | ⟨⟨p | e, envs, steps⟩, w₁⟩ <;>
      (rw [start, opened] at hdrive; simp only [hfit, if_true, hdrive] at h; cases h)
    · exact .inr ⟨rfl, p, envs, steps, w₁, rfl, rfl, rfl, rfl⟩
    · exact .inl ⟨rfl, e, envs, steps, w₁, rfl, rfl, rfl, rfl⟩

/-- Where there is room for the frames and the machine comes to an end, so does the evaluation. -/
theorem evaluate_of_drive (hfit : r.settings.framesFit = true) {envs : Array (Value D K)}
    {steps : Nat}
    (h : Machine.drive callees fuel (r.start node) (r.opened w) =
      some ((ending, envs, steps), w')) :
    ∃ r' w₁, r.evaluate callees fuel node w = some (ending, r', w₁) ∧
      (∀ e, ending = .ok e → r'.lastSteps = steps) ∧
      w₁.state = w'.state ∧ w₁.halts = w'.halts ∧ w₁.cells = w'.cells := by
  simp only [start, opened] at h
  simp only [evaluate, hfit, if_true, h]
  cases ending with
  | ok e =>
    refine ⟨_, _, rfl, ?_, rfl, rfl, rfl⟩
    intro _ _
    rfl
  | error p =>
    refine ⟨_, _, rfl, ?_, rfl, rfl, rfl⟩
    intro e hok
    cases hok

end Runner

end EffectMachine
