/-
  The scopes of environments.

  The machine changes its stack of environments at three points: it binds one when it dispatches a
  node that provides it, it drops some when an ending meets a `restore` frame, and whoever drives it
  drops the rest when the evaluation is over.  This file shows that the three fit together.

  What carries everything is one relation between the two stacks (`Nested`).  It is built like the
  stack of frames: from a base with no frames above it, a frame that waits for an ending leaves the
  environments alone, and a `restore` frame holds the number of environments below the one that was
  bound together with it.  A step keeps the relation to any base for as long as it does not reach
  below that base (`Nested.leads`); so it can be used with the environments an evaluation began
  with, and with those that were bound when a frame was pushed just as well.

  To speak of the time when a frame was pushed one looks back along the steps.  `Pending` says that
  one step pushed the frame, and that it was not taken off by any step since; every frame that lies
  on the stack has such a past (`Reaches.exists_pending`).
-/
import EffectMachine.Proofs.Transition

namespace EffectMachine

variable {D K σ : Type}

/-- The depth that a frame goes back to, if it is there to restore one. -/
def Frame.depth? : Frame D K → Option Nat
  | .restore depth => some depth
  | _ => none

/-- The depths that the pending frames go back to, the topmost first. -/
def Frame.depths (frames : List (Frame D K)) : List Nat := frames.filterMap Frame.depth?

@[simp] theorem Frame.depths_cons_none {frame : Frame D K} {frames : List (Frame D K)}
    (h : frame.depth? = none) : Frame.depths (frame :: frames) = Frame.depths frames := by
  rw [Frame.depths, List.filterMap_cons_none h, Frame.depths]

@[simp] theorem Frame.depths_restore (depth : Nat) (frames : List (Frame D K)) :
    Frame.depths (.restore depth :: frames) = depth :: Frame.depths frames := rfl

/-- A frame that a node puts on the stack does not restore anything. -/
theorem Frame.depth?_of_enter {node inner : Node D K} {frame : Frame D K}
    (h : node.enter? = some (inner, frame)) : frame.depth? = none := by
  cases node with
  | flatMap inner k => cases h; rfl
  | fold inner onCause k => cases h; rfl
  | succeed slot | failCause source | total f args | attempt f args | provide slot inner
  | read type link => cases h

/-- Nor does a frame that answers to an ending. -/
theorem Frame.depth?_of_answer [Language D K σ] {frame : Frame D K} {ending : Ending D K}
    {play : Play D K σ (Node D K)} (h : frame.answer? ending = some play) :
    frame.depth? = none := by
  cases frame with
  | apply k | fold onCause k => rfl
  | restore depth => cases ending <;> cases h

/-! ## Nested scopes -/

/-- Above these environments the frames have bound the further ones there are. -/
inductive Nested (base : Array (Value D K)) : List (Frame D K) → Array (Value D K) → Prop where
  | base : Nested base [] base
  /-- A frame that waits for an ending. -/
  | waits {frame frames envs} (hframe : frame.depth? = none) (h : Nested base frames envs) :
      Nested base (frame :: frames) envs
  /-- A frame that goes back to below the environment bound with it. -/
  | binds {frames envs} (env : Value D K) (h : Nested base frames envs) :
      Nested base (.restore envs.size :: frames) (envs.push env)

namespace Nested

variable {base envs : Array (Value D K)} {frames : List (Frame D K)} {frame : Frame D K}

/-- A frame that waits for an ending takes no part in the nesting. -/
theorem of_waits (h : Nested base (frame :: frames) envs) (hframe : frame.depth? = none) :
    Nested base frames envs := by
  cases h with
  | waits _ h => exact h
  | binds => cases hframe

/-- To drop what is above the depth of the topmost frame is to undo its binding. -/
theorem of_restore {depth : Nat} (h : Nested base (.restore depth :: frames) envs) :
    Nested base frames (envs.shrink depth) := by
  cases h with
  | waits hframe => cases hframe
  | binds env h =>
    rw [shrink_push]
    exact h

/-- The frames go back to the depths from that of the base upwards, one more for each of them. -/
theorem depths_eq (h : Nested base frames envs) :
    (Frame.depths frames).reverse = List.range' base.size (Frame.depths frames).length ∧
      envs.size = base.size + (Frame.depths frames).length := by
  induction h with
  | base => exact ⟨rfl, rfl⟩
  | waits hframe h ih =>
    rw [Frame.depths_cons_none hframe]
    exact ih
  | binds env h ih =>
    obtain ⟨hdepths, hsize⟩ := ih
    rw [Frame.depths_restore, List.reverse_cons, List.length_cons, hdepths, Array.size_push, hsize,
      List.range'_concat, Nat.one_mul]
    exact ⟨rfl, rfl⟩

/-- Where no frame restores anything, nothing more is bound than at the base. -/
theorem eq_base (h : Nested base frames envs) (hframes : Frame.depths frames = []) :
    envs = base := by
  induction h with
  | base => rfl
  | waits hframe h ih =>
    rw [Frame.depths_cons_none hframe] at hframes
    exact ih hframes
  | binds env h ih => cases hframes

/-- To drop all that is above the base leaves the base as it was. -/
theorem shrink_eq (h : Nested base frames envs) : envs.shrink base.size = base := by
  induction h with
  | base => rw [Array.shrink_eq_take, Array.take_eq_extract, Array.extract_size]
  | waits hframe h ih => exact ih
  | @binds frames envs env h ih =>
    have hle : base.size ≤ envs.size := by
      have hsize := h.depths_eq.2
      omega
    rw [Array.shrink_eq_take, Array.take_eq_extract, Array.extract_push_of_le hle,
      ← Array.take_eq_extract, ← Array.shrink_eq_take, ih]

end Nested

namespace Machine

variable [Language D K σ] {callees : Callees D K σ} {m m' : Machine D K} {w w' : World σ}

/-! ## What a step does to the frames -/

/-- A step pushes one frame, or takes one off, or leaves the frames alone. -/
theorem Leads.frames_cases (h : Leads callees m w m' w') :
    m'.frames = m.frames ∨ (∃ frame, m'.frames = frame :: m.frames) ∨
      ∃ frame, m.frames = frame :: m'.frames := by
  cases h with
  | leaf | consumed | read => exact .inl rfl
  | enter | bind => exact .inr (.inl ⟨_, rfl⟩)
  | resume | skip | restore => exact .inr (.inr ⟨_, rfl⟩)

/-- A frame is pushed for a node with a node inside, with the environments as they are, or for an
    environment that is bound at the same time. -/
theorem Leads.push_cases {frame : Frame D K} (h : Leads callees m w m' w')
    (hpush : m'.frames = frame :: m.frames) :
    (∃ node inner, m.control = .dispatch node ∧ node.enter? = some (inner, frame) ∧
        m'.environments = m.environments) ∨
      ∃ slot inner env w₁, m.control = .dispatch (.provide slot inner) ∧
        slot.take callees w = some (.ok (some env), w₁) ∧
        frame = .restore m.environments.size ∧ m'.environments = m.environments.push env := by
  cases h with
  | enter henter =>
    cases hpush
    exact .inl ⟨_, _, rfl, henter, rfl⟩
  | bind htake =>
    cases hpush
    exact .inr ⟨_, _, _, _, rfl, htake, rfl, rfl⟩
  | leaf | consumed | read => exact absurd hpush.symm (List.cons_ne_self _ _)
  | resume | skip | restore =>
    have hlength := congrArg List.length hpush
    simp only [List.length_cons] at hlength
    omega

/-- A frame that is taken off is not one of those below, where these are all there still. -/
theorem exists_cons_of_length_le {frame : Frame D K} {frames newer below : List (Frame D K)}
    (hframes : frame :: frames = newer ++ below) (hover : below.length ≤ frames.length) :
    ∃ newer', newer = frame :: newer' ∧ frames = newer' ++ below := by
  rcases newer with _ | ⟨top, newer'⟩
  · have hlength := congrArg List.length hframes
    simp only [List.nil_append, List.length_cons] at hlength
    omega
  · cases hframes
    exact ⟨newer', rfl, rfl⟩

/-- Scopes stay nested in their base for as long as no step reaches below it. -/
theorem Leads.nested {base : Array (Value D K)} {newer below : List (Frame D K)}
    (h : Leads callees m w m' w') (hframes : m.frames = newer ++ below)
    (hnested : Nested base newer m.environments) (hover : below.length ≤ m'.frames.length) :
    ∃ newer', m'.frames = newer' ++ below ∧ Nested base newer' m'.environments := by
  cases h with
  | leaf | consumed | read => exact ⟨newer, hframes, hnested⟩
  | @enter _ _ frame _ _ _ _ henter =>
    refine ⟨frame :: newer, congrArg (frame :: ·) hframes, ?_⟩
    exact .waits (Frame.depth?_of_enter henter) hnested
  | @bind _ env _ _ envs =>
    refine ⟨.restore envs.size :: newer, congrArg (Frame.restore envs.size :: ·) hframes, ?_⟩
    exact .binds env hnested
  | resume hframe =>
    obtain ⟨newer', rfl, rfl⟩ := exists_cons_of_length_le hframes hover
    exact ⟨newer', rfl, hnested.of_waits (Frame.depth?_of_answer hframe)⟩
  | skip =>
    obtain ⟨newer', rfl, rfl⟩ := exists_cons_of_length_le hframes hover
    exact ⟨newer', rfl, hnested.of_waits rfl⟩
  | restore =>
    obtain ⟨newer', rfl, rfl⟩ := exists_cons_of_length_le hframes hover
    exact ⟨newer', rfl, hnested.of_restore⟩

/-! ## Frames that are pending -/

/-- Some number of steps, none of which takes off one of the lowest `height` frames. -/
def ReachesOver (callees : Callees D K σ) (height : Nat) :
    Machine D K × World σ → Machine D K × World σ → Prop :=
  Relation.ReflTransGen fun a b =>
    Leads callees a.1 a.2 b.1 b.2 ∧ height ≤ b.1.frames.length

/-- Scopes stay nested in their base along all steps that do not reach below it. -/
theorem ReachesOver.nested {base : Array (Value D K)} {below : List (Frame D K)}
    (newer : List (Frame D K)) {a b : Machine D K × World σ}
    (h : ReachesOver callees below.length a b) (hframes : a.1.frames = newer ++ below)
    (hnested : Nested base newer a.1.environments) :
    ∃ newer', b.1.frames = newer' ++ below ∧ Nested base newer' b.1.environments := by
  induction h with
  | refl => exact ⟨newer, hframes, hnested⟩
  | tail _ hstep ih =>
    obtain ⟨newer', hframes', hnested'⟩ := ih
    exact hstep.1.nested hframes' hnested' hstep.2

/-- One step pushed the frame, on top of `rest`, and it has been on the stack ever since. -/
structure Pending (callees : Callees D K σ) (frame : Frame D K) (rest : List (Frame D K))
    (before after now : Machine D K × World σ) : Prop where
  pushed : Leads callees before.1 before.2 after.1 after.2
  frames_before : before.1.frames = rest
  frames_after : after.1.frames = frame :: rest
  since : ReachesOver callees (rest.length + 1) after now

/-- Above a pending frame lies what was pushed since, with scopes nested in the environments there
    were right after it was pushed. -/
theorem Pending.nested {frame : Frame D K} {rest : List (Frame D K)}
    {before after now : Machine D K × World σ} (h : Pending callees frame rest before after now)
    (newer : List (Frame D K))
    (hframes : now.1.frames = newer ++ frame :: rest) :
    Nested after.1.environments newer now.1.environments := by
  have hsince : ReachesOver callees (frame :: rest).length after now := h.since
  obtain ⟨newer', hframes', hnested⟩ := hsince.nested [] h.frames_after .base
  rw [hframes] at hframes'
  obtain rfl := List.append_cancel_right hframes'
  exact hnested

/-- Every frame on the stack was pushed at some time, and has been pending since. -/
theorem Reaches.exists_pending {start now : Machine D K × World σ} {frame : Frame D K}
    {rest : List (Frame D K)} (hstart : start.1.frames = []) (h : Reaches callees start now)
    (newer : List (Frame D K)) (hframes : now.1.frames = newer ++ frame :: rest) :
    ∃ before after, Reaches callees start before ∧
      Pending callees frame rest before after now := by
  induction h generalizing newer with
  | refl =>
    rw [hstart] at hframes
    cases newer <;> cases hframes
  | @tail a b hreach hstep ih =>
    -- a frame that was there before the step has its past already
    have hold : ∀ newer', a.1.frames = newer' ++ frame :: rest → ∃ before after,
        Reaches callees start before ∧ Pending callees frame rest before after b := by
      intro newer' hframes'
      obtain ⟨before, after, hbefore, hpending⟩ := ih newer' hframes'
      refine ⟨before, after, hbefore, ?_⟩
      have hover : rest.length + 1 ≤ b.1.frames.length := by
        rw [hframes, List.length_append, List.length_cons]
        omega
      exact { hpending with since := hpending.since.tail ⟨hstep, hover⟩ }
    obtain hsame | ⟨top, hpush⟩ | ⟨top, hpop⟩ := hstep.frames_cases
    · exact hold newer (hsame.symm.trans hframes)
    · rcases newer with _ | ⟨_, newer⟩
      · rw [hpush] at hframes
        obtain ⟨rfl, hrest⟩ := List.cons.inj hframes
        exact ⟨a, b, hreach, hstep, hrest, hrest ▸ hpush, .refl⟩
      · rw [hpush] at hframes
        exact hold newer (List.cons.inj hframes).2
    · refine hold (top :: newer) ?_
      rw [hpop, hframes, List.cons_append]

/-- In every state of an evaluation all scopes are nested in what was bound at its beginning. -/
theorem Reaches.nested {start now : Machine D K × World σ} (hstart : start.1.frames = [])
    (h : Reaches callees start now) :
    Nested start.1.environments now.1.frames now.1.environments := by
  induction h with
  | refl =>
    rw [hstart]
    exact .base
  | @tail a b _ hstep ih =>
    have hbelow : a.1.frames = a.1.frames ++ [] := (List.append_nil _).symm
    obtain ⟨newer, hframes, hnested⟩ := hstep.nested hbelow ih (Nat.zero_le _)
    rw [List.append_nil] at hframes
    rw [hframes]
    exact hnested

end Machine

/-! ## Whole evaluations -/

namespace Runner

variable [Language D K σ]

/-- However an evaluation ends, the environments are those there were before. -/
theorem evaluate_environments {callees : Callees D K σ} {fuel : Nat} {r r' : Runner D K}
    {node : Node D K} {ending : Raised D K (Ending D K)} {w w' : World σ}
    (h : r.evaluate callees fuel node w = some (ending, r', w')) :
    r'.environments = r.environments := by
  have hends : ∀ {ending envs steps w₁},
      Machine.drive callees fuel (r.start node) (r.opened w) = some ((ending, envs, steps), w₁) →
        envs.shrink r.environments.size = r.environments := by
    intro ending envs steps w₁ hdrive
    obtain ⟨last, v, hreach, -, rfl⟩ := Machine.Ends.exists_reaches ⟨fuel, hdrive⟩
    exact (hreach.nested rfl).shrink_eq
  obtain ⟨-, -, rfl, -⟩ | ⟨-, e, envs, steps, w₁, hdrive, -, rfl, -⟩ |
    ⟨-, p, envs, steps, w₁, hdrive, -, rfl, -⟩ := evaluate_cases h
  · rfl
  · exact hends hdrive
  · exact hends hdrive

/-- Environments are bound by scope.

    In every state that an evaluation goes through, the pending `restore` frames hold the depths
    from that of the runner upwards, one more for each of them up to the number of environments
    bound.  When a frame that waits for an ending is met by one, whatever that ending is, there are
    the same environments as when the frame was pushed.  What is bound innermost, and so what a
    `read` sees, was bound for the innermost `provide` that is still open, and is what the runner
    had bound if there is none.  And however the evaluation ends, the runner is left with the
    environments it had. -/
theorem environments_scoped (callees : Callees D K σ) (r : Runner D K) (node : Node D K)
    (w : World σ) :
    (∀ now, Machine.Reaches callees (r.start node, r.opened w) now →
      ((Frame.depths now.1.frames).reverse =
          List.range' r.environments.size (Frame.depths now.1.frames).length ∧
        now.1.environments.size = r.environments.size + (Frame.depths now.1.frames).length) ∧
      (∀ ending frame rest, now.1.control = .settle ending → now.1.frames = frame :: rest →
        frame.depth? = none →
          ∃ before after, Machine.Reaches callees (r.start node, r.opened w) before ∧
            Machine.Pending callees frame rest before after now ∧
            now.1.environments = before.1.environments) ∧
      (∀ newer depth rest, now.1.frames = newer ++ .restore depth :: rest →
        Frame.depths newer = [] →
          ∃ before after slot inner env w₁,
            Machine.Reaches callees (r.start node, r.opened w) before ∧
            Machine.Pending callees (.restore depth) rest before after now ∧
            before.1.control = .dispatch (.provide slot inner) ∧
            slot.take callees before.2 = some (.ok (some env), w₁) ∧
            now.1.environments = before.1.environments.push env) ∧
      (Frame.depths now.1.frames = [] → now.1.environments = r.environments)) ∧
    (∀ fuel ending r' w', r.evaluate callees fuel node w = some (ending, r', w') →
      r'.environments = r.environments) := by
  refine ⟨?_, fun fuel ending r' w' h => evaluate_environments h⟩
  intro now hreach
  have hnested : Nested r.environments now.1.frames now.1.environments := hreach.nested rfl
  refine ⟨hnested.depths_eq, ?_, ?_, hnested.eq_base⟩
  · -- what has happened since the frame was pushed is nested above it, and over by now
    intro ending frame rest _ hframes hwaits
    obtain ⟨before, after, hbefore, hpending⟩ := hreach.exists_pending rfl [] hframes
    refine ⟨before, after, hbefore, hpending, ?_⟩
    have hnow : now.1.environments = after.1.environments :=
      (hpending.nested [] hframes).eq_base rfl
    obtain ⟨_, _, -, -, hafter⟩ | ⟨_, _, _, _, -, -, rfl, -⟩ :=
      hpending.pushed.push_cases (hpending.frames_before ▸ hpending.frames_after)
    · exact hnow.trans hafter
    · cases hwaits
  · -- a frame that restores was pushed when an environment was bound, and that is the one on top
    intro newer depth rest hframes hnewer
    obtain ⟨before, after, hbefore, hpending⟩ := hreach.exists_pending rfl newer hframes
    have hnow : now.1.environments = after.1.environments :=
      (hpending.nested newer hframes).eq_base hnewer
    obtain ⟨_, _, -, henter, -⟩ | ⟨slot, inner, env, w₁, hcontrol, htake, -, hafter⟩ :=
      hpending.pushed.push_cases (hpending.frames_before ▸ hpending.frames_after)
    · cases Frame.depth?_of_enter henter
    · exact ⟨before, after, slot, inner, env, w₁, hbefore, hpending, hcontrol, htake,
        hnow.trans hafter⟩

end Runner

end EffectMachine
