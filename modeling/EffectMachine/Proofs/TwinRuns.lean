/-
  Evaluations that use different cells.

  This file carries what was found about single plays over to the machine and to whole evaluations:
  states that are twins, in worlds that are, lead on to twins and end in the same
  (`step_together`, `drive_together`), and so do evaluations on two runners with the same
  environments (`Runner.evaluate_together`).

  While the machine runs the cells of either state are its own (`OwnPairs`).  A step that evaluates
  a single-use node takes the cell of it off the list, one that makes a node anew puts a newer cell
  on it, and a frame that is skipped drops the cell it holds without taking it.
-/
import EffectMachine.Proofs.Twins

namespace EffectMachine

variable {D K σ α : Type}

/-! ## States -/

/-- The same frame, but for the number of the cell it owns, if it owns one. -/
inductive Frame.Twins (P : Program K) : Option (Nat × Nat) → Frame D K → Frame D K → Prop where
  | apply {k} (hk : k.Reusable P) : Frame.Twins P none (.apply k) (.apply k)
  | applyOnce {c d T link} (h : link.Reusable P) :
      Frame.Twins P (some (c, d)) (.apply (.typedOnce c T link)) (.apply (.typedOnce d T link))
  | fold {onCause k} (hcause : onCause.Reusable P) (hk : k.Reusable P) :
      Frame.Twins P none (.fold onCause k) (.fold onCause k)
  | restore {depth} : Frame.Twins P none (.restore depth) (.restore depth)

/-- The same stack of frames, but for the numbers of the cells that they own. -/
inductive Frame.AllTwins (P : Program K) :
    List (Nat × Nat) → List (Frame D K) → List (Frame D K) → Prop where
  | nil : AllTwins P [] [] []
  | cons {pair? pairs frame frame' frames frames'} (h : Frame.Twins P pair? frame frame')
      (hframes : AllTwins P pairs frames frames') :
      AllTwins P (pair?.toList ++ pairs) (frame :: frames) (frame' :: frames')

/-- The same state, but for the numbers of the cells that its nodes and frames own. -/
inductive Machine.Twins (P : Program K) :
    List (Nat × Nat) → Machine D K → Machine D K → Prop where
  | dispatch {pair? pairs node node' frames frames' envs steps}
      (hnode : Node.Twins P pair? node node') (hframes : Frame.AllTwins P pairs frames frames')
      (henvs : ∀ v ∈ envs, Value.Reusable P v) :
      Twins P (pair?.toList ++ pairs) ⟨.dispatch node, frames, envs, steps⟩
        ⟨.dispatch node', frames', envs, steps⟩
  | settle {pairs ending frames frames' envs steps} (hending : Ending.Reusable P ending)
      (hframes : Frame.AllTwins P pairs frames frames')
      (henvs : ∀ v ∈ envs, Value.Reusable P v) :
      Twins P pairs ⟨.settle ending, frames, envs, steps⟩ ⟨.settle ending, frames', envs, steps⟩

/-- The cells of either state in a pair are its own. -/
structure OwnPairs (base base' w v : World σ) (pairs : List (Nat × Nat)) : Prop where
  left : base.Owns w (pairs.map Prod.fst)
  right : base'.Owns v (pairs.map Prod.snd)

namespace OwnPairs

variable {base base' w v w' v' : World σ} {pairs : List (Nat × Nat)} {c d : Nat}

/-- What grows keeps its own cells, on both sides. -/
theorem later (h : OwnPairs base base' w v pairs) (hw : w.Grows w') (hv : v.Grows v') :
    OwnPairs base base' w' v' pairs := ⟨h.left.later hw, h.right.later hv⟩

/-- With a cell that was made anew on either side there is one pair more. -/
theorem append {pair? : Option (Nat × Nat)} (h : OwnPairs base base' w v pairs)
    (hw : w.Grows w') (hv : v.Grows v')
    (hfresh : ∀ c d, pair? = some (c, d) → w.Fresh w' c ∧ v.Fresh v' d) :
    OwnPairs base base' w' v' (pair?.toList ++ pairs) := by
  cases pair? with
  | none => exact h.later hw hv
  | some pair =>
    obtain ⟨hc, hd⟩ := hfresh pair.1 pair.2 rfl
    exact ⟨h.left.cons hw hc, h.right.cons hv hd⟩

/-- After a cell of either side has been taken, the rest are its own still. -/
theorem took (h : OwnPairs base base' w v ((c, d) :: pairs)) :
    OwnPairs base base' (w.took c) (v.took d) pairs := ⟨h.left.took, h.right.took⟩

/-- A cell may be dropped without being taken. -/
theorem tail (h : OwnPairs base base' w v ((c, d) :: pairs)) :
    OwnPairs base base' w v pairs := ⟨h.left.tail, h.right.tail⟩

end OwnPairs

/-- The states are twins, in twin worlds, each of which has the cells of its state to be taken and
    otherwise those there were in its base. -/
def Together (P : Program K) (I : σ → Prop) (old old' : List Event) (base base' : World σ)
    (a b : Machine D K × World σ) : Prop :=
  ∃ pairs, Machine.Twins P pairs a.1 b.1 ∧ World.Twins P I old old' a.2 b.2 ∧
    OwnPairs base base' a.2 b.2 pairs

/-- Both lead on to twins, or both end and come to the same, or both come to no end. -/
inductive StepTogether (P : Program K) (I : σ → Prop) (old old' : List Event)
    (base base' : World σ) :
    Option (Progress D K × World σ) → Option (Progress D K × World σ) → Prop where
  | endless : StepTogether P I old old' base base' none none
  | running {m m' w v} (h : Together P I old old' base base' (m, w) (m', v)) :
      StepTogether P I old old' base base' (some (.running m, w)) (some (.running m', v))
  | finished {ending envs steps w v} (htwins : World.Twins P I old old' w v)
      (hgrow : base.Grows w) (hgrow' : base'.Grows v)
      (hending : Raised.Reusable P (Ending.Reusable P) ending)
      (henvs : ∀ v ∈ envs, Value.Reusable P v) :
      StepTogether P I old old' base base' (some (.finished ending envs steps, w))
        (some (.finished ending envs steps, v))

section Steps

variable {P : Program K} {I : σ → Prop} {old old' : List Event} {callees : Callees D K σ}
  {base base' w v : World σ} {pairs : List (Nat × Nat)} {envs : Array (Value D K)}

/-- What is played comes to the same, and so does a step that goes on with it. -/
theorem perform_together {Q : Option (Nat × Nat) → α → α → Prop} {x y : Play D K σ α}
    {next next' : α → Machine D K} (steps : Nat)
    (hplay : Paired P I old old' Q w v (x callees w) (y callees v))
    (hown : OwnPairs base base' w v pairs) (henvs : ∀ v ∈ envs, Value.Reusable P v)
    (hnext : ∀ pair? a b, Q pair? a b →
      Machine.Twins P (pair?.toList ++ pairs) (next a) (next' b)) :
    StepTogether P I old old' base base' (Machine.perform callees x next envs steps w)
      (Machine.perform callees y next' envs steps v) := by
  unfold Machine.perform
  generalize x callees w = out at hplay ⊢
  generalize y callees v = out' at hplay ⊢
  cases hplay with
  | endless => exact .endless
  | returned htwins hgrow hgrow' hfresh h =>
    exact .running ⟨_, hnext _ _ _ h, htwins, hown.append hgrow hgrow' hfresh⟩
  | raised htwins hgrow hgrow' hp =>
    have hown' := hown.later hgrow hgrow'
    exact .finished htwins hown'.left.grows hown'.right.grows hp henvs

/-- Either takes its cell for what it returns, and a step goes on with that. -/
theorem perform_taken {c d : Nat} {x y : Play D K σ α} {a : α} {next next' : α → Machine D K}
    (steps : Nat) (hx : x callees w = some (.ok a, w.took c))
    (hy : y callees v = some (.ok a, v.took d)) (htwins : World.Twins P I old old' w v)
    (hown : OwnPairs base base' w v ((c, d) :: pairs))
    (hnext : Machine.Twins P pairs (next a) (next' a)) :
    StepTogether P I old old' base base' (Machine.perform callees x next envs steps w)
      (Machine.perform callees y next' envs steps v) := by
  simp only [Machine.perform, hx, hy]
  exact .running ⟨_, hnext, htwins.took c d, hown.took⟩

/-! To evaluate a node or a continuation that owns its cell is to take the cell. -/

/-- A slot for one evaluation is taken as long as its cell is owned. -/
theorem World.Owns.take_slot {cells : List Nat} {c : Nat} (h : base.Owns w (c :: cells))
    (val : Value D K) :
    (Slot.once c val).take callees w = some (.ok (some val), w.took c) := by
  have htake := h.takeCell_eq
  simp only [Slot.take, Play.bind_apply, Play.take, htake, if_true]
  rfl

theorem World.Owns.settle_slot {cells : List Nat} {c : Nat} (h : base.Owns w (c :: cells))
    (val : Value D K) :
    (Slot.once c val).settle callees w = some (.ok (.success val), w.took c) := by
  have htake : (Slot.once c val).take callees w = _ := h.take_slot val
  simp only [Slot.settle, Play.bind_apply, htake]
  rfl

theorem World.Owns.take_source [Language D K σ] {cells : List Nat} {c : Nat}
    (h : base.Owns w (c :: cells)) (cause : Cause (Value D K)) :
    (Source.once c cause).take callees w = some (.ok cause, w.took c) := by
  have htake := h.takeCell_eq
  simp only [Source.take, Play.bind_apply, Play.take, htake, if_true]
  rfl

/-- A continuation for one evaluation goes on as long as its cell is owned. -/
theorem World.Owns.resume [Language D K σ] {cells : List Nat} {c : Nat}
    (h : base.Owns w (c :: cells)) (T : Ty) (link : Link D K) (val : Value D K) :
    (Continuation.typedOnce c T link).resume val callees w =
      link.followTyped T val callees (w.took c) := by
  have htake := h.takeCell_eq
  simp only [Continuation.resume, Play.bind_apply, Play.take, htake, if_true]
  rfl

theorem reusable_of_back? (henvs : ∀ v ∈ envs, Value.Reusable P v) (env : Value D K)
    (hback : envs.back? = some env) : env.Reusable P :=
  henvs env (Array.mem_of_back? hback)

theorem reusable_push (henvs : ∀ v ∈ envs, Value.Reusable P v) {env : Value D K}
    (henv : env.Reusable P) : ∀ v ∈ envs.push env, Value.Reusable P v := by
  intro v hv
  rcases Array.mem_push.mp hv with hv | rfl
  · exact henvs v hv
  · exact henv

theorem reusable_shrink (henvs : ∀ v ∈ envs, Value.Reusable P v) (depth : Nat) :
    ∀ v ∈ envs.shrink depth, Value.Reusable P v := by
  intro v hv
  rw [Array.shrink_eq_take, Array.take_eq_extract] at hv
  obtain ⟨i, hi, rfl⟩ := Array.mem_iff_getElem.mp hv
  rw [Array.getElem_extract]
  exact henvs _ (Array.getElem_mem _)

/-- A step that goes on with an ending. -/
theorem perform_settle {A : α → Prop} {x y : Play D K σ α} {ending : α → Ending D K}
    {frames frames' : List (Frame D K)} (steps : Nat)
    (hplay : Paired P I old old' (Alone A) w v (x callees w) (y callees v))
    (hending : ∀ a, A a → Ending.Reusable P (ending a))
    (hframes : Frame.AllTwins P pairs frames frames') (hown : OwnPairs base base' w v pairs)
    (henvs : ∀ v ∈ envs, Value.Reusable P v) :
    StepTogether P I old old' base base'
      (Machine.perform callees x (fun a => ⟨.settle (ending a), frames, envs, steps⟩) envs steps w)
      (Machine.perform callees y (fun a => ⟨.settle (ending a), frames', envs, steps⟩) envs steps
        v) := by
  refine perform_together steps hplay hown henvs ?_
  rintro pair? a b ⟨rfl, rfl, ha⟩
  exact .settle (hending a ha) hframes henvs

/-- A step that goes on with a node. -/
theorem perform_dispatch {x y : Play D K σ (Node D K)} {frames frames' : List (Frame D K)}
    (steps : Nat) (hplay : Paired P I old old' (Node.Twins P) w v (x callees w) (y callees v))
    (hframes : Frame.AllTwins P pairs frames frames') (hown : OwnPairs base base' w v pairs)
    (henvs : ∀ v ∈ envs, Value.Reusable P v) :
    StepTogether P I old old' base base'
      (Machine.perform callees x (fun n => ⟨.dispatch n, frames, envs, steps⟩) envs steps w)
      (Machine.perform callees y (fun n => ⟨.dispatch n, frames', envs, steps⟩) envs steps v) :=
  perform_together steps hplay hown henvs fun _ _ _ h => .dispatch h hframes henvs

/-- Twins lead on to twins, or end in the same. -/
theorem dispatch_together [L : Language D K σ] (hL : L.Within P I)
    (hc : callees.Paired P I old old') {pair? : Option (Nat × Nat)} {node node' : Node D K}
    {frames frames' : List (Frame D K)} (steps : Nat) (hnode : Node.Twins P pair? node node')
    (hframes : Frame.AllTwins P pairs frames frames') (henvs : ∀ v ∈ envs, Value.Reusable P v)
    (htwins : World.Twins P I old old' w v) (hown : OwnPairs base base' w v (pair?.toList ++ pairs)) :
    StepTogether P I old old' base base' (Machine.dispatch callees node frames envs steps w)
      (Machine.dispatch callees node' frames' envs steps v) := by
  cases hnode with
  | reusable h =>
    cases h with
    | @succeed val h =>
      have hsettle : Paired P I old old' (Alone (Ending.Reusable P)) w v
          ((Slot.shared val).settle callees w) ((Slot.shared val).settle callees v) :=
        .same htwins (.refl w) (.refl v) ⟨rfl, rfl, h⟩
      exact perform_settle steps hsettle (fun _ ha => ha) hframes hown henvs
    | failCause h =>
      exact perform_settle steps (Source.take_paired hL hc h htwins) (fun _ ha => ha) hframes hown
        henvs
    | total hf hargs =>
      exact perform_settle steps (Play.Paired.act hc (hL.value hf hargs) htwins) (fun _ ha => ha)
        hframes hown henvs
    | attempt hf hargs =>
      exact perform_settle steps (Machine.attempted_paired hL hc hf hargs htwins)
        (fun _ ha => ha) hframes hown henvs
    | flatMap h hk =>
      exact .running ⟨_, .dispatch (.reusable h) (.cons (.apply hk) hframes) henvs, htwins, hown⟩
    | fold h hcause hk =>
      exact .running ⟨_, .dispatch (.reusable h) (.cons (.fold hcause hk) hframes) henvs, htwins,
        hown⟩
    | provide hv h =>
      exact .running ⟨_, .dispatch (.reusable h) (.cons .restore hframes) (reusable_push henvs hv),
        htwins.report _, hown.later (.report _ _) (.report _ _)⟩
    | read h =>
      exact perform_dispatch steps
        (Link.followEnvironment_paired hL hc h (reusable_of_back? henvs) _ htwins) hframes hown
        henvs
  -- a node that owns its cell takes it, and its twin takes its own
  | @succeed c d val h =>
    have hown : OwnPairs base base' w v ((c, d) :: pairs) := hown
    exact perform_taken steps (hown.left.settle_slot val) (hown.right.settle_slot val) htwins hown
      (.settle h hframes henvs)
  | @failCause c d cause h =>
    have hown : OwnPairs base base' w v ((c, d) :: pairs) := hown
    have hending : Ending.Reusable P (.failure cause : Ending D K) := h
    have hw : (Source.once c cause).take callees w = _ := hown.left.take_source cause
    have hv : (Source.once d cause).take callees v = _ := hown.right.take_source cause
    simp only [Machine.dispatch]
    exact perform_taken steps hw hv htwins hown (.settle hending hframes henvs)
  | @provide c d val inner hv h =>
    have hown : OwnPairs base base' w v ((c, d) :: pairs) := hown
    have hw : (Slot.once c val).take callees w = _ := hown.left.take_slot val
    have hv' : (Slot.once d val).take callees v = _ := hown.right.take_slot val
    simp only [Machine.dispatch, hw, hv']
    exact .running ⟨_, .dispatch (.reusable h) (.cons .restore hframes) (reusable_push henvs hv),
      (htwins.took c d).report _, hown.took.later (.report _ _) (.report _ _)⟩
  | flatMap h hlink =>
    exact .running ⟨_, .dispatch (.reusable h) (.cons (.applyOnce hlink) hframes) henvs, htwins,
      hown⟩

/-- A state that settles, and its twin: by the frame on top, which is the same but for the cell it
    owns. -/
theorem settle_together [L : Language D K σ] (hL : L.Within P I)
    (hc : callees.Paired P I old old') {ending : Ending D K} {frames frames' : List (Frame D K)}
    (steps : Nat) (hending : Ending.Reusable P ending)
    (hframes : Frame.AllTwins P pairs frames frames') (henvs : ∀ v ∈ envs, Value.Reusable P v)
    (htwins : World.Twins P I old old' w v) (hown : OwnPairs base base' w v pairs) :
    StepTogether P I old old' base base' (Machine.settle callees ending frames envs steps w)
      (Machine.settle callees ending frames' envs steps v) := by
  cases hframes with
  | nil => exact .finished htwins hown.left.grows hown.right.grows hending henvs
  | cons hframe hframes =>
    cases hframe with
    | @apply k hk =>
      cases ending with
      | success val =>
        exact perform_dispatch steps (Continuation.resume_paired hL hc hk hending htwins) hframes
          hown henvs
      | failure cause => exact .running ⟨_, .settle hending hframes henvs, htwins, hown⟩
    | @applyOnce c d T link h =>
      cases ending with
      | success val =>
        -- on either side the cell of the continuation is its own, and is taken now
        have hw : (Continuation.typedOnce c T link).resume val callees w = _ :=
          hown.left.resume T link val
        have hv : (Continuation.typedOnce d T link).resume val callees v = _ :=
          hown.right.resume T link val
        simp only [Machine.settle, Machine.perform, hw, hv]
        exact perform_dispatch steps (Link.followTyped_paired hL hc h hending T (htwins.took c d))
          hframes hown.took henvs
      | failure cause => exact .running ⟨_, .settle hending hframes henvs, htwins, hown.tail⟩
    | fold hcause hk =>
      cases ending with
      | success val =>
        exact perform_dispatch steps (Continuation.resume_paired hL hc hk hending htwins) hframes
          hown henvs
      | failure cause =>
        exact perform_dispatch steps (Handler.resume_paired hL hc hcause hending htwins) hframes
          hown henvs
    | restore =>
      exact .running ⟨_, .settle hending hframes (reusable_shrink henvs _), htwins.report _,
        hown.later (.report _ _) (.report _ _)⟩

/-- One step of twin states.  A cell that either makes gets a number of its own, so the pairs grow
    by one; a cell that is taken is the first of them. -/
theorem step_together [L : Language D K σ] (hL : L.Within P I) (hc : callees.Paired P I old old')
    {a b : Machine D K × World σ} (h : Together P I old old' base base' a b) :
    StepTogether P I old old' base base' (a.1.step callees a.2) (b.1.step callees b.2) := by
  obtain ⟨⟨control, frames, envs, steps⟩, w⟩ := a
  obtain ⟨⟨control', frames', envs', steps'⟩, v⟩ := b
  obtain ⟨pairs, hmachine, htwins, hown⟩ := h
  cases hmachine with
  | dispatch hnode hframes henvs =>
    exact dispatch_together hL hc _ hnode hframes henvs htwins hown
  | settle hending hframes henvs =>
    exact settle_together hL hc _ hending hframes henvs htwins hown

/-! ## Runs -/

/-- Both end in the same, with the same environments bound and after as many steps, or both come to
    no end. -/
inductive DriveTogether (P : Program K) (I : σ → Prop) (old old' : List Event)
    (base base' : World σ) :
    Option ((Raised D K (Ending D K) × Array (Value D K) × Nat) × World σ) →
    Option ((Raised D K (Ending D K) × Array (Value D K) × Nat) × World σ) → Prop where
  | endless : DriveTogether P I old old' base base' none none
  | ended {ending envs steps w v} (htwins : World.Twins P I old old' w v)
      (hgrow : base.Grows w) (hgrow' : base'.Grows v)
      (hending : Raised.Reusable P (Ending.Reusable P) ending)
      (henvs : ∀ v ∈ envs, Value.Reusable P v) :
      DriveTogether P I old old' base base' (some ((ending, envs, steps), w))
        (some ((ending, envs, steps), v))

/-- By induction on the fuel, twins stay twins until both come to the end. -/
theorem drive_together [L : Language D K σ] (hL : L.Within P I) (hc : callees.Paired P I old old')
    (fuel : Nat) {a b : Machine D K × World σ} (h : Together P I old old' base base' a b) :
    DriveTogether P I old old' base base' (Machine.drive callees fuel a.1 a.2)
      (Machine.drive callees fuel b.1 b.2) := by
  induction fuel generalizing a b with
  | zero => exact .endless
  | succ fuel ih =>
    have hstep := step_together hL hc h
    simp only [Machine.drive]
    generalize a.1.step callees a.2 = out at hstep ⊢
    generalize b.1.step callees b.2 = out' at hstep ⊢
    cases hstep with
    | endless => exact .endless
    | running h => exact ih h
    | finished htwins hgrow hgrow' hending henvs =>
      exact .ended htwins hgrow hgrow' hending henvs

end Steps

/-- The runner after an evaluation that ended so, with these environments bound: the number of steps
    is kept if the ending was returned. -/
def Runner.after (r : Runner D K) (ending : Raised D K (Ending D K)) (envs : Array (Value D K))
    (steps : Nat) : Runner D K where
  settings := r.settings
  environments := envs
  lastSteps := match ending with
    | .ok _ => steps
    | .error _ => r.lastSteps

/-- Evaluations on two runners end in the same, with the same environments bound afterwards and
    after as many steps, or both come to no end. -/
inductive RunTogether (P : Program K) (I : σ → Prop) (old old' : List Event) (r r' : Runner D K)
    (base base' : World σ) :
    Option (Raised D K (Ending D K) × Runner D K × World σ) →
    Option (Raised D K (Ending D K) × Runner D K × World σ) → Prop where
  | endless : RunTogether P I old old' r r' base base' none none
  | ended {ending envs steps w v} (htwins : World.Twins P I old old' w v)
      (hgrow : base.Grows w) (hgrow' : base'.Grows v)
      (hending : Raised.Reusable P (Ending.Reusable P) ending)
      (henvs : ∀ v ∈ envs, Value.Reusable P v) :
      RunTogether P I old old' r r' base base' (some (ending, r.after ending envs steps, w))
        (some (ending, r'.after ending envs steps, v))

section Runs

variable {P : Program K} {I : σ → Prop} {old old' : List Event} {callees : Callees D K σ}
  {base base' w v : World σ} {r r' : Runner D K}

/-- On one runner the evaluations end with one runner. -/
theorem RunTogether.paired {out out' : Option (Raised D K (Ending D K) × Runner D K × World σ)}
    (h : RunTogether P I old old' r r base base' out out') :
    RunPaired P I old old' base base' out out' := by
  cases h with
  | endless => exact .endless
  | ended htwins hgrow hgrow' hending henvs => exact .ended htwins hgrow hgrow' hending henvs

/-- On runners with the same environments evaluations of twins start together. -/
theorem Runner.start_together (henvs : r.environments = r'.environments) (hr : r.Reusable P)
    {pair? : Option (Nat × Nat)} {node node' : Node D K} (hnode : Node.Twins P pair? node node')
    (htwins : World.Twins P I old old' (w.report (.span r.settings.label))
      (v.report (.span r'.settings.label)))
    (hown : OwnPairs base base' w v pair?.toList) :
    Together P I old old' base base' (r.start node, r.opened w) (r'.start node', r'.opened v) := by
  have hgrow : ∀ (r : Runner D K) (w : World σ), w.Grows (r.opened w) :=
    fun _ _ => .trans (.report _ _) (.report _ _)
  refine ⟨pair?.toList ++ [], ?_, htwins.report .enter, ?_⟩
  · rw [start, start, ← henvs]
    exact .dispatch hnode .nil hr
  · rw [List.append_nil]
    exact hown.later (hgrow r w) (hgrow r' v)

/-- Evaluations of twins come to the same on runners with the same environments, if there is room
    for the frames of both or of neither. -/
theorem Runner.evaluate_together [L : Language D K σ] (hL : L.Within P I)
    (hc : callees.Paired P I old old') (fuel : Nat) (henvs : r.environments = r'.environments)
    (hfit : r.settings.framesFit = r'.settings.framesFit) (hr : r.Reusable P)
    {pair? : Option (Nat × Nat)} {node node' : Node D K} (hnode : Node.Twins P pair? node node')
    (htwins : World.Twins P I old old' (w.report (.span r.settings.label))
      (v.report (.span r'.settings.label)))
    (hown : OwnPairs base base' w v pair?.toList) :
    RunTogether P I old old' r r' base base' (r.evaluate callees fuel node w)
      (r'.evaluate callees fuel node' v) := by
  obtain ⟨_, -, hopen, hopened⟩ := start_together henvs hr hnode htwins hown
  have hdrive := drive_together hL hc fuel (start_together henvs hr hnode htwins hown)
  simp only [evaluate, ← hfit, ← henvs]
  simp only [start, opened, ← henvs] at hdrive
  split
  · generalize Machine.drive callees fuel ⟨.dispatch node, [], r.environments, 0⟩ _ = out at hdrive ⊢
    generalize Machine.drive callees fuel ⟨.dispatch node', [], r.environments, 0⟩ _ = out'
      at hdrive ⊢
    cases hdrive with
    | endless => exact .endless
    | @ended ending envs steps w' v' htwins hgrow hgrow' hending henvs =>
      have hkept := reusable_shrink henvs r.environments.size
      cases ending with
      | ok ending =>
        exact .ended ((htwins.report _).report _) ((hgrow.trans (.report _ _)).trans (.report _ _))
          ((hgrow'.trans (.report _ _)).trans (.report _ _)) hending hkept
      | error p =>
        show RunTogether P I old old' r r' base base' (some (.error p, r.after (.error p) _ steps, _))
          (some (.error p, r'.after (.error p) _ steps, _))
        exact .ended (htwins.report _) (hgrow.trans (.report _ _)) (hgrow'.trans (.report _ _))
          hending hkept
  -- where there is no room for the frames a literal is raised, which is reusable
  · have hright : r'.after (.error overflow) r.environments 0 = r' := by
      rw [henvs]
      rfl
    have hrun : RunTogether P I old old' r r' base base'
        (some (.error overflow, r.after (.error overflow) r.environments 0,
          (r.opened w).report .exit))
        (some (.error overflow, r'.after (.error overflow) r.environments 0,
          (r'.opened v).report .exit)) :=
      .ended (hopen.report _) (hopened.left.grows.trans (.report _ _))
        (hopened.right.grows.trans (.report _ _)) .literal hr
    rw [hright] at hrun
    exact hrun

/-- So do evaluations of a reusable node, with an environment bound for the run if one is given. -/
theorem Runner.evaluateWith_together [L : Language D K σ] (hL : L.Within P I)
    (hc : callees.Paired P I old old') (fuel : Nat) (henvs : r.environments = r'.environments)
    (hfit : r.settings.framesFit = r'.settings.framesFit) (hr : r.Reusable P)
    {env : Option (Value D K)} (henv : ∀ v, env = some v → v.Reusable P) {node : Node D K}
    (hnode : node.Reusable P)
    (htwins : World.Twins P I old old' (w.report (.span r.settings.label))
      (v.report (.span r'.settings.label))) :
    RunTogether P I old old' r r' w v (r.evaluateWith callees fuel env node w)
      (r'.evaluateWith callees fuel env node v) := by
  have hnil : OwnPairs w v w v [] := ⟨.nil (.refl w), .nil (.refl v)⟩
  cases env with
  | none => exact evaluate_together hL hc fuel henvs hfit hr (.reusable hnode) htwins hnil
  | some env =>
    -- the node that binds the environment owns a cell, which is made for the run
    have hown : OwnPairs w v { w with cells := w.cells.push false }
        { v with cells := v.cells.push false } (some (w.cells.size, v.cells.size)).toList :=
      ⟨hnil.left.cons (.cell w) (.cell w), hnil.right.cons (.cell v) (.cell v)⟩
    have hentry : Node.Twins P (some (w.cells.size, v.cells.size))
        (.provide (.once w.cells.size env) node) (.provide (.once v.cells.size env) node) :=
      .provide (henv env rfl) hnode
    have htwins : World.Twins P I old old'
        (World.report { w with cells := w.cells.push false } (.span r.settings.label))
        (World.report { v with cells := v.cells.push false } (.span r'.settings.label)) :=
      ⟨htwins.state, htwins.inv, htwins.halts, htwins.trace⟩
    exact evaluate_together hL hc fuel henvs hfit hr hentry htwins hown

/-- Runs and calls of the program, nested however deep, come to the same in twin worlds. -/
theorem Callees.ofFuel_paired [L : Language D K σ] (hL : L.Within P I) (old old' : List Event)
    (depth : Nat) : (Callees.ofFuel depth : Callees D K σ).Paired P I old old' := by
  induction depth with
  | zero => exact ⟨fun _ _ _ _ _ _ _ => .endless, fun _ _ _ _ _ => .endless⟩
  | succ depth ih =>
    constructor
    · intro w v htwins r env node hr henv hnode
      have h := Runner.evaluateWith_together hL ih depth rfl rfl hr henv hnode
        (htwins.report (.span r.settings.label))
      exact h.paired
    · intro w v htwins f args hf hargs
      exact Play.Paired.act ih (hL.effect hf hargs) htwins

end Runs

end EffectMachine
