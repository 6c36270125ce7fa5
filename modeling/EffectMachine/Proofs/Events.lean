/-
  What a run reports of its own.

  Runs report to one trace.  A run that is made by a closure reports in the midst of the run that
  called the closure, from the beginning of its span to the end of it; what is left if all such
  spans are taken out are a run's own events (`Event.own`).  This file shows what these are, step by
  step: a step that binds an environment, drops one again or turns what a closure raises into a
  defect tells of it, and no other step tells of anything (`Machine.tells`).

  The argument runs in a circle that fuel opens.  Steps play acts, acts make runs, and a run reports
  whole spans, because what its steps report is its own events with whole spans in between.  So it
  is shown of runs nested so deep that an outsider hears nothing of them (`Callees.ofFuel_hears`),
  by induction on the depth.
-/
import EffectMachine.Proofs.Ordinary
import EffectMachine.Proofs.Raising
import EffectMachine.Proofs.Scopes

namespace EffectMachine

variable {D K σ α β : Type}

/-! ## Spans inside -/

namespace Event

/-- The events that are not within a span inside, where so many of those are open. -/
def own : Nat → List Event → List Event
  | _, [] => []
  | level, span _ :: events => own level events
  | level, enter :: events => own (level + 1) events
  | level, exit :: events => own (level - 1) events
  | 0, e :: events => e :: own 0 events
  | level + 1, _ :: events => own (level + 1) events

example : own 0 [bound 1, span "inner", enter, bound 1, raised, restored 0, exit, restored 0] =
    [bound 1, restored 0] := rfl

/-- Whether the event is the mark of a span. -/
def marksSpan : Event → Bool
  | span _ | enter | exit => true
  | _ => false

/-- Of these events just those told are a run's own, and all spans inside are whole: the events
    leave as many of them open as there were. -/
structure Tells (events told : List Event) : Prop where
  outside (rest : List Event) : own 0 (events ++ rest) = told ++ own 0 rest
  inside (level : Nat) (rest : List Event) : own (level + 1) (events ++ rest) = own (level + 1) rest

namespace Tells

variable {events events' told told' : List Event}

theorem nil : Tells [] [] := ⟨fun _ => rfl, fun _ _ => rfl⟩

theorem single {e : Event} (h : e.marksSpan = false) : Tells [e] [e] := by
  cases e with
  | span | enter | exit => cases h
  | _ => exact ⟨fun _ => rfl, fun _ _ => rfl⟩

/-- What is told in sequence is told one after the other, since every piece leaves the spans as it
    found them. -/
theorem append (h : Tells events told) (h' : Tells events' told') :
    Tells (events ++ events') (told ++ told') := by
  constructor
  · intro rest
    rw [List.append_assoc, h.outside, h'.outside, List.append_assoc]
  · intro level rest
    rw [List.append_assoc, h.inside, h'.inside]

/-- A whole span tells nothing outside of it. -/
theorem spanned (label : String) (h : Tells events told) :
    Tells (span label :: enter :: events ++ [exit]) [] := by
  constructor
  · intro rest
    simp only [List.cons_append, List.append_assoc, own, h.inside]
    rfl
  · intro level rest
    simp only [List.cons_append, List.append_assoc, own, h.inside]
    rfl

/-- Read from outside of all spans, they tell just what is a run's own. -/
theorem own_eq (h : Tells events told) : own 0 events = told := by
  have houtside := h.outside []
  rw [List.append_nil, own, List.append_nil] at houtside
  exact houtside

end Tells

end Event

/-- Between the two worlds there was reported what tells just this, and nothing is forgotten. -/
def World.Hears (told : List Event) (w w' : World σ) : Prop :=
  ∃ events, w'.trace = events.reverse ++ w.trace ∧ Event.Tells events told

namespace World.Hears

variable {told told' : List Event} {w w' w'' : World σ}

theorem of_trace (h : w'.trace = w.trace) : Hears [] w w' := ⟨[], h, .nil⟩

protected theorem refl (w : World σ) : Hears [] w w := .of_trace rfl

/-- Nothing is forgotten on the way, so what is heard adds up. -/
protected theorem trans (h : Hears told w w') (h' : Hears told' w' w'') :
    Hears (told ++ told') w w'' := by
  obtain ⟨events, htrace, htells⟩ := h
  obtain ⟨events', htrace', htells'⟩ := h'
  refine ⟨events ++ events', ?_, htells.append htells'⟩
  rw [htrace', htrace, List.reverse_append, List.append_assoc]

theorem report (w : World σ) {e : Event} (h : e.marksSpan = false) : Hears [e] w (w.report e) :=
  ⟨[e], rfl, .single h⟩

/-- What happens after nothing was told is told of the whole. -/
theorem after_nothing (h : Hears [] w w') (h' : Hears told w' w'') : Hears told w w'' :=
  h.trans h'

end World.Hears

/-! ## What is heard -/

/-- Nothing is heard of runs and calls, for what they report is in spans of their own. -/
structure Callees.Discreet (callees : Callees D K σ) : Prop where
  run {r env node w ending r' w'} (h : callees.run r env node w = some (ending, r', w')) :
    w.Hears [] w'
  build {f args w node w'} (h : callees.build f args w = some (node, w')) : w.Hears [] w'

section Heard

variable {callees : Callees D K σ} (hc : callees.Discreet) {w w' : World σ}

include hc

/-- An act is heard of as little as the runs and calls in it. -/
theorem Act.exec_hears (a : Act D K σ α) {result : Raised D K α}
    (h : a.exec callees w = some (result, w')) : w.Hears [] w' := by
  induction a generalizing w with
  | done a => cases h; exact .refl _
  | raise p => cases h; exact .refl _
  | look k ih => exact ih w.state h
  | write s k ih =>
    have hrest := ih h
    exact (World.Hears.of_trace rfl).after_nothing hrest
  | newCell k ih =>
    have hrest := ih w.halts.size h
    exact (World.Hears.of_trace rfl).after_nothing hrest
  | run r env node k ih =>
    simp only [exec] at h
    rcases hrun : callees.run r env node w with _ | ⟨ending, r', w₁⟩
    · rw [hrun] at h; cases h
    · rw [hrun] at h
      exact (hc.run hrun).after_nothing (ih r' ending h)
  | build f args k ih =>
    simp only [exec] at h
    rcases hbuild : callees.build f args w with _ | ⟨node, w₁⟩
    · rw [hbuild] at h; cases h
    · rw [hbuild] at h
      exact (hc.build hbuild).after_nothing (ih node h)

/-- Nothing is heard of an ordinary play: the acts in it report in spans of their own only, and the
    rest does not report. -/
theorem Play.Ordinary.hears {x : Play D K σ α} (hx : x.Ordinary) {result : Raised D K α}
    (h : x callees w = some (result, w')) : w.Hears [] w' := by
  induction hx generalizing w w' with
  | pure a => cases h; exact .refl w
  | act a => exact a.exec_hears hc h
  | cell | take c | takeHalt c => cases h; exact .of_trace rfl
  | bind hx hf ihx ihf =>
    obtain ⟨a, w₁, ha, hrest⟩ | ⟨p, hp, rfl⟩ := Play.bind_eq_some h
    · exact (ihx ha).after_nothing (ihf a hrest)
    · exact ihx hp

end Heard

/-! ## What a step tells -/

namespace Machine

variable [Language D K σ] {callees : Callees D K σ}

/-- Whether the node at hand attempts a closure that raises. -/
def panics (callees : Callees D K σ) : Machine D K × World σ → Bool
  | (⟨.dispatch (.attempt f args), _, _, _⟩, w) =>
    match (Language.value f args).exec callees w with
    | some (.error _, _) => true
    | _ => false
  | _ => false

/-- What the next step tells of. -/
def tells (callees : Callees D K σ) (now : Machine D K × World σ) : List Event :=
  match now with
  | (⟨.dispatch (.attempt _ _), _, _, _⟩, _) => if panics callees now then [.raised] else []
  | (⟨.dispatch (.provide slot _), _, envs, _⟩, w) =>
    match slot.take callees w with
    | some (.ok (some _), _) => [.bound (envs.size + 1)]
    | _ => []
  | (⟨.settle _, .restore depth :: _, _, _⟩, _) => [.restored depth]
  | _ => []

/-- A node without another inside is told of if it is an attempt that raises. -/
theorem tells_leaf {node : Node D K} {play : Play D K σ (Ending D K)}
    (h : node.leaf? = some play) (frames : List (Frame D K)) (envs : Array (Value D K))
    (steps : Nat) (w : World σ) :
    tells callees (⟨.dispatch node, frames, envs, steps⟩, w) =
      if panics callees (⟨.dispatch node, frames, envs, steps⟩, w) then [.raised] else [] := by
  cases node with
  | succeed | failCause | total | attempt => rfl
  | flatMap inner k | fold inner onCause k | provide slot inner | read type link => cases h

/-- A step into a part of a node tells of nothing. -/
theorem tells_enter {node inner : Node D K} {frame : Frame D K}
    (h : node.enter? = some (inner, frame)) (frames : List (Frame D K)) (envs : Array (Value D K))
    (steps : Nat) (w : World σ) :
    tells callees (⟨.dispatch node, frames, envs, steps⟩, w) = [] := by
  cases node with
  | flatMap | fold => rfl
  | succeed slot | failCause source | total f args | attempt f args | provide slot inner
  | read type link => cases h

theorem tells_answer {frame : Frame D K} {ending : Ending D K} {play : Play D K σ (Node D K)}
    (h : frame.answer? ending = some play) (frames : List (Frame D K))
    (envs : Array (Value D K)) (steps : Nat) (w : World σ) :
    tells callees (⟨.settle ending, frame :: frames, envs, steps⟩, w) = [] := by
  cases frame with
  | apply | fold => rfl
  | restore depth => cases ending <;> cases h

/-- A defect is told of once for every attempt that raises, and never else. -/
theorem count_raised_tells (now : Machine D K × World σ) :
    (tells callees now).count .raised = if panics callees now then 1 else 0 := by
  obtain ⟨⟨control, frames, envs, steps⟩, w⟩ := now
  cases control with
  | dispatch node =>
    cases node with
    | attempt f args =>
      simp only [tells]
      split <;> rfl
    | provide slot inner =>
      simp only [tells]
      split <;> rfl
    | _ => rfl
  | settle ending =>
    rcases frames with _ | ⟨_ | _ | _, frames⟩ <;> rfl

section Steps

variable (hc : callees.Discreet) {m m' : Machine D K} {w w' : World σ}

include hc

/-- What is played for a node without another inside is heard of if the node is an attempt that
    raises. -/
theorem leaf_hears {node : Node D K} {play : Play D K σ (Ending D K)}
    (hleaf : node.leaf? = some play) {ending : Ending D K}
    (hplay : play callees w = some (.ok ending, w')) (frames : List (Frame D K))
    (envs : Array (Value D K)) (steps : Nat) :
    w.Hears (tells callees (⟨.dispatch node, frames, envs, steps⟩, w)) w' := by
  cases node with
  | succeed | failCause | total => exact (Node.leaf?_ordinary hleaf nofun).hears hc hplay
  | attempt f args =>
    cases hleaf
    rw [attempted_apply, Option.map_eq_some_iff] at hplay
    obtain ⟨⟨p | v, w₁⟩, hf, heq⟩ := hplay
    · cases heq
      simp only [tells, panics, hf, if_true]
      exact ((Language.value f args).exec_hears hc hf).after_nothing (.report w₁ rfl)
    · cases heq
      simp only [tells, panics, hf]
      exact (Language.value f args).exec_hears hc hf
  | flatMap inner k | fold inner onCause k | provide slot inner | read type link => cases hleaf

/-- A step that leads on is heard of by what it tells. -/
theorem Leads.hears (h : Leads callees m w m' w') : w.Hears (tells callees (m, w)) w' := by
  cases h with
  | leaf hleaf hplay => exact leaf_hears hc hleaf hplay _ _ _
  | enter henter =>
    rw [tells_enter henter]
    exact .refl w
  | bind htake =>
    simp only [tells, htake]
    exact ((Slot.take_ordinary _).hears hc htake).after_nothing (.report _ rfl)
  | consumed htake =>
    simp only [tells, htake]
    exact (Slot.take_ordinary _).hears hc htake
  | @read type link _ _ envs _ _ _ hplay =>
    exact (link.followEnvironment_ordinary type _).hears hc hplay
  | resume hframe hplay =>
    rw [tells_answer hframe]
    exact (Frame.answer?_ordinary hframe).hears hc hplay
  | skip => exact .refl w
  | restore => exact .report w rfl

/-- The last step is heard of by nothing. -/
theorem Leaves.hears {ending : Raised D K (Ending D K)} {steps : Nat}
    (h : Leaves callees m w ending steps w') : w.Hears [] w' := by
  cases h with
  | finish => exact .refl w
  | leaf hleaf hplay =>
    -- An attempt never ends a run by raising.
    refine (Node.leaf?_ordinary hleaf ?_).hears hc hplay
    rintro f args rfl
    cases hleaf
    exact attempted_quiet f args _ _ _ _ hplay
  | @read type link _ _ _ _ _ _ hplay =>
    exact (link.followEnvironment_ordinary type _).hears hc hplay
  | resume hframe hplay => exact (Frame.answer?_ordinary hframe).hears hc hplay

end Steps

/-! ## What a run tells -/

/-- Steps lead from the one state to the other, through these states in turn, the last one left
    out. -/
inductive Visits (callees : Callees D K σ) (start : Machine D K × World σ) :
    List (Machine D K × World σ) → Machine D K × World σ → Prop where
  | start : Visits callees start [] start
  | step {states now next} (h : Visits callees start states now)
      (hstep : Leads callees now.1 now.2 next.1 next.2) :
      Visits callees start (states ++ [now]) next

variable {start now : Machine D K × World σ} {states : List (Machine D K × World σ)}

/-- States that are visited are reached. -/
theorem Visits.reaches (h : Visits callees start states now) : Reaches callees start now := by
  induction h with
  | start => exact .refl
  | step _ hstep ih => exact ih.tail hstep

/-- A state that is reached is reached through certain states. -/
theorem Reaches.exists_visits (h : Reaches callees start now) :
    ∃ states, Visits callees start states now := by
  induction h with
  | refl => exact ⟨[], .start⟩
  | tail _ hstep ih =>
    obtain ⟨states, hvisits⟩ := ih
    exact ⟨_, hvisits.step hstep⟩

/-- What is heard of the steps is what each of them tells, in their order. -/
theorem Visits.hears (hc : callees.Discreet) (h : Visits callees start states now) :
    start.2.Hears (states.flatMap (tells callees)) now.2 := by
  induction h with
  | start => exact .refl _
  | step _ hstep ih =>
    rw [List.flatMap_append, List.flatMap_singleton]
    exact ih.trans (hstep.hears hc)

end Machine

/-! ## Runs nested inside -/

section Nested

variable [Language D K σ] {callees : Callees D K σ}

/-- Nothing is heard of a whole run outside of its span. -/
theorem Runner.evaluate_hears (hc : callees.Discreet) {fuel : Nat} {r r' : Runner D K}
    {node : Node D K} {ending : Raised D K (Ending D K)} {w w' : World σ}
    (h : r.evaluate callees fuel node w = some (ending, r', w')) : w.Hears [] w' := by
  -- what is told between the marks of the span does not matter
  have hspan : ∀ {told : List Event} {v : World σ}, (r.opened w).Hears told v →
      w.Hears [] (v.report .exit) := by
    rintro told v ⟨events, htrace, htells⟩
    refine ⟨_, ?_, htells.spanned r.settings.label⟩
    simp only [World.report, htrace, opened, List.reverse_append, List.reverse_cons,
      List.reverse_nil, List.nil_append, List.cons_append, List.append_assoc]
  have hends : ∀ {ending envs steps v},
      Machine.drive callees fuel (r.start node) (r.opened w) = some ((ending, envs, steps), v) →
        ∃ told, (r.opened w).Hears told v := by
    intro ending envs steps v hdrive
    obtain ⟨last, u, hreach, hleaves, -⟩ := Machine.Ends.exists_reaches ⟨fuel, hdrive⟩
    obtain ⟨states, hvisits⟩ := hreach.exists_visits
    exact ⟨_, (hvisits.hears hc).trans (hleaves.hears hc)⟩
  obtain ⟨-, -, -, rfl⟩ | ⟨-, e, envs, steps, v, hdrive, -, -, rfl⟩ |
    ⟨-, p, envs, steps, v, hdrive, -, -, rfl⟩ := evaluate_cases h
  · exact hspan (.refl _)
  · obtain ⟨told, hheard⟩ := hends hdrive
    exact hspan (hheard.trans (.report v rfl))
  · obtain ⟨told, hheard⟩ := hends hdrive
    exact hspan hheard

/-- Of a whole run nothing is heard outside, for it is a span of its own. -/
theorem Runner.evaluateWith_hears (hc : callees.Discreet) {fuel : Nat} {r r' : Runner D K}
    {env : Option (Value D K)} {node : Node D K} {ending : Raised D K (Ending D K)}
    {w w' : World σ} (h : r.evaluateWith callees fuel env node w = some (ending, r', w')) :
    w.Hears [] w' := by
  obtain ⟨start, w₁, hentry, htrace⟩ : ∃ start w₁,
      entry env node callees w = some (.ok start, w₁) ∧ w₁.trace = w.trace := by
    cases env <;> exact ⟨_, _, rfl, rfl⟩
  simp only [evaluateWith, hentry] at h
  exact (World.Hears.of_trace htrace).after_nothing (evaluate_hears hc h)

/-- Nothing is heard of runs and calls nested however deep. -/
theorem Callees.ofFuel_hears (depth : Nat) :
    (Callees.ofFuel depth : Callees D K σ).Discreet := by
  induction depth with
  | zero => exact ⟨nofun, nofun⟩
  | succ depth ih => exact ⟨fun h => Runner.evaluateWith_hears ih h, fun h => Act.exec_hears ih _ h⟩

end Nested

end EffectMachine
