/-
  How many nodes a run dispatches, and what a runner keeps of it.

  The machine counts steps as it goes.  What it counts is made explicit here: of the states that an
  evaluation passes through, those in which a node is dispatched (`Machine.dispatched`).  One step
  adds one for such a state and nothing for any other, and by induction on the states visited the
  count at the end is the number of all nodes dispatched, also if the last step raises.

  A runner takes the count over when a run returns, and only then.  So after any runs what it says is
  the number of nodes dispatched by the last run that returned, which need not be the last run: a
  run that was cut short since has left no mark on it (`Runner.Used.lastSteps_eq`).
-/
import EffectMachine.Proofs.Events
import EffectMachine.Proofs.Unwinding
import Mathlib.Data.List.Induction

namespace EffectMachine

variable {D K σ : Type}

/-! ## Nodes dispatched -/

/-- The node that is to be dispatched, if one is. -/
def Control.node? : Control D K → Option (Node D K)
  | .dispatch node => some node
  | .settle _ => none

namespace Machine

/-- The nodes that are dispatched in these states, in their order. -/
def dispatched (states : List (Machine D K × World σ)) : List (Node D K) :=
  states.filterMap fun state => state.1.control.node?

theorem dispatched_concat (states : List (Machine D K × World σ)) (m : Machine D K) (w : World σ) :
    dispatched (states ++ [(m, w)]) = dispatched states ++ m.control.node?.toList := by
  rw [dispatched, List.filterMap_append, List.filterMap_cons, List.filterMap_nil]
  cases m.control <;> rfl

section Counting

variable [Language D K σ] {callees : Callees D K σ}

/-- A step that leads on counts the node that is dispatched in it, if there is one. -/
theorem Leads.steps_eq {m m' : Machine D K} {w w' : World σ} (h : Leads callees m w m' w') :
    m'.steps = m.steps + m.control.node?.toList.length := by
  cases h <;> rfl

/-- So does the step that ends the evaluation, if it raises or not. -/
theorem Leaves.steps_eq {m : Machine D K} {w w' : World σ} {ending : Raised D K (Ending D K)}
    {steps : Nat} (h : Leaves callees m w ending steps w') :
    steps = m.steps + m.control.node?.toList.length := by
  cases h <;> rfl

variable {start now : Machine D K × World σ} {states : List (Machine D K × World σ)}

/-- On the way all nodes dispatched so far have been counted. -/
theorem Visits.steps_eq (h : Visits callees start states now) :
    now.1.steps = start.1.steps + (dispatched states).length := by
  induction h with
  | start => rfl
  | step _ hstep ih =>
    rw [hstep.steps_eq, ih, dispatched_concat, List.length_append, Nat.add_assoc]

end Counting

end Machine

namespace Runner

section Runs

variable [Language D K σ] {callees : Callees D K σ} {r r' : Runner D K} {fuel : Nat}
  {node : Node D K} {ending : Raised D K (Ending D K)} {w w' : World σ} {nodes : List (Node D K)}

/-- An evaluation on this runner dispatches these nodes, in this order, before it comes to its end.
    Where there is no room for the frames it dispatches none. -/
inductive Dispatches (callees : Callees D K σ) (r : Runner D K) (node : Node D K) (w : World σ) :
    List (Node D K) → Prop where
  | overflown (hfit : r.settings.framesFit = false) : Dispatches callees r node w []
  | left {states last ending steps u} (hfit : r.settings.framesFit = true)
      (hvisits : Machine.Visits callees (r.start node, r.opened w) states last)
      (hleaves : Machine.Leaves callees last.1 last.2 ending steps u) :
      Dispatches callees r node w (Machine.dispatched (states ++ [last]))

/-- What the machine has counted when it comes to an end are the nodes dispatched. -/
theorem Dispatches.of_drive (hfit : r.settings.framesFit = true) {envs : Array (Value D K)}
    {steps : Nat} (h : Machine.drive callees fuel (r.start node) (r.opened w) =
      some ((ending, envs, steps), w')) :
    ∃ nodes, Dispatches callees r node w nodes ∧ nodes.length = steps := by
  obtain ⟨last, v, hreach, hleaves, -⟩ := Machine.Ends.exists_reaches ⟨fuel, h⟩
  obtain ⟨states, hvisits⟩ := hreach.exists_visits
  have hcount : (r.start node).steps = 0 := rfl
  refine ⟨_, .left hfit hvisits hleaves, ?_⟩
  rw [hleaves.steps_eq, hvisits.steps_eq, Machine.dispatched_concat, List.length_append, hcount,
    Nat.zero_add]

/-- There is one number at most of nodes that an evaluation dispatches. -/
theorem Dispatches.length_unique {nodes' : List (Node D K)} (h : Dispatches callees r node w nodes)
    (h' : Dispatches callees r node w nodes') : nodes'.length = nodes.length := by
  -- the machine comes to one end only, and has counted them there
  have hends : ∀ {nodes}, Dispatches callees r node w nodes → r.settings.framesFit = true →
      ∃ ending envs u,
        Machine.Ends callees (r.start node) (r.opened w) ending envs nodes.length u := by
    rintro _ (hfit | @⟨states, last, ending, steps, u, -, hvisits, hleaves⟩) hfit'
    · rw [hfit] at hfit'
      cases hfit'
    · have hends := Machine.Ends.of_reaches hvisits.reaches (.of_leaves hleaves)
      have hcount : (r.start node).steps = 0 := rfl
      rw [hleaves.steps_eq, hvisits.steps_eq, hcount, Nat.zero_add, ← List.length_append,
        ← Machine.dispatched_concat] at hends
      exact ⟨ending, _, u, hends⟩
  cases hfit : r.settings.framesFit with
  | false =>
    have hnone : ∀ {nodes}, Dispatches callees r node w nodes → nodes = [] := by
      rintro _ (- | hfit')
      · rfl
      · rw [hfit] at hfit'
        cases hfit'
    rw [hnone h, hnone h']
  | true =>
    obtain ⟨ending, envs, u, fuel, hdrive⟩ := hends h hfit
    obtain ⟨ending', envs', u', fuel', hdrive'⟩ := hends h' hfit
    have hmax := Machine.drive_of_le (Nat.le_max_left fuel fuel') hdrive
    have hmax' := Machine.drive_of_le (Nat.le_max_right fuel fuel') hdrive'
    have hsame := hmax.symm.trans hmax'
    simp only [Option.some.injEq, Prod.mk.injEq] at hsame
    exact hsame.1.2.2.symm

/-- However an evaluation ends, it has dispatched some nodes.  If it returns, the runner says how
    many; if it raises, the runner says what it said before. -/
theorem exists_dispatches (h : r.evaluate callees fuel node w = some (ending, r', w')) :
    ∃ nodes, Dispatches callees r node w nodes ∧
      (∀ e, ending = .ok e → r'.lastSteps = nodes.length) ∧
      ∀ p, ending = .error p → r'.lastSteps = r.lastSteps := by
  obtain ⟨hfit, rfl, rfl, -⟩ | ⟨hfit, e, envs, steps, w₁, hdrive, rfl, rfl, -⟩ |
    ⟨hfit, p, envs, steps, w₁, hdrive, rfl, rfl, -⟩ := evaluate_cases h
  · exact ⟨[], .overflown hfit, nofun, fun _ _ => rfl⟩
  · obtain ⟨nodes, hnodes, rfl⟩ := Dispatches.of_drive hfit hdrive
    exact ⟨nodes, hnodes, fun _ _ => rfl, nofun⟩
  · obtain ⟨nodes, hnodes, -⟩ := Dispatches.of_drive hfit hdrive
    exact ⟨nodes, hnodes, nofun, fun _ _ => rfl⟩

end Runs

/-! ## One run after another -/

/-- The runner `r` has made these runs, one after another, and is `r'` now: how each of them ended,
    and which nodes it dispatched.  Between two runs anything may happen to the world. -/
inductive Used (r : Runner D K) :
    List (Raised D K (Ending D K) × List (Node D K)) → Runner D K → Prop where
  | unused : Used r [] r
  | ran {runs r' ending nodes r''} {τ : Type} {L : Language D K τ} {callees : Callees D K τ}
      {fuel : Nat} {env : Option (Value D K)} {node start : Node D K} {w w₁ w' : World τ}
      (h : Used r runs r') (hrun : r'.evaluateWith callees fuel env node w = some (ending, r'', w'))
      (hstart : entry env node callees w = some (.ok start, w₁))
      (hnodes : r'.Dispatches callees start w₁ nodes) : Used r (runs ++ [(ending, nodes)]) r''

/-- What a runner says after a run that returned, and after one that raised. -/
theorem lastSteps_of_run [Language D K σ] {callees : Callees D K σ} {r r' : Runner D K} {fuel : Nat}
    {env : Option (Value D K)} {node start : Node D K} {ending : Raised D K (Ending D K)}
    {w w₁ w' : World σ} {nodes : List (Node D K)}
    (hrun : r.evaluateWith callees fuel env node w = some (ending, r', w'))
    (hstart : entry env node callees w = some (.ok start, w₁))
    (hnodes : r.Dispatches callees start w₁ nodes) :
    (∀ e, ending = .ok e → r'.lastSteps = nodes.length) ∧
      ∀ p, ending = .error p → r'.lastSteps = r.lastSteps := by
  rw [evaluateWith, hstart] at hrun
  obtain ⟨nodes', hnodes', hreturned, hraised⟩ := exists_dispatches hrun
  rw [hnodes'.length_unique hnodes]
  exact ⟨hreturned, hraised⟩

namespace Used

variable {r r' : Runner D K} {runs : List (Raised D K (Ending D K) × List (Node D K))}

/-- After any runs a runner says how many nodes the last one dispatched that returned.

    Every run that comes to an end dispatches some nodes first, and their number is determined.  Of
    any runs made on one runner, one after another, take the last one that was not cut short by
    what a closure raised, whether it ended in a success, a typed failure or a defect: the steps
    that the runner says are just the nodes that this run dispatched.  If it is the very last run,
    they are those of the last run.  If all runs were cut short, the steps are what they were in the
    beginning. -/
theorem lastSteps_eq (h : Used r runs r') :
    (∀ (τ : Type) (_ : Language D K τ) (callees : Callees D K τ) (fuel : Nat)
      (env : Option (Value D K)) (node : Node D K) (w : World τ) {ending r'' w'},
      r'.evaluateWith callees fuel env node w = some (ending, r'', w') →
        ∃ start w₁ nodes, entry env node callees w = some (.ok start, w₁) ∧
          r'.Dispatches callees start w₁ nodes ∧
          ∀ nodes', r'.Dispatches callees start w₁ nodes' → nodes'.length = nodes.length) ∧
    (∀ earlier ending nodes later, runs = earlier ++ (.ok ending, nodes) :: later →
      (∀ run ∈ later, ∃ p, run.1 = .error p) → r'.lastSteps = nodes.length) ∧
    ((∀ run ∈ runs, ∃ p, run.1 = .error p) → r'.lastSteps = r.lastSteps) := by
  refine ⟨?_, ?_, ?_⟩
  · intro τ _ callees fuel env node w ending r'' w' hrun
    obtain ⟨start, w₁, hstart⟩ : ∃ start w₁, entry env node callees w = some (.ok start, w₁) := by
      cases env <;> exact ⟨_, _, rfl⟩
    rw [evaluateWith, hstart] at hrun
    obtain ⟨nodes, hnodes, -⟩ := exists_dispatches hrun
    exact ⟨start, w₁, nodes, hstart, hnodes, fun nodes' => hnodes.length_unique⟩
  · -- from the last run back to the one that returned
    induction h with
    | unused =>
      intro earlier ending nodes later heq
      simp at heq
    | @ran runs r' ending' nodes' r'' τ L callees fuel env node start w w₁ w' h hrun hstart hnodes
        ih =>
      obtain ⟨hreturned, hraised⟩ := lastSteps_of_run hrun hstart hnodes
      intro earlier ending nodes later heq hlater
      cases later using List.reverseRecOn with
      | nil =>
        obtain ⟨-, hlast⟩ := List.append_inj' heq rfl
        cases hlast
        exact hreturned ending rfl
      | append_singleton later last =>
        rw [← List.cons_append, ← List.append_assoc] at heq
        obtain ⟨hruns, hlast⟩ := List.append_inj' heq rfl
        cases hlast
        obtain ⟨p, rfl⟩ := hlater _ (List.mem_append_right _ (List.mem_singleton.mpr rfl))
        rw [hraised p rfl]
        exact ih earlier ending nodes later hruns fun run hmem =>
          hlater run (List.mem_append_left _ hmem)
  · induction h with
    | unused => exact fun _ => rfl
    | ran h hrun hstart hnodes ih =>
      intro hruns
      obtain ⟨p, rfl⟩ := hruns _ (List.mem_append_right _ (List.mem_singleton.mpr rfl))
      rw [(lastSteps_of_run hrun hstart hnodes).2 p rfl]
      exact ih fun run hmem => hruns run (List.mem_append_left _ hmem)

/-- A run that a closure cuts short, and then one that returns: the runner says how many nodes the
    second one dispatched. -/
theorem lastSteps_eq_raising :
    letI := Language.raising
    let raises : Node Unit Bool := .total true []
    let greets : Node Unit Bool := .total false []
    ∃ r', Used fresh [(.error (.text "no"), [raises]),
        (.ok (.success (.text "hello")), [greets])] r' ∧ r'.lastSteps = 1 := by
  let _ := Language.raising
  intro raises greets
  let callees : Callees Unit Bool Unit := Callees.ofFuel 9
  let r : Runner Unit Bool := fresh
  let w : World Unit := World.start ()
  obtain ⟨w₁, hraises⟩ : ∃ w₁, fresh.evaluateWith callees 9 none raises w =
      some (.error (.text "no"), fresh, w₁) := ⟨_, rfl⟩
  obtain ⟨r', w', hgreets⟩ : ∃ r' w', fresh.evaluateWith callees 9 none greets w =
      some (.ok (.success (.text "hello")), r', w') := ⟨_, _, rfl⟩
  have hone : r.Dispatches callees raises w [raises] :=
    .left fresh_framesFit .start (.leaf rfl rfl)
  have hsettled : Machine.Visits callees (r.start greets, r.opened w)
      [(r.start greets, r.opened w)]
      (⟨.settle (.success (.text "hello")), [], #[], 1⟩, r.opened w) :=
    .step .start (.leaf rfl rfl)
  have hone' : r.Dispatches callees greets w [greets] := .left fresh_framesFit hsettled .finish
  have hused := (Used.unused.ran hraises rfl hone).ran hgreets rfl hone'
  obtain ⟨-, hreturned, -⟩ := lastSteps_eq hused
  exact ⟨r', hused, hreturned [_] _ _ [] rfl nofun⟩

/-- After a run that a closure cuts short a runner does not say how many nodes that dispatched: the
    second of these runs dispatches one, and three is what the runner says. -/
theorem lastSteps_ne_raising :
    letI := Language.raising
    let callees : Callees Unit Bool Unit := Callees.ofFuel 9
    let greets : Node Unit Bool := .flatMap (.succeed (.shared .unit)) (.typed .unit (.nowOf false))
    let raises : Node Unit Bool := .total true []
    ∃ r₁ w₁ r₂ w₂, fresh.evaluateWith callees 9 none greets (World.start ()) =
        some (.ok (.success (.text "hello")), r₁, w₁) ∧
      r₁.evaluateWith callees 9 none raises w₁ = some (.error (.text "no"), r₂, w₂) ∧
      (∀ nodes, r₁.Dispatches callees raises w₁ nodes → nodes.length = 1) ∧
      r₂.lastSteps = 3 := by
  let _ := Language.raising
  intro callees greets raises
  refine ⟨_, _, _, _, rfl, rfl, fun nodes => ?_, rfl⟩
  have hraises : ∀ {r : Runner Unit Bool} {w}, r.settings.framesFit = true →
      r.Dispatches callees raises w [raises] := fun hfit => .left hfit .start (.leaf rfl rfl)
  exact (hraises (by decide)).length_unique

end Used

end Runner

end EffectMachine
