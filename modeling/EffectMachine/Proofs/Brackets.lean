/-
  Traces are well bracketed.

  A run tells of every environment that it binds and of every one that it drops, and of how many
  are bound then.  Read as brackets these events match: they are a balanced sequence as far as the
  scopes have been closed (`Balanced`), and what is open besides is as it lies on the stack of
  frames (`Unclosed`).  The stack is what carries the proof: along the states that a run visits, the
  brackets that are open are the `restore` frames that are pending (`Machine.Visits.unclosed`).

  A run that returns has no frame pending at the end, and so its trace is balanced.  A run that is
  cut short leaves open what was open then.
-/
import EffectMachine.Proofs.Events
import EffectMachine.Proofs.TypedEffects
import EffectMachine.Proofs.Unwinding

namespace EffectMachine

variable {D K σ : Type} {R E A : Ty}

/-! ## Brackets -/

/-- What is told while all scopes that are opened are closed again, where `n` environments are
    bound. -/
inductive Balanced : Nat → List Event → Prop where
  | nil {n} : Balanced n []
  | raised {n events} (h : Balanced n events) : Balanced n (.raised :: events)
  | scope {n inner events} (hinner : Balanced (n + 1) inner) (h : Balanced n events) :
      Balanced n (.bound (n + 1) :: inner ++ .restored n :: events)

/-- What is told while some of the scopes that are opened are not closed: how many environments
    are bound in each of these, the innermost first. -/
inductive Unclosed : Nat → List Event → List Nat → Prop where
  | balanced {n events} (h : Balanced n events) : Unclosed n events []
  | scope {n before inner depths} (hbefore : Balanced n before)
      (h : Unclosed (n + 1) inner depths) :
      Unclosed n (before ++ .bound (n + 1) :: inner) (depths ++ [n + 1])

namespace Balanced

variable {n : Nat} {events events' : List Event}

/-- What is balanced may be put together in sequence. -/
theorem append (h : Balanced n events) (h' : Balanced n events') :
    Balanced n (events ++ events') := by
  induction h with
  | nil => exact h'
  | raised _ ih => exact .raised (ih h')
  | scope hinner _ _ ih =>
    rw [List.append_assoc, List.cons_append]
    exact .scope hinner (ih h')

/-- The end of a run is told outside of all its scopes, so it is not told between them. -/
theorem not_finished (h : Balanced n events) (steps : Nat) (succeeded : Bool) :
    Event.finished steps succeeded ∉ events := by
  induction h with
  | nil => exact List.not_mem_nil
  | raised _ ih => simp [ih]
  | scope _ _ ihinner ih => simp [ihinner, ih]

end Balanced

namespace Unclosed

variable {n depth : Nat} {events : List Event} {depths : List Nat}

/-- Where no scope is left open the sequence is balanced. -/
theorem closed (h : Unclosed n events []) : Balanced n events := by
  generalize hdepths : ([] : List Nat) = depths at h
  cases h with
  | balanced h => exact h
  | scope => simp at hdepths

/-- What is open is open in order, one environment more in each scope than outside of it. -/
theorem depths_eq (h : Unclosed n events depths) :
    depths.reverse = List.range' (n + 1) depths.length := by
  induction h with
  | balanced => rfl
  | scope _ _ ih =>
    rw [List.reverse_append, ih, List.length_append]
    rfl

/-- What is open can be closed: such a sequence is the beginning of a balanced one. -/
theorem closing (h : Unclosed n events depths) :
    Balanced n (events ++ depths.map fun depth => .restored (depth - 1)) := by
  induction h with
  | balanced h =>
    rw [List.map_nil, List.append_nil]
    exact h
  | @scope n before inner depths hbefore _ ih =>
    have hscope := hbefore.append (.scope ih .nil)
    simpa using hscope

theorem not_finished (h : Unclosed n events depths) (steps : Nat) (succeeded : Bool) :
    Event.finished steps succeeded ∉ events := by
  intro hmem
  exact h.closing.not_finished steps succeeded (List.mem_append_left _ hmem)

/-! What may be told next. -/

/-- What is raised in a closure that is attempted is told where it happens, and changes nothing
    about the scopes. -/
theorem raised (h : Unclosed n events depths) : Unclosed n (events ++ [.raised]) depths := by
  induction h with
  | balanced h => exact .balanced (h.append (.raised .nil))
  | scope hbefore _ ih =>
    rw [List.append_assoc, List.cons_append]
    exact .scope hbefore ih

/-- A scope may be opened, with one environment more than in the innermost one. -/
theorem bound (h : Unclosed n events depths) :
    Unclosed n (events ++ [.bound (n + depths.length + 1)])
      ((n + depths.length + 1) :: depths) := by
  induction h with
  | balanced h => exact .scope h (.balanced .nil)
  | @scope n before inner depths hbefore _ ih =>
    have hlength : n + (depths ++ [n + 1]).length + 1 = n + 1 + depths.length + 1 := by
      rw [List.length_append, List.length_singleton]
      omega
    rw [hlength, List.append_assoc, List.cons_append, ← List.cons_append]
    exact .scope hbefore ih

/-- The innermost of the open scopes may be closed. -/
theorem restored (h : Unclosed n events ((depth + 1) :: depths)) :
    Unclosed n (events ++ [.restored depth]) depths := by
  generalize hdepths : (depth + 1) :: depths = all at h
  induction h generalizing depths with
  | balanced => cases hdepths
  | @scope n before inner opened hbefore h ih =>
    rw [List.append_assoc, List.cons_append]
    rcases opened with _ | ⟨innermost, opened⟩
    · cases hdepths
      exact .balanced (hbefore.append (.scope h.closed .nil))
    · obtain ⟨rfl, rfl⟩ := List.cons.inj hdepths
      exact .scope hbefore (ih rfl)

end Unclosed

example : Balanced 0 [.bound 1, .raised, .bound 2, .restored 1, .restored 0] :=
  .scope (.raised (.scope .nil .nil)) .nil

/-! ## Brackets and frames -/

namespace Machine

/-- The scopes that are open: how many environments are bound in each, the innermost first. -/
def scopes (m : Machine D K) : List Nat := (Frame.depths m.frames).map (· + 1)

variable [Language D K σ] {callees : Callees D K σ} {m m' : Machine D K} {w w' : World σ}
  {start now : Machine D K × World σ} {states : List (Machine D K × World σ)}

/-- A step tells of the scope that it opens or closes, if it does either. -/
theorem Leads.unclosed {base : Nat} {told : List Event} (h : Leads callees m w m' w')
    (hsize : m.environments.size = base + m.scopes.length) (htold : Unclosed base told m.scopes) :
    Unclosed base (told ++ tells callees (m, w)) m'.scopes := by
  cases h with
  | @leaf node _ _ frames envs steps _ _ hleaf =>
    rw [tells_leaf hleaf]
    split
    · exact htold.raised
    · rw [List.append_nil]
      exact htold
  | @enter node inner frame frames envs steps _ henter =>
    rw [tells_enter henter, List.append_nil]
    simpa only [scopes, Frame.depths_cons_none (Frame.depth?_of_enter henter)] using htold
  | bind htake =>
    -- the environment bound now is one more than those of the scopes open already
    simp only [tells, htake]
    simp only at hsize
    have hbound := htold.bound
    rw [← hsize] at hbound
    exact hbound
  | consumed htake =>
    simp only [tells, htake, List.append_nil]
    exact htold
  | read =>
    simp only [tells, List.append_nil]
    exact htold
  | resume hframe =>
    rw [tells_answer hframe, List.append_nil]
    simpa only [scopes, Frame.depths_cons_none (Frame.depth?_of_answer hframe)] using htold
  | skip =>
    simp only [tells, List.append_nil]
    exact htold
  | restore => exact htold.restored

/-- So many environments are bound in the innermost scope. -/
theorem Reaches.size_eq (hstart : start.1.frames = []) (h : Reaches callees start now) :
    now.1.environments.size = start.1.environments.size + now.1.scopes.length := by
  rw [scopes, List.length_map]
  exact (h.nested hstart).depths_eq.2

/-- What has been told leaves open just those scopes that are on the stack of frames. -/
theorem Visits.unclosed (hstart : start.1.frames = []) (h : Visits callees start states now) :
    Unclosed start.1.environments.size (states.flatMap (tells callees)) now.1.scopes := by
  induction h with
  | start =>
    simp only [scopes, hstart]
    exact .balanced .nil
  | step hvisits hstep ih =>
    rw [List.flatMap_append, List.flatMap_singleton]
    exact hstep.unclosed (hvisits.reaches.size_eq hstart) ih

/-- As many defects have been told of as attempted closures have raised. -/
theorem count_raised (states : List (Machine D K × World σ)) :
    (states.flatMap (tells callees)).count .raised = states.countP (panics callees) := by
  induction states with
  | nil => rfl
  | cons now states ih =>
    rw [List.flatMap_cons, List.count_append, ih, count_raised_tells, List.countP_cons]
    exact Nat.add_comm _ _

/-- What has been reported since a run began, when it has come through these states to `now`. -/
structure Recounts (callees : Callees D K σ) (base : Nat) (states : List (Machine D K × World σ))
    (now : Machine D K) (body : List Event) : Prop where
  /-- The run's own events are what its steps tell, in their order. -/
  own : Event.own 0 body = states.flatMap (tells callees)
  /-- The spans of the runs inside are whole. -/
  whole (rest : List Event) : Event.own 0 (body ++ rest) = Event.own 0 body ++ Event.own 0 rest
  unclosed : Unclosed base (Event.own 0 body) now.scopes
  /-- Each open scope has one environment more bound than the one around it. -/
  depths : now.scopes.reverse = List.range' (base + 1) now.scopes.length
  size : now.environments.size = base + now.scopes.length
  raised : (Event.own 0 body).count .raised = states.countP (panics callees)
  unfinished (steps : Nat) (succeeded : Bool) : .finished steps succeeded ∉ Event.own 0 body

/-- By induction on the states visited, with what each of them tells put behind the rest. -/
theorem Visits.recounts (hstart : start.1.frames = []) (h : Visits callees start states now)
    {v : World σ} (hheard : start.2.Hears (states.flatMap (tells callees)) v) :
    ∃ body, v.trace = body.reverse ++ start.2.trace ∧
      Recounts callees start.1.environments.size states now.1 body := by
  obtain ⟨body, htrace, htells⟩ := hheard
  have hunclosed := h.unclosed hstart
  refine ⟨body, htrace, htells.own_eq, fun rest => ?_, ?_, ?_, ?_, ?_, ?_⟩
  · rw [htells.outside, htells.own_eq]
  · rw [htells.own_eq]
    exact hunclosed
  · exact hunclosed.depths_eq
  · exact h.reaches.size_eq hstart
  · rw [htells.own_eq]
    exact count_raised states
  · rw [htells.own_eq]
    exact hunclosed.not_finished

end Machine

/-! ## Whole runs -/

section Runs

variable [M : Language D K σ] {callees : Callees D K σ} {r r' : Runner D K} {w w' : World σ}

/-- An evaluation that ends has reported, between the marks of its span, what its steps tell, and
    at the end how it ended if it was not cut short. -/
theorem Runner.evaluate_recounts (hc : callees.Discreet) {fuel : Nat} {node : Node D K}
    {ending : Raised D K (Ending D K)}
    (h : r.evaluate callees fuel node w = some (ending, r', w')) :
    ∃ states last body, Machine.Visits callees (r.start node, r.opened w) states last ∧
      Machine.Recounts callees r.environments.size states last.1 body ∧
      ((∃ e, ending = .ok e ∧ last.1.control = .settle e ∧ last.1.frames = [] ∧
          w'.trace = .exit :: .finished r'.lastSteps e.isSuccess ::
            (body.reverse ++ (r.opened w).trace)) ∨
        ∃ p, ending = .error p ∧
          ((∃ steps u, Machine.Leaves callees last.1 last.2 (.error p) steps u) ∨
            r.settings.framesFit = false ∧ states = []) ∧
          w'.trace = .exit :: (body.reverse ++ (r.opened w).trace)) := by
  have hends : ∀ {ending envs steps v},
      Machine.drive callees fuel (r.start node) (r.opened w) = some ((ending, envs, steps), v) →
        ∃ states last body, Machine.Visits callees (r.start node, r.opened w) states last ∧
          Machine.Recounts callees r.environments.size states last.1 body ∧
          Machine.Leaves callees last.1 last.2 ending steps v ∧
          v.trace = body.reverse ++ (r.opened w).trace := by
    intro ending envs steps v hdrive
    obtain ⟨last, u, hreach, hleaves, -⟩ := Machine.Ends.exists_reaches ⟨fuel, hdrive⟩
    obtain ⟨states, hvisits⟩ := hreach.exists_visits
    have hheard := (hvisits.hears hc).trans (hleaves.hears hc)
    rw [List.append_nil] at hheard
    obtain ⟨body, htrace, hrecounts⟩ := hvisits.recounts rfl hheard
    exact ⟨states, (last, u), body, hvisits, hrecounts, hleaves, htrace⟩
  -- there is no room for the frames, or the machine ends by settling or by raising
  obtain ⟨hfit, rfl, rfl, rfl⟩ | ⟨-, e, envs, steps, v, hdrive, rfl, rfl, rfl⟩ |
    ⟨-, p, envs, steps, v, hdrive, rfl, rfl, rfl⟩ := evaluate_cases h
  · have hvisits : Machine.Visits callees (r'.start node, r'.opened w) [] _ := .start
    obtain ⟨body, htrace, hrecounts⟩ := hvisits.recounts rfl (.refl _)
    refine ⟨[], _, body, hvisits, hrecounts, .inr ⟨_, rfl, .inr ⟨hfit, rfl⟩, ?_⟩⟩
    exact congrArg (Event.exit :: ·) htrace
  · obtain ⟨states, last, body, hvisits, hrecounts, hleaves, htrace⟩ := hends hdrive
    refine ⟨states, last, body, hvisits, hrecounts, .inl ⟨e, rfl, ?_⟩⟩
    obtain ⟨m, u⟩ := last
    cases hleaves
    exact ⟨rfl, rfl, congrArg (Event.exit :: .finished _ _ :: ·) htrace⟩
  · obtain ⟨states, last, body, hvisits, hrecounts, hleaves, htrace⟩ := hends hdrive
    refine ⟨states, last, body, hvisits, hrecounts, .inr ⟨p, rfl, .inl ⟨_, _, hleaves⟩, ?_⟩⟩
    exact congrArg (Event.exit :: ·) htrace

/-- A typed effect ends in a success just where the run for its outcome does. -/
theorem Effect.Built.isSuccess_iff {Γ : Signature K} {I : σ → Prop} (hM : M.Honours Γ I)
    {e : Effect D K R E A} (he : e.Built Γ) (hr : r.environments = #[]) {depth fuel : Nat}
    {env : Option (Value D K)} (henv : Supplied Γ R env) (hw : I w.state) {ending : Ending D K}
    (h : r.evaluateWith (Callees.ofFuel depth) fuel env e.node w = some (.ok ending, r', w')) :
    ending.isSuccess = true ↔
      ∃ a, (.ok (ending.checked E A) : Raised D K (Ending D K)) = .ok (.success a) := by
  obtain ⟨-, htyped, -⟩ := Runner.evaluateWith_sound hM (Callees.ofFuel_sound hM depth) hr henv
    he.typed hw h
  rw [Ending.Typed.checked_eq htyped]
  cases ending with
  | success a => exact ⟨fun _ => ⟨a, rfl⟩, fun _ => rfl⟩
  | failure c => exact ⟨nofun, nofun⟩

end Runs

/-- The trace of every run is well bracketed.

    Take a run of any effect, typed or not, on any runner and with an environment bound for the run
    or without, and of what it reports leave aside the spans of the runs inside.

    At any point what is left is what the steps tell that were taken so far, in their order: the
    scopes that they opened and closed, and one defect for every attempted closure that raised.  As
    brackets these are the beginning of a balanced sequence (`Unclosed.closing`), in which each
    scope is opened and closed with the number of environments bound.  The brackets that are open
    are the scopes that are on the stack of frames.

    A run that returns has closed all of them.  The last thing it reports within its span, and it
    reports this once, is that it is finished, after as many steps as the runner keeps; and it says
    that it succeeded if it has, which for a typed effect is if the run for its outcome ends in a
    success.  A run that is cut short does not report that it is finished, and has left open the
    scopes that were open in its last state, in which the closure raised that cut it short or there
    was no room to begin. -/
theorem Effect.trace_bracketed (M : Language D K σ) (depth : Nat) {R E A : Ty} (r : Runner D K)
    (env : Option (Value D K)) (e : Effect D K R E A) (w : World σ) :
    let callees : Callees D K σ := Callees.ofFuel depth
    let reported (body : List Event) : List Event :=
      body.reverse ++ .enter :: .span r.settings.label :: w.trace
    ∃ node w₀, Runner.entry env e.node callees w = some (.ok node, w₀) ∧
      let Visits := Machine.Visits callees (r.start node, r.opened w₀)
      let Recounts := Machine.Recounts callees r.environments.size
      (∀ states now, Visits states now →
        ∃ body, now.2.trace = reported body ∧ Recounts states now.1 body) ∧
      ∀ r' result w', (r.runBound env e).exec (Callees.ofFuel (depth + 1)) w =
          some (.ok (r', result), w') →
        ∃ states last body, Visits states last ∧ Recounts states last.1 body ∧
          ((∃ ending, result = .ok (ending.checked E A) ∧
              last.1.control = .settle ending ∧ last.1.frames = [] ∧
              w'.trace = .exit :: .finished r'.lastSteps ending.isSuccess :: reported body ∧
              Balanced r.environments.size (Event.own 0 body) ∧
              ∀ Γ I, M.Honours Γ I → e.Built Γ → r.environments = #[] → Supplied Γ R env →
                I w.state → (ending.isSuccess = true ↔ ∃ a, result = .ok (.success a))) ∨
            ∃ p, result = .error p ∧ w'.trace = .exit :: reported body ∧
              ((∃ steps u, Machine.Leaves callees last.1 last.2 (.error p) steps u) ∨
                r.settings.framesFit = false ∧ states = [])) := by
  intro callees reported
  have hc : callees.Discreet := Callees.ofFuel_hears depth
  -- to bind the environment given takes a cell, and nothing is reported of it
  obtain ⟨node, w₀, hentry, htrace⟩ : ∃ node w₀,
      Runner.entry env e.node callees w = some (.ok node, w₀) ∧ w₀.trace = w.trace := by
    cases env <;> exact ⟨_, _, rfl, rfl⟩
  have hopened : (r.opened w₀).trace = .enter :: .span r.settings.label :: w.trace := by
    rw [← htrace]
    rfl
  refine ⟨node, w₀, hentry, ?_, ?_⟩
  · intro states now hvisits
    obtain ⟨body, hbody, hrecounts⟩ := hvisits.recounts rfl (hvisits.hears hc)
    rw [show (r.start node, r.opened w₀).2.trace = _ from hopened] at hbody
    exact ⟨body, hbody, hrecounts⟩
  · intro r' result w' hrun
    rw [Runner.exec_runBound, Option.map_eq_some_iff] at hrun
    obtain ⟨⟨raised, r₁, w₁⟩, hwith, hresult⟩ := hrun
    cases hresult
    have heval := hwith
    rw [Runner.evaluateWith, hentry] at heval
    obtain ⟨states, last, body, hvisits, hrecounts, ⟨ending, rfl, hcontrol, hframes, hbody⟩ |
      ⟨p, rfl, hleaves, hbody⟩⟩ := Runner.evaluate_recounts hc heval
    · rw [hopened] at hbody
      refine ⟨states, last, body, hvisits, hrecounts, .inl
        ⟨ending, rfl, hcontrol, hframes, hbody, ?_, ?_⟩⟩
      · have hunclosed := hrecounts.unclosed
        rw [Machine.scopes, hframes] at hunclosed
        exact hunclosed.closed
      · intro Γ I hM he hr henv hw
        exact he.isSuccess_iff hM hr henv hw hwith
    · rw [hopened] at hbody
      exact ⟨states, last, body, hvisits, hrecounts, .inr ⟨p, rfl, hbody, hleaves⟩⟩

/-- A scope in which an attempted closure raises is closed as any other. -/
example :
    letI := Language.raising
    let refused : Effect Unit Bool .text .unit .text := .attempt true
    let e : Effect Unit Bool .unit .unit .text := refused.provide (.text "bound")
    (e.runOutcome.exec (Callees.ofFuel 9) (World.start ())).map (fun out => out.2.trace.reverse) =
      some [.span "eddy", .enter, .bound 1, .raised, .restored 0, .finished 2 false, .exit] := rfl

end EffectMachine
