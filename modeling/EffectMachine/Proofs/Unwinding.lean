/-
  What becomes of what is raised.

  A step that raises is the last one of the evaluation, whatever frames are pending, so that no
  handler is asked and no closure is called any more.  The runner is left as it was, and the world
  as the closure left it that raised (`Runner.evaluate_raised`).  A run hands the payload on: it
  ends in it, or, if no call of the evaluation raises, it returns.

  What an attempted closure raises goes on as a defect instead, past all frames that do not look at
  causes, to the topmost one that does (`Machine.Reaches.past`).
-/
import EffectMachine.Effect.Recovery
import EffectMachine.Effect.Sequence
import EffectMachine.Proofs.Calls
import EffectMachine.Proofs.Raising

namespace EffectMachine

variable {D K σ : Type}

/-! ## One end at most -/

section Unique

variable [Language D K σ] {callees : Callees D K σ} {w : World σ}

/-- An evaluation that has come to an end does so with more fuel as well, and in the same way. -/
theorem Machine.drive_of_le {fuel more : Nat} (hle : fuel ≤ more) {m : Machine D K}
    {result : (Raised D K (Ending D K) × Array (Value D K) × Nat) × World σ}
    (h : drive callees fuel m w = some result) : drive callees more m w = some result := by
  induction fuel generalizing more m w with
  | zero => cases h
  | succ fuel ih =>
    obtain ⟨more, rfl⟩ : ∃ more', more = more' + 1 := ⟨more - 1, by omega⟩
    simp only [drive] at h ⊢
    rcases hstep : m.step callees w with _ | ⟨next | ⟨ending, envs, steps⟩, w₁⟩
    · rw [hstep] at h
      cases h
    · rw [hstep] at h
      exact ih (by omega) h
    · rw [hstep] at h
      exact h

/-- An evaluation comes to what it came to if the machine does. -/
theorem Runner.evaluate_of_drive_of {c d : Callees D K σ} {fuel more : Nat}
    (hdrive : ∀ {m : Machine D K} {w : World σ} {out},
      Machine.drive c fuel m w = some out → Machine.drive d more m w = some out)
    {r : Runner D K} {node : Node D K} {w : World σ}
    {result : Raised D K (Ending D K) × Runner D K × World σ}
    (h : r.evaluate c fuel node w = some result) : r.evaluate d more node w = some result := by
  simp only [evaluate] at h ⊢
  split at h
  · rename_i hfit
    rw [if_pos hfit]
    split at h
    · rename_i hends
      rw [hdrive hends]
      exact h
    · rename_i hends
      rw [hdrive hends]
      exact h
    · cases h
  · rename_i hfit
    rw [if_neg hfit]
    exact h

/-- An evaluation that has come to an end comes to the same with more fuel. -/
theorem Runner.evaluate_of_le {fuel more : Nat} (hle : fuel ≤ more) {r : Runner D K}
    {node : Node D K} {result : Raised D K (Ending D K) × Runner D K × World σ}
    (h : r.evaluate callees fuel node w = some result) :
    r.evaluate callees more node w = some result :=
  evaluate_of_drive_of (Machine.drive_of_le hle) h

/-- Whatever the fuel, there is one way at most in which an evaluation comes to an end. -/
theorem Runner.evaluate_unique {fuel fuel' : Nat} {r : Runner D K} {node : Node D K}
    {result result' : Raised D K (Ending D K) × Runner D K × World σ}
    (h : r.evaluate callees fuel node w = some result)
    (h' : r.evaluate callees fuel' node w = some result') : result = result' := by
  have hmax := evaluate_of_le (Nat.le_max_left fuel fuel') h
  have hmax' := evaluate_of_le (Nat.le_max_right fuel fuel') h'
  exact Option.some.inj (hmax.symm.trans hmax')

end Unique

/-! ## The last step -/

/-- A closure that the evaluation calls, and does not attempt, raises `p` and leaves the world
    `w'`. -/
def Runner.Meets [Language D K σ] (callees : Callees D K σ) (r : Runner D K) (node : Node D K)
    (w : World σ) (p : Value D K) (w' : World σ) : Prop :=
  ∃ now call v, Machine.Reaches callees (r.start node, r.opened w) now ∧
    now.1.Calls callees now.2 call v ∧ call.Raises callees v p w'

namespace Runner

variable [Language D K σ] {callees : Callees D K σ} {r r' : Runner D K} {node : Node D K}
  {fuel : Nat} {p : Value D K} {w w' u : World σ}

/-- What an evaluation raises, a closure it calls has raised, and the runner is left as it was. -/
theorem meets_of_evaluate (hfit : r.settings.framesFit = true)
    (h : r.evaluate callees fuel node w = some (.error p, r', w')) :
    r' = r ∧ ∃ u, r.Meets callees node w p u ∧ w' = u.report .exit := by
  obtain ⟨hfit', -⟩ | ⟨-, e, envs, steps, w₁, -, hending, -⟩ |
    ⟨-, q, envs, steps, w₁, hdrive, hending, rfl, rfl⟩ := evaluate_cases h
  · rw [hfit] at hfit'
    cases hfit'
  · cases hending
  · cases hending
    have henvs : envs.shrink r.environments.size = r.environments := evaluate_environments h
    constructor
    · rw [henvs]
    · obtain ⟨last, v, hreach, hleaves, -⟩ := Machine.Ends.exists_reaches ⟨fuel, hdrive⟩
      obtain ⟨call, v', hcalls, hraises⟩ := Machine.leaves_error_iff.mp ⟨steps, hleaves⟩
      exact ⟨w₁, ⟨(last, v), call, v', hreach, hcalls, hraises⟩, rfl⟩

/-- Where a closure that an evaluation calls raises, the evaluation ends in what it raises. -/
theorem evaluate_of_meets (hfit : r.settings.framesFit = true)
    (h : r.Meets callees node w p u) :
    ∃ fuel, r.evaluate callees fuel node w = some (.error p, r, u.report .exit) := by
  obtain ⟨now, call, v, hreach, hcalls, hraises⟩ := h
  obtain ⟨steps, hleaves⟩ := Machine.leaves_error_iff.mpr ⟨call, v, hcalls, hraises⟩
  obtain ⟨fuel, hdrive⟩ := Machine.Ends.of_reaches hreach (.of_leaves hleaves)
  have heval : r.evaluate callees fuel node w = some (.error p,
      { r with environments := now.1.environments.shrink r.environments.size },
      u.report .exit) := by
    simp only [start, opened] at hdrive
    simp only [evaluate, hfit, if_true, hdrive]
  have henvs : now.1.environments.shrink r.environments.size = r.environments :=
    evaluate_environments heval
  rw [henvs] at heval
  exact ⟨fuel, heval⟩

/-- Then the evaluation ends in nothing else. -/
theorem evaluate_raised (hfit : r.settings.framesFit = true) (hmeets : r.Meets callees node w p u)
    {ending : Raised D K (Ending D K)}
    (h : r.evaluate callees fuel node w = some (ending, r', w')) :
    ending = .error p ∧ r' = r ∧ w' = u.report .exit := by
  obtain ⟨fuel', heval⟩ := evaluate_of_meets hfit hmeets
  cases evaluate_unique h heval
  exact ⟨rfl, rfl, rfl⟩

end Runner

/-! ## Past the frames that do not look at causes -/

/-- Whether the frame is asked about causes. -/
def Frame.looks : Frame D K → Bool
  | .fold _ _ => true
  | _ => false

namespace Machine

variable [Language D K σ] {callees : Callees D K σ}

/-- A failure goes past all frames that do not look at causes; nothing is played on the way. -/
theorem Reaches.past {newer : List (Frame D K)} (hnewer : ∀ frame ∈ newer, frame.looks = false)
    (older : List (Frame D K)) (c : Cause (Value D K)) (envs : Array (Value D K)) (steps : Nat)
    (w : World σ) :
    ∃ envs' w', Reaches callees (⟨.settle (.failure c), newer ++ older, envs, steps⟩, w)
      (⟨.settle (.failure c), older, envs', steps⟩, w') ∧ w.Agree w' := by
  induction newer generalizing envs w with
  | nil => exact ⟨envs, w, .refl, .refl w⟩
  | cons frame newer ih =>
    have hrest := fun frame hmem => hnewer frame (List.mem_cons_of_mem _ hmem)
    cases frame with
    | apply k =>
      obtain ⟨envs', w', hreach, hagree⟩ := ih hrest envs w
      exact ⟨envs', w', .trans (.single .skip) hreach, hagree⟩
    | restore depth =>
      obtain ⟨envs', w', hreach, hagree⟩ := ih hrest (envs.shrink depth)
        (w.report (.restored depth))
      exact ⟨envs', w', .trans (.single .restore) hreach, (w.agree_report _).trans hagree⟩
    | fold onCause k => cases hnewer _ (List.mem_cons_self ..)

/-- What an attempted closure raises goes on as a defect. -/
theorem Reaches.attempted {f : K} {args : List (Value D K)} {frames : List (Frame D K)}
    {envs : Array (Value D K)} {steps : Nat} {p : Value D K} {w w' : World σ}
    (h : (Call.value f args).Raises callees w p w') :
    Reaches callees (⟨.dispatch (.attempt f args), frames, envs, steps⟩, w)
      (⟨.settle (.failure (.die (.ofRaised p))), frames, envs, steps + 1⟩,
        w'.report .raised) := by
  have hf : (Language.value f args).exec callees w = some (.error p, w') :=
    Act.exec_void_raises_iff.mp h
  refine .single (.leaf rfl ?_)
  simp only [Machine.attempted, Play.bind_apply, Play.attempt, hf]
  rfl

end Machine

/-- An evaluation that reaches the last frame with an ending ends in it, and has dispatched as many
    nodes as there. -/
theorem Runner.evaluate_of_reaches [Language D K σ] {callees : Callees D K σ} {r : Runner D K}
    {node : Node D K} {ending : Ending D K} {envs : Array (Value D K)} {steps : Nat}
    {w w' : World σ} (hfit : r.settings.framesFit = true)
    (h : Machine.Reaches callees (r.start node, r.opened w)
      (⟨.settle ending, [], envs, steps⟩, w')) :
    ∃ fuel v, r.evaluate callees fuel node w =
        some (.ok ending, ⟨r.settings, r.environments, steps⟩, v) ∧ w'.Agree v := by
  obtain ⟨fuel, hdrive⟩ := Machine.Ends.of_reaches h (.of_leaves .finish)
  have heval : r.evaluate callees fuel node w = some (.ok ending,
      ⟨r.settings, envs.shrink r.environments.size, steps⟩,
      (w'.report (.finished steps ending.isSuccess)).report .exit) := by
    simp only [start, opened] at hdrive
    simp only [evaluate, hfit, if_true, hdrive]
  have henvs : envs.shrink r.environments.size = r.environments := evaluate_environments heval
  rw [henvs] at heval
  exact ⟨fuel, _, heval, ⟨rfl, rfl, rfl⟩⟩

/-! ## Runs -/

theorem Runner.fresh_framesFit : (fresh : Runner D K).settings.framesFit = true := by
  show ({} : Settings).framesFit = true
  decide

/-- To raise what was raised, or return what was returned, is to come to just that. -/
theorem Act.exec_ofRaised {α : Type} (callees : Callees D K σ) (result : Raised D K α)
    (w : World σ) : (ofRaised result).exec callees w = some (result, w) := by
  cases result <;> rfl

section Runs

variable [Language D K σ] {E A : Ty}

/-- A run evaluates the effect, and checks what it ends in. -/
theorem Runner.exec_runBound {R : Ty} (depth : Nat) (r : Runner D K) (env : Option (Value D K))
    (e : Effect D K R E A) (w : World σ) :
    (r.runBound env e).exec (Callees.ofFuel (depth + 1)) w =
      (r.evaluateWith (Callees.ofFuel depth) depth env e.node w).map fun (ending, r', w') =>
        (.ok (r', ending.map (Ending.checked E A)), w') := by
  simp only [runBound, Act.exec, Callees.ofFuel]
  rcases r.evaluateWith (Callees.ofFuel depth) depth env e.node w with _ | ⟨ending, r', w'⟩ <;> rfl

/-- A run for the outcome is an evaluation and the check of its ending. -/
theorem Runner.exec_runOutcome (depth : Nat) (r : Runner D K) (e : Effect D K .unit E A)
    (w : World σ) :
    (r.runOutcome e).exec (Callees.ofFuel (depth + 1)) w =
      (r.evaluate (Callees.ofFuel depth) depth e.node w).map fun (ending, r', w') =>
        (.ok (r', ending.map (Ending.checked E A)), w') :=
  r.exec_runBound depth none e w

theorem Effect.exec_runOutcome (depth : Nat) (e : Effect D K .unit E A) (w : World σ) :
    e.runOutcome.exec (Callees.ofFuel (depth + 1)) w =
      (Runner.fresh.evaluate (Callees.ofFuel depth) depth e.node w).map fun (ending, _, w') =>
        (ending.map (Ending.checked E A), w') := by
  rw [runOutcome, Act.exec_bind, Runner.exec_runOutcome]
  rcases Runner.fresh.evaluate (Callees.ofFuel depth) depth e.node w with _ | ⟨_ | _, r', w'⟩ <;>
    rfl

omit [Language D K σ] in
/-- A run for the value goes on with what a run for the outcome ends in, whatever runs are left
    to. -/
theorem Effect.exec_run (callees : Callees D K σ) (e : Effect D K .unit E A) (w : World σ) :
    e.run.exec callees w = (e.runOutcome.exec callees w).map fun (outcome, w') =>
      (outcome.bind Ending.raised, w') := by
  simp only [run, Runner.run, runOutcome, Runner.runOutcome, Runner.runBound, Act.exec_bind,
    Act.exec]
  rcases callees.run .fresh none e.node w with _ | ⟨_ | ending, r', w'⟩
  · rfl
  · rfl
  · exact Act.exec_ofRaised _ _ _

/-- A run without a runner ends in what a closure that it calls raises, or else no such closure
    raises, and it returns. -/
theorem Effect.runOutcome_cases {depth : Nat} {e : Effect D K .unit E A} {w w' : World σ}
    {result : Raised D K (Ending D K)}
    (h : e.runOutcome.exec (Callees.ofFuel (depth + 1)) w = some (result, w')) :
    (∃ p u, Runner.fresh.Meets (Callees.ofFuel depth) e.node w p u ∧ result = .error p ∧
        w' = u.report .exit) ∨
      ((∀ p u, ¬ Runner.fresh.Meets (Callees.ofFuel depth) e.node w p u) ∧
        ∃ ending, result = .ok ending) := by
  rw [exec_runOutcome, Option.map_eq_some_iff] at h
  obtain ⟨⟨ending, r', w₁⟩, heval, hresult⟩ := h
  cases hresult
  cases ending with
  | error p =>
    obtain ⟨-, u, hmeets, rfl⟩ := Runner.meets_of_evaluate Runner.fresh_framesFit heval
    exact .inl ⟨p, u, hmeets, rfl, rfl⟩
  | ok ending =>
    refine .inr ⟨?_, _, rfl⟩
    intro p u hmeets
    obtain ⟨hending, -⟩ := Runner.evaluate_raised Runner.fresh_framesFit hmeets heval
    cases hending

end Runs

/-- A payload leaves an evaluation, and a run, in one way only.

    Take any tree, well typed or not, run with all calls noted.  An evaluation ends by raising just
    where in some state that it reaches a closure raises that the machine calls and does not
    attempt.  It then ends in that payload and in nothing else, whatever frames are pending; the
    runner is as it was, and the world is as the closure left it, so that what was done before is
    kept and no further call is made.  A run of an effect is cut short by the same payload, and it
    returns if no closure of that kind raises.

    What an attempted closure raises is turned into a defect that carries the payload and no name.
    It is handed to the topmost pending frame that looks at causes, with nothing called on the way
    there, and the evaluation ends in the defect if no frame looks at it. -/
theorem Effect.run_raises_as_called (L : Language D K σ) (depth : Nat) {E A : Ty}
    (e : Effect D K .unit E A) {r : Runner D K} (hfit : r.settings.framesFit = true)
    (w : World (Noted D K σ)) :
    letI := L.noting
    let callees : Callees D K (Noted D K σ) := Callees.ofFuel depth
    (∀ p r' w', (∃ fuel, r.evaluate callees fuel e.node w = some (.error p, r', w')) ↔
      r' = r ∧ ∃ u, r.Meets callees e.node w p u ∧ w' = u.report .exit) ∧
    (∀ p u, r.Meets callees e.node w p u → ∀ fuel ending r' w',
      r.evaluate callees fuel e.node w = some (ending, r', w') →
        ending = .error p ∧ r' = r ∧ w' = u.report .exit ∧ w'.calls = u.calls) ∧
    (∀ result w', e.runOutcome.exec (Callees.ofFuel (depth + 1)) w = some (result, w') →
      (∃ p u, Runner.fresh.Meets callees e.node w p u ∧ result = .error p ∧
          w' = u.report .exit) ∨
        ((∀ p u, ¬ Runner.fresh.Meets callees e.node w p u) ∧ ∃ ending, result = .ok ending)) ∧
    (∀ result w', e.run.exec (Callees.ofFuel (depth + 1)) w = some (result, w') →
      (∃ p u, Runner.fresh.Meets callees e.node w p u ∧ result = .error p ∧
          w' = u.report .exit) ∨
        ((∀ p u, ¬ Runner.fresh.Meets callees e.node w p u) ∧
          ∃ ending, e.runOutcome.exec (Callees.ofFuel (depth + 1)) w = some (.ok ending, w') ∧
            result = ending.raised)) ∧
    (∀ f args frames envs steps v p u,
      Machine.Reaches callees (r.start e.node, r.opened w)
          (⟨.dispatch (.attempt f args), frames, envs, steps⟩, v) →
        (Call.value f args).Raises callees v p u →
          (∀ newer onCause k older, frames = newer ++ .fold onCause k :: older →
            (∀ frame ∈ newer, frame.looks = false) →
              ∃ envs' u', Machine.Reaches callees (r.start e.node, r.opened w)
                (⟨.settle (.failure (.die ⟨p, none⟩)), .fold onCause k :: older, envs',
                  steps + 1⟩, u') ∧ u.Agree u') ∧
          ((∀ frame ∈ frames, frame.looks = false) →
            ∃ fuel w', r.evaluate callees fuel e.node w = some (.ok (.failure (.die ⟨p, none⟩)),
              ⟨r.settings, r.environments, steps + 1⟩, w') ∧ u.Agree w')) := by
  let _ := L.noting
  intro callees
  refine ⟨?_, ?_, fun result w' h => runOutcome_cases h, ?_, ?_⟩
  · -- a run raises just where its machine meets a closure that does
    intro p r' w'
    constructor
    · rintro ⟨fuel, heval⟩
      exact Runner.meets_of_evaluate hfit heval
    · rintro ⟨rfl, u, hmeets, rfl⟩
      exact Runner.evaluate_of_meets hfit hmeets
  · intro p u hmeets fuel ending r' w' heval
    obtain ⟨hending, hrunner, rfl⟩ := Runner.evaluate_raised hfit hmeets heval
    exact ⟨hending, hrunner, rfl, rfl⟩
  · intro result w' h
    rw [exec_run, Option.map_eq_some_iff] at h
    obtain ⟨⟨outcome, w₁⟩, houtcome, hresult⟩ := h
    cases hresult
    obtain ⟨p, u, hmeets, rfl, hw'⟩ | ⟨hmeets, ending, rfl⟩ := runOutcome_cases houtcome
    · exact .inl ⟨p, u, hmeets, rfl, hw'⟩
    · exact .inr ⟨hmeets, ending, houtcome, rfl⟩
  · -- what an attempted closure raises is a defect, and that goes past the frames that do not look
    intro f args frames envs steps v p u hreach hraises
    have hdefect := hreach.trans (Machine.Reaches.attempted hraises)
    constructor
    · rintro newer onCause k older rfl hnewer
      obtain ⟨envs', u', hpast, hagree⟩ :=
        Machine.Reaches.past hnewer (.fold onCause k :: older) (.die (.ofRaised p)) envs (steps + 1)
          (u.report .raised)
      exact ⟨envs', u', hdefect.trans hpast, (u.agree_report .raised).trans hagree⟩
    · intro hframes
      obtain ⟨envs', u', hpast, hagree⟩ :=
        Machine.Reaches.past hframes [] (.die (.ofRaised p)) envs (steps + 1) (u.report .raised)
      rw [List.append_nil] at hpast
      obtain ⟨fuel, w', heval, hw'⟩ := Runner.evaluate_of_reaches hfit (hdefect.trans hpast)
      exact ⟨fuel, w', heval, ((u.agree_report .raised).trans hagree).trans hw'⟩

/-! ## A language that raises -/

/-- A language of two closures, of which the one raises in each of its roles, and the other
    greets. -/
@[reducible]
def Language.raising : Language Unit Bool Unit where
  value f _ := if f then throw (.text "no") else pure (.text "hello")
  test f _ := if f then throw (.text "no") else pure true
  outcome f _ := if f then throw (.text "no") else pure (.success (.text "hello"))
  effect f _ := if f then throw (.text "no") else pure (.succeed (.shared (.text "hello")))
  handler f _ := if f then throw (.text "no") else pure (.succeed (.shared (.text "hello")))
  cause f := if f then throw (.text "no") else pure (.fail (.text "hello"))

/-- What a closure raises that is not attempted leaves the run, though a handler of causes is
    pending; the handler is not called. -/
theorem Effect.run_raises_as_called_pending :
    letI := Language.raising.noting
    let refused : Effect Unit Bool .unit .unit .text :=
      (Effect.total false : Effect Unit Bool .unit .unit .text).map true
    let e : Effect Unit Bool .unit .unit .text := refused.foldCause false false
    ∃ u, Runner.fresh.Meets (Callees.ofFuel 9) e.node (World.start ⟨(), []⟩) (.text "no") u ∧
      u.calls = [.value true [.text "hello"], .value false []] := by
  let _ := Language.raising.noting
  intro refused e
  obtain ⟨-, -, hrun, -⟩ :=
    run_raises_as_called Language.raising 9 e Runner.fresh_framesFit (World.start ⟨(), []⟩)
  obtain ⟨p, u, hmeets, hp, hw'⟩ | ⟨-, ending, hending⟩ := hrun (.error (.text "no")) _ rfl
  · cases hp
    refine ⟨u, hmeets, ?_⟩
    exact (congrArg World.calls hw').symm
  · cases hending

end EffectMachine
