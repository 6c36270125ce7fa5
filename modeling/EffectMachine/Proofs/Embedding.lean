/-
  Runs inside of runs.

  A closure may run an effect of its own, and an effect may attempt that closure.  At the inner
  boundary the run has two ways to go: it returns a value, or it raises, be it an error, the payload
  of a defect or what cut it short.  At the outer one what is raised becomes a defect.  So of how
  the inner effect ended it is only the payload that gets through (`Ending.reflected`), and this
  file shows that it does get through, whatever the inner effect is and wherever the attempt stands.

  What stands behind the attempt sees a payload like any other.  A `narrow` to the type of the inner
  errors takes them out of the defect again, and type cases take out a value that was parked inside.
  To see the latter it is enough to say of the attempt what it ends in, since what type cases do
  depends on that alone (`Effect.evaluate_atTypes_iff`).
-/
import EffectMachine.Proofs.Dispatch
import EffectMachine.Proofs.FunctionLaws

namespace EffectMachine

variable {D K σ : Type} {R E E' A B : Ty}

/-! ## What gets through -/

/-- A payload that was raised as a cause: a typed failure if it is of the type of errors, and a
    defect without a name if not. -/
def Cause.narrowed (E : Ty) (payload : Value D K) : Cause (Value D K) :=
  if payload.type = E then .fail payload else .die (.ofRaised payload)

namespace Ending

/-- What an attempted run ends in, by what the run for the outcome ends in. -/
def reflected : Raised D K (Ending D K) → Ending D K
  | .ok (.success a) => .success a
  | .ok (.failure (.fail x)) => .failure (.die (.ofRaised x))
  | .ok (.failure (.die d)) => .failure (.die (.ofRaised d.payload))
  | .error p => .failure (.die (.ofRaised p))

/-- What it ends in if payloads of type `E` are turned back into typed failures. -/
def caught (E : Ty) : Raised D K (Ending D K) → Ending D K
  | .ok (.success a) => .success a
  | .ok (.failure (.fail x)) => .failure (.fail x)
  | .ok (.failure (.die d)) => .failure (.narrowed E d.payload)
  | .error p => .failure (.narrowed E p)

/-- Nothing but a success is reflected as one. -/
theorem reflected_eq_success_iff {result : Raised D K (Ending D K)} {a : Value D K} :
    reflected result = .success a ↔ result = .ok (.success a) := by
  rcases result with p | ((x | d) | v) <;> simp [reflected]

end Ending

/-- The world after an attempted run: a defect has been reported. -/
def World.reflecting (w : World σ) (ending : Ending D K) : World σ :=
  if ending.isSuccess then w else w.report .raised

/-- A report is all that it takes to reflect an ending. -/
theorem World.agree_reflecting (w : World σ) (ending : Ending D K) :
    w.Agree (w.reflecting ending) := by
  unfold reflecting
  split
  · exact .refl w
  · exact w.agree_report .raised

/-! ## Attempted runs -/

section Attempted

variable [M : Language D K σ] {c : Callees D K σ} {e : Effect D K .unit E A} {k : K}
  {w v : World σ} {result : Raised D K (Ending D K)}

/-- To check an ending once more changes it no further. -/
theorem Ending.checked_checked (ending : Ending D K) :
    (ending.checked E A).checked E A = ending.checked E A := by
  rcases ending with (x | d) | v
  · simp only [checked, Cause.typed]
    cases hcast : x.cast? E with
    | none => rfl
    | some x' =>
      obtain ⟨-, rfl⟩ := Value.cast?_eq_some_iff.mp hcast
      simp only [hcast]
  · rfl
  · simp only [checked]
    cases hcast : v.cast? A with
    | none => rfl
    | some v' =>
      obtain ⟨-, rfl⟩ := Value.cast?_eq_some_iff.mp hcast
      simp only [hcast]

/-- What has passed the check at the end of a run is of the type declared. -/
theorem Ending.type_of_checked_success {a : Value D K}
    (h : (Ending.checked E A (.success a) : Ending D K) = .success a) : a.type = A := by
  cases hcast : a.cast? A with
  | none =>
    simp only [checked, hcast] at h
    cases h
  | some a' => exact (Value.cast?_eq_some_iff.mp hcast).1

/-- A typed failure that has passed it is of the type of errors. -/
theorem Ending.type_of_checked_fail {x : Value D K}
    (h : (Ending.checked E A (.failure (.fail x)) : Ending D K) = .failure (.fail x)) :
    x.type = E := by
  cases hcast : x.cast? E with
  | none =>
    simp only [checked, Cause.typed, hcast] at h
    cases h
  | some x' => exact (Value.cast?_eq_some_iff.mp hcast).1

omit M in
/-- A run for the outcome ends in values and in errors of the types declared. -/
theorem Effect.checked_of_runOutcome (h : e.runOutcome.exec c w = some (result, v)) :
    result.map (Ending.checked E A) = result := by
  simp only [runOutcome, Runner.runOutcome, Runner.runBound, Act.exec_bind, Act.exec] at h
  rcases hrun : c.run .fresh none e.node w with _ | ⟨ending, r', w₁⟩
  · rw [hrun] at h; cases h
  · rw [hrun] at h
    simp only [Act.exec_ofRaised, Option.some.injEq, Prod.mk.injEq] at h
    obtain ⟨rfl, rfl⟩ := h
    cases ending with
    | error p => rfl
    | ok ending => exact congrArg Except.ok (Ending.checked_checked ending)

/-- An attempted run ends in what the run for the outcome ends in, as it is reflected. -/
theorem Machine.attempted_run (hk : M.value k [] = e.run) (c : Callees D K σ) (w : World σ) :
    Machine.attempted k [] c w = (e.runOutcome.exec c w).map fun (result, v) =>
      (.ok (Ending.reflected result), v.reflecting (Ending.reflected result)) := by
  rw [Machine.attempted_apply, hk, Effect.exec_run]
  rcases e.runOutcome.exec c w with _ | ⟨p | ((x | d) | a), v⟩ <;> rfl

/-- The meaning of an attempted run: the ending of the run for its outcome, reflected. -/
theorem Effect.attempt_result (R E' : Ty) (hk : M.value k [] = e.run) (c : Callees D K σ)
    (env : Option (Value D K)) (w : World σ) :
    (Effect.attempt k : Effect D K R E' A).node.result env c w =
      (e.runOutcome.exec c w).map fun (result, v) =>
        (.ok (Ending.reflected result), v.reflecting (Ending.reflected result)) := by
  rw [Effect.attempt, Node.result_leaf rfl]
  exact Machine.attempted_run hk c w

/-- One step of the machine, and the frames and environments are as they were. -/
theorem Machine.step_attempt (hk : M.value k [] = e.run) (c : Callees D K σ)
    (frames : List (Frame D K)) (envs : Array (Value D K)) (steps : Nat) (w : World σ) :
    Machine.step c ⟨.dispatch (Effect.attempt k : Effect D K R E' A).node, frames, envs, steps⟩ w =
      (e.runOutcome.exec c w).map fun (result, v) =>
        (.running ⟨.settle (Ending.reflected result), frames, envs, steps + 1⟩,
          v.reflecting (Ending.reflected result)) := by
  simp only [step, dispatch, Effect.attempt, perform, Machine.attempted_run hk]
  rcases e.runOutcome.exec c w with _ | ⟨result, v⟩ <;> rfl

/-- The attempted step settles in a value just if the run, asked for its outcome, ends in that
    value. -/
theorem Machine.step_attempt_success_iff (hk : M.value k [] = e.run)
    {frames : List (Frame D K)} {envs : Array (Value D K)} {steps : Nat} {a : Value D K} :
    (∃ w', Machine.step c ⟨.dispatch (Effect.attempt k : Effect D K R E' A).node, frames, envs,
        steps⟩ w = some (.running ⟨.settle (.success a), frames, envs, steps + 1⟩, w')) ↔
      ∃ v, e.runOutcome.exec c w = some (.ok (.success a), v) := by
  rw [step_attempt hk]
  constructor
  · rintro ⟨w', h⟩
    obtain ⟨⟨result, v⟩, hrun, heq⟩ := Option.map_eq_some_iff.mp h
    have hsuccess : Ending.reflected result = .success a := by
      injection heq with hprogress
      injection hprogress with hmachine
      injection hmachine with hcontrol
      injection hcontrol
    obtain rfl := Ending.reflected_eq_success_iff.mp hsuccess
    exact ⟨v, hrun⟩
  · rintro ⟨v, hrun⟩
    rw [hrun]
    exact ⟨_, rfl⟩

/-- Payloads of the type of errors are failures again behind a `narrow` to that type. -/
theorem Effect.attempt_narrow_result (hk : M.value k [] = e.run) {into : K}
    (hinto : ∀ x, x.type = E → M.value into [x] = pure x) (c : Callees D K σ)
    (env : Option (Value D K)) (w : World σ) :
    ((Effect.attempt k : Effect D K R E A).narrow E into).node.result env c w =
      (e.runOutcome.exec c w).map fun (result, v) =>
        (.ok (Ending.caught E result), (v.reflecting (Ending.reflected result)).spent 1) := by
  have hdefect : ∀ p : Value D K,
      ((Handler.narrow E E into).resume (.die (.ofRaised p)) >>= Node.result env :
        Play D K σ _) = Play.spend 1 >>= fun _ => pure (.failure (.narrowed E p)) := by
    intro p
    by_cases htype : p.type = E
    · have hcast : (Defect.ofRaised p).cast? E = some p :=
        Value.cast?_eq_some_iff.mpr ⟨htype, rfl⟩
      have hact : (Play.act (M.value into [p]) : Play D K σ _) = pure p := by
        rw [hinto p htype, Play.act_pure]
      simp only [Handler.resume, Cause.typed, hcast, hact, pure_bind, Cause.narrowed, htype,
        if_true, Node.haltOnce_result]
    · have hcast : (Defect.ofRaised p).cast? E = none := Value.cast?_eq_none_iff.mpr htype
      simp only [Handler.resume, Cause.typed, hcast, Cause.narrowed, htype, if_false,
        Node.haltOnce_result]
  -- by the four ways in which the run for the outcome can end
  rw [Effect.narrow, Node.result_fold, Play.bind_apply, Effect.attempt_result R E hk]
  rcases hrun : e.runOutcome.exec c w with _ | ⟨p | ((x | d) | a), v⟩
  · rfl
  · simp only [Option.map_some, Ending.reflected, Ending.caught, hdefect]
    rfl
  · have htype := Ending.type_of_checked_fail
      (Except.ok.inj (Effect.checked_of_runOutcome hrun))
    simp only [Option.map_some, Ending.reflected, Ending.caught, hdefect, Cause.narrowed, htype,
      if_true]
    rfl
  · simp only [Option.map_some, Ending.reflected, Ending.caught, hdefect]
    rfl
  · have htype := Ending.type_of_checked_success
      (Except.ok.inj (Effect.checked_of_runOutcome hrun))
    simp only [Option.map_some, Ending.reflected, Ending.caught, Continuation.resume,
      Link.followTyped, Value.cast?_eq_some_iff.mpr ⟨htype, rfl⟩, Link.follow,
      Node.succeedOnce_result]
    rfl

/-- By the reading, too, an attempted run ends in what is reflected. -/
theorem Effect.attempt_denotes (R E' : Ty) (hk : M.value k [] = e.run)
    (env : Option (Value D K)) (hrun : e.runOutcome.exec c w = some (result, v)) :
    ∃ n, (Effect.attempt k : Effect D K R E' A).node.Denotes c env w
      (.ok (.reflected result, n)) (v.reflecting (.reflected result)) := by
  have hresult := Effect.attempt_result R E' hk c env w
  rw [hrun] at hresult
  obtain ⟨_ | ⟨ending, n⟩, hout, hending⟩ := Node.result_eq_some.mp hresult
  · cases hending
  · cases hending
    exact ⟨n, hout⟩

/-- An attempted run comes to an end only if the run inside does. -/
theorem Effect.exists_run_of_attempt (hk : M.value k [] = e.run) {env : Option (Value D K)}
    {out : Raised D K (Ending D K × Nat)} {u : World σ}
    (h : (Effect.attempt k : Effect D K R E' A).node.Denotes c env w out u) :
    ∃ result v, e.runOutcome.exec c w = some (result, v) := by
  have hresult := Effect.attempt_result R E' hk c env w
  rw [Node.result_eq_some.mpr ⟨out, h, rfl⟩] at hresult
  obtain ⟨⟨result, v⟩, hrun, -⟩ := Option.map_eq_some_iff.mp hresult.symm
  exact ⟨result, v, hrun⟩

end Attempted

/-! ## Escalated -/

section Escalated

variable [Language D K σ] {c : Callees D K σ} {w w' : World σ}

/-- The worlds differ in cells of the library and in what was reported at most. -/
structure World.Akin (w v : World σ) : Prop where
  state : w.state = v.state
  halts : w.halts = v.halts

/-- What is raised in the place of an ending does not change if errors are escalated first. -/
theorem Ending.deliver_escalated (ending : Ending D K) :
    Play.Matches c (World.Identical fun _ => True) World.Akin (fun _ => True)
      (ending.deliver E A)
      ((match ending with
        | .success v => (Continuation.typed A .now).resume v >>= Node.result none
        | .failure cause => (Handler.escalate E).resume cause >>= Node.result none) >>=
          Ending.deliver E' A) := by
  rintro w _ ⟨rfl, -⟩
  have hakin : w.Akin (w.spent 1) := ⟨rfl, rfl⟩
  rcases ending with cause | v
  · simp only [Handler.resume, Ending.deliver, Ending.checked]
    cases cause.typed E with
    | fail x =>
      simp only [Node.haltOnce_result]
      exact .raised hakin
    | die d =>
      simp only [Node.haltOnce_result]
      exact .raised hakin
  · cases hcast : v.cast? A with
    | some v' =>
      obtain ⟨htype, rfl⟩ := Value.cast?_eq_some_iff.mp hcast
      simp only [Continuation.resume, Link.followTyped, hcast, Link.follow,
        Node.succeedOnce_result, bind_assoc, pure_bind, Ending.deliver_success htype]
      exact .returned hakin trivial
    | none =>
      simp only [Continuation.resume, Link.followTyped, hcast, pure_bind, Node.result_ofFault,
        Ending.deliver, Ending.checked]
      exact .raised ⟨rfl, rfl⟩

/-- A run of an effect and one of its `orDie` come to the same: what was a typed failure is raised in
    either case.  Only cells of the library and reports differ. -/
theorem Effect.orDie_delivery (E' : Ty) (e : Effect D K R E A) :
    Play.Matches c (World.Identical fun _ => True) World.Akin (fun _ => True) (e.delivery none)
      ((e.orDie : Effect D K R E' A).delivery none) := by
  rw [delivery_none, delivery_none, orDie, Node.result_fold, bind_assoc]
  refine Play.Matches.bind (S := World.Identical fun _ => True) ?_
    (Play.matches_self (fun w => ⟨rfl, trivial⟩) _) fun ending _ => ?_
  · rintro w _ ⟨rfl, -⟩
    exact ⟨rfl, rfl⟩
  · exact ending.deliver_escalated

/-- Runs end in the same, started in one world, if their deliveries match. -/
theorem Effect.run_ends_of_matches {S T : World σ → World σ → Prop} (hT : World.Untraced T)
    {e : Effect D K .unit E A} {e' : Effect D K .unit E' A}
    (h : ∀ depth, Play.Matches (Callees.ofFuel depth) S T (fun _ => True) (e.delivery none)
      (e'.delivery none))
    (hw : S w w) {result : Raised D K (Value D K)} (hends : e.run.Ends w result w') :
    ∃ v', e'.run.Ends w result v' ∧ T w' v' := by
  obtain ⟨u, ⟨depth, hu⟩, hagree⟩ := e.run_ends.left (.refl w) hends
  have hboth := h depth hw
  rw [hu] at hboth
  obtain ⟨v, hv, huv⟩ := hboth.exists_of_some
  obtain ⟨v', hv', hagree'⟩ := e'.run_ends.right (.refl w) ⟨depth, hv⟩
  exact ⟨v', hv', hT hagree.symm hagree'.symm huv⟩

theorem World.Akin.untraced : World.Untraced (@World.Akin σ) := by
  rintro w v w' v' hw hv ⟨hstate, hhalts⟩
  exact ⟨hw.state.symm.trans (hstate.trans hv.state), hw.halts.symm.trans (hhalts.trans hv.halts)⟩

/-- A run ends in the same with errors escalated first, and does the same on the way. -/
theorem Effect.run_orDie_ends_iff (e : Effect D K .unit E A) {result : Raised D K (Value D K)}
    {u : World σ} :
    (∃ w', e.run.Ends w result w' ∧ w'.Akin u) ↔
      ∃ w', (e.orDie : Effect D K .unit E' A).run.Ends w result w' ∧ w'.Akin u := by
  constructor
  · rintro ⟨w', hends, hu⟩
    obtain ⟨v', hv', hakin⟩ := run_ends_of_matches World.Akin.untraced
      (fun depth => e.orDie_delivery E') ⟨rfl, trivial⟩ hends
    exact ⟨v', hv', hakin.state.symm.trans hu.state, hakin.halts.symm.trans hu.halts⟩
  · rintro ⟨w', hends, hu⟩
    obtain ⟨v', hv', hakin⟩ := run_ends_of_matches World.Akin.untraced.flip
      (fun depth => (e.orDie_delivery E').flip) ⟨rfl, trivial⟩ hends
    exact ⟨v', hv', hakin.state.trans hu.state, hakin.halts.trans hu.halts⟩

end Escalated

/-! ## Dispatched -/

section Cases

variable [M : Language D K σ] {c : Callees D K σ} {r : Runner D K} {w v u : World σ}
  {x : Effect D K R E B} {out : Ending D K} {n : Nat}

variable {e : Effect D K .unit E' B} {k : K}

/-- An attempted run is dispatched as what it reflects. -/
theorem Effect.evaluate_attempt_atTypes_iff (hk : M.value k [] = e.run)
    (hc : Callees.Alike World.Agree c c)
    (hfit : r.settings.framesFit = true) (cases : List (Case D K E B))
    {ending : Raised D K (Ending D K)} {t : World σ} :
    (∃ fuel r' w', r.evaluate c fuel ((attempt k : Effect D K R E B).atTypes cases).node w =
        some (ending, r', w') ∧ w'.Agree t) ↔
      ∃ result v v', e.runOutcome.exec c w = some (result, v) ∧
        Dispatched c r cases (.reflected result) v ending v' ∧ v'.Agree t := by
  constructor
  · rintro ⟨fuel, r', w', heval, hw'⟩
    obtain ⟨out, u, hdenotes, -⟩ := Runner.denotes_of_evaluate hc hfit heval
    obtain ⟨first, u₁, hfirst⟩ := exists_of_atTypes cases hdenotes
    obtain ⟨result, v, hrun⟩ := exists_run_of_attempt hk hfirst
    obtain ⟨n, hp⟩ := attempt_denotes R E hk r.environments.back? hrun
    obtain ⟨v', hrules, hv'⟩ :=
      (evaluate_atTypes_iff hc hfit cases hp (v.agree_reflecting _)).mp
        ⟨fuel, r', w', heval, hw'⟩
    exact ⟨result, v, v', hrun, hrules, hv'⟩
  · rintro ⟨result, v, v', hrun, hrules, hv'⟩
    obtain ⟨n, hp⟩ := attempt_denotes R E hk r.environments.back? hrun
    exact (evaluate_atTypes_iff hc hfit cases hp (v.agree_reflecting _)).mpr ⟨v', hrules, hv'⟩

end Cases

/-- An attempted run reflects how the effect ends, and what stands behind it can tell.

    Take any effect, typed as declared or not, and a closure that runs it.  To attempt the closure
    is one step of the machine, under any pending frames and with any environments bound, neither
    of which has a part in it.  The step settles the value that the run for the outcome ends in, and
    settles a value only if the run does; in all other cases it settles a defect without a name.
    The payload of that is the error that the effect fails with, the payload of what it dies of, or
    what its run raises.  No step at all is made if the run does not end.

    To run the effect for its value is the same if its errors are escalated first.  Behind the
    attempt, a `narrow` to the type of the errors that hands payloads on as they are fails with the
    error that the effect fails with, and with any other payload of that type; it dies with payloads
    of other types.

    Type cases behind the attempt do as the rules say for what it ends in.  If that is a value
    parked inside, they do just as they do behind any effect outside that has parked the value, in
    the same world. -/
theorem Effect.embedded_run_reflects (M : Language D K σ) {E A : Ty} (e : Effect D K .unit E A)
    {k : K} (hk : M.value k [] = e.run) :
    (∀ (R E' : Ty) (callees : Callees D K σ) (frames : List (Frame D K))
        (envs : Array (Value D K)) (steps : Nat) (w : World σ),
      let p : Effect D K R E' A := attempt k
      let settling (ending : Ending D K) : Progress D K :=
        .running ⟨.settle ending, frames, envs, steps + 1⟩
      Machine.step callees ⟨.dispatch p.node, frames, envs, steps⟩ w =
        (e.runOutcome.exec callees w).map (fun (result, v) =>
          (settling (.reflected result), v.reflecting (.reflected result))) ∧
      ∀ a, (∃ w', Machine.step callees ⟨.dispatch p.node, frames, envs, steps⟩ w =
          some (settling (.success a), w')) ↔
        ∃ v, e.runOutcome.exec callees w = some (.ok (.success a), v)) ∧
    (∀ (E' : Ty) (w : World σ) (result : Raised D K (Value D K)) (u : World σ),
      (∃ w', e.run.Ends w result w' ∧ w'.Akin u) ↔
        ∃ w', (e.orDie : Effect D K .unit E' A).run.Ends w result w' ∧ w'.Akin u) ∧
    ∀ (depth : Nat) (R : Ty) (r : Runner D K), r.settings.framesFit = true →
      let callees : Callees D K σ := Callees.ofFuel depth
      let Comes {E' : Ty} (x : Effect D K R E' A) (w : World σ) (ending : Raised D K (Ending D K))
          (u : World σ) : Prop :=
        ∃ fuel r' w', r.evaluate callees fuel x.node w = some (ending, r', w') ∧ w'.Agree u
      (∀ into : K, (∀ x, x.type = E → M.value into [x] = pure x) → ∀ w ending u,
        Comes ((attempt k : Effect D K R E A).narrow E into) w ending u ↔
          ∃ result v, e.runOutcome.exec callees w = some (result, v) ∧
            ending = .ok (.caught E result) ∧ (v.spent 1).Agree u) ∧
      ∀ (E' : Ty) (cases : List (Case D K E' A)),
        let p : Effect D K R E' A := attempt k
        (∀ w ending u, Comes (p.atTypes cases) w ending u ↔
          ∃ result v v', e.runOutcome.exec callees w = some (result, v) ∧
            Dispatched callees r cases (.reflected result) v ending v' ∧ v'.Agree u) ∧
        ∀ w result v parked, e.runOutcome.exec callees w = some (result, v) →
          Ending.reflected result = .failure (.die ⟨.unmatched parked, none⟩) →
            ∀ (x : Effect D K R E' A) w₀ name,
              Comes x w₀ (.ok (.failure (.die ⟨.unmatched parked, name⟩))) v → cases ≠ [] →
                ∀ ending u, Comes (p.atTypes cases) w ending u ↔
                  Comes (x.atTypes cases) w₀ ending u := by
  refine ⟨?_, ?_, ?_⟩
  · intro R E' callees frames envs steps w p settling
    exact ⟨Machine.step_attempt hk callees frames envs steps w,
      fun a => Machine.step_attempt_success_iff hk⟩
  · intro E' w result u
    exact run_orDie_ends_iff e
  · intro depth R r hfit callees Comes
    have hc : Callees.Alike World.Agree callees callees := Callees.ofFuel_agree depth
    refine ⟨?_, ?_⟩
    · intro into hinto w ending u
      refine (Runner.exists_evaluate_iff hc hfit).trans ?_
      rw [attempt_narrow_result hk hinto]
      constructor
      · rintro ⟨v', h, hu⟩
        obtain ⟨⟨result, v⟩, hrun, heq⟩ := Option.map_eq_some_iff.mp h
        obtain ⟨rfl, rfl⟩ := Prod.ext_iff.mp heq
        exact ⟨result, v, hrun, rfl, ((v.agree_reflecting _).spent 1).trans hu⟩
      · rintro ⟨result, v, hrun, rfl, hu⟩
        rw [hrun]
        exact ⟨_, rfl, ((v.agree_reflecting _).spent 1).symm.trans hu⟩
    · intro E' cases p
      refine ⟨fun w ending u => evaluate_attempt_atTypes_iff hk hc hfit cases, ?_⟩
      rintro w result v parked hrun hparked x w₀ name ⟨fuel, r₀, w₁, hx, hw₁⟩ hcases ending u
      obtain ⟨_ | ⟨out, n⟩, t, hout, hends⟩ := Runner.denotes_of_evaluate hc hfit hx
      · cases hends.ending
      · cases hends.ending
        obtain ⟨m, hp⟩ := attempt_denotes R E' hk r.environments.back? hrun
        rw [hparked] at hp
        rw [show Comes (p.atTypes cases) w ending u ↔ _ from
            evaluate_atTypes_iff hc hfit cases hp (v.agree_reflecting _),
          show Comes (x.atTypes cases) w₀ ending u ↔ _ from
            evaluate_atTypes_iff hc hfit cases hout (hw₁.symm.trans hends.world)]
        -- the two differ in the name alone, which the first case drops
        constructor
        · rintro ⟨v', hrules, hv'⟩
          exact ⟨v', hrules.renamed hcases name, hv'⟩
        · rintro ⟨v', hrules, hv'⟩
          exact ⟨v', hrules.renamed hcases none, hv'⟩

/-! ### A language that runs effects -/

/-- Two closures run an effect each, of which one fails and one parks its value; the third hands on
    what it is given. -/
inductive Embedded where
  | refuse
  | park
  | same

namespace Embedded

/-- The effect that fails. -/
def refused : Effect Unit Embedded .unit .text .text := .fail (.text "no")

/-- The effect that parks its value. -/
def parked : Effect Unit Embedded .unit .text .text :=
  (.succeed (.text "hello") : Effect Unit Embedded .unit .text .text).matchTypes

def value : Embedded → List (Value Unit Embedded) → Act Unit Embedded Unit (Value Unit Embedded)
  | refuse, [] => refused.run
  | park, [] => parked.run
  | _, v :: _ => pure v
  | same, [] => throw .unit

end Embedded

@[reducible]
def Language.embedding : Language Unit Embedded Unit where
  value := Embedded.value
  test _ _ := pure true
  outcome _ v := pure (.success v)
  effect _ _ := pure (.succeed (.shared .unit))
  handler _ _ := pure (.succeed (.shared .unit))
  cause _ := pure (.fail .unit)

/-- A run that fails is attempted with an environment bound and a frame pending, and what it raises
    is taken out of the defect again; a value that is parked in a run reaches the case outside. -/
theorem Effect.embedded_run_reflects_parked :
    letI := Language.embedding
    let callees : Callees Unit Embedded Unit := Callees.ofFuel 9
    let refuse : Effect Unit Embedded .unit .text .text := attempt .refuse
    let park : Effect Unit Embedded .unit .text .text := attempt .park
    let envs : Array (Value Unit Embedded) := #[.text "bound"]
    (∃ w', Machine.step callees ⟨.dispatch refuse.node, [.restore 0], envs, 7⟩ (World.start ()) =
      some (.running ⟨.settle (.failure (.die ⟨.text "no", none⟩)), [.restore 0], envs, 8⟩, w')) ∧
    (∃ w', (Embedded.refused.orDie : Effect Unit Embedded .unit .unit .text).run.Ends
      (World.start ()) (.error (.text "no")) w') ∧
    (∃ fuel r' w', Runner.fresh.evaluate callees fuel (refuse.narrow .text .same).node
      (World.start ()) = some (.ok (.failure (.fail (.text "no"))), r', w')) ∧
    ∃ fuel r' w', Runner.fresh.evaluate callees fuel
      (park.atTypes [⟨.text, Effect.environment⟩]).node (World.start ()) =
        some (.ok (.success (.text "hello")), r', w') := by
  let _ := Language.embedding
  intro callees refuse park envs
  obtain ⟨hstep, horDie, hrest⟩ := embedded_run_reflects Language.embedding Embedded.refused
    (k := .refuse) rfl
  obtain ⟨-, -, hpark⟩ := embedded_run_reflects Language.embedding Embedded.parked
    (k := .park) rfl
  refine ⟨?_, ?_, ?_, ?_⟩
  · rw [(hstep .unit .text callees [.restore 0] envs 7 (World.start ())).1]
    exact ⟨_, rfl⟩
  · obtain ⟨w', h, -⟩ := (horDie .unit (World.start ()) _ _).mp ⟨_, ⟨9, rfl⟩, rfl, rfl⟩
    exact ⟨w', h⟩
  · obtain ⟨fuel, r', w', h, -⟩ := ((hrest 9 .unit .fresh Runner.fresh_framesFit).1 .same
      (fun _ _ => rfl) (World.start ()) _ _).mpr ⟨_, _, rfl, rfl, .refl _⟩
    exact ⟨fuel, r', w', h⟩
  · obtain ⟨-, hsame⟩ := (hpark 9 .unit .fresh Runner.fresh_framesFit).2 .text
      [⟨.text, Effect.environment⟩]
    obtain ⟨fuel, r', w', h, -⟩ := (hsame (World.start ()) _ _ _ rfl rfl Embedded.parked
      (World.start ()) _ ⟨9, _, _, rfl, ⟨rfl, rfl, rfl⟩⟩ nofun _ _).mpr ⟨20, _, _, rfl, .refl _⟩
    exact ⟨fuel, r', w', h⟩

end EffectMachine
