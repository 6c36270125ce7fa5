/-
  Records of cells tell the truth.

  Whatever a step does besides asking for its cell and calling closures leaves alone the cells that
  have been taken, and makes none that closures could ask for: a step goes along the act of the
  closures it calls (`Machine.step_trails`).  So the record of a step is what it asks for and then
  the record of that act, and from there it is one thing after another: `Act.accounts`,
  `Machine.accounts` and `Runner.accounts` each by induction on what they are about, and
  `Observer.ofFuel_accounts` by induction on the depth to which runs are nested.

  All of this holds for any program at all.
-/
import EffectMachine.Proofs.Uses

namespace EffectMachine

variable {D K σ α β : Type}

/-! ## Worlds along an act -/

/-- Whatever is played comes to an end if the act does, in a world that is still that of the act. -/
inductive Trails : Option (World σ) → Option (World σ) → Prop where
  | endless : Trails none none
  | ended {w w'} (h : w.Still w') : Trails (some w) (some w')

/-- What accounts for an act accounts for whatever is played along it: the cells are in the same
    state at the end. -/
theorem Use.Accounts.trail {w : World σ} {uses : List (Use D K)} {end? end?' : Option (World σ)}
    (h : Accounts w uses end?) (htrail : Trails end? end?') : Accounts w uses end?' := by
  cases htrail with
  | endless => exact h
  | ended hstill =>
    have hstop := h.append (.nil hstill)
    rw [List.append_nil] at hstop
    exact hstop

namespace Play

/-- The play comes to an end by itself, and leaves all cells still. -/
def Still (x : Play D K σ α) : Prop :=
  ∀ callees w, ∃ r w', x callees w = some (r, w') ∧ w.Still w'

/-- What is played for the play goes along the act. -/
def Along (x : Play D K σ α) (a : Act D K σ β) : Prop :=
  ∀ callees w, Trails ((a.exec callees w).map Prod.snd) ((x callees w).map Prod.snd)

namespace Still

protected theorem pure (a : α) : Still (pure a : Play D K σ α) :=
  fun _ w => ⟨.ok a, w, rfl, .refl w⟩

protected theorem bind {x : Play D K σ α} {f : α → Play D K σ β} (hx : Still x)
    (hf : ∀ a, Still (f a)) : Still (x >>= f) := by
  intro callees w
  obtain ⟨r, w₁, hx, hstill⟩ := hx callees w
  cases r with
  | error p => exact ⟨.error p, w₁, by rw [bind_apply, hx], hstill⟩
  | ok a =>
    obtain ⟨r, w', hf, hstill'⟩ := hf a callees w₁
    refine ⟨r, w', ?_, hstill.trans hstill'⟩
    rw [bind_apply, hx]
    exact hf

protected theorem report (e : Event) : Still (report e : Play D K σ Unit) :=
  fun _ w => ⟨.ok (), w.report e, rfl, .report w e⟩

protected theorem cell : Still (cell : Play D K σ Nat) := by
  intro _ w
  refine ⟨_, _, rfl, rfl, fun c => ?_⟩
  show (w.cells.push false)[c]? = some true ↔ w.cells[c]? = some true
  rw [Array.getElem?_push]
  split
  · rename_i hc
    rw [hc, Array.getElem?_eq_none (Nat.le_refl _)]
    exact ⟨nofun, nofun⟩
  · exact Iff.rfl

end Still

namespace Along

variable {x : Play D K σ α} {a : Act D K σ α}

/-- A play that leaves all cells still goes along the act that does nothing. -/
theorem of_still (h : Still x) : Along x (pure () : Act D K σ Unit) := by
  intro callees w
  obtain ⟨r, w', hx, hstill⟩ := h callees w
  rw [hx]
  exact .ended hstill

/-- A play that begins with an act goes along every act that begins with it, if the rest does. -/
theorem of_act {γ : Type} {f : α → Play D K σ β} {g : α → Act D K σ γ}
    (h : ∀ b, Along (f b) (g b)) : Along (act a >>= f) (a >>= g) := by
  intro callees w
  rw [bind_apply, Act.exec_bind, act]
  cases a.exec callees w with
  | none => exact .endless
  | some out =>
    obtain ⟨r, w'⟩ := out
    cases r with
    | ok b => exact h b callees w'
    | error p => exact .ended (.refl w')

/-- A play that goes on by itself goes along the act that it begins with. -/
theorem void {f : α → Play D K σ β} (h : ∀ b, Still (f b)) : Along (act a >>= f) a.void := by
  rw [Act.void, map_eq_pure_bind]
  exact of_act fun b => of_still (h b)

theorem act_void : Along (act a) a.void := by
  rw [← bind_pure (act a)]
  exact void fun b => .pure b

end Along

end Play

/-! ## What a step does to the cells -/

section Library

/-- A new cell has not been taken, so to make one leaves all cells still. -/
theorem Node.succeedOnce_still (v : Value D K) :
    Play.Still (Node.succeedOnce v : Play D K σ _) := Play.Still.cell.bind fun _ => .pure _

theorem Node.haltOnce_still (c : Cause (Value D K)) :
    Play.Still (Node.haltOnce c : Play D K σ _) := Play.Still.cell.bind fun _ => .pure _

theorem Node.ofOutcomeOnce_still (o : Outcome (Value D K) (Value D K)) :
    Play.Still (Node.ofOutcomeOnce o : Play D K σ _) := by
  cases o with
  | success v => exact succeedOnce_still v
  | failure e => exact haltOnce_still _

variable [Language D K σ]

/-- A test and what is made of a value that does not pass it. -/
theorem Play.Along.test {passes make : K} {v : Value D K} {no : Value D K → Play D K σ (Node D K)}
    (hno : ∀ e, (no e).Still) :
    Along (do
        if ← Play.act (Language.test passes v) then Node.succeedOnce v
        else no (← Play.act (Language.value make [v])))
      (do if ← Language.test passes v then pure ()
          else (Language.value make [v]).void : Act D K σ Unit) := by
  refine .of_act fun there => ?_
  cases there with
  | true => exact .of_still (Node.succeedOnce_still v)
  | false => exact .void hno

/-- A link goes along the calls that it makes; what it does apart from them leaves the cells still.
    -/
theorem Link.follow_along (link : Link D K) (v : Value D K) :
    Play.Along (link.follow v : Play D K σ _) (link.act v) := by
  cases link with
  | now => exact .of_still (Node.succeedOnce_still _)
  | nowOf f => exact .void Node.succeedOnce_still
  | nowSuccess e a => exact .of_still (Node.succeedOnce_still _)
  | nowFailure e a => exact .of_still (Node.succeedOnce_still _)
  | failNow => exact .of_still (Node.haltOnce_still _)
  | call f => exact .act_void
  | outcomeOf f => exact .void Node.ofOutcomeOnce_still
  | replace that => exact .of_still (.pure _)
  | zip that t how => exact .of_still (Play.Still.cell.bind fun _ => .pure _)
  | join earlier how =>
    cases how with
    | none => exact .of_still ((Play.Still.pure _).bind Node.succeedOnce_still)
    | some f => exact .void Node.succeedOnce_still
  | require passes error => exact .test fun _ => Node.haltOnce_still _
  | assert passes payload => exact .test fun _ => Node.haltOnce_still _
  | absolve =>
    cases v with
    | outcome e a o => exact .of_still (Node.ofOutcomeOnce_still o)
    | _ => exact .of_still (.pure _)
  | flatten => cases v <;> exact .of_still (.pure _)
  | provide env => cases v <;> exact .of_still (.pure _)
  | supply outer r s e a => exact .of_still (Node.succeedOnce_still _)
  | park => exact .of_still (Node.haltOnce_still _)
  | applyTo f => cases v <;> exact .of_still (.pure _)
  | applyWhole f => exact .of_still (.pure _)

theorem Link.followTyped_along (type : Ty) (link : Link D K) (v : Value D K) :
    Play.Along (link.followTyped type v : Play D K σ _) (link.actTyped type v) := by
  simp only [followTyped, actTyped]
  cases v.cast? type with
  | some v => exact link.follow_along v
  | none => exact .of_still (.pure _)

/-- A handler goes along the call it makes, which depends on what kind of cause it is given. -/
theorem Handler.resume_along (onCause : Handler D K) (c : Cause (Value D K)) :
    Play.Along (onCause.resume c : Play D K σ _) (onCause.act c) := by
  cases onCause with
  | mapError error f =>
    simp only [resume, act]
    cases c.typed error with
    | fail e =>
      simp only [Cause.mapM, Play.act_map]
      rw [map_eq_pure_bind, bind_assoc]
      exact .void fun _ => (Play.Still.pure _).bind Node.haltOnce_still
    | die d => exact .of_still ((Play.Still.pure _).bind Node.haltOnce_still)
  | onCause error f => exact .act_void
  | onFailure error link =>
    simp only [resume, act]
    cases c.typed error with
    | fail e => exact link.follow_along e
    | die d => exact .of_still (Node.haltOnce_still _)
  | escalate error =>
    simp only [resume]
    cases c.typed error <;> exact .of_still (Node.haltOnce_still _)
  | narrow error payload into =>
    simp only [resume, act]
    cases c.typed error with
    | fail e => exact .of_still (Node.haltOnce_still _)
    | die d =>
      simp only
      cases d.cast? payload with
      | some p => exact .void fun _ => Node.haltOnce_still _
      | none => exact .of_still (Node.haltOnce_still _)
  | typeCase error type case =>
    simp only [resume]
    cases c.typed error with
    | fail e => exact .of_still (Node.haltOnce_still _)
    | die d =>
      obtain ⟨payload, name⟩ := d
      cases payload with
      | unmatched u =>
        simp only
        cases u.take? type with
        | none => exact .of_still (Node.haltOnce_still _)
        | some v => exact .of_still (Play.Still.cell.bind fun _ => .pure _)
      | _ => exact .of_still (Node.haltOnce_still _)

/-- A continuation goes along its act once its cell has been asked for, if it owns one. -/
theorem Continuation.resume_trails (k : Continuation D K) (v : Value D K)
    (callees : Callees D K σ) (w : World σ) :
    Trails (((k.act v w).exec callees (w.asked k.cell?)).map Prod.snd)
      ((k.resume v callees w).map Prod.snd) := by
  cases k with
  | passThrough => exact Play.Along.of_still (Node.succeedOnce_still v) callees w
  | typed type link => exact link.followTyped_along type v callees w
  | typedOnce c type link =>
    simp only [act, resume, Play.bind_apply, Play.take]
    cases (takeCell c w.cells).1 with
    | true => exact link.followTyped_along type v callees _
    | false => exact .ended (.refl _)

/-- What is raised in an attempted closure is turned into a defect afterwards; the cells are those
    the closure left. -/
theorem Machine.attempted_along (f : K) (args : List (Value D K)) :
    Play.Along (attempted f args : Play D K σ _) (Language.value f args).void := by
  intro callees w
  have hvoid : ((Language.value f args : Act D K σ _).void.exec callees w).map Prod.snd =
      ((Language.value f args : Act D K σ _).exec callees w).map Prod.snd := by
    rw [Act.void, map_eq_pure_bind, Act.exec_bind]
    rcases (Language.value f args : Act D K σ _).exec callees w with _ | ⟨_ | _, _⟩ <;> rfl
  rw [hvoid]
  simp only [attempted, Play.bind_apply, Play.attempt]
  rcases (Language.value f args : Act D K σ _).exec callees w with _ | ⟨p | v, w'⟩
  · exact .endless
  · exact .ended (.report w' _)
  · exact .ended (.refl w')

end Library

/-! ## Steps -/

namespace Machine

variable {callees : Callees D K σ} {w w₁ : World σ} {a : Act D K σ Unit}

/-- A step leaves the world that the play at its head leaves. -/
theorem perform_trails {play : Play D K σ α} (next : α → Machine D K)
    (envs : Array (Value D K)) (steps : Nat)
    (h : Trails ((a.exec callees w₁).map Prod.snd) ((play callees w).map Prod.snd)) :
    Trails ((a.exec callees w₁).map Prod.snd)
      ((perform callees play next envs steps w).map Prod.snd) := by
  have hworld : (perform callees play next envs steps w).map Prod.snd =
      (play callees w).map Prod.snd := by
    unfold perform
    rcases play callees w with _ | ⟨_ | _, _⟩ <;> rfl
  rw [hworld]
  exact h

variable [Language D K σ]

/-- A step goes along what the closures do that it calls, once its cell has been asked for. -/
theorem step_trails (callees : Callees D K σ) (m : Machine D K) (w : World σ) :
    Trails (((m.act w).exec callees (m.asked w)).map Prod.snd)
      ((m.step callees w).map Prod.snd) := by
  obtain ⟨control, frames, envs, steps⟩ := m
  -- cells have been asked for already, so what is left of a step is the call in it
  cases control with
  | dispatch node =>
    cases node with
    | succeed slot =>
      refine perform_trails _ _ _ ?_
      cases slot with
      | shared v => exact .ended (.refl w)
      | once c v =>
        simp only [Slot.settle, Slot.take, Play.bind_apply, Play.take]
        cases (takeCell c w.cells).1 <;> exact .ended (.refl _)
    | failCause source =>
      cases source with
      | shared c => exact .ended (.refl w)
      | halted n c => exact .ended (.refl _)
      | once c cause => exact .ended (.refl _)
      | made f => exact perform_trails _ _ _ (Play.Along.act_void callees w)
      | failing f => exact perform_trails _ _ _ (Play.Along.void (fun _ => .pure _) callees w)
    | total f args => exact perform_trails _ _ _ (Play.Along.act_void callees w)
    | attempt f args => exact perform_trails _ _ _ (attempted_along f args callees w)
    | flatMap inner k => exact .ended (.refl w)
    | fold inner onCause k => exact .ended (.refl w)
    | provide slot inner =>
      cases slot with
      | shared v => exact .ended (.report w _)
      | once c v =>
        simp only [step, dispatch, Slot.take, Play.bind_apply, Play.take]
        cases (takeCell c w.cells).1 with
        | true => exact .ended (.report _ _)
        | false => exact .ended (.refl _)
    | read type link =>
      refine perform_trails _ _ _ ?_
      simp only [Machine.act]
      cases envs.back? with
      | none => exact .ended (.refl w)
      | some env =>
        simp only [Link.followEnvironment, Link.actTyped]
        cases env.cast? type with
        | some env => exact link.follow_along env callees w
        | none => exact .ended (.refl w)
  | settle ending =>
    cases frames with
    | nil => cases ending <;> exact .ended (.refl w)
    | cons frame frames =>
      cases frame with
      | restore depth => cases ending <;> exact .ended (.report w _)
      | apply k =>
        cases ending with
        | failure c => exact .ended (.refl w)
        | success v => exact perform_trails _ _ _ (k.resume_trails v callees w)
      | fold onCause k =>
        cases ending with
        | failure c => exact perform_trails _ _ _ (onCause.resume_along c callees w)
        | success v => exact perform_trails _ _ _ (k.resume_trails v callees w)

/-- What the next step does to the cell it asks for is as its record says. -/
theorem asks_accounts (callees : Callees D K σ) (m : Machine D K) (w : World σ) :
    Use.Accounts w (m.asks callees w) (some (m.asked w)) := by
  cases hhalt : m.halt? with
  | none =>
    simp only [asks, asked, hhalt]
    exact .ofCell m.cell? w
  | some halt =>
    unfold halt? at hhalt
    split at hhalt <;> cases hhalt
    exact .halt rfl

end Machine

/-! ## Runs -/

/-- What is looked up there accounts for runs and calls. -/
structure Observer.Accounts (observer : Observer D K σ) (callees : Callees D K σ) : Prop where
  run (r : Runner D K) (env : Option (Value D K)) (node : Node D K) (w : World σ) :
    Use.Accounts w (observer.run r env node w) ((callees.run r env node w).map fun out => out.2.2)
  build (f : K) (args : List (Value D K)) (w : World σ) :
    Use.Accounts w (observer.build f args w) ((callees.build f args w).map Prod.snd)

section Runs

variable {observer : Observer D K σ} {callees : Callees D K σ}

/-- The record of an act tells the truth if that of the runs and calls in it does. -/
theorem Act.accounts (ho : observer.Accounts callees) (a : Act D K σ α) (w : World σ) :
    Use.Accounts w (a.uses observer callees w) ((a.exec callees w).map Prod.snd) := by
  -- on the act: what is at the root happens first, and then what is in the branch taken
  induction a generalizing w with
  | done a => exact .nil (.refl w)
  | raise p => exact .nil (.refl w)
  | look k ih => exact ih w.state w
  | write s k ih =>
    have hstill : w.Still { w with state := s } := ⟨rfl, fun _ => Iff.rfl⟩
    exact .of_still hstill (ih { w with state := s })
  | newCell k ih =>
    exact (Use.Accounts.made w).append (ih w.halts.size { w with halts := w.halts.push false })
  | run r env node k ih =>
    have hrun := ho.run r env node w
    simp only [uses, exec]
    generalize callees.run r env node w = out at hrun ⊢
    cases out with
    | none =>
      rw [List.append_nil]
      exact hrun
    | some out =>
      obtain ⟨ending, r', w'⟩ := out
      exact hrun.append (ih r' ending w')
  | build f args k ih =>
    have hbuild := ho.build f args w
    simp only [uses, exec]
    generalize callees.build f args w = out at hbuild ⊢
    cases out with
    | none =>
      rw [List.append_nil]
      exact hbuild
    | some out =>
      obtain ⟨node, w'⟩ := out
      exact hbuild.append (ih node w')

variable [Language D K σ]

/-- One step: it asks for its cell, and then goes along what the closures do. -/
theorem Machine.step_accounts (ho : observer.Accounts callees) (m : Machine D K) (w : World σ) :
    Use.Accounts w (m.asks callees w ++ (m.act w).uses observer callees (m.asked w))
      ((m.step callees w).map Prod.snd) :=
  ((m.asks_accounts callees w).append ((m.act w).accounts ho (m.asked w))).trail
    (m.step_trails callees w)

/-- A whole evaluation, by induction on the fuel: what is recorded of the steps is put together in
    their order. -/
theorem Machine.accounts (ho : observer.Accounts callees) (fuel : Nat) (m : Machine D K)
    (w : World σ) :
    Use.Accounts w (m.uses observer callees fuel w)
      ((Machine.drive callees fuel m w).map Prod.snd) := by
  induction fuel generalizing m w with
  | zero => exact (Use.Accounts.nil (.refl w)).stop
  | succ fuel ih =>
    have hstep := m.step_accounts ho w
    simp only [uses, drive]
    generalize m.step callees w = out at hstep ⊢
    cases out with
    | none =>
      rw [List.append_nil]
      exact hstep
    | some out =>
      obtain ⟨progress, w'⟩ := out
      cases progress with
      | running m' => exact hstep.append (ih m' w')
      | finished ending envs steps =>
        rw [List.append_nil]
        exact hstep

/-- A run makes a cell for its environment, if it binds one, before it evaluates. -/
theorem Runner.accounts (ho : observer.Accounts callees) (fuel : Nat) (r : Runner D K)
    (env : Option (Value D K)) (node : Node D K) (w : World σ) :
    Use.Accounts w (r.uses observer callees fuel env node w)
      ((r.evaluateWith callees fuel env node w).map fun out => out.2.2) := by
  -- the cell of an environment bound for the run is made before the run begins
  have hentry : Play.Still (entry env node : Play D K σ _) := by
    cases env with
    | none => exact .pure node
    | some env => exact Play.Still.cell.bind fun _ => .pure _
  obtain ⟨start, w₁, hstart, hstill⟩ := hentry callees w
  refine .of_still hstill ?_
  simp only [uses, evaluateWith, hstart]
  cases start with
  | error p => exact .nil (.refl w₁)
  | ok start =>
    have hopen : w₁.Still (r.opened w₁) := .trans (.report _ _) (.report _ _)
    cases hfit : r.settings.framesFit with
    | false =>
      -- without room for the frames no node is evaluated
      simp only [evaluate, hfit]
      exact .nil (hopen.trans (.report _ _))
    | true =>
      have hdrive := Machine.accounts ho fuel (r.start start) (r.opened w₁)
      simp only [evaluate, hfit, if_true]
      rw [Runner.start, opened] at hdrive ⊢
      generalize Machine.drive callees fuel _ _ = out at hdrive ⊢
      refine .of_still hopen (hdrive.trail ?_)
      rcases out with _ | ⟨⟨p | ending, envs, steps⟩, w'⟩
      · exact .endless
      · exact .ended (.report _ _)
      · exact .ended (.trans (.report _ _) (.report _ _))

/-- What happens in runs and calls nested however deep is accounted for. -/
theorem Observer.ofFuel_accounts (depth : Nat) :
    (Observer.ofFuel depth : Observer D K σ).Accounts (Callees.ofFuel depth) := by
  induction depth with
  | zero =>
    exact ⟨fun _ _ _ w => (Use.Accounts.nil (.refl w)).stop,
      fun _ _ w => (Use.Accounts.nil (.refl w)).stop⟩
  | succ depth ih =>
    exact ⟨fun r env node w => r.accounts ih depth env node w,
      fun f args w => (Language.effect f args).accounts ih w⟩

end Runs

end EffectMachine
