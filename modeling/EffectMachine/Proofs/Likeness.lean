/-
  Evaluations in two worlds.

  What comes of an evaluation should not depend on certain parts of the world: on what was reported
  before, say, or on a record that somebody keeps of the calls.  To say so one evaluates the same
  node twice, in two worlds between which a relation `R` holds, and finds that both evaluations come
  to the same and that `R` holds again between the worlds they leave, or that both come to no end.

  The two worlds need not share the type of their states, and the closures may have other meanings
  in the one than in the other.  What is asked is little: that the relation tells of the same cells
  on both sides and is kept when both sides change them or report the same (`World.Kept`), and that
  the meanings of every closure, played on both sides, are alike (`Language.Alike`).  Everything the
  library itself does is then alike, up to whole runs and the runs nested in them.
-/
import EffectMachine.Machine

namespace EffectMachine

variable {D K σ τ α β : Type} {R : World σ → World τ → Prop}

/-! ## Alike in two worlds -/

/-- Both come to the same, in worlds that `R` holds between, or both come to no end. -/
inductive SameCourse (R : World σ → World τ → Prop) :
    Option (α × World σ) → Option (α × World τ) → Prop where
  | endless : SameCourse R none none
  | ended {a w v} (h : R w v) : SameCourse R (some (a, w)) (some (a, v))

/-- The same for runs, which give back a runner as well. -/
inductive SameRun (R : World σ → World τ → Prop) :
    Option (α × Runner D K × World σ) → Option (α × Runner D K × World τ) → Prop where
  | endless : SameRun R none none
  | ended {a r w v} (h : R w v) : SameRun R (some (a, r, w)) (some (a, r, v))

/-- The relation is kept by whatever the library does to a world. -/
structure World.Kept (R : World σ → World τ → Prop) : Prop where
  halts {w v} (h : R w v) : w.halts = v.halts
  cells {w v} (h : R w v) : w.cells = v.cells
  setHalts {w v} (h : R w v) (halts : Array Bool) :
    R { w with halts := halts } { v with halts := halts }
  setCells {w v} (h : R w v) (cells : Array Bool) :
    R { w with cells := cells } { v with cells := cells }
  report {w v} (h : R w v) (e : Event) : R (w.report e) (v.report e)

/-- Runs and calls are alike. -/
structure Callees.Alike (R : World σ → World τ → Prop) (c : Callees D K σ) (d : Callees D K τ) :
    Prop where
  run {w v} (h : R w v) (r env node) : SameRun R (c.run r env node w) (d.run r env node v)
  build {w v} (h : R w v) (f args) : SameCourse R (c.build f args w) (d.build f args v)

/-- Plays are alike in all worlds that `R` holds between. -/
def Play.Alike (R : World σ → World τ → Prop) (c : Callees D K σ) (d : Callees D K τ)
    (x : Play D K σ α) (y : Play D K τ α) : Prop :=
  ∀ ⦃w v⦄, R w v → SameCourse R (x c w) (y d v)

/-- The meanings of closures are alike, whatever runs and calls they rely on. -/
structure Language.Alike (L : Language D K σ) (M : Language D K τ)
    (R : World σ → World τ → Prop) : Prop where
  value {c d} (h : Callees.Alike R c d) (f args) :
    Play.Alike R c d (.act (L.value f args)) (.act (M.value f args))
  test {c d} (h : Callees.Alike R c d) (f v) :
    Play.Alike R c d (.act (L.test f v)) (.act (M.test f v))
  outcome {c d} (h : Callees.Alike R c d) (f v) :
    Play.Alike R c d (.act (L.outcome f v)) (.act (M.outcome f v))
  effect {c d} (h : Callees.Alike R c d) (f args) :
    Play.Alike R c d (.act (L.effect f args)) (.act (M.effect f args))
  handler {c d} (h : Callees.Alike R c d) (f cause) :
    Play.Alike R c d (.act (L.handler f cause)) (.act (M.handler f cause))
  cause {c d} (h : Callees.Alike R c d) (f) :
    Play.Alike R c d (.act (L.cause f)) (.act (M.cause f))

/-! ## Plays put together -/

namespace Play.Alike

variable {c : Callees D K σ} {d : Callees D K τ}

protected theorem pure (a : α) : Play.Alike R c d (pure a) (pure a) := fun _ _ h => .ended h

protected theorem bind {x : Play D K σ α} {y : Play D K τ α} {f : α → Play D K σ β}
    {g : α → Play D K τ β} (hx : Play.Alike R c d x y)
    (hf : ∀ a, Play.Alike R c d (f a) (g a)) : Play.Alike R c d (x >>= f) (y >>= g) := by
  intro w v h
  have hxy := hx h
  rw [bind_apply, bind_apply]
  generalize x c w = p at hxy ⊢
  generalize y d v = q at hxy ⊢
  cases hxy with
  | endless => exact .endless
  | @ended a w' v' h' =>
    cases a with
    | ok a => exact hf a h'
    | error p => exact .ended h'

protected theorem map {x : Play D K σ α} {y : Play D K τ α} (f : α → β)
    (h : Play.Alike R c d x y) : Play.Alike R c d (f <$> x) (f <$> y) := by
  rw [map_eq_pure_bind, map_eq_pure_bind]
  exact h.bind fun a => .pure _

/-- What is attempted raises nothing, so a play and its attempt are alike together. -/
protected theorem attempt {a : Act D K σ α} {b : Act D K τ α}
    (h : Play.Alike R c d (.act a) (.act b)) :
    Play.Alike R c d (Play.attempt a) (Play.attempt b) := by
  intro w v hw
  have hab := h hw
  simp only [act, Play.attempt] at hab ⊢
  generalize a.exec c w = p at hab ⊢
  generalize b.exec d v = q at hab ⊢
  cases hab with
  | endless => exact .endless
  | ended h' => exact .ended h'

protected theorem report (hR : World.Kept R) (e : Event) :
    Play.Alike R c d (Play.report e) (Play.report e) :=
  fun _ _ h => .ended (hR.report h e)

/-- The library's cells are numbered in the order of their making, so both sides get one number. -/
protected theorem cell (hR : World.Kept R) : Play.Alike R c d Play.cell Play.cell := by
  intro w v h
  have hset := hR.setCells h (w.cells.push false)
  have hcells := hR.cells h
  simp only [Play.cell, ← hcells]
  exact .ended hset

protected theorem take (hR : World.Kept R) (n : Nat) :
    Play.Alike R c d (Play.take n) (Play.take n) := by
  intro w v h
  have hset := hR.setCells h (takeCell n w.cells).2
  have hcells := hR.cells h
  simp only [Play.take, ← hcells]
  exact .ended hset

protected theorem takeHalt (hR : World.Kept R) (n : Nat) :
    Play.Alike R c d (Play.takeHalt n) (Play.takeHalt n) := by
  intro w v h
  have hset := hR.setHalts h (takeCell n w.halts).2
  have hhalts := hR.halts h
  simp only [Play.takeHalt, ← hhalts]
  exact .ended hset

end Play.Alike

/-! ## What the library plays -/

section Library

variable {L : Language D K σ} {M : Language D K τ} {c : Callees D K σ} {d : Callees D K τ}

theorem Node.succeedOnce_alike (hR : World.Kept R) (v : Value D K) :
    Play.Alike R c d (Node.succeedOnce v) (Node.succeedOnce v) :=
  (Play.Alike.cell hR).bind fun _ => .pure _

theorem Node.haltOnce_alike (hR : World.Kept R) (cause : Cause (Value D K)) :
    Play.Alike R c d (Node.haltOnce cause) (Node.haltOnce cause) :=
  (Play.Alike.cell hR).bind fun _ => .pure _

theorem Node.ofOutcomeOnce_alike (hR : World.Kept R) (o : Outcome (Value D K) (Value D K)) :
    Play.Alike R c d (Node.ofOutcomeOnce o) (Node.ofOutcomeOnce o) := by
  cases o with
  | success a => exact succeedOnce_alike hR a
  | failure e => exact haltOnce_alike hR _

theorem Slot.take_alike (hR : World.Kept R) (slot : Slot D K) :
    Play.Alike R c d slot.take slot.take := by
  cases slot with
  | shared v => exact .pure _
  | once n v => exact (Play.Alike.take hR n).bind fun there => .pure _

theorem Slot.settle_alike (hR : World.Kept R) (slot : Slot D K) :
    Play.Alike R c d slot.settle slot.settle := by
  refine (slot.take_alike hR).bind fun v? => ?_
  cases v? with
  | none => exact .pure _
  | some v => exact .pure _

theorem Source.take_alike (hL : Language.Alike L M R) (hR : World.Kept R)
    (hc : Callees.Alike R c d) (source : Source D K) :
    Play.Alike R c d (@Source.take D K σ L source) (@Source.take D K τ M source) := by
  cases source with
  | shared cause => exact .pure _
  | halted n cause => exact (Play.Alike.takeHalt hR n).bind fun there => .pure _
  | once n cause => exact (Play.Alike.take hR n).bind fun there => .pure _
  | made f => exact hL.cause hc f
  | failing f => exact (hL.value hc f []).bind fun e => .pure _

theorem joined_alike (hL : Language.Alike L M R) (hc : Callees.Alike R c d) (join : Option K)
    (a b : Value D K) :
    Play.Alike R c d (@joined D K σ L join a b) (@joined D K τ M join a b) := by
  cases join with
  | none => exact .pure _
  | some f => exact hL.value hc f [a, b]

/-- Link by link: closures are called on the same values on both sides, and the cells that are made
    get the same numbers. -/
theorem Link.follow_alike (hL : Language.Alike L M R) (hR : World.Kept R)
    (hc : Callees.Alike R c d) (link : Link D K) (v : Value D K) :
    Play.Alike R c d (@Link.follow D K σ L link v) (@Link.follow D K τ M link v) := by
  cases link with
  | now => exact Node.succeedOnce_alike hR v
  | nowOf f => exact (hL.value hc f [v]).bind fun b => Node.succeedOnce_alike hR b
  | nowSuccess e a => exact Node.succeedOnce_alike hR _
  | nowFailure e a => exact Node.succeedOnce_alike hR _
  | failNow => exact Node.haltOnce_alike hR _
  | call f => exact hL.effect hc f [v]
  | outcomeOf f => exact (hL.outcome hc f v).bind fun o => Node.ofOutcomeOnce_alike hR o
  | replace that => exact .pure _
  | zip that t how => exact (Play.Alike.cell hR).bind fun n => .pure _
  | join a how => exact (joined_alike hL hc how a v).bind fun b => Node.succeedOnce_alike hR b
  | require passes error =>
    refine (hL.test hc passes v).bind fun there => ?_
    cases there with
    | true => exact Node.succeedOnce_alike hR v
    | false => exact (hL.value hc error [v]).bind fun e => Node.haltOnce_alike hR _
  | assert passes payload =>
    refine (hL.test hc passes v).bind fun there => ?_
    cases there with
    | true => exact Node.succeedOnce_alike hR v
    | false => exact (hL.value hc payload [v]).bind fun e => Node.haltOnce_alike hR _
  | absolve =>
    cases v with
    | outcome e a o => exact Node.ofOutcomeOnce_alike hR o
    | _ => exact .pure _
  | flatten => cases v <;> exact .pure _
  | provide env => cases v <;> exact .pure _
  | supply outer r s e a => exact Node.succeedOnce_alike hR _
  | park => exact Node.haltOnce_alike hR _
  | applyTo f => cases v <;> exact .pure _
  | applyWhole f => exact .pure _

theorem Link.followTyped_alike (hL : Language.Alike L M R) (hR : World.Kept R)
    (hc : Callees.Alike R c d) (type : Ty) (link : Link D K) (v : Value D K) :
    Play.Alike R c d (@Link.followTyped D K σ L type link v)
      (@Link.followTyped D K τ M type link v) := by
  simp only [Link.followTyped]
  cases v.cast? type with
  | none => exact .pure _
  | some v => exact link.follow_alike hL hR hc v

theorem Link.followEnvironment_alike (hL : Language.Alike L M R) (hR : World.Kept R)
    (hc : Callees.Alike R c d) (type : Ty) (link : Link D K) (env : Option (Value D K)) :
    Play.Alike R c d (@Link.followEnvironment D K σ L type link env)
      (@Link.followEnvironment D K τ M type link env) := by
  cases env with
  | none => exact .pure _
  | some env =>
    simp only [Link.followEnvironment]
    cases env.cast? type with
    | none => exact .pure _
    | some env => exact link.follow_alike hL hR hc env

theorem Continuation.resume_alike (hL : Language.Alike L M R) (hR : World.Kept R)
    (hc : Callees.Alike R c d) (k : Continuation D K) (v : Value D K) :
    Play.Alike R c d (@Continuation.resume D K σ L k v) (@Continuation.resume D K τ M k v) := by
  cases k with
  | passThrough => exact Node.succeedOnce_alike hR v
  | typed type link => exact link.followTyped_alike hL hR hc type v
  | typedOnce n type link =>
    refine (Play.Alike.take hR n).bind fun there => ?_
    cases there with
    | true => exact link.followTyped_alike hL hR hc type v
    | false => exact .pure _

/-- The cause is looked at before a closure is called, and it is one cause on both sides. -/
theorem Handler.resume_alike (hL : Language.Alike L M R) (hR : World.Kept R)
    (hc : Callees.Alike R c d) (h : Handler D K) (cause : Cause (Value D K)) :
    Play.Alike R c d (@Handler.resume D K σ L h cause) (@Handler.resume D K τ M h cause) := by
  cases h with
  | mapError error f =>
    simp only [Handler.resume]
    cases cause.typed error with
    | fail e =>
      simp only [Cause.mapM, Play.act_map]
      exact ((hL.value hc f [e]).map _).bind fun e => Node.haltOnce_alike hR _
    | die defect => exact (Play.Alike.pure _).bind fun e => Node.haltOnce_alike hR e
  | onCause error f => exact hL.handler hc f _
  | onFailure error link =>
    simp only [Handler.resume]
    cases cause.typed error with
    | fail e => exact link.follow_alike hL hR hc e
    | die defect => exact Node.haltOnce_alike hR _
  | escalate error =>
    simp only [Handler.resume]
    cases cause.typed error with
    | fail e => exact Node.haltOnce_alike hR _
    | die defect => exact Node.haltOnce_alike hR _
  | narrow error payload into =>
    simp only [Handler.resume]
    cases cause.typed error with
    | fail e => exact Node.haltOnce_alike hR _
    | die defect =>
      simp only
      cases defect.cast? payload with
      | none => exact Node.haltOnce_alike hR _
      | some p => exact (hL.value hc into [p]).bind fun e => Node.haltOnce_alike hR _
  | typeCase error type case =>
    simp only [Handler.resume]
    cases cause.typed error with
    | fail e => exact Node.haltOnce_alike hR _
    | die defect =>
      obtain ⟨payload, name⟩ := defect
      cases payload with
      | unmatched u =>
        simp only
        cases u.take? type with
        | none => exact Node.haltOnce_alike hR _
        | some v => exact (Play.Alike.cell hR).bind fun n => .pure _
      | _ => exact Node.haltOnce_alike hR _

/-- An attempted closure settles in what it raises; there is a report of that, the same on both
    sides. -/
theorem Machine.attempted_alike (hL : Language.Alike L M R) (hR : World.Kept R)
    (hc : Callees.Alike R c d) (f : K) (args : List (Value D K)) :
    Play.Alike R c d (@Machine.attempted D K σ L f args) (@Machine.attempted D K τ M f args) := by
  refine (hL.value hc f args).attempt.bind fun r => ?_
  cases r with
  | ok v => exact .pure _
  | error p => exact (Play.Alike.report hR .raised).bind fun _ => .pure _

/-! ## What the machine does -/

/-- A play that stands at the head of a step leads to states that are alike, and leaves like it if
    it raises. -/
theorem Machine.perform_alike {x : Play D K σ α} {y : Play D K τ α} (h : Play.Alike R c d x y)
    (next : α → Machine D K) (envs : Array (Value D K)) (steps : Nat) {w : World σ} {v : World τ}
    (hw : R w v) :
    SameCourse R (Machine.perform c x next envs steps w)
      (Machine.perform d y next envs steps v) := by
  have hxy := h hw
  unfold Machine.perform
  generalize x c w = p at hxy ⊢
  generalize y d v = q at hxy ⊢
  cases hxy with
  | endless => exact .endless
  | @ended a w' v' h' => cases a <;> exact .ended h'

/-- One step of the machine.  This is where everything above is put together, by what is under
    control. -/
theorem Machine.step_alike (hL : Language.Alike L M R) (hR : World.Kept R)
    (hc : Callees.Alike R c d) (m : Machine D K) {w : World σ} {v : World τ} (hw : R w v) :
    SameCourse R (@Machine.step D K σ L c m w) (@Machine.step D K τ M d m v) := by
  obtain ⟨control, frames, envs, steps⟩ := m
  cases control with
  | dispatch node =>
    cases node with
    | succeed slot => exact perform_alike (slot.settle_alike hR) _ _ _ hw
    | failCause source => exact perform_alike (source.take_alike hL hR hc) _ _ _ hw
    | total f args => exact perform_alike (hL.value hc f args) _ _ _ hw
    | attempt f args => exact perform_alike (attempted_alike hL hR hc f args) _ _ _ hw
    | flatMap inner k => exact .ended hw
    | fold inner onCause k => exact .ended hw
    | provide slot inner =>
      have htake := slot.take_alike (c := c) (d := d) hR hw
      simp only [Machine.step, Machine.dispatch]
      generalize slot.take c w = p at htake ⊢
      generalize slot.take d v = q at htake ⊢
      cases htake with
      | endless => exact .endless
      | @ended env? w' v' h' =>
        rcases env? with p | _ | env
        · exact .ended h'
        · exact .ended h'
        · exact .ended (hR.report h' _)
    | read type link => exact perform_alike (link.followEnvironment_alike hL hR hc type _) _ _ _ hw
  | settle ending =>
    cases frames with
    | nil => exact .ended hw
    | cons frame frames =>
      cases frame with
      | apply k =>
        cases ending with
        | success a => exact perform_alike (k.resume_alike hL hR hc a) _ _ _ hw
        | failure cause => exact .ended hw
      | fold onCause k =>
        cases ending with
        | success a => exact perform_alike (k.resume_alike hL hR hc a) _ _ _ hw
        | failure cause => exact perform_alike (onCause.resume_alike hL hR hc cause) _ _ _ hw
      | restore depth => exact .ended (hR.report hw _)

/-- By induction on the fuel: the machines are the same after every step, only the worlds differ. -/
theorem Machine.drive_alike (hL : Language.Alike L M R) (hR : World.Kept R)
    (hc : Callees.Alike R c d) (fuel : Nat) (m : Machine D K) {w : World σ} {v : World τ}
    (hw : R w v) :
    SameCourse R (@Machine.drive D K σ L c fuel m w) (@Machine.drive D K τ M d fuel m v) := by
  induction fuel generalizing m w v with
  | zero => exact .endless
  | succ fuel ih =>
    have hstep := step_alike hL hR hc m hw
    simp only [Machine.drive]
    generalize @Machine.step D K σ L c m w = p at hstep ⊢
    generalize @Machine.step D K τ M d m v = q at hstep ⊢
    cases hstep with
    | endless => exact .endless
    | @ended progress w' v' h' =>
      cases progress with
      | running m' => exact ih m' h'
      | finished ending envs steps => exact .ended h'

end Library

/-! ## Runs -/

section Runs

variable {L : Language D K σ} {M : Language D K τ} {c : Callees D K σ} {d : Callees D K τ}

theorem Runner.evaluate_alike (hL : Language.Alike L M R) (hR : World.Kept R)
    (hc : Callees.Alike R c d) (fuel : Nat) (r : Runner D K) (node : Node D K) {w : World σ}
    {v : World τ} (hw : R w v) :
    SameRun R (@Runner.evaluate D K σ L c fuel r node w)
      (@Runner.evaluate D K τ M d fuel r node v) := by
  have hopen := hR.report (hR.report hw (.span r.settings.label)) .enter
  have hdrive := Machine.drive_alike hL hR hc fuel ⟨.dispatch node, [], r.environments, 0⟩ hopen
  simp only [Runner.evaluate]
  split
  · generalize @Machine.drive D K σ L c fuel _ _ = p at hdrive ⊢
    generalize @Machine.drive D K τ M d fuel _ _ = q at hdrive ⊢
    cases hdrive with
    | endless => exact .endless
    | @ended result w' v' h' =>
      obtain ⟨ending, envs, steps⟩ := result
      cases ending with
      | ok ending => exact .ended (hR.report (hR.report h' _) _)
      | error p => exact .ended (hR.report h' _)
  · exact .ended (hR.report hopen _)

theorem Runner.evaluateWith_alike (hL : Language.Alike L M R) (hR : World.Kept R)
    (hc : Callees.Alike R c d) (fuel : Nat) (r : Runner D K) (env : Option (Value D K))
    (node : Node D K) {w : World σ} {v : World τ} (hw : R w v) :
    SameRun R (@Runner.evaluateWith D K σ L c fuel r env node w)
      (@Runner.evaluateWith D K τ M d fuel r env node v) := by
  have hentry : Play.Alike R c d (Runner.entry env node) (Runner.entry env node) := by
    cases env with
    | none => exact .pure _
    | some env => exact (Play.Alike.cell hR).bind fun n => .pure _
  have hstart := hentry hw
  simp only [Runner.evaluateWith]
  generalize Runner.entry env node c w = p at hstart ⊢
  generalize Runner.entry env node d v = q at hstart ⊢
  cases hstart with
  | endless => exact .endless
  | @ended start w' v' h' =>
    cases start with
    | ok start => exact evaluate_alike hL hR hc fuel r start h'
    | error p => exact .ended h'

/-- Runs and calls nested however deep are alike. -/
theorem Callees.ofFuel_alike (hL : Language.Alike L M R) (hR : World.Kept R) (fuel : Nat) :
    Callees.Alike R (@Callees.ofFuel D K σ L fuel) (@Callees.ofFuel D K τ M fuel) := by
  induction fuel with
  | zero => exact ⟨fun _ _ _ _ => .endless, fun _ _ _ => .endless⟩
  | succ fuel ih =>
    constructor
    · intro w v hw r env node
      exact Runner.evaluateWith_alike hL hR ih fuel r env node hw
    · intro w v hw f args
      exact hL.effect ih f args hw

end Runs

/-! ## Acts on a part of the state -/

/-- A part of a shared state: what it is, and the whole with another one in its place. -/
structure StatePart (σ τ : Type) where
  get : τ → σ
  set : σ → τ → τ

/-- The state as a part of itself. -/
def StatePart.whole : StatePart σ σ := ⟨id, fun s _ => s⟩

/-- What `place` makes of an act goes on in a state of which the act's own is a part.  It looks at
    that part and replaces it, and asks for the same cells, runs and calls. -/
structure StatePart.Places (part : StatePart σ τ) (place : Act D K σ α → Act D K τ α) : Prop where
  done (a) : place (.done a) = .done a
  raise (p) : place (.raise p) = .raise p
  look (k c w) : (place (.look k)).exec c w = (place (k (part.get w.state))).exec c w
  write (s k c w) :
    (place (.write s k)).exec c w = (place k).exec c { w with state := part.set s w.state }
  newCell (k) : place (.newCell k) = .newCell fun n => place (k n)
  run (r env node k) :
    place (.run r env node k) = .run r env node fun r' ending => place (k r' ending)
  build (f args k) : place (.build f args k) = .build f args fun node => place (k node)

theorem StatePart.places_whole :
    (StatePart.whole : StatePart σ σ).Places (id : Act D K σ α → Act D K σ α) where
  done _ := rfl
  raise _ := rfl
  look _ _ _ := rfl
  write _ _ _ _ := rfl
  newCell _ := rfl
  run _ _ _ _ := rfl
  build _ _ _ := rfl

/-- Between worlds in which the relation holds the two parts are the same, and it is kept when they
    are replaced by the same. -/
structure World.KeptAt {υ : Type} (R : World τ → World υ → Prop) (part : StatePart σ τ)
    (part' : StatePart σ υ) : Prop where
  get {w v} (h : R w v) : part.get w.state = part'.get v.state
  set {w v} (h : R w v) (s : σ) :
    R { w with state := part.set s w.state } { v with state := part'.set s v.state }

/-- One act, placed in two states, goes the same way in worlds whose relation its part and the
    library keep. -/
theorem StatePart.Places.alike {υ : Type} {part : StatePart σ τ} {part' : StatePart σ υ}
    {place : Act D K σ α → Act D K τ α} {place' : Act D K σ α → Act D K υ α}
    (hplace : part.Places place) (hplace' : part'.Places place') {R : World τ → World υ → Prop}
    (hR : World.Kept R) (hpart : World.KeptAt R part part') {c : Callees D K τ}
    {d : Callees D K υ} (hc : Callees.Alike R c d) (a : Act D K σ α) :
    Play.Alike R c d (.act (place a)) (.act (place' a)) := by
  intro w v h
  show SameCourse R ((place a).exec c w) ((place' a).exec d v)
  induction a generalizing w v with
  | done a =>
    rw [hplace.done, hplace'.done]
    exact .ended h
  | raise p =>
    rw [hplace.raise, hplace'.raise]
    exact .ended h
  | look k ih =>
    rw [hplace.look, hplace'.look, hpart.get h]
    exact ih _ h
  | write s k ih =>
    rw [hplace.write, hplace'.write]
    exact ih (hpart.set h s)
  | newCell k ih =>
    have hset := hR.setHalts h (w.halts.push false)
    have hhalts := hR.halts h
    rw [hplace.newCell, hplace'.newCell]
    simp only [Act.exec, ← hhalts]
    exact ih _ hset
  | run r env node k ih =>
    -- the answer is the same on both sides, and so is what the act does about it
    have hrun := hc.run h r env node
    rw [hplace.run, hplace'.run]
    simp only [Act.exec]
    generalize c.run r env node w = p at hrun ⊢
    generalize d.run r env node v = q at hrun ⊢
    cases hrun with
    | endless => exact .endless
    | ended h' => exact ih _ _ h'
  | build f args k ih =>
    have hbuild := hc.build h f args
    rw [hplace.build, hplace'.build]
    simp only [Act.exec]
    generalize c.build f args w = p at hbuild ⊢
    generalize d.build f args v = q at hbuild ⊢
    cases hbuild with
    | endless => exact .endless
    | ended h' => exact ih _ h'

/-! ## Reports are out of sight -/

/-- Two worlds that differ in what was reported at most. -/
structure World.Agree (w v : World σ) : Prop where
  state : w.state = v.state
  halts : w.halts = v.halts
  cells : w.cells = v.cells

theorem World.Agree.refl (w : World σ) : w.Agree w := ⟨rfl, rfl, rfl⟩

theorem World.Agree.symm {w v : World σ} (h : w.Agree v) : v.Agree w :=
  ⟨h.state.symm, h.halts.symm, h.cells.symm⟩

theorem World.Agree.trans {w v u : World σ} (h : w.Agree v) (h' : v.Agree u) : w.Agree u :=
  ⟨h.state.trans h'.state, h.halts.trans h'.halts, h.cells.trans h'.cells⟩

theorem World.agree_report (w : World σ) (e : Event) : w.Agree (w.report e) := ⟨rfl, rfl, rfl⟩

theorem World.agree_kept : World.Kept (@World.Agree σ) where
  halts h := h.halts
  cells h := h.cells
  setHalts h _ := ⟨h.state, rfl, h.cells⟩
  setCells h _ := ⟨h.state, h.halts, rfl⟩
  report h _ := ⟨h.state, h.halts, h.cells⟩

/-- Both sides have the same shared state, and get the same one. -/
theorem World.agree_keptAt : World.KeptAt (@World.Agree σ) StatePart.whole StatePart.whole where
  get h := h.state
  set h _ := ⟨rfl, h.halts, h.cells⟩

/-- An act goes the same way in worlds that differ in what was reported at most. -/
theorem Act.exec_agree {c d : Callees D K σ} (hc : Callees.Alike World.Agree c d)
    (a : Act D K σ α) : Play.Alike World.Agree c d (.act a) (.act a) :=
  StatePart.places_whole.alike StatePart.places_whole World.agree_kept World.agree_keptAt hc a

/-- Closures do not see the trace, so that each is like itself. -/
theorem Language.alike_agree (L : Language D K σ) : Language.Alike L L World.Agree where
  value h _ _ := Act.exec_agree h _
  test h _ _ := Act.exec_agree h _
  outcome h _ _ := Act.exec_agree h _
  effect h _ _ := Act.exec_agree h _
  handler h _ _ := Act.exec_agree h _
  cause h _ := Act.exec_agree h _

/-- Runs and calls go the same way in worlds that differ in what was reported at most. -/
theorem Callees.ofFuel_agree [L : Language D K σ] (fuel : Nat) :
    Callees.Alike World.Agree (Callees.ofFuel fuel : Callees D K σ) (Callees.ofFuel fuel) :=
  Callees.ofFuel_alike L.alike_agree World.agree_kept fuel

end EffectMachine
