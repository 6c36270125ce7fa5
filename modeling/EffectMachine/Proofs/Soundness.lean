/-
  Typed trees stay typed.

  A tree that is typed, evaluated against closures that do as their signature says, goes through
  typed states only.  The argument has three layers.

  * What a closure does is an act, and `Act.Sound` says that it does as declared: it returns what it
    should whenever what it is answered is sound, it keeps the invariant of the shared state, and
    it runs typed trees only.  `Language.Honours` asks this of every closure a signature declares.
  * What the library does between two nodes is a play, and plays that are sound in sequence are
    sound together (`Play.Sound`).  There is one lemma for each of them.
  * A state of the machine is typed if its frames and its environments are: `Stacked` types both
    stacks at once, since a `restore` frame is where the type of the environment changes.  A step
    keeps states typed (`Leads.typed`), and so do many.

  A closure may run trees of its own and call others for theirs, to any depth.  The last part ties
  the knot by induction on the fuel of the callees.
-/
import EffectMachine.Proofs.Scopes
import EffectMachine.Proofs.Typing

namespace EffectMachine

variable {D K σ α β : Type}

/-! ## Acts that do as declared -/

/-- What was returned is as `Q` says, and what was raised is sound. -/
def Raised.Sound (Γ : Signature K) (Q : α → Prop) : Raised D K α → Prop
  | .ok a => Q a
  | .error p => p.Sound Γ

/-- The environment a run is given is of the type that is read.  A run that is given none reads one
    of the unit type. -/
inductive Supplied (Γ : Signature K) : Ty → Option (Value D K) → Prop where
  | none : Supplied Γ .unit none
  | some {R env} (h : Value.Fits Γ R env) : Supplied Γ R (some env)

/-- The act returns what `Q` says if it returns, keeps the invariant of the shared state, and asks
    for typed runs and declared calls only. -/
def Act.Sound (Γ : Signature K) (I : σ → Prop) (Q : α → Prop) : Act D K σ α → Prop
  | done a => Q a
  | raise p => p.Sound Γ
  | look k => ∀ s, I s → (k s).Sound Γ I Q
  | write s k => I s ∧ k.Sound Γ I Q
  | newCell k => ∀ c, (k c).Sound Γ I Q
  | run r env node k => r.environments = #[] ∧ ∃ R E A, Supplied Γ R env ∧ node.Typed Γ R E A ∧
      ∀ r' ending, r'.environments = #[] → Raised.Sound Γ (Ending.Typed Γ E A) ending →
        (k r' ending).Sound Γ I Q
  | build f args k => ∃ Ts R E A, Γ.effect f Ts R E A ∧ Value.AllFit Γ Ts args ∧
      ∀ node, Raised.Sound Γ (Node.Typed Γ R E A) node → (k node).Sound Γ I Q

/-- Every closure does as it is declared. -/
structure Language.Honours (L : Language D K σ) (Γ : Signature K) (I : σ → Prop) : Prop where
  value {f Ts T vs} (h : Γ.value f Ts T) (hvs : Value.AllFit Γ Ts vs) :
    (L.value f vs).Sound Γ I (Value.Fits Γ T)
  test {f T v} (h : Γ.test f T) (hv : v.Fits Γ T) : (L.test f v).Sound Γ I fun _ => True
  outcome {f T E A v} (h : Γ.outcome f T E A) (hv : v.Fits Γ T) :
    (L.outcome f v).Sound Γ I (Outcome.Fits Γ E A)
  effect {f Ts R E A vs} (h : Γ.effect f Ts R E A) (hvs : Value.AllFit Γ Ts vs) :
    (L.effect f vs).Sound Γ I (Node.Typed Γ R E A)
  handler {f E R E' A c} (h : Γ.handler f E R E' A) (hc : c.Typed Γ E) :
    (L.handler f c).Sound Γ I (Node.Typed Γ R E' A)
  cause {f E} (h : Γ.cause f E) : (L.cause f).Sound Γ I (Cause.Typed Γ E)

/-- Typed runs end as typed, and declared calls return what is declared. -/
structure Callees.Sound (Γ : Signature K) (I : σ → Prop) (c : Callees D K σ) : Prop where
  run {r env node R E A w ending r' w'} (hr : r.environments = #[]) (henv : Supplied Γ R env)
    (hnode : node.Typed Γ R E A) (hw : I w.state)
    (h : c.run r env node w = some (ending, r', w')) :
    r'.environments = #[] ∧ Raised.Sound Γ (Ending.Typed Γ E A) ending ∧ I w'.state
  build {f args Ts R E A w node w'} (hf : Γ.effect f Ts R E A) (hargs : Value.AllFit Γ Ts args)
    (hw : I w.state) (h : c.build f args w = some (node, w')) :
    Raised.Sound Γ (Node.Typed Γ R E A) node ∧ I w'.state

/-! ## Plays in sequence -/

/-- Where the play comes to an end it has returned what `Q` says or raised what is sound, and kept
    the invariant. -/
def Play.Sound (Γ : Signature K) (I : σ → Prop) (c : Callees D K σ) (Q : α → Prop)
    (x : Play D K σ α) : Prop :=
  ∀ ⦃w result w'⦄, I w.state → x c w = some (result, w') → Raised.Sound Γ Q result ∧ I w'.state

section Plays

variable {Γ : Signature K} {I : σ → Prop} {c : Callees D K σ}

namespace Play.Sound

protected theorem pure {Q : α → Prop} {a : α} (h : Q a) : Play.Sound Γ I c Q (pure a) := by
  intro w result w' hw hplay
  cases hplay
  exact ⟨h, hw⟩

/-- The invariant of one play after another: what the first returns satisfies what the second asks
    for. -/
protected theorem bind {P : α → Prop} {Q : β → Prop} {x : Play D K σ α} {f : α → Play D K σ β}
    (hx : Play.Sound Γ I c P x) (hf : ∀ a, P a → Play.Sound Γ I c Q (f a)) :
    Play.Sound Γ I c Q (x >>= f) := by
  intro w result w' hw hplay
  rw [bind_apply] at hplay
  rcases hxw : x c w with _ | ⟨p | a, w₁⟩
  · rw [hxw] at hplay; cases hplay
  · rw [hxw] at hplay
    cases hplay
    exact hx hw hxw
  · rw [hxw] at hplay
    obtain ⟨ha, hw₁⟩ := hx hw hxw
    exact hf a ha hw₁ hplay

protected theorem map {P : α → Prop} {Q : β → Prop} {x : Play D K σ α} {f : α → β}
    (hx : Play.Sound Γ I c P x) (hf : ∀ a, P a → Q (f a)) : Play.Sound Γ I c Q (f <$> x) := by
  rw [map_eq_pure_bind]
  exact hx.bind fun a ha => .pure (hf a ha)

/-- An act that does as declared does so when it is played. -/
protected theorem act (hc : c.Sound Γ I) {Q : α → Prop} {a : Act D K σ α} (h : a.Sound Γ I Q) :
    Play.Sound Γ I c Q (Play.act a) := by
  intro w result w' hw hplay
  have hexec : a.exec c w = some (result, w') := hplay
  clear hplay
  induction a generalizing w with
  | done a => cases hexec; exact ⟨h, hw⟩
  | raise p => cases hexec; exact ⟨h, hw⟩
  | look k ih => exact ih w.state (h w.state hw) hw hexec
  | write s k ih => exact ih h.2 (w := ⟨s, w.halts, w.cells, w.trace⟩) h.1 hexec
  | newCell k ih =>
    exact ih w.halts.size (h w.halts.size)
      (w := ⟨w.state, w.halts.push false, w.cells, w.trace⟩) hw hexec
  | run r env node k ih =>
    obtain ⟨hr, R, E, A, henv, hnode, hk⟩ := h
    simp only [Act.exec] at hexec
    rcases hrun : c.run r env node w with _ | ⟨ending, r', w₁⟩
    · rw [hrun] at hexec; cases hexec
    · rw [hrun] at hexec
      obtain ⟨hr', hending, hw₁⟩ := hc.run hr henv hnode hw hrun
      exact ih r' ending (hk r' ending hr' hending) hw₁ hexec
  | build f args k ih =>
    obtain ⟨Ts, R, E, A, hf, hargs, hk⟩ := h
    simp only [Act.exec] at hexec
    rcases hbuild : c.build f args w with _ | ⟨node, w₁⟩
    · rw [hbuild] at hexec; cases hexec
    · rw [hbuild] at hexec
      obtain ⟨hnode, hw₁⟩ := hc.build hf hargs hw hbuild
      exact ih node (hk node hnode) hw₁ hexec

/-- What an attempted act raises is sound as a payload. -/
protected theorem attempt {Q : α → Prop} {a : Act D K σ α}
    (h : Play.Sound Γ I c Q (Play.act a)) :
    Play.Sound Γ I c (Raised.Sound Γ Q) (Play.attempt a) := by
  intro w result w' hw hplay
  simp only [attempt] at hplay
  rcases hexec : a.exec c w with _ | ⟨r, w₁⟩
  · rw [hexec] at hplay; cases hplay
  · rw [hexec] at hplay
    cases hplay
    exact h hw hexec

protected theorem report (e : Event) : Play.Sound Γ I c (fun _ => True) (Play.report e) := by
  intro w result w' hw hplay
  cases hplay
  exact ⟨trivial, hw⟩

protected theorem cell : Play.Sound Γ I c (fun _ => True) Play.cell := by
  intro w result w' hw hplay
  cases hplay
  exact ⟨trivial, hw⟩

protected theorem take (n : Nat) : Play.Sound Γ I c (fun _ => True) (Play.take n) := by
  intro w result w' hw hplay
  cases hplay
  exact ⟨trivial, hw⟩

protected theorem takeHalt (n : Nat) : Play.Sound Γ I c (fun _ => True) (Play.takeHalt n) := by
  intro w result w' hw hplay
  cases hplay
  exact ⟨trivial, hw⟩

end Play.Sound

end Plays

/-! ## What the library plays -/

section Library

variable {Γ : Signature K} {I : σ → Prop} {c : Callees D K σ} {R E A T : Ty}

theorem Node.succeedOnce_sound {v : Value D K} (h : v.Fits Γ A) :
    Play.Sound Γ I c (Node.Typed Γ R E A) (Node.succeedOnce v) :=
  Play.Sound.cell.bind fun _ _ => .pure (.succeed (.once_of_fits h))

theorem Node.haltOnce_sound {cause : Cause (Value D K)} (h : cause.Typed Γ E) :
    Play.Sound Γ I c (Node.Typed Γ R E A) (Node.haltOnce cause) :=
  Play.Sound.cell.bind fun _ _ => .pure (.failCause (.once h))

theorem Node.ofOutcomeOnce_sound {o : Outcome (Value D K) (Value D K)} (h : o.Fits Γ E A) :
    Play.Sound Γ I c (Node.Typed Γ R E A) (Node.ofOutcomeOnce o) := by
  cases o with
  | success v => exact succeedOnce_sound h
  | failure e => exact haltOnce_sound (.ofFail h)

theorem Node.typed_ofFault {f : Fault} (h : Γ.Admits f) :
    (Node.ofFault f : Node D K).Typed Γ R E A := .failCause (.shared (.ofFault h))

/-- Whatever the slot holds, if it still holds anything, fits the type it is declared with. -/
theorem Slot.take_sound {slot : Slot D K} (h : slot.Typed Γ A) :
    Play.Sound Γ I c (fun v? => ∀ v, v? = some v → v.Fits Γ A) slot.take := by
  cases h with
  | shared htype hv =>
    refine .pure ?_
    intro v heq
    cases heq
    exact ⟨htype, hv⟩
  | once htype hv =>
    refine (Play.Sound.take _).bind fun there _ => .pure ?_
    intro v heq
    cases there <;> cases heq
    exact ⟨htype, hv⟩

theorem Slot.settle_sound {slot : Slot D K} (h : slot.Typed Γ A) :
    Play.Sound Γ I c (Ending.Typed Γ E A) slot.settle := by
  refine (slot.take_sound h).bind fun v? hv => ?_
  cases v? with
  | none => exact .pure (.ofFault .consumed)
  | some v => exact .pure (hv v rfl)

variable [L : Language D K σ]

/-- A source gives a cause of its error type: its own, a fault, or the one a closure makes. -/
theorem Source.take_sound (hL : L.Honours Γ I) (hc : c.Sound Γ I) {source : Source D K}
    (h : source.Typed Γ E) : Play.Sound Γ I c (Cause.Typed Γ E) source.take := by
  cases h with
  | shared hcause => exact .pure hcause
  | halted hcause =>
    refine (Play.Sound.takeHalt _).bind fun there _ => .pure ?_
    cases there with
    | true => exact hcause
    | false => exact .ofFault .consumed
  | once hcause =>
    refine (Play.Sound.take _).bind fun there _ => .pure ?_
    cases there with
    | true => exact hcause
    | false => exact .ofFault .consumed
  | made hf => exact .act hc (hL.cause hf)
  | failing hf => exact (Play.Sound.act hc (hL.value hf .nil)).bind fun e he => .pure (.ofFail he)

theorem joined_sound (hL : L.Honours Γ I) (hc : c.Sound Γ I) {how : Option K} {S : Ty}
    {a b : Value D K} (h : Γ.Joins how S T A) (ha : a.Fits Γ S) (hb : b.Fits Γ T) :
    Play.Sound Γ I c (Value.Fits Γ A) (joined how a b) := by
  cases h with
  | pair => exact .pure (Value.AllFit.pair ha hb).tuple
  | byClosure hf => exact .act hc (hL.value hf (.pair ha hb))

/-- A link that is followed on a value of its type leads to a node of its types. -/
theorem Link.follow_sound (hL : L.Honours Γ I) (hc : c.Sound Γ I) {link : Link D K}
    {v : Value D K} (h : link.Typed Γ T R E A) (hv : v.Fits Γ T) :
    Play.Sound Γ I c (Node.Typed Γ R E A) (link.follow v) := by
  cases h with
  | now => exact Node.succeedOnce_sound hv
  | nowOf hf =>
    exact (Play.Sound.act hc (hL.value hf (.singleton hv))).bind fun b hb =>
      Node.succeedOnce_sound hb
  | nowSuccess => exact Node.succeedOnce_sound ⟨rfl, .success hv.type hv.sound⟩
  | nowFailure => exact Node.succeedOnce_sound ⟨rfl, .failure hv.type hv.sound⟩
  | failNow => exact Node.haltOnce_sound (.ofFail hv)
  | call hf => exact .act hc (hL.effect hf (.singleton hv))
  | outcomeOf hf =>
    exact (Play.Sound.act hc (hL.outcome hf hv)).bind fun o ho => Node.ofOutcomeOnce_sound ho
  | replace hthat => exact .pure hthat
  | zip hthat hjoin =>
    have hlink := Link.Typed.join (R := R) (E := E) hv.sound (hv.type.symm ▸ hjoin)
    exact Play.Sound.cell.bind fun _ _ => .pure (.flatMap hthat (.typedOnce hlink))
  | join hearlier hjoin =>
    exact (joined_sound hL hc hjoin ⟨rfl, hearlier⟩ hv).bind fun b hb => Node.succeedOnce_sound hb
  | require hpasses herror =>
    refine (Play.Sound.act hc (hL.test hpasses hv)).bind fun passes _ => ?_
    cases passes with
    | true => exact Node.succeedOnce_sound hv
    | false =>
      exact (Play.Sound.act hc (hL.value herror (.singleton hv))).bind fun e he =>
        Node.haltOnce_sound (.ofFail he)
  | assert hpasses hpayload =>
    refine (Play.Sound.act hc (hL.test hpasses hv)).bind fun passes _ => ?_
    cases passes with
    | true => exact Node.succeedOnce_sound hv
    | false =>
      exact (Play.Sound.act hc (hL.value hpayload (.singleton hv))).bind fun p hp =>
        Node.haltOnce_sound (.dieWith hp.sound)
  | absolve =>
    obtain ⟨o, rfl, ho⟩ := hv.exists_outcome
    exact Node.ofOutcomeOnce_sound ho
  | flatten =>
    obtain ⟨node, rfl, hnode⟩ := hv.exists_effect
    exact .pure hnode
  | provide henv =>
    obtain ⟨node, rfl, hnode⟩ := hv.exists_effect
    exact .pure (.provide (.shared rfl henv) hnode)
  | supply houter =>
    refine Node.succeedOnce_sound ⟨rfl, .effect (.flatMap houter (.typed ?_))⟩
    exact hv.type ▸ .provide hv.sound
  | park => exact Node.haltOnce_sound (.dieWith (.unmatched hv.sound.parked))
  | applyTo hf =>
    obtain ⟨positional, named, rfl, hpositional⟩ := hv.exists_arguments
    obtain ⟨items, rfl, hitems⟩ := hpositional.exists_tuple
    exact .pure (.attempt (hitems.types.symm ▸ hf) hitems.sound)
  | applyWhole hf =>
    have hargs := Value.AllFit.singleton hv
    exact .pure (.attempt (hargs.types.symm ▸ hf) hargs.sound)

/-- A link that is given a value of its type answers with a typed node; no fault of a mismatch
    arises. -/
theorem Link.followTyped_sound (hL : L.Honours Γ I) (hc : c.Sound Γ I) {link : Link D K}
    {v : Value D K} (h : link.Typed Γ T R E A) (hv : v.Fits Γ T) :
    Play.Sound Γ I c (Node.Typed Γ R E A) (link.followTyped T v) := by
  simp only [Link.followTyped, hv.cast?]
  exact link.follow_sound hL hc h hv

/-- The same for an environment; one that is missing is the only fault there may be. -/
theorem Link.followEnvironment_sound (hL : L.Honours Γ I) (hc : c.Sound Γ I) {link : Link D K}
    {env : Option (Value D K)} (h : link.Typed Γ R R E A) (henv : Supplied Γ R env) :
    Play.Sound Γ I c (Node.Typed Γ R E A) (link.followEnvironment R env) := by
  cases henv with
  | none => exact .pure (Node.typed_ofFault .unbound)
  | some henv =>
    simp only [Link.followEnvironment, henv.cast?]
    exact link.follow_sound hL hc h henv

/-- A continuation answers a value of its type with a typed node. -/
theorem Continuation.resume_sound (hL : L.Honours Γ I) (hc : c.Sound Γ I)
    {k : Continuation D K} {v : Value D K} (h : k.Typed Γ T R E A) (hv : v.Fits Γ T) :
    Play.Sound Γ I c (Node.Typed Γ R E A) (k.resume v) := by
  cases h with
  | passThrough => exact Node.succeedOnce_sound hv
  | typed hlink => exact Link.followTyped_sound hL hc hlink hv
  | typedOnce hlink =>
    refine (Play.Sound.take _).bind fun there _ => ?_
    cases there with
    | true => exact Link.followTyped_sound hL hc hlink hv
    | false => exact .pure (Node.typed_ofFault .consumed)

/-- A handler answers a cause of its error type with a typed node.  By cases on the handler, since
    each looks at another part of the cause. -/
theorem Handler.resume_sound (hL : L.Honours Γ I) (hc : c.Sound Γ I) {onCause : Handler D K}
    {E' : Ty} {cause : Cause (Value D K)} (h : onCause.Typed Γ E R E' A)
    (hcause : cause.Typed Γ E) :
    Play.Sound Γ I c (Node.Typed Γ R E' A) (onCause.resume cause) := by
  have htyped := hcause.typed_eq
  cases h with
  | mapError hf =>
    simp only [Handler.resume, htyped]
    cases hcause with
    | fail htype he =>
      simp only [Cause.mapM, Play.act_map]
      refine Play.Sound.bind (P := Cause.Typed Γ E') ?_ fun c hc => Node.haltOnce_sound hc
      exact (Play.Sound.act hc (hL.value hf (.singleton ⟨htype, he⟩))).map fun e he => .ofFail he
    | die hd => exact (Play.Sound.pure (Q := Cause.Typed Γ E') (.die hd)).bind fun _ h =>
        Node.haltOnce_sound h
  | onCause hf =>
    simp only [Handler.resume, htyped]
    exact .act hc (hL.handler hf hcause)
  | onFailure hlink =>
    simp only [Handler.resume, htyped]
    cases hcause with
    | fail htype he => exact Link.follow_sound hL hc hlink ⟨htype, he⟩
    | die hd => exact Node.haltOnce_sound (.die hd)
  | escalate =>
    simp only [Handler.resume, htyped]
    cases hcause with
    | fail htype he => exact Node.haltOnce_sound (.dieWith he)
    | die hd => exact Node.haltOnce_sound (.die hd)
  | @narrow _ _ _ payload _ hf =>
    simp only [Handler.resume, htyped]
    cases hcause with
    | fail htype he => exact Node.haltOnce_sound (.fail htype he)
    | @die _ d hd =>
      simp only
      cases hcast : d.cast? payload with
      | none => exact Node.haltOnce_sound (.die hd)
      | some p =>
        obtain ⟨htype, rfl⟩ := Value.cast?_eq_some_iff.mp hcast
        exact (Play.Sound.act hc (hL.value hf (.singleton ⟨htype, hd⟩))).bind fun e he =>
          Node.haltOnce_sound (.ofFail he)
  | @typeCase _ _ _ type _ hcase =>
    simp only [Handler.resume, htyped]
    cases hcause with
    | fail htype he => exact Node.haltOnce_sound (.fail htype he)
    | @die _ d hd =>
      obtain ⟨payload, name⟩ := d
      cases payload with
      | unmatched u =>
        have hu : u.value.Sound Γ := by
          cases hd with
          | unmatched hu => exact hu
        simp only
        cases htake : u.take? type with
        | none => exact Node.haltOnce_sound (.dieWith hd)
        | some v =>
          obtain ⟨htype, rfl⟩ := Value.cast?_eq_some_iff.mp htake
          exact Play.Sound.cell.bind fun _ _ => .pure (.provide (.once htype hu) hcase)
      | _ => exact Node.haltOnce_sound (.die hd)

/-- An attempted closure settles in a typed ending, whether it returns or raises. -/
theorem Machine.attempted_sound (hL : L.Honours Γ I) (hc : c.Sound Γ I) {f : K}
    {args : List (Value D K)} {Ts : List Ty} (hf : Γ.value f Ts A)
    (hargs : Value.AllFit Γ Ts args) :
    Play.Sound Γ I c (Ending.Typed Γ E A) (attempted f args) := by
  refine (Play.Sound.act hc (hL.value hf hargs)).attempt.bind fun r hr => ?_
  cases r with
  | ok v => exact .pure hr
  | error p => exact (Play.Sound.report .raised).bind fun _ _ => .pure (.die hr)

end Library

/-! ## States of the machine -/

/-- Frames and environments that a node of the three types given first can be evaluated on, towards
    an ending of the types `E₀` and `A₀` in the end.  The first node reads the unit type, and no
    environment is bound for it. -/
inductive Stacked (Γ : Signature K) (E₀ A₀ : Ty) :
    Ty → Ty → Ty → List (Frame D K) → Array (Value D K) → Prop where
  | root : Stacked Γ E₀ A₀ .unit E₀ A₀ [] #[]
  | apply {R E A B k frames envs} (hk : k.Typed Γ A R E B)
      (h : Stacked Γ E₀ A₀ R E B frames envs) :
      Stacked Γ E₀ A₀ R E A (.apply k :: frames) envs
  | fold {R E E' A B onCause k frames envs} (hcause : onCause.Typed Γ E R E' B)
      (hk : k.Typed Γ A R E' B) (h : Stacked Γ E₀ A₀ R E' B frames envs) :
      Stacked Γ E₀ A₀ R E A (.fold onCause k :: frames) envs
  | restore {R R' E A env frames envs} (henv : env.Fits Γ R')
      (h : Stacked Γ E₀ A₀ R E A frames envs) :
      Stacked Γ E₀ A₀ R' E A (.restore envs.size :: frames) (envs.push env)

/-- What is at hand is of the types that the stacks are for. -/
inductive Machine.Typed (Γ : Signature K) (E₀ A₀ : Ty) : Machine D K → Prop where
  | dispatch {R E A node frames envs steps} (hnode : node.Typed Γ R E A)
      (h : Stacked Γ E₀ A₀ R E A frames envs) : Typed Γ E₀ A₀ ⟨.dispatch node, frames, envs, steps⟩
  | settle {R E A ending frames envs steps} (hending : Ending.Typed Γ E A ending)
      (h : Stacked Γ E₀ A₀ R E A frames envs) : Typed Γ E₀ A₀ ⟨.settle ending, frames, envs, steps⟩

section States

variable {Γ : Signature K} {I : σ → Prop} {c : Callees D K σ} {E₀ A₀ R E A : Ty}
  {frames : List (Frame D K)} {envs : Array (Value D K)}

/-- The environment bound innermost is of the type that is read. -/
theorem Stacked.supplied (h : Stacked Γ E₀ A₀ R E A frames envs) : Supplied Γ R envs.back? := by
  induction h with
  | root => exact .none
  | apply hk h ih => exact ih
  | fold hcause hk h ih => exact ih
  | restore henv h ih =>
    rw [Array.back?_push]
    exact .some henv

/-- A typed stack is nested above an empty one. -/
theorem Stacked.nested (h : Stacked Γ E₀ A₀ R E A frames envs) : Nested #[] frames envs := by
  induction h with
  | root => exact .base
  | apply hk h ih => exact .waits rfl ih
  | fold hcause hk h ih => exact .waits rfl ih
  | restore henv h ih => exact .binds _ ih

/-- No environment is bound only while none has been provided, and then the unit type is read. -/
theorem Stacked.of_back?_eq_none (h : Stacked Γ E₀ A₀ R E A frames envs)
    (hback : envs.back? = none) : R = .unit ∧ Frame.depths frames = [] := by
  have hsupplied := h.supplied
  have hsize := h.nested.depths_eq.2
  rw [hback] at hsupplied
  rw [Array.back?_eq_none_iff.mp hback] at hsize
  cases hsupplied
  refine ⟨rfl, List.length_eq_zero_iff.mp ?_⟩
  simp only [List.size_toArray, List.length_nil, Nat.zero_add] at hsize
  exact hsize.symm

/-- A node with a node inside types its frame. -/
theorem Node.Typed.enter {node inner : Node D K} {frame : Frame D K} (h : node.Typed Γ R E A)
    (hstacked : Stacked Γ E₀ A₀ R E A frames envs) (henter : node.enter? = some (inner, frame)) :
    ∃ E' A', inner.Typed Γ R E' A' ∧ Stacked Γ E₀ A₀ R E' A' (frame :: frames) envs := by
  cases h with
  | flatMap hinner hk => cases henter; exact ⟨_, _, hinner, .apply hk hstacked⟩
  | fold hinner hcause hk => cases henter; exact ⟨_, _, hinner, .fold hcause hk hstacked⟩
  | succeed | failCause | total | attempt | provide | read => cases henter

/-- On a runner with no environment bound an evaluation of a node that reads the unit type begins
    in a typed state. -/
theorem Runner.start_typed {r : Runner D K} {node : Node D K} (hr : r.environments = #[])
    (hnode : node.Typed Γ .unit E A) : (r.start node).Typed Γ E A := by
  rw [start, hr]
  exact .dispatch hnode .root

/-- The node that a run begins with reads the unit type. -/
theorem Runner.entry_sound {env : Option (Value D K)} {node : Node D K}
    (henv : Supplied Γ R env) (hnode : node.Typed Γ R E A) :
    Play.Sound Γ I c (Node.Typed Γ .unit E A) (Runner.entry env node) := by
  cases henv with
  | none => exact .pure hnode
  | some henv =>
    exact Play.Sound.cell.bind fun _ _ => .pure (.provide (.once_of_fits henv) hnode)

variable [L : Language D K σ]

/-- A node with no node inside ends as it is typed. -/
theorem Node.Typed.leaf (hL : L.Honours Γ I) (hc : c.Sound Γ I) {node : Node D K}
    {play : Play D K σ (Ending D K)} (h : node.Typed Γ R E A) (hleaf : node.leaf? = some play) :
    Play.Sound Γ I c (Ending.Typed Γ E A) play := by
  cases h with
  | succeed hslot => cases hleaf; exact Slot.settle_sound hslot
  | failCause hsource =>
    cases hleaf
    exact (Source.take_sound hL hc hsource).map fun cause hcause => hcause
  | total hf hargs =>
    cases hleaf
    exact (Play.Sound.act hc (hL.value hf ⟨rfl, hargs⟩)).map fun v hv => hv
  | attempt hf hargs => cases hleaf; exact Machine.attempted_sound hL hc hf ⟨rfl, hargs⟩
  | flatMap | fold | provide | read => cases hleaf

/-- A frame that an ending of its types meets leads to a node of the types of what lies below. -/
theorem Stacked.answer (hL : L.Honours Γ I) (hc : c.Sound Γ I) {frame : Frame D K}
    {ending : Ending D K} {play : Play D K σ (Node D K)}
    (h : Stacked Γ E₀ A₀ R E A (frame :: frames) envs) (hending : Ending.Typed Γ E A ending)
    (hframe : frame.answer? ending = some play) :
    ∃ E' A', Play.Sound Γ I c (Node.Typed Γ R E' A') play ∧
      Stacked Γ E₀ A₀ R E' A' frames envs := by
  cases h with
  | apply hk h =>
    cases ending with
    | success v => cases hframe; exact ⟨_, _, Continuation.resume_sound hL hc hk hending, h⟩
    | failure cause => cases hframe
  | fold hcause hk h =>
    cases ending with
    | success v => cases hframe; exact ⟨_, _, Continuation.resume_sound hL hc hk hending, h⟩
    | failure cause => cases hframe; exact ⟨_, _, Handler.resume_sound hL hc hcause hending, h⟩
  | restore => cases ending <;> cases hframe

namespace Machine

variable {m m' : Machine D K} {w w' : World σ}

/-- A step keeps the state typed, and the invariant. -/
theorem Leads.typed (hL : L.Honours Γ I) (hc : c.Sound Γ I) (h : Leads c m w m' w')
    (hm : m.Typed Γ E₀ A₀) (hw : I w.state) : m'.Typed Γ E₀ A₀ ∧ I w'.state := by
  cases h with
  | leaf hleaf hplay =>
    cases hm with
    | dispatch hnode hstacked =>
      obtain ⟨hending, hw'⟩ := hnode.leaf hL hc hleaf hw hplay
      exact ⟨.settle hending hstacked, hw'⟩
  | enter henter =>
    cases hm with
    | dispatch hnode hstacked =>
      obtain ⟨E', A', hinner, hstacked'⟩ := hnode.enter hstacked henter
      exact ⟨.dispatch hinner hstacked', hw⟩
  | bind htake =>
    cases hm with
    | dispatch hnode hstacked =>
      cases hnode with
      | provide hslot hinner =>
        obtain ⟨henv, hw'⟩ := Slot.take_sound hslot hw htake
        exact ⟨.dispatch hinner (.restore (henv _ rfl) hstacked), hw'⟩
  | consumed htake =>
    cases hm with
    | dispatch hnode hstacked =>
      cases hnode with
      | provide hslot hinner =>
        obtain ⟨-, hw'⟩ := Slot.take_sound hslot hw htake
        exact ⟨.settle (Cause.Typed.ofFault .consumed) hstacked, hw'⟩
  | read hplay =>
    cases hm with
    | dispatch hnode hstacked =>
      cases hnode with
      | read hlink =>
        obtain ⟨hnext, hw'⟩ := Link.followEnvironment_sound hL hc hlink hstacked.supplied hw hplay
        exact ⟨.dispatch hnext hstacked, hw'⟩
  | resume hframe hplay =>
    cases hm with
    | settle hending hstacked =>
      obtain ⟨E', A', hplays, hstacked'⟩ := hstacked.answer hL hc hending hframe
      obtain ⟨hnext, hw'⟩ := hplays hw hplay
      exact ⟨.dispatch hnext hstacked', hw'⟩
  | skip =>
    cases hm with
    | settle hending hstacked =>
      cases hstacked with
      | apply hk hstacked =>
        -- a failure is of the same type, whatever values the frame waited for
        refine ⟨.settle ?_ hstacked, hw⟩
        exact hending
  | restore =>
    cases hm with
    | settle hending hstacked =>
      cases hstacked with
      | restore henv hstacked =>
        rw [shrink_push]
        exact ⟨.settle hending hstacked, hw⟩

/-- A step that ends the evaluation ends it as it is typed, and keeps the invariant. -/
theorem Leaves.typed (hL : L.Honours Γ I) (hc : c.Sound Γ I)
    {ending : Raised D K (Ending D K)} {steps : Nat} (h : Leaves c m w ending steps w')
    (hm : m.Typed Γ E₀ A₀) (hw : I w.state) :
    Raised.Sound Γ (Ending.Typed Γ E₀ A₀) ending ∧ I w'.state := by
  cases h with
  | finish =>
    cases hm with
    | settle hending hstacked =>
      cases hstacked
      exact ⟨hending, hw⟩
  | leaf hleaf hplay =>
    cases hm with
    | dispatch hnode hstacked => exact hnode.leaf hL hc hleaf hw hplay
  | read hplay =>
    cases hm with
    | dispatch hnode hstacked =>
      cases hnode with
      | read hlink => exact Link.followEnvironment_sound hL hc hlink hstacked.supplied hw hplay
  | resume hframe hplay =>
    cases hm with
    | settle hending hstacked =>
      obtain ⟨E', A', hplays, -⟩ := hstacked.answer hL hc hending hframe
      exact hplays hw hplay

/-- All states that are reached from a typed one are typed. -/
theorem Reaches.typed (hL : L.Honours Γ I) (hc : c.Sound Γ I) {a b : Machine D K × World σ}
    (h : Reaches c a b) (ha : a.1.Typed Γ E₀ A₀) (hw : I a.2.state) :
    b.1.Typed Γ E₀ A₀ ∧ I b.2.state := by
  induction h with
  | refl => exact ⟨ha, hw⟩
  | tail _ hstep ih => exact hstep.typed hL hc ih.1 ih.2

end Machine

/-! ## Whole runs -/

/-- Preservation for a whole evaluation: if the node is typed, so is what it ends in. -/
theorem Runner.evaluate_sound (hL : L.Honours Γ I) (hc : c.Sound Γ I) {fuel : Nat}
    {r r' : Runner D K} {node : Node D K} {w w' : World σ} {ending : Raised D K (Ending D K)}
    (hr : r.environments = #[]) (hnode : node.Typed Γ .unit E A) (hw : I w.state)
    (h : r.evaluate c fuel node w = some (ending, r', w')) :
    r'.environments = #[] ∧ Raised.Sound Γ (Ending.Typed Γ E A) ending ∧ I w'.state := by
  refine ⟨(evaluate_environments h).trans hr, ?_⟩
  have hends : ∀ {ending envs steps w₁},
      Machine.drive c fuel (r.start node) (r.opened w) = some ((ending, envs, steps), w₁) →
        Raised.Sound Γ (Ending.Typed Γ E A) ending ∧ I w₁.state := by
    intro ending envs steps w₁ hdrive
    obtain ⟨last, v, hreach, hleaves, -⟩ := Machine.Ends.exists_reaches ⟨fuel, hdrive⟩
    obtain ⟨hlast, hv⟩ := hreach.typed hL hc (start_typed hr hnode) hw
    exact hleaves.typed hL hc hlast hv
  obtain ⟨-, rfl, -, rfl⟩ | ⟨-, e, envs, steps, w₁, hdrive, rfl, -, rfl⟩ |
    ⟨-, p, envs, steps, w₁, hdrive, rfl, -, rfl⟩ := evaluate_cases h
  · exact ⟨.literal, hw⟩
  · obtain ⟨hending, hw₁⟩ := hends hdrive
    exact ⟨hending, hw₁⟩
  · obtain ⟨hending, hw₁⟩ := hends hdrive
    exact ⟨hending, hw₁⟩

theorem Runner.evaluateWith_sound (hL : L.Honours Γ I) (hc : c.Sound Γ I) {fuel : Nat}
    {r r' : Runner D K} {env : Option (Value D K)} {node : Node D K} {w w' : World σ}
    {ending : Raised D K (Ending D K)} (hr : r.environments = #[]) (henv : Supplied Γ R env)
    (hnode : node.Typed Γ R E A) (hw : I w.state)
    (h : r.evaluateWith c fuel env node w = some (ending, r', w')) :
    r'.environments = #[] ∧ Raised.Sound Γ (Ending.Typed Γ E A) ending ∧ I w'.state := by
  have hentry : Play.Sound Γ I c _ _ := entry_sound henv hnode
  simp only [evaluateWith] at h
  rcases hplay : entry env node c w with _ | ⟨p | root, w₁⟩
  · rw [hplay] at h; cases h
  · rw [hplay] at h
    cases h
    obtain ⟨hp, hw₁⟩ := hentry hw hplay
    exact ⟨hr, hp, hw₁⟩
  · rw [hplay] at h
    obtain ⟨hroot, hw₁⟩ := hentry hw hplay
    exact evaluate_sound hL hc hr hroot hw₁ h

/-- Runs and calls nested however deep are sound. -/
theorem Callees.ofFuel_sound (hL : L.Honours Γ I) (fuel : Nat) :
    (Callees.ofFuel fuel : Callees D K σ).Sound Γ I := by
  induction fuel with
  | zero =>
    constructor
    · intro r env node R E A w ending r' w' _ _ _ _ h
      cases h
    · intro f args Ts R E A w node w' _ _ _ h
      cases h
  | succ fuel ih =>
    constructor
    · intro r env node R E A w ending r' w' hr henv hnode hw h
      exact Runner.evaluateWith_sound hL ih hr henv hnode hw h
    · intro f args Ts R E A w node w' hf hargs hw h
      exact Play.Sound.act ih (hL.effect hf hargs) hw h

end States

end EffectMachine
