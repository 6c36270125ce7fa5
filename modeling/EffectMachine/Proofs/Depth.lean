/-
  Depth.

  The runs that closures ask for are left to callees, which are good for runs and calls nested so
  and so deep.  Whatever an act comes to with some of that depth it comes to with more.  To see it
  one goes through everything that is played: none of it answers otherwise where the callees answer
  more (`Play.Lasts`), neither a step of the machine nor the reading of a node, and so the callees
  good for one level more answer whatever those below did.

  So it makes sense to ask what an act ends in, without a word of how deep it goes (`Act.Ends`).  It
  ends in one way at most, and an act that consists of two ends as these do, one after the other.
  A run of an effect is an act.  It ends as the node of the effect does, with the environment of the
  run bound (`Effect.run_ends_iff`, `Effect.runWith_ends_iff`).
-/
import EffectMachine.Proofs.Matching
import EffectMachine.Proofs.Ordinary

namespace EffectMachine

variable {D K σ α β : Type}

/-! ## Callees that answer more -/

/-- What runs and calls come to with the first they come to with the second. -/
structure Callees.Below (c d : Callees D K σ) : Prop where
  run {r env node w out} (h : c.run r env node w = some out) : d.run r env node w = some out
  build {f args w out} (h : c.build f args w = some out) : d.build f args w = some out

/-- What the play comes to with the first it comes to with the second. -/
def Play.Lasts (c d : Callees D K σ) (x : Play D K σ α) : Prop :=
  ∀ ⦃w out⦄, x c w = some out → x d w = some out

/-- By induction on the act: runs and calls are the only questions that callees answer, and those
    who answer more answer the same. -/
theorem Act.exec_lasts {c d : Callees D K σ} (hcd : c.Below d) (a : Act D K σ α) :
    Play.Lasts c d (.act a) := by
  intro w out h
  change a.exec c w = some out at h
  show a.exec d w = some out
  induction a generalizing w with
  | done | raise => exact h
  | look k ih | newCell k ih => exact ih _ h
  | write s k ih => exact ih h
  | run r env node k ih =>
    rcases hrun : c.run r env node w with _ | ⟨ending, r', w'⟩
    · simp only [exec, hrun] at h
      cases h
    · simp only [exec, hrun] at h
      simp only [exec, hcd.run hrun]
      exact ih _ _ h
  | build f args k ih =>
    rcases hbuild : c.build f args w with _ | ⟨node, w'⟩
    · simp only [exec, hbuild] at h
      cases h
    · simp only [exec, hbuild] at h
      simp only [exec, hcd.build hbuild]
      exact ih _ h

namespace Play.Lasts

variable {c d : Callees D K σ} {x : Play D K σ α}

/-- A play that does not look at the callees. -/
theorem of_eq (h : x c = x d) : Lasts c d x := fun _ _ hx => h ▸ hx

protected theorem bind {f : α → Play D K σ β} (hx : Lasts c d x) (hf : ∀ a, Lasts c d (f a)) :
    Lasts c d (x >>= f) := by
  intro w ⟨result, w'⟩ h
  rw [bind_apply]
  obtain ⟨a, w₁, ha, hrest⟩ | ⟨p, hp, rfl⟩ := bind_eq_some h
  · rw [hx ha]
    exact hf a hrest
  · rw [hx hp]

protected theorem map (f : α → β) (hx : Lasts c d x) : Lasts c d (f <$> x) := by
  rw [map_eq_pure_bind]
  exact hx.bind fun _ => of_eq rfl

/-- What an attempted act raises lasts as well as what it returns. -/
protected theorem attempt (hcd : c.Below d) (a : Act D K σ α) : Lasts c d (Play.attempt a) := by
  rw [attempt_eq_act_capture]
  exact (a.capture.exec_lasts hcd).map _

end Play.Lasts

/-! ## What the library plays -/

section Library

variable {c d : Callees D K σ} (hcd : c.Below d)

include hcd

/-- What is put together from acts and from what is done with cells lasts, because acts do. -/
theorem Play.Ordinary.lasts {x : Play D K σ α} (hx : x.Ordinary) : x.Lasts c d := by
  induction hx with
  | pure a | cell | take n | takeHalt n => exact .of_eq rfl
  | act a => exact a.exec_lasts hcd
  | bind hx hf ihx ihf => exact ihx.bind ihf

/-- Besides, the library attempts closures, whose raises it reports with any callees alike. -/
theorem Play.lasts_congruence [Language D K σ] :
    Play.Congruence fun _ (x _ : Play D K σ _) => x.Lasts c d where
  bind hx hf := hx.bind hf
  ordinary hx := hx.lasts hcd
  attempted f args := by
    refine (Play.Lasts.attempt hcd _).bind fun result => ?_
    cases result <;> exact .of_eq rfl

end Library

/-! ## Readings, evaluations and runs -/

section Runs

variable [L : Language D K σ] {c d : Callees D K σ} (hcd : c.Below d)

include hcd

/-- The reading of a node. -/
theorem Node.denote_lasts (fuel : Nat) (env : Option (Value D K)) (node : Node D K) :
    Play.Lasts c d (node.denote fuel env) :=
  denote_congr (Play.lasts_congruence hcd) 0 (fun _ _ _ _ h => nomatch h) fuel env node

/-- The meaning of a node, by what lasts of its readings at every fuel. -/
theorem Node.result_lasts (env : Option (Value D K)) (node : Node D K) :
    Play.Lasts c d (node.result env) := by
  intro w ⟨ending, w'⟩ h
  obtain ⟨result, ⟨fuel, hfuel⟩, rfl⟩ := result_eq_some.mp h
  exact result_eq_some.mpr ⟨result, ⟨fuel, denote_lasts hcd fuel env node hfuel⟩, rfl⟩

/-- A step of the machine. -/
theorem Machine.step_lasts {m : Machine D K} {w : World σ} {out : Progress D K × World σ}
    (h : m.step c w = some out) : m.step d w = some out := by
  obtain ⟨progress, w'⟩ := out
  obtain ⟨m', rfl, hleads⟩ | ⟨ending, steps, rfl, hleaves⟩ := step_cases h
  · refine Leads.step_eq ?_
    cases hleads with
    | leaf hleaf hplay => exact .leaf hleaf ((Play.lasts_congruence hcd).leaf hleaf hplay)
    | enter henter => exact .enter henter
    | bind htake => exact .bind ((Slot.take_ordinary _).lasts hcd htake)
    | consumed htake => exact .consumed ((Slot.take_ordinary _).lasts hcd htake)
    | read hplay => exact .read ((Link.followEnvironment_ordinary _ _ _).lasts hcd hplay)
    | resume hframe hplay => exact .resume hframe ((Frame.answer?_ordinary hframe).lasts hcd hplay)
    | skip => exact .skip
    | restore => exact .restore
  · refine Leaves.step_eq ?_
    cases hleaves with
    | finish => exact .finish
    | leaf hleaf hplay => exact .leaf hleaf ((Play.lasts_congruence hcd).leaf hleaf hplay)
    | read hplay => exact .read ((Link.followEnvironment_ordinary _ _ _).lasts hcd hplay)
    | resume hframe hplay => exact .resume hframe ((Frame.answer?_ordinary hframe).lasts hcd hplay)

/-- The machine comes to the same with callees that answer more, in as many steps. -/
theorem Machine.drive_lasts {fuel : Nat} {m : Machine D K} {w : World σ}
    {out : (Raised D K (Ending D K) × Array (Value D K) × Nat) × World σ}
    (h : drive c fuel m w = some out) : drive d fuel m w = some out := by
  induction fuel generalizing m w with
  | zero => cases h
  | succ fuel ih =>
    simp only [drive] at h ⊢
    rcases hstep : m.step c w with _ | ⟨next | ⟨ending, envs, steps⟩, w'⟩
    · rw [hstep] at h
      cases h
    · rw [hstep] at h
      rw [step_lasts hcd hstep]
      exact ih h
    · rw [hstep] at h
      rw [step_lasts hcd hstep]
      exact h

theorem Runner.evaluate_lasts {fuel : Nat} {r : Runner D K} {node : Node D K} {w : World σ}
    {out : Raised D K (Ending D K) × Runner D K × World σ}
    (h : r.evaluate c fuel node w = some out) : r.evaluate d fuel node w = some out :=
  evaluate_of_drive_of (Machine.drive_lasts hcd) h

/-- A run, with more fuel as well. -/
theorem Runner.evaluateWith_lasts {fuel more : Nat} (hle : fuel ≤ more) {r : Runner D K}
    {env : Option (Value D K)} {node : Node D K} {w : World σ}
    {out : Raised D K (Ending D K) × Runner D K × World σ}
    (h : r.evaluateWith c fuel env node w = some out) :
    r.evaluateWith d more env node w = some out := by
  have hentry : entry env node c w = entry env node d w := by cases env <;> rfl
  simp only [evaluateWith] at h ⊢
  rw [← hentry]
  rcases hstart : entry env node c w with _ | ⟨p | start, w'⟩
  · rw [hstart] at h
    cases h
  · rw [hstart] at h
    exact h
  · rw [hstart] at h
    exact evaluate_of_le hle (evaluate_lasts hcd h)

end Runs

/-- What runs and calls nested so deep come to they come to if more depth is to be had. -/
theorem Callees.ofFuel_below [Language D K σ] {depth more : Nat} (h : depth ≤ more) :
    (ofFuel depth : Callees D K σ).Below (ofFuel more) := by
  induction depth generalizing more with
  | zero => exact ⟨nofun, nofun⟩
  | succ depth ih =>
    obtain ⟨more, rfl⟩ : ∃ more', more = more' + 1 := ⟨more - 1, by omega⟩
    have hle : depth ≤ more := by omega
    constructor
    · intro r env node w out hrun
      exact Runner.evaluateWith_lasts (ih hle) hle hrun
    · intro f args w out hbuild
      exact Act.exec_lasts (ih hle) _ hbuild

/-! ## What comes of an act -/

namespace Play

/-- The play lasts, whatever callees answer more. -/
def Steady (x : Play D K σ α) : Prop := ∀ ⦃c d : Callees D K σ⦄, c.Below d → x.Lasts c d

namespace Steady

variable {x : Play D K σ α}

/-- Whatever an act asks, callees that answer more give it the same answer. -/
protected theorem act (a : Act D K σ α) : Steady (act a) := fun _ _ hcd => a.exec_lasts hcd

protected theorem pure (a : α) : Steady (pure a : Play D K σ α) := fun _ _ _ => .of_eq rfl

theorem spend (k : Nat) : Steady (Play.spend k : Play D K σ Unit) := fun _ _ _ => .of_eq rfl

protected theorem bind {f : α → Play D K σ β} (hx : Steady x) (hf : ∀ a, Steady (f a)) :
    Steady (x >>= f) := fun _ _ hcd => (hx hcd).bind fun a => hf a hcd

theorem result [Language D K σ] (env : Option (Value D K)) (node : Node D K) :
    Steady (node.result env : Play D K σ _) := fun _ _ hcd => Node.result_lasts hcd env node

end Steady

variable [Language D K σ] {x : Play D K σ α} {w w' : World σ}

/-- What the play ends in, and in what world, however deep the runs and calls in it go. -/
def Ends (x : Play D K σ α) (w : World σ) (result : Raised D K α) (w' : World σ) : Prop :=
  ∃ depth, x (Callees.ofFuel depth) w = some (result, w')

/-- What a steady play comes to at one depth it comes to at every greater one. -/
theorem Steady.of_le (hx : x.Steady) {depth more : Nat} (hle : depth ≤ more)
    {out : Raised D K α × World σ} (h : x (Callees.ofFuel depth) w = some out) :
    x (Callees.ofFuel more) w = some out :=
  hx (Callees.ofFuel_below hle) h

/-- There is one way at most in which it ends. -/
theorem Steady.ends_unique (hx : x.Steady) {u v : World σ} {result result' : Raised D K α}
    (h : x.Ends w result u) (h' : x.Ends w result' v) : result = result' ∧ u = v := by
  obtain ⟨depth, h⟩ := h
  obtain ⟨depth', h'⟩ := h'
  have hmax := hx.of_le (Nat.le_max_left depth depth') h
  rw [hx.of_le (Nat.le_max_right depth depth') h'] at hmax
  cases hmax
  exact ⟨rfl, rfl⟩

/-- Plays in sequence end as they do one after the other, unless the first raises. -/
theorem bind_ends_iff {f : α → Play D K σ β} (hx : x.Steady) (hf : ∀ a, (f a).Steady)
    {result : Raised D K β} :
    (x >>= f).Ends w result w' ↔
      (∃ a w₁, x.Ends w (.ok a) w₁ ∧ (f a).Ends w₁ result w') ∨
        ∃ p, x.Ends w (.error p) w' ∧ result = .error p := by
  constructor
  · rintro ⟨depth, h⟩
    obtain ⟨a, w₁, ha, hrest⟩ | ⟨p, hp, rfl⟩ := bind_eq_some h
    · exact .inl ⟨a, w₁, ⟨depth, ha⟩, depth, hrest⟩
    · exact .inr ⟨p, ⟨depth, hp⟩, rfl⟩
  · rintro (⟨a, w₁, ⟨depth, ha⟩, depth', hrest⟩ | ⟨p, ⟨depth, hp⟩, rfl⟩)
    · refine ⟨max depth depth', ?_⟩
      rw [bind_apply, hx.of_le (Nat.le_max_left depth depth') ha]
      exact (hf a).of_le (Nat.le_max_right depth depth') hrest
    · refine ⟨depth, ?_⟩
      rw [bind_apply, hp]

/-- Started in worlds that `S` holds between, the second one ends as the first one does, and leaves
    a world that `S` holds between again. -/
def EndsLike (S : World σ → World σ → Prop) (x y : Play D K σ α) : Prop :=
  ∀ ⦃w v⦄, S w v → ∀ ⦃result w'⦄, x.Ends w result w' → ∃ v', y.Ends v result v' ∧ S w' v'

/-- Started in worlds that `S` holds between, both end in the same, in a value or in a payload
    raised, and leave worlds that `S` holds between; or neither of them ends. -/
structure SameEnds (S : World σ → World σ → Prop) (x y : Play D K σ α) : Prop where
  left : EndsLike S x y
  right : EndsLike (flip S) y x

section Comparing

variable {S : World σ → World σ → Prop} {y : Play D K σ α}

/-- Plays that match at every depth end alike. -/
theorem EndsLike.of_matches {Q : α → Prop}
    (h : ∀ depth, Matches (Callees.ofFuel depth) S S Q x y) : EndsLike S x y := by
  rintro w v hwv result w' ⟨depth, hx⟩
  have hxy := h depth hwv
  rw [hx] at hxy
  obtain ⟨v', hv', hS⟩ := hxy.exists_of_some
  exact ⟨v', ⟨depth, hv'⟩, hS⟩

/-- In sequence: both plays are steady, so that the depths at which their parts end can be brought
    together. -/
protected theorem EndsLike.bind {f g : α → Play D K σ β} (hx : x.Steady) (hf : ∀ a, (f a).Steady)
    (hy : y.Steady) (hg : ∀ a, (g a).Steady) (h : EndsLike S x y)
    (hfg : ∀ a, EndsLike S (f a) (g a)) : EndsLike S (x >>= f) (y >>= g) := by
  intro w v hwv result w' hends
  rw [bind_ends_iff hx hf] at hends
  obtain ⟨a, w₁, ha, hrest⟩ | ⟨p, hp, rfl⟩ := hends
  · obtain ⟨v₁, hv₁, hS⟩ := h hwv ha
    obtain ⟨v', hv', hS'⟩ := hfg a hS hrest
    exact ⟨v', (bind_ends_iff hy hg).mpr (.inl ⟨a, v₁, hv₁, hv'⟩), hS'⟩
  · obtain ⟨v', hv', hS⟩ := h hwv hp
    exact ⟨v', (bind_ends_iff hy hg).mpr (.inr ⟨p, hv', rfl⟩), hS⟩

/-- Plays that come to the same but for what was reported stand for each other. -/
theorem EndsLike.of_agree {x' y' : Play D K σ α} (hS : World.Untraced S)
    (hx : SameEnds World.Agree x x') (hy : SameEnds World.Agree y y') (h : EndsLike S x' y') :
    EndsLike S x y := by
  intro w v hwv result w' hends
  obtain ⟨w₁, hw₁, hagree⟩ := hx.left (.refl w) hends
  obtain ⟨v₁, hv₁, hS'⟩ := h hwv hw₁
  obtain ⟨v', hv', hagree'⟩ := hy.right (.refl v) hv₁
  exact ⟨v', hv', hS hagree.symm hagree'.symm hS'⟩

namespace SameEnds

/-- Plays that match however deep they go end in the same. -/
theorem of_matches {Q : α → Prop} (h : ∀ depth, Matches (Callees.ofFuel depth) S S Q x y) :
    SameEnds S x y :=
  ⟨.of_matches h, .of_matches fun depth => (h depth).flip⟩

protected theorem bind {f g : α → Play D K σ β} (hx : x.Steady) (hf : ∀ a, (f a).Steady)
    (hy : y.Steady) (hg : ∀ a, (g a).Steady) (h : SameEnds S x y)
    (hfg : ∀ a, SameEnds S (f a) (g a)) : SameEnds S (x >>= f) (y >>= g) :=
  ⟨.bind hx hf hy hg h.left fun a => (hfg a).left, .bind hy hg hx hf h.right fun a => (hfg a).right⟩

/-- To compare two plays is to compare what they come to but for what was reported. -/
theorem of_agree {x' y' : Play D K σ α} (hS : World.Untraced S) (hx : SameEnds World.Agree x x')
    (hy : SameEnds World.Agree y y') (h : SameEnds S x' y') : SameEnds S x y :=
  ⟨.of_agree hS hx hy h.left, .of_agree hS.flip hy hx h.right⟩

end SameEnds

end Comparing

end Play

/-- What the act ends in, and in what world, however deep the runs and calls in it go. -/
def Act.Ends [Language D K σ] (a : Act D K σ α) (w : World σ) (result : Raised D K α)
    (w' : World σ) : Prop := (Play.act a).Ends w result w'

/-- Started in worlds that `S` holds between, both acts end in the same, in a value or in a payload
    raised, and leave worlds that `S` holds between; or neither of them ends. -/
def Act.SameEnds [Language D K σ] (S : World σ → World σ → Prop) (a b : Act D K σ α) : Prop :=
  Play.SameEnds S (.act a) (.act b)

/-! ## What comes of a run -/

section Delivered

variable {R E A : Ty}

/-- What a run makes of an ending: the value of the declared type, or what is raised in its
    place. -/
def Ending.deliver (E A : Ty) (ending : Ending D K) : Play D K σ (Value D K) :=
  .act (.ofRaised (ending.checked E A).raised)

/-- What is made of an ending leaves the world as it is. -/
theorem Ending.deliver_matches {callees : Callees D K σ} {S : World σ → World σ → Prop}
    (ending : Ending D K) :
    Play.Matches callees S S (fun _ => True) (ending.deliver E A) (ending.deliver E A) := by
  intro w v hwv
  simp only [deliver, Play.act, Act.exec_ofRaised]
  cases (ending.checked E A).raised with
  | error p => exact .raised hwv
  | ok v => exact .returned hwv trivial

/-- The payload that a run raises in the place of a failure does not depend on the type of its
    values. -/
theorem Ending.exists_deliver_failure (E : Ty) (cause : Cause (Value D K)) :
    ∃ p, ∀ A, (deliver E A (.failure cause) : Play D K σ _) = .act (throw p) := by
  rcases hcause : cause.typed E with x | d
  · refine ⟨x, fun A => ?_⟩
    simp only [deliver, checked, hcause]
    rfl
  · refine ⟨d.payload, fun A => ?_⟩
    simp only [deliver, checked, hcause]
    rfl

/-- A value of the type declared is delivered as it is. -/
theorem Ending.deliver_success {v : Value D K} (hv : v.type = A) :
    (deliver E A (.success v) : Play D K σ _) = pure v := by
  simp only [deliver, checked, Value.cast?_eq_some_iff.mpr ⟨hv, rfl⟩]
  rfl

variable [Language D K σ]

/-- What the evaluation of a run comes to. -/
noncomputable def Effect.delivery (env : Option (Value D K)) (e : Effect D K R E A) :
    Play D K σ (Value D K) :=
  Runner.entry env e.node >>= Node.result none >>= Ending.deliver E A

theorem Effect.delivery_steady (env : Option (Value D K)) (e : Effect D K R E A) :
    (e.delivery env : Play D K σ _).Steady := by
  refine .bind (.bind ?_ fun node => .result none node) fun ending => .act _
  cases env <;> exact fun _ _ _ => .of_eq rfl

/-- The evaluation of a run without an environment is that of the effect. -/
theorem Effect.delivery_none (e : Effect D K R E A) :
    (e.delivery none : Play D K σ _) = e.node.result none >>= Ending.deliver E A := rfl

/-- The environment of a run is bound for all of it, and uses up one cell. -/
theorem Effect.delivery_some (e : Effect D K R E A) (env : Value D K) :
    (e.delivery (some env) : Play D K σ _) =
      Play.spend 1 >>= fun _ => e.node.result (some env) >>= Ending.deliver E A := by
  have hentry : (Runner.entry (some env) e.node >>= Node.result none : Play D K σ _) =
      Play.spend 1 >>= fun _ => e.node.result (some env) := by
    funext callees ⟨s, halts, cells, trace⟩
    simp only [Runner.entry, bind_assoc, pure_bind, Node.result_provide, Slot.take]
    rw [Play.bind_apply]
    simp only [Play.cell, Play.bind_apply, Play.take, takeCell_push, if_true]
    rfl
  rw [delivery, hentry, bind_assoc]

/-- A run ends as the node of its effect does with the environment of the run bound, but for what
    was reported. -/
theorem Runner.exists_evaluateWith_iff {callees : Callees D K σ}
    (hc : Callees.Alike World.Agree callees callees) {r : Runner D K}
    (hfit : r.settings.framesFit = true) {env : Option (Value D K)} {node : Node D K}
    {w u : World σ} {ending : Raised D K (Ending D K)} :
    (∃ fuel r' w', r.evaluateWith callees fuel env node w = some (ending, r', w') ∧ w'.Agree u) ↔
      ∃ v', (entry env node >>= Node.result r.environments.back?) callees w = some (ending, v') ∧
        v'.Agree u := by
  obtain ⟨start, w₁, hentry⟩ : ∃ start w₁, entry env node callees w = some (.ok start, w₁) := by
    cases env <;> exact ⟨_, _, rfl⟩
  simp only [evaluateWith, Play.bind_apply, hentry]
  exact exists_evaluate_iff hc hfit

/-- A run for the value, with an environment bound or without, is an evaluation and what is made of
    its ending. -/
theorem Effect.exec_delivered (depth : Nat) (env : Option (Value D K)) (e : Effect D K R E A)
    (w : World σ) :
    (do Act.ofRaised ((← Runner.fresh.runBound env e).2.bind Ending.raised) :
        Act D K σ (Value D K)).exec (Callees.ofFuel (depth + 1)) w =
      (Runner.fresh.evaluateWith (Callees.ofFuel depth) depth env e.node w).map
        fun (ending, _, w') => (ending.bind fun ending => (ending.checked E A).raised, w') := by
  rw [Act.exec_bind]
  simp only [Runner.runBound, Act.exec, Callees.ofFuel]
  rcases Runner.fresh.evaluateWith (Callees.ofFuel depth) depth env e.node w with
    _ | ⟨_ | ending, r', w'⟩
  · rfl
  · rfl
  · exact Act.exec_ofRaised _ _ _

/-- What a run comes to is an ending of its evaluation, delivered. -/
theorem Effect.delivery_eq_some {callees : Callees D K σ} {env : Option (Value D K)}
    {e : Effect D K R E A} {w w' : World σ} {result : Raised D K (Value D K)} :
    e.delivery env callees w = some (result, w') ↔
      ∃ ending, (Runner.entry env e.node >>= Node.result none) callees w = some (ending, w') ∧
        result = ending.bind fun ending => (ending.checked E A).raised := by
  rw [delivery, Play.bind_apply]
  rcases (Runner.entry env e.node >>= Node.result none) callees w with _ | ⟨p | ending, w₁⟩
  · simp
  · simp only [Option.some.injEq, Prod.mk.injEq]
    constructor
    · rintro ⟨rfl, rfl⟩
      exact ⟨_, ⟨rfl, rfl⟩, rfl⟩
    · rintro ⟨ending, ⟨rfl, rfl⟩, rfl⟩
      exact ⟨rfl, rfl⟩
  · simp only [Ending.deliver, Play.act, Act.exec_ofRaised, Option.some.injEq, Prod.mk.injEq]
    constructor
    · rintro ⟨rfl, rfl⟩
      exact ⟨_, ⟨rfl, rfl⟩, rfl⟩
    · rintro ⟨ending', ⟨rfl, rfl⟩, rfl⟩
      exact ⟨rfl, rfl⟩

/-- However deep the runs in it go, a run for the value ends as its delivery does. -/
theorem Effect.delivered_ends_iff {env : Option (Value D K)} {e : Effect D K R E A}
    {w u : World σ} {result : Raised D K (Value D K)} :
    (∃ w', (do Act.ofRaised ((← Runner.fresh.runBound env e).2.bind Ending.raised) :
        Act D K σ (Value D K)).Ends w result w' ∧ w'.Agree u) ↔
      ∃ v', (e.delivery env).Ends w result v' ∧ v'.Agree u := by
  constructor
  · rintro ⟨w', ⟨depth, h⟩, hu⟩
    cases depth with
    | zero => cases h
    | succ depth =>
      change Act.exec _ _ _ = _ at h
      rw [exec_delivered, Option.map_eq_some_iff] at h
      obtain ⟨⟨ending, r', w₁⟩, heval, hresult⟩ := h
      cases hresult
      obtain ⟨v', hv', hvu⟩ := (Runner.exists_evaluateWith_iff (Callees.ofFuel_agree depth)
        Runner.fresh_framesFit).mp ⟨depth, r', _, heval, hu⟩
      exact ⟨v', ⟨depth, delivery_eq_some.mpr ⟨ending, hv', rfl⟩⟩, hvu⟩
  · rintro ⟨v', ⟨depth, h⟩, hu⟩
    obtain ⟨ending, hresult, rfl⟩ := delivery_eq_some.mp h
    obtain ⟨fuel, r', w', heval, hwu⟩ := (Runner.exists_evaluateWith_iff (r := .fresh)
      (Callees.ofFuel_agree depth) Runner.fresh_framesFit).mpr ⟨v', hresult, hu⟩
    have heval := Runner.evaluateWith_lasts
      (Callees.ofFuel_below (Nat.le_max_right fuel depth)) (Nat.le_max_left fuel depth) heval
    refine ⟨w', ⟨max fuel depth + 1, ?_⟩, hwu⟩
    show Act.exec _ _ _ = _
    rw [exec_delivered, heval]
    rfl

/-- What an act ends in does not depend on what was reported before. -/
theorem Act.Ends.of_agree {a : Act D K σ α} {w v w' : World σ} {result : Raised D K α}
    (hwv : w.Agree v) (h : a.Ends w result w') : ∃ v', a.Ends v result v' ∧ w'.Agree v' := by
  obtain ⟨depth, h⟩ := h
  obtain ⟨v', hv', hagree⟩ :=
    (Act.exec_agree (Callees.ofFuel_agree depth) a).exists_of_eq_some hwv h
  exact ⟨v', ⟨depth, hv'⟩, hagree⟩

/-- An act and a play that end in the same in every world do so in worlds that differ in what was
    reported. -/
theorem Play.SameEnds.of_iff {a : Act D K σ α} {x : Play D K σ α}
    (h : ∀ w result u, (∃ w', a.Ends w result w' ∧ w'.Agree u) ↔
      ∃ v', x.Ends w result v' ∧ v'.Agree u) : SameEnds World.Agree (.act a) x := by
  constructor
  · intro w v hwv result w' hends
    obtain ⟨v₁, hv₁, hagree⟩ := Act.Ends.of_agree hwv hends
    obtain ⟨v', hv', hagree'⟩ := (h v result v₁).mp ⟨v₁, hv₁, .refl v₁⟩
    exact ⟨v', hv', hagree.trans hagree'.symm⟩
  · intro v w hwv result v' hends
    obtain ⟨v₁, hv₁, hagree⟩ := (h v result v').mpr ⟨v', hends, .refl v'⟩
    obtain ⟨w', hw', hagree'⟩ := Act.Ends.of_agree (World.Agree.symm hwv) hv₁
    exact ⟨w', hw', hagree'.symm.trans hagree⟩

/-- A run, played as an act, ends as its evaluation and the delivery say; only the reports are more.
    -/
theorem Effect.run_ends (e : Effect D K .unit E A) :
    Play.SameEnds World.Agree (.act e.run) (e.delivery none) :=
  .of_iff fun _ _ _ => delivered_ends_iff

theorem Effect.runWith_ends (e : Effect D K R E A) (env : Value D K) :
    Play.SameEnds World.Agree (.act (e.runWith env)) (e.delivery (some env)) :=
  .of_iff fun _ _ _ => delivered_ends_iff

end Delivered

end EffectMachine
