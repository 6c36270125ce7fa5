/-
  Two worlds that have different cells.

  Which cells the library makes use of in an evaluation depends on how many it has made before. 
  This should make no difference to anybody: evaluate a reusable tree in two worlds with the same
  shared state, and both evaluations should come to the same, in worlds with the same shared state
  again, whatever cells there are on either side.

  The nodes of the two evaluations are not equal on the way, but they are twins: they differ in the
  numbers of the cells that some of them own.  What carries the argument is that each cell has one
  owner.  `World.Owns` says of some cells that no two of them are the same, that all of them are
  there to be taken, and that they are newer than the evaluation; a run nested in it makes newer
  ones still, and so leaves them alone.

  Read for two worlds the lemmas say that cells are out of sight.  Read for a world and itself they
  say what `World.Owns` says: whenever a single-use node is evaluated, its cell is there.
-/
import EffectMachine.Proofs.Reusable
import EffectMachine.Proofs.Transition

namespace EffectMachine

variable {D K σ α β : Type}

/-! ## Acts of a program -/

/-- What was returned is as `Q` says, and what was raised is reusable. -/
def Raised.Reusable (P : Program K) (Q : α → Prop) : Raised D K α → Prop
  | .ok a => Q a
  | .error p => p.Reusable P

/-- All environments of the runner are reusable. -/
def Runner.Reusable (P : Program K) (r : Runner D K) : Prop :=
  ∀ v ∈ r.environments, Value.Reusable P v

/-- The act returns what `Q` says if it returns, keeps the invariant of the shared state, and asks
    only for runs and calls of the program. -/
def Act.Within (P : Program K) (I : σ → Prop) (Q : α → Prop) : Act D K σ α → Prop
  | done a => Q a
  | raise p => p.Reusable P
  | look k => ∀ s, I s → (k s).Within P I Q
  | write s k => I s ∧ k.Within P I Q
  | newCell k => P.halts ∧ ∀ c, (k c).Within P I Q
  | run r env node k => r.Reusable P ∧ (∀ v, env = some v → v.Reusable P) ∧ node.Reusable P ∧
      ∀ r' ending, r'.Reusable P → Raised.Reusable P (Ending.Reusable P) ending →
        (k r' ending).Within P I Q
  | build f args k => P.closures f ∧ Value.AllReusable P args ∧
      ∀ node, Raised.Reusable P (Node.Reusable P) node → (k node).Within P I Q

/-- Acts of a program in sequence. -/
theorem Act.Within.bind {P : Program K} {I : σ → Prop} {A : α → Prop} {B : β → Prop}
    {a : Act D K σ α} {f : α → Act D K σ β} (h : a.Within P I A)
    (hf : ∀ x, A x → (f x).Within P I B) : (a >>= f).Within P I B := by
  show (a.bind f).Within P I B
  induction a with
  | done a => exact hf a h
  | raise p => exact h
  | look k ih => exact fun s hs => ih s (h s hs)
  | write s k ih => exact ⟨h.1, ih h.2⟩
  | newCell k ih => exact ⟨h.1, fun c => ih c (h.2 c)⟩
  | run r env node k ih =>
    obtain ⟨hr, henv, hnode, hk⟩ := h
    exact ⟨hr, henv, hnode, fun r' ending hr' hending => ih r' ending (hk r' ending hr' hending)⟩
  | build g args k ih =>
    obtain ⟨hg, hargs, hk⟩ := h
    exact ⟨hg, hargs, fun node hnode => ih node (hk node hnode)⟩

/-- What the closures of the program do stays within the program. -/
structure Language.Within (L : Language D K σ) (P : Program K) (I : σ → Prop) : Prop where
  value {f args} (hf : P.closures f) (hargs : Value.AllReusable P args) :
    (L.value f args).Within P I (Value.Reusable P)
  test {f v} (hf : P.closures f) (hv : v.Reusable P) : (L.test f v).Within P I fun _ => True
  outcome {f v} (hf : P.closures f) (hv : v.Reusable P) :
    (L.outcome f v).Within P I (Outcome.Reusable P)
  effect {f args} (hf : P.closures f) (hargs : Value.AllReusable P args) :
    (L.effect f args).Within P I (Node.Reusable P)
  handler {f c} (hf : P.closures f) (hc : c.Reusable P) :
    (L.handler f c).Within P I (Node.Reusable P)
  cause {f} (hf : P.closures f) : (L.cause f).Within P I (Cause.Reusable P)

/-! ## Worlds -/

namespace World

/-- The cells there were are as they were, and so is every halt that had been taken. -/
structure Grows (w w' : World σ) : Prop where
  size : w.cells.size ≤ w'.cells.size
  cells (i : Nat) (hi : i < w.cells.size) : w'.cells[i]? = w.cells[i]?
  halts (n : Nat) (hn : w.halts[n]? = some true) : w'.halts[n]? = some true

namespace Grows

variable {w w₁ w' : World σ}

protected theorem refl (w : World σ) : w.Grows w := ⟨Nat.le_refl _, fun _ _ => rfl, fun _ h => h⟩

protected theorem trans (h : w.Grows w₁) (h' : w₁.Grows w') : w.Grows w' where
  size := Nat.le_trans h.size h'.size
  cells i hi := (h'.cells i (Nat.lt_of_lt_of_le hi h.size)).trans (h.cells i hi)
  halts n hn := h'.halts n (h.halts n hn)

theorem report (w : World σ) (e : Event) : w.Grows (w.report e) :=
  ⟨Nat.le_refl _, fun _ _ => rfl, fun _ h => h⟩

/-- To make a cell leaves those there are. -/
theorem cell (w : World σ) : w.Grows { w with cells := w.cells.push false } := by
  refine ⟨?_, fun i hi => ?_, fun _ hn => hn⟩
  · show w.cells.size ≤ (w.cells.push false).size
    rw [Array.size_push]
    exact Nat.le_succ _
  · show (w.cells.push false)[i]? = w.cells[i]?
    rw [Array.getElem?_push, if_neg (Nat.ne_of_lt hi)]

end Grows

/-- The cell is newer than the first world, and there to be taken in the second one. -/
structure Fresh (w w' : World σ) (c : Nat) : Prop where
  newer : w.cells.size ≤ c
  there : w'.cells[c]? = some false

theorem Fresh.cell (w : World σ) : w.Fresh { w with cells := w.cells.push false } w.cells.size :=
  ⟨Nat.le_refl _, Array.getElem?_push_size⟩

/-- These cells are all different, newer than `base`, and there to be taken in `w`. -/
structure Owns (base w : World σ) (cells : List Nat) : Prop where
  grows : base.Grows w
  nodup : cells.Nodup
  fresh : ∀ c ∈ cells, base.Fresh w c

/-- The world after a cell has been taken. -/
def took (w : World σ) (c : Nat) : World σ := { w with cells := w.cells.setIfInBounds c true }

end World

namespace World

namespace Owns

variable {base w w' : World σ} {c : Nat} {cells : List Nat}

protected theorem nil (h : base.Grows w) : base.Owns w [] :=
  ⟨h, List.nodup_nil, fun _ hc => nomatch hc⟩

/-- A cell that is there to be taken is left alone by what makes newer ones. -/
theorem later (h : base.Owns w cells) (hgrow : w.Grows w') : base.Owns w' cells where
  grows := h.grows.trans hgrow
  nodup := h.nodup
  fresh c hc := by
    have hthere := (h.fresh c hc).there
    have hlt := (Array.getElem?_eq_some_iff.mp hthere).1
    exact ⟨(h.fresh c hc).newer, (hgrow.cells c hlt).trans hthere⟩

/-- A fresh cell is one more of its own, different from those there were. -/
protected theorem cons (h : base.Owns w cells) (hgrow : w.Grows w') (hc : w.Fresh w' c) :
    base.Owns w' (c :: cells) where
  grows := h.grows.trans hgrow
  nodup := by
    refine List.nodup_cons.mpr ⟨fun hmem => ?_, h.nodup⟩
    have hlt := (Array.getElem?_eq_some_iff.mp (h.fresh c hmem).there).1
    exact absurd hlt (Nat.not_lt.mpr hc.newer)
  fresh d hd := by
    rcases List.mem_cons.mp hd with rfl | hd
    · exact ⟨Nat.le_trans h.grows.size hc.newer, hc.there⟩
    · exact (h.later hgrow).fresh d hd

/-- To take one of the cells leaves the others. -/
theorem took (h : base.Owns w (c :: cells)) : base.Owns (w.took c) cells where
  grows := by
    have hnewer := (h.fresh c (List.mem_cons_self ..)).newer
    refine ⟨?_, fun i hi => ?_, h.grows.halts⟩
    · show base.cells.size ≤ (w.cells.setIfInBounds c true).size
      rw [Array.size_setIfInBounds]
      exact h.grows.size
    · show (w.cells.setIfInBounds c true)[i]? = _
      rw [Array.getElem?_setIfInBounds_ne (by omega)]
      exact h.grows.cells i hi
  nodup := (List.nodup_cons.mp h.nodup).2
  fresh d hd := by
    have hne : c ≠ d := fun hcd => (List.nodup_cons.mp h.nodup).1 (hcd ▸ hd)
    have hfresh := h.fresh d (List.mem_cons_of_mem _ hd)
    refine ⟨hfresh.newer, ?_⟩
    show (w.cells.setIfInBounds c true)[d]? = some false
    rw [Array.getElem?_setIfInBounds_ne hne]
    exact hfresh.there

theorem tail (h : base.Owns w (c :: cells)) : base.Owns w cells where
  grows := h.grows
  nodup := (List.nodup_cons.mp h.nodup).2
  fresh d hd := h.fresh d (List.mem_cons_of_mem _ hd)

/-- A cell that is owned is there, so taking it succeeds. -/
theorem takeCell_eq (h : base.Owns w (c :: cells)) :
    takeCell c w.cells = (true, (w.took c).cells) := by
  simp only [takeCell, (h.fresh c (List.mem_cons_self ..)).there]
  rfl

end Owns

/-- Worlds with the same shared state, in which the same was reported since there was `old` on the
    one trace and `old'` on the other.  Their halts are the same as well, if the program has any;
    nothing is said of their cells. -/
structure Twins (P : Program K) (I : σ → Prop) (old old' : List Event) (w v : World σ) : Prop where
  state : w.state = v.state
  inv : I w.state
  halts : P.halts → w.halts = v.halts
  trace : ∃ news, w.trace = news ++ old ∧ v.trace = news ++ old'

variable {P : Program K} {I : σ → Prop} {old old' : List Event} {w v : World σ}

theorem Twins.report (h : w.Twins P I old old' v) (e : Event) :
    (w.report e).Twins P I old old' (v.report e) := by
  obtain ⟨news, hw, hv⟩ := h.trace
  refine ⟨h.state, h.inv, h.halts, e :: news, ?_, ?_⟩
  · show e :: w.trace = _
    rw [hw, List.cons_append]
  · show e :: v.trace = _
    rw [hv, List.cons_append]

theorem Twins.took (h : w.Twins P I old old' v) (c d : Nat) :
    (w.took c).Twins P I old old' (v.took d) := ⟨h.state, h.inv, h.halts, h.trace⟩

end World

/-! ## Plays in two worlds -/

/-- Both come to the same, up to the numbers of a cell that is made on either side; or both come to
    no end. -/
inductive Paired (P : Program K) (I : σ → Prop) (old old' : List Event)
    (Q : Option (Nat × Nat) → α → α → Prop) (w v : World σ) :
    Option (Raised D K α × World σ) → Option (Raised D K α × World σ) → Prop where
  | endless : Paired P I old old' Q w v none none
  | returned {pair? a b w' v'} (htwins : w'.Twins P I old old' v') (hgrow : w.Grows w')
      (hgrow' : v.Grows v') (hfresh : ∀ c d, pair? = some (c, d) → w.Fresh w' c ∧ v.Fresh v' d)
      (h : Q pair? a b) : Paired P I old old' Q w v (some (.ok a, w')) (some (.ok b, v'))
  | raised {p w' v'} (htwins : w'.Twins P I old old' v') (hgrow : w.Grows w')
      (hgrow' : v.Grows v') (hp : p.Reusable P) :
      Paired P I old old' Q w v (some (.error p, w')) (some (.error p, v'))

/-- The same on both sides, with no cell made for it, and as `Q` says. -/
def Alone (Q : α → Prop) (pair? : Option (Nat × Nat)) (a b : α) : Prop :=
  pair? = none ∧ a = b ∧ Q a

/-- Played in twin worlds, the play comes to the same. -/
def Play.Paired (P : Program K) (I : σ → Prop) (old old' : List Event) (c : Callees D K σ)
    (Q : Option (Nat × Nat) → α → α → Prop) (x : Play D K σ α) : Prop :=
  ∀ ⦃w v⦄, World.Twins P I old old' w v → EffectMachine.Paired P I old old' Q w v (x c w) (x c v)

/-- Runs in twin worlds come to the same. -/
inductive RunPaired (P : Program K) (I : σ → Prop) (old old' : List Event) (w v : World σ) :
    Option (Raised D K (Ending D K) × Runner D K × World σ) →
    Option (Raised D K (Ending D K) × Runner D K × World σ) → Prop where
  | endless : RunPaired P I old old' w v none none
  | ended {ending r w' v'} (htwins : w'.Twins P I old old' v') (hgrow : w.Grows w')
      (hgrow' : v.Grows v') (hending : Raised.Reusable P (Ending.Reusable P) ending)
      (hr : r.Reusable P) :
      RunPaired P I old old' w v (some (ending, r, w')) (some (ending, r, v'))

/-- Runs and calls of the program come to the same in twin worlds. -/
structure Callees.Paired (P : Program K) (I : σ → Prop) (old old' : List Event)
    (c : Callees D K σ) : Prop where
  run {w v} (h : World.Twins P I old old' w v) {r : Runner D K} {env : Option (Value D K)}
    {node : Node D K} (hr : r.Reusable P) (henv : ∀ v, env = some v → v.Reusable P)
    (hnode : node.Reusable P) : RunPaired P I old old' w v (c.run r env node w) (c.run r env node v)
  build {w v} (h : World.Twins P I old old' w v) {f args} (hf : P.closures f)
    (hargs : Value.AllReusable P args) :
    EffectMachine.Paired P I old old' (Alone (Node.Reusable P)) w v (c.build f args w)
      (c.build f args v)

section Plays

variable {P : Program K} {I : σ → Prop} {old old' : List Event} {c : Callees D K σ}
  {Q : Option (Nat × Nat) → β → β → Prop} {w w₁ v v₁ : World σ}

/-- What came to the same in later worlds did so in earlier ones. -/
theorem Paired.of_grows (hw : w.Grows w₁) (hv : v.Grows v₁)
    {out out' : Option (Raised D K β × World σ)} (h : Paired P I old old' Q w₁ v₁ out out') :
    Paired P I old old' Q w v out out' := by
  cases h with
  | endless => exact .endless
  | returned htwins hgrow hgrow' hfresh hQ =>
    refine .returned htwins (hw.trans hgrow) (hv.trans hgrow') (fun c d hpair => ?_) hQ
    obtain ⟨hc, hd⟩ := hfresh c d hpair
    exact ⟨⟨Nat.le_trans hw.size hc.newer, hc.there⟩, ⟨Nat.le_trans hv.size hd.newer, hd.there⟩⟩
  | raised htwins hgrow hgrow' hp => exact .raised htwins (hw.trans hgrow) (hv.trans hgrow') hp

/-- The same on both sides, with no cell made for it. -/
theorem Paired.same {b b' : β} (htwins : w₁.Twins P I old old' v₁) (hgrow : w.Grows w₁)
    (hgrow' : v.Grows v₁) (h : Q none b b') :
    Paired P I old old' Q w v (some (.ok b, w₁) : Option (Raised D K β × World σ))
      (some (.ok b', v₁)) := by
  refine .returned htwins hgrow hgrow' ?_ h
  intro c d hpair
  cases hpair

namespace Play.Paired

/-- To return a thing that owns no cell. -/
protected theorem pure {b : β} (h : Q none b b) :
    Play.Paired P I old old' c Q (pure b) :=
  fun w v hwv => .same hwv (.refl w) (.refl v) h

/-- Where nothing is made for the values of the first play, plays in sequence are paired. -/
protected theorem bind {A : α → Prop} {x : Play D K σ α} {f : α → Play D K σ β}
    (hx : Play.Paired P I old old' c (Alone A) x)
    (hf : ∀ a, A a → Play.Paired P I old old' c Q (f a)) :
    Play.Paired P I old old' c Q (x >>= f) := by
  intro w v hwv
  have hxy := hx hwv
  rw [bind_apply, bind_apply]
  generalize x c w = out at hxy ⊢
  generalize x c v = out' at hxy ⊢
  cases hxy with
  | endless => exact .endless
  | returned htwins hgrow hgrow' _ h =>
    obtain ⟨-, rfl, ha⟩ := h
    exact (hf _ ha htwins).of_grows hgrow hgrow'
  | raised htwins hgrow hgrow' hp => exact .raised htwins hgrow hgrow' hp

protected theorem map {A : α → Prop} {B : β → Prop} {x : Play D K σ α} {f : α → β}
    (hx : Play.Paired P I old old' c (Alone A) x) (hf : ∀ a, A a → B (f a)) :
    Play.Paired P I old old' c (Alone B) (f <$> x) := by
  rw [map_eq_pure_bind]
  exact hx.bind fun a ha => .pure ⟨rfl, rfl, hf a ha⟩

protected theorem report (e : Event) :
    Play.Paired P I old old' c (Alone fun _ => True) (Play.report e) :=
  fun w v hwv => .same (hwv.report e) (.report w e) (.report v e) ⟨rfl, rfl, trivial⟩

/-- To take a halt comes to the same if the program has any. -/
protected theorem takeHalt (hhalts : P.halts) (n : Nat) :
    Play.Paired P I old old' c (Alone fun _ => True) (Play.takeHalt n) := by
  intro w v hwv
  have hgrow : ∀ w : World σ, w.Grows { w with halts := (takeCell n w.halts).2 } :=
    fun w => ⟨Nat.le_refl _, fun _ _ => rfl, fun _ hm => takeCell_taken n hm⟩
  have heq := hwv.halts hhalts
  have htwins : World.Twins P I old old' { w with halts := (takeCell n w.halts).2 }
      { v with halts := (takeCell n v.halts).2 } :=
    ⟨hwv.state, hwv.inv, fun _ => congrArg (fun halts => (takeCell n halts).2) heq, hwv.trace⟩
  refine .same htwins (hgrow w) (hgrow v) ⟨rfl, ?_, trivial⟩
  exact congrArg (fun halts => (takeCell n halts).1) heq

/-- To make a cell comes to the same up to the number of it. -/
protected theorem cell {f : Nat → β} (hf : ∀ c d, Q (some (c, d)) (f c) (f d)) :
    Play.Paired P I old old' c Q (do return f (← Play.cell)) := by
  intro w v hwv
  have htwins : World.Twins P I old old' { w with cells := w.cells.push false }
      { v with cells := v.cells.push false } := ⟨hwv.state, hwv.inv, hwv.halts, hwv.trace⟩
  refine .returned htwins (.cell w) (.cell v) (fun c d hpair => ?_) (hf _ _)
  cases hpair
  exact ⟨.cell w, .cell v⟩

/-- What an act of the program does comes to the same. -/
protected theorem act (hc : c.Paired P I old old') {A : α → Prop} {a : Act D K σ α}
    (h : a.Within P I A) : Play.Paired P I old old' c (Alone A) (Play.act a) := by
  intro w v hwv
  show EffectMachine.Paired P I old old' (Alone A) w v (a.exec c w) (a.exec c v)
  induction a generalizing w v with
  | done a => exact .same hwv (.refl w) (.refl v) ⟨rfl, rfl, h⟩
  | raise p => exact .raised hwv (.refl w) (.refl v) h
  | look k ih =>
    -- both look at the same state, and so go on in the same branch
    simp only [Act.exec, ← hwv.state]
    exact ih _ (h _ hwv.inv) hwv
  | write s k ih =>
    have htwins : World.Twins P I old old' { w with state := s } { v with state := s } :=
      ⟨rfl, h.1, hwv.halts, hwv.trace⟩
    have hgrow : ∀ w : World σ, w.Grows { w with state := s } :=
      fun w => ⟨Nat.le_refl _, fun _ _ => rfl, fun _ hn => hn⟩
    exact (ih h.2 htwins).of_grows (hgrow w) (hgrow v)
  | newCell k ih =>
    have heq := hwv.halts h.1
    have htwins : World.Twins P I old old' { w with halts := w.halts.push false }
        { v with halts := v.halts.push false } :=
      ⟨hwv.state, hwv.inv, fun _ => congrArg (·.push false) heq, hwv.trace⟩
    have hgrow : ∀ w : World σ, w.Grows { w with halts := w.halts.push false } := by
      intro w
      refine ⟨Nat.le_refl _, fun _ _ => rfl, fun n hn => ?_⟩
      show (w.halts.push false)[n]? = some true
      have hlt := (Array.getElem?_eq_some_iff.mp hn).1
      rw [Array.getElem?_push, if_neg (Nat.ne_of_lt hlt)]
      exact hn
    -- the program has halts, so their cells are the same and so is the number of the new one
    have hk := (ih _ (h.2 w.halts.size) htwins).of_grows (hgrow w) (hgrow v)
    simp only [Act.exec]
    rw [← heq]
    rw [← heq] at hk
    exact hk
  | run r env node k ih =>
    obtain ⟨hr, henv, hnode, hk⟩ := h
    have hrun := hc.run hwv hr henv hnode
    simp only [Act.exec]
    generalize c.run r env node w = out at hrun ⊢
    generalize c.run r env node v = out' at hrun ⊢
    cases hrun with
    | endless => exact .endless
    | ended htwins hgrow hgrow' hending hr' =>
      exact (ih _ _ (hk _ _ hr' hending) htwins).of_grows hgrow hgrow'
  | build f args k ih =>
    obtain ⟨hf, hargs, hk⟩ := h
    have hbuild := hc.build hwv hf hargs
    simp only [Act.exec]
    generalize c.build f args w = out at hbuild ⊢
    generalize c.build f args v = out' at hbuild ⊢
    cases hbuild with
    | endless => exact .endless
    | returned htwins hgrow hgrow' _ hQ =>
      obtain ⟨-, rfl, hnode⟩ := hQ
      exact (ih _ (hk (.ok _) hnode) htwins).of_grows hgrow hgrow'
    | raised htwins hgrow hgrow' hp =>
      exact (ih _ (hk (.error _) hp) htwins).of_grows hgrow hgrow'

/-- What an attempt returns is what the act returned or raised. -/
protected theorem attempt {A : α → Prop} {a : Act D K σ α}
    (h : Play.Paired P I old old' c (Alone A) (Play.act a)) :
    Play.Paired P I old old' c (Alone (Raised.Reusable P A)) (Play.attempt a) := by
  intro w v hwv
  have hact : EffectMachine.Paired P I old old' (Alone A) w v (a.exec c w) (a.exec c v) := h hwv
  simp only [attempt]
  generalize a.exec c w = out at hact ⊢
  generalize a.exec c v = out' at hact ⊢
  cases hact with
  | endless => exact .endless
  | returned htwins hgrow hgrow' _ hQ =>
    obtain ⟨-, rfl, ha⟩ := hQ
    exact .same htwins hgrow hgrow' ⟨rfl, rfl, ha⟩
  | raised htwins hgrow hgrow' hp => exact .same htwins hgrow hgrow' ⟨rfl, rfl, hp⟩

end Play.Paired

end Plays

/-! ## Nodes made while running -/

/-- The same node, but for the number of the cell it owns, if it owns one. -/
inductive Node.Twins (P : Program K) : Option (Nat × Nat) → Node D K → Node D K → Prop where
  | reusable {node} (h : node.Reusable P) : Node.Twins P none node node
  | succeed {c d v} (h : v.Reusable P) :
      Node.Twins P (some (c, d)) (.succeed (.once c v)) (.succeed (.once d v))
  | failCause {c d cause} (h : cause.Reusable P) :
      Node.Twins P (some (c, d)) (.failCause (.once c cause)) (.failCause (.once d cause))
  | provide {c d v inner} (hv : v.Reusable P) (h : inner.Reusable P) :
      Node.Twins P (some (c, d)) (.provide (.once c v) inner) (.provide (.once d v) inner)
  | flatMap {c d inner T link} (h : inner.Reusable P) (hlink : link.Reusable P) :
      Node.Twins P (some (c, d)) (.flatMap inner (.typedOnce c T link))
        (.flatMap inner (.typedOnce d T link))

section Library

variable {L : Language D K σ} {P : Program K} {I : σ → Prop} {old old' : List Event}
  {c : Callees D K σ}

theorem Node.succeedOnce_paired {v : Value D K} (hv : v.Reusable P) :
    Play.Paired P I old old' c (Node.Twins P) (Node.succeedOnce v) :=
  .cell fun _ _ => .succeed hv

theorem Node.haltOnce_paired {cause : Cause (Value D K)} (h : cause.Reusable P) :
    Play.Paired P I old old' c (Node.Twins P) (Node.haltOnce cause) :=
  .cell fun _ _ => .failCause h

theorem Node.ofOutcomeOnce_paired {o : Outcome (Value D K) (Value D K)} (h : o.Reusable P) :
    Play.Paired P I old old' c (Node.Twins P) (Node.ofOutcomeOnce o) := by
  cases o with
  | success v => exact succeedOnce_paired h
  | failure e => exact haltOnce_paired (.fail h)

theorem Node.ofFault_paired (f : Fault) :
    Play.Paired P I old old' c (Node.Twins P) (pure (Node.ofFault f : Node D K)) :=
  .pure (.reusable (reusable_ofFault f))

/-- A reusable node owns no cell. -/
theorem Play.Paired.reusable {x : Play D K σ (Node D K)}
    (h : Play.Paired P I old old' c (Alone (Node.Reusable P)) x) :
    Play.Paired P I old old' c (Node.Twins P) x := by
  rw [← bind_pure x]
  exact h.bind fun node hnode => .pure (.reusable hnode)

/-- A source gives the same cause on both sides. -/
theorem Source.take_paired (hL : L.Within P I) (hc : c.Paired P I old old') {source : Source D K}
    (h : source.Reusable P) :
    Play.Paired P I old old' c (Alone (Cause.Reusable P)) source.take := by
  cases h with
  | shared h => exact .pure ⟨rfl, rfl, h⟩
  | halted hhalts h =>
    refine (Play.Paired.takeHalt hhalts _).bind fun there _ => .pure ⟨rfl, rfl, ?_⟩
    cases there with
    | true => exact h
    | false => exact .ofFault _
  | made hf => exact .act hc (hL.cause hf)
  | failing hf => exact (Play.Paired.act hc (hL.value hf .nil)).map fun e he => .fail he

theorem joined_paired (hL : L.Within P I) (hc : c.Paired P I old old') {join : Option K}
    (hjoin : ∀ f, join = some f → P.closures f) {a b : Value D K} (ha : a.Reusable P)
    (hb : b.Reusable P) :
    Play.Paired P I old old' c (Alone (Value.Reusable P)) (joined join a b) := by
  cases join with
  | none => exact .pure ⟨rfl, rfl, .tuple (Value.AllReusable.pair ha hb)⟩
  | some f => exact .act hc (hL.value (hjoin f rfl) (.pair ha hb))

/-- Link by link.  Those that make something for one evaluation make it on either side, with cells
    whose numbers are paired. -/
theorem Link.follow_paired (hL : L.Within P I) (hc : c.Paired P I old old') {link : Link D K}
    (h : link.Reusable P) {v : Value D K} (hv : v.Reusable P) :
    Play.Paired P I old old' c (Node.Twins P) (link.follow v) := by
  cases h with
  | now => exact Node.succeedOnce_paired hv
  | nowOf hf =>
    exact (Play.Paired.act hc (hL.value hf (.singleton hv))).bind fun b hb =>
      Node.succeedOnce_paired hb
  | nowSuccess => exact Node.succeedOnce_paired (.success hv)
  | nowFailure => exact Node.succeedOnce_paired (.failure hv)
  | failNow => exact Node.haltOnce_paired (.fail hv)
  | call hf => exact (Play.Paired.act hc (hL.effect hf (.singleton hv))).reusable
  | outcomeOf hf =>
    exact (Play.Paired.act hc (hL.outcome hf hv)).bind fun o ho => Node.ofOutcomeOnce_paired ho
  | replace h => exact .pure (.reusable h)
  | zip h hjoin => exact .cell fun _ _ => .flatMap h (.join hv hjoin)
  | join h hjoin =>
    exact (joined_paired hL hc hjoin h hv).bind fun b hb => Node.succeedOnce_paired hb
  | require hpasses herror =>
    refine (Play.Paired.act hc (hL.test hpasses hv)).bind fun there _ => ?_
    cases there with
    | true => exact Node.succeedOnce_paired hv
    | false =>
      exact (Play.Paired.act hc (hL.value herror (.singleton hv))).bind fun e he =>
        Node.haltOnce_paired (.fail he)
  | assert hpasses hpayload =>
    refine (Play.Paired.act hc (hL.test hpasses hv)).bind fun there _ => ?_
    cases there with
    | true => exact Node.succeedOnce_paired hv
    | false =>
      exact (Play.Paired.act hc (hL.value hpayload (.singleton hv))).bind fun e he =>
        Node.haltOnce_paired (.dieWith he)
  | absolve =>
    cases v with
    | outcome e a o =>
      refine Node.ofOutcomeOnce_paired ?_
      cases hv with
      | success h => exact h
      | failure h => exact h
    | _ => exact Node.ofFault_paired _
  | flatten =>
    cases v with
    | effect r e a inner =>
      cases hv with
      | effect h => exact .pure (.reusable h)
    | _ => exact Node.ofFault_paired _
  | provide henv =>
    cases v with
    | effect r e a inner =>
      cases hv with
      | effect h => exact .pure (.reusable (.provide henv h))
    | _ => exact Node.ofFault_paired _
  | supply h =>
    exact Node.succeedOnce_paired (.effect (.flatMap h (.typed (.provide hv))))
  | park => exact Node.haltOnce_paired (.dieWith (.unmatched hv.parked))
  | applyTo hf =>
    cases v with
    | arguments positional named =>
      cases hv with
      | arguments h _ => exact .pure (.reusable (.attempt hf h.components))
    | _ => exact .pure (.reusable (.attempt hf (Value.AllReusable.singleton hv)))
  | applyWhole hf => exact .pure (.reusable (.attempt hf (Value.AllReusable.singleton hv)))

/-- The check of the type comes out the same, since it is the same value. -/
theorem Link.followTyped_paired (hL : L.Within P I) (hc : c.Paired P I old old')
    {link : Link D K} (h : link.Reusable P) {v : Value D K} (hv : v.Reusable P) (T : Ty) :
    Play.Paired P I old old' c (Node.Twins P) (link.followTyped T v) := by
  simp only [Link.followTyped]
  cases hcast : v.cast? T with
  | none => exact Node.ofFault_paired _
  | some v' =>
    obtain ⟨-, rfl⟩ := Value.cast?_eq_some_iff.mp hcast
    exact link.follow_paired hL hc h hv

theorem Link.followEnvironment_paired (hL : L.Within P I) (hc : c.Paired P I old old')
    {link : Link D K} (h : link.Reusable P) {env : Option (Value D K)}
    (henv : ∀ v, env = some v → v.Reusable P) (T : Ty) :
    Play.Paired P I old old' c (Node.Twins P) (link.followEnvironment T env) := by
  cases env with
  | none => exact Node.ofFault_paired _
  | some v =>
    simp only [Link.followEnvironment]
    cases hcast : v.cast? T with
    | none => exact Node.ofFault_paired _
    | some v' =>
      obtain ⟨-, rfl⟩ := Value.cast?_eq_some_iff.mp hcast
      exact link.follow_paired hL hc h (henv v rfl)

theorem Continuation.resume_paired (hL : L.Within P I) (hc : c.Paired P I old old')
    {k : Continuation D K} (h : k.Reusable P) {v : Value D K} (hv : v.Reusable P) :
    Play.Paired P I old old' c (Node.Twins P) (k.resume v) := by
  cases h with
  | passThrough => exact Node.succeedOnce_paired hv
  | typed h => exact Link.followTyped_paired hL hc h hv _

theorem Handler.resume_paired (hL : L.Within P I) (hc : c.Paired P I old old')
    {onCause : Handler D K} (h : onCause.Reusable P) {cause : Cause (Value D K)}
    (hcause : cause.Reusable P) :
    Play.Paired P I old old' c (Node.Twins P) (onCause.resume cause) := by
  have htyped : ∀ E, (cause.typed E).Reusable P := hcause.typed
  cases h with
  | @mapError E f hf =>
    have h := htyped E
    simp only [Handler.resume]
    generalize cause.typed E = typed at h ⊢
    cases h with
    | fail h =>
      simp only [Cause.mapM, Play.act_map]
      exact ((Play.Paired.act hc (hL.value hf (.singleton h))).map fun e he => .fail he).bind
        fun e he => Node.haltOnce_paired he
    | die h =>
      simp only [Cause.mapM_die, Play.act_pure, pure_bind]
      exact Node.haltOnce_paired (.die h)
  | onCause hf => exact (Play.Paired.act hc (hL.handler hf (htyped _))).reusable
  | @onFailure E link hlink =>
    have h := htyped E
    simp only [Handler.resume]
    generalize cause.typed E = typed at h ⊢
    cases h with
    | fail h => exact Link.follow_paired hL hc hlink h
    | die h => exact Node.haltOnce_paired (.die h)
  | @escalate E =>
    have h := htyped E
    simp only [Handler.resume]
    generalize cause.typed E = typed at h ⊢
    cases h with
    | fail h => exact Node.haltOnce_paired (.dieWith h)
    | die h => exact Node.haltOnce_paired (.die h)
  | @narrow E payload into hf =>
    have h := htyped E
    simp only [Handler.resume]
    generalize cause.typed E = typed at h ⊢
    cases h with
    | fail h => exact Node.haltOnce_paired (.fail h)
    | @die d h =>
      simp only
      cases hcast : d.cast? payload with
      | none => exact Node.haltOnce_paired (.die h)
      | some p =>
        obtain ⟨-, rfl⟩ := Value.cast?_eq_some_iff.mp hcast
        exact (Play.Paired.act hc (hL.value hf (.singleton h))).bind fun e he =>
          Node.haltOnce_paired (.fail he)
  | @typeCase E T case hcase =>
    have h := htyped E
    simp only [Handler.resume]
    generalize cause.typed E = typed at h ⊢
    cases h with
    | fail h => exact Node.haltOnce_paired (.fail h)
    | @die d h =>
      obtain ⟨payload, name⟩ := d
      cases payload with
      | unmatched u =>
        simp only
        cases h with
        | unmatched h =>
          cases htake : u.take? T with
          | none => exact Node.haltOnce_paired (.dieWith (.unmatched h))
          | some v =>
            obtain ⟨-, rfl⟩ := Value.cast?_eq_some_iff.mp htake
            -- the value is bound for this once, in a cell that is made on either side
            exact .cell fun _ _ => .provide h hcase
      | _ => exact Node.haltOnce_paired (.die h)

theorem Machine.attempted_paired (hL : L.Within P I) (hc : c.Paired P I old old') {f : K}
    {args : List (Value D K)} (hf : P.closures f) (hargs : Value.AllReusable P args) :
    Play.Paired P I old old' c (Alone (Ending.Reusable P)) (attempted f args) := by
  refine (Play.Paired.act hc (hL.value hf hargs)).attempt.bind fun r hr => ?_
  cases r with
  | ok v => exact .pure ⟨rfl, rfl, hr⟩
  | error p => exact (Play.Paired.report .raised).bind fun _ _ => .pure ⟨rfl, rfl, .die hr⟩

end Library

end EffectMachine
