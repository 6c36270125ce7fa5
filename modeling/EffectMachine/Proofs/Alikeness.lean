/-
  Programs in worlds with other cells.

  To compare two programs that use up different numbers of cells, one of them has to be followed
  through a world in which other cells have been made than in the world of the other.  For programs
  whose trees are reusable this makes no difference (`Runner.evaluate_together`), and here it is
  said once more in the terms in which programs are compared: in worlds that are alike, a reusable
  node comes to the same on both sides, and so does what a closure of the program does.

  Worlds are alike if the shared state is the same, with the calls noted in it, and so are the
  causes handed over if the program hands any over.  All else, the cells of the library and what was
  reported, is left open.  So comparisons in alike worlds can be turned around and chained, and
  cells that are used up on one side only can be dropped.
-/
import EffectMachine.Proofs.Matching
import EffectMachine.Proofs.TwinRuns

namespace EffectMachine

variable {D K σ α β : Type}

/-! ## Worlds that are alike -/

/-- The same shared state, and the same causes handed over if the program hands over any. -/
structure World.Alike (P : Program K) (I : σ → Prop) (w v : World σ) : Prop where
  state : w.state = v.state
  inv : I w.state
  halts : P.halts → w.halts = v.halts

namespace World.Alike

variable {P : Program K} {I : σ → Prop} {w v u : World σ}

protected theorem refl (hw : I w.state) : w.Alike P I w := ⟨rfl, hw, fun _ => rfl⟩

protected theorem symm (h : w.Alike P I v) : v.Alike P I w :=
  ⟨h.state.symm, h.state ▸ h.inv, fun hP => (h.halts hP).symm⟩

protected theorem trans (h : w.Alike P I v) (h' : v.Alike P I u) : w.Alike P I u :=
  ⟨h.state.trans h'.state, h.inv, fun hP => (h.halts hP).trans (h'.halts hP)⟩

/-- What was reported plays no part in it. -/
theorem of_agree (h : w.Agree v) (hw : I w.state) : w.Alike P I v := ⟨h.state, hw, fun _ => h.halts⟩

theorem untraced : World.Untraced (@World.Alike K σ P I) := by
  intro w v w' v' hw hv h
  have hw' := World.Alike.of_agree (P := P) (I := I) hw h.inv
  have hv' := World.Alike.of_agree (P := P) (I := I) hv h.symm.inv
  exact hw'.symm.trans (h.trans hv')

theorem spent_left (h : w.Alike P I v) (k : Nat) : (w.spent k).Alike P I v :=
  ⟨h.state, h.inv, h.halts⟩

theorem spent_right (h : w.Alike P I v) (k : Nat) : w.Alike P I (v.spent k) :=
  ⟨h.state, h.inv, h.halts⟩

/-- Worlds that are alike are twins, since whatever has been reported in them. -/
theorem twins (h : w.Alike P I v) : w.Twins P I w.trace v.trace v :=
  ⟨h.state, h.inv, h.halts, [], rfl, rfl⟩

/-- Twins share their state and their halts, which is all that is looked at here. -/
theorem of_twins {old old' : List Event} (h : w.Twins P I old old' v) : w.Alike P I v :=
  ⟨h.state, h.inv, h.halts⟩

end World.Alike

/-- Reports leave the cells alone. -/
theorem World.Grows.of_agree {w w' u : World σ} (h : w.Grows w') (hu : w'.Agree u) : w.Grows u where
  size := hu.cells ▸ h.size
  cells i hi := hu.cells ▸ h.cells i hi
  halts n hn := hu.halts ▸ h.halts n hn

/-! ## Programs that match in alike worlds -/

/-- In worlds that are alike both come to the same, and leave worlds that are alike. -/
abbrev Play.SameAs (P : Program K) (I : σ → Prop) (c : Callees D K σ) (Q : α → Prop)
    (x y : Play D K σ α) : Prop :=
  Play.Matches c (World.Alike P I) (World.Alike P I) Q x y

namespace Play.SameAs

variable {P : Program K} {I : σ → Prop} {c : Callees D K σ} {Q Q' : α → Prop}
  {x y z : Play D K σ α}

protected theorem pure {a : α} (ha : Q a) : SameAs P I c Q (pure a) (pure a) :=
  Matches.pure (fun _ _ h => h) ha

/-- In sequence, what follows is compared only for values that the first plays can return. -/
protected theorem bind {B : β → Prop} {f g : α → Play D K σ β} (hx : SameAs P I c Q x y)
    (hf : ∀ a, Q a → SameAs P I c B (f a) (g a)) : SameAs P I c B (x >>= f) (y >>= g) :=
  Matches.bind (fun _ _ h => h) hx hf

protected theorem symm (h : SameAs P I c Q x y) : SameAs P I c Q y x :=
  (Matches.flip h).weaken (fun _ _ h => h.symm) (fun _ _ h => h.symm) fun _ hQ => hQ

/-- What holds of the values that `x` returns is known from the first comparison. -/
protected theorem trans (h : SameAs P I c Q x y) (h' : SameAs P I c (fun _ => True) y z) :
    SameAs P I c Q x z := by
  intro w v hwv
  have hxy := h hwv
  have hyz := h' (World.Alike.refl hwv.symm.inv)
  revert hxy hyz
  generalize x c w = out
  generalize y c v = out'
  generalize z c v = out''
  rintro (_ | ⟨hw, ha⟩ | hw) hyz
  · cases hyz
    exact .endless
  · cases hyz with
    | returned hv _ => exact .returned (hw.trans hv) ha
  · cases hyz with
    | raised hv => exact .raised (hw.trans hv)

theorem spend_left (k : Nat) (h : SameAs P I c Q x y) :
    SameAs P I c Q (Play.spend k >>= fun _ => x) y :=
  Matches.spend_left (fun _ _ hwv => hwv.spent_left k) h

theorem spend_right (k : Nat) (h : SameAs P I c Q x y) :
    SameAs P I c Q x (Play.spend k >>= fun _ => y) :=
  Matches.spend_right (fun _ _ hwv => hwv.spent_right k) h

/-- What is returned by a play that is sound is as both say. -/
theorem and_sound {Γ : Signature K} (h : SameAs P I c Q x y) (hx : Play.Sound Γ I c Q' x) :
    SameAs P I c (fun a => Q a ∧ Q' a) x y := by
  intro w v hwv
  have hxy := h hwv
  have hsound : ∀ {result w'}, x c w = some (result, w') → Raised.Sound Γ Q' result :=
    fun hplay => (hx hwv.inv hplay).1
  generalize x c w = out at hxy hsound ⊢
  generalize y c v = out' at hxy ⊢
  cases hxy with
  | endless => exact .endless
  | returned hw ha => exact .returned hw ⟨ha, hsound rfl⟩
  | raised hw => exact .raised hw

/-- What is the same in twin worlds is so in alike ones. -/
theorem of_paired (h : ∀ old old', Play.Paired P I old old' c (Alone Q) x) :
    SameAs P I c Q x x := by
  intro w v hwv
  have hxy := h w.trace v.trace hwv.twins
  generalize x c w = out at hxy ⊢
  generalize x c v = out' at hxy ⊢
  cases hxy with
  | endless => exact .endless
  | returned htwins _ _ _ ha =>
    obtain ⟨-, rfl, ha⟩ := ha
    exact .returned (.of_twins htwins) ha
  | raised htwins => exact .raised (.of_twins htwins)

end Play.SameAs

/-! ## Runs of a program -/

/-- Closures stay within the program, runs and calls come to the same in twin worlds, and what is
    bound is reusable. -/
structure ProgramRun (L : Language D K σ) (P : Program K) (I : σ → Prop) (c : Callees D K σ)
    (env : Option (Value D K)) : Prop where
  within : L.Within P I
  paired (old old' : List Event) : c.Paired P I old old'
  agree : Callees.Alike World.Agree c c
  bound (v : Value D K) (hv : env = some v) : v.Reusable P

namespace ProgramRun

variable [L : Language D K σ] {P : Program K} {I : σ → Prop} {c : Callees D K σ}
  {env : Option (Value D K)}

/-- Runs and calls that are nested to any depth stay within a program whose closures do. -/
theorem ofFuel (hL : L.Within P I) (depth : Nat) (henv : ∀ v, env = some v → v.Reusable P) :
    ProgramRun L P I (Callees.ofFuel depth) env :=
  ⟨hL, fun old old' => Callees.ofFuel_paired hL old old' depth, Callees.ofFuel_agree depth, henv⟩

/-- What a closure of the program does comes to the same. -/
theorem act (H : ProgramRun L P I c env) {Q : α → Prop} {a : Act D K σ α} (ha : a.Within P I Q) :
    Play.SameAs P I c Q (Play.act a) (Play.act a) :=
  .of_paired fun old old' => Play.Paired.act (H.paired old old') ha

/-- Where a reusable node comes to an end, it has left alone the cells there were, and it comes to
    the same end in any world that is alike. -/
theorem result_of_alike (H : ProgramRun L P I c env) {node : Node D K} (hnode : node.Reusable P)
    {w v w' : World σ} (hwv : w.Alike P I v) {ending : Raised D K (Ending D K)}
    (h : node.result env c w = some (ending, w')) :
    Raised.Reusable P (Ending.Reusable P) ending ∧ w.Grows w' ∧
      ∃ v', node.result env c v = some (ending, v') ∧ w'.Alike P I v' := by
  -- the environment is put on the stack of a runner, and both are evaluated there
  let r : Runner D K := ⟨{}, env.toArray, 0⟩
  have hfit : r.settings.framesFit = true := Runner.fresh_framesFit (D := D) (K := K)
  have hback : r.environments.back? = env := by cases env <;> rfl
  have hr : r.Reusable P := by
    intro v hv
    exact H.bound v (by simpa [r] using hv)
  rw [← hback] at h
  obtain ⟨fuel, r', u, heval, hu⟩ := (Runner.exists_evaluate_iff H.agree hfit).mpr ⟨w', h, .refl w'⟩
  have htogether := Runner.evaluate_together H.within
    (H.paired w.trace v.trace) fuel rfl rfl hr (.reusable hnode)
    (hwv.twins.report (.span r.settings.label))
    (⟨.nil (.refl w), .nil (.refl v)⟩ : OwnPairs w v w v [])
  rw [heval] at htogether
  generalize hout : r.evaluate c fuel node v = out at htogether
  cases htogether with
  | ended htwins hgrow _ hending _ =>
    have halike : World.Alike P I _ _ := .of_twins htwins
    obtain ⟨v', hv', hvv⟩ :=
      (Runner.exists_evaluate_iff H.agree hfit).mp ⟨fuel, _, _, hout, .refl _⟩
    rw [hback] at hv'
    exact ⟨hending, hgrow.of_agree hu, v', hv', World.Alike.untraced hu hvv.symm halike⟩

/-- A reusable node comes to the same in worlds that are alike. -/
theorem result_sameAs (H : ProgramRun L P I c env) {node : Node D K} (hnode : node.Reusable P) :
    Play.SameAs P I c (Ending.Reusable P) (node.result env) (node.result env) := by
  intro w v hwv
  rcases hw : node.result env c w with _ | ⟨ending, w'⟩
  · rcases hv : node.result env c v with _ | ⟨ending, v'⟩
    · exact .endless
    · obtain ⟨-, -, w', hw', -⟩ := H.result_of_alike hnode hwv.symm hv
      rw [hw] at hw'
      cases hw'
  · obtain ⟨hending, -, v', hv', hwv'⟩ := H.result_of_alike hnode hwv hw
    rw [hv']
    cases ending with
    | ok ending => exact .returned hwv' hending
    | error p => exact .raised hwv'

end ProgramRun

/-- To compare what follows on an effect is to compare it on the endings that it can have. -/
theorem Effect.sameAs_of_endings [M : Language D K σ] {Γ : Signature K} {P : Program K}
    {I : σ → Prop} {c : Callees D K σ} {env : Option (Value D K)} {R E A : Ty}
    {e : Effect D K R E A} (H : TypedRun M Γ I c R env) (HP : ProgramRun M P I c env)
    (he : e.Built Γ) (hm : e.Made P) {Q : β → Prop} {F G : Ending D K → Play D K σ β}
    (hvalue : ∀ v, v.Fits Γ A → v.Reusable P →
      Play.SameAs P I c Q (F (.success v)) (G (.success v)))
    (herror : ∀ x, x.Fits Γ E → x.Reusable P →
      Play.SameAs P I c Q (F (.failure (.fail x))) (G (.failure (.fail x))))
    (hdefect : ∀ d, Play.SameAs P I c Q (F (.failure (.die d))) (G (.failure (.die d)))) :
    Play.SameAs P I c Q (e.node.result env >>= F) (e.node.result env >>= G) := by
  have hending := (HP.result_sameAs hm.reusable).and_sound (H.result_sound he.typed)
  refine hending.bind fun ending ⟨hreusable, htyped⟩ => ?_
  cases ending with
  | success v => exact hvalue v htyped hreusable
  | failure cause =>
    cases htyped with
    | fail htype hx =>
      cases hreusable with
      | fail hx' => exact herror _ ⟨htype, hx⟩ hx'
    | die => exact hdefect _

end EffectMachine
