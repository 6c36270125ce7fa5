/-
  Two programs side by side.

  That two programs do the same is said of the worlds they are started in and of those they leave:
  started in worlds that one relation holds between, both come to the same, and leave worlds that
  another relation holds between, or both come to no end.  `Play.Matches` is this judgement.  It is
  put together along sequences: what two programs do first has to match up to whatever is needed
  for the rest, and no more than that.

  The second half is about evaluations.  `Runner.Same` compares two of them, each of a tree that is
  there or of one that a closure is called for first, and `Runner.same_of_matches` reduces the
  comparison to one of plays.  What may differ between the worlds at the end is said by
  `World.Indistinct`: the shared state is the same, with all the calls noted in it, and the same
  causes handed over are there to be taken.  Cells, reports and numbers of steps may differ.
-/
import EffectMachine.Proofs.Meaning
import EffectMachine.Proofs.TypedEffects
import EffectMachine.Proofs.Unwinding

namespace EffectMachine

variable {D K σ α β : Type}

/-! ## Plays that match -/

/-- Both came to the same, in worlds that `S` holds between, and what was returned is as `Q` says;
    or both came to no end. -/
inductive Matched (S : World σ → World σ → Prop) (Q : α → Prop) :
    Option (Raised D K α × World σ) → Option (Raised D K α × World σ) → Prop where
  | endless : Matched S Q none none
  | returned {a w v} (h : S w v) (ha : Q a) : Matched S Q (some (.ok a, w)) (some (.ok a, v))
  | raised {p w v} (h : S w v) : Matched S Q (some (.error p, w)) (some (.error p, v))

theorem Matched.exists_of_some {S : World σ → World σ → Prop} {Q : α → Prop} {a : Raised D K α}
    {w : World σ} {out : Option (Raised D K α × World σ)} (h : Matched S Q (some (a, w)) out) :
    ∃ v, out = some (a, v) ∧ S w v := by
  cases h with
  | returned h _ => exact ⟨_, rfl, h⟩
  | raised h => exact ⟨_, rfl, h⟩

theorem Play.map_apply (m : α → β) (x : Play D K σ α) (c : Callees D K σ) (w : World σ) :
    (m <$> x) c w = (x c w).map fun (a, w') => (a.map m, w') := by
  rw [map_eq_pure_bind, bind_apply]
  rcases x c w with _ | ⟨_ | a, w'⟩ <;> rfl

/-- Played in worlds that `R` holds between, both come to the same and leave worlds that `S` holds
    between. -/
def Play.Matches (c : Callees D K σ) (R S : World σ → World σ → Prop) (Q : α → Prop)
    (x y : Play D K σ α) : Prop :=
  ∀ ⦃w v⦄, R w v → Matched S Q (x c w) (y c v)

namespace Play.Matches

variable {c : Callees D K σ} {R R' S T : World σ → World σ → Prop} {P : α → Prop} {Q : β → Prop}
  {x y : Play D K σ α} {f g : α → Play D K σ β}

protected theorem pure (hRS : ∀ w v, R w v → S w v) {a : α} (ha : P a) :
    Matches c R S P (pure a) (pure a) :=
  fun w v h => .returned (hRS w v h) ha

/-- What is done first may leave worlds that are closer to each other than those at the end have
    to be. -/
protected theorem bind (hST : ∀ w v, S w v → T w v) (hx : Matches c R S P x y)
    (hf : ∀ a, P a → Matches c S T Q (f a) (g a)) : Matches c R T Q (x >>= f) (y >>= g) := by
  intro w v h
  have hxy := hx h
  rw [bind_apply, bind_apply]
  generalize x c w = out at hxy ⊢
  generalize y c v = out' at hxy ⊢
  cases hxy with
  | endless => exact .endless
  | returned h' ha => exact hf _ ha h'
  | raised h' => exact .raised (hST _ _ h')

/-- Less may be asked of the worlds in the end, and more in the beginning. -/
theorem weaken (h : Matches c R S P x y) (hRR' : ∀ w v, R' w v → R w v)
    (hST : ∀ w v, S w v → T w v) {P' : α → Prop} (hP : ∀ a, P a → P' a) :
    Matches c R' T P' x y := by
  intro w v hwv
  have hxy := h (hRR' w v hwv)
  generalize x c w = out at hxy ⊢
  generalize y c v = out' at hxy ⊢
  cases hxy with
  | endless => exact .endless
  | returned h' ha => exact .returned (hST _ _ h') (hP _ ha)
  | raised h' => exact .raised (hST _ _ h')

protected theorem map (h : Matches c R S P x y) (m : α → β) (hm : ∀ a, P a → Q (m a)) :
    Matches c R S Q (m <$> x) (m <$> y) := by
  rw [map_eq_pure_bind, map_eq_pure_bind]
  exact h.bind (fun _ _ hwv => hwv) fun a ha => .pure (fun _ _ hwv => hwv) (hm a ha)

theorem flip (h : Matches c R S P x y) : Matches c (flip R) (flip S) P y x := by
  intro v w hwv
  have hxy := h hwv
  generalize x c w = out at hxy ⊢
  generalize y c v = out' at hxy ⊢
  cases hxy with
  | endless => exact .endless
  | returned h' ha => exact .returned h' ha
  | raised h' => exact .raised h'

/-- Where the one comes to an end, so does the other, if they match as far as `m` shows. -/
theorem exists_of_map {m : α → β} (h : Matches c R S Q (m <$> x) (m <$> y)) {w v w' : World σ}
    {a : Raised D K α} (hwv : R w v) (hx : x c w = some (a, w')) :
    ∃ b v', y c v = some (b, v') ∧ a.map m = b.map m ∧ S w' v' := by
  have hboth := h hwv
  rw [map_apply, map_apply, hx] at hboth
  obtain ⟨v₁, hy, h'⟩ := hboth.exists_of_some
  obtain ⟨⟨b, v'⟩, hb, hsame⟩ := Option.map_eq_some_iff.mp hy
  obtain ⟨hab, rfl⟩ := Prod.ext_iff.mp hsame
  exact ⟨b, v', hb, hab.symm, h'⟩

/-- Cells that are made and taken make no difference if the relation does not look at them. -/
theorem spend_left {k : Nat} (hR : ∀ w v, R w v → R' (w.spent k) v) (h : Matches c R' S P x y) :
    Matches c R S P (Play.spend k >>= fun _ => x) y :=
  fun w v hwv => h (hR w v hwv)

theorem spend_right {k : Nat} (hR : ∀ w v, R w v → R' w (v.spent k)) (h : Matches c R' S P x y) :
    Matches c R S P x (Play.spend k >>= fun _ => y) :=
  fun w v hwv => h (hR w v hwv)

end Play.Matches

/-! ## Programs started in one world -/

/-- The relation does not look at what was reported. -/
def World.Untraced (S : World σ → World σ → Prop) : Prop :=
  ∀ ⦃w v w' v'⦄, w.Agree w' → v.Agree v' → S w v → S w' v'

theorem World.Untraced.flip {S : World σ → World σ → Prop} (h : World.Untraced S) :
    World.Untraced (flip S) := fun _ _ _ _ hw hv hS => h hv hw hS

/-- One world twice, in which the invariant holds. -/
def World.Identical (I : σ → Prop) (w v : World σ) : Prop := w = v ∧ I w.state

section Identical

variable {Γ : Signature K} {I : σ → Prop} {c : Callees D K σ}

/-- A play that is sound matches itself. -/
theorem Play.Sound.matches {Q : α → Prop} {x : Play D K σ α} (h : Play.Sound Γ I c Q x) :
    Play.Matches c (World.Identical I) (World.Identical I) Q x x := by
  rintro w _ ⟨rfl, hw⟩
  rcases hx : x c w with _ | ⟨p | a, w'⟩
  · exact .endless
  · exact .raised ⟨rfl, (h hw hx).2⟩
  · obtain ⟨ha, hw'⟩ := h hw hx
    exact .returned ⟨rfl, hw'⟩ ha

/-- Any play comes to what it comes to. -/
theorem Play.matches_self {S : World σ → World σ → Prop} (hS : ∀ w, S w w) (x : Play D K σ α) :
    Play.Matches c (World.Identical I) S (fun _ => True) x x := by
  rintro w _ ⟨rfl, -⟩
  rcases x c w with _ | ⟨p | a, w'⟩
  · exact .endless
  · exact .raised (hS w')
  · exact .returned (hS w') trivial

variable [L : Language D K σ] {R E A : Ty}

/-- Closures do as they are declared, runs and calls are as sound as that makes them, and what is
    bound is of the type that is read. -/
structure TypedRun (L : Language D K σ) (Γ : Signature K) (I : σ → Prop) (c : Callees D K σ)
    (R : Ty) (env : Option (Value D K)) : Prop where
  honours : L.Honours Γ I
  sound : c.Sound Γ I
  agree : Callees.Alike World.Agree c c
  supplied : Supplied Γ R env

/-- Runs and calls nested to any depth are sound if the closures do as they are declared to do. -/
theorem TypedRun.ofFuel (hL : L.Honours Γ I) (depth : Nat) {env : Option (Value D K)}
    (henv : Supplied Γ R env) : TypedRun L Γ I (Callees.ofFuel depth) R env :=
  ⟨hL, Callees.ofFuel_sound hL depth, Callees.ofFuel_agree depth, henv⟩

/-- What a typed node comes to is as it is typed. -/
theorem TypedRun.result_sound {env : Option (Value D K)} (H : TypedRun L Γ I c R env)
    {node : Node D K} (hnode : node.Typed Γ R E A) :
    Play.Sound Γ I c (Ending.Typed Γ E A) (node.result env) := by
  obtain ⟨hL, hc, hagree, henv⟩ := H
  -- a node that reads the unit type is evaluated on a fresh runner
  have hunit : ∀ {node : Node D K}, node.Typed Γ .unit E A →
      Play.Sound Γ I c (Ending.Typed Γ E A) (node.result none) := by
    intro node hnode w ending w' hw h
    obtain ⟨fuel, r', u, heval, hu⟩ :=
      (Runner.exists_evaluate_iff hagree Runner.fresh_framesFit).mpr ⟨w', h, .refl w'⟩
    obtain ⟨-, hending, hstate⟩ := Runner.evaluate_sound hL hc rfl hnode hw heval
    exact ⟨hending, hu.state ▸ hstate⟩
  cases henv with
  | none => exact hunit hnode
  | @some _ bound hbound =>
    have htyped : (Node.provide (.shared bound) node).Typed Γ .unit E A :=
      .provide (.shared_of_fits hbound) hnode
    have hprovide := hunit htyped
    rwa [Node.result_provide_shared] at hprovide

end Identical

/-! ## Steps of the library on what is typed -/

section Steps

variable [M : Language D K σ] {Γ : Signature K} {E A : Ty}

/-- The check of a value that fits changes nothing. -/
theorem Link.followTyped_of_fits {link : Link D K} {v : Value D K} (h : v.Fits Γ A) :
    (link.followTyped A v : Play D K σ _) = link.follow v := by
  simp only [Link.followTyped, h.cast?]

/-- Given a typed failure the handler follows its link. -/
theorem Handler.onFailure_fail {link : Link D K} {x : Value D K} (h : x.Fits Γ E) :
    ((Handler.onFailure E link).resume (.fail x) : Play D K σ _) = link.follow x := by
  simp only [Handler.resume, (Cause.Typed.ofFail h).typed_eq]

theorem Handler.onFailure_die {link : Link D K} {d : Defect (Value D K)} :
    ((Handler.onFailure E link).resume (.die d) : Play D K σ _) = Node.haltOnce (.die d) := rfl

/-- A typed cause is handed to the closure as it is. -/
theorem Handler.onCause_resume {f : K} {c : Cause (Value D K)} (h : c.Typed Γ E) :
    ((Handler.onCause E f).resume c : Play D K σ _) = Play.act (M.handler f c) := by
  simp only [Handler.resume, h.typed_eq]

end Steps

/-! ## Evaluations that come to the same -/

namespace Runner

variable [Language D K σ]

/-- How an evaluation ends on a runner: the act returns a node and that is evaluated, or the act
    raises. -/
inductive Evaluates (callees : Callees D K σ) (r : Runner D K) (start : Act D K σ (Node D K))
    (w : World σ) : Raised D K (Ending D K) → World σ → Prop where
  | raised {p w'} (h : start.exec callees w = some (.error p, w')) :
      Evaluates callees r start w (.error p) w'
  | ended {node w₁ fuel ending r' w'} (hstart : start.exec callees w = some (.ok node, w₁))
      (h : r.evaluate callees fuel node w₁ = some (ending, r', w')) :
      Evaluates callees r start w ending w'

/-- Where the first evaluation ends, so does the second one: in the same as far as `view` shows, and
    in a world that `S` holds between. -/
def EndsLike (view : Ending D K → Ending D K) (S : World σ → World σ → Prop)
    (callees : Callees D K σ) (r : Runner D K) (start : Act D K σ (Node D K)) (r' : Runner D K)
    (start' : Act D K σ (Node D K)) (w : World σ) : Prop :=
  ∀ ending w', Evaluates callees r start w ending w' → ∃ ending' v',
    Evaluates callees r' start' w ending' v' ∧ ending.map view = ending'.map view ∧ S w' v'

/-- Both evaluations end in the same as far as `view` shows, or neither ends. -/
structure SameUpTo (view : Ending D K → Ending D K) (S : World σ → World σ → Prop)
    (callees : Callees D K σ) (r : Runner D K) (start : Act D K σ (Node D K)) (r' : Runner D K)
    (start' : Act D K σ (Node D K)) (w : World σ) : Prop where
  left : EndsLike view S callees r start r' start' w
  right : EndsLike view (flip S) callees r' start' r start w

/-- Both evaluations end in the same, or neither ends: in the same value, in the same failure, in
    the same defect with the same name kept with it, or in the same payload raised. -/
abbrev Same (S : World σ → World σ → Prop) (callees : Callees D K σ) (r : Runner D K)
    (start : Act D K σ (Node D K)) (r' : Runner D K) (start' : Act D K σ (Node D K))
    (w : World σ) : Prop :=
  SameUpTo id S callees r start r' start' w

section Comparing

variable {callees : Callees D K σ} {r r' : Runner D K} {start start' : Act D K σ (Node D K)}
  {w : World σ}

/-- What the act and the node it returns come to. -/
noncomputable def meaning (r : Runner D K) (start : Act D K σ (Node D K)) :
    Play D K σ (Ending D K) :=
  Play.act start >>= Node.result r.environments.back?

/-- An evaluation ends as its meaning says, but for what was reported. -/
theorem exists_evaluates_iff (hagree : Callees.Alike World.Agree callees callees)
    (hfit : r.settings.framesFit = true) {ending : Raised D K (Ending D K)} {u : World σ} :
    (∃ w', Evaluates callees r start w ending w' ∧ w'.Agree u) ↔
      ∃ v', r.meaning start callees w = some (ending, v') ∧ v'.Agree u := by
  rw [meaning, Play.bind_apply]
  constructor
  · rintro ⟨w', ⟨h⟩ | ⟨hstart, heval⟩, hu⟩
    · rw [show Play.act start callees w = _ from h]
      exact ⟨w', rfl, hu⟩
    · rw [show Play.act start callees w = _ from hstart]
      exact (exists_evaluate_iff hagree hfit).mp ⟨_, _, w', heval, hu⟩
  · rintro ⟨v', h, hu⟩
    rcases hstart : Play.act start callees w with _ | ⟨p | node, w₁⟩
    · rw [hstart] at h; cases h
    · rw [hstart] at h
      cases h
      exact ⟨v', .raised hstart, hu⟩
    · rw [hstart] at h
      obtain ⟨fuel, r'', w', heval, hu'⟩ := (exists_evaluate_iff hagree hfit).mpr ⟨v', h, hu⟩
      exact ⟨w', .ended hstart heval, hu'⟩

/-- What the evaluations mean is compared, and so what they come to, one of which may report more.
    -/
theorem endsLike_of_matches (hagree : Callees.Alike World.Agree callees callees)
    (hfit : r.settings.framesFit = true) (hfit' : r'.settings.framesFit = true)
    {view : Ending D K → Ending D K} {R S : World σ → World σ → Prop} {Q : Ending D K → Prop}
    (hS : World.Untraced S)
    (h : Play.Matches callees R S Q (view <$> r.meaning start) (view <$> r'.meaning start'))
    (hw : R w w) : EndsLike view S callees r start r' start' w := by
  intro ending w' hends
  obtain ⟨u, hu, huw⟩ := (exists_evaluates_iff hagree hfit).mp ⟨w', hends, .refl w'⟩
  obtain ⟨ending', v, hv, heq, huv⟩ := h.exists_of_map hw hu
  obtain ⟨v', hends', hvv⟩ := (exists_evaluates_iff hagree hfit').mpr ⟨v, hv, .refl v⟩
  exact ⟨ending', v', hends', heq, hS huw hvv.symm huv⟩

/-- Evaluations come to the same if what they mean does. -/
theorem sameUpTo_of_matches (hagree : Callees.Alike World.Agree callees callees)
    (hfit : r.settings.framesFit = true) (hfit' : r'.settings.framesFit = true)
    {view : Ending D K → Ending D K} {R S : World σ → World σ → Prop} {Q : Ending D K → Prop}
    (hS : World.Untraced S)
    (h : Play.Matches callees R S Q (view <$> r.meaning start) (view <$> r'.meaning start'))
    (hw : R w w) : SameUpTo view S callees r start r' start' w where
  left := endsLike_of_matches hagree hfit hfit' hS h hw
  right := endsLike_of_matches hagree hfit' hfit hS.flip h.flip hw

/-- The same where all of the endings is looked at. -/
theorem same_of_matches (hagree : Callees.Alike World.Agree callees callees)
    (hfit : r.settings.framesFit = true) (hfit' : r'.settings.framesFit = true)
    {R S : World σ → World σ → Prop} {Q : Ending D K → Prop} (hS : World.Untraced S)
    (h : Play.Matches callees R S Q (r.meaning start) (r'.meaning start')) (hw : R w w) :
    Same S callees r start r' start' w := by
  refine sameUpTo_of_matches (Q := Q) hagree hfit hfit' hS ?_ hw
  rwa [id_map, id_map]

end Comparing

end Runner

/-! ## What there is to see of a world -/

/-- No closure can tell the worlds apart: the shared state is the same, and the same calls have been
    noted in it; and the same causes handed over are there to be taken. -/
structure World.Indistinct (w v : World (Noted D K σ)) : Prop where
  state : w.state.state = v.state.state
  calls : w.calls = v.calls
  halts (n : Nat) : w.halts[n]? = some false ↔ v.halts[n]? = some false

namespace World.Indistinct

variable {w v : World (Noted D K σ)}

protected theorem refl (w : World (Noted D K σ)) : w.Indistinct w := ⟨rfl, rfl, fun _ => .rfl⟩

theorem untraced : World.Untraced (@World.Indistinct D K σ) := by
  intro w v w' v' hw hv h
  refine ⟨?_, ?_, ?_⟩
  · rw [← hw.state, ← hv.state, h.state]
  · show w'.state.calls = v'.state.calls
    rw [← hw.state, ← hv.state]
    exact h.calls
  · rw [← hw.halts, ← hv.halts]
    exact h.halts

theorem spent_left (h : w.Indistinct v) (k : Nat) : (w.spent k).Indistinct v :=
  ⟨h.state, h.calls, h.halts⟩

theorem spent_right (h : w.Indistinct v) (k : Nat) : w.Indistinct (v.spent k) :=
  ⟨h.state, h.calls, h.halts⟩

end World.Indistinct

end EffectMachine
