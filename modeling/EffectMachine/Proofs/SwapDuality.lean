/-
  The two channels as duals of each other.

  Successes and typed failures are handled by different nodes: a link behind an effect sees the one,
  a handler around it the other, and `mapError` has a node of its own.  `swap` says that for all
  this the channels behave alike.  What is done about failures is what is done about successes of
  the swapped effect, swapped back; and the other way round.

  On endings `swap` is a function, `Ending.swapped`, which undoes itself and leaves defects alone.  It
  passes through whatever goes on with an outcome (`Ending.onOutcome_swapped`): to go on from the
  swapped ending with everything swapped is to go on as before and to swap what that ends in.  Each
  law is this equation for what the combinator in it goes on with.
-/
import EffectMachine.Proofs.EitherLaws
import EffectMachine.Proofs.MonadLaws

namespace EffectMachine

variable {D K σ : Type} {R E E' A B : Ty}

/-! ## Endings swapped -/

namespace Ending

/-- A value for an error and an error for a value.  A defect stays. -/
def swapped : Ending D K → Ending D K
  | .success v => .failure (.fail v)
  | .failure (.fail x) => .success x
  | .failure (.die d) => .failure (.die d)

theorem swapped_swapped (ending : Ending D K) : ending.swapped.swapped = ending := by
  rcases ending with (x | d) | v <;> rfl

/-- The ending is of the types declared, and can be handed over any number of times. -/
structure Proper (Γ : Signature K) (P : Program K) (E A : Ty) (ending : Ending D K) : Prop where
  typed : Typed Γ E A ending
  reusable : ending.Reusable P

/-- A failure is typed by its error, which is a value of the other channel. -/
theorem Proper.swapped {Γ : Signature K} {P : Program K} {ending : Ending D K}
    (h : ending.Proper Γ P E A) : ending.swapped.Proper Γ P A E := by
  obtain ⟨htyped, hreusable⟩ := h
  rcases ending with (x | d) | v
  · cases htyped with
    | fail htype hx =>
      cases hreusable with
      | fail hx' => exact ⟨⟨htype, hx⟩, hx'⟩
  · cases htyped with
    | die hd => exact ⟨.die hd, hreusable⟩
  · exact ⟨.ofFail htyped, .fail hreusable⟩

/-- To go on from the swapped ending with everything swapped is to swap what it would end in. -/
theorem onOutcome_swapped (next : Outcome (Value D K) (Value D K) → Play D K σ (Ending D K))
    (ending : Ending D K) :
    onOutcome (fun o => Ending.swapped <$> next o.swap) ending.swapped =
      Ending.swapped <$> onOutcome next ending := by
  rcases ending with (x | d) | v <;> rfl

/-- To go on from the swapped ending with the outcome swapped back is to go on from the ending. -/
theorem swapped_onOutcome (next : Outcome (Value D K) (Value D K) → Play D K σ (Ending D K))
    (ending : Ending D K) :
    onOutcome (fun o => next o.swap) ending.swapped = onOutcome next ending := by
  rcases ending with (x | d) | v <;> rfl

/-- To go on with nothing but the outcome is to do nothing. -/
theorem onOutcome_pure :
    onOutcome (fun o => pure (ofOutcome o)) = (pure : Ending D K → Play D K σ (Ending D K)) := by
  funext ending
  rcases ending with (x | d) | v <;> rfl

end Ending

/-! ## What is done on either side of `swap` -/

section Combinators

variable [M : Language D K σ] {Γ : Signature K} {P : Program K} {I : σ → Prop}
  {c : Callees D K σ} {env : Option (Value D K)} {e : Effect D K R E A}

omit M in
/-- Two plays come to the same, whatever is known of what they return. -/
theorem Play.SameAs.equal {Q : Ending D K → Prop} {x y : Play D K σ (Ending D K)}
    (h : Play.SameAs P I c Q x y) : Play.Equal P I c x y :=
  h.weaken (fun _ _ h => h) (fun _ _ h => h) fun _ _ => trivial

/-- What an effect swapped comes to is what the effect comes to, swapped. -/
theorem swap_swaps {x : Effect D K R E A} {play : Play D K σ (Ending D K)}
    (hx : Play.SameAs P I c (Ending.Proper Γ P E A) (x.node.result env) play) :
    Play.SameAs P I c (Ending.Proper Γ P A E) (x.swap.node.result env)
      (Ending.swapped <$> play) := by
  rw [Effect.swap, Effect.folded_result, map_eq_pure_bind]
  refine hx.bind fun ending hending => ?_
  have hswapped := hending.swapped
  rcases ending with (x | d) | v
  · cases hending.typed with
    | fail htype hx =>
      simp only [Handler.onFailure_fail ⟨htype, hx⟩, Link.follow, Node.succeedOnce_result]
      exact .spend_left 1 (.pure hswapped)
  · simp only [Handler.onFailure_die, Node.haltOnce_result]
    exact .spend_left 1 (.pure hswapped)
  · have hv : v.Fits Γ A := hending.typed
    simp only [Link.followTyped_of_fits hv, Link.follow, Node.haltOnce_result]
    exact .spend_left 1 (.pure hswapped)

variable (H : TypedRun M Γ I c R env) (HP : ProgramRun M P I c env)

include H HP

/-- What a typed node of the program ends in is proper. -/
theorem Node.result_proper {node : Node D K} (hnode : node.Typed Γ R E A)
    (hreusable : node.Reusable P) :
    Play.SameAs P I c (Ending.Proper Γ P E A) (node.result env) (node.result env) :=
  ((HP.result_sameAs hreusable).and_sound (H.result_sound hnode)).weaken (fun _ _ h => h)
    (fun _ _ h => h) fun _ ⟨hending, htyped⟩ => ⟨htyped, hending⟩

/-- To go on from a swapped effect is to go on from its ending, swapped. -/
theorem swap_then (he : e.Built Γ) (hm : e.Made P) {F : Ending D K → Play D K σ (Ending D K)}
    {next : Outcome (Value D K) (Value D K) → Play D K σ (Ending D K)}
    (hvalue : ∀ x, x.Fits Γ E → x.Reusable P →
      Play.Equal P I c (F (.success x)) (next (.success x)))
    (herror : ∀ v, v.Fits Γ A → v.Reusable P →
      Play.Equal P I c (F (.failure (.fail v))) (next (.failure v)))
    (hdefect : ∀ d, Play.Equal P I c (F (.failure (.die d))) (pure (.failure (.die d)))) :
    Play.Equal P I c (e.swap.node.result env >>= F)
      (e.node.result env >>= fun ending => ending.swapped.onOutcome next) := by
  have hswap := swap_swaps (Node.result_proper H HP he.typed hm.reusable)
  have hboth : Play.Equal P I c (e.swap.node.result env >>= F)
      (Ending.swapped <$> e.node.result env >>= Ending.onOutcome next) := by
    refine hswap.bind fun ending hending => ?_
    obtain ⟨htyped, hreusable⟩ := hending
    rcases ending with (v | d) | x
    · cases htyped with
      | fail htype hv =>
        cases hreusable with
        | fail hv' => exact herror v ⟨htype, hv⟩ hv'
    · exact hdefect d
    · exact hvalue x htyped hreusable
  rwa [bind_map_left] at hboth

/-- What comes to the same as an effect with its ending swapped, comes to the same as the effect
    when it is swapped itself. -/
theorem swap_back {E' B : Ty} {x : Effect D K R B E'} {y : Effect D K R E' B} (hy : y.Built Γ)
    (hm : y.Made P)
    (h : Play.Equal P I c (x.node.result env) (Ending.swapped <$> y.node.result env)) :
    Play.Equal P I c (y.node.result env) (x.swap.node.result env) := by
  have hself := Node.result_proper H HP hy.typed hm.reusable
  have hswapped : Play.SameAs P I c (Ending.Proper Γ P B E') (Ending.swapped <$> y.node.result env)
      (Ending.swapped <$> y.node.result env) := hself.map Ending.swapped fun _ h => h.swapped
  have hback := swap_swaps (h.of_right hswapped)
  simp only [Functor.map_map, Ending.swapped_swapped, id_map'] at hback
  exact Play.SameAs.symm hback.equal

/-- A closure that swaps the effects of another one does as that does, with the ending swapped. -/
theorem wraps_swap {E' B T : Ty} {f h : K} (hf : P.closures f) (hdeclared : Γ.effect f [T] R E' B)
    (hh : M.Wraps f h (Effect.swap : Effect D K R E' B → Effect D K R B E')) {v : Value D K}
    (hv : v.Fits Γ T) (hv' : v.Reusable P) :
    Play.Equal P I c (Play.act (M.effect h [v]) >>= Node.result env)
      (Ending.swapped <$> (Play.act (M.effect f [v]) >>= Node.result env)) := by
  rw [hh.result v, map_bind]
  have hact := (HP.act (HP.within.effect hf (.singleton hv'))).and_sound
    (Play.Sound.act H.sound (H.honours.effect hdeclared (.singleton hv)))
  refine hact.bind fun node ⟨hreusable, htyped⟩ => ?_
  exact (swap_swaps (Node.result_proper H HP htyped hreusable)).equal

/-! ## The laws -/

/-- To swap an effect twice is to swap its ending twice. -/
theorem swap_swap_dual (he : e.Built Γ) (hm : e.Made P) :
    Play.Equal P I c (e.node.result env) (e.swap.swap.node.result env) :=
  swap_back H HP he hm (swap_swaps (Node.result_proper H HP he.typed hm.reusable)).equal

/-- `recover` goes on from a typed failure, by the effect that the closure makes, and keeps a value.
    -/
theorem recover_acts (he : e.Built Γ) (hm : e.Made P) {f : K} (hf : P.closures f) :
    Play.Equal P I c ((e.recover f : Effect D K R E' A).node.result env)
      (e.node.result env >>= Ending.onOutcome fun o =>
        o.foldM (fun x => Play.act (M.effect f [x]) >>= Node.result env)
          fun v => pure (.success v)) :=
  e.folded_acts H HP he hm (fun v _ _ => .succeeded v) fun _ _ hx => HP.effect_acts hf hx

/-- `andThen` goes on from a value and keeps a typed failure. -/
theorem followed_acts (he : e.Built Γ) (hm : e.Made P) {f : K} (hf : P.closures f) :
    Play.Equal P I c ((e.andThen f : Effect D K R E B).node.result env)
      (e.node.result env >>= Ending.onOutcome fun o =>
        o.foldM (fun x => pure (.failure (.fail x)))
          fun v => Play.act (M.effect f [v]) >>= Node.result env) :=
  e.linked_acts H HP he hm (fun _ _ hv => HP.effect_acts hf hv) fun _ => rfl

/-- Two effects are duals if one goes on with the outcome of a third, and the other with that
    outcome swapped and so that what comes of it is swapped. -/
theorem dual_of_acts {E' B : Ty} {x : Effect D K R B E'} {y : Effect D K R E' B} (hy : y.Built Γ)
    (hm : y.Made P) {next : Outcome (Value D K) (Value D K) → Play D K σ (Ending D K)}
    (hacts : Play.Equal P I c (y.node.result env) (e.node.result env >>= Ending.onOutcome next))
    (hswapped : Play.Equal P I c (x.node.result env) (e.node.result env >>= fun ending =>
      ending.swapped.onOutcome fun o => Ending.swapped <$> next o.swap)) :
    Play.Equal P I c (y.node.result env) (x.swap.node.result env) := by
  refine swap_back H HP hy hm (hswapped.trans ?_)
  simp only [Ending.onOutcome_swapped]
  rw [← map_bind]
  exact Play.Matches.map hacts.symm _ fun _ _ => trivial

/-- To recover is to go on from the swapped effect. -/
theorem recover_dual (he : e.Built Γ) (hm : e.Made P) {f h : K} (hf : P.closures f)
    (hdeclared : Γ.effect f [E] R E' A)
    (hh : M.Wraps f h (Effect.swap : Effect D K R E' A → Effect D K R A E')) :
    Play.Equal P I c ((e.recover f : Effect D K R E' A).node.result env)
      ((e.swap.andThen h : Effect D K R A E').swap.node.result env) := by
  refine dual_of_acts H HP (he.recover hdeclared) (hm.recover hf) (recover_acts H HP he hm hf) ?_
  rw [Effect.andThen, Effect.linked_result]
  refine swap_then H HP he hm (fun x hx hx' => ?_) (fun v _ _ => .pure trivial)
    fun d => .pure trivial
  simp only [Link.followTyped_of_fits hx]
  exact wraps_swap H HP hf hdeclared hh hx hx'

/-- To go on from an effect is to recover from the swapped one. -/
theorem andThen_dual (he : e.Built Γ) (hm : e.Made P) {f h : K} (hf : P.closures f)
    (hdeclared : Γ.effect f [A] R E B)
    (hh : M.Wraps f h (Effect.swap : Effect D K R E B → Effect D K R B E)) :
    Play.Equal P I c ((e.andThen f : Effect D K R E B).node.result env)
      ((e.swap.recover h : Effect D K R B E).swap.node.result env) := by
  refine dual_of_acts H HP (he.andThen hdeclared) (hm.andThen hf) (followed_acts H HP he hm hf) ?_
  rw [Effect.recover, Effect.folded_result]
  refine swap_then H HP he hm (fun x hx _ => ?_) (fun v hv hv' => ?_) fun d => .halted _
  · simp only [Link.followTyped_of_fits hx]
    exact .succeeded x
  · simp only [Handler.onFailure_fail hv]
    exact wraps_swap H HP hf hdeclared hh hv hv'

/-- To transform the error is to transform the value of the swapped effect. -/
theorem mapError_dual (he : e.Built Γ) (hm : e.Made P) {f : K} (hf : P.closures f)
    (hdeclared : Γ.value f [E] E') :
    Play.Equal P I c ((e.mapError f : Effect D K R E' A).node.result env)
      ((e.swap.map f : Effect D K R A E').swap.node.result env) := by
  refine dual_of_acts H HP (he.mapError hdeclared) (hm.mapError hf) (mapError_acts H HP he hm hf) ?_
  rw [Effect.map, Effect.linked_result]
  refine swap_then H HP he hm (fun x hx hx' => ?_) (fun v _ _ => .pure trivial)
    fun d => .pure trivial
  simp only [Link.followTyped_of_fits hx, Outcome.swap, Outcome.mapFailureM, Play.act_map,
    Functor.map_map]
  exact HP.value_acts hf (.singleton hx')

/-- Handlers for both sides change places. -/
theorem foldM_dual (he : e.Built Γ) (hm : e.Made P) {f g : K} (hf : P.closures f)
    (hg : P.closures g) :
    Play.Equal P I c ((e.foldM f g : Effect D K R E' B).node.result env)
      ((e.swap.foldM g f : Effect D K R E' B).node.result env) := by
  let next (o : Outcome (Value D K) (Value D K)) : Play D K σ (Ending D K) :=
    Play.act (o.foldM (fun x => M.effect f [x]) fun v => M.effect g [v]) >>= Node.result env
  have hleft : Play.Equal P I c ((e.foldM f g : Effect D K R E' B).node.result env)
      (e.node.result env >>= fun ending => ending.swapped.onOutcome fun o => next o.swap) := by
    simp only [Ending.swapped_onOutcome]
    exact foldM_acts H HP he hm hf hg
  refine hleft.trans (Play.SameAs.symm ?_)
  rw [Effect.foldM, Effect.folded_result]
  refine swap_then H HP he hm (fun x hx hx' => ?_) (fun v hv hv' => ?_) fun d => .halted _
  · simp only [Link.followTyped_of_fits hx]
    exact HP.effect_acts hf hx'
  · simp only [Handler.onFailure_fail hv]
    exact HP.effect_acts hg hv'

end Combinators

/-! ## The laws, of what the machine does -/

section WithoutRoom

variable [Language D K σ] {c : Callees D K σ} {r : Runner D K} {node node' : Node D K}
  {w w' : World σ}

/-- Where there is no room for the frames an evaluation raises that, and does nothing else. -/
theorem Runner.Evaluates.without_room (hfit : r.settings.framesFit = false)
    {ending : Raised D K (Ending D K)} (h : r.Evaluates c (pure node) w ending w') :
    ending = .error overflow ∧ w'.Agree w := by
  cases h with
  | raised h => cases h
  | ended hstart heval =>
    cases hstart
    exact evaluate_without_room hfit heval

/-- There any two evaluations come to the same. -/
theorem Runner.same_without_room (hfit : r.settings.framesFit = false) {P : Program K}
    {I : σ → Prop} (hw : I w.state) :
    r.Same (World.Alike P I) c (pure node) r (pure node') w := by
  have hlike : ∀ {node node' : Node D K} {S : World σ → World σ → Prop},
      (∀ {w' v'}, w'.Agree w → v'.Agree w → S w' v') →
      r.EndsLike id S c (pure node) r (pure node') w := by
    intro node node' S hS ending w' hends
    obtain ⟨rfl, hw'⟩ := hends.without_room hfit
    have heval : r.evaluate c 0 node' w = some (.error overflow, r, (r.opened w).report .exit) :=
      evaluate_eq_overflow hfit
    exact ⟨_, _, .ended rfl heval, rfl, hS hw' ⟨rfl, rfl, rfl⟩⟩
  have halike : ∀ {w' v' : World σ}, w'.Agree w → v'.Agree w → w'.Alike P I v' :=
    fun hw' hv' => .of_agree (hw'.trans hv'.symm) (hw'.state ▸ hw)
  exact ⟨hlike halike, hlike fun hw' hv' => halike hv' hw'⟩

end WithoutRoom

/-- A defect that an effect ends in passes through all that goes on with an outcome of it. -/
theorem Effect.passes_defects [M : Language D K σ] {P : Program K} {I : σ → Prop}
    {c : Callees D K σ} {r : Runner D K} (HP : ProgramRun M P I c r.environments.back?)
    (hfit : r.settings.framesFit = true) {e : Effect D K R E A} {node : Node D K}
    {next : Outcome (Value D K) (Value D K) → Play D K σ (Ending D K)}
    (hacts : Play.Equal P I c (node.result r.environments.back?)
      (e.node.result r.environments.back? >>= Ending.onOutcome next))
    {w w' : World σ} (hw : I w.state) {d : Defect (Value D K)}
    (h : r.Evaluates c (pure e.node) w (.ok (.failure (.die d))) w') :
    ∃ v', r.Evaluates c (pure node) w (.ok (.failure (.die d))) v' ∧ w'.Alike P I v' := by
  obtain ⟨u, hplay, hu⟩ := (Runner.exists_evaluates_iff HP.agree hfit).mp ⟨w', h, .refl w'⟩
  have hboth : (e.node.result r.environments.back? >>= Ending.onOutcome next) c w =
      some (.ok (.failure (.die d)), u) := by
    rw [Play.bind_apply, show e.node.result r.environments.back? c w = _ from hplay]
    rfl
  obtain ⟨⟨v, hnode, hv⟩, -⟩ :=
    Play.SameAs.exists_eq_some (Play.SameAs.symm hacts) (World.Alike.refl hw) hboth
  have hmeaning : r.meaning (pure node) c w = some (.ok (.failure (.die d)), v) := hnode
  obtain ⟨v', hends, hv'⟩ := (Runner.exists_evaluates_iff HP.agree hfit).mpr ⟨v, hmeaning, .refl v⟩
  exact ⟨v', hends, World.Alike.untraced hu hv'.symm hv⟩

/-- `swap` makes the two channels dual.

    Take closures that do as they are declared and stay within a program, any runner with whatever
    environments are bound, and an effect the program has made.  To swap it twice is to do nothing.
    To recover from its failures is to go on from the successes of the swapped effect by the closure
    that swaps what the other one makes, and to swap the whole; and in the same way one goes on from
    its successes by recovering, transforms its error by transforming a value, and handles both of
    its sides by the handlers in the places of each other.

    Each time the two effects are the same: from any world either ends if the other one does, and
    both end in the same value, in the same failure, in the same defect with the same name kept with
    it, or in the same payload raised, be it by the effect or by a closure; and they leave the same
    shared state, with the same calls noted in it in the same order.  Defects are on neither side:
    one that the effect ends in is what both end in, in the state the effect leaves. -/
theorem Effect.swap_dual (M : Language D K (Noted D K σ)) {Γ : Signature K} {P : Program K}
    {I : Noted D K σ → Prop} (hM : M.Honours Γ I) (hP : M.Within P I) (depth : Nat)
    {r : Runner D K} {R : Ty} (henv : Supplied Γ R r.environments.back?)
    (hbound : ∀ v, r.environments.back? = some v → v.Reusable P) {w : World (Noted D K σ)}
    (hw : I w.state) {E A : Ty} {e : Effect D K R E A} (he : e.Built Γ) (hm : e.Made P) :
    letI := M
    let callees : Callees D K (Noted D K σ) := Callees.ofFuel depth
    let PassesDefects {E A : Ty} (x : Effect D K R E A) : Prop := ∀ d w',
      r.Evaluates callees (pure e.node) w (.ok (.failure (.die d))) w' →
        ∃ v', r.Evaluates callees (pure x.node) w (.ok (.failure (.die d))) v' ∧ w'.Alike P I v'
    let Dual {E A : Ty} (x y : Effect D K R E A) : Prop :=
      r.Same (World.Alike P I) callees (pure x.node) r (pure y.node) w ∧
        PassesDefects x ∧ PassesDefects y
    Dual e e.swap.swap ∧
    (∀ (E' : Ty) (f h : K), P.closures f → Γ.effect f [E] R E' A →
      M.Wraps f h (Effect.swap : Effect D K R E' A → Effect D K R A E') →
        Dual (e.recover f : Effect D K R E' A) (e.swap.andThen h : Effect D K R A E').swap) ∧
    (∀ (B : Ty) (f h : K), P.closures f → Γ.effect f [A] R E B →
      M.Wraps f h (Effect.swap : Effect D K R E B → Effect D K R B E) →
        Dual (e.andThen f : Effect D K R E B) (e.swap.recover h : Effect D K R B E).swap) ∧
    (∀ (E' : Ty) (f : K), P.closures f → Γ.value f [E] E' →
      Dual (e.mapError f : Effect D K R E' A) (e.swap.map f : Effect D K R A E').swap) ∧
    (∀ (E' B : Ty) (f g : K), P.closures f → P.closures g →
      Dual (e.foldM f g : Effect D K R E' B) (e.swap.foldM g f)) := by
  let _ := M
  intro callees PassesDefects Dual
  have H : TypedRun M Γ I callees R r.environments.back? := .ofFuel hM depth henv
  have HP : ProgramRun M P I callees r.environments.back? := .ofFuel hP depth hbound
  have hdual : ∀ {E A : Ty} {x y : Effect D K R E A}
      {next : Outcome (Value D K) (Value D K) → Play D K (Noted D K σ) (Ending D K)},
      Play.Equal P I callees (x.node.result r.environments.back?)
        (e.node.result r.environments.back? >>= Ending.onOutcome next) →
      Play.Equal P I callees (x.node.result r.environments.back?)
        (y.node.result r.environments.back?) → Dual x y := by
    intro E A x y next hacts hsame
    cases hfit : r.settings.framesFit with
    | false =>
      have hpasses : ∀ {E A : Ty} (x : Effect D K R E A), PassesDefects x := by
        intro E A x d w' hends
        obtain ⟨hdefect, -⟩ := hends.without_room hfit
        cases hdefect
      exact ⟨Runner.same_without_room hfit hw, hpasses x, hpasses y⟩
    | true =>
      exact ⟨HP.same_of_equal hfit hw hsame, fun d w' => passes_defects HP hfit hacts hw,
        fun d w' => passes_defects HP hfit (Play.SameAs.trans hsame.symm hacts) hw⟩
  refine ⟨?_, ?_, ?_, ?_, ?_⟩
  · have hself : Play.Equal P I callees (e.node.result r.environments.back?)
        (e.node.result r.environments.back? >>= Ending.onOutcome fun o =>
          pure (Ending.ofOutcome o)) := by
      rw [Ending.onOutcome_pure, bind_pure]
      exact (Node.result_proper H HP he.typed hm.reusable).equal
    exact hdual hself (swap_swap_dual H HP he hm)
  · intro E' f h hf hdeclared hh
    exact hdual (recover_acts H HP he hm hf) (recover_dual H HP he hm hf hdeclared hh)
  · intro B f h hf hdeclared hh
    exact hdual (followed_acts H HP he hm hf) (andThen_dual H HP he hm hf hdeclared hh)
  · intro E' f hf hdeclared
    exact hdual (mapError_acts H HP he hm hf) (mapError_dual H HP he hm hf hdeclared)
  · intro E' B f g hf hg
    exact hdual (foldM_acts H HP he hm hf hg) (foldM_dual H HP he hm hf hg)

/-! ### A language of mirrors -/

/-- Closures that end in a word, and closures that swap the effects of others. -/
inductive Mirror where
  /-- Succeeds with its word. -/
  | tells (word : String)
  /-- Fails with its word. -/
  | loses (word : String)
  | swaps (f : Mirror)

namespace Mirror

/-- Effects that fail and succeed with texts. -/
abbrev Mirrored : Type := Effect Unit Mirror .unit .text .text

/-- What closures of this language do, with the words noted. -/
abbrev Noting (α : Type) : Type := Act Unit Mirror (Noted Unit Mirror Unit) α

/-- The closure has a word of its own. -/
def HasWord (f : Mirror) : Prop := ∃ word, f = tells word ∨ f = loses word

def value : Mirror → List (Value Unit Mirror) → Noting (Value Unit Mirror)
  | tells word, args => .noted (.value (tells word) args) (pure (.text word))
  | loses word, args => .noted (.value (loses word) args) (pure (.text word))
  | swaps _, _ => pure .unit

def effect : Mirror → List (Value Unit Mirror) → Noting (Node Unit Mirror)
  | tells word, args =>
    .noted (.effect (tells word) args) (pure (Effect.succeed (.text word) : Mirrored).node)
  | loses word, args =>
    .noted (.effect (loses word) args) (pure (Effect.fail (.text word) : Mirrored).node)
  | swaps f, args => (fun node => (⟨node⟩ : Mirrored).swap.node) <$> f.effect args

end Mirror

@[reducible]
def Language.mirrors : Language Unit Mirror (Noted Unit Mirror Unit) where
  value := Mirror.value
  test _ _ := pure true
  outcome _ v := pure (.success v)
  effect := Mirror.effect
  handler _ _ := pure (.succeed (.shared .unit))
  cause _ := pure (.fail .unit)

/-- Closures with a word are declared to make texts, and effects between texts. -/
def Signature.mirrors : Signature Mirror where
  value f _ A := A = .text ∧ f.HasWord
  test _ _ := False
  outcome _ _ _ _ := False
  effect f _ _ E A := E = .text ∧ A = .text ∧ f.HasWord
  handler _ _ _ _ _ := False
  cause _ _ := False
  fault _ := False

/-- The program of the closures with a word. -/
def Program.mirrors : Program Mirror := ⟨Mirror.HasWord, False⟩

theorem Language.mirrors_honours : Language.mirrors.Honours Signature.mirrors fun _ => True where
  value h _ := by
    obtain ⟨rfl, word, rfl | rfl⟩ := h <;> exact fun _ _ => ⟨trivial, rfl, .text⟩
  test h _ := h.elim
  outcome h _ := h.elim
  effect h _ := by
    obtain ⟨rfl, rfl, word, rfl | rfl⟩ := h
    · exact fun _ _ => ⟨trivial, .succeed (.shared rfl .text)⟩
    · exact fun _ _ => ⟨trivial, .failCause (.shared (.fail rfl .text))⟩
  handler h _ := h.elim
  cause h := h.elim

theorem Language.mirrors_within : Language.mirrors.Within Program.mirrors fun _ => True where
  value hf _ := by
    obtain ⟨word, rfl | rfl⟩ := hf <;> exact fun _ _ => ⟨trivial, .text⟩
  test _ _ := trivial
  outcome _ hv := hv
  effect hf _ := by
    obtain ⟨word, rfl | rfl⟩ := hf
    · exact fun _ _ => ⟨trivial, .succeed .text⟩
    · exact fun _ _ => ⟨trivial, .failCause (.shared (.fail .text))⟩
  handler _ _ := .succeed (.tuple fun _ hv => nomatch hv)
  cause _ := .fail (.tuple fun _ hv => nomatch hv)

open Mirror in
/-- All of it for a failure on a fresh runner, with closures that fail themselves, and what comes of
    one of them on either side. -/
theorem Effect.swap_dual_mirrors :
    letI := Language.mirrors
    let callees : Callees Unit Mirror (Noted Unit Mirror Unit) := Callees.ofFuel 1
    let w : World (Noted Unit Mirror Unit) := World.start ⟨(), []⟩
    let Same (x y : Mirrored) : Prop := Runner.fresh.Same
      (World.Alike Program.mirrors fun _ => True) callees (pure x.node) .fresh (pure y.node) w
    let lost : Mirrored := fail (.text "lost")
    let recovered : Mirrored := lost.recover (loses "f")
    let swapped : Mirrored := (lost.swap.andThen (swaps (loses "f")) : Mirrored).swap
    (Same lost lost.swap.swap ∧
      Same recovered swapped ∧
      Same (lost.andThen (tells "f")) (lost.swap.recover (swaps (tells "f")) : Mirrored).swap ∧
      Same (lost.mapError (tells "f")) (lost.swap.map (tells "f") : Mirrored).swap ∧
      Same (lost.foldM (loses "f") (tells "g")) (lost.swap.foldM (tells "g") (loses "f"))) ∧
    (∃ w', Runner.fresh.Evaluates callees (pure recovered.node) w (.ok (.failure (.fail (.text "f"))))
      w' ∧ w'.calls = [.effect (loses "f") [.text "lost"]]) ∧
    ∃ w', Runner.fresh.Evaluates callees (pure swapped.node) w (.ok (.failure (.fail (.text "f"))))
      w' ∧ w'.calls = [.effect (loses "f") [.text "lost"]] := by
  let _ := Language.mirrors
  intro callees w Same lost recovered swapped
  have hlost : lost.Built Signature.mirrors := .fail ⟨rfl, .text⟩
  have hmade : lost.Made Program.mirrors := .fail .text
  obtain ⟨h₁, h₂, h₃, h₄, h₅⟩ := swap_dual Language.mirrors Language.mirrors_honours
    Language.mirrors_within 1 (r := .fresh) (R := .unit) .none
    (fun _ h => nomatch h) (w := w) trivial hlost hmade
  have htells : ∀ word, (tells word).HasWord := fun word => ⟨word, .inl rfl⟩
  have hloses : ∀ word, (loses word).HasWord := fun word => ⟨word, .inr rfl⟩
  refine ⟨⟨h₁.1, ?_, ?_, ?_, ?_⟩, ?_, ?_⟩
  · exact (h₂ .text (loses "f") (swaps (loses "f")) (hloses "f") ⟨rfl, rfl, hloses "f"⟩
      fun _ => rfl).1
  · exact (h₃ .text (tells "f") (swaps (tells "f")) (htells "f") ⟨rfl, rfl, htells "f"⟩
      fun _ => rfl).1
  · exact (h₄ .text (tells "f") (htells "f") ⟨rfl, htells "f"⟩).1
  · exact (h₅ .text .text (loses "f") (tells "g") (hloses "f") (htells "g")).1
  · exact Runner.evaluates_of_evaluate 20 ⟨_, _, rfl, rfl⟩
  · exact Runner.evaluates_of_evaluate 20 ⟨_, _, rfl, rfl⟩

end EffectMachine
