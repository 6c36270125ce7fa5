/-
  Effects as outcomes.

  `either` turns what an effect ends in into an outcome, a value like any other.  Most combinators
  have a counterpart among the operations on outcomes, and then there are two ways to go: through
  the combinator and to the outcome, or to the outcome first and through the operation, called from
  a closure.  This file shows that both lead to the same.

  The argument is in two parts.  For each combinator it is shown what it does to an ending: it acts
  on the outcome that the ending amounts to as its counterpart does, and leaves a defect as it is
  (`Ending.onOutcome`).  That both ways lead to the same then follows once for all of them
  (`either_of_acts`).

  On the two ways cells are used up at different times, before and after the closures are called.
  So the comparison is one in worlds that are alike, and it asks of a program that its trees are
  reusable, as those are that the combinators make.
-/
import EffectMachine.Proofs.Alikeness

namespace EffectMachine

variable {D K σ : Type} {R E E' E'' A B : Ty}

/-! ## Endings and outcomes -/

namespace Ending

/-- The ending that amounts to this outcome. -/
def ofOutcome : Outcome (Value D K) (Value D K) → Ending D K
  | .success v => .success v
  | .failure e => .failure (.fail e)

/-- Goes on with the outcome that the ending amounts to.  A defect amounts to none, and stays. -/
def onOutcome (next : Outcome (Value D K) (Value D K) → Play D K σ (Ending D K)) :
    Ending D K → Play D K σ (Ending D K)
  | .success v => next (.success v)
  | .failure (.fail e) => next (.failure e)
  | .failure (.die d) => pure (.failure (.die d))

/-- To go on from an ending that an outcome has made is to go on from the outcome. -/
theorem onOutcome_ofOutcome (next : Outcome (Value D K) (Value D K) → Play D K σ (Ending D K))
    (o : Outcome (Value D K) (Value D K)) : onOutcome next (ofOutcome o) = next o := by
  cases o <;> rfl

/-- The ending without the name that is kept with a defect. -/
def nameless : Ending D K → Ending D K
  | .success v => .success v
  | .failure (.fail e) => .failure (.fail e)
  | .failure (.die d) => .failure (.die ⟨d.payload, none⟩)

end Ending

/-- An effect made of an outcome ends in it. -/
theorem Effect.ofOutcome_result [Language D K σ] (o : Outcome (Value D K) (Value D K))
    {env : Option (Value D K)} :
    ((Effect.ofOutcome o : Effect D K R E A).node.result env : Play D K σ _) =
      pure (Ending.ofOutcome o) := by
  cases o <;> exact Node.result_leaf rfl

/-- So does the node that is made of one for this once, which takes a cell more. -/
theorem Node.ofOutcomeOnce_result [Language D K σ] (o : Outcome (Value D K) (Value D K))
    {env : Option (Value D K)} :
    (Node.ofOutcomeOnce o >>= Node.result env : Play D K σ _) =
      Play.spend 1 >>= fun _ => pure (Ending.ofOutcome o) := by
  cases o
  · exact Node.haltOnce_result _
  · exact Node.succeedOnce_result _

/-! ## Acts that are attempted -/

/-- The act does not raise where the invariant holds. -/
def Act.Calm {α : Type} (c : Callees D K σ) (I : σ → Prop) (a : Act D K σ α) : Prop :=
  ∀ w p w', I w.state → a.exec c w ≠ some (.error p, w')

namespace Play

variable {α β : Type}

/-- A function of the result is applied to what is returned, not to what is raised. -/
theorem attempt_map (f : α → β) (a : Act D K σ α) :
    (attempt (f <$> a) : Play D K σ _) = Except.map f <$> attempt a := by
  funext callees w
  rw [map_apply]
  simp only [attempt, map_eq_pure_bind, Act.exec_bind]
  rcases a.exec callees w with _ | ⟨_ | _, _⟩ <;> rfl

end Play

/-! ## What the combinators do to an ending -/

section Combinators

variable [M : Language D K σ] {Γ : Signature K} {P : Program K} {I : σ → Prop}
  {c : Callees D K σ} {env : Option (Value D K)} {e : Effect D K R E A}

/-- In alike worlds the two come to the same. -/
abbrev Play.Equal (P : Program K) (I : σ → Prop) (c : Callees D K σ)
    (x y : Play D K σ (Ending D K)) : Prop := Play.SameAs P I c (fun _ => True) x y

/-- A cause that is handed over once is what there is in the end. -/
theorem Play.SameAs.halted (cause : Cause (Value D K)) :
    Play.Equal P I c (Node.haltOnce cause >>= Node.result env) (pure (.failure cause)) := by
  rw [Node.haltOnce_result]
  exact .spend_left 1 (.pure trivial)

/-- A value that is handed over once is what there is in the end. -/
theorem Play.SameAs.succeeded (v : Value D K) :
    Play.Equal P I c (Node.succeedOnce v >>= Node.result env) (pure (.success v)) := by
  rw [Node.succeedOnce_result]
  exact .spend_left 1 (.pure trivial)

variable (H : TypedRun M Γ I c R env) (HP : ProgramRun M P I c env)

include H HP

/-- A link behind an effect acts on outcomes that are successes. -/
theorem Effect.linked_acts (he : e.Built Γ) (hm : e.Made P) {link : Link D K}
    {next : Outcome (Value D K) (Value D K) → Play D K σ (Ending D K)}
    (hvalue : ∀ v, v.Fits Γ A → v.Reusable P →
      Play.Equal P I c (link.follow v >>= Node.result env) (next (.success v)))
    (herror : ∀ x, next (.failure x) = pure (.failure (.fail x))) :
    Play.Equal P I c ((e.linked link : Effect D K R E B).node.result env)
      (e.node.result env >>= Ending.onOutcome next) := by
  rw [Effect.linked_result]
  refine e.sameAs_of_endings H HP he hm (fun v hv hv' => ?_) (fun x _ _ => ?_)
    fun d => .pure trivial
  · simp only [Link.followTyped_of_fits hv]
    exact hvalue v hv hv'
  · simp only [Ending.onOutcome, herror]
    exact .pure trivial

/-- Links behind both sides of an effect act on outcomes of either kind. -/
theorem Effect.folded_acts (he : e.Built Γ) (hm : e.Made P) {onFailure onSuccess : Link D K}
    {next : Outcome (Value D K) (Value D K) → Play D K σ (Ending D K)}
    (hvalue : ∀ v, v.Fits Γ A → v.Reusable P →
      Play.Equal P I c (onSuccess.follow v >>= Node.result env) (next (.success v)))
    (herror : ∀ x, x.Fits Γ E → x.Reusable P →
      Play.Equal P I c (onFailure.follow x >>= Node.result env) (next (.failure x))) :
    Play.Equal P I c ((e.folded onFailure onSuccess : Effect D K R E' B).node.result env)
      (e.node.result env >>= Ending.onOutcome next) := by
  rw [Effect.folded_result]
  refine e.sameAs_of_endings H HP he hm (fun v hv hv' => ?_) (fun x hx hx' => ?_) fun d => ?_
  · simp only [Link.followTyped_of_fits hv]
    exact hvalue v hv hv'
  · simp only [Handler.onFailure_fail hx]
    exact herror x hx hx'
  · simp only [Handler.onFailure_die]
    exact .halted _

/-- `either` goes on from an outcome by wrapping it up as a value. -/
theorem either_acts (he : e.Built Γ) (hm : e.Made P) :
    Play.Equal P I c ((e.either : Effect D K R E' (.outcome E A)).node.result env)
      (e.node.result env >>= Ending.onOutcome fun o => pure (.success (.outcome E A o))) :=
  e.folded_acts H HP he hm (fun _ _ _ => .succeeded _) fun _ _ _ => .succeeded _

omit H in
/-- What a closure returns is what there is in the end. -/
theorem ProgramRun.value_acts {f : K} (hf : P.closures f) {args : List (Value D K)}
    (hargs : Value.AllReusable P args) :
    Play.Equal P I c
      ((do Node.succeedOnce (← Play.act (M.value f args))) >>= Node.result env)
      ((fun v => .success v) <$> Play.act (M.value f args)) := by
  rw [bind_assoc, map_eq_pure_bind]
  exact (HP.act (HP.within.value hf hargs)).bind fun b _ => .succeeded b

/-- `map` goes on as `Outcome.mapM` does. -/
theorem map_acts (he : e.Built Γ) (hm : e.Made P) {f : K} (hf : P.closures f) :
    Play.Equal P I c ((e.map f : Effect D K R E B).node.result env)
      (e.node.result env >>= Ending.onOutcome fun o =>
        Ending.ofOutcome <$> Play.act (o.mapM fun v => M.value f [v])) := by
  refine e.linked_acts H HP he hm (fun v _ hv => ?_) fun x => rfl
  simp only [Outcome.mapM, Play.act_map, Functor.map_map]
  exact HP.value_acts hf (.singleton hv)

/-- `mapError` goes on as `Outcome.mapFailureM` does.  Its node is a fold over causes of its own, in
    which all but typed failures are handed on. -/
theorem mapError_acts (he : e.Built Γ) (hm : e.Made P) {f : K} (hf : P.closures f) :
    Play.Equal P I c ((e.mapError f : Effect D K R E' A).node.result env)
      (e.node.result env >>= Ending.onOutcome fun o =>
        Ending.ofOutcome <$> Play.act (o.mapFailureM fun x => M.value f [x])) := by
  rw [Effect.mapError, Node.result_fold]
  refine e.sameAs_of_endings H HP he hm (fun v _ _ => .succeeded v) (fun x hx hx' => ?_)
    fun d => .halted _
  simp only [Handler.resume, (Cause.Typed.ofFail hx).typed_eq, Cause.mapM, Ending.onOutcome,
    Outcome.mapFailureM, Play.act_map, Functor.map_map, bind_map_left, bind_assoc]
  rw [map_eq_pure_bind]
  exact (HP.act (HP.within.value hf (.singleton hx'))).bind fun b _ => .halted _

/-- Goes on with the effect of the outcome that a closure returns. -/
theorem andThen_acts (he : e.Built Γ) (hm : e.Made P) {f k : K} (hf : P.closures f)
    (hk : ∀ v, v.Fits Γ A → M.effect k [v] =
      (fun o => (Effect.ofOutcome o : Effect D K R E B).node) <$> M.outcome f v) :
    Play.Equal P I c ((e.andThen k : Effect D K R E B).node.result env)
      (e.node.result env >>= Ending.onOutcome fun o =>
        Ending.ofOutcome <$> Play.act (o.bindM (M.outcome f))) := by
  refine e.linked_acts H HP he hm (fun v hv hv' => ?_) fun x => rfl
  simp only [Link.follow, hk v hv, Outcome.bindM, Play.act_map, bind_map_left,
    Effect.ofOutcome_result]
  rw [map_eq_pure_bind]
  exact (HP.act (HP.within.outcome hf hv')).bind fun o _ => .pure trivial

theorem swap_acts (he : e.Built Γ) (hm : e.Made P) :
    Play.Equal P I c (e.swap.node.result env)
      (e.node.result env >>= Ending.onOutcome fun o =>
        Ending.ofOutcome <$> Play.act (pure o.swap)) :=
  e.folded_acts H HP he hm (fun _ _ _ => .halted _) fun _ _ _ => .succeeded _

/-- `require` goes on as `Outcome.requireM` does: the test first, and the error only if it fails. -/
theorem require_acts (he : e.Built Γ) (hm : e.Made P) {passes error : K}
    (hpasses : P.closures passes) (herror : P.closures error) :
    Play.Equal P I c ((e.require passes error).node.result env)
      (e.node.result env >>= Ending.onOutcome fun o =>
        Ending.ofOutcome <$> Play.act (o.requireM (M.test passes) fun v => M.value error [v])) := by
  refine e.linked_acts H HP he hm (fun v _ hv => ?_) fun x => rfl
  simp only [Link.follow, Outcome.requireM, Play.act_bind, map_bind, bind_assoc]
  refine (HP.act (HP.within.test hpasses hv)).bind fun passed _ => ?_
  cases passed with
  | true => exact .succeeded v
  | false =>
    simp only [Bool.false_eq_true, if_false, Play.act_bind, map_bind, bind_assoc]
    exact (HP.act (HP.within.value herror (.singleton hv))).bind fun x _ => .halted _

/-- The outcome inside a success takes the place of the whole. -/
def Outcome.absolved : Outcome (Value D K) (Value D K) → Outcome (Value D K) (Value D K)
  | .success (.outcome _ _ o) => o
  | o => o

theorem absolve_acts {e : Effect D K R E (.outcome E A)} (he : e.Built Γ) (hm : e.Made P) :
    Play.Equal P I c (e.absolve.node.result env)
      (e.node.result env >>= Ending.onOutcome fun o =>
        Ending.ofOutcome <$> Play.act (pure o.absolved)) := by
  refine e.linked_acts H HP he hm (fun v hv _ => ?_) fun x => rfl
  obtain ⟨o, rfl, -⟩ := hv.exists_outcome
  simp only [Link.follow, Node.ofOutcomeOnce_result]
  exact .spend_left 1 (.pure trivial)

/-- `fold` goes on with a value, from either side. -/
theorem fold_acts (he : e.Built Γ) (hm : e.Made P) {f g : K} (hf : P.closures f)
    (hg : P.closures g) :
    Play.Equal P I c ((e.fold f g : Effect D K R E' B).node.result env)
      (e.node.result env >>= Ending.onOutcome fun o => (fun v => .success v) <$>
        Play.act (o.foldM (fun x => M.value f [x]) fun v => M.value g [v])) :=
  e.folded_acts H HP he hm (fun _ _ hv => HP.value_acts hg (.singleton hv))
    fun _ _ hx => HP.value_acts hf (.singleton hx)

/-! ## Through the outcome -/

/-- A link behind the outcome of an effect acts on that outcome. -/
theorem either_linked_acts (he : e.Built Γ) (hm : e.Made P) {link : Link D K}
    {next : Outcome (Value D K) (Value D K) → Play D K σ (Ending D K)}
    (hlink : ∀ o, o.Fits Γ E A → (Value.outcome E A o).Reusable P →
      Play.Equal P I c (link.follow (.outcome E A o) >>= Node.result env) (next o)) :
    Play.Equal P I c
      (((e.either : Effect D K R E'' (.outcome E A)).linked link : Effect D K R E'' B).node.result
        env)
      (e.node.result env >>= Ending.onOutcome next) := by
  have hfollow : ∀ o : Outcome (Value D K) (Value D K), o.Fits Γ E A →
      (Value.outcome E A o).Reusable P →
      Play.Equal P I c (link.followTyped (.outcome E A) (.outcome E A o) >>= Node.result env)
        (next o) := by
    intro o ho ho'
    simp only [Link.followTyped, Value.cast?, Value.type, if_true]
    exact hlink o ho ho'
  rw [Effect.linked_result, Effect.either, Effect.folded_result, bind_assoc]
  -- what is typed as an ending is so as an outcome, and reusable as both
  refine e.sameAs_of_endings H HP he hm (fun v hv hv' => ?_) (fun x hx hx' => ?_) fun d => ?_
  · simp only [Link.followTyped_of_fits hv, Link.follow, Node.succeedOnce_result, bind_assoc,
      pure_bind]
    exact .spend_left 1 (hfollow _ hv (.success hv'))
  · simp only [Handler.onFailure_fail hx, Link.follow, Node.succeedOnce_result, bind_assoc,
      pure_bind]
    exact .spend_left 1 (hfollow _ hx (.failure hx'))
  · simp only [Handler.onFailure_die, Node.haltOnce_result, bind_assoc, pure_bind]
    exact .spend_left 1 (.pure trivial)

/-- What a closure makes of the outcome, it does not matter how that is put. -/
theorem either_map_eq (he : e.Built Γ) (hm : e.Made P) {h : K} (hh : P.closures h)
    {next : Outcome (Value D K) (Value D K) → Play D K σ (Ending D K)}
    (hnext : ∀ o, o.Fits Γ E A →
      (fun v => .success v) <$> Play.act (M.value h [.outcome E A o]) = next o) :
    Play.Equal P I c
      (((e.either : Effect D K R E'' (.outcome E A)).map h : Effect D K R E'' B).node.result env)
      (e.node.result env >>= Ending.onOutcome next) := by
  refine either_linked_acts H HP he hm fun o ho ho' => ?_
  rw [← hnext o ho]
  exact HP.value_acts hh (.singleton ho')

/-- If a combinator acts on outcomes as an operation does, it makes no difference whether the
    combinator comes before the outcome, or the outcome before a call of the operation. -/
theorem either_of_acts {e' : Effect D K R E' B} (he : e.Built Γ) (hm : e.Made P)
    (he' : e'.Built Γ) (hm' : e'.Made P)
    {op : Outcome (Value D K) (Value D K) → Act D K σ (Outcome (Value D K) (Value D K))}
    (hacts : Play.Equal P I c (e'.node.result env)
      (e.node.result env >>= Ending.onOutcome fun o => Ending.ofOutcome <$> Play.act (op o)))
    {h : K} (hh : P.closures h)
    (hop : ∀ o, o.Fits Γ E A → M.value h [.outcome E A o] = Value.outcome E' B <$> op o) :
    Play.Equal P I c ((e'.either : Effect D K R E'' (.outcome E' B)).node.result env)
      (((e.either : Effect D K R E'' (.outcome E A)).map h :
        Effect D K R E'' (.outcome E' B)).node.result env) := by
  let reify (o : Outcome (Value D K) (Value D K)) : Play D K σ (Ending D K) :=
    pure (.success (.outcome E' B o))
  have hleft : Play.Equal P I c (e'.node.result env >>= Ending.onOutcome reify)
      ((e.node.result env >>= Ending.onOutcome fun o => Ending.ofOutcome <$> Play.act (op o)) >>=
        Ending.onOutcome reify) := by
    refine hacts.bind fun ending _ => ?_
    rcases ending with (_ | _) | _ <;> exact .pure trivial
  have hsame : (e.node.result env >>= Ending.onOutcome fun o =>
        Ending.ofOutcome <$> Play.act (op o)) >>= Ending.onOutcome reify =
      e.node.result env >>= Ending.onOutcome fun o =>
        (fun o' => .success (.outcome E' B o')) <$> Play.act (op o) := by
    have hnext : ∀ o, (Ending.ofOutcome <$> Play.act (op o)) >>= Ending.onOutcome reify =
        (fun o' => .success (.outcome E' B o')) <$> Play.act (op o) := by
      intro o
      rw [bind_map_left, map_eq_pure_bind]
      exact bind_congr fun o' => Ending.onOutcome_ofOutcome reify o'
    rw [bind_assoc]
    refine bind_congr fun ending => ?_
    rcases ending with (_ | _) | _
    · exact hnext _
    · exact pure_bind _ _
    · exact hnext _
  refine (either_acts H HP he' hm').trans (hleft.trans ?_)
  rw [hsame]
  refine (either_map_eq H HP he hm hh fun o ho => ?_).symm
  rw [hop o ho, Play.act_map, Functor.map_map]

/-- A fold is `either` and then the closure that does the fold of outcomes. -/
theorem either_fold (he : e.Built Γ) (hm : e.Made P) {f g h : K} (hf : P.closures f)
    (hg : P.closures g) (hh : P.closures h)
    (hop : ∀ o, o.Fits Γ E A → M.value h [.outcome E A o] =
      o.foldM (fun x => M.value f [x]) fun v => M.value g [v]) :
    Play.Equal P I c ((e.fold f g : Effect D K R E'' B).node.result env)
      (((e.either : Effect D K R E'' (.outcome E A)).map h : Effect D K R E'' B).node.result
        env) :=
  (fold_acts H HP he hm hf hg).trans
    (either_map_eq H HP he hm hh fun o ho => by rw [hop o ho]).symm

end Combinators

/-! ## Assertions

  An assertion that fails dies with a payload, which is typed.  The operation on outcomes raises the
  payload instead, and what is raised has no type to show; so the defect that an attempt makes of it
  goes by no name. -/

section Assertions

variable [M : Language D K σ] {Γ : Signature K} {P : Program K} {I : σ → Prop}
  {c : Callees D K σ} {env : Option (Value D K)} {e : Effect D K R E A}

/-- Keeps a success that passes, and dies with such a defect of the payload made of any other. -/
def Ending.asserted (passes payload : K) (defect : Value D K → Defect (Value D K)) :
    Outcome (Value D K) (Value D K) → Play D K σ (Ending D K)
  | .failure x => pure (.failure (.fail x))
  | .success v => do
    if ← Play.act (M.test passes v) then return .success v
    return .failure (.die (defect (← Play.act (M.value payload [v]))))

omit M in
/-- What is reported makes no difference. -/
theorem Play.SameAs.report_left {x y : Play D K σ (Ending D K)} (event : Event)
    (h : Play.Equal P I c x y) : Play.Equal P I c (Play.report event >>= fun _ => x) y :=
  fun _ _ hwv => h (World.Alike.untraced (World.agree_report _ event) (.refl _) hwv)

variable (H : TypedRun M Γ I c R env) (HP : ProgramRun M P I c env)

include HP

/-- What does not raise need not be attempted. -/
theorem ProgramRun.attempt_calm {α β : Type} {Q : α → Prop} {a : Act D K σ α}
    (ha : a.Within P I Q) (hcalm : a.Calm c I) {f : α → Act D K σ β}
    {next : Raised D K β → Play D K σ (Ending D K)} {g : α → Play D K σ (Ending D K)}
    (hf : ∀ x, Q x → Play.Equal P I c (Play.attempt (f x) >>= next) (g x)) :
    Play.Equal P I c (Play.attempt (a >>= f) >>= next) (Play.act a >>= g) := by
  intro w v hwv
  have hact := HP.act ha hwv
  have hleft : (Play.attempt (a >>= f) >>= next) c w =
      (Play.act a >>= fun x => Play.attempt (f x) >>= next) c w := by
    simp only [Play.bind_apply, Play.attempt, Act.exec_bind]
    rcases h : a.exec c w with _ | ⟨p | x, w'⟩
    · rw [show Play.act a c w = _ from h]
    · exact absurd h (hcalm w p w' hwv.inv)
    · rw [show Play.act a c w = _ from h]
  rw [hleft]
  exact Play.SameAs.bind (HP.act ha) hf hwv

/-- To attempt an assertion on an outcome is to assert, if neither the test nor what makes the
    payload raises. -/
theorem attempt_asserting {passes payload : K} (hpasses : P.closures passes)
    (hpayload : P.closures payload) {o : Outcome (Value D K) (Value D K)} (ho : o.Reusable P)
    (hcalm : ∀ v, o = .success v → (M.test passes v).Calm c I ∧ (M.value payload [v]).Calm c I)
    {next : Raised D K (Outcome (Value D K) (Value D K)) → Play D K σ (Ending D K)}
    (hreturned : ∀ o, Play.Equal P I c (next (.ok o)) (pure (Ending.ofOutcome o)))
    (hraised : ∀ p, Play.Equal P I c (next (.error p))
      (pure (.failure (.die (Defect.ofRaised p))))) :
    Play.Equal P I c
      (Play.attempt (o.assertM (M.test passes) fun v => M.value payload [v]) >>= next)
      (Ending.asserted passes payload Defect.ofRaised o) := by
  cases o with
  | failure x => exact hreturned (.failure x)
  | success v =>
    obtain ⟨htest, hvalue⟩ := hcalm v rfl
    refine HP.attempt_calm (HP.within.test hpasses ho) htest fun passed _ => ?_
    cases passed with
    | true => exact hreturned (.success v)
    | false =>
      exact HP.attempt_calm (HP.within.value hpayload (.singleton ho)) hvalue fun p _ => hraised p

include H

/-- `assert` tests a value as `require` does, and makes a defect where that makes an error. -/
theorem assert_acts (he : e.Built Γ) (hm : e.Made P) {passes payload : K}
    (hpasses : P.closures passes) (hpayload : P.closures payload) :
    Play.Equal P I c ((e.assert passes payload).node.result env)
      (e.node.result env >>=
        Ending.onOutcome (Ending.asserted passes payload Defect.ofValue)) := by
  refine e.linked_acts H HP he hm (fun v _ hv => ?_) fun x => rfl
  simp only [Link.follow, Ending.asserted, bind_assoc]
  refine (HP.act (HP.within.test hpasses hv)).bind fun passed _ => ?_
  cases passed with
  | true => exact .succeeded v
  | false =>
    simp only [Bool.false_eq_true, if_false, bind_assoc]
    exact (HP.act (HP.within.value hpayload (.singleton hv))).bind fun p _ => .halted _

omit H HP in
/-- The link that absolves, given an outcome, ends in it. -/
theorem absolve_outcome (o : Outcome (Value D K) (Value D K)) :
    Play.Equal P I c
      (Link.absolve.followTyped (.outcome E A) (.outcome E A o) >>= Node.result env)
      (pure (Ending.ofOutcome o)) := by
  simp only [Link.followTyped, Value.cast?, Value.type, if_true, Link.follow,
    Node.ofOutcomeOnce_result]
  exact .spend_left 1 (.pure trivial)

omit H in
/-- A closure that attempts the assertion on its outcome, in an effect of its own, called and
    absolved. -/
theorem absolve_attempted {passes payload k thunk : K} (hpasses : P.closures passes)
    (hpayload : P.closures payload) {o : Outcome (Value D K) (Value D K)} (ho : o.Reusable P)
    (hcalm : ∀ v, o = .success v →
      (M.test passes v).Calm c I ∧ (M.value payload [v]).Calm c I)
    (hk : M.effect k [.outcome E A o] =
      pure (Effect.attempt thunk : Effect D K R E (.outcome E A)).node)
    (hthunk : M.value thunk [] =
      Value.outcome E A <$> o.assertM (M.test passes) fun v => M.value payload [v]) :
    Play.Equal P I c
      (((Link.call k).followTyped (.outcome E A) (.outcome E A o) >>= Node.result env) >>= fun
        | .success v => Link.absolve.followTyped (.outcome E A) v >>= Node.result env
        | .failure cause => pure (.failure cause))
      (Ending.asserted passes payload Defect.ofRaised o) := by
  simp only [Link.followTyped, Value.cast?, Value.type, if_true, Link.follow, hk,
    Play.act_pure, pure_bind, Effect.attempt]
  rw [Node.result_leaf rfl]
  simp only [Machine.attempted]
  rw [bind_assoc, show Language.value thunk [] = _ from hthunk, Play.attempt_map, bind_map_left]
  exact attempt_asserting HP hpasses hpayload ho hcalm (fun o' => absolve_outcome o')
    fun p => .report_left .raised (.pure trivial)

/-- The assertion on an outcome, attempted in an effect of its own and absolved. -/
theorem either_assert_acts (he : e.Built Γ) (hm : e.Made P) {passes payload : K}
    (hpasses : P.closures passes) (hpayload : P.closures payload)
    (hcalm : ∀ v, v.Fits Γ A → (M.test passes v).Calm c I ∧ (M.value payload [v]).Calm c I)
    {k : K} {thunk : Outcome (Value D K) (Value D K) → K}
    (hk : ∀ o, o.Fits Γ E A → M.effect k [.outcome E A o] =
      pure (Effect.attempt (thunk o) : Effect D K R E (.outcome E A)).node)
    (hthunk : ∀ o, o.Fits Γ E A → M.value (thunk o) [] =
      Value.outcome E A <$> o.assertM (M.test passes) fun v => M.value payload [v]) :
    Play.Equal P I c
      ((((e.either : Effect D K R E (.outcome E A)).andThen k :
        Effect D K R E (.outcome E A)).absolve).node.result env)
      (e.node.result env >>=
        Ending.onOutcome (Ending.asserted passes payload Defect.ofRaised)) := by
  have hcalm' (o : Outcome (Value D K) (Value D K)) (ho : o.Fits Γ E A) (v : Value D K)
      (hv : o = .success v) :
      (M.test passes v).Calm c I ∧ (M.value payload [v]).Calm c I := by
    subst hv
    exact hcalm v ho
  rw [Effect.absolve, Effect.linked_result, Effect.andThen, Effect.linked_result, Effect.either,
    Effect.folded_result, bind_assoc, bind_assoc]
  refine e.sameAs_of_endings H HP he hm (fun v hv hv' => ?_) (fun x hx hx' => ?_) fun d => ?_
  · simp only [Link.followTyped_of_fits hv, Link.follow, Node.succeedOnce_result, bind_assoc,
      pure_bind]
    rw [← bind_assoc (Link.followTyped _ _ _)]
    exact .spend_left 1 (absolve_attempted HP hpasses hpayload hv' (hcalm' (.success v) hv)
      (hk _ hv) (hthunk _ hv))
  · simp only [Handler.onFailure_fail hx, Link.follow, Node.succeedOnce_result, bind_assoc,
      pure_bind]
    rw [← bind_assoc (Link.followTyped _ _ _)]
    exact .spend_left 1 (absolve_attempted HP hpasses hpayload hx' (hcalm' (.failure x) hx)
      (hk _ hx) (hthunk _ hx))
  · simp only [Handler.onFailure_die, Node.haltOnce_result, bind_assoc, pure_bind]
    exact .spend_left 1 (.pure trivial)

omit H HP in
/-- But for the name it is the same defect. -/
theorem Ending.asserted_nameless (passes payload : K) (o : Outcome (Value D K) (Value D K)) :
    (nameless <$> asserted passes payload Defect.ofValue o : Play D K σ _) =
      nameless <$> asserted passes payload Defect.ofRaised o := by
  cases o with
  | failure x => rfl
  | success v =>
    simp only [asserted, map_bind]
    refine bind_congr fun passed => ?_
    cases passed with
    | true => rfl
    | false =>
      simp only [Bool.false_eq_true, if_false, map_bind, map_pure]
      exact bind_congr fun p => rfl

/-- Behind `either` the defect is made by a closure that attempts what `assert` calls.  The two
    differ in the name that is kept with it. -/
theorem assert_either_assert (he : e.Built Γ) (hm : e.Made P) {passes payload : K}
    (hpasses : P.closures passes) (hpayload : P.closures payload)
    (hcalm : ∀ v, v.Fits Γ A → (M.test passes v).Calm c I ∧ (M.value payload [v]).Calm c I)
    {k : K} {thunk : Outcome (Value D K) (Value D K) → K}
    (hk : ∀ o, o.Fits Γ E A → M.effect k [.outcome E A o] =
      pure (Effect.attempt (thunk o) : Effect D K R E (.outcome E A)).node)
    (hthunk : ∀ o, o.Fits Γ E A → M.value (thunk o) [] =
      Value.outcome E A <$> o.assertM (M.test passes) fun v => M.value payload [v]) :
    Play.Equal P I c (Ending.nameless <$> (e.assert passes payload).node.result env)
      (Ending.nameless <$> (((e.either : Effect D K R E (.outcome E A)).andThen k :
        Effect D K R E (.outcome E A)).absolve).node.result env) := by
  have hleft := Play.Matches.map (Q := fun _ => True) (assert_acts H HP he hm hpasses hpayload)
    Ending.nameless fun _ _ => trivial
  have hright := Play.Matches.map (Q := fun _ => True)
    (either_assert_acts H HP he hm hpasses hpayload hcalm hk hthunk) Ending.nameless
    fun _ _ => trivial
  have hsame : Ending.nameless <$> (e.node.result env >>=
        Ending.onOutcome (Ending.asserted passes payload Defect.ofValue)) =
      Ending.nameless <$> (e.node.result env >>=
        Ending.onOutcome (Ending.asserted passes payload Defect.ofRaised)) := by
    rw [map_bind, map_bind]
    refine bind_congr fun ending => ?_
    rcases ending with (x | d) | v
    · rfl
    · rfl
    · exact Ending.asserted_nameless passes payload (.success v)
  rw [hsame] at hleft
  exact Play.SameAs.trans hleft (Play.SameAs.symm hright)

end Assertions

/-! ## The combinators and their counterparts -/

/-- The combinators act on what an effect ends in as the operations on outcomes do.

    Take closures that do as they are declared and stay within a program, a runner that has room for
    its frames, with whatever environments are bound, and an effect the program has made.  Then it
    is the same to use a combinator and look at the outcome, or to look at the outcome and have a
    closure use the operation on it: from any world, either side ends if the other one does, and
    both end in the same value, in the same defect with the same name kept with it, or in the same
    payload raised; and they leave the same shared state, with the same calls noted in it in the
    same order.  Assertions agree in the same way, but for the name kept with the defect, if neither
    the test nor what makes the payload raises. -/
theorem Effect.combinators_homomorphic (M : Language D K (Noted D K σ)) {Γ : Signature K}
    {P : Program K} {I : Noted D K σ → Prop} (hM : M.Honours Γ I) (hP : M.Within P I) (depth : Nat)
    {r : Runner D K} (hfit : r.settings.framesFit = true) {R : Ty}
    (henv : Supplied Γ R r.environments.back?)
    (hbound : ∀ v, r.environments.back? = some v → v.Reusable P) {w : World (Noted D K σ)}
    (hw : I w.state) {E A : Ty} {e : Effect D K R E A} (he : e.Built Γ) (hm : e.Made P) :
    letI := M
    let SameUpTo (view : Ending D K → Ending D K) {E E' A A' : Ty} (x : Effect D K R E A)
      (y : Effect D K R E' A') : Prop :=
      r.SameUpTo view (World.Alike P I) (Callees.ofFuel depth) (pure x.node) r (pure y.node) w
    let calls (h : K) (f : Outcome (Value D K) (Value D K) → Act D K _ (Value D K)) : Prop :=
      P.closures h ∧ ∀ o, o.Fits Γ E A → M.value h [.outcome E A o] = f o
    (∀ (B E' : Ty) (f h : K), Γ.value f [A] B → P.closures f →
      calls h (fun o => .outcome E B <$> o.mapM fun v => M.value f [v]) →
        SameUpTo id ((e.map f : Effect D K R E B).either : Effect D K R E' _)
          ((e.either : Effect D K R E' _).map h : Effect D K R E' (.outcome E B))) ∧
    (∀ (E₁ E' : Ty) (f h : K), Γ.value f [E] E₁ → P.closures f →
      calls h (fun o => .outcome E₁ A <$> o.mapFailureM fun x => M.value f [x]) →
        SameUpTo id ((e.mapError f : Effect D K R E₁ A).either : Effect D K R E' _)
          ((e.either : Effect D K R E' _).map h : Effect D K R E' (.outcome E₁ A))) ∧
    (∀ (B E' : Ty) (f k h : K), Γ.effect k [A] R E B → P.closures f → P.closures k →
      (∀ v, v.Fits Γ A →
        M.effect k [v] = (fun o => (ofOutcome o : Effect D K R E B).node) <$> M.outcome f v) →
      calls h (fun o => .outcome E B <$> o.bindM (M.outcome f)) →
        SameUpTo id ((e.andThen k : Effect D K R E B).either : Effect D K R E' _)
          ((e.either : Effect D K R E' _).map h : Effect D K R E' (.outcome E B))) ∧
    (∀ (E' : Ty) (h : K), calls h (fun o => pure (.outcome A E o.swap)) →
        SameUpTo id (e.swap.either : Effect D K R E' _)
          ((e.either : Effect D K R E' _).map h : Effect D K R E' (.outcome A E))) ∧
    (∀ (E' : Ty) (passes error h : K), Γ.test passes A → Γ.value error [A] E → P.closures passes →
      P.closures error →
      calls h (fun o =>
        .outcome E A <$> o.requireM (M.test passes) fun v => M.value error [v]) →
        SameUpTo id ((e.require passes error).either : Effect D K R E' _)
          ((e.either : Effect D K R E' _).map h : Effect D K R E' (.outcome E A))) ∧
    (∀ (B E' : Ty) (nested : Effect D K R E (.outcome E B)) (h : K), nested.Built Γ →
      nested.Made P → P.closures h →
      (∀ o : Outcome (Value D K) (Outcome (Value D K) (Value D K)),
        M.value h [.outcome E (.outcome E B) (o.map (.outcome E B))] =
          pure (.outcome E B o.flatten)) →
        SameUpTo id (nested.absolve.either : Effect D K R E' _)
          ((nested.either : Effect D K R E' _).map h : Effect D K R E' (.outcome E B))) ∧
    (∀ (B E' : Ty) (f g h : K), P.closures f → P.closures g →
      calls h (fun o => o.foldM (fun x => M.value f [x]) fun v => M.value g [v]) →
        SameUpTo id (e.fold f g : Effect D K R E' B)
          ((e.either : Effect D K R E' _).map h : Effect D K R E' B)) ∧
    (∀ (passes payload k : K) (thunk : Outcome (Value D K) (Value D K) → K), P.closures passes →
      P.closures payload →
      (∀ v, v.Fits Γ A → (M.test passes v).Calm (Callees.ofFuel depth) I ∧
        (M.value payload [v]).Calm (Callees.ofFuel depth) I) →
      (∀ o, o.Fits Γ E A → M.effect k [.outcome E A o] =
        pure (attempt (thunk o) : Effect D K R E (.outcome E A)).node) →
      (∀ o, o.Fits Γ E A → M.value (thunk o) [] =
        .outcome E A <$> o.assertM (M.test passes) fun v => M.value payload [v]) →
        SameUpTo Ending.nameless (e.assert passes payload)
          ((e.either : Effect D K R E _).andThen k : Effect D K R E (.outcome E A)).absolve) := by
  let _ := M
  intro SameUpTo calls
  have H : TypedRun M Γ I (Callees.ofFuel depth) R r.environments.back? := .ofFuel hM depth henv
  have HP : ProgramRun M P I (Callees.ofFuel depth) r.environments.back? := .ofFuel hP depth hbound
  have hsame : ∀ {E E' A A' : Ty} {x : Effect D K R E A} {y : Effect D K R E' A'},
      Play.Equal P I (Callees.ofFuel depth) (x.node.result r.environments.back?)
        (y.node.result r.environments.back?) → SameUpTo id x y := fun h =>
    Runner.same_of_matches H.agree hfit hfit World.Alike.untraced h (.refl hw)
  refine ⟨?_, ?_, ?_, ?_, ?_, ?_, ?_, ?_⟩
  · rintro B E' f h hf hf' ⟨hh, hop⟩
    exact hsame
      (either_of_acts H HP he hm (he.map hf) (hm.map hf') (map_acts H HP he hm hf') hh hop)
  · rintro E₁ E' f h hf hf' ⟨hh, hop⟩
    exact hsame (either_of_acts H HP he hm (he.mapError hf) (hm.mapError hf')
      (mapError_acts H HP he hm hf') hh hop)
  · rintro B E' f k h hk hf' hk' hcall ⟨hh, hop⟩
    exact hsame (either_of_acts H HP he hm (he.andThen hk) (hm.andThen hk')
      (andThen_acts H HP he hm hf' hcall) hh hop)
  · rintro E' h ⟨hh, hop⟩
    exact hsame (either_of_acts H HP he hm he.swap hm.swap (swap_acts H HP he hm) hh hop)
  · rintro E' passes error h hpasses herror hpasses' herror' ⟨hh, hop⟩
    exact hsame (either_of_acts H HP he hm (he.require hpasses herror)
      (hm.require hpasses' herror') (require_acts H HP he hm hpasses' herror') hh hop)
  · intro B E' nested h hn hn' hh hop
    refine hsame
      (either_of_acts H HP hn hn' hn.absolve hn'.absolve (absolve_acts H HP hn hn') hh ?_)
    intro o ho
    cases o with
    | failure x => exact hop (.failure x)
    | success v =>
      obtain ⟨o, rfl, -⟩ := Value.Fits.exists_outcome ho
      exact hop (.success o)
  · rintro B E' f g h hf hg ⟨hh, hop⟩
    exact hsame (either_fold H HP he hm hf hg hh hop)
  · intro passes payload k thunk hpasses hpayload hcalm hk hthunk
    have h := assert_either_assert H HP he hm hpasses hpayload hcalm hk hthunk
    exact Runner.sameUpTo_of_matches H.agree hfit hfit World.Alike.untraced h (.refl hw)

/-! ### A language with operations on outcomes -/

/-- The operations on outcomes of texts, each with closures that tell their names. -/
inductive Gauge.Op where
  | map
  | mapError
  | andThen
  | swap
  | require
  | flatten
  | fold

/-- Closures that tell their names, and closures that call these for an outcome. -/
inductive Gauge where
  | tell (name : String)
  /-- Makes an effect of the outcome told. -/
  | lift
  | onOutcome (op : Gauge.Op)
  /-- Attempts the assertion on an outcome. -/
  | asserting
  /-- Asserts something of the outcome with this text. -/
  | asserted (failure : Bool) (text : String)

namespace Gauge

/-- Effects between texts. -/
abbrev Gauged : Type := Effect Unit Gauge .unit .text .text

/-- What closures of this language do, with their calls noted. -/
abbrev Noting (α : Type) : Type := Act Unit Gauge (Noted Unit Gauge Unit) α

def told (name : String) (args : List (Value Unit Gauge)) : Noting (Value Unit Gauge) :=
  .noted (.value (.tell name) args) (pure (.text name))

def tested (name : String) (v : Value Unit Gauge) : Noting Bool :=
  .noted (.test (.tell name) v) (pure false)

def decided (name : String) (v : Value Unit Gauge) :
    Noting (Outcome (Value Unit Gauge) (Value Unit Gauge)) :=
  .noted (.outcome (.tell name) v) (pure (.failure (.text name)))

def Op.act : Op → Outcome (Value Unit Gauge) (Value Unit Gauge) → Noting (Value Unit Gauge)
  | map, o => .outcome .text .text <$> o.mapM fun v => told "f" [v]
  | mapError, o => .outcome .text .text <$> o.mapFailureM fun x => told "f" [x]
  | andThen, o => .outcome .text .text <$> o.bindM (decided "f")
  | swap, o => pure (.outcome .text .text o.swap)
  | require, o => .outcome .text .text <$> o.requireM (tested "f") fun v => told "g" [v]
  | flatten, o => pure (.outcome .text .text o.absolved)
  | fold, o => o.foldM (fun x => told "f" [x]) fun v => told "g" [v]

/-- The closure that asserts something of an outcome. -/
def thunk : Outcome (Value Unit Gauge) (Value Unit Gauge) → Gauge
  | .failure (.text s) => asserted true s
  | .success (.text s) => asserted false s
  | _ => tell "f"

def value : Gauge → List (Value Unit Gauge) → Noting (Value Unit Gauge)
  | tell name, args => told name args
  | onOutcome op, [.outcome _ _ o] => op.act o
  | asserted failed s, _ =>
    .outcome .text .text <$>
      (if failed then Outcome.failure (.text s) else .success (.text s)).assertM (tested "f")
        fun v => told "g" [v]
  | _, _ => pure .unit

def effect : Gauge → List (Value Unit Gauge) → Noting (Node Unit Gauge)
  | lift, args =>
    (fun o => (Effect.ofOutcome o : Gauged).node) <$> decided "f" (args.headD .unit)
  | asserting, [.outcome _ _ o] => pure (Effect.attempt (thunk o) : Gauged).node
  | _, _ => pure (.succeed (.shared .unit))

end Gauge

open Gauge

@[reducible]
def Language.gauges : Language Unit Gauge (Noted Unit Gauge Unit) where
  value := Gauge.value
  test _ v := tested "f" v
  outcome _ v := decided "f" v
  effect := Gauge.effect
  handler _ _ := pure (.succeed (.shared .unit))
  cause _ := pure (.fail .unit)

/-- Closures that tell their names are declared to make texts of texts. -/
def Signature.gauges : Signature Gauge where
  value f _ A := A = .text ∧ ∃ name, f = .tell name
  test f A := A = .text ∧ ∃ name, f = .tell name
  outcome _ _ _ _ := False
  effect f _ _ E A := f = .lift ∧ E = .text ∧ A = .text
  handler _ _ _ _ _ := False
  cause _ _ := False
  fault _ := False

theorem Language.gauges_honours : Language.gauges.Honours Signature.gauges fun _ => True where
  value h _ := by
    obtain ⟨rfl, name, rfl⟩ := h
    exact fun _ _ => ⟨trivial, rfl, .text⟩
  test h _ := fun _ _ => ⟨trivial, trivial⟩
  outcome h _ := h.elim
  effect h _ := by
    obtain ⟨rfl, rfl, rfl⟩ := h
    exact fun _ _ => ⟨trivial, .failCause (.shared (.fail rfl .text))⟩
  handler h _ := h.elim
  cause h := h.elim

/-- What an outcome in an outcome holds is as reusable as the whole. -/
theorem Outcome.Reusable.absolved {P : Program K} {o : Outcome (Value D K) (Value D K)}
    (ho : o.Reusable P) : o.absolved.Reusable P := by
  cases o with
  | failure x => exact ho
  | success v =>
    have hv : v.Reusable P := ho
    cases hv with
    | success h => exact h
    | failure h => exact h
    | _ => exact ho

theorem Value.Reusable.ofOutcome {P : Program K} {o : Outcome (Value D K) (Value D K)}
    (ho : o.Reusable P) : (Value.outcome E A o).Reusable P := by
  cases o with
  | failure x => exact .failure ho
  | success v => exact .success ho

theorem Gauge.exists_text {v : Value Unit Gauge} (h : v.type = .text) : ∃ s, v = .text s := by
  cases v with
  | text s => exact ⟨s, rfl⟩
  | tuple items => exact absurd h (Value.types_ne (by simp) (by simp))
  | _ => cases h

theorem Gauge.Op.act_within (op : Op) {o : Outcome (Value Unit Gauge) (Value Unit Gauge)}
    (ho : o.Reusable (Program.all False)) :
    (op.act o).Within (Program.all False) (fun _ => True) (Value.Reusable (Program.all False)) := by
  cases op with
  | swap => cases o <;> exact Value.Reusable.ofOutcome ho
  | flatten => exact .ofOutcome (Outcome.Reusable.absolved ho)
  | map =>
    cases o with
    | failure x => exact .failure ho
    | success v => exact fun _ _ => ⟨trivial, .success .text⟩
  | mapError =>
    cases o with
    | failure x => exact fun _ _ => ⟨trivial, .failure .text⟩
    | success v => exact .success ho
  | andThen =>
    cases o with
    | failure x => exact .failure ho
    | success v => exact fun _ _ => ⟨trivial, .failure .text⟩
  | require =>
    cases o with
    | failure x => exact .failure ho
    | success v => exact fun _ _ => ⟨trivial, fun _ _ => ⟨trivial, .failure .text⟩⟩
  | fold => cases o <;> exact fun _ _ => ⟨trivial, .text⟩

theorem Language.gauges_within : Language.gauges.Within (Program.all False) fun _ => True where
  value {f args} _ hargs := by
    cases f with
    | tell name => exact fun _ _ => ⟨trivial, .text⟩
    | lift | asserting => exact .tuple fun v hv => nomatch hv
    | asserted failed s =>
      cases failed with
      | true => exact .failure .text
      | false => exact fun _ _ => ⟨trivial, fun _ _ => ⟨trivial, .text⟩⟩
    | onOutcome op =>
      have hunit : (Value.unit : Value Unit Gauge).Reusable (Program.all False) :=
        .tuple fun v hv => nomatch hv
      rcases args with _ | ⟨v, _ | ⟨u, args⟩⟩
      · exact hunit
      · have hv : v.Reusable (Program.all False) := hargs v (List.mem_singleton.mpr rfl)
        cases hv with
        | success h => exact op.act_within h
        | failure h => exact op.act_within h
        | _ => exact hunit
      · cases v <;> exact hunit
  test _ _ := fun _ _ => ⟨trivial, trivial⟩
  outcome _ _ := fun _ _ => ⟨trivial, .text⟩
  effect {f args} _ _ := by
    have hunit : (Node.succeed (.shared .unit) : Node Unit Gauge).Reusable (Program.all False) :=
      .succeed (.tuple fun v hv => nomatch hv)
    cases f with
    | lift => exact fun _ _ => ⟨trivial, .failCause (.shared (.fail .text))⟩
    | tell | onOutcome | asserted => exact hunit
    | asserting =>
      rcases args with _ | ⟨v, _ | ⟨u, args⟩⟩
      · exact hunit
      · cases v with
        | outcome _ _ o => exact .attempt trivial Value.AllReusable.nil
        | _ => exact hunit
      · cases v <;> exact hunit
  handler _ _ := .succeed (.tuple fun v hv => nomatch hv)
  cause _ := .fail (.tuple fun v hv => nomatch hv)

/-- All of the laws on a fresh runner, and what comes of the first one there. -/
theorem Effect.combinators_homomorphic_gauges :
    letI := Language.gauges
    let SameUpTo (view : Ending Unit Gauge → Ending Unit Gauge) {E E' A A' : Ty}
      (x : Effect Unit Gauge .unit E A) (y : Effect Unit Gauge .unit E' A') : Prop :=
      Runner.fresh.SameUpTo view (World.Alike (Program.all False : Program Gauge) fun _ => True)
        (Callees.ofFuel 1) (pure x.node) .fresh (pure y.node) (World.start ⟨(), []⟩)
    let here : Gauged := succeed (.text "here")
    let reified : Effect Unit Gauge .unit .text (.outcome .text .text) := here.either
    let nested : Effect Unit Gauge .unit .text (.outcome .text .text) :=
      succeed (.outcome .text .text (.failure (.text "lost")))
    let inner : Effect Unit Gauge .unit .text (.outcome .text (.outcome .text .text)) :=
      nested.either
    let after {A : Ty} (op : Gauge.Op) (e : Effect Unit Gauge .unit .text A) :
      Effect Unit Gauge .unit .text (.outcome .text .text) := e.map (.onOutcome op)
    let looked (e : Gauged) : Effect Unit Gauge .unit .text (.outcome .text .text) := e.either
    (SameUpTo id (looked (here.map (.tell "f"))) (after .map reified) ∧
      SameUpTo id (looked (here.mapError (.tell "f"))) (after .mapError reified) ∧
      SameUpTo id (looked (here.andThen .lift)) (after .andThen reified) ∧
      SameUpTo id (looked here.swap) (after .swap reified) ∧
      SameUpTo id (looked (here.require (.tell "f") (.tell "g"))) (after .require reified) ∧
      SameUpTo id (looked nested.absolve) (after .flatten inner) ∧
      SameUpTo id (here.fold (.tell "f") (.tell "g") : Gauged)
        (reified.map (.onOutcome .fold) : Gauged) ∧
      SameUpTo Ending.nameless (here.assert (.tell "f") (.tell "g"))
        (reified.andThen .asserting :
          Effect Unit Gauge .unit .text (.outcome .text .text)).absolve) ∧
    ∃ w', Runner.fresh.Evaluates (Callees.ofFuel 1) (pure (after .map reified).node)
        (World.start ⟨(), []⟩) (.ok (.success (.outcome .text .text (.success (.text "f"))))) w' ∧
      w'.calls = [.value (.tell "f") [.text "here"]] := by
  let _ := Language.gauges
  intro SameUpTo here reified nested inner after looked
  have hhere : here.Built Signature.gauges := .succeed ⟨rfl, .text⟩
  have hmade : here.Made (Program.all False) := .succeed .text
  have hnested : nested.Built Signature.gauges := .succeed ⟨rfl, .failure rfl .text⟩
  have hnested' : nested.Made (Program.all False) := .succeed (.failure .text)
  obtain ⟨h₁, h₂, h₃, h₄, h₅, h₆, h₇, h₈⟩ := combinators_homomorphic Language.gauges
    Language.gauges_honours Language.gauges_within 1 (r := .fresh) Runner.fresh_framesFit
    (R := .unit) .none (fun _ h => nomatch h) (w := World.start ⟨(), []⟩) trivial hhere hmade
  -- an outcome of texts is the one or the other
  have htexts : ∀ o : Outcome (Value Unit Gauge) (Value Unit Gauge),
      o.Fits Signature.gauges .text .text →
        ∃ s, o = .failure (.text s) ∨ o = .success (.text s) := by
    intro o ho
    cases o with
    | failure x =>
      obtain ⟨s, rfl⟩ := Gauge.exists_text ho.type
      exact ⟨s, .inl rfl⟩
    | success v =>
      obtain ⟨s, rfl⟩ := Gauge.exists_text ho.type
      exact ⟨s, .inr rfl⟩
  have htell : ∀ name, Signature.gauges.value (.tell name) [.text] .text := fun name =>
    ⟨rfl, name, rfl⟩
  refine ⟨⟨?_, ?_, ?_, ?_, ?_, ?_, ?_, ?_⟩, ?_⟩
  · exact h₁ .text .text (.tell "f") (.onOutcome .map) (htell "f") trivial ⟨trivial, fun _ _ => rfl⟩
  · exact h₂ .text .text (.tell "f") (.onOutcome .mapError) (htell "f") trivial
      ⟨trivial, fun _ _ => rfl⟩
  · exact h₃ .text .text (.tell "f") .lift (.onOutcome .andThen) ⟨rfl, rfl, rfl⟩ trivial trivial
      (fun _ _ => rfl) ⟨trivial, fun _ _ => rfl⟩
  · exact h₄ .text (.onOutcome .swap) ⟨trivial, fun _ _ => rfl⟩
  · exact h₅ .text (.tell "f") (.tell "g") (.onOutcome .require) ⟨rfl, "f", rfl⟩ (htell "g") trivial
      trivial ⟨trivial, fun _ _ => rfl⟩
  · exact h₆ .text .text nested (.onOutcome .flatten) hnested hnested' trivial
      fun o => by cases o <;> rfl
  · exact h₇ .text .text (.tell "f") (.tell "g") (.onOutcome .fold) trivial trivial
      ⟨trivial, fun _ _ => rfl⟩
  · refine h₈ (.tell "f") (.tell "g") .asserting Gauge.thunk trivial trivial ?_ (fun _ _ => rfl) ?_
    · exact fun v _ => ⟨fun _ _ _ _ h => (nomatch h), fun _ _ _ _ h => (nomatch h)⟩
    · intro o ho
      obtain ⟨s, rfl | rfl⟩ := htexts o ho <;> rfl
  · have hruns : ∃ w', Runner.fresh.evaluate (Callees.ofFuel 1) 20 (after .map reified).node
        (World.start ⟨(), []⟩) =
          some (.ok (.success (.outcome .text .text (.success (.text "f")))), ⟨{}, #[], 5⟩, w') ∧
        w'.calls = [.value (.tell "f") [.text "here"]] := ⟨_, rfl, rfl⟩
    obtain ⟨w', heval, hcalls⟩ := hruns
    exact ⟨w', .ended rfl heval, hcalls⟩

end EffectMachine
