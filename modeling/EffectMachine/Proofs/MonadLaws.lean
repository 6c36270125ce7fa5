/-
  The laws of sequencing.

  Effects are put one after another by `andThen`, and after a failure by `recover`; `foldCause` does
  both at once and for defects too.  Each of the three obeys the laws one expects of it: to go on
  with an effect that was there from the start does nothing, to end with going on as one has come is
  to do nothing, and it makes no difference how three effects are bracketed.

  The two sides of a law are different trees.  Under either bracketing other frames are pending
  while the effects in the middle run, and another handler is nearest; and the closure that stands
  on one side for a sequence of two has no counterpart on the other.  What such a composed closure
  does is said by equations (`Language.Wraps`): it does what another closure does, and puts a
  combinator around the effect which that one returns.

  A law says that the two sides cannot be told apart, under any environment and whatever the effects
  in it do: they read it, bind others, fail, die, raise or change the state.  What differs is how
  many nodes are dispatched and how many cells of the library are used up.
-/
import EffectMachine.Proofs.Matching

namespace EffectMachine

variable {D K σ : Type} {R R' E E' E'' A B C : Ty}

/-! ## Closures made of others -/

namespace Language

/-- The closure makes this effect of a value, and does nothing else. -/
def Makes (M : Language D K σ) (k : K) (make : Value D K → Effect D K R E A) : Prop :=
  ∀ v, M.effect k [v] = pure (make v).node

/-- The closure ends in the cause it is called on, handing it over. -/
def Halts (M : Language D K σ) (k : K) : Prop :=
  ∀ c, M.handler k c = Effect.node <$> (Effect.halt c : Act D K σ (Effect D K .unit .unit .unit))

/-- On a value `h` does what `f` does, and puts this around the effect that `f` returns. -/
def Wraps (M : Language D K σ) (f h : K) (wrap : Effect D K R E A → Effect D K R' E' B) : Prop :=
  ∀ v, M.effect h [v] = (fun node => (wrap ⟨node⟩).node) <$> M.effect f [v]

/-- On a cause `h` does what `f` does, and puts this around the effect that `f` returns. -/
def WrapsHandler (M : Language D K σ) (f h : K)
    (wrap : Effect D K R E A → Effect D K R' E' B) : Prop :=
  ∀ c, M.handler h c = (fun node => (wrap ⟨node⟩).node) <$> M.handler f c

end Language

section Composed

variable [M : Language D K σ] {env : Option (Value D K)}

/-- What comes of a wrapped effect comes of the wrapper, after what the closure inside does. -/
theorem Language.Wraps.result {f h : K} {wrap : Effect D K R E A → Effect D K R' E' B}
    (hh : M.Wraps f h wrap) (v : Value D K) :
    Play.act (M.effect h [v]) >>= Node.result env =
      Play.act (M.effect f [v]) >>= fun node => (wrap ⟨node⟩).node.result env := by
  rw [hh v, Play.act_map, bind_map_left]

/-- What the wrapping closure makes means what the other one makes, wrapped. -/
theorem Language.WrapsHandler.result {f h : K} {wrap : Effect D K R E A → Effect D K R' E' B}
    (hh : M.WrapsHandler f h wrap) (c : Cause (Value D K)) :
    Play.act (M.handler h c) >>= Node.result env =
      Play.act (M.handler f c) >>= fun node => (wrap ⟨node⟩).node.result env := by
  rw [hh c, Play.act_map, bind_map_left]

/-- A cause that is handed over and taken right away is what there is in the end, and one cell that
    cannot be taken any more. -/
theorem Language.Halts.result {k : K} (hk : M.Halts k) (c : Cause (Value D K))
    (callees : Callees D K σ) (w : World σ) :
    (Play.act (M.handler k c) >>= Node.result env) callees w =
      some (.ok (.failure c), { w with halts := w.halts.push true }) := by
  obtain ⟨s, halts, cells, trace⟩ := w
  rw [hk c, Play.act_map, bind_map_left, Play.bind_apply]
  show (Node.failCause (.halted halts.size c)).result env callees
    ⟨s, halts.push false, cells, trace⟩ = _
  rw [Node.result_leaf rfl, map_eq_pure_bind, Play.bind_apply]
  simp only [Source.take, Play.bind_apply, Play.takeHalt, takeCell_push, if_true]
  rfl

end Composed

/-! ## The laws, read off the trees -/

/-- Played in one world the two come to the same, and what they leave cannot be told apart. -/
def Play.Indistinct {α : Type} (I : Noted D K σ → Prop) (c : Callees D K (Noted D K σ))
    (x y : Play D K (Noted D K σ) α) : Prop :=
  Play.Matches c (World.Identical I) World.Indistinct (fun _ => True) x y

section Laws

variable [M : Language D K (Noted D K σ)] {Γ : Signature K} {I : Noted D K σ → Prop}
  {c : Callees D K (Noted D K σ)} {env : Option (Value D K)} {e : Effect D K R E A}

omit M in
theorem Play.Indistinct.of_eq {α : Type} {x y : Play D K (Noted D K σ) α} (h : x = y) :
    Play.Indistinct I c x y := h ▸ Play.matches_self World.Indistinct.refl x

omit M in
/-- Cells that are used up before the end are out of sight. -/
theorem Play.Indistinct.spent (j k : Nat) (ending : Ending D K) :
    Play.Indistinct I c (Play.spend j >>= fun _ => pure ending)
      (Play.spend k >>= fun _ => pure ending) := by
  rintro w _ ⟨rfl, -⟩
  exact .returned (((World.Indistinct.refl w).spent_left j).spent_right k) trivial

variable (H : TypedRun M Γ I c R env)

include H

/-- To compare what follows on a typed effect is to compare it on a value, on an error and on a
    defect, each as it is typed. -/
theorem Effect.Built.indistinct (he : e.Built Γ) {F G : Ending D K → Play D K _ (Ending D K)}
    (hvalue : ∀ v, v.Fits Γ A → Play.Indistinct I c (F (.success v)) (G (.success v)))
    (herror : ∀ x, x.Fits Γ E →
      Play.Indistinct I c (F (.failure (.fail x))) (G (.failure (.fail x))))
    (hdefect : ∀ d, Play.Indistinct I c (F (.failure (.die d))) (G (.failure (.die d)))) :
    Play.Indistinct I c (e.node.result env >>= F) (e.node.result env >>= G) := by
  refine (H.result_sound he.typed).matches.bind ?_ fun ending hending => ?_
  · rintro w _ ⟨rfl, -⟩
    exact .refl w
  · cases ending with
    | success v => exact hvalue v hending
    | failure cause =>
      cases hending with
      | fail htype hx => exact herror _ ⟨htype, hx⟩
      | die => exact hdefect _

omit H in
/-- Left identity: a value is handed to the closure. -/
theorem succeed_andThen {a : Value D K} (ha : a.Fits Γ A) (f : K) :
    ((Effect.succeed a : Effect D K R E A).andThen f : Effect D K R E B).node.result env =
      Play.act (M.effect f [a]) >>= Node.result env := by
  rw [Effect.andThen, Effect.linked_result, Effect.succeed, Node.result_succeed, pure_bind]
  simp only [Link.followTyped_of_fits ha, Link.follow]

/-- Right identity: to go on with the value one has is to do nothing. -/
theorem andThen_succeed (he : e.Built Γ) {k : K}
    (hk : M.Makes k (Effect.succeed : _ → Effect D K R E A)) :
    Play.Indistinct I c ((e.andThen k : Effect D K R E A).node.result env) (e.node.result env) := by
  rw [Effect.andThen, Effect.linked_result, ← bind_pure (e.node.result env), bind_assoc]
  simp only [pure_bind]
  refine he.indistinct H (fun v hv => .of_eq ?_) (fun x _ => .of_eq rfl) (fun d => .of_eq rfl)
  simp only [Link.followTyped_of_fits hv, Link.follow, hk v, Play.act_pure, pure_bind,
    Effect.succeed, Node.result_succeed]

/-- Associativity: the second closure goes on inside of the effect that the first one makes. -/
theorem andThen_andThen (he : e.Built Γ) {f g h : K}
    (hh : M.Wraps f h fun n : Effect D K R E B => (n.andThen g : Effect D K R E C)) :
    Play.Indistinct I c
      (((e.andThen f : Effect D K R E B).andThen g : Effect D K R E C).node.result env)
      ((e.andThen h : Effect D K R E C).node.result env) := by
  simp only [Effect.andThen, Effect.linked_result, bind_assoc]
  refine he.indistinct H (fun v hv => .of_eq ?_) (fun x _ => .of_eq rfl) (fun d => .of_eq rfl)
  simp only [Link.followTyped_of_fits hv, Link.follow, hh.result, Effect.andThen,
    Effect.linked_result, bind_assoc]

omit H in
/-- Left identity on the side of failures. -/
theorem fail_recover {x : Value D K} (hx : x.Fits Γ E) (f : K) :
    ((Effect.fail x : Effect D K R E A).recover f : Effect D K R E' A).node.result env =
      Play.act (M.effect f [x]) >>= Node.result env := by
  rw [Effect.recover, Effect.folded_result, Effect.fail, Node.result_failCause, pure_bind]
  simp only [Handler.onFailure_fail hx, Link.follow]

/-- Right identity on the side of failures: to fail again with the error one has. -/
theorem recover_fail (he : e.Built Γ) {k : K}
    (hk : M.Makes k (Effect.fail : _ → Effect D K R E A)) :
    Play.Indistinct I c ((e.recover k : Effect D K R E A).node.result env) (e.node.result env) := by
  rw [Effect.recover, Effect.folded_result, ← bind_pure (e.node.result env), bind_assoc]
  simp only [pure_bind]
  refine he.indistinct H (fun v hv => ?_) (fun x hx => .of_eq ?_) (fun d => ?_)
  · simp only [Link.followTyped_of_fits hv, Link.follow, Node.succeedOnce_result]
    exact .spent 1 0 _
  · simp only [Handler.onFailure_fail hx, Link.follow, hk x, Play.act_pure, pure_bind, Effect.fail,
      Node.result_failCause]
  · simp only [Handler.onFailure_die, Node.haltOnce_result]
    exact .spent 1 0 _

/-- Associativity on the side of failures. -/
theorem recover_recover (he : e.Built Γ) {f g h : K}
    (hh : M.Wraps f h fun n : Effect D K R E' A => (n.recover g : Effect D K R E'' A)) :
    Play.Indistinct I c
      (((e.recover f : Effect D K R E' A).recover g : Effect D K R E'' A).node.result env)
      ((e.recover h : Effect D K R E'' A).node.result env) := by
  simp only [Effect.recover, Effect.folded_result, bind_assoc]
  refine he.indistinct H (fun v hv => ?_) (fun x hx => .of_eq ?_) (fun d => ?_)
  · simp only [Link.followTyped_of_fits hv, Link.follow, Node.succeedOnce_result]
    simp only [bind_assoc, pure_bind, Link.followTyped_of_fits hv, Link.follow,
      Node.succeedOnce_result]
    exact .spent 2 1 _
  · simp only [Handler.onFailure_fail hx, Link.follow, hh.result, Effect.recover,
      Effect.folded_result, bind_assoc]
  · simp only [Handler.onFailure_die, Node.haltOnce_result]
    simp only [bind_assoc, pure_bind, Handler.onFailure_die, Node.haltOnce_result]
    exact .spent 2 1 _

/-- To hand a cause on as a cause and a value as a value is to do nothing.  The halt that the handler
    makes is evaluated at once, and all that is left of it is a cell that has been taken. -/
theorem foldCause_halt_succeed (he : e.Built Γ) {k k' : K} (hk : M.Halts k)
    (hk' : M.Makes k' (Effect.succeed : _ → Effect D K R E A)) :
    Play.Indistinct I c ((e.foldCause k k' : Effect D K R E A).node.result env)
      (e.node.result env) := by
  have hhalt : ∀ cause : Cause (Value D K), Play.Indistinct I c
      (Play.act (M.handler k cause) >>= Node.result env) (pure (.failure cause)) := by
    rintro cause w _ ⟨rfl, -⟩
    rw [hk.result]
    refine .returned ⟨rfl, rfl, fun n => ?_⟩ trivial
    show (w.halts.push true)[n]? = some false ↔ _
    rw [Array.getElem?_push]
    split
    · rename_i hn
      rw [hn, Array.getElem?_eq_none (Nat.le_refl _)]
      simp
    · rfl
  rw [Effect.foldCause_result, ← bind_pure (e.node.result env), bind_assoc]
  simp only [pure_bind]
  refine he.indistinct H (fun v hv => .of_eq ?_) (fun x hx => ?_) (fun d => ?_)
  · simp only [Link.followTyped_of_fits hv, Link.follow, hk' v, Play.act_pure, pure_bind,
      Effect.succeed, Node.result_succeed]
  · simp only [Handler.onCause_resume (Cause.Typed.ofFail hx)]
    exact hhalt _
  · exact hhalt _

/-- Associativity of the fold over causes, on both sides at once. -/
theorem foldCause_foldCause (he : e.Built Γ) {f g f₂ g₂ h h' : K}
    (hh : M.WrapsHandler f h fun n : Effect D K R E' B =>
      (n.foldCause f₂ g₂ : Effect D K R E'' C))
    (hh' : M.Wraps g h' fun n : Effect D K R E' B => (n.foldCause f₂ g₂ : Effect D K R E'' C)) :
    Play.Indistinct I c
      (((e.foldCause f g : Effect D K R E' B).foldCause f₂ g₂ :
        Effect D K R E'' C).node.result env)
      ((e.foldCause h h' : Effect D K R E'' C).node.result env) := by
  simp only [Effect.foldCause_result, bind_assoc]
  refine he.indistinct H (fun v hv => .of_eq ?_) (fun x hx => .of_eq ?_) (fun d => .of_eq ?_)
  · simp only [Link.followTyped_of_fits hv, Link.follow, hh'.result, Effect.foldCause_result,
      bind_assoc]
  · simp only [Handler.onCause_resume (Cause.Typed.ofFail hx), hh.result, Effect.foldCause_result,
      bind_assoc]
  · simp only [Handler.resume, Cause.typed, hh.result, Effect.foldCause_result, bind_assoc]

/-- A fold behind a sequence: the cause may come from either part, so the second closure is folded
    as well. -/
theorem andThen_foldCause (he : e.Built Γ) {h f g h' : K}
    (hh : M.Wraps h h' fun n : Effect D K R E B => (n.foldCause f g : Effect D K R E' C)) :
    Play.Indistinct I c
      (((e.andThen h : Effect D K R E B).foldCause f g : Effect D K R E' C).node.result env)
      ((e.foldCause f h' : Effect D K R E' C).node.result env) := by
  simp only [Effect.foldCause_result, Effect.andThen, Effect.linked_result, bind_assoc]
  refine he.indistinct H (fun v hv => .of_eq ?_) (fun x hx => .of_eq ?_) (fun d => .of_eq ?_)
  · simp only [Link.followTyped_of_fits hv, Link.follow, hh.result, Effect.foldCause_result,
      bind_assoc]
  · simp only [pure_bind]
  · simp only [pure_bind]

end Laws

/-! ## The laws, of what the machine does -/

/-- Sequencing obeys the laws of a monad, for values, for errors and for both of them and defects.

    Take closures that do as they are declared and a runner that has room for its frames, with
    whatever environments are bound, the innermost of the type that is read.  From any world, either
    side of each law ends if the other one does, and both end in the same value, in the same
    failure, in the same defect with the same name kept with it, or in the same payload raised.
    They leave the same shared state, with the same calls noted in it in the same order, and the
    same causes handed over are there to be taken.

    Which calls are noted is up to the closures.  Those that are composed of others call these as
    they do themselves, so that where the others note their calls these are found on both sides. -/
theorem Effect.sequencing_lawful (M : Language D K (Noted D K σ)) {Γ : Signature K}
    {I : Noted D K σ → Prop} (hM : M.Honours Γ I) (depth : Nat) {r : Runner D K}
    (hfit : r.settings.framesFit = true) {R : Ty} (henv : Supplied Γ R r.environments.back?)
    {w : World (Noted D K σ)} (hw : I w.state) :
    letI := M
    let Same (x y : Act D K (Noted D K σ) (Node D K)) : Prop :=
      r.Same World.Indistinct (Callees.ofFuel depth) x r y w
    -- to go on with an effect, and what is made of the value
    (∀ (E A B : Ty) (a : Value D K) (f : K), a.Fits Γ A →
      Same (pure ((succeed a : Effect D K R E A).andThen f : Effect D K R E B).node)
        (M.effect f [a])) ∧
    (∀ (E A : Ty) (e : Effect D K R E A), e.Built Γ →
      ∀ k, M.Makes k (succeed : _ → Effect D K R E A) →
        Same (pure (e.andThen k : Effect D K R E A).node) (pure e.node)) ∧
    (∀ (E A B C : Ty) (e : Effect D K R E A), e.Built Γ →
      ∀ f g h, M.Wraps f h (fun n : Effect D K R E B => (n.andThen g : Effect D K R E C)) →
        Same (pure ((e.andThen f : Effect D K R E B).andThen g : Effect D K R E C).node)
          (pure (e.andThen h : Effect D K R E C).node)) ∧
    -- to go on after a failure
    (∀ (E E' A : Ty) (x : Value D K) (f : K), x.Fits Γ E →
      Same (pure ((fail x : Effect D K R E A).recover f : Effect D K R E' A).node)
        (M.effect f [x])) ∧
    (∀ (E A : Ty) (e : Effect D K R E A), e.Built Γ →
      ∀ k, M.Makes k (fail : _ → Effect D K R E A) →
        Same (pure (e.recover k : Effect D K R E A).node) (pure e.node)) ∧
    (∀ (E E' E'' A : Ty) (e : Effect D K R E A), e.Built Γ →
      ∀ f g h, M.Wraps f h (fun n : Effect D K R E' A => (n.recover g : Effect D K R E'' A)) →
        Same (pure ((e.recover f : Effect D K R E' A).recover g : Effect D K R E'' A).node)
          (pure (e.recover h : Effect D K R E'' A).node)) ∧
    -- to go on in any case
    (∀ (E A : Ty) (e : Effect D K R E A), e.Built Γ →
      ∀ k k', M.Halts k → M.Makes k' (succeed : _ → Effect D K R E A) →
        Same (pure (e.foldCause k k' : Effect D K R E A).node) (pure e.node)) ∧
    (∀ (E E' E'' A B C : Ty) (e : Effect D K R E A), e.Built Γ → ∀ f g f₂ g₂ h h',
      M.WrapsHandler f h (fun n : Effect D K R E' B => (n.foldCause f₂ g₂ : Effect D K R E'' C)) →
      M.Wraps g h' (fun n : Effect D K R E' B => (n.foldCause f₂ g₂ : Effect D K R E'' C)) →
        Same (pure ((e.foldCause f g : Effect D K R E' B).foldCause f₂ g₂ :
            Effect D K R E'' C).node)
          (pure (e.foldCause h h' : Effect D K R E'' C).node)) ∧
    (∀ (E E' A B C : Ty) (e : Effect D K R E A), e.Built Γ → ∀ h f g h',
      M.Wraps h h' (fun n : Effect D K R E B => (n.foldCause f g : Effect D K R E' C)) →
        Same (pure ((e.andThen h : Effect D K R E B).foldCause f g : Effect D K R E' C).node)
          (pure (e.foldCause f h' : Effect D K R E' C).node)) := by
  let _ := M
  intro Same
  have H : TypedRun M Γ I (Callees.ofFuel depth) R r.environments.back? := .ofFuel hM depth henv
  have hsame : ∀ {x y : Act D K (Noted D K σ) (Node D K)},
      Play.Indistinct I (Callees.ofFuel depth) (r.meaning x) (r.meaning y) → Same x y := fun h =>
    Runner.same_of_matches H.agree hfit hfit World.Indistinct.untraced h ⟨rfl, hw⟩
  refine ⟨?_, ?_, ?_, ?_, ?_, ?_, ?_, ?_, ?_⟩
  · intro E A B a f ha
    exact hsame (.of_eq (succeed_andThen ha f))
  · intro E A e he k hk
    exact hsame (andThen_succeed H he hk)
  · intro E A B C e he f g h hh
    exact hsame (andThen_andThen H he hh)
  · intro E E' A x f hx
    exact hsame (.of_eq (fail_recover hx f))
  · intro E A e he k hk
    exact hsame (recover_fail H he hk)
  · intro E E' E'' A e he f g h hh
    exact hsame (recover_recover H he hh)
  · intro E A e he k k' hk hk'
    exact hsame (foldCause_halt_succeed H he hk hk')
  · intro E E' E'' A B C e he f g f₂ g₂ h h' hh hh'
    exact hsame (foldCause_foldCause H he hh hh')
  · intro E E' A B C e he h f g h' hh
    exact hsame (andThen_foldCause H he hh)

/-! ### A language of closures made of others -/

/-- Closures that tell their names, and closures made of others. -/
inductive Stage where
  /-- Succeeds with its name. -/
  | tell (name : String)
  | succeed
  | fail
  | halt
  | andThen (f g : Stage)
  | recover (f g : Stage)
  | foldCause (f onCause onSuccess : Stage)

/-- Effects between texts. -/
abbrev Staged : Type := Effect Unit Stage .unit .text .text

namespace Stage

/-- What a closure puts around the effect of the first closure it is made of. -/
def around : Stage → Staged → Staged
  | andThen _ g, n => n.andThen g
  | recover _ g, n => n.recover g
  | foldCause _ onCause onSuccess, n => n.foldCause onCause onSuccess
  | _, n => n

/-- Only the closures that tell their names note that they are called. -/
def effect : Stage → List (Value Unit Stage) →
    Act Unit Stage (Noted Unit Stage Unit) (Node Unit Stage)
  | tell name, args => .noted (.effect (.tell name) args) (pure (.succeed (.shared (.text name))))
  | succeed, args => pure (.succeed (.shared (args.headD .unit)))
  | fail, args => pure (.failCause (.shared (.fail (args.headD .unit))))
  | halt, _ => pure (.ofFault .alreadyConsumed)
  | andThen f g, args => (fun node => (around (andThen f g) ⟨node⟩).node) <$> f.effect args
  | recover f g, args => (fun node => (around (recover f g) ⟨node⟩).node) <$> f.effect args
  | foldCause f g h, args => (fun node => (around (foldCause f g h) ⟨node⟩).node) <$> f.effect args

def handler : Stage → Cause (Value Unit Stage) →
    Act Unit Stage (Noted Unit Stage Unit) (Node Unit Stage)
  | tell name, c => .noted (.handler (.tell name) c) (pure (.succeed (.shared (.text name))))
  | halt, c => Effect.node <$> (Effect.halt c : Act _ _ _ Staged)
  | foldCause f g h, c => (fun node => (around (foldCause f g h) ⟨node⟩).node) <$> f.handler c
  | _, c => pure (.failCause (.shared c))

end Stage

@[reducible]
def Language.stages : Language Unit Stage (Noted Unit Stage Unit) where
  value _ _ := pure .unit
  test _ _ := pure true
  outcome _ v := pure (.success v)
  effect := Stage.effect
  handler := Stage.handler
  cause _ := pure (.fail .unit)

/-- Closures that tell their names are declared to produce texts. -/
def Signature.stages : Signature Stage where
  value _ _ _ := False
  test _ _ := False
  outcome _ _ _ _ := False
  effect f _ _ _ A := A = .text ∧ ∃ name, f = .tell name
  handler f _ _ _ A := A = .text ∧ ∃ name, f = .tell name
  cause _ _ := False
  fault _ := False

theorem Language.stages_honours : Language.stages.Honours Signature.stages fun _ => True where
  value h _ := h.elim
  test h _ := h.elim
  outcome h _ := h.elim
  effect h _ := by
    obtain ⟨rfl, name, rfl⟩ := h
    exact fun _ _ => ⟨trivial, .succeed (.shared rfl .text)⟩
  handler h _ := by
    obtain ⟨rfl, name, rfl⟩ := h
    exact fun _ _ => ⟨trivial, .succeed (.shared rfl .text)⟩
  cause h := h.elim

/-- All of the laws on a fresh runner, and what three effects in sequence come to there. -/
theorem Effect.sequencing_lawful_stages :
    letI := Language.stages
    let Same (x y : Act Unit Stage (Noted Unit Stage Unit) (Node Unit Stage)) : Prop :=
      Runner.fresh.Same World.Indistinct (Callees.ofFuel 1) x .fresh y (World.start ⟨(), []⟩)
    let here : Staged := succeed (.text "here")
    let lost : Staged := fail (.text "lost")
    (Same (pure (here.andThen (.tell "a") : Staged).node)
        (Stage.effect (.tell "a") [.text "here"]) ∧
      Same (pure (here.andThen .succeed : Staged).node) (pure here.node) ∧
      Same (pure ((here.andThen (.tell "a") : Staged).andThen (.tell "b") : Staged).node)
        (pure (here.andThen (.andThen (.tell "a") (.tell "b")) : Staged).node)) ∧
    (Same (pure (lost.recover (.tell "a") : Staged).node)
        (Stage.effect (.tell "a") [.text "lost"]) ∧
      Same (pure (lost.recover .fail : Staged).node) (pure lost.node) ∧
      Same (pure ((lost.recover .fail : Staged).recover (.tell "b") : Staged).node)
        (pure (lost.recover (.recover .fail (.tell "b")) : Staged).node)) ∧
    (Same (pure (lost.foldCause .halt .succeed : Staged).node) (pure lost.node) ∧
      Same (pure ((lost.foldCause .halt (.tell "a") : Staged).foldCause (.tell "b") (.tell "c") :
          Staged).node)
        (pure (lost.foldCause (.foldCause .halt (.tell "b") (.tell "c"))
          (.foldCause (.tell "a") (.tell "b") (.tell "c")) : Staged).node) ∧
      Same (pure ((here.andThen (.tell "a") : Staged).foldCause (.tell "b") (.tell "c") :
          Staged).node)
        (pure (here.foldCause (.tell "b")
          (.foldCause (.tell "a") (.tell "b") (.tell "c")) : Staged).node)) ∧
    ∃ w', Runner.fresh.Evaluates (Callees.ofFuel 1)
        (pure ((here.andThen (.tell "a") : Staged).andThen (.tell "b") : Staged).node)
        (World.start ⟨(), []⟩) (.ok (.success (.text "b"))) w' ∧
      w'.calls = [.effect (.tell "b") [.text "a"], .effect (.tell "a") [.text "here"]] := by
  let _ := Language.stages
  intro Same here lost
  have hhere : here.Built Signature.stages := .succeed ⟨rfl, .text⟩
  have hlost : lost.Built Signature.stages := .fail ⟨rfl, .text⟩
  obtain ⟨h₁, h₂, h₃, h₄, h₅, h₆, h₇, h₈, h₉⟩ := sequencing_lawful Language.stages
    Language.stages_honours 1 (r := .fresh) Runner.fresh_framesFit (R := .unit) .none
    (w := World.start ⟨(), []⟩) trivial
  refine ⟨⟨?_, ?_, ?_⟩, ⟨?_, ?_, ?_⟩, ⟨?_, ?_, ?_⟩, ?_⟩
  · exact h₁ .text .text .text (.text "here") (.tell "a") ⟨rfl, .text⟩
  · exact h₂ .text .text here hhere .succeed fun _ => rfl
  · exact h₃ .text .text .text .text here hhere (.tell "a") (.tell "b") _ fun _ => rfl
  · exact h₄ .text .text .text (.text "lost") (.tell "a") ⟨rfl, .text⟩
  · exact h₅ .text .text lost hlost .fail fun _ => rfl
  · exact h₆ .text .text .text .text lost hlost .fail (.tell "b") _ fun _ => rfl
  · exact h₇ .text .text lost hlost .halt .succeed (fun _ => rfl) fun _ => rfl
  · exact h₈ .text .text .text .text .text .text lost hlost .halt (.tell "a") (.tell "b")
      (.tell "c") _ _ (fun _ => rfl) fun _ => rfl
  · exact h₉ .text .text .text .text .text here hhere (.tell "a") (.tell "b") (.tell "c") _
      fun _ => rfl
  · have hruns : ∃ w', Runner.fresh.evaluate (Callees.ofFuel 1) 20
        ((here.andThen (.tell "a") : Staged).andThen (.tell "b") : Staged).node
        (World.start ⟨(), []⟩) = some (.ok (.success (.text "b")), ⟨{}, #[], 5⟩, w') ∧
        w'.calls = [.effect (.tell "b") [.text "a"], .effect (.tell "a") [.text "here"]] :=
      ⟨_, rfl, rfl⟩
    obtain ⟨w', heval, hcalls⟩ := hruns
    exact ⟨w', .ended rfl heval, hcalls⟩

end EffectMachine
