/-
  The typed channel, emptied and filled again.

  `either` takes the typed failures of an effect out of the way, by making values of them, and
  `absolve` puts them back.  On what effects end in the two are functions, `Ending.reified` and
  `Ending.absolved`, and these are inverse to each other: to absolve what was reified gives every
  ending back, and to reify what was absolved gives back every ending but a typed failure, which
  has become an outcome in between.  That the effects are inverse to each other as well is no more
  than that.

  What is left without typed failures is said in the same way, by what the functions make of an
  ending.  The handlers of `foldM` are effects of their own, and there it is the course that is
  told: the effect, then the one handler or the other, and nothing after it.
-/
import EffectMachine.Proofs.Courses
import EffectMachine.Proofs.OutcomeLaws

namespace EffectMachine

variable {D K σ : Type} {R E E' E'' A B : Ty}

/-! ## What is made of endings -/

namespace Ending

/-- The outcome that the ending amounts to, as a value.  A defect amounts to none, and stays. -/
def reified (E A : Ty) : Ending D K → Ending D K
  | .success v => .success (.outcome E A (.success v))
  | .failure (.fail x) => .success (.outcome E A (.failure x))
  | .failure (.die d) => .failure (.die d)

/-- The ending that an outcome as a value amounts to. -/
def absolved : Ending D K → Ending D K
  | .success (.outcome _ _ o) => ofOutcome o
  | ending => ending

/-- The typed error becomes the payload of a defect. -/
def escalated : Ending D K → Ending D K
  | .failure (.fail x) => .failure (.dieWith x)
  | ending => ending

/-- The ending is a value or a defect. -/
def Unfailing (ending : Ending D K) : Prop := ∀ x, ending ≠ .failure (.fail x)

theorem reified_unfailing (ending : Ending D K) : (ending.reified E A).Unfailing := by
  intro x
  rcases ending with (_ | _) | _ <;> nofun

theorem escalated_unfailing (ending : Ending D K) : ending.escalated.Unfailing := by
  intro x
  rcases ending with (_ | _) | _ <;> nofun

/-- To put an outcome together and take it apart again gives the ending back. -/
theorem absolved_reified (ending : Ending D K) : (ending.reified E A).absolved = ending := by
  rcases ending with (_ | _) | _ <;> rfl

/-- The other way round something may get lost: a failure of the effect itself, and one that the
    outcome holds, come out alike.  Where the effect does not fail nothing is lost. -/
theorem reified_absolved {Γ : Signature K} {ending : Ending D K}
    (h : Ending.Typed Γ E' (.outcome E A) ending) (hfail : ending.Unfailing) :
    ending.absolved.reified E A = ending := by
  rcases ending with (x | d) | v
  · exact absurd rfl (hfail x)
  · rfl
  · obtain ⟨o, rfl, -⟩ := Value.Fits.exists_outcome h
    cases o <;> rfl

end Ending

/-- What is made of an ending by one play and then by another. -/
theorem Play.SameAs.map_map {P : Program K} {I : σ → Prop} {c : Callees D K σ}
    {f g : Ending D K → Ending D K} {x y z : Play D K σ (Ending D K)}
    (hx : Play.Equal P I c x (f <$> y)) (hy : Play.Equal P I c y (g <$> z)) :
    Play.Equal P I c x ((fun ending => f (g ending)) <$> z) := by
  have hboth : (fun ending => f (g ending)) <$> z = f <$> g <$> z := (Functor.map_map ..).symm
  rw [hboth]
  exact Play.SameAs.trans hx (Play.Matches.map hy f fun _ _ => trivial)

/-! ## What the combinators do -/

section Combinators

variable [M : Language D K σ] {Γ : Signature K} {P : Program K} {I : σ → Prop}
  {c : Callees D K σ} {env : Option (Value D K)} {e : Effect D K R E A}
  (H : TypedRun M Γ I c R env) (HP : ProgramRun M P I c env)

include H HP

theorem either_reifies (he : e.Built Γ) (hm : e.Made P) :
    Play.Equal P I c ((e.either : Effect D K R E' (.outcome E A)).node.result env)
      (Ending.reified E A <$> e.node.result env) := by
  refine (either_acts H HP he hm).trans ?_
  rw [map_eq_pure_bind]
  exact e.sameAs_of_endings H HP he hm (fun _ _ _ => .pure trivial) (fun _ _ _ => .pure trivial)
    fun _ => .pure trivial

theorem absolve_absolves {e : Effect D K R E (.outcome E A)} (he : e.Built Γ) (hm : e.Made P) :
    Play.Equal P I c (e.absolve.node.result env) (Ending.absolved <$> e.node.result env) := by
  refine (absolve_acts H HP he hm).trans ?_
  rw [map_eq_pure_bind]
  refine e.sameAs_of_endings H HP he hm (fun v hv _ => ?_) (fun _ _ _ => .pure trivial)
    fun _ => .pure trivial
  obtain ⟨o, rfl, -⟩ := hv.exists_outcome
  exact .pure trivial

theorem orDie_escalates (he : e.Built Γ) (hm : e.Made P) :
    Play.Equal P I c ((e.orDie : Effect D K R E' A).node.result env)
      (Ending.escalated <$> e.node.result env) := by
  rw [Effect.orDie, Node.result_fold, map_eq_pure_bind]
  refine e.sameAs_of_endings H HP he hm (fun v hv _ => ?_) (fun x hx _ => ?_) fun d => .halted _
  · simp only [Continuation.resume, Link.followTyped_of_fits hv]
    exact .succeeded v
  · simp only [Handler.resume, (Cause.Typed.ofFail hx).typed_eq]
    exact .halted _

/-- `either` undone by `absolve`. -/
theorem absolve_either (he : e.Built Γ) (hm : e.Made P) :
    Play.Equal P I c (e.either.absolve.node.result env) (e.node.result env) := by
  have h := Play.SameAs.map_map (absolve_absolves H HP he.either hm.either)
    (either_reifies H HP he hm)
  simpa only [Ending.absolved_reified, id_map'] using h

/-- `absolve` undone by `either`, as far as endings go. -/
theorem either_absolve {e : Effect D K R E (.outcome E A)} (he : e.Built Γ) (hm : e.Made P) :
    Play.Equal P I c ((e.absolve.either : Effect D K R E' (.outcome E A)).node.result env)
      ((fun ending => ending.absolved.reified E A) <$> e.node.result env) :=
  Play.SameAs.map_map (either_reifies H HP he.absolve hm.absolve) (absolve_absolves H HP he hm)

omit H in
/-- What a closure is called for is evaluated. -/
theorem ProgramRun.effect_acts {f : K} (hf : P.closures f) {v : Value D K} (hv : v.Reusable P) :
    Play.Equal P I c ((Link.call f).follow v >>= Node.result env)
      (Play.act (M.effect f [v]) >>= Node.result env) :=
  (HP.act (HP.within.effect hf (.singleton hv))).bind fun _ hnode =>
    (HP.result_sameAs hnode).weaken (fun _ _ h => h) (fun _ _ h => h) fun _ _ => trivial

/-- `foldM` goes on from an outcome by the one closure or the other. -/
theorem foldM_acts (he : e.Built Γ) (hm : e.Made P) {f g : K} (hf : P.closures f)
    (hg : P.closures g) :
    Play.Equal P I c ((e.foldM f g : Effect D K R E' B).node.result env)
      (e.node.result env >>= Ending.onOutcome fun o =>
        Play.act (o.foldM (fun x => M.effect f [x]) fun v => M.effect g [v]) >>=
          Node.result env) :=
  e.folded_acts H HP he hm (fun _ _ hv => HP.effect_acts hg hv) fun _ _ hx => HP.effect_acts hf hx

/-- A fold is `either` and then one closure that tells the two sides apart. -/
theorem either_andThen (he : e.Built Γ) (hm : e.Made P) {f g h : K} (hf : P.closures f)
    (hg : P.closures g) (hh : P.closures h)
    (hop : ∀ o, o.Fits Γ E A → M.effect h [.outcome E A o] =
      o.foldM (fun x => M.effect f [x]) fun v => M.effect g [v]) :
    Play.Equal P I c ((e.foldM f g : Effect D K R E' B).node.result env)
      ((e.either.andThen h : Effect D K R E' B).node.result env) := by
  refine (foldM_acts H HP he hm hf hg).trans (Play.SameAs.symm ?_)
  refine either_linked_acts H HP he hm fun o ho ho' => ?_
  rw [← hop o ho]
  exact HP.effect_acts hh ho'

end Combinators

/-! ## Courses -/

section Courses

variable [M : Language D K σ] {P : Program K} {I : σ → Prop} {c : Callees D K σ} {r : Runner D K}

/-- The effect is evaluated, and after it the effect that the one closure is called for with the
    error, or the other with the value.  Whatever that ends in, nothing comes after it. -/
def Effect.FoldsM (e : Effect D K R E A) (f g : K) (c : Callees D K σ) (r : Runner D K) :
    Course D K σ :=
  .Then (r.Evaluates c (pure e.node)) fun
    | .success v => r.Evaluates c (M.effect g [v])
    | .failure (.fail x) => r.Evaluates c (M.effect f [x])
    | .failure (.die d) => .Ends (.failure (.die d))

/-- The fold as a course of evaluations: the effect, and then the effect that the handler makes,
    which is not handled again. -/
theorem Effect.foldsM_played {e : Effect D K R E A}
    (HP : ProgramRun M P I c r.environments.back?) (hfit : r.settings.framesFit = true)
    (hm : e.Made P) {f g : K} (hf : P.closures f) (hg : P.closures g) :
    Course.Played P I c (e.FoldsM f g c r)
      (e.node.result r.environments.back? >>= Ending.onOutcome fun o =>
        Play.act (o.foldM (fun x => M.effect f [x]) fun v => M.effect g [v]) >>=
          Node.result r.environments.back?) := by
  refine (HP.node_played hfit hm.reusable).then (HP.result_sameAs hm.reusable)
    fun ending hending => ?_
  rcases ending with (x | d) | v
  · cases hending with
    | fail hx => exact HP.evaluates_played hfit (HP.within.effect hf (.singleton hx))
  · exact .ends _
  · exact HP.evaluates_played hfit (HP.within.effect hg (.singleton hending))

end Courses

/-! ## The laws, of what the machine does -/

/-- `either` empties the typed channel, and `absolve` undoes it.

    Take closures that do as they are declared and stay within a program, a runner that has room for
    its frames, with whatever environments are bound, and an effect the program has made.  Then no
    evaluation of it ends in a typed failure once it is behind `either`, `fold` or `orDie`.  To look
    at its outcome and absolve that is to do nothing; and so it is to absolve an effect that
    produces an outcome and look at what it ends in, if it does not end in a typed failure of its
    own.  `foldM` is to look at the outcome and go on as that says; it goes the course of the
    effect and of one handler, and what the handler fails with comes to neither of the two again.

    Where two effects are the same, from any world either ends if the other one does, and both end
    in the same value, in the same failure, in the same defect with the same name kept with it, or
    in the same payload raised; and they leave the same shared state, with the same calls noted in
    it in the same order. -/
theorem Effect.either_lawful (M : Language D K (Noted D K σ)) {Γ : Signature K}
    {P : Program K} {I : Noted D K σ → Prop} (hM : M.Honours Γ I) (hP : M.Within P I) (depth : Nat)
    {r : Runner D K} (hfit : r.settings.framesFit = true) {R : Ty}
    (henv : Supplied Γ R r.environments.back?)
    (hbound : ∀ v, r.environments.back? = some v → v.Reusable P) {w : World (Noted D K σ)}
    (hw : I w.state) {E A : Ty} {e : Effect D K R E A} (he : e.Built Γ) (hm : e.Made P) :
    letI := M
    let callees : Callees D K (Noted D K σ) := Callees.ofFuel depth
    let Ends {E A : Ty} (x : Effect D K R E A) (ending : Ending D K) : Prop :=
      ∃ w', r.Evaluates callees (pure x.node) w (.ok ending) w'
    let Same {E E' A A' : Ty} (x : Effect D K R E A) (y : Effect D K R E' A') : Prop :=
      r.Same (World.Alike P I) callees (pure x.node) r (pure y.node) w
    -- the typed channel is empty
    (∀ (E' : Ty) (x : Value D K),
      ¬Ends (e.either : Effect D K R E' (.outcome E A)) (.failure (.fail x))) ∧
    (∀ (E' B : Ty) (f g : K) (x : Value D K), P.closures f → P.closures g →
      ¬Ends (e.fold f g : Effect D K R E' B) (.failure (.fail x))) ∧
    (∀ (E' : Ty) (x : Value D K), ¬Ends (e.orDie : Effect D K R E' A) (.failure (.fail x))) ∧
    -- back and forth
    Same e.either.absolve e ∧
    (∀ (E' B F : Ty) (produced : Effect D K R E' (.outcome E' B)), produced.Built Γ →
      produced.Made P → (∀ x, ¬Ends produced (.failure (.fail x))) →
        Same produced (produced.absolve.either : Effect D K R F (.outcome E' B))) ∧
    -- handlers that are effects
    (∀ (E' B : Ty) (f g h : K), P.closures f → P.closures g → P.closures h →
      (∀ o, o.Fits Γ E A → M.effect h [.outcome E A o] =
        o.foldM (fun x => M.effect f [x]) fun v => M.effect g [v]) →
        Same (e.foldM f g : Effect D K R E' B) (e.either.andThen h : Effect D K R E' B)) ∧
    (∀ (E' B : Ty) (f g : K), P.closures f → P.closures g →
      Course.Agrees (World.Alike P I) (e.FoldsM f g callees r)
        (r.Evaluates callees (pure (e.foldM f g : Effect D K R E' B).node)) w) := by
  let _ := M
  intro callees Ends Same
  have H : TypedRun M Γ I callees R r.environments.back? := .ofFuel hM depth henv
  have HP : ProgramRun M P I callees r.environments.back? := .ofFuel hP depth hbound
  have hempty : ∀ {E A : Ty} {x : Effect D K R E A} {play : Play D K (Noted D K σ) (Ending D K)},
      x.Made P → Play.Equal P I callees (x.node.result r.environments.back?) play →
      Play.SameAs P I callees Ending.Unfailing play play → ∀ v, ¬Ends x (.failure (.fail v)) := by
    rintro E A x play hx hplay hself v ⟨w', hends⟩
    exact HP.ends_ensured hfit hx.reusable hplay hself hw hends v rfl
  have hresult := Effect.Proper.result_self ⟨he, hm⟩ HP
  refine ⟨?_, ?_, ?_, ?_, ?_, ?_, ?_⟩
  · intro E'
    exact hempty hm.either (either_reifies H HP he hm)
      (hresult.map (Ending.reified E A) fun ending _ => ending.reified_unfailing)
  · intro E' B f g x hf hg
    refine hempty (hm.fold hf hg) (fold_acts H HP he hm hf hg) ?_ x
    refine e.sameAs_of_endings H HP he hm (fun v _ hv => ?_) (fun y _ hy => ?_) fun d => .pure nofun
    · exact (HP.act (HP.within.value hg (.singleton hv))).map _ fun _ _ => nofun
    · exact (HP.act (HP.within.value hf (.singleton hy))).map _ fun _ _ => nofun
  · intro E'
    exact hempty hm.orDie (orDie_escalates H HP he hm)
      (hresult.map Ending.escalated fun ending _ => ending.escalated_unfailing)
  · exact HP.same_of_equal hfit hw (absolve_either H HP he hm)
  · intro E' B F produced hbuilt hmade hfail
    refine same_of_view H HP hfit hw hbuilt hmade hmade.absolve.either.reusable
      (either_absolve H HP hbuilt hmade) fun ending htyped hends => ?_
    refine Ending.reified_absolved htyped fun x hx => hfail x ?_
    rwa [← hx]
  · intro E' B f g h hf hg hh hop
    exact HP.same_of_equal hfit hw (either_andThen H HP he hm hf hg hh hop)
  · intro E' B f g hf hg
    exact (foldsM_played HP hfit hm hf hg).agrees
      (HP.node_played hfit (hm.foldM hf hg).reusable) (foldM_acts H HP he hm hf hg).symm hw

open Voice in
/-- All of it for a failure on a fresh runner, and what its handler is called on. -/
theorem Effect.either_lawful_voices :
    letI := Language.voices
    let callees : Callees Unit Voice (Noted Unit Voice Unit) := Callees.ofFuel 1
    let w : World (Noted Unit Voice Unit) := World.start ⟨(), []⟩
    let Ends {A : Ty} (x : Effect Unit Voice .unit .literal A) (ending : Ending Unit Voice) :
      Prop := ∃ w', Runner.fresh.Evaluates callees (pure x.node) w (.ok ending) w'
    let Same {A A' : Ty} (x : Effect Unit Voice .unit .literal A)
      (y : Effect Unit Voice .unit .literal A') : Prop :=
      Runner.fresh.Same Voice.Alike callees (pure x.node) .fresh (pure y.node) w
    let lost : Voiced := fail (.literal "lost")
    let reified : Effect Unit Voice .unit .literal (.outcome .literal .text) := lost.either
    let produced : Effect Unit Voice .unit .literal (.outcome .literal .text) :=
      succeed (.outcome .literal .text (.failure (.literal "lost")))
    let folded : Voiced := lost.foldM (tells "f") (tells "g")
    (∀ x, ¬Ends reified (.failure (.fail x)) ∧
      ¬Ends (lost.fold (tells "f") (tells "g") : Voiced) (.failure (.fail x)) ∧
      ¬Ends (lost.orDie : Voiced) (.failure (.fail x))) ∧
    Same reified.absolve lost ∧
    Same produced (produced.absolve.either :
      Effect Unit Voice .unit .literal (.outcome .literal .text)) ∧
    Same folded (reified.andThen (chooses (tells "f") (tells "g")) : Voiced) ∧
    Course.Agrees Voice.Alike (lost.FoldsM (tells "f") (tells "g") callees .fresh)
      (Runner.fresh.Evaluates callees (pure folded.node)) w ∧
    ∃ w', Runner.fresh.Evaluates callees (pure folded.node) w (.ok (.success (.text "f"))) w' ∧
      w'.calls = [.effect (tells "f") [.literal "lost"]] := by
  let _ := Language.voices
  intro callees w Ends Same lost reified produced folded
  have hlost : lost.Built Signature.voices := .fail ⟨rfl, .literal⟩
  have hmade : lost.Made (Program.all False) := .fail .literal
  have hproduced : produced.Built Signature.voices := .succeed ⟨rfl, .failure rfl .literal⟩
  have hproduced' : produced.Made (Program.all False) := .succeed (.failure .literal)
  obtain ⟨h₁, h₂, h₃, h₄, h₅, h₆, h₇⟩ := either_lawful Language.voices Language.voices_honours
    Language.voices_within 1 (r := .fresh) Runner.fresh_framesFit (R := .unit) .none
    (fun _ h => nomatch h) (w := w) trivial hlost hmade
  have hsucceeds : ∀ x, ¬Ends produced (.failure (.fail x)) := by
    rintro x ⟨w', hends⟩
    have heval : ∃ result, Runner.fresh.evaluate callees 5 produced.node w = some result ∧
        result.1 = .ok (.success (.outcome .literal .text (.failure (.literal "lost")))) :=
      ⟨_, rfl, rfl⟩
    obtain ⟨⟨out, r', v'⟩, heval, rfl⟩ := heval
    nomatch (hends.unique (.ended rfl heval)).1
  refine ⟨fun x => ⟨?_, ?_, ?_⟩, ?_, ?_, ?_, ?_, ?_⟩
  · exact h₁ .literal x
  · exact h₂ .literal .text (tells "f") (tells "g") x trivial trivial
  · exact h₃ .literal x
  · exact h₄
  · exact h₅ .literal .text .literal produced hproduced hproduced' hsucceeds
  · exact h₆ .literal .text (tells "f") (tells "g") (chooses (tells "f") (tells "g")) trivial
      trivial trivial fun o _ => rfl
  · exact h₇ .literal .text (tells "f") (tells "g") trivial trivial
  · exact Runner.evaluates_of_evaluate 20 ⟨_, _, rfl, rfl⟩

end EffectMachine
