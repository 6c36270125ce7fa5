/-
  Defects of one type.

  `narrow` makes typed failures of those defects whose payload is of one type.  It asks the payload
  for its type and nothing else: not where the defect comes from, and not what name is kept with it.
  So what it does is told by a function of endings, `Ending.narrowed`, and how its uses combine is
  told by how this function combines with itself and with those of the other combinators.

  The conversion that is behind it is a closure.  Here it is one that computes and does no more, as
  conversions do; what it computes is a parameter, one function for each type of payloads.
-/
import EffectMachine.Proofs.EitherLaws

namespace EffectMachine

variable {D K σ : Type} {R E E' A B X Y : Ty}

/-! ## What is made of endings -/

namespace Ending

/-- A defect whose payload is of this type becomes the failure with the payload converted.
    Everything else is kept as it is. -/
def narrowed (X : Ty) (convert : Value D K → Value D K) : Ending D K → Ending D K
  | .failure (.die d) => match d.cast? X with
    | some p => .failure (.fail (convert p))
    | none => .failure (.die d)
  | ending => ending

variable {convert : Value D K → Value D K} {d : Defect (Value D K)}

/-- A defect whose payload is of the type is turned into a typed failure. -/
theorem narrowed_of_type (h : d.payload.type = X) :
    narrowed X convert (.failure (.die d)) = .failure (.fail (convert d.payload)) := by
  simp only [narrowed, Defect.cast?, Value.cast?_eq_some_iff.mpr ⟨h, rfl⟩]

/-- Any other defect stays what it is, its name included. -/
theorem narrowed_of_ne (h : d.payload.type ≠ X) :
    narrowed X convert (.failure (.die d)) = .failure (.die d) := by
  simp only [narrowed, Defect.cast?, Value.cast?_eq_none_iff.mpr h]

/-- What is left of defects has payloads of other types. -/
theorem narrowed_ne (h : d.payload.type = X) (ending : Ending D K) :
    narrowed X convert ending ≠ .failure (.die d) := by
  rcases ending with (x | d') | v
  · nofun
  · by_cases hd' : d'.payload.type = X
    · rw [narrowed_of_type hd']
      nofun
    · rw [narrowed_of_ne hd']
      rintro ⟨⟩
      exact hd' h
  · nofun

/-- What has been narrowed holds no defect of the type any more, so that to narrow again changes
    nothing. -/
theorem narrowed_narrowed (X : Ty) (convert : Value D K → Value D K) (ending : Ending D K) :
    narrowed X convert (narrowed X convert ending) = narrowed X convert ending := by
  rcases ending with (x | d) | v
  · rfl
  · by_cases hX : d.payload.type = X
    · rw [narrowed_of_type hX]
      rfl
    · rw [narrowed_of_ne hX, narrowed_of_ne hX]
  · rfl

/-- Payloads have one type only. -/
theorem narrowed_comm (hXY : X ≠ Y) (convert convert' : Value D K → Value D K)
    (ending : Ending D K) :
    narrowed Y convert' (narrowed X convert ending) =
      narrowed X convert (narrowed Y convert' ending) := by
  rcases ending with (x | d) | v
  · rfl
  · by_cases hX : d.payload.type = X
    · have hY : d.payload.type ≠ Y := hX ▸ hXY
      rw [narrowed_of_ne hY, narrowed_of_type hX]
      rfl
    · by_cases hY : d.payload.type = Y
      · rw [narrowed_of_ne hX, narrowed_of_type hY]
        rfl
      · rw [narrowed_of_ne hX, narrowed_of_ne hY, narrowed_of_ne hX]
  · rfl

/-- An error that was escalated is one again, if it is converted to itself. -/
theorem narrowed_escalated {Γ : Signature K} (hconvert : ∀ x, x.type = E → convert x = x)
    {ending : Ending D K} (h : Ending.Typed Γ E A ending)
    (hdie : ∀ d, d.payload.type = E → ending ≠ .failure (.die d)) :
    narrowed E convert ending.escalated = ending := by
  rcases ending with (x | d) | v
  · cases h with
    | fail htype _ =>
      have hback : convert (Defect.ofValue x).payload = x := hconvert x htype
      show narrowed E convert (.failure (.die (.ofValue x))) = _
      rw [narrowed_of_type htype, hback]
  · exact narrowed_of_ne fun hd => hdie d hd rfl
  · rfl

end Ending

/-! ## What the combinator does -/

section Combinators

variable [M : Language D K σ] {Γ : Signature K} {P : Program K} {I : σ → Prop}
  {c : Callees D K σ} {env : Option (Value D K)} {e : Effect D K R E A} {into : K}
  {convert : Value D K → Value D K}
  (H : TypedRun M Γ I c R env) (HP : ProgramRun M P I c env)

include H HP

/-- The node that narrows does so, if its closure converts payloads of the type and does nothing
    else. -/
theorem narrow_narrows (he : e.Built Γ) (hm : e.Made P)
    (hinto : ∀ p, p.type = X → M.value into [p] = pure (convert p)) :
    Play.Equal P I c ((e.narrow X into).node.result env)
      (Ending.narrowed X convert <$> e.node.result env) := by
  rw [Effect.narrow, Node.result_fold, map_eq_pure_bind]
  refine e.sameAs_of_endings H HP he hm (fun v hv _ => ?_) (fun x hx _ => ?_) fun d => ?_
  · simp only [Continuation.resume, Link.followTyped_of_fits hv]
    exact .succeeded v
  · simp only [Handler.resume, (Cause.Typed.ofFail hx).typed_eq]
    exact .halted _
  · by_cases hd : d.payload.type = X
    · have hcast : d.cast? X = some d.payload := Value.cast?_eq_some_iff.mpr ⟨hd, rfl⟩
      simp only [Handler.resume, Cause.typed, hcast, Ending.narrowed_of_type hd,
        show Language.value into [d.payload] = _ from hinto _ hd, Play.act_pure, pure_bind]
      exact .halted _
    · have hcast : d.cast? X = none := Value.cast?_eq_none_iff.mpr hd
      simp only [Handler.resume, Cause.typed, hcast, Ending.narrowed_of_ne hd]
      exact .halted _

omit H in
/-- To require something of an outcome is an act of the program. -/
theorem ProgramRun.require_sameAs {passes error : K} (hpasses : P.closures passes)
    (herror : P.closures error) {ending : Ending D K} (h : ending.Reusable P) :
    let required : Ending D K → Play D K σ (Ending D K) := Ending.onOutcome fun o =>
      Ending.ofOutcome <$> Play.act (o.requireM (M.test passes) fun v => M.value error [v])
    Play.Equal P I c (required ending) (required ending) := by
  intro required
  rcases ending with (x | d) | v
  · exact .pure trivial
  · exact .pure trivial
  · have hrequired : (Outcome.requireM (ε := Value D K) (M.test passes)
        (fun v => M.value error [v]) (.success v)).Within P I fun _ => True := by
      refine (HP.within.test hpasses h).bind fun passed _ => ?_
      cases passed with
      | true => trivial
      | false =>
        simp only [Bool.false_eq_true, if_false]
        exact (HP.within.value herror (.singleton h)).bind fun _ _ => trivial
    exact (HP.act hrequired).map _ fun _ _ => trivial

/-- To assert and narrow is to narrow and require. -/
theorem assert_narrow (he : e.Built Γ) (hm : e.Made P) {passes payload error : K}
    (hpasses : Γ.test passes A) (hpayload : Γ.value payload [A] X) (hinto : Γ.value into [X] E)
    (hpasses' : P.closures passes) (hpayload' : P.closures payload) (hinto' : P.closures into)
    (herror' : P.closures error)
    (hconvert : ∀ p, p.type = X → M.value into [p] = pure (convert p))
    (herror : ∀ v, v.Fits Γ A → M.value error [v] = convert <$> M.value payload [v]) :
    Play.Equal P I c (((e.assert passes payload).narrow X into).node.result env)
      (((e.narrow X into).require passes error).node.result env) := by
  have hleft := (narrow_narrows H HP (he.assert hpasses hpayload)
    (hm.assert hpasses' hpayload') hconvert).trans
    (Play.Matches.map (Q := fun _ => True) (assert_acts H HP he hm hpasses' hpayload') _
      fun _ _ => trivial)
  have hmade : (e.narrow X into).Made P := hm.narrow hinto'
  have hnarrow := (HP.result_sameAs hmade.reusable).trans (narrow_narrows H HP he hm hconvert)
  have hright := (require_acts H HP (he.narrow hinto) hmade hpasses' herror').trans
    (hnarrow.bind fun _ => HP.require_sameAs hpasses' herror')
  refine hleft.trans (Play.SameAs.trans ?_ hright.symm)
  rw [map_bind, bind_map_left]
  refine e.sameAs_of_endings H HP he hm (fun v hv hv' => ?_) (fun x hx _ => .pure trivial)
    fun d => ?_
  · -- the payload made is of the type that is narrowed
    have hvalue := (HP.act (HP.within.value hpayload' (.singleton hv'))).and_sound
      (Play.Sound.act H.sound (H.honours.value hpayload (.singleton hv)))
    simp only [Ending.onOutcome, Ending.narrowed, Ending.asserted, Outcome.requireM, Play.act_bind,
      map_bind]
    refine (HP.act (HP.within.test hpasses' hv')).bind fun passed _ => ?_
    cases passed with
    | true => exact .pure trivial
    | false =>
      simp only [Bool.false_eq_true, if_false, herror v hv, Play.act_bind, map_bind,
        bind_map_left]
      refine hvalue.bind fun p hp => ?_
      rw [map_pure, Ending.narrowed_of_type (d := .ofValue p) hp.2.type]
      exact .pure trivial
  · -- a defect of the effect is narrowed behind the test on one side, in front of it on the other
    by_cases hd : d.payload.type = X
    · simp only [Ending.onOutcome, map_pure, Ending.narrowed_of_type hd]
      exact .pure trivial
    · simp only [Ending.onOutcome, Ending.narrowed_of_ne hd, map_pure]
      exact .pure trivial

end Combinators

/-! ## The laws, of what the machine does -/

/-- `narrow` catches defects with a payload of one type, and its uses combine as one expects.

    Take closures that do as they are declared and stay within a program, a runner that has room for
    its frames, with whatever environments are bound, and an effect the program has made; and for
    types of payloads closures that convert these into errors, without any effect.  Then the effect
    behind `narrow` ends as without it, except that a defect whose payload is of this type, wherever
    it comes from, has become the failure with the payload converted; so that in none of its
    evaluations such a defect is left.  It makes no difference which of two types is caught first,
    nor whether one is caught once or twice.  To catch what was escalated gives the effect back, if
    it does not itself die with an error as payload.  And an assertion that is caught is a
    requirement of what was caught.

    Where two effects are the same, from any world either ends if the other one does, and both end
    in the same value, in the same failure, in the same defect with the same name kept with it, or
    in the same payload raised; and they leave the same shared state, with the same calls noted in
    it in the same order. -/
theorem Effect.narrow_lawful (M : Language D K (Noted D K σ)) {Γ : Signature K}
    {P : Program K} {I : Noted D K σ → Prop} (hM : M.Honours Γ I) (hP : M.Within P I) (depth : Nat)
    {r : Runner D K} (hfit : r.settings.framesFit = true) {R : Ty}
    (henv : Supplied Γ R r.environments.back?)
    (hbound : ∀ v, r.environments.back? = some v → v.Reusable P) {w : World (Noted D K σ)}
    (hw : I w.state) {E A : Ty} {e : Effect D K R E A} (he : e.Built Γ) (hm : e.Made P)
    (into : Ty → K) (convert : Ty → Value D K → Value D K) :
    letI := M
    let callees : Callees D K (Noted D K σ) := Callees.ofFuel depth
    let Ends (x : Effect D K R E A) (ending : Ending D K) : Prop :=
      ∃ w', r.Evaluates callees (pure x.node) w (.ok ending) w'
    let Same (x y : Effect D K R E A) : Prop :=
      r.Same (World.Alike P I) callees (pure x.node) r (pure y.node) w
    let Converts (X : Ty) : Prop := Γ.value (into X) [X] E ∧ P.closures (into X) ∧
      ∀ p, p.type = X → M.value (into X) [p] = pure (convert X p)
    let caught (x : Effect D K R E A) (X : Ty) : Effect D K R E A := x.narrow X (into X)
    (∀ X, Converts X →
      Course.Agrees (World.Alike P I)
        (Course.ended (Ending.narrowed X (convert X)) (r.Evaluates callees (pure e.node)))
        (r.Evaluates callees (pure (caught e X).node)) w ∧
      ∀ d, d.payload.type = X → ¬Ends (caught e X) (.failure (.die d))) ∧
    (∀ X Y, Converts X → Converts Y → Same (caught (caught e X) Y) (caught (caught e Y) X)) ∧
    (∀ X, Converts X → Same (caught (caught e X) X) (caught e X)) ∧
    (Converts E → (∀ x, x.type = E → convert E x = x) →
      (∀ d, d.payload.type = E → ¬Ends e (.failure (.die d))) → Same e (caught e.orDie E)) ∧
    (∀ (X : Ty) (passes payload error : K), Converts X → Γ.test passes A →
      Γ.value payload [A] X → P.closures passes → P.closures payload → P.closures error →
      (∀ v, v.Fits Γ A → M.value error [v] = convert X <$> M.value payload [v]) →
        Same (caught (e.assert passes payload) X) ((caught e X).require passes error)) := by
  let _ := M
  intro callees Ends Same Converts caught
  have H : TypedRun M Γ I callees R r.environments.back? := .ofFuel hM depth henv
  have HP : ProgramRun M P I callees r.environments.back? := .ofFuel hP depth hbound
  have hself := (HP.result_sameAs hm.reusable).and_sound (H.result_sound he.typed)
  have hcaught : ∀ {x : Effect D K R E A} {X : Ty}, Converts X → x.Built Γ → x.Made P →
      Play.Equal P I callees ((caught x X).node.result r.environments.back?)
        (Ending.narrowed X (convert X) <$> x.node.result r.environments.back?) :=
    fun hX hx hx' => narrow_narrows H HP hx hx' hX.2.2
  have htwice : ∀ {X Y : Ty}, Converts X → Converts Y →
      Play.Equal P I callees ((caught (caught e X) Y).node.result r.environments.back?)
        ((fun ending => (ending.narrowed X (convert X)).narrowed Y (convert Y)) <$>
          e.node.result r.environments.back?) := fun hX hY =>
    Play.SameAs.map_map (hcaught hY (he.narrow hX.1) (hm.narrow hX.2.1)) (hcaught hX he hm)
  refine ⟨?_, ?_, ?_, ?_, ?_⟩
  · intro X hX
    constructor
    · exact HP.ended_agrees hfit hw hm.reusable (hm.narrow hX.2.1).reusable (hcaught hX he hm)
    · rintro d hd ⟨w', hends⟩
      refine HP.ends_ensured (Q := fun ending => ending ≠ .failure (.die d)) hfit
        (hm.narrow hX.2.1).reusable (hcaught hX he hm) ?_ hw hends rfl
      exact hself.map _ fun ending _ => Ending.narrowed_ne hd ending
  · intro X Y hX hY
    by_cases hXY : X = Y
    · subst hXY
      exact HP.same_of_equal hfit hw ((htwice hX hX).trans (htwice hX hX).symm)
    · refine HP.same_of_equal hfit hw ((htwice hX hY).trans ?_)
      simp only [Ending.narrowed_comm hXY]
      exact (htwice hY hX).symm
  · intro X hX
    refine HP.same_of_equal hfit hw ((htwice hX hX).trans ?_)
    simp only [Ending.narrowed_narrowed]
    exact (hcaught hX he hm).symm
  · intro hE hconvert hdie
    refine same_of_view H HP hfit hw he hm (hm.orDie.narrow hE.2.1).reusable
      (Play.SameAs.map_map (hcaught hE he.orDie hm.orDie) (orDie_escalates H HP he hm))
      fun ending htyped hends => ?_
    refine Ending.narrowed_escalated hconvert htyped fun d hd hending => hdie d hd ?_
    rwa [← hending]
  · intro X passes payload error hX hpasses hpayload hpasses' hpayload' herror' herror
    exact HP.same_of_equal hfit hw (assert_narrow H HP he hm hpasses hpayload hX.1 hpasses'
      hpayload' hX.2.1 herror' hX.2.2 herror)

open Voice in
/-- All of it for an assertion that does not hold, on a fresh runner, and what there is when the
    text it dies of has been caught. -/
theorem Effect.narrow_lawful_voices :
    letI := Language.voices
    let callees : Callees Unit Voice (Noted Unit Voice Unit) := Callees.ofFuel 1
    let w : World (Noted Unit Voice Unit) := World.start ⟨(), []⟩
    let Ends (x : Voiced) (ending : Ending Unit Voice) : Prop :=
      ∃ w', Runner.fresh.Evaluates callees (pure x.node) w (.ok ending) w'
    let Same (x y : Voiced) : Prop :=
      Runner.fresh.Same Voice.Alike callees (pure x.node) .fresh (pure y.node) w
    let caught (x : Voiced) (X : Ty) : Voiced := x.narrow X (into X)
    let broken : Voiced := (succeed (.text "here") : Voiced).assert (tells "p") (tells "x")
    (Course.Agrees Voice.Alike
        (Course.ended (Ending.narrowed .text (converted .text))
          (Runner.fresh.Evaluates callees (pure broken.node)))
        (Runner.fresh.Evaluates callees (pure (caught broken .text).node)) w ∧
      ¬Ends (caught broken .text) (.failure (.die ⟨.text "x", some "str"⟩))) ∧
    Same (caught (caught broken .text) .fault) (caught (caught broken .fault) .text) ∧
    Same (caught (caught broken .text) .text) (caught broken .text) ∧
    Same broken (caught broken.orDie .literal) ∧
    Same (caught (broken.assert (tells "q") (tells "y")) .text)
      ((caught broken .text).require (tells "q") (converts .text (tells "y"))) ∧
    ∃ w', Runner.fresh.Evaluates callees (pure (caught broken .text).node) w
        (.ok (.failure (.fail (.literal "str")))) w' ∧
      w'.calls = [.value (tells "x") [.text "here"], .test (tells "p") (.text "here")] := by
  let _ := Language.voices
  intro callees w Ends Same caught broken
  have hhere : (succeed (.text "here") : Voiced).Built Signature.voices := .succeed ⟨rfl, .text⟩
  have hbroken : broken.Built Signature.voices :=
    .assert (X := .text) hhere trivial (.inl ⟨rfl, "x", rfl⟩)
  have hmade : broken.Made (Program.all False) := .assert (.succeed .text) trivial trivial
  obtain ⟨h₁, h₂, h₃, h₄, h₅⟩ := narrow_lawful Language.voices Language.voices_honours
    Language.voices_within 1 (r := .fresh) Runner.fresh_framesFit (R := .unit) .none
    (fun _ h => nomatch h) (w := w) trivial hbroken hmade into converted
  have hconverts : ∀ X : Ty, Signature.voices.value (into X) [X] .literal ∧
      (Program.all False).closures (into X) ∧
      ∀ p, p.type = X → Language.voices.value (into X) [p] = pure (converted X p) := fun X =>
    ⟨.inr ⟨X, rfl, rfl, rfl⟩, trivial, fun _ _ => rfl⟩
  have hdies : ∀ d : Defect (Value Unit Voice), d.payload.type = .literal →
      ¬Ends broken (.failure (.die d)) := by
    rintro d hd ⟨w', hends⟩
    have heval : ∃ result, Runner.fresh.evaluate callees 20 broken.node w = some result ∧
        result.1 = .ok (.failure (.die ⟨.text "x", some "str"⟩)) := ⟨_, rfl, rfl⟩
    obtain ⟨⟨out, r', v'⟩, heval, rfl⟩ := heval
    cases (hends.unique (.ended rfl heval)).1
    nomatch hd
  refine ⟨⟨?_, ?_⟩, ?_, ?_, ?_, ?_, ?_⟩
  · exact (h₁ .text (hconverts .text)).1
  · exact (h₁ .text (hconverts .text)).2 _ rfl
  · exact h₂ .text .fault (hconverts .text) (hconverts .fault)
  · exact h₃ .text (hconverts .text)
  · exact h₄ (hconverts .literal) (fun x _ => rfl) hdies
  · exact h₅ .text (tells "q") (tells "y") (converts .text (tells "y")) (hconverts .text) trivial
      (.inl ⟨rfl, "y", rfl⟩) trivial trivial trivial fun _ _ => rfl
  · exact Runner.evaluates_of_evaluate 20 ⟨_, _, rfl, rfl⟩

end EffectMachine
