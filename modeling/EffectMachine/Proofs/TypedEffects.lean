/-
  Effects keep the types they are declared with.

  An `Effect D K R E A` shows its three types, and the tree inside it does not.  Whether the tree
  lives up to them depends on how the effect was made.  `Effect.Built` collects the ways there are:
  one rule for every constructor and every combinator, each of which asks of the closures no more
  than that they are declared for what they are put to, and one for an effect that came out of a
  value.  There is no rule to declare a tree anew with other types.  The rules leave open what the
  combinators leave open: the environment that remains when one has been provided, the errors of an
  effect that has turned all of its own into values or defects, and the values of one that parks
  its value.

  The tree of an effect so built is typed as the effect is declared (`Effect.Built.typed`), and a
  typed state passes every check the machine makes (`Machine.Typed.passes`).  Together they say
  that no check ever fails, in the first run or in any later one (`Effect.Built.runs_typed`).  A run
  that a closure asks for is one of them: what `Session` asks of a program between two runs is kept
  by closures that do as declared.
-/
import EffectMachine.Effect.Sequence
import EffectMachine.Effect.Recovery
import EffectMachine.Effect.TypeCases
import EffectMachine.Effect.Function
import EffectMachine.Proofs.Calls
import EffectMachine.Proofs.Soundness

namespace EffectMachine

variable {D K σ : Type}

/-! ## How effects are made -/

/-- The effect is made by the constructors and combinators, of values of the types it is declared
    with and of closures that are declared for their use. -/
inductive Effect.Built (Γ : Signature K) : {R E A : Ty} → Effect D K R E A → Prop where
  | succeed {R E A v} (hv : Value.Fits Γ A v) : Built Γ (.succeed v : Effect D K R E A)
  | fail {R E A e} (he : Value.Fits Γ E e) : Built Γ (.fail e : Effect D K R E A)
  | ofOutcome {R E A o} (ho : Outcome.Fits Γ E A o) : Built Γ (.ofOutcome o : Effect D K R E A)
  | ofOption {R E A v? onNone} (hv : ∀ v, v? = some v → Value.Fits Γ A v)
      (hnone : Γ.value onNone [] E) : Built Γ (.ofOption v? onNone : Effect D K R E A)
  | haltWith {R E A f} (hf : Γ.cause f E) : Built Γ (.haltWith f : Effect D K R E A)
  /-- The effect that `halt` returns, in whatever world it is called. -/
  | halt {R E A cause} {τ : Type} {callees : Callees D K τ} {w w' : World τ} {e : Effect D K R E A}
      (hcause : Cause.Typed Γ E cause)
      (h : (Effect.halt cause : Act D K τ _).exec callees w = some (.ok e, w')) : Built Γ e
  | die {R E A payload} (h : Value.Sound Γ payload) : Built Γ (.die payload : Effect D K R E A)
  | total {R E A f} (hf : Γ.value f [] A) : Built Γ (.total f : Effect D K R E A)
  | attempt {R E A f} (hf : Γ.value f [] A) : Built Γ (.attempt f : Effect D K R E A)
  | accessM {R E A f} (hf : Γ.effect f [R] R E A) : Built Γ (.accessM f : Effect D K R E A)
  | access {R E A f} (hf : Γ.value f [R] A) : Built Γ (.access f : Effect D K R E A)
  | accessOutcome {R E A f} (hf : Γ.outcome f R E A) :
      Built Γ (.accessOutcome f : Effect D K R E A)
  | environment {R E} : Built Γ (.environment : Effect D K R E R)
  | ofFunction {E A Ts f} (hf : Γ.value f Ts A) :
      Built Γ (.ofFunction f : Effect D K (.arguments (.tuple Ts)) E A)
  | ofCallFunction {E A T f} (hf : Γ.value f [.arguments T] A) :
      Built Γ (.ofCallFunction f : Effect D K (.arguments T) E A)
  /-- An effect that was a value. -/
  | ofValue {R E A} {e : Effect D K R E A} (h : Value.Sound Γ (.effect R E A e.node)) : Built Γ e
  | map {R E A B f} {e : Effect D K R E A} (he : Built Γ e) (hf : Γ.value f [A] B) :
      Built Γ (e.map f : Effect D K R E B)
  | andThen {R E A B f} {e : Effect D K R E A} (he : Built Γ e) (hf : Γ.effect f [A] R E B) :
      Built Γ (e.andThen f : Effect D K R E B)
  | followedBy {R E A B} {e : Effect D K R E A} {that : Effect D K R E B} (he : Built Γ e)
      (hthat : Built Γ that) : Built Γ (e.followedBy that)
  | zip {R E A B} {e : Effect D K R E A} {that : Effect D K R E B} (he : Built Γ e)
      (hthat : Built Γ that) : Built Γ (e.zip that)
  | zipWith {R E A B C f} {e : Effect D K R E A} {that : Effect D K R E B} (he : Built Γ e)
      (hthat : Built Γ that) (hf : Γ.value f [A, B] C) :
      Built Γ (e.zipWith that f : Effect D K R E C)
  | require {R E A passes error} {e : Effect D K R E A} (he : Built Γ e)
      (hpasses : Γ.test passes A) (herror : Γ.value error [A] E) : Built Γ (e.require passes error)
  | assert {R E A X passes payload} {e : Effect D K R E A} (he : Built Γ e)
      (hpasses : Γ.test passes A) (hpayload : Γ.value payload [A] X) :
      Built Γ (e.assert passes payload)
  | absolve {R E A} {e : Effect D K R E (.outcome E A)} (he : Built Γ e) : Built Γ e.absolve
  | flatten {R E A} {e : Effect D K R E (.effect R E A)} (he : Built Γ e) : Built Γ e.flatten
  | mapError {R E E' A f} {e : Effect D K R E A} (he : Built Γ e) (hf : Γ.value f [E] E') :
      Built Γ (e.mapError f : Effect D K R E' A)
  | foldM {R E E' A B onFailure onSuccess} {e : Effect D K R E A} (he : Built Γ e)
      (hfailure : Γ.effect onFailure [E] R E' B) (hsuccess : Γ.effect onSuccess [A] R E' B) :
      Built Γ (e.foldM onFailure onSuccess : Effect D K R E' B)
  | fold {R E E' A B onFailure onSuccess} {e : Effect D K R E A} (he : Built Γ e)
      (hfailure : Γ.value onFailure [E] B) (hsuccess : Γ.value onSuccess [A] B) :
      Built Γ (e.fold onFailure onSuccess : Effect D K R E' B)
  | recover {R E E' A f} {e : Effect D K R E A} (he : Built Γ e) (hf : Γ.effect f [E] R E' A) :
      Built Γ (e.recover f : Effect D K R E' A)
  | orElse {R E E' A} {e : Effect D K R E A} {that : Effect D K R E' A} (he : Built Γ e)
      (hthat : Built Γ that) : Built Γ (e.orElse that)
  | either {R E E' A} {e : Effect D K R E A} (he : Built Γ e) :
      Built Γ (e.either : Effect D K R E' (.outcome E A))
  | swap {R E A} {e : Effect D K R E A} (he : Built Γ e) : Built Γ e.swap
  | orDie {R E E' A} {e : Effect D K R E A} (he : Built Γ e) :
      Built Γ (e.orDie : Effect D K R E' A)
  | foldCause {R E E' A B onCause onSuccess} {e : Effect D K R E A} (he : Built Γ e)
      (hcause : Γ.handler onCause E R E' B) (hsuccess : Γ.effect onSuccess [A] R E' B) :
      Built Γ (e.foldCause onCause onSuccess : Effect D K R E' B)
  | narrow {R E A payload into} {e : Effect D K R E A} (he : Built Γ e)
      (hinto : Γ.value into [payload] E) : Built Γ (e.narrow payload into)
  | provide {R R' E A env} {e : Effect D K R E A} (he : Built Γ e) (henv : Value.Fits Γ R env) :
      Built Γ (e.provide env : Effect D K R' E A)
  | swapEnvironments {R₁ R₂ E E' A} {e : Effect D K R₁ E (.effect R₂ E A)} (he : Built Γ e) :
      Built Γ (e.swapEnvironments : Effect D K R₂ E' (.effect R₁ E A))
  | matchTypes {R E A B} {e : Effect D K R E A} (he : Built Γ e) :
      Built Γ (e.matchTypes : Effect D K R E B)
  | atType {R E A T} {e : Effect D K R E A} {case : Effect D K T E A} (he : Built Γ e)
      (hcase : Built Γ case) : Built Γ (e.atType case)

namespace Effect

variable {Γ : Signature K} {R E E' A B : Ty} {e : Effect D K R E A}

/-- An effect with a typed link behind it is typed. -/
theorem linked_typed {link : Link D K} (he : e.node.Typed Γ R E A) (h : link.Typed Γ A R E B) :
    (e.linked link : Effect D K R E B).node.Typed Γ R E B := .flatMap he (.typed h)

/-- An effect with typed links behind it, for errors and for values, is typed. -/
theorem folded_typed {onFailure onSuccess : Link D K} (he : e.node.Typed Γ R E A)
    (hfailure : onFailure.Typed Γ E R E' B) (hsuccess : onSuccess.Typed Γ A R E' B) :
    (e.folded onFailure onSuccess : Effect D K R E' B).node.Typed Γ R E' B :=
  .fold he (.onFailure hfailure) (.typed hsuccess)

theorem succeed_typed {v : Value D K} (hv : v.Fits Γ A) :
    (succeed v : Effect D K R E A).node.Typed Γ R E A := .succeed (.shared_of_fits hv)

theorem fail_typed {v : Value D K} (hv : v.Fits Γ E) :
    (fail v : Effect D K R E A).node.Typed Γ R E A := .failCause (.shared (.ofFail hv))

/-- The tree of an effect is typed as the effect is declared. -/
theorem Built.typed (h : e.Built Γ) : e.node.Typed Γ R E A := by
  induction h with
  | succeed hv => exact succeed_typed hv
  | fail he => exact fail_typed he
  | @ofOutcome _ _ _ o ho =>
    cases o with
    | success v => exact succeed_typed ho
    | failure e => exact fail_typed ho
  | @ofOption _ _ _ v? _ hv hnone =>
    cases v? with
    | some v => exact succeed_typed (hv v rfl)
    | none => exact .failCause (.failing hnone)
  | haltWith hf => exact .failCause (.made hf)
  | halt hcause h =>
    cases h
    exact .failCause (.halted hcause)
  | die h => exact .failCause (.shared (.dieWith h))
  | total hf => exact .total hf fun _ hv => nomatch hv
  | attempt hf => exact .attempt hf fun _ hv => nomatch hv
  | accessM hf => exact .read (.call hf)
  | access hf => exact .read (.nowOf hf)
  | accessOutcome hf => exact .read (.outcomeOf hf)
  | environment => exact .read .now
  | ofFunction hf => exact .read (.applyTo hf)
  | ofCallFunction hf => exact .read (.applyWhole hf)
  | ofValue h =>
    cases h with
    | effect hnode => exact hnode
  | map _ hf ih => exact linked_typed ih (.nowOf hf)
  | andThen _ hf ih => exact linked_typed ih (.call hf)
  | followedBy _ _ ih hthat => exact linked_typed ih (.replace hthat)
  | zip _ _ ih hthat => exact linked_typed ih (.zip hthat .pair)
  | zipWith _ _ hf ih hthat => exact linked_typed ih (.zip hthat (.byClosure hf))
  | require _ hpasses herror ih => exact linked_typed ih (.require hpasses herror)
  | assert _ hpasses hpayload ih => exact linked_typed ih (.assert hpasses hpayload)
  | absolve _ ih => exact linked_typed ih .absolve
  | flatten _ ih => exact linked_typed ih .flatten
  | mapError _ hf ih => exact .fold ih (.mapError hf) .passThrough
  | foldM _ hfailure hsuccess ih => exact folded_typed ih (.call hfailure) (.call hsuccess)
  | fold _ hfailure hsuccess ih => exact folded_typed ih (.nowOf hfailure) (.nowOf hsuccess)
  | recover _ hf ih => exact folded_typed ih (.call hf) .now
  | orElse _ _ ih hthat => exact folded_typed ih (.replace hthat) .now
  | either _ ih => exact folded_typed ih .nowFailure .nowSuccess
  | swap _ ih => exact folded_typed ih .now .failNow
  | orDie _ ih => exact .fold ih .escalate (.typed .now)
  | foldCause _ hcause hsuccess ih => exact .fold ih (.onCause hcause) (.typed (.call hsuccess))
  | narrow _ hinto ih => exact .fold ih (.narrow hinto) (.typed .now)
  | provide _ henv ih => exact .provide (.shared_of_fits henv) ih
  | swapEnvironments _ ih => exact .read (.supply ih)
  | matchTypes _ ih => exact .flatMap ih (.typed .park)
  | atType _ _ ih hcase => exact .fold ih (.typeCase hcase) (.typed .now)

end Effect

/-! ## The checks of the machine -/

/-- The value is of the form that the link takes apart. -/
def Link.Accepts : Link D K → Value D K → Prop
  | .absolve, v => ∃ E A o, v = .outcome E A o
  | .flatten, v => ∃ R E A node, v = .effect R E A node
  | .provide _, v => ∃ R E A node, v = .effect R E A node
  | _, _ => True

/-- The value is of the type that the continuation expects. -/
def Continuation.Accepts : Continuation D K → Value D K → Prop
  | .passThrough, _ => True
  | .typed type link, v => v.cast? type = some v ∧ link.Accepts v
  | .typedOnce _ type link, v => v.cast? type = some v ∧ link.Accepts v

/-- The type a handler expects an error to be of. -/
def Handler.error : Handler D K → Ty
  | .mapError error _ => error
  | .onCause error _ => error
  | .onFailure error _ => error
  | .escalate error => error
  | .narrow error _ _ => error
  | .typeCase error _ _ => error

/-- The error of the cause, if it has one, is of the type that the handler expects. -/
def Handler.Accepts (onCause : Handler D K) (cause : Cause (Value D K)) : Prop :=
  cause.typed onCause.error = cause ∧
    ∀ error link e, onCause = .onFailure error link → cause = .fail e → link.Accepts e

/-- None of the checks fails that the machine makes on its next step. -/
structure Machine.Passes (m : Machine D K) : Prop where
  /-- The environment bound innermost is of the type that is read. -/
  read {type link env} (hcontrol : m.control = .dispatch (.read type link))
    (hback : m.environments.back? = some env) : env.cast? type = some env ∧ link.Accepts env
  /-- No environment is bound only where none was provided and the unit type is read. -/
  unbound {type link} (hcontrol : m.control = .dispatch (.read type link))
    (hback : m.environments.back? = none) : type = .unit ∧ Frame.depths m.frames = []
  apply {v k rest} (hcontrol : m.control = .settle (.success v))
    (hframes : m.frames = .apply k :: rest) : k.Accepts v
  fold {v onCause k rest} (hcontrol : m.control = .settle (.success v))
    (hframes : m.frames = .fold onCause k :: rest) : k.Accepts v
  handle {c onCause k rest} (hcontrol : m.control = .settle (.failure c))
    (hframes : m.frames = .fold onCause k :: rest) : onCause.Accepts c

section Checks

variable {Γ : Signature K} {R E E' A T : Ty}

/-- What fits the type of a link is accepted by it. -/
theorem Link.Typed.accepts {link : Link D K} {v : Value D K} (h : link.Typed Γ T R E A)
    (hv : v.Fits Γ T) : link.Accepts v := by
  cases h with
  | absolve =>
    obtain ⟨o, rfl, -⟩ := hv.exists_outcome
    exact ⟨_, _, o, rfl⟩
  | flatten | provide =>
    obtain ⟨node, rfl, -⟩ := hv.exists_effect
    exact ⟨_, _, _, node, rfl⟩
  | _ => trivial

theorem Continuation.Typed.accepts {k : Continuation D K} {v : Value D K}
    (h : k.Typed Γ T R E A) (hv : v.Fits Γ T) : k.Accepts v := by
  cases h with
  | passThrough => trivial
  | typed hlink => exact ⟨hv.cast?, hlink.accepts hv⟩
  | typedOnce hlink => exact ⟨hv.cast?, hlink.accepts hv⟩

/-- A cause of the type is accepted by the handler, whatever part of it is looked at. -/
theorem Handler.Typed.accepts {onCause : Handler D K} {c : Cause (Value D K)}
    (h : onCause.Typed Γ E R E' A) (hc : c.Typed Γ E) : onCause.Accepts c := by
  have herror : onCause.error = E := by cases h <;> rfl
  refine ⟨herror ▸ hc.typed_eq, ?_⟩
  rintro error link e rfl rfl
  cases h with
  | onFailure hlink =>
    cases hc with
    | fail htype he => exact hlink.accepts ⟨htype, he⟩

/-- A typed state passes all checks. -/
theorem Machine.Typed.passes {m : Machine D K} (h : m.Typed Γ E A) : m.Passes := by
  cases h with
  | dispatch hnode hstacked =>
    refine ⟨?_, ?_, ?_, ?_, ?_⟩
    · rintro type link env ⟨⟩ hback
      have hsupplied := hstacked.supplied
      rw [show Array.back? _ = some env from hback] at hsupplied
      -- the environment on top of a typed stack is of the type that the node reads
      cases hnode with
      | read hlink =>
        cases hsupplied with
        | some henv => exact ⟨henv.cast?, hlink.accepts henv⟩
    · rintro type link ⟨⟩ hback
      cases hnode
      exact hstacked.of_back?_eq_none hback
    · rintro v k rest ⟨⟩
    · rintro v onCause k rest ⟨⟩
    · rintro c onCause k rest ⟨⟩
  | settle hending hstacked =>
    refine ⟨?_, ?_, ?_, ?_, ?_⟩
    · rintro type link env ⟨⟩
    · rintro type link ⟨⟩
    · rintro v k rest ⟨⟩ hframes
      obtain rfl : _ = _ := hframes
      cases hstacked with
      | apply hk => exact hk.accepts hending
    · rintro v onCause k rest ⟨⟩ hframes
      obtain rfl : _ = _ := hframes
      cases hstacked with
      | fold hcause hk => exact hk.accepts hending
    · rintro c onCause k rest ⟨⟩ hframes
      obtain rfl : _ = _ := hframes
      cases hstacked with
      | fold hcause => exact hcause.accepts hending

/-- An ending of its types passes the check at the end of a run. -/
theorem Ending.Typed.checked_eq {ending : Ending D K} (h : Ending.Typed Γ E A ending) :
    ending.checked E A = ending := by
  cases ending with
  | success v =>
    have hcast := Value.Fits.cast? h
    simp only [Ending.checked, hcast]
  | failure c =>
    have htyped := Cause.Typed.typed_eq h
    simp only [Ending.checked, htyped]

end Checks

/-! ## Sequences of runs -/

/-- What a program comes to that runs effects, one after another: the runners it has made, and the
    world there is.  Between two runs it may make another runner, and may do to the world whatever
    keeps the invariant of the shared state. -/
inductive Session [Language D K σ] (Γ : Signature K) (I : σ → Prop) (callees : Callees D K σ) :
    List (Runner D K) → World σ → Prop where
  | start {w} (hw : I w.state) : Session Γ I callees [] w
  | runner {runners w settings r} (h : Session Γ I callees runners w)
      (hr : Runner.ofSettings settings = .ok r) : Session Γ I callees (r :: runners) w
  | between {runners w w'} (h : Session Γ I callees runners w) (hw : I w'.state) :
      Session Γ I callees runners w'
  | run {before r after w R E A env fuel ending r' w'} {e : Effect D K R E A}
      (h : Session Γ I callees (before ++ r :: after) w) (he : e.Built Γ) (henv : Supplied Γ R env)
      (hrun : r.evaluateWith callees fuel env e.node w = some (ending, r', w')) :
      Session Γ I callees (before ++ r' :: after) w'

section Sessions

variable [L : Language D K σ] {Γ : Signature K} {I : σ → Prop} {R E A : Ty}

/-- Between two runs no runner has an environment bound, and the invariant holds. -/
theorem Session.sound (hL : L.Honours Γ I) {callees : Callees D K σ} (hc : callees.Sound Γ I)
    {runners : List (Runner D K)} {w : World σ} (h : Session Γ I callees runners w) :
    (∀ r ∈ runners, r.environments = #[]) ∧ I w.state := by
  induction h with
  | start hw =>
    refine ⟨?_, hw⟩
    intro r hr
    cases hr
  | @runner runners w settings r _ hr ih =>
    refine ⟨?_, ih.2⟩
    intro s hs
    rcases List.mem_cons.mp hs with rfl | hs
    · simp only [Runner.ofSettings] at hr
      split at hr
      · cases hr; rfl
      · cases hr
    · exact ih.1 s hs
  | between _ hw ih => exact ⟨ih.1, hw⟩
  | @run before r after _ _ _ _ _ _ _ r' _ _ _ he henv hrun ih =>
    have hr : r.environments = #[] := ih.1 r (by simp)
    obtain ⟨hr', -, hw'⟩ := Runner.evaluateWith_sound hL hc hr henv he.typed ih.2 hrun
    refine ⟨?_, hw'⟩
    intro s hs
    rcases List.mem_append.mp hs with hs | hs
    · exact ih.1 s (List.mem_append_left _ hs)
    · rcases List.mem_cons.mp hs with rfl | hs
      · exact hr'
      · exact ih.1 s (List.mem_append_right _ (List.mem_cons_of_mem _ hs))

/-- The faults in a sound payload are admitted. -/
theorem Value.Sound.admits {f : Fault} (h : Value.Sound Γ (.fault f : Value D K)) : Γ.Admits f := by
  cases h with
  | fault h => exact h

/-- Runs of built effects never fail a check.

    Take a program whose closures do as they are declared, at any time between two of its runs, and
    let it run an effect it has built on any of its runners, with an environment of the type that
    is read or with none where that is the unit type.  Then every state the run goes through passes
    all checks of values, errors and environments, and none is bound only for a read of the unit
    type that no provided environment is pending for.  Where the run ends, what it ends in is of
    the types declared and passes the check at the end; a fault raised or died of is one that the
    program brought along, the second evaluation of a node for one, or the missing environment of
    the unit type. -/
theorem Effect.Built.runs_typed (hL : L.Honours Γ I) {depth : Nat} {runners : List (Runner D K)}
    {w : World σ} (hsession : Session Γ I (Callees.ofFuel depth) runners w) {r : Runner D K}
    (hr : r ∈ runners) {e : Effect D K R E A} (he : e.Built Γ) {env : Option (Value D K)}
    (henv : Supplied Γ R env) :
    (∀ root w₀ now, Runner.entry env e.node (Callees.ofFuel depth) w = some (.ok root, w₀) →
      Machine.Reaches (Callees.ofFuel depth) (r.start root, r.opened w₀) now → now.1.Passes) ∧
    (∀ fuel ending r' w',
      r.evaluateWith (Callees.ofFuel depth) fuel env e.node w = some (ending, r', w') →
        (∀ out, ending = .ok out → out.checked E A = out ∧ Ending.Typed Γ E A out) ∧
        (∀ f, ending = .error (.fault f) → Γ.Admits f) ∧
        (∀ f name, ending = .ok (.failure (.die ⟨.fault f, name⟩)) → Γ.Admits f)) := by
  have hc := Callees.ofFuel_sound hL depth
  obtain ⟨hrunners, hw⟩ := hsession.sound hL hc
  have hempty : r.environments = #[] := hrunners r hr
  constructor
  · intro root w₀ now hentry hreach
    obtain ⟨hroot, hw₀⟩ := Runner.entry_sound henv he.typed hw hentry
    obtain ⟨hnow, -⟩ := hreach.typed hL hc (Runner.start_typed hempty hroot) hw₀
    exact hnow.passes
  · intro fuel ending r' w' hrun
    obtain ⟨-, hending, -⟩ := Runner.evaluateWith_sound hL hc hempty henv he.typed hw hrun
    refine ⟨?_, ?_, ?_⟩
    · rintro out rfl
      exact ⟨Ending.Typed.checked_eq hending, hending⟩
    · rintro f rfl
      exact Value.Sound.admits hending
    · rintro f name rfl
      cases hending with
      | die hpayload => exact hpayload.admits

end Sessions

/-! The language that greets, run on an environment that is provided. -/

/-- What greets is declared to make texts of everything. -/
def Signature.greeting : Signature Unit where
  value _ _ T := T = .text
  test _ _ := True
  outcome _ _ _ A := A = .text
  effect _ _ _ _ A := A = .text
  handler _ _ _ _ A := A = .text
  cause _ E := E = .text
  fault _ := False

/-- The one closure does what it is declared to do in each of its roles. -/
theorem Language.greeting_honours :
    Language.greeting.Honours Signature.greeting fun _ => True where
  value h _ := by cases h; exact ⟨rfl, .text⟩
  test _ _ := trivial
  outcome h _ := by cases h; exact ⟨rfl, .text⟩
  effect h _ := by cases h; exact .succeed (.shared rfl .text)
  handler h _ := by cases h; exact .succeed (.shared rfl .text)
  cause h := by cases h; exact .fail rfl .text

/-- Greets whatever environment it finds. -/
def Effect.greeting : Effect Unit Unit .unit .unit .text :=
  ((.environment : Effect Unit Unit .literal .unit .literal).andThen ()).provide (.literal "you")

theorem Effect.greeting_built : Effect.greeting.Built Signature.greeting :=
  .provide (.andThen .environment rfl) ⟨rfl, .literal⟩

/-- Run on a fresh runner it greets, and what it ends in passes the check. -/
theorem Effect.greeting_typed :
    letI := Language.greeting
    ∃ out r' w', Runner.fresh.evaluateWith (Callees.ofFuel 1) 9 none Effect.greeting.node
        (World.start ()) = some (.ok out, r', w') ∧
      out = .success (.text "hello") ∧ out.checked .unit .text = out := by
  let _ := Language.greeting
  have hsession : Session Signature.greeting (fun _ => True)
      (Callees.ofFuel 1 : Callees Unit Unit Unit) [Runner.fresh] (World.start ()) :=
    .runner (.start trivial) Runner.ofSettings_default
  have hruns := Effect.Built.runs_typed Language.greeting_honours hsession
    (List.mem_singleton.mpr rfl) Effect.greeting_built .none
  refine ⟨_, _, _, rfl, rfl, ?_⟩
  exact ((hruns.2 9 _ _ _ rfl).1 _ rfl).1

end EffectMachine
