/-
  What an evaluation raises.

  A payload leaves an evaluation in one way only: a closure that the machine calls itself, and that
  it does not attempt, raises it.  To say so one needs to know which closures a step calls, on what,
  and in which world.  `Machine.Calls` tells it, by one relation for each of the things that a step
  may play: a source, a link, a continuation, a handler, a frame.  The closure of a node that is
  attempted is left out of it.

  A step then raises just what one of its calls raises (`Machine.leaves_error_iff`).  Whatever the
  library itself plays is quiet: what it complains of goes on as an ending, or as a node that ends
  in it.
-/
import EffectMachine.Effect.Run
import EffectMachine.Proofs.Refinement
import EffectMachine.Proofs.Scopes

namespace EffectMachine

variable {D K σ α β : Type}

/-! ## The calls of a step -/

/-- What a closure does when it is called, apart from what it returns. -/
def Call.act [Language D K σ] : Call D K → Act D K σ Unit
  | value f args => (fun _ => ()) <$> Language.value f args
  | test f v => (fun _ => ()) <$> Language.test f v
  | outcome f v => (fun _ => ()) <$> Language.outcome f v
  | effect f args => (fun _ => ()) <$> Language.effect f args
  | handler f c => (fun _ => ()) <$> Language.handler f c
  | cause f => (fun _ => ()) <$> Language.cause f

/-- Made in the world `w`, the call raises `p` and leaves the world `w'`. -/
def Call.Raises [Language D K σ] (callees : Callees D K σ) (call : Call D K) (w : World σ)
    (p : Value D K) (w' : World σ) : Prop :=
  call.act.exec callees w = some (.error p, w')

/-- The call a source makes for its cause. -/
inductive Source.Calls : Source D K → Call D K → Prop where
  | made {f} : Calls (.made f) (.cause f)
  | failing {f} : Calls (.failing f) (.value f [])

section Calls

variable [Language D K σ] (callees : Callees D K σ)

/-- Followed on a value in the first world, the link makes the call in the second one. -/
inductive Link.Calls : Link D K → Value D K → World σ → Call D K → World σ → Prop where
  | nowOf {f v w} : Calls (.nowOf f) v w (.value f [v]) w
  | call {f v w} : Calls (.call f) v w (.effect f [v]) w
  | outcomeOf {f v w} : Calls (.outcomeOf f) v w (.outcome f v) w
  | join {earlier f v w} : Calls (.join earlier (some f)) v w (.value f [earlier, v]) w
  | requireTest {passes error v w} : Calls (.require passes error) v w (.test passes v) w
  | requireError {passes error v w w'}
      (htest : (Language.test passes v).exec callees w = some (.ok false, w')) :
      Calls (.require passes error) v w (.value error [v]) w'
  | assertTest {passes payload v w} : Calls (.assert passes payload) v w (.test passes v) w
  | assertPayload {passes payload v w w'}
      (htest : (Language.test passes v).exec callees w = some (.ok false, w')) :
      Calls (.assert passes payload) v w (.value payload [v]) w'

inductive Continuation.Calls : Continuation D K → Value D K → World σ → Call D K → World σ → Prop
    where
  | typed {type link v w call w'} (htype : v.type = type) (h : link.Calls callees v w call w') :
      Calls (.typed type link) v w call w'
  | typedOnce {cell type link v w w₁ call w'}
      (htake : Play.take cell callees w = some (.ok true, w₁)) (htype : v.type = type)
      (h : link.Calls callees v w₁ call w') : Calls (.typedOnce cell type link) v w call w'

inductive Handler.Calls : Handler D K → Cause (Value D K) → World σ → Call D K → World σ → Prop
    where
  | mapError {error f c e w} (hc : c.typed error = .fail e) :
      Calls (.mapError error f) c w (.value f [e]) w
  | onCause {error f c w} : Calls (.onCause error f) c w (.handler f (c.typed error)) w
  | onFailure {error link c e w call w'} (hc : c.typed error = .fail e)
      (h : link.Calls callees e w call w') : Calls (.onFailure error link) c w call w'
  | narrow {error payload into c d w} (hc : c.typed error = .die d)
      (htype : d.payload.type = payload) :
      Calls (.narrow error payload into) c w (.value into [d.payload]) w

/-- Met by the ending in the first world, the frame makes the call in the second one. -/
inductive Frame.Calls : Frame D K → Ending D K → World σ → Call D K → World σ → Prop where
  | apply {k v w call w'} (h : k.Calls callees v w call w') :
      Calls (.apply k) (.success v) w call w'
  | success {onCause k v w call w'} (h : k.Calls callees v w call w') :
      Calls (.fold onCause k) (.success v) w call w'
  | failure {onCause k c w call w'} (h : onCause.Calls callees c w call w') :
      Calls (.fold onCause k) (.failure c) w call w'

/-- On the next step, taken in the first world, the machine makes the call in the second one.  An
    attempted closure is not among them. -/
inductive Machine.Calls : Machine D K → World σ → Call D K → World σ → Prop where
  | source {source frames envs steps w call} (h : source.Calls call) :
      Calls ⟨.dispatch (.failCause source), frames, envs, steps⟩ w call w
  | total {f args frames envs steps w} :
      Calls ⟨.dispatch (.total f args), frames, envs, steps⟩ w (.value f args) w
  | read {type link frames envs steps env w call w'} (hback : envs.back? = some env)
      (htype : env.type = type) (h : link.Calls callees env w call w') :
      Calls ⟨.dispatch (.read type link), frames, envs, steps⟩ w call w'
  | resume {ending frame frames envs steps w call w'}
      (h : frame.Calls callees ending w call w') :
      Calls ⟨.settle ending, frame :: frames, envs, steps⟩ w call w'

end Calls

/-! ## Plays that raise -/

/-- The play raises nothing. -/
def Play.Quiet (x : Play D K σ α) : Prop := ∀ callees w p w', x callees w ≠ some (.error p, w')

namespace Play

variable {callees : Callees D K σ} {x : Play D K σ α} {f : α → Play D K σ β} {p : Value D K}
  {w w' : World σ}

/-- A sequence raises what its first play does, or else what its second one does. -/
theorem bind_raises_iff :
    (x >>= f) callees w = some (.error p, w') ↔
      x callees w = some (.error p, w') ∨
        ∃ a w₁, x callees w = some (.ok a, w₁) ∧ f a callees w₁ = some (.error p, w') := by
  constructor
  · intro h
    obtain ⟨a, w₁, hx, hf⟩ | ⟨q, hx, hq⟩ := bind_eq_some h
    · exact .inr ⟨a, w₁, hx, hf⟩
    · cases hq
      exact .inl hx
  · rintro (hx | ⟨a, w₁, hx, hf⟩)
    · rw [bind_apply, hx]
    · rw [bind_apply, hx]
      exact hf

/-- A sequence that goes on quietly raises what its first play does. -/
theorem bind_quiet_raises_iff (hf : ∀ a, Quiet (f a)) :
    (x >>= f) callees w = some (.error p, w') ↔ x callees w = some (.error p, w') := by
  rw [bind_raises_iff]
  constructor
  · rintro (hx | ⟨a, w₁, -, hfa⟩)
    · exact hx
    · exact absurd hfa (hf a callees w₁ p w')
  · exact .inl

namespace Quiet

protected theorem pure (a : α) : Quiet (pure a : Play D K σ α) := by
  intro callees w p w' h
  cases h

protected theorem bind (hx : Quiet x) (hf : ∀ a, Quiet (f a)) : Quiet (x >>= f) := by
  intro callees w p w' h
  exact hx callees w p w' ((bind_quiet_raises_iff hf).mp h)

protected theorem map (g : α → β) (hx : Quiet x) : Quiet (g <$> x) := by
  rw [map_eq_pure_bind]
  exact hx.bind fun a => .pure _

protected theorem cell : Quiet (cell : Play D K σ Nat) := by
  intro callees w p w' h
  cases h

/-- Cells are taken, or found to be taken, without raising. -/
protected theorem take (c : Nat) : Quiet (take c : Play D K σ Bool) := by
  intro callees w p w' h
  cases h

protected theorem takeHalt (c : Nat) : Quiet (takeHalt c : Play D K σ Bool) := by
  intro callees w p w' h
  cases h

protected theorem report (e : Event) : Quiet (report e : Play D K σ Unit) := by
  intro callees w p w' h
  cases h

/-- To attempt an act raises nothing. -/
protected theorem attempt (a : Act D K σ α) : Quiet (attempt a) := by
  intro callees w p w' h
  simp only [attempt] at h
  split at h <;> cases h

end Quiet

/-- A test and what is made of a value that does not pass it raise what either of them does. -/
theorem test_raises_iff {test : Act D K σ Bool} {make : Act D K σ (Value D K)}
    {yes : Play D K σ (Node D K)} {no : Value D K → Play D K σ (Node D K)} (hyes : yes.Quiet)
    (hno : ∀ e, (no e).Quiet) :
    (do if ← act test then yes else no (← act make)) callees w = some (.error p, w') ↔
      act test callees w = some (.error p, w') ∨
        ∃ w₁, test.exec callees w = some (.ok false, w₁) ∧
          act make callees w₁ = some (.error p, w') := by
  rw [bind_raises_iff]
  refine or_congr_right ?_
  constructor
  · rintro ⟨passes, w₁, htest, h⟩
    cases passes with
    | true => exact absurd h (hyes _ _ _ _)
    | false => exact ⟨w₁, htest, (bind_quiet_raises_iff hno).mp h⟩
  · rintro ⟨w₁, htest, hmake⟩
    exact ⟨false, w₁, htest, (bind_quiet_raises_iff hno).mpr hmake⟩

end Play

/-- A call raises what the closure raises, whatever it would have returned. -/
theorem Act.exec_void_raises_iff {callees : Callees D K σ} {a : Act D K σ α} {w w' : World σ}
    {p : Value D K} :
    ((fun _ => ()) <$> a : Act D K σ Unit).exec callees w = some (.error p, w') ↔
      Play.act a callees w = some (.error p, w') := by
  show Play.act ((fun _ => ()) <$> a : Act D K σ Unit) callees w = some (.error p, w') ↔ _
  rw [Play.act_map, map_eq_pure_bind]
  exact Play.bind_quiet_raises_iff fun _ => .pure _

section Quiet

theorem Node.succeedOnce_quiet (v : Value D K) :
    Play.Quiet (Node.succeedOnce v : Play D K σ _) := Play.Quiet.cell.bind fun _ => .pure _

theorem Node.haltOnce_quiet (c : Cause (Value D K)) :
    Play.Quiet (Node.haltOnce c : Play D K σ _) := Play.Quiet.cell.bind fun _ => .pure _

theorem Node.ofOutcomeOnce_quiet (o : Outcome (Value D K) (Value D K)) :
    Play.Quiet (Node.ofOutcomeOnce o : Play D K σ _) := by
  cases o with
  | success v => exact succeedOnce_quiet v
  | failure e => exact haltOnce_quiet _

theorem Slot.settle_quiet (slot : Slot D K) : Play.Quiet (slot.settle : Play D K σ _) := by
  have htake : Play.Quiet (slot.take : Play D K σ _) :=
    fun callees w p w' => Machine.take_ne_error slot callees w w' p
  refine htake.bind fun v? => ?_
  cases v? with
  | none => exact .pure _
  | some v => exact .pure _

/-- What an attempted closure comes to, in one way or the other. -/
theorem Machine.attempted_apply [M : Language D K σ] (f : K) (args : List (Value D K))
    (callees : Callees D K σ) (w : World σ) :
    attempted f args callees w = ((M.value f args).exec callees w).map fun
      | (.ok v, w') => (.ok (.success v), w')
      | (.error p, w') => (.ok (.failure (.die (.ofRaised p))), w'.report .raised) := by
  simp only [attempted, Play.bind_apply, Play.attempt]
  rcases (M.value f args).exec callees w with _ | ⟨_ | _, w'⟩ <;> rfl

/-- An attempted closure raises nothing that leaves the evaluation. -/
theorem Machine.attempted_quiet [Language D K σ] (f : K) (args : List (Value D K)) :
    Play.Quiet (attempted f args : Play D K σ _) := by
  intro callees w p w' h
  rw [attempted_apply, Option.map_eq_some_iff] at h
  obtain ⟨⟨_ | _, v⟩, -, heq⟩ := h <;> cases heq

end Quiet

/-! ## What is raised, a closure has raised -/

section Library

variable [Language D K σ] {callees : Callees D K σ} {p : Value D K} {w w' : World σ}

/-- A source raises what the call it makes raises. -/
theorem Source.take_raises_iff (source : Source D K) :
    source.take callees w = some (.error p, w') ↔
      ∃ call, source.Calls call ∧ call.Raises callees w p w' := by
  constructor
  · intro h
    cases source with
    | shared c => exact absurd h (Play.Quiet.pure _ _ _ _ _)
    | halted n c => exact absurd h ((Play.Quiet.takeHalt n).bind (fun _ => .pure _) _ _ _ _)
    | once n c => exact absurd h ((Play.Quiet.take n).bind (fun _ => .pure _) _ _ _ _)
    | made f => exact ⟨_, .made, Act.exec_void_raises_iff.mpr h⟩
    | failing f =>
      have hf := (Play.bind_quiet_raises_iff fun _ => .pure _).mp h
      exact ⟨_, .failing, Act.exec_void_raises_iff.mpr hf⟩
  · rintro ⟨call, hcall, hraises⟩
    cases hcall with
    | made => exact Act.exec_void_raises_iff.mp hraises
    | failing =>
      exact (Play.bind_quiet_raises_iff fun _ => .pure _).mpr (Act.exec_void_raises_iff.mp hraises)

/-- A link raises what one of the calls it makes raises. -/
theorem Link.follow_raises_iff (link : Link D K) (v : Value D K) :
    link.follow v callees w = some (.error p, w') ↔
      ∃ call w₁, link.Calls callees v w call w₁ ∧ call.Raises callees w₁ p w' := by
  constructor
  · intro h
    cases link with
    | now => exact absurd h (Node.succeedOnce_quiet _ _ _ _ _)
    | nowOf f =>
      have hf := (Play.bind_quiet_raises_iff Node.succeedOnce_quiet).mp h
      exact ⟨_, w, .nowOf, Act.exec_void_raises_iff.mpr hf⟩
    | nowSuccess e a => exact absurd h (Node.succeedOnce_quiet _ _ _ _ _)
    | nowFailure e a => exact absurd h (Node.succeedOnce_quiet _ _ _ _ _)
    | failNow => exact absurd h (Node.haltOnce_quiet _ _ _ _ _)
    | call f => exact ⟨_, w, .call, Act.exec_void_raises_iff.mpr h⟩
    | outcomeOf f =>
      have hf := (Play.bind_quiet_raises_iff Node.ofOutcomeOnce_quiet).mp h
      exact ⟨_, w, .outcomeOf, Act.exec_void_raises_iff.mpr hf⟩
    | replace that => exact absurd h (Play.Quiet.pure _ _ _ _ _)
    | zip that t how => exact absurd h (Play.Quiet.cell.bind (fun _ => .pure _) _ _ _ _)
    | join earlier how =>
      have hf := (Play.bind_quiet_raises_iff Node.succeedOnce_quiet).mp h
      cases how with
      | none => exact absurd hf (Play.Quiet.pure _ _ _ _ _)
      | some f => exact ⟨_, w, .join, Act.exec_void_raises_iff.mpr hf⟩
    | require passes error =>
      obtain htest | ⟨w₁, htest, herror⟩ :=
        (Play.test_raises_iff (Node.succeedOnce_quiet v) fun _ => Node.haltOnce_quiet _).mp h
      · exact ⟨_, w, .requireTest, Act.exec_void_raises_iff.mpr htest⟩
      · exact ⟨_, w₁, .requireError htest, Act.exec_void_raises_iff.mpr herror⟩
    | assert passes payload =>
      obtain htest | ⟨w₁, htest, hpayload⟩ :=
        (Play.test_raises_iff (Node.succeedOnce_quiet v) fun _ => Node.haltOnce_quiet _).mp h
      · exact ⟨_, w, .assertTest, Act.exec_void_raises_iff.mpr htest⟩
      · exact ⟨_, w₁, .assertPayload htest, Act.exec_void_raises_iff.mpr hpayload⟩
    | absolve =>
      cases v with
      | outcome e a o => exact absurd h (Node.ofOutcomeOnce_quiet o _ _ _ _)
      | _ => exact absurd h (Play.Quiet.pure _ _ _ _ _)
    | flatten => cases v <;> exact absurd h (Play.Quiet.pure _ _ _ _ _)
    | provide env => cases v <;> exact absurd h (Play.Quiet.pure _ _ _ _ _)
    | supply outer r s e a => exact absurd h (Node.succeedOnce_quiet _ _ _ _ _)
    | park => exact absurd h (Node.haltOnce_quiet _ _ _ _ _)
    | applyTo f => cases v <;> exact absurd h (Play.Quiet.pure _ _ _ _ _)
    | applyWhole f => exact absurd h (Play.Quiet.pure _ _ _ _ _)
  · rintro ⟨call, w₁, hcalls, hraises⟩
    cases hcalls with
    | nowOf =>
      exact (Play.bind_quiet_raises_iff Node.succeedOnce_quiet).mpr
        (Act.exec_void_raises_iff.mp hraises)
    | call => exact Act.exec_void_raises_iff.mp hraises
    | outcomeOf =>
      exact (Play.bind_quiet_raises_iff Node.ofOutcomeOnce_quiet).mpr
        (Act.exec_void_raises_iff.mp hraises)
    | join =>
      exact (Play.bind_quiet_raises_iff Node.succeedOnce_quiet).mpr
        (Act.exec_void_raises_iff.mp hraises)
    | requireTest | assertTest =>
      exact (Play.test_raises_iff (Node.succeedOnce_quiet v) fun _ => Node.haltOnce_quiet _).mpr
        (.inl (Act.exec_void_raises_iff.mp hraises))
    | requireError htest | assertPayload htest =>
      exact (Play.test_raises_iff (Node.succeedOnce_quiet v) fun _ => Node.haltOnce_quiet _).mpr
        (.inr ⟨w₁, htest, Act.exec_void_raises_iff.mp hraises⟩)

/-- Where the type is as expected a link raises what it does without the check, and nothing
    otherwise. -/
theorem Link.followTyped_raises_iff (type : Ty) (link : Link D K) (v : Value D K) :
    link.followTyped type v callees w = some (.error p, w') ↔
      v.type = type ∧ link.follow v callees w = some (.error p, w') := by
  unfold followTyped
  cases hcast : v.cast? type with
  | some v' =>
    obtain ⟨htype, rfl⟩ := Value.cast?_eq_some_iff.mp hcast
    exact ⟨fun h => ⟨htype, h⟩, And.right⟩
  | none =>
    have hne := Value.cast?_eq_none_iff.mp hcast
    exact ⟨fun h => absurd h (Play.Quiet.pure _ _ _ _ _), fun h => absurd h.1 hne⟩

/-- To go on from an environment raises what the link raises, and only if there is one of the type.
    -/
theorem Link.followEnvironment_raises_iff (type : Ty) (link : Link D K)
    (env : Option (Value D K)) :
    link.followEnvironment type env callees w = some (.error p, w') ↔
      ∃ bound, env = some bound ∧ bound.type = type ∧
        link.follow bound callees w = some (.error p, w') := by
  cases env with
  | none => exact ⟨fun h => absurd h (Play.Quiet.pure _ _ _ _ _), fun ⟨_, h, _⟩ => nomatch h⟩
  | some env =>
    simp only [Option.some.injEq, exists_eq_left', followEnvironment]
    cases hcast : env.cast? type with
    | some v =>
      obtain ⟨htype, rfl⟩ := Value.cast?_eq_some_iff.mp hcast
      exact ⟨fun h => ⟨htype, h⟩, And.right⟩
    | none =>
      have hne := Value.cast?_eq_none_iff.mp hcast
      exact ⟨fun h => absurd h (Play.Quiet.pure _ _ _ _ _), fun h => absurd h.1 hne⟩

/-- A continuation raises what the call it makes raises. -/
theorem Continuation.resume_raises_iff (k : Continuation D K) (v : Value D K) :
    k.resume v callees w = some (.error p, w') ↔
      ∃ call w₁, k.Calls callees v w call w₁ ∧ call.Raises callees w₁ p w' := by
  constructor
  · intro h
    cases k with
    | passThrough => exact absurd h (Node.succeedOnce_quiet _ _ _ _ _)
    | typed type link =>
      obtain ⟨htype, hlink⟩ := (link.followTyped_raises_iff type v).mp h
      obtain ⟨call, w₁, hcalls, hraises⟩ := (link.follow_raises_iff v).mp hlink
      exact ⟨call, w₁, .typed htype hcalls, hraises⟩
    | typedOnce cell type link =>
      obtain htake | ⟨there, w₁, htake, hrest⟩ := Play.bind_raises_iff.mp h
      · exact absurd htake (Play.Quiet.take cell _ _ _ _)
      · cases there with
        | false => exact absurd hrest (Play.Quiet.pure _ _ _ _ _)
        | true =>
          obtain ⟨htype, hlink⟩ := (link.followTyped_raises_iff type v).mp hrest
          obtain ⟨call, w₂, hcalls, hraises⟩ := (link.follow_raises_iff v).mp hlink
          exact ⟨call, w₂, .typedOnce htake htype hcalls, hraises⟩
  · rintro ⟨call, w₁, hcalls, hraises⟩
    cases hcalls with
    | @typed type link _ _ _ _ htype hlink =>
      exact (link.followTyped_raises_iff type v).mpr
        ⟨htype, (link.follow_raises_iff v).mpr ⟨call, w₁, hlink, hraises⟩⟩
    | @typedOnce cell type link _ _ _ _ _ htake htype hlink =>
      refine Play.bind_raises_iff.mpr (.inr ⟨true, _, htake, ?_⟩)
      exact (link.followTyped_raises_iff type v).mpr
        ⟨htype, (link.follow_raises_iff v).mpr ⟨call, w₁, hlink, hraises⟩⟩

/-- A type case calls no closure itself. -/
theorem Handler.typeCase_quiet (error type : Ty) (case : Node D K) (c : Cause (Value D K)) :
    Play.Quiet ((Handler.typeCase error type case).resume c : Play D K σ _) := by
  simp only [resume]
  cases c.typed error with
  | fail e => exact Node.haltOnce_quiet _
  | die d =>
    obtain ⟨payload, name⟩ := d
    cases payload with
    | unmatched u =>
      simp only
      cases u.take? type with
      | none => exact Node.haltOnce_quiet _
      | some v => exact Play.Quiet.cell.bind fun _ => .pure _
    | _ => exact Node.haltOnce_quiet _

/-- So does a handler, whichever of its calls the cause asks for. -/
theorem Handler.resume_raises_iff (onCause : Handler D K) (c : Cause (Value D K)) :
    onCause.resume c callees w = some (.error p, w') ↔
      ∃ call w₁, onCause.Calls callees c w call w₁ ∧ call.Raises callees w₁ p w' := by
  constructor
  · intro h
    -- each handler makes the one call that its rule names, or is quiet
    cases onCause with
    | mapError error f =>
      have hmap := (Play.bind_quiet_raises_iff Node.haltOnce_quiet).mp h
      cases hc : c.typed error with
      | die d =>
        rw [hc, Cause.mapM_die, Play.act_pure] at hmap
        exact absurd hmap (Play.Quiet.pure _ _ _ _ _)
      | fail e =>
        rw [hc, Cause.mapM, Play.act_map, map_eq_pure_bind] at hmap
        have hf := (Play.bind_quiet_raises_iff fun _ => .pure _).mp hmap
        exact ⟨_, w, .mapError hc, Act.exec_void_raises_iff.mpr hf⟩
    | onCause error f => exact ⟨_, w, .onCause, Act.exec_void_raises_iff.mpr h⟩
    | onFailure error link =>
      simp only [resume] at h
      cases hc : c.typed error with
      | die d =>
        rw [hc] at h
        exact absurd h (Node.haltOnce_quiet _ _ _ _ _)
      | fail e =>
        rw [hc] at h
        obtain ⟨call, w₁, hcalls, hraises⟩ := (link.follow_raises_iff e).mp h
        exact ⟨call, w₁, .onFailure hc hcalls, hraises⟩
    | escalate error =>
      simp only [resume] at h
      cases hc : c.typed error <;> rw [hc] at h <;>
        exact absurd h (Node.haltOnce_quiet _ _ _ _ _)
    | narrow error payload into =>
      simp only [resume] at h
      cases hc : c.typed error with
      | fail e =>
        rw [hc] at h
        exact absurd h (Node.haltOnce_quiet _ _ _ _ _)
      | die d =>
        rw [hc] at h
        cases hcast : d.cast? payload with
        | none =>
          simp only [hcast] at h
          exact absurd h (Node.haltOnce_quiet _ _ _ _ _)
        | some q =>
          simp only [hcast] at h
          obtain ⟨htype, rfl⟩ := Value.cast?_eq_some_iff.mp hcast
          have hf := (Play.bind_quiet_raises_iff fun _ => Node.haltOnce_quiet _).mp h
          exact ⟨_, w, .narrow hc htype, Act.exec_void_raises_iff.mpr hf⟩
    | typeCase error type case =>
      exact absurd h (Handler.typeCase_quiet error type case c _ _ _ _)
  · rintro ⟨call, w₁, hcalls, hraises⟩
    cases hcalls with
    | mapError hc =>
      refine (Play.bind_quiet_raises_iff Node.haltOnce_quiet).mpr ?_
      rw [hc, Cause.mapM, Play.act_map, map_eq_pure_bind]
      exact (Play.bind_quiet_raises_iff fun _ => .pure _).mpr (Act.exec_void_raises_iff.mp hraises)
    | onCause => exact Act.exec_void_raises_iff.mp hraises
    | @onFailure error link _ e _ _ _ hc hlink =>
      simp only [resume, hc]
      exact (link.follow_raises_iff e).mpr ⟨call, w₁, hlink, hraises⟩
    | narrow hc htype =>
      have hcast : Defect.cast? _ _ = some _ := Value.cast?_eq_some_iff.mpr ⟨htype, rfl⟩
      simp only [resume, hc, hcast]
      exact (Play.bind_quiet_raises_iff fun _ => Node.haltOnce_quiet _).mpr
        (Act.exec_void_raises_iff.mp hraises)

theorem Frame.answer_raises_iff {frame : Frame D K} {ending : Ending D K}
    {play : Play D K σ (Node D K)} (h : frame.answer? ending = some play) :
    play callees w = some (.error p, w') ↔
      ∃ call w₁, frame.Calls callees ending w call w₁ ∧ call.Raises callees w₁ p w' := by
  cases frame with
  | apply k =>
    cases ending <;> cases h
    rw [k.resume_raises_iff]
    constructor
    · rintro ⟨call, w₁, hcalls, hraises⟩
      exact ⟨call, w₁, .apply hcalls, hraises⟩
    · rintro ⟨call, w₁, hcalls, hraises⟩
      cases hcalls with
      | apply h => exact ⟨call, w₁, h, hraises⟩
  | fold onCause k =>
    cases ending with
    | success v =>
      cases h
      rw [k.resume_raises_iff]
      constructor
      · rintro ⟨call, w₁, hcalls, hraises⟩
        exact ⟨call, w₁, .success hcalls, hraises⟩
      · rintro ⟨call, w₁, hcalls, hraises⟩
        cases hcalls with
        | success h => exact ⟨call, w₁, h, hraises⟩
    | failure c =>
      cases h
      rw [onCause.resume_raises_iff]
      constructor
      · rintro ⟨call, w₁, hcalls, hraises⟩
        exact ⟨call, w₁, .failure hcalls, hraises⟩
      · rintro ⟨call, w₁, hcalls, hraises⟩
        cases hcalls with
        | failure h => exact ⟨call, w₁, h, hraises⟩
  | restore depth => cases ending <;> cases h

/-- A frame that calls a closure answers to the ending. -/
theorem Frame.Calls.exists_answer {frame : Frame D K} {ending : Ending D K} {call : Call D K}
    {w₁ : World σ} (h : frame.Calls callees ending w call w₁) :
    ∃ play : Play D K σ (Node D K), frame.answer? ending = some play := by
  cases h with
  | apply | success | failure => exact ⟨_, rfl⟩

/-- What is played for a node with no node inside raises what the call the node makes raises. -/
theorem Node.leaf_raises_iff {node : Node D K} {play : Play D K σ (Ending D K)}
    (h : node.leaf? = some play) (frames : List (Frame D K)) (envs : Array (Value D K))
    (steps : Nat) :
    play callees w = some (.error p, w') ↔
      ∃ call v, Machine.Calls callees ⟨.dispatch node, frames, envs, steps⟩ w call v ∧
        call.Raises callees v p w' := by
  cases node with
  | succeed slot =>
    cases h
    exact ⟨fun hplay => absurd hplay (slot.settle_quiet _ _ _ _),
      fun ⟨_, _, hcalls, _⟩ => nomatch hcalls⟩
  | failCause source =>
    cases h
    rw [map_eq_pure_bind, Play.bind_quiet_raises_iff fun _ => .pure _, source.take_raises_iff]
    constructor
    · rintro ⟨call, hcalls, hraises⟩
      exact ⟨call, w, .source hcalls, hraises⟩
    · rintro ⟨call, v, hcalls, hraises⟩
      cases hcalls with
      | source hcalls => exact ⟨call, hcalls, hraises⟩
  | total f args =>
    cases h
    rw [map_eq_pure_bind, Play.bind_quiet_raises_iff fun _ => .pure _]
    constructor
    · intro hf
      exact ⟨_, w, .total, Act.exec_void_raises_iff.mpr hf⟩
    · rintro ⟨call, v, hcalls, hraises⟩
      cases hcalls with
      | total => exact Act.exec_void_raises_iff.mp hraises
  | attempt f args =>
    cases h
    exact ⟨fun hplay => absurd hplay (Machine.attempted_quiet f args _ _ _ _),
      fun ⟨_, _, hcalls, _⟩ => nomatch hcalls⟩
  | flatMap inner k | fold inner onCause k | provide slot inner | read type link => cases h

/-- A step ends the evaluation by raising just where one of the closures it calls raises. -/
theorem Machine.leaves_error_iff {m : Machine D K} :
    (∃ steps, Leaves callees m w (.error p) steps w') ↔
      ∃ call v, m.Calls callees w call v ∧ call.Raises callees v p w' := by
  constructor
  · rintro ⟨steps, h⟩
    cases h with
    | leaf hleaf hplay => exact (Node.leaf_raises_iff hleaf _ _ _).mp hplay
    | @read type link _ _ _ _ _ _ hplay =>
      obtain ⟨env, hback, htype, hlink⟩ := (link.followEnvironment_raises_iff type _).mp hplay
      obtain ⟨call, v, hcalls, hraises⟩ := (link.follow_raises_iff env).mp hlink
      exact ⟨call, v, .read hback htype hcalls, hraises⟩
    | resume hframe hplay =>
      obtain ⟨call, v, hcalls, hraises⟩ := (Frame.answer_raises_iff hframe).mp hplay
      exact ⟨call, v, .resume hcalls, hraises⟩
  · rintro ⟨call, v, hcalls, hraises⟩
    cases hcalls with
    | @source source frames envs steps _ _ hsource =>
      have hleaf : (Node.failCause source).leaf? = some (Outcome.failure <$> source.take) := rfl
      refine ⟨_, .leaf hleaf ((Node.leaf_raises_iff hleaf frames envs steps).mpr ?_)⟩
      exact ⟨call, w, .source hsource, hraises⟩
    | @total f args frames envs steps =>
      have hleaf : (Node.total f args).leaf? =
          some (Outcome.success <$> Play.act (Language.value f args)) := rfl
      refine ⟨_, .leaf hleaf ((Node.leaf_raises_iff hleaf frames envs steps).mpr ?_)⟩
      exact ⟨_, w, .total, hraises⟩
    | @read type link _ _ _ env _ _ _ hback htype hlink =>
      refine ⟨_, .read ((link.followEnvironment_raises_iff type _).mpr ⟨env, hback, htype, ?_⟩)⟩
      exact (link.follow_raises_iff env).mpr ⟨call, v, hlink, hraises⟩
    | resume hframe =>
      obtain ⟨play, hanswer⟩ := hframe.exists_answer
      exact ⟨_, .resume hanswer ((Frame.answer_raises_iff hanswer).mpr ⟨call, v, hframe, hraises⟩)⟩

end Library

end EffectMachine
