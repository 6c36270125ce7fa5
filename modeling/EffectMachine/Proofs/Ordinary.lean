/-
  What the library's own plays consist of.

  Whatever the library plays for a link, a handler or a slot, it puts together from two things: acts
  of closures, and what it does with its cells.  Neither the trace nor the callees are in its reach
  but through the acts.  This is said once here, case by case (`Play.Ordinary`), and what is true of
  acts and of cells, and stays true in sequence, is then true of all these plays by one induction
  each: that they report nothing of their own (`Play.Ordinary.hears`), that they do not see what was
  reported (`Play.agree_congruence`), and that they come to the same with callees that answer more
  (`Play.Ordinary.lasts`).

  The one exception is a closure that is attempted, since what it raises is reported.
-/
import EffectMachine.Proofs.Transition

namespace EffectMachine

variable {D K σ α β : Type}

/-! ## Acts and cells -/

/-- The play is put together from acts and from what is done with cells. -/
inductive Play.Ordinary : {α : Type} → Play D K σ α → Prop where
  | pure {α : Type} (a : α) : Ordinary (Pure.pure a : Play D K σ α)
  | act {α : Type} (a : Act D K σ α) : Ordinary (Play.act a)
  | cell : Ordinary (Play.cell : Play D K σ Nat)
  | take (c : Nat) : Ordinary (Play.take c : Play D K σ Bool)
  | takeHalt (c : Nat) : Ordinary (Play.takeHalt c : Play D K σ Bool)
  | bind {α β : Type} {x : Play D K σ α} {f : α → Play D K σ β} (hx : Ordinary x)
      (hf : ∀ a, Ordinary (f a)) : Ordinary (x >>= f)

theorem Play.Ordinary.map {x : Play D K σ α} (f : α → β) (hx : Ordinary x) :
    Ordinary (f <$> x) := by
  rw [map_eq_pure_bind]
  exact hx.bind fun a => .pure (f a)

/-! ## What the library plays -/

section Library

theorem Node.succeedOnce_ordinary (v : Value D K) :
    Play.Ordinary (Node.succeedOnce v : Play D K σ _) := .bind .cell fun _ => .pure _

theorem Node.haltOnce_ordinary (c : Cause (Value D K)) :
    Play.Ordinary (Node.haltOnce c : Play D K σ _) := .bind .cell fun _ => .pure _

theorem Node.ofOutcomeOnce_ordinary (o : Outcome (Value D K) (Value D K)) :
    Play.Ordinary (Node.ofOutcomeOnce o : Play D K σ _) := by
  cases o with
  | success v => exact succeedOnce_ordinary v
  | failure e => exact haltOnce_ordinary _

theorem Slot.take_ordinary (slot : Slot D K) : Play.Ordinary (slot.take : Play D K σ _) := by
  cases slot with
  | shared v => exact .pure _
  | once c v => exact .bind (.take c) fun _ => .pure _

theorem Slot.settle_ordinary (slot : Slot D K) : Play.Ordinary (slot.settle : Play D K σ _) := by
  refine slot.take_ordinary.bind fun v? => ?_
  cases v? <;> exact .pure _

variable [Language D K σ]

theorem Source.take_ordinary (source : Source D K) :
    Play.Ordinary (source.take : Play D K σ _) := by
  cases source with
  | shared c => exact .pure c
  | halted n c => exact .bind (.takeHalt n) fun _ => .pure _
  | once n c => exact .bind (.take n) fun _ => .pure _
  | made f => exact .act _
  | failing f => exact .bind (.act _) fun _ => .pure _

theorem joined_ordinary (join : Option K) (a b : Value D K) :
    Play.Ordinary (joined join a b : Play D K σ _) := by
  cases join with
  | none => exact .pure _
  | some f => exact .act _

/-- Links are put together from closures and from cells. -/
theorem Link.follow_ordinary (link : Link D K) (v : Value D K) :
    Play.Ordinary (link.follow v : Play D K σ _) := by
  cases link with
  | now | nowSuccess e a | nowFailure e a | supply outer r s e a =>
    exact Node.succeedOnce_ordinary _
  | failNow | park => exact Node.haltOnce_ordinary _
  | replace that | applyWhole f => exact .pure _
  | nowOf f => exact .bind (.act _) Node.succeedOnce_ordinary
  | call f => exact .act _
  | outcomeOf f => exact .bind (.act _) Node.ofOutcomeOnce_ordinary
  | zip that t how => exact .bind .cell fun _ => .pure _
  | join a how => exact (joined_ordinary how a v).bind Node.succeedOnce_ordinary
  | require passes other | assert passes other =>
    refine .bind (.act _) fun passed => ?_
    cases passed with
    | true => exact Node.succeedOnce_ordinary v
    | false => exact .bind (.act _) fun _ => Node.haltOnce_ordinary _
  | absolve =>
    cases v with
    | outcome e a o => exact Node.ofOutcomeOnce_ordinary o
    | _ => exact .pure _
  | flatten | provide env | applyTo f => cases v <;> exact .pure _

theorem Link.followTyped_ordinary (type : Ty) (link : Link D K) (v : Value D K) :
    Play.Ordinary (link.followTyped type v : Play D K σ _) := by
  simp only [followTyped]
  cases v.cast? type with
  | some v => exact link.follow_ordinary v
  | none => exact .pure _

theorem Link.followEnvironment_ordinary (type : Ty) (link : Link D K)
    (env : Option (Value D K)) :
    Play.Ordinary (link.followEnvironment type env : Play D K σ _) := by
  cases env with
  | none => exact .pure _
  | some env =>
    simp only [followEnvironment]
    cases env.cast? type with
    | some env => exact link.follow_ordinary env
    | none => exact .pure _

theorem Continuation.resume_ordinary (k : Continuation D K) (v : Value D K) :
    Play.Ordinary (k.resume v : Play D K σ _) := by
  cases k with
  | passThrough => exact Node.succeedOnce_ordinary v
  | typed type link => exact link.followTyped_ordinary type v
  | typedOnce c type link =>
    refine .bind (.take c) fun there => ?_
    cases there with
    | true => exact link.followTyped_ordinary type v
    | false => exact .pure _

theorem Handler.resume_ordinary (onCause : Handler D K) (c : Cause (Value D K)) :
    Play.Ordinary (onCause.resume c : Play D K σ _) := by
  cases onCause with
  | mapError error f => exact .bind (.act _) Node.haltOnce_ordinary
  | onCause error f => exact .act _
  | onFailure error link =>
    simp only [resume]
    cases c.typed error with
    | fail e => exact link.follow_ordinary e
    | die d => exact Node.haltOnce_ordinary _
  | escalate error =>
    simp only [resume]
    cases c.typed error <;> exact Node.haltOnce_ordinary _
  | narrow error payload into =>
    simp only [resume]
    cases c.typed error with
    | fail e => exact Node.haltOnce_ordinary _
    | die d =>
      simp only
      cases d.cast? payload with
      | some p => exact .bind (.act _) fun _ => Node.haltOnce_ordinary _
      | none => exact Node.haltOnce_ordinary _
  | typeCase error type case =>
    simp only [resume]
    cases c.typed error with
    | fail e => exact Node.haltOnce_ordinary _
    | die d =>
      obtain ⟨payload, name⟩ := d
      cases payload with
      | unmatched u =>
        simp only
        cases u.take? type with
        | some v => exact .bind .cell fun _ => .pure _
        | none => exact Node.haltOnce_ordinary _
      | _ => exact Node.haltOnce_ordinary _

/-- Of the nodes without another inside, only an attempt may report. -/
theorem Node.leaf?_ordinary {node : Node D K} {play : Play D K σ (Ending D K)}
    (h : node.leaf? = some play) (hnode : ∀ f args, node ≠ .attempt f args) : play.Ordinary := by
  cases node with
  | succeed slot => cases h; exact slot.settle_ordinary
  | failCause source => cases h; exact source.take_ordinary.map _
  | total f args => cases h; exact (Play.Ordinary.act _).map _
  | attempt f args => exact absurd rfl (hnode f args)
  | flatMap inner k | fold inner onCause k | provide slot inner | read type link => cases h

theorem Frame.answer?_ordinary {frame : Frame D K} {ending : Ending D K}
    {play : Play D K σ (Node D K)} (h : frame.answer? ending = some play) : play.Ordinary := by
  cases frame with
  | apply k =>
    cases ending <;> cases h
    exact k.resume_ordinary _
  | fold onCause k =>
    cases ending with
    | success v => cases h; exact k.resume_ordinary v
    | failure c => cases h; exact onCause.resume_ordinary c
  | restore depth => cases ending <;> cases h

end Library

end EffectMachine
