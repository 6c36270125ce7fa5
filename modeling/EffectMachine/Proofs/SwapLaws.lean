/-
  Environments that are swapped.

  An effect that produces an effect needs two environments, its own and the one of the effect it
  produces, and it needs two runs.  `Effect.swapEnvironments` turns the order around in which the
  two are supplied.  The first run then reads the one environment and calls no closure at all, since
  all it does is to keep that environment in a new effect; the second run does all the rest, with
  the scope of the one inside that of the other.

  So where the direct form makes two runs on two empty stacks, the swapped form nests the second
  evaluation in the first one.  That nobody notices comes down to two facts: what a node comes to
  depends on the environment bound innermost alone, and a run makes of a failure the same payload
  whichever of the two effects has failed.  The two forms use up different numbers of cells, and so
  they are compared in worlds that are alike.
-/
import EffectMachine.Proofs.Alikeness
import EffectMachine.Proofs.Depth
import EffectMachine.Proofs.Reruns

namespace EffectMachine

variable {D K σ α : Type} {R₁ R₂ E E' A : Ty}

/-! ## Two runs -/

namespace Effect

/-- Runs the effect in the one environment, and the effect it produces in the other. -/
def runNested (n : Effect D K R₁ E' (.effect R₂ E A)) (r₁ r₂ : Value D K) :
    Act D K σ (Value D K) := do
  match ← n.runWith r₁ with
  | .effect _ _ _ node => (⟨node⟩ : Effect D K R₂ E A).runWith r₂
  -- not met, as a run checks what it returns
  | v => return v

/-- What the swapped effect produces: the effect, and then what it produces in this environment. -/
def supplied (n : Effect D K R₁ E (.effect R₂ E A)) (r₂ : Value D K) : Effect D K R₁ E A :=
  n.linked (.provide r₂)

section Deliveries

variable [Language D K σ]

/-- What the second run comes to, on what the first one has returned. -/
noncomputable def nestedDelivery (R₂ E A : Ty) (r₂ : Value D K) :
    Value D K → Play D K σ (Value D K)
  | .effect _ _ _ node => (⟨node⟩ : Effect D K R₂ E A).delivery (some r₂)
  | v => pure v

/-- Two runs, one after the other: the first delivers an effect, and the second runs it. -/
theorem runNested_ends (n : Effect D K R₁ E' (.effect R₂ E A)) (r₁ r₂ : Value D K) :
    Play.SameEnds World.Agree (.act (n.runNested r₁ r₂))
      (n.delivery (some r₁) >>= nestedDelivery R₂ E A r₂ : Play D K σ _) := by
  have hsecond : ∀ v, (nestedDelivery R₂ E A r₂ v : Play D K σ _).Steady := by
    intro v
    cases v with
    | effect _ _ _ node => exact delivery_steady _ _
    | _ => exact .pure _
  rw [runNested, Play.act_bind]
  refine .bind (.act _) (fun v => .act _) (delivery_steady _ _) hsecond (runWith_ends n r₁) ?_
  intro v
  cases v with
  | effect _ _ _ node => exact runWith_ends _ r₂
  | _ => exact .of_matches (Q := fun _ => True) fun depth => .pure (fun _ _ h => h) trivial

variable {n : Effect D K R₁ E (.effect R₂ E A)} {r₁ r₂ : Value D K}

/-- The first run of the swapped effect keeps the environment in an effect and does nothing else. -/
theorem swapEnvironments_delivery (hr₂ : r₂.type = R₂) :
    ((n.swapEnvironments : Effect D K R₂ E' (.effect R₁ E A)).delivery (some r₂) : Play D K σ _) =
      Play.spend 1 >>= fun _ => Play.spend 1 >>= fun _ =>
        pure (.effect R₁ E A (n.supplied r₂).node) := by
  have hcast : r₂.cast? R₂ = some r₂ := Value.cast?_eq_some_iff.mpr ⟨hr₂, rfl⟩
  rw [delivery_some, swapEnvironments, Node.result_read]
  simp only [Link.followEnvironment, hcast, Link.follow, Node.succeedOnce_result, bind_assoc,
    pure_bind]
  refine bind_congr fun _ => bind_congr fun _ => ?_
  exact Ending.deliver_success rfl

/-- With the environments swapped the first run delivers the effect as it is, and the second runs it
    with both of them supplied. -/
theorem swapEnvironments_nestedDelivery (hr₂ : r₂.type = R₂) :
    ((n.swapEnvironments : Effect D K R₂ E' (.effect R₁ E A)).delivery (some r₂) >>=
        nestedDelivery R₁ E A r₁ : Play D K σ _) =
      Play.spend 1 >>= fun _ => Play.spend 1 >>= fun _ => (n.supplied r₂).delivery (some r₁) := by
  rw [swapEnvironments_delivery hr₂]
  simp only [bind_assoc, pure_bind]
  rfl

variable {Γ : Signature K} {P : Program K} {I : σ → Prop} {c : Callees D K σ}

/-- To run what the swapped effect produces is to make the two runs one after the other. -/
theorem supplied_sameAs (H : TypedRun ‹_› Γ I c R₁ (some r₁)) (HP : ProgramRun ‹_› P I c (some r₁))
    (HP₂ : ProgramRun ‹_› P I c (some r₂)) (hn : n.Built Γ) (hm : n.Made P) :
    Play.SameAs P I c (fun _ => True) (n.delivery (some r₁) >>= nestedDelivery R₂ E A r₂)
      ((n.supplied r₂).delivery (some r₁)) := by
  have hfailure : ∀ cause, Play.SameAs P I c (fun _ => True)
      (Ending.deliver E (.effect R₂ E A) (.failure cause) >>= nestedDelivery R₂ E A r₂)
      (Ending.deliver E A (.failure cause)) := by
    intro cause w v hwv
    obtain ⟨p, hp⟩ := Ending.exists_deliver_failure (σ := σ) E cause
    rw [hp, hp]
    exact .raised hwv
  rw [delivery_some, delivery_some, supplied, linked_result]
  simp only [bind_assoc]
  refine Play.SameAs.spend_left 1 (Play.SameAs.spend_right 1 ?_)
  refine n.sameAs_of_endings H HP hn hm (fun v hv hv' => ?_) (fun x _ _ => ?_) fun d => ?_
  · obtain ⟨node, rfl, -⟩ := hv.exists_effect
    have hnode : node.Reusable P := by
      cases hv' with
      | effect hnode => exact hnode
    rw [Ending.deliver_success hv.type, pure_bind]
    simp only [Link.followTyped_of_fits hv, Link.follow, pure_bind, Node.result_provide_shared,
      nestedDelivery, delivery_some]
    exact Play.SameAs.spend_left 1
      (Play.SameAs.bind (HP₂.result_sameAs hnode) fun ending _ => ending.deliver_matches)
  · rw [pure_bind]
    exact hfailure _
  · rw [pure_bind]
    exact hfailure _

/-- It makes no difference in what order the two environments are supplied. -/
theorem nestedDelivery_sameAs (E' : Ty) (H : TypedRun ‹_› Γ I c R₁ (some r₁))
    (HP : ProgramRun ‹_› P I c (some r₁)) (HP₂ : ProgramRun ‹_› P I c (some r₂)) (hn : n.Built Γ)
    (hm : n.Made P) (hr₂ : r₂.type = R₂) :
    Play.SameAs P I c (fun _ => True) (n.delivery (some r₁) >>= nestedDelivery R₂ E A r₂)
      ((n.swapEnvironments : Effect D K R₂ E' (.effect R₁ E A)).delivery (some r₂) >>=
        nestedDelivery R₁ E A r₁) := by
  rw [swapEnvironments_nestedDelivery hr₂]
  exact Play.SameAs.spend_right 1 (Play.SameAs.spend_right 1 (supplied_sameAs H HP HP₂ hn hm))

end Deliveries

end Effect

/-! ## A language that notes its calls -/

section Noting

variable {Γ : Signature K} {I : σ → Prop}

/-- On its own part of a larger state an act does what it is declared to do. -/
theorem Act.Sound.lift {Q : α → Prop} {a : Act D K σ α} (h : a.Sound Γ I Q) :
    a.lift.Sound Γ (fun n => I n.state) Q := by
  induction a with
  | done a => exact h
  | raise p => exact h
  | look k ih => exact fun n hn => ih _ (h _ hn)
  | write s k ih => exact fun n _ => ⟨h.1, ih h.2⟩
  | newCell k ih => exact fun c => ih c (h c)
  | run r env node k ih =>
    obtain ⟨hr, R, E, A, henv, hnode, hk⟩ := h
    exact ⟨hr, R, E, A, henv, hnode,
      fun r' ending hr' hending => ih r' ending (hk r' ending hr' hending)⟩
  | build f args k ih =>
    obtain ⟨Ts, R, E, A, hf, hargs, hk⟩ := h
    exact ⟨Ts, R, E, A, hf, hargs, fun node hnode => ih node (hk node hnode)⟩

theorem Act.Sound.noted {Q : α → Prop} {a : Act D K σ α} (h : a.Sound Γ I Q) (call : Call D K) :
    (a.noted call).Sound Γ (fun n => I n.state) Q :=
  fun _ hn => ⟨hn, h.lift⟩

/-- Closures do as they are declared also when their calls are noted. -/
theorem Language.Honours.noting {L : Language D K σ} (hL : L.Honours Γ I) :
    L.noting.Honours Γ fun n => I n.state where
  value h hvs := (hL.value h hvs).noted _
  test h hv := (hL.test h hv).noted _
  outcome h hv := (hL.outcome h hv).noted _
  effect h hvs := (hL.effect h hvs).noted _
  handler h hc := (hL.handler h hc).noted _
  cause h := (hL.cause h).noted _

end Noting

/-! ## The laws, of runs -/

/-- To swap environments is an isomorphism.

    Take an effect that produces an effect, typed and made by a program whose closures do as they
    are declared, and run it with all calls noted.  The swapped effect, run in the one environment
    alone, returns in any world, and in one way only: it produces one and the same effect, changes
    nothing of the shared state, calls nothing and hands nothing over.  What it produces can be run
    as often as one likes, in one environment or another.  From any world such a run ends as the two
    runs of the direct form do from any world that is alike, in the same value or in the same
    payload raised, with the same calls noted in the same order, or neither ends; and so do the two
    forms, and the effect that is swapped twice.

    Worlds are alike here if they have the same shared state, and the same causes handed over if the
    program hands any over, but whatever cells of the library.  Nothing keeps the two environments
    from being of the same type. -/
theorem Effect.swapEnvironments_lawful (L : Language D K σ) {Γ : Signature K} {P : Program K}
    {I : σ → Prop} (hL : L.Honours Γ I) (hP : L.Within P I) {R₁ R₂ E A : Ty}
    {n : Effect D K R₁ E (.effect R₂ E A)} (hn : n.Built Γ) (hm : n.Made P) {r₂ : Value D K}
    (hr₂ : r₂.Fits Γ R₂) (hr₂' : r₂.Reusable P) :
    letI := L.noting
    let Same (a b : Act D K (Noted D K σ) (Value D K)) : Prop :=
      Act.SameEnds (World.Alike P fun s => I s.state) a b
    (∀ E' : Ty, ∃ produced : Effect D K R₁ E A,
      (∀ w : World (Noted D K σ), ∃ w' : World (Noted D K σ),
        w'.state = w.state ∧ w'.halts = w.halts ∧ ∀ result v,
          ((n.swapEnvironments : Effect D K R₂ E' (.effect R₁ E A)).runWith r₂).Ends w result v ↔
            result = .ok (.effect R₁ E A produced.node) ∧ v = w') ∧
      ∀ r₁ : Value D K, r₁.Fits Γ R₁ → r₁.Reusable P →
        Same (produced.runWith r₁) (n.runNested r₁ r₂)) ∧
    (∀ (E' : Ty) (r₁ : Value D K), r₁.Fits Γ R₁ → r₁.Reusable P →
      Same (n.runNested r₁ r₂)
        ((n.swapEnvironments : Effect D K R₂ E' (.effect R₁ E A)).runNested r₂ r₁)) ∧
    (∀ (E' : Ty) (r₁ : Value D K), r₁.Fits Γ R₁ → r₁.Reusable P →
      Same (n.runNested r₁ r₂)
        (((n.swapEnvironments : Effect D K R₂ E (.effect R₁ E A)).swapEnvironments :
          Effect D K R₁ E' (.effect R₂ E A)).runNested r₁ r₂)) := by
  let _ := L.noting
  intro Same
  let I' : Noted D K σ → Prop := fun s => I s.state
  have H : ∀ {R : Ty} {r : Value D K} (depth : Nat), r.Fits Γ R →
      TypedRun L.noting Γ I' (Callees.ofFuel depth) R (some r) :=
    fun depth hr => .ofFuel hL.noting depth (.some hr)
  have HP : ∀ {r : Value D K} (depth : Nat), r.Reusable P →
      ProgramRun L.noting P I' (Callees.ofFuel depth) (some r) := by
    intro r depth hr
    refine .ofFuel hP.noting depth fun v hv => ?_
    cases hv
    exact hr
  refine ⟨?_, ?_, ?_⟩
  · intro E'
    refine ⟨n.supplied r₂, ?_, ?_⟩
    · intro w
      have hends : Play.Ends ((n.swapEnvironments : Effect D K R₂ E' (.effect R₁ E A)).delivery
          (some r₂)) w (.ok (.effect R₁ E A (n.supplied r₂).node)) ((w.spent 1).spent 1) := by
        refine ⟨0, ?_⟩
        rw [swapEnvironments_delivery hr₂.type]
        rfl
      obtain ⟨w', hw', hagree⟩ := (runWith_ends _ r₂).right (.refl w) hends
      refine ⟨w', hagree.state, hagree.halts, fun result v => ⟨?_, ?_⟩⟩
      · intro h
        exact (Play.Steady.act _).ends_unique h hw'
      · rintro ⟨rfl, rfl⟩
        exact hw'
    · intro r₁ hr₁ hr₁'
      refine .of_agree World.Alike.untraced (runWith_ends _ r₁) (runNested_ends n r₁ r₂)
        (.of_matches (Q := fun _ => True) fun depth => ?_)
      exact (supplied_sameAs (H depth hr₁) (HP depth hr₁') (HP depth hr₂') hn hm).symm
  · intro E' r₁ hr₁ hr₁'
    refine .of_agree World.Alike.untraced (runNested_ends n r₁ r₂) (runNested_ends _ r₂ r₁)
      (.of_matches (Q := fun _ => True) fun depth => ?_)
    exact nestedDelivery_sameAs E' (H depth hr₁) (HP depth hr₁') (HP depth hr₂') hn hm hr₂.type
  · intro E' r₁ hr₁ hr₁'
    refine .of_agree World.Alike.untraced (runNested_ends n r₁ r₂) (runNested_ends _ r₁ r₂)
      (.of_matches (Q := fun _ => True) fun depth => ?_)
    -- swapped once, and then the swapped one
    have honce := nestedDelivery_sameAs E (H depth hr₁) (HP depth hr₁') (HP depth hr₂') hn
      hm hr₂.type
    have htwice := nestedDelivery_sameAs E' (H depth hr₂) (HP depth hr₂') (HP depth hr₁')
      hn.swapEnvironments hm.swapEnvironments hr₁.type
    exact Play.SameAs.trans honce htwice

/-! ### A language of nested effects -/

/-- Closures that pair a text with the one they hold, and one that makes an effect with such a
    closure inside. -/
inductive Nesting where
  | outer
  | inner (text : String)

namespace Nesting

/-- Effects that read a text and produce a pair of texts. -/
abbrev Paired : Type := Effect Unit Nesting .text .unit (.tuple [.text, .text])

def textOf : List (Value Unit Nesting) → String
  | [.text s] => s
  | _ => ""

def value : Nesting → List (Value Unit Nesting) → Value Unit Nesting
  | outer, args =>
    .effect .text .unit (.tuple [.text, .text]) (Effect.access (inner (textOf args)) : Paired).node
  | inner s, args => .pair (.text s) (.text (textOf args))

end Nesting

@[reducible]
def Language.nesting : Language Unit Nesting Unit where
  value f args := pure (f.value args)
  test _ _ := pure true
  outcome _ v := pure (.success v)
  effect _ _ := pure (.succeed (.shared .unit))
  handler _ _ := pure (.succeed (.shared .unit))
  cause _ := pure (.fail .unit)

def Signature.nesting : Signature Nesting where
  value
    | .outer, Ts, A => Ts = [.text] ∧ A = .effect .text .unit (.tuple [.text, .text])
    | .inner _, Ts, A => Ts = [.text] ∧ A = .tuple [.text, .text]
  test _ _ := False
  outcome _ _ _ _ := False
  effect _ _ _ _ _ := False
  handler _ _ _ _ _ := False
  cause _ _ := False
  fault _ := False

theorem Language.nesting_honours : Language.nesting.Honours Signature.nesting fun _ => True where
  value {f Ts T vs} h _ := by
    cases f with
    | outer =>
      obtain ⟨rfl, rfl⟩ := h
      exact ⟨rfl, .effect (.read (.nowOf ⟨rfl, rfl⟩))⟩
    | inner s =>
      obtain ⟨rfl, rfl⟩ := h
      exact (Value.AllFit.pair ⟨rfl, .text⟩ ⟨rfl, .text⟩).tuple
  test h _ := h.elim
  outcome h _ := h.elim
  effect h _ := h.elim
  handler h _ := h.elim
  cause h := h.elim

theorem Language.nesting_within : Language.nesting.Within (Program.all False) fun _ => True where
  value {f args} _ _ := by
    cases f with
    | outer => exact .effect (.read (.nowOf trivial))
    | inner s => exact .tuple (Value.AllReusable.pair .text .text)
  test _ _ := trivial
  outcome _ hv := hv
  effect _ _ := .succeed (.tuple Value.AllReusable.nil)
  handler _ _ := .succeed (.tuple Value.AllReusable.nil)
  cause _ := .fail (.tuple Value.AllReusable.nil)

/-- Two environments of one type are not mixed up: supplied in either order they come to the same
    pair, by the same calls. -/
theorem Effect.swapEnvironments_lawful_nesting :
    letI := Language.nesting.noting
    let n : Effect Unit Nesting .text .unit (.effect .text .unit (.tuple [.text, .text])) :=
      access .outer
    let Same (a b : Act Unit Nesting (Noted Unit Nesting Unit) (Value Unit Nesting)) : Prop :=
      Act.SameEnds (World.Alike (Program.all False : Program Nesting) fun _ => True) a b
    let a : Value Unit Nesting := .text "a"
    let b : Value Unit Nesting := .text "b"
    let swapped : Effect Unit Nesting .text .unit (.effect .text .unit (.tuple [.text, .text])) :=
      n.swapEnvironments
    (Same (n.runNested a b) (swapped.runNested b a) ∧
      Same (n.runNested a b) ((swapped.swapEnvironments :
        Effect Unit Nesting .text .unit (.effect .text .unit _)).runNested a b)) ∧
    ∃ w', (n.runNested a b).Ends (World.start ⟨(), []⟩) (.ok (.pair a b)) w' ∧
      w'.calls = [.value (.inner "a") [b], .value .outer [a]] := by
  let _ := Language.nesting.noting
  intro n Same a b swapped
  have hn : n.Built Signature.nesting := .access ⟨rfl, rfl⟩
  have hm : n.Made (Program.all False) := .access trivial
  have ha : a.Fits Signature.nesting .text := ⟨rfl, .text⟩
  have hb : b.Fits Signature.nesting .text := ⟨rfl, .text⟩
  obtain ⟨-, honce, htwice⟩ := swapEnvironments_lawful Language.nesting Language.nesting_honours
    Language.nesting_within hn hm hb .text
  refine ⟨⟨honce .unit a ha .text, htwice .unit a ha .text⟩, ?_⟩
  exact ⟨_, ⟨12, rfl⟩, rfl⟩

end EffectMachine
