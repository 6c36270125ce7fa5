/-
  Running again.

  To run an effect again is to evaluate its tree once more, on the runner of the first run or on
  another one, in a world in which all kinds of things have happened in between.  If the shared
  state is what it was then, and so are the cells of the causes that were handed over, the second
  run goes like the first (`Runner.evaluateWith_again`): it makes the same calls and the same
  reports, takes as many steps, ends in the same and leaves the same shared state.  Only the label
  of its span may be another.

  The calls are those noted by `Language.noting`.  That language only adds to its record, so that
  the calls of a run are the ones by which the record has grown (`Callees.ofFuel_older`).
-/
import EffectMachine.Proofs.Calls
import EffectMachine.Proofs.TwinRuns

namespace EffectMachine

variable {D K σ α : Type}

/-! ## The record of calls only grows -/

/-- The first world is the second one, with these calls noted before all others. -/
structure World.Older (older : List (Call D K)) (w v : World (Noted D K σ)) : Prop where
  forget : w.forget = v.forget
  calls : w.calls = v.calls ++ older

namespace World.Older

variable {older : List (Call D K)} {w v : World (Noted D K σ)}

theorem kept : World.Kept (@Older D K σ older) where
  halts h := congrArg (fun u : World σ => u.halts) h.forget
  cells h := congrArg (fun u : World σ => u.cells) h.forget
  setHalts h halts := ⟨congrArg (fun u : World σ => { u with halts }) h.forget, h.calls⟩
  setCells h cells := ⟨congrArg (fun u : World σ => { u with cells }) h.forget, h.calls⟩
  report h e := ⟨congrArg (fun u : World σ => u.report e) h.forget, h.calls⟩

/-- What was noted before is no part of the state an act goes by. -/
theorem state (h : w.Older older v) : w.state.state = v.state.state :=
  congrArg World.state h.forget

theorem keptAt : World.KeptAt (@Older D K σ older) Noted.part Noted.part where
  get h := h.state
  set h s := ⟨congrArg (fun u : World σ => { u with state := s }) h.forget, h.calls⟩

/-- One more call on both sides. -/
theorem note (h : w.Older older v) (call : Call D K) :
    World.Older older { w with state := { w.state with calls := call :: w.state.calls } }
      { v with state := { v.state with calls := call :: v.state.calls } } := by
  refine ⟨h.forget, ?_⟩
  show call :: w.calls = call :: v.calls ++ older
  rw [h.calls, List.cons_append]

end World.Older

/-- What has been noted before has no part in what an act does. -/
theorem Act.exec_lift_older {older : List (Call D K)} {c d : Callees D K (Noted D K σ)}
    (hc : Callees.Alike (World.Older older) c d) (a : Act D K σ α) :
    Play.Alike (World.Older older) c d (.act a.lift) (.act a.lift) :=
  Noted.places_lift.alike Noted.places_lift World.Older.kept World.Older.keptAt hc a

/-- Every closure notes one more call on either side, and then does the same. -/
theorem Language.noting_older (L : Language D K σ) (older : List (Call D K)) :
    Language.Alike L.noting L.noting (World.Older older) where
  value hc f args _ _ h := Act.exec_lift_older hc (L.value f args) (h.note _)
  test hc f v _ _ h := Act.exec_lift_older hc (L.test f v) (h.note _)
  outcome hc f v _ _ h := Act.exec_lift_older hc (L.outcome f v) (h.note _)
  effect hc f args _ _ h := Act.exec_lift_older hc (L.effect f args) (h.note _)
  handler hc f c _ _ h := Act.exec_lift_older hc (L.handler f c) (h.note _)
  cause hc f _ _ h := Act.exec_lift_older hc (L.cause f) (h.note _)

/-- Runs and calls only add to the record of calls. -/
theorem Callees.ofFuel_older (L : Language D K σ) (older : List (Call D K)) (depth : Nat) :
    Callees.Alike (World.Older older) (@Callees.ofFuel D K _ L.noting depth)
      (@Callees.ofFuel D K _ L.noting depth) :=
  Callees.ofFuel_alike (L.noting_older older) World.Older.kept depth

/-! ## A program whose calls are noted -/

variable {P : Program K} {I : σ → Prop}

/-- On its own part of the state the act asks for the same things. -/
theorem Act.Within.lift {Q : α → Prop} {a : Act D K σ α} (h : a.Within P I Q) :
    a.lift.Within P (fun n => I n.state) Q := by
  induction a with
  | done a => exact h
  | raise p => exact h
  | look k ih => exact fun n hn => ih _ (h _ hn)
  | write s k ih => exact fun n _ => ⟨h.1, ih h.2⟩
  | newCell k ih => exact ⟨h.1, fun c => ih c (h.2 c)⟩
  | run r env node k ih =>
    obtain ⟨hr, henv, hnode, hk⟩ := h
    exact ⟨hr, henv, hnode, fun r' ending hr' hending => ih r' ending (hk r' ending hr' hending)⟩
  | build f args k ih =>
    obtain ⟨hf, hargs, hk⟩ := h
    exact ⟨hf, hargs, fun node hnode => ih node (hk node hnode)⟩

theorem Act.Within.noted {Q : α → Prop} {a : Act D K σ α} (h : a.Within P I Q)
    (call : Call D K) : (a.noted call).Within P (fun n => I n.state) Q :=
  fun _ hn => ⟨hn, h.lift⟩

/-- A program stays within itself when its calls are noted. -/
theorem Language.Within.noting {L : Language D K σ} (hL : L.Within P I) :
    L.noting.Within P fun n => I n.state where
  value hf hargs := (hL.value hf hargs).noted _
  test hf hv := (hL.test hf hv).noted _
  outcome hf hv := (hL.outcome hf hv).noted _
  effect hf hargs := (hL.effect hf hargs).noted _
  handler hf hc := (hL.handler hf hc).noted _
  cause hf := (hL.cause hf).noted _

/-! ## Runs -/

/-- Two runs that go the same way: they come to no end, or they end in the same, with the same
    environments bound, after as many steps and in worlds with the same shared state, and between
    the same calls and the same reports, but that each has a span with the label of its own runner.
    If the program has any halts, their cells are the same as well. -/
inductive Reruns (P : Program K) (r r' : Runner D K) (w v : World (Noted D K σ)) :
    Option (Raised D K (Ending D K) × Runner D K × World (Noted D K σ)) →
    Option (Raised D K (Ending D K) × Runner D K × World (Noted D K σ)) → Prop where
  | endless : Reruns P r r' w v none none
  | ended {ending envs steps calls events w' v'} (hstate : w'.state.state = v'.state.state)
      (hhalts : P.halts → w'.halts = v'.halts) (hcalls : w'.calls = calls ++ w.calls)
      (hcalls' : v'.calls = calls ++ v.calls)
      (htrace : w'.trace = events ++ .span r.settings.label :: w.trace)
      (htrace' : v'.trace = events ++ .span r'.settings.label :: v.trace) :
      Reruns P r r' w v (some (ending, r.after ending envs steps, w'))
        (some (ending, r'.after ending envs steps, v'))

/-- In worlds with the same shared state a reusable node is evaluated the same way, on runners with
    the same environments that have room for the frames, or have none, both of them. -/
theorem Runner.evaluateWith_again {L : Language D K σ} (hL : L.Within P I) (depth fuel : Nat)
    {r r' : Runner D K} (henvs : r.environments = r'.environments)
    (hfit : r.settings.framesFit = r'.settings.framesFit) (hr : r.Reusable P)
    {env : Option (Value D K)} (henv : ∀ v, env = some v → v.Reusable P) {node : Node D K}
    (hnode : node.Reusable P) {w v : World (Noted D K σ)} (hinv : I w.state.state)
    (hstate : w.state.state = v.state.state) (hhalts : P.halts → w.halts = v.halts) :
    Reruns P r r' w v
      (@evaluateWith D K _ L.noting (@Callees.ofFuel D K _ L.noting depth) fuel r env node w)
      (@evaluateWith D K _ L.noting (@Callees.ofFuel D K _ L.noting depth) fuel r' env node v) := by
  -- both are compared with what they are where no calls have been noted before
  let fresh (u : World (Noted D K σ)) : World (Noted D K σ) := { u with state := ⟨u.state.state, []⟩ }
  have hfresh : ∀ u : World (Noted D K σ), u.Older u.calls (fresh u) := fun u => ⟨rfl, rfl⟩
  have hrun := fun (r : Runner D K) (u : World (Noted D K σ)) =>
    Runner.evaluateWith_alike (L.noting_older u.calls) World.Older.kept
      (Callees.ofFuel_older L u.calls depth) fuel r env node (hfresh u)
  have htwins : World.Twins P (fun n => I n.state) (.span r.settings.label :: w.trace)
      (.span r'.settings.label :: v.trace) ((fresh w).report (.span r.settings.label))
      ((fresh v).report (.span r'.settings.label)) := by
    refine ⟨?_, hinv, hhalts, [], rfl, rfl⟩
    show (⟨w.state.state, []⟩ : Noted D K σ) = ⟨v.state.state, []⟩
    rw [hstate]
  have htogether := @Runner.evaluateWith_together D K _ P _ _ _ _ _ _ r r' L.noting hL.noting
    (@Callees.ofFuel_paired D K _ P _ L.noting hL.noting _ _ depth) fuel henvs hfit hr env henv node
    hnode htwins
  have hw := hrun r w
  have hv := hrun r' v
  generalize @evaluateWith D K _ L.noting _ fuel r env node w = out at hw ⊢
  generalize @evaluateWith D K _ L.noting _ fuel r' env node v = out' at hv ⊢
  generalize @evaluateWith D K _ L.noting _ fuel r env node (fresh w) = start at hw htogether
  generalize @evaluateWith D K _ L.noting _ fuel r' env node (fresh v) = start' at hv htogether
  cases htogether with
  | endless =>
    cases hw
    cases hv
    exact .endless
  | @ended ending envs steps w₁ v₁ htwins hgrow hgrow' hending hkept =>
    cases hw with
    | @ended _ _ w' _ hw =>
      cases hv with
      | @ended _ _ v' _ hv =>
        obtain ⟨events, htrace, htrace'⟩ := htwins.trace
        have hcalls : w₁.calls = v₁.calls := congrArg Noted.calls htwins.state
        have hcalls' : v'.calls = w₁.calls ++ v.calls := by rw [hcalls, hv.calls]
        have hw' : w'.trace = w₁.trace := congrArg (fun u : World σ => u.trace) hw.forget
        have hv' : v'.trace = v₁.trace := congrArg (fun u : World σ => u.trace) hv.forget
        refine .ended ?_ (fun h => ?_) hw.calls hcalls' (hw'.trans htrace) (hv'.trans htrace')
        · rw [hw.state, hv.state, htwins.state]
        · rw [World.Older.kept.halts hw, World.Older.kept.halts hv, htwins.halts h]

end EffectMachine
