/-
  Cases for a type that an earlier case is for already.

  The first case for a type is the one that runs, so a second one behind it looks superfluous.  It is
  as far as the value goes that is parked in front of the list: that value the first case takes.  But
  what a case ends in is dispatched among the cases behind it, and a handler may park a value
  itself.  Such a value is past the first case already, and the second one takes it.

  `Enters` says which cases are run, in what order and in what worlds, by the rules of `Dispatched`.
  A case is run either for the ending in front of the list or for that of a case run before it, and
  then none between the two is for the same ending (`Enters.iff`).  Where there is an earlier case
  for the type the first of these is excluded, and in the second the case run before is no earlier
  than that one.  What the handler is of a case that is not run makes no difference
  (`Dispatched.replaced`).
-/
import EffectMachine.Proofs.Dispatch
import EffectMachine.Proofs.Unwinding

namespace EffectMachine

variable {D K σ : Type} {R E A B : Ty}

/-! ## Cases that are run -/

/-- On this runner the cases, asked about an ending in a world, come to run `case` with `v` bound in
    the world `u`.  The cases behind it are `rest`, which also tells its place in the list. -/
inductive Enters [Language D K σ] (callees : Callees D K σ) (r : Runner D K) :
    List (Case D K E B) → Ending D K → World σ →
      (case : Case D K E B) → (rest : List (Case D K E B)) → Value D K → World σ → Prop where
  /-- It is the first case that is for the ending. -/
  | first {before case rest out v w} (hbefore : ∀ case ∈ before, case.match? out = none)
      (hcase : case.match? out = some v) :
      Enters callees r (before ++ case :: rest) out w case rest v (w.spent (before.length + 1))
  /-- The first case that is for the ending comes to an ending of its own, and those behind it come
      to run the case for that. -/
  | later {before earlier after out v₁ w fuel next r' w₁ case rest v u}
      (hbefore : ∀ case ∈ before, case.match? out = none) (hcase : earlier.match? out = some v₁)
      (hrun : (r.binding v₁).evaluate callees fuel earlier.handler.node
        (w.spent (before.length + 1)) = some (.ok next, r', w₁))
      (h : Enters callees r after next w₁ case rest v u) :
      Enters callees r (before ++ earlier :: after) out w case rest v u

/-- Run with `v` bound in the world `u`, the case ends with a value parked that none of the cases
    `between` is for and `second` is; this one is run with `v'` bound in `u'`. -/
def Case.HandsOn [Language D K σ] (callees : Callees D K σ) (r : Runner D K)
    (case : Case D K E B) (v : Value D K) (u : World σ) (between : List (Case D K E B))
    (second : Case D K E B) (v' : Value D K) (u' : World σ) : Prop :=
  ∃ fuel next r' w, (r.binding v).evaluate callees fuel case.handler.node u =
      some (.ok next, r', w) ∧
    (∀ other ∈ between, other.match? next = none) ∧ second.match? next = some v' ∧
    u' = w.spent (between.length + 1)

/-- Cases for one type are for the same endings. -/
theorem Case.match?_congr {case case' : Case D K E B} (h : case.type = case'.type)
    (out : Ending D K) : case.match? out = case'.match? out := by
  simp only [match?, h]

/-- Two elements of one list: the one, the same one or the other comes first. -/
theorem append_cons_trichotomy {α : Type} {as bs as' bs' : List α} {a a' : α}
    (h : as ++ a :: bs = as' ++ a' :: bs') :
    (as = as' ∧ a = a' ∧ bs = bs') ∨
      (∃ between, as' = as ++ a :: between ∧ bs = between ++ a' :: bs') ∨
      (∃ between, as = as' ++ a' :: between ∧ bs' = between ++ a :: bs) := by
  obtain ⟨cs, has', hbs⟩ | ⟨cs, has, hbs'⟩ := List.append_eq_append_iff.mp h
  · cases cs with
    | nil =>
      obtain ⟨rfl, rfl⟩ := List.cons_eq_cons.mp hbs
      exact .inl ⟨by rw [has', List.append_nil], rfl, rfl⟩
    | cons c cs =>
      obtain ⟨rfl, rfl⟩ := List.cons_eq_cons.mp hbs
      exact .inr (.inl ⟨cs, has', rfl⟩)
  · cases cs with
    | nil =>
      obtain ⟨rfl, rfl⟩ := List.cons_eq_cons.mp hbs'
      exact .inl ⟨by rw [has, List.append_nil], rfl, rfl⟩
    | cons c cs =>
      obtain ⟨rfl, rfl⟩ := List.cons_eq_cons.mp hbs'
      exact .inr (.inr ⟨cs, has, rfl⟩)

/-- There is one first case at most that is for an ending. -/
theorem Case.first_unique {before before' after after' : List (Case D K E B)}
    {case case' : Case D K E B} {out : Ending D K} {v v' : Value D K}
    (h : before ++ case :: after = before' ++ case' :: after')
    (hbefore : ∀ case ∈ before, case.match? out = none) (hcase : case.match? out = some v)
    (hbefore' : ∀ case ∈ before', case.match? out = none) (hcase' : case'.match? out = some v') :
    before = before' ∧ case = case' ∧ after = after' ∧ v = v' := by
  obtain ⟨rfl, rfl, rfl⟩ | ⟨between, rfl, rfl⟩ | ⟨between, rfl, rfl⟩ := append_cons_trichotomy h
  · exact ⟨rfl, rfl, rfl, Option.some.inj (hcase.symm.trans hcase')⟩
  · have hnone := hbefore' case (List.mem_append_right _ (List.mem_cons_self ..))
    rw [hcase] at hnone
    cases hnone
  · have hnone := hbefore case' (List.mem_append_right _ (List.mem_cons_self ..))
    rw [hcase'] at hnone
    cases hnone

section Enters

variable [Language D K σ] {callees : Callees D K σ} {r : Runner D K}
  {cases ahead rest after : List (Case D K E B)} {case second : Case D K E B} {out : Ending D K}
  {v : Value D K} {w u : World σ}

namespace Enters

/-- A case that is run stands in the list, with the rest behind it. -/
theorem exists_ahead (h : Enters callees r cases out w case rest v u) :
    ∃ ahead, cases = ahead ++ case :: rest := by
  induction h with
  | @first before case rest out v w hbefore hcase => exact ⟨before, rfl⟩
  | @later before earlier after out v₁ w fuel next r' w₁ case rest v u hbefore hcase hrun h ih =>
    obtain ⟨ahead, rfl⟩ := ih
    exact ⟨before ++ earlier :: ahead, by rw [List.append_assoc, List.cons_append]⟩

/-- What a case that is run ends in, the cases behind it are asked about. -/
theorem trans {fuel : Nat} {next : Ending D K} {r' : Runner D K} {w₁ u₁ : World σ}
    {later : Case D K E B} {behind : List (Case D K E B)} {v₁ : Value D K}
    (h : Enters callees r cases out w case rest v u)
    (hrun : (r.binding v).evaluate callees fuel case.handler.node u = some (.ok next, r', w₁))
    (hlater : Enters callees r rest next w₁ later behind v₁ u₁) :
    Enters callees r cases out w later behind v₁ u₁ := by
  induction h with
  | first hbefore hcase => exact .later hbefore hcase hrun hlater
  | later hbefore hcase hrun' h ih => exact .later hbefore hcase hrun' (ih hrun hlater)

/-- A case that is run is the first one that is for the ending in front of the list, or the first
    one behind another case that is for what that one, which is run itself, ends in. -/
protected theorem iff :
    Enters callees r (ahead ++ second :: after) out w second after v u ↔
      ((∀ case ∈ ahead, case.match? out = none) ∧ second.match? out = some v ∧
        u = w.spent (ahead.length + 1)) ∨
      ∃ before case between v₁ u₁, ahead = before ++ case :: between ∧
        Enters callees r (ahead ++ second :: after) out w case (between ++ second :: after) v₁ u₁ ∧
        case.HandsOn callees r v₁ u₁ between second v u := by
  constructor
  · intro h
    generalize hcases : ahead ++ second :: after = cases at h
    -- behind the case that is run first the list is shorter in front, and ends as before
    induction h generalizing ahead with
    | @first before case rest out v w hbefore hcase =>
      obtain rfl := List.append_cancel_right hcases
      exact .inl ⟨hbefore, hcase, rfl⟩
    | @later before earlier behind out v₀ w fuel next r' w₁ case rest v u hbefore hcase hrun h ih =>
      obtain ⟨ahead', rfl⟩ := h.exists_ahead
      rw [← List.cons_append, ← List.append_assoc] at hcases
      obtain rfl := List.append_cancel_right hcases
      right
      obtain ⟨hnone, hmatch, rfl⟩ | ⟨before', case', between, v₁, u₁, rfl, hcase', hhands⟩ := ih rfl
      · exact ⟨before, earlier, ahead', v₀, _, rfl, .first hbefore hcase, fuel, next, r', w₁, hrun,
          hnone, hmatch, rfl⟩
      · exact ⟨before ++ earlier :: before', case', between, v₁, u₁,
          by rw [List.append_assoc, List.cons_append], .later hbefore hcase hrun hcase', hhands⟩
  · rintro (⟨hahead, hsecond, rfl⟩ |
      ⟨before, case, between, v₁, u₁, -, h, fuel, next, r', w₁, hrun, hbetween, hsecond, rfl⟩)
    · exact .first hahead hsecond
    · exact h.trans hrun (.first hbetween hsecond)

/-- If an earlier case is for the same type, only a case from that one on can hand on to it. -/
theorem iff_of_repeated {first : Case D K E B} (hfirst : first ∈ ahead)
    (hsame : first.type = second.type) :
    Enters callees r (ahead ++ second :: after) out w second after v u ↔
      ∃ before case between v₁ u₁, ahead = before ++ case :: between ∧ first ∉ between ∧
        Enters callees r (ahead ++ second :: after) out w case (between ++ second :: after) v₁ u₁ ∧
        case.HandsOn callees r v₁ u₁ between second v u := by
  rw [Enters.iff]
  constructor
  · rintro (⟨hahead, hsecond, -⟩ | ⟨before, case, between, v₁, u₁, heq, h, hhands⟩)
    · rw [← Case.match?_congr hsame, hahead first hfirst] at hsecond
      cases hsecond
    · refine ⟨before, case, between, v₁, u₁, heq, fun hmem => ?_, h, hhands⟩
      obtain ⟨fuel, next, r', w₁, -, hbetween, hsecond, -⟩ := hhands
      rw [← Case.match?_congr hsame, hbetween first hmem] at hsecond
      cases hsecond
  · rintro ⟨before, case, between, v₁, u₁, heq, -, h, hhands⟩
    exact .inr ⟨before, case, between, v₁, u₁, heq, h, hhands⟩

/-- Where a case is run, the cases do as its handler does with the value bound, and then as those
    behind it do about what it ends in. -/
theorem dispatched_iff (h : Enters callees r cases out w case rest v u)
    {ending : Raised D K (Ending D K)} {w' : World σ} :
    Dispatched callees r cases out w ending w' ↔
      (∃ p fuel r', (r.binding v).evaluate callees fuel case.handler.node u =
        some (.error p, r', w') ∧ ending = .error p) ∨
      ∃ next fuel r' u', (r.binding v).evaluate callees fuel case.handler.node u =
        some (.ok next, r', u') ∧ Dispatched callees r rest next u' ending w' := by
  induction h with
  | @first before case rest out v w hbefore hcase =>
    constructor
    · intro hd
      generalize hcases : before ++ case :: rest = cases at hd
      cases hd with
      | left hnone =>
        rw [hnone case (hcases ▸ List.mem_append_right _ (List.mem_cons_self ..))] at hcase
        cases hcase
      | raised hbefore' hcase' hrun =>
        obtain ⟨rfl, rfl, rfl, rfl⟩ := Case.first_unique hcases hbefore hcase hbefore' hcase'
        exact .inl ⟨_, _, _, hrun, rfl⟩
      | matched hbefore' hcase' hrun hafter =>
        obtain ⟨rfl, rfl, rfl, rfl⟩ := Case.first_unique hcases hbefore hcase hbefore' hcase'
        exact .inr ⟨_, _, _, _, hrun, hafter⟩
    · rintro (⟨p, fuel, r', hrun, rfl⟩ | ⟨next, fuel, r', u', hrun, hrest⟩)
      · exact .raised hbefore hcase hrun
      · exact .matched hbefore hcase hrun hrest
  | @later before earlier behind out v₁ w fuel next r' w₁ case rest v u hbefore hcase hrun h ih =>
    rw [← ih]
    constructor
    · intro hd
      generalize hcases : before ++ earlier :: behind = cases at hd
      cases hd with
      | left hnone =>
        rw [hnone earlier (hcases ▸ List.mem_append_right _ (List.mem_cons_self ..))] at hcase
        cases hcase
      | raised hbefore' hcase' hrun' =>
        obtain ⟨rfl, rfl, rfl, rfl⟩ := Case.first_unique hcases hbefore hcase hbefore' hcase'
        cases Runner.evaluate_unique hrun hrun'
      | matched hbefore' hcase' hrun' hafter =>
        obtain ⟨rfl, rfl, rfl, rfl⟩ := Case.first_unique hcases hbefore hcase hbefore' hcase'
        cases Runner.evaluate_unique hrun hrun'
        exact hafter
    · exact .matched hbefore hcase hrun

/-- If a case is run, so is any other one for its type in its place. -/
theorem replaced {second' : Case D K E B} (hsame : second.type = second'.type)
    (h : Enters callees r (ahead ++ second :: after) out w second after v u) :
    Enters callees r (ahead ++ second' :: after) out w second' after v u := by
  generalize hcases : ahead ++ second :: after = cases at h
  induction h generalizing ahead with
  | @first before case rest out v w hbefore hcase =>
    obtain rfl := List.append_cancel_right hcases
    exact .first hbefore ((Case.match?_congr hsame out).symm.trans hcase)
  | @later before earlier behind out v₁ w fuel next r' w₁ case rest v u hbefore hcase hrun h ih =>
    obtain ⟨ahead', rfl⟩ := h.exists_ahead
    rw [← List.cons_append, ← List.append_assoc] at hcases
    obtain rfl := List.append_cancel_right hcases
    rw [List.append_assoc, List.cons_append]
    exact .later hbefore hcase hrun (ih hsame rfl)

end Enters

/-- Cases that are not for the ending, with another one for the same type in the place of one. -/
theorem Case.unmatched_replaced {second' : Case D K E B} (hsame : second.type = second'.type)
    (hcases : ∀ case ∈ ahead ++ second :: after, case.match? out = none) :
    ∀ case ∈ ahead ++ second' :: after, case.match? out = none := by
  intro case hmem
  obtain hmem | hmem := List.mem_append.mp hmem
  · exact hcases case (List.mem_append_left _ hmem)
  · obtain rfl | hmem := List.mem_cons.mp hmem
    · rw [← Case.match?_congr hsame]
      exact hcases second (List.mem_append_right _ (List.mem_cons_self ..))
    · exact hcases case (List.mem_append_right _ (List.mem_cons_of_mem _ hmem))

/-- The case that is run first is so too if another one that is not run is replaced. -/
theorem Case.first_replaced {second' : Case D K E B} (hsame : second.type = second'.type)
    {before behind : List (Case D K E B)}
    (hcases : ahead ++ second :: after = before ++ case :: behind)
    (hbefore : ∀ case ∈ before, case.match? out = none)
    (hnot : ¬ ((∀ case ∈ ahead, case.match? out = none) ∧ second.match? out = case.match? out)) :
    ∃ before' behind', ahead ++ second' :: after = before' ++ case :: behind' ∧
      (∀ case ∈ before', case.match? out = none) ∧ before'.length = before.length ∧
      (behind' = behind ∨ ∃ between, behind = between ++ second :: after ∧
        behind' = between ++ second' :: after) := by
  obtain ⟨rfl, rfl, -⟩ | ⟨between, rfl, rfl⟩ | ⟨between, rfl, rfl⟩ :=
    append_cons_trichotomy hcases
  · exact absurd ⟨hbefore, rfl⟩ hnot
  · refine ⟨ahead ++ second' :: between, behind, ?_, unmatched_replaced hsame hbefore, ?_, .inl rfl⟩
    · rw [List.append_assoc, List.cons_append]
    · simp only [List.length_append, List.length_cons]
  · refine ⟨before, between ++ second' :: after, ?_, hbefore, rfl, .inr ⟨between, rfl, rfl⟩⟩
    rw [List.append_assoc, List.cons_append]

/-- What the handler is of a case that is not run makes no difference. -/
theorem Dispatched.replaced {second' : Case D K E B} (hsame : second.type = second'.type)
    {ending : Raised D K (Ending D K)} {w' : World σ}
    (h : Dispatched callees r (ahead ++ second :: after) out w ending w')
    (hnot : ∀ v u, ¬ Enters callees r (ahead ++ second :: after) out w second after v u) :
    Dispatched callees r (ahead ++ second' :: after) out w ending w' := by
  -- the second case is not the one that is run first
  have hfirst : ∀ {ahead : List (Case D K E B)} {case : Case D K E B} {out : Ending D K}
      {w : World σ} {v : Value D K},
      (∀ v u, ¬ Enters callees r (ahead ++ second :: after) out w second after v u) →
      case.match? out = some v →
      ¬ ((∀ case ∈ ahead, case.match? out = none) ∧ second.match? out = case.match? out) := by
    rintro ahead case out w v hnot hcase ⟨hahead, hsecond⟩
    exact hnot v _ (.first hahead (hsecond.trans hcase))
  generalize hcases : ahead ++ second :: after = cases at h
  induction h generalizing ahead with
  | @left cases out w hleft =>
    subst hcases
    have hlength : (ahead ++ second :: after).length = (ahead ++ second' :: after).length := by
      simp only [List.length_append, List.length_cons]
    rw [hlength]
    exact .left (Case.unmatched_replaced hsame hleft)
  | @raised before case behind out v w fuel p r' w' hbefore hcase hrun =>
    obtain ⟨before', behind', heq, hbefore', hlength, -⟩ :=
      Case.first_replaced hsame hcases hbefore (hfirst hnot hcase)
    rw [heq]
    rw [← hlength] at hrun
    exact .raised hbefore' hcase hrun
  | @matched before case behind out v w fuel next r' w₁ ending w' hbefore hcase hrun hafter ih =>
    obtain ⟨before', behind', heq, hbefore', hlength, hbehind⟩ :=
      Case.first_replaced hsame hcases hbefore (hfirst hnot hcase)
    have hrun' := hrun
    rw [← hlength] at hrun'
    rw [heq]
    refine .matched hbefore' hcase hrun' ?_
    obtain rfl | ⟨between, rfl, rfl⟩ := hbehind
    · exact hafter
    · rw [hcases] at hnot
      exact ih (fun v u h => hnot v u (.later hbefore hcase hrun h)) rfl

end Enters

/-! ## Runs of a whole list -/

/-- What type cases do behind an effect whose value is parked: they leave alone what it raises, and
    the rules say what they make of its ending. -/
theorem Effect.evaluate_matchTypes_iff [Language D K σ] {callees : Callees D K σ}
    (hc : Callees.Alike World.Agree callees callees) {e : Effect D K R E A} {r : Runner D K}
    (cases : List (Case D K E B)) {w v : World σ} {ending : Raised D K (Ending D K)} :
    (∃ fuel r' w', r.evaluate callees fuel (e.matchTypes.atTypes cases).node w =
        some (ending, r', w') ∧ w'.Agree v) ↔
      (∃ p fuel r₀ w₀, r.evaluate callees fuel e.node w = some (.error p, r₀, w₀) ∧
        ending = .error p ∧ w₀.Agree v) ∨
      ∃ out fuel r₀ w₀ v', r.evaluate callees fuel e.node w = some (.ok out, r₀, w₀) ∧
        Dispatched callees r cases (out.parked A) (w₀.parked A out) ending v' ∧ v'.Agree v := by
  cases hfit : r.settings.framesFit with
  | false =>
    have hopened : ((r.opened w).report .exit).Agree w := ⟨rfl, rfl, rfl⟩
    constructor
    · rintro ⟨fuel, r', w', heval, hv⟩
      obtain ⟨rfl, hw'⟩ := Runner.evaluate_without_room hfit heval
      exact .inl ⟨_, 0, _, _, Runner.evaluate_eq_overflow hfit, rfl,
        hopened.trans (hw'.symm.trans hv)⟩
    · rintro (⟨p, fuel, r₀, w₀, he, rfl, hv⟩ | ⟨out, fuel, r₀, w₀, v', he, -⟩)
      · obtain ⟨hp, hw₀⟩ := Runner.evaluate_without_room hfit he
        cases hp
        exact ⟨0, _, _, Runner.evaluate_eq_overflow hfit, hopened.trans (hw₀.symm.trans hv)⟩
      · obtain ⟨hout, -⟩ := Runner.evaluate_without_room hfit he
        cases hout
  | true =>
    constructor
    · rintro ⟨fuel, r', w', heval, hv⟩
      obtain ⟨result, u, hdenotes, hends⟩ := Runner.denotes_of_evaluate hc hfit heval
      obtain ⟨result₁, u₁, hparked⟩ := exists_of_atTypes cases hdenotes
      obtain ⟨first, u₀, hfirst⟩ := Node.Denotes.of_enter rfl hparked
      obtain ⟨fuel₀, r₀, w₀, he, hends₀⟩ := Runner.evaluate_of_denotes hc hfit hfirst
      rcases first with p | ⟨out, n⟩
      · have hraised : (e.matchTypes : Effect D K R E B).node.Denotes callees
            r.environments.back? w (.error p) u₀ := .enter_raised rfl hfirst
        obtain ⟨rfl, rfl⟩ := hdenotes.unique (atTypes_raised cases hraised)
        exact .inl ⟨p, fuel₀, r₀, w₀, he, hends.ending,
          hends₀.world.trans (hends.world.symm.trans hv)⟩
      · obtain ⟨n', hout⟩ := matchTypes_denotes (B := B) hfirst
        obtain ⟨v', hrules, hv'⟩ := (evaluate_atTypes_iff hc hfit cases hout
          (hends₀.world.parked A out)).mp ⟨fuel, r', w', heval, hv⟩
        exact .inr ⟨out, fuel₀, r₀, w₀, v', he, hrules, hv'⟩
    · rintro (⟨p, fuel, r₀, w₀, he, rfl, hv⟩ | ⟨out, fuel, r₀, w₀, v', he, hrules, hv⟩)
      · obtain ⟨result, u, hdenotes, hends⟩ := Runner.denotes_of_evaluate hc hfit he
        obtain rfl := hends.eq_error
        have hraised : (e.matchTypes : Effect D K R E B).node.Denotes callees
            r.environments.back? w (.error p) u := .enter_raised rfl hdenotes
        obtain ⟨fuel', r', w', heval, hends'⟩ :=
          Runner.evaluate_of_denotes hc hfit (atTypes_raised cases hraised)
        exact ⟨fuel', r', w', heval, hends'.world.trans (hends.world.symm.trans hv)⟩
      · obtain ⟨result, u, hdenotes, hends⟩ := Runner.denotes_of_evaluate hc hfit he
        obtain ⟨n, rfl⟩ := hends.exists_eq_ok
        obtain ⟨n', hout⟩ := matchTypes_denotes (B := B) hdenotes
        exact (evaluate_atTypes_iff hc hfit cases hout (hends.world.parked A out)).mpr
          ⟨v', hrules, hv⟩

namespace Runner

/-- A second case for a type is run only for what is parked anew by the first one or behind it.

    Put `matchTypes` and any list of cases behind an effect, and let some case of the list have an
    earlier one for the same type.  On every runner and in every world, that case is run just if
    some case from the earlier one on was run before it, and its handler ended with a value of the
    type parked, for which no case between the two is.  For the value of the effect itself, and for
    what a handler in front of the earlier case parks, it is never run.

    Where it is run, it counts: whichever handler stands there, the whole raises what that handler
    raises with the value bound, or does as the cases behind it do about what the handler ends in.

    As long as it is not run, any other handler may take the place of its own: the whole comes to
    the same ending in the same worlds, with the same calls made, or it raises the same, or it comes
    to no end in either case. -/
theorem repeated_case_run_iff (L : Language D K σ) (depth : Nat) (e : Effect D K R E A)
    (ahead after : List (Case D K E B)) (first second : Case D K E B) (hfirst : first ∈ ahead)
    (hsame : first.type = second.type) (r : Runner D K) (w : World (Noted D K σ)) :
    letI := L.noting
    let callees : Callees D K (Noted D K σ) := Callees.ofFuel depth
    let whole (handler : Effect D K second.type E B) : Effect D K R E B :=
      e.matchTypes.atTypes (ahead ++ ⟨second.type, handler⟩ :: after)
    let Run (case : Case D K E B) (rest : List (Case D K E B)) (v : Value D K)
        (u : World (Noted D K σ)) : Prop :=
      ∃ fuel out r₀ w₀, r.evaluate callees fuel e.node w = some (.ok out, r₀, w₀) ∧
        Enters callees r (ahead ++ second :: after) (out.parked A) (w₀.parked A out) case rest v u
    (∀ v u, Run second after v u ↔
      ∃ before case between v₁ u₁, ahead = before ++ case :: between ∧ first ∉ between ∧
        Run case (between ++ second :: after) v₁ u₁ ∧
        case.HandsOn callees r v₁ u₁ between second v u) ∧
    (∀ v u, Run second after v u → ∀ handler ending t,
      (∃ fuel r' w', r.evaluate callees fuel (whole handler).node w =
        some (ending, r', w') ∧ w'.Agree t) ↔
      (∃ p fuel r' u', (r.binding v).evaluate callees fuel handler.node u =
        some (.error p, r', u') ∧ ending = .error p ∧ u'.Agree t) ∨
      ∃ next fuel r' u' t', (r.binding v).evaluate callees fuel handler.node u =
        some (.ok next, r', u') ∧ Dispatched callees r after next u' ending t' ∧ t'.Agree t) ∧
    ((∀ v u, ¬ Run second after v u) → ∀ handler ending v,
      (∃ fuel r' w', r.evaluate callees fuel (whole second.handler).node w =
        some (ending, r', w') ∧ w'.Agree v) ↔
      ∃ fuel r' w', r.evaluate callees fuel (whole handler).node w =
        some (ending, r', w') ∧ w'.Agree v) := by
  let _ := L.noting
  intro callees whole Run
  have hc : Callees.Alike World.Agree callees callees := Callees.ofFuel_agree depth
  refine ⟨fun v u => ?_, fun v u hrun handler ending t => ?_, fun hnot handler ending v => ?_⟩
  · constructor
    · rintro ⟨fuel, out, r₀, w₀, he, h⟩
      obtain ⟨before, case, between, v₁, u₁, heq, hbetween, hcase, hhands⟩ :=
        (Enters.iff_of_repeated hfirst hsame).mp h
      exact ⟨before, case, between, v₁, u₁, heq, hbetween, ⟨fuel, out, r₀, w₀, he, hcase⟩, hhands⟩
    · rintro ⟨before, case, between, v₁, u₁, heq, hbetween, ⟨fuel, out, r₀, w₀, he, hcase⟩, hhands⟩
      exact ⟨fuel, out, r₀, w₀, he, (Enters.iff_of_repeated hfirst hsame).mpr
        ⟨before, case, between, v₁, u₁, heq, hbetween, hcase, hhands⟩⟩
  · let second' : Case D K E B := ⟨second.type, handler⟩
    obtain ⟨fuel, out, r₀, w₀, he, h⟩ := hrun
    have h' : Enters callees r (ahead ++ second' :: after) (out.parked A) (w₀.parked A out) second'
        after v u := h.replaced (rfl : second.type = second'.type)
    rw [Effect.evaluate_matchTypes_iff hc]
    constructor
    · rintro (⟨p, fuel', r', w', he', -, -⟩ | ⟨out', fuel', r', w', t', he', hrules, ht⟩)
      · cases evaluate_unique he he'
      · cases evaluate_unique he he'
        obtain ⟨p, fuel, r', hp, rfl⟩ | ⟨next, fuel, r', u', hnext, hbehind⟩ :=
          h'.dispatched_iff.mp hrules
        · exact .inl ⟨p, fuel, r', t', hp, rfl, ht⟩
        · exact .inr ⟨next, fuel, r', u', t', hnext, hbehind, ht⟩
    · rintro (⟨p, fuel', r', u', hp, rfl, ht⟩ | ⟨next, fuel', r', u', t', hnext, hbehind, ht⟩)
      · exact .inr ⟨out, fuel, r₀, w₀, u', he,
          h'.dispatched_iff.mpr (.inl ⟨p, fuel', r', hp, rfl⟩), ht⟩
      · exact .inr ⟨out, fuel, r₀, w₀, t', he,
          h'.dispatched_iff.mpr (.inr ⟨next, fuel', r', u', hnext, hbehind⟩), ht⟩
  · let second' : Case D K E B := ⟨second.type, handler⟩
    have hsame' : second.type = second'.type := rfl
    rw [Effect.evaluate_matchTypes_iff hc, Effect.evaluate_matchTypes_iff hc]
    refine or_congr_right ⟨?_, ?_⟩
    · rintro ⟨out, fuel, r₀, w₀, v', he, hrules, hv⟩
      have hnot' := fun v u h => hnot v u ⟨fuel, out, r₀, w₀, he, h⟩
      exact ⟨out, fuel, r₀, w₀, v', he, hrules.replaced hsame' hnot', hv⟩
    · rintro ⟨out, fuel, r₀, w₀, v', he, hrules, hv⟩
      have hnot' : ∀ v u, ¬ Enters callees r (ahead ++ second' :: after) (out.parked A)
          (w₀.parked A out) second' after v u :=
        fun v u h => hnot v u ⟨fuel, out, r₀, w₀, he, h.replaced hsame'.symm⟩
      exact ⟨out, fuel, r₀, w₀, v', he, hrules.replaced hsame'.symm hnot', hv⟩

/-- Behind a case that succeeds, a second one for its type may be replaced by any other. -/
theorem repeated_case_replaced_greeting :
    letI := Language.greeting.noting
    let e : Effect Unit Unit .unit .unit .text := Effect.succeed (.text "you")
    let whole (handler : Effect Unit Unit .text .unit .text) :
        Effect Unit Unit .unit .unit .text :=
      e.matchTypes.atTypes [⟨.text, .succeed (.text "me")⟩, ⟨.text, handler⟩]
    let w : World (Noted Unit Unit Unit) := .start ⟨(), []⟩
    ∀ handler ending v,
      (∃ fuel r' w', fresh.evaluate (Callees.ofFuel 9) fuel (whole (.access ())).node w =
        some (ending, r', w') ∧ w'.Agree v) ↔
      ∃ fuel r' w', fresh.evaluate (Callees.ofFuel 9) fuel (whole handler).node w =
        some (ending, r', w') ∧ w'.Agree v := by
  let _ := Language.greeting.noting
  intro e whole w
  let first : Case Unit Unit .unit .text := ⟨.text, .succeed (.text "me")⟩
  let second : Case Unit Unit .unit .text := ⟨.text, .access ()⟩
  obtain ⟨hrun, -, hreplaced⟩ := repeated_case_run_iff Language.greeting 9 e [first] [] first second
    (List.mem_singleton.mpr rfl) rfl fresh w
  refine hreplaced fun v u h => ?_
  obtain ⟨before, case, between, v₁, u₁, hahead, -, -, fuel, next, r', w', hcase, -, hmatch, -⟩ :=
    (hrun v u).mp h
  -- the first case is the only one that could hand on a value, and it succeeds
  obtain rfl : case = first := by
    have hmem : case ∈ [first] := hahead ▸ List.mem_append_right _ (List.mem_cons_self ..)
    exact List.mem_singleton.mp hmem
  have hfirst : first.handler.node.Denotes (Callees.ofFuel 9)
      (fresh.binding v₁).environments.back? u₁ (.ok (.success (.text "me"), 1)) u₁ := .leaf rfl rfl
  obtain ⟨result, u₂, hdenotes, hends⟩ := denotes_of_evaluate (Callees.ofFuel_agree 9)
    (framesFit_of_evaluate_ok hcase) hcase
  obtain ⟨n, rfl⟩ := hends.exists_eq_ok
  cases (hdenotes.unique hfirst).1
  cases hmatch

/-- A case that parks the value anew hands it on to the second one, which says what comes out and
    which calls are made. -/
theorem repeated_case_run_greeting :
    letI := Language.greeting.noting
    let e : Effect Unit Unit .unit .unit .text := Effect.succeed (.text "you")
    let whole (handler : Effect Unit Unit .text .unit .text) :
        Effect Unit Unit .unit .unit .text :=
      e.matchTypes.atTypes [⟨.text, Effect.environment.matchTypes⟩, ⟨.text, handler⟩]
    let w : World (Noted Unit Unit Unit) := .start ⟨(), []⟩
    (∃ r' w', fresh.evaluate (Callees.ofFuel 9) 20 (whole .environment).node w =
      some (.ok (.success (.text "you")), r', w') ∧ w'.calls = []) ∧
    (∃ r' w', fresh.evaluate (Callees.ofFuel 9) 20 (whole (.access ())).node w =
      some (.ok (.success (.text "hello")), r', w') ∧ w'.calls = [.value () [.text "you"]]) := by
  let _ := Language.greeting.noting
  exact ⟨⟨_, _, rfl, rfl⟩, ⟨_, _, rfl, rfl⟩⟩

end Runner

end EffectMachine
