/-
  Dispatch by the type of a value.

  `matchTypes` parks a value, and each of the cases behind it looks at what is parked.  Taken
  together they work like the branches of a match: the first case for the type of the value runs,
  with the value as its environment, and those before it do nothing.  What the case ends in meets
  the cases behind it in turn; most endings pass them untouched, but a case may end with a value
  parked itself, which is then dispatched among them.

  `Dispatched` says this as rules over whole lists of cases, from one first match to the next.  That
  the combinators do just that is shown by induction on the list, for any effect in front of it that
  comes to the ending in question (`Dispatched.denotes`, `Dispatched.of_denotes`).

  A case that hands an ending on makes a node for one evaluation, and so leaves behind a cell of the
  library that has been taken.  The rules count these cells, so that they can say in what world the
  next case is run.  The one ending that is handed on without a cell is a value of another type than
  declared, which turns into a fault.
-/
import EffectMachine.Effect.Run
import EffectMachine.Effect.TypeCases
import EffectMachine.Proofs.Propagation

namespace EffectMachine

variable {D K σ : Type} {R E A B : Ty}

/-! ## Cases -/

/-- A case: the type it is for, and the effect that it runs. -/
structure Case (D K : Type) (E B : Ty) where
  type : Ty
  handler : Effect D K type E B

/-- The value parked in the ending, if it is of the type that the case is for. -/
def Case.match? (case : Case D K E B) : Ending D K → Option (Value D K)
  | .failure (.die ⟨.unmatched u, _⟩) => u.take? case.type
  | _ => none

/-- The effect with the cases behind it, in their order. -/
def Effect.atTypes (e : Effect D K R E B) (cases : List (Case D K E B)) : Effect D K R E B :=
  cases.foldl (fun e case => e.atType case.handler) e

theorem Effect.atTypes_append (e : Effect D K R E B) (before after : List (Case D K E B)) :
    e.atTypes (before ++ after) = (e.atTypes before).atTypes after := List.foldl_append

/-! ## Endings handed on -/

/-- What a case makes of a cause that it is not for.  A parked value is parked anew. -/
def Cause.passed (E : Ty) : Cause (Value D K) → Cause (Value D K)
  | .die ⟨.unmatched u, _⟩ => .dieWith (.unmatched u)
  | c => c.typed E

namespace Ending

/-- What a case makes of an ending that it is not for. -/
def passed (E B : Ty) : Ending D K → Ending D K
  | .success v => Ending.checked E B (.success v)
  | .failure c => .failure (c.passed E)

/-- How many cells that takes. -/
def cells (B : Ty) : Ending D K → Nat
  | .success v => if v.type = B then 1 else 0
  | .failure _ => 1

/-- The ending behind so many cases that it is not for. -/
def behind (E B : Ty) : Nat → Ending D K → Ending D K
  | 0, out => out
  | _ + 1, out => out.passed E B

/-- What an effect with its value parked ends in. -/
def parked (A : Ty) : Ending D K → Ending D K
  | .success v =>
    if v.type = A then .failure (.dieWith (.unmatched (.ofValue v)))
    else .failure (.ofFault (.valueMismatch A.name))
  | .failure c => .failure c

end Ending

/-- The world after an ending has been handed on by so many cases that it is not for. -/
def World.behind (w : World σ) (B : Ty) : Nat → Ending D K → World σ
  | 0, _ => w
  | n + 1, out => w.spent (out.cells B + n)

/-- The world after the value of an effect has been parked. -/
def World.parked (w : World σ) (A : Ty) : Ending D K → World σ
  | .success v => w.spent (if v.type = A then 1 else 0)
  | .failure _ => w

/-! ## The rules -/

/-- The runner with one more environment bound. -/
def Runner.binding (r : Runner D K) (env : Value D K) : Runner D K :=
  { r with environments := r.environments.push env }

/-- What the cases make of an ending, in what world, when evaluations are made on this runner. -/
inductive Dispatched [Language D K σ] (callees : Callees D K σ) (r : Runner D K) :
    List (Case D K E B) → Ending D K → World σ → Raised D K (Ending D K) → World σ → Prop where
  /-- No case is for the ending. -/
  | left {cases out w} (hcases : ∀ case ∈ cases, case.match? out = none) :
      Dispatched callees r cases out w (.ok (out.behind E B cases.length))
        (w.behind B cases.length out)
  /-- The first case that is for the ending raises. -/
  | raised {before case after out v w fuel p r' w'}
      (hbefore : ∀ case ∈ before, case.match? out = none) (hcase : case.match? out = some v)
      (hrun : (r.binding v).evaluate callees fuel case.handler.node (w.spent (before.length + 1)) =
        some (.error p, r', w')) :
      Dispatched callees r (before ++ case :: after) out w (.error p) w'
  /-- The first case that is for the ending comes to an ending of its own, which those behind it
      are asked about. -/
  | matched {before case after out v w fuel next r' w₁ result w'}
      (hbefore : ∀ case ∈ before, case.match? out = none) (hcase : case.match? out = some v)
      (hrun : (r.binding v).evaluate callees fuel case.handler.node (w.spent (before.length + 1)) =
        some (.ok next, r', w₁))
      (hafter : Dispatched callees r after next w₁ result w') :
      Dispatched callees r (before ++ case :: after) out w result w'

/-! ## One case -/

/-- No case is for the ending, or there is a first one. -/
theorem Case.first_match (cases : List (Case D K E B)) (out : Ending D K) :
    (∀ case ∈ cases, case.match? out = none) ∨
      ∃ before case after v, cases = before ++ case :: after ∧
        (∀ case ∈ before, case.match? out = none) ∧ case.match? out = some v := by
  cases hfind : cases.find? fun case => (case.match? out).isSome with
  | none =>
    refine .inl fun case hmem => ?_
    exact Option.not_isSome_iff_eq_none.mp (List.find?_eq_none.mp hfind case hmem)
  | some case =>
    obtain ⟨hcase, before, after, hcases, hbefore⟩ := List.find?_eq_some_iff_append.mp hfind
    obtain ⟨v, hv⟩ := Option.isSome_iff_exists.mp hcase
    refine .inr ⟨before, case, after, v, hcases, fun case hmem => ?_, hv⟩
    have hno := hbefore case hmem
    rw [Bool.not_eq_true', Option.isSome_eq_false_iff, Option.isNone_iff_eq_none] at hno
    exact hno

/-- Handed on, an ending is for the same cases as before. -/
theorem Case.match?_passed (case : Case D K E B) (out : Ending D K) :
    case.match? (out.passed E B) = case.match? out := by
  cases out with
  | success v =>
    simp only [Ending.passed, Ending.checked]
    cases v.cast? B <;> rfl
  | failure c =>
    cases c with
    | fail e =>
      simp only [Ending.passed, Cause.passed, Cause.typed]
      cases e.cast? E <;> rfl
    | die d =>
      obtain ⟨payload, name⟩ := d
      cases payload <;> rfl

/-- To hand an ending on once more changes it no further. -/
theorem Ending.passed_passed (out : Ending D K) :
    (out.passed E B).passed E B = out.passed E B := by
  cases out with
  | success v =>
    simp only [passed, checked]
    cases hcast : v.cast? B with
    | none => rfl
    | some v' =>
      obtain ⟨htype, rfl⟩ := Value.cast?_eq_some_iff.mp hcast
      simp only [hcast]
  | failure c =>
    cases c with
    | fail e =>
      simp only [passed, Cause.passed, Cause.typed]
      cases hcast : e.cast? E with
      | none => rfl
      | some e' =>
        obtain ⟨htype, rfl⟩ := Value.cast?_eq_some_iff.mp hcast
        simp only [hcast]
    | die d =>
      obtain ⟨payload, name⟩ := d
      cases payload <;> rfl

/-- From the second time on it takes one cell to hand an ending on. -/
theorem Ending.cells_passed (out : Ending D K) : (out.passed E B).cells B = 1 := by
  cases out with
  | success v =>
    simp only [passed, checked]
    cases hcast : v.cast? B with
    | none => rfl
    | some v' =>
      obtain ⟨htype, rfl⟩ := Value.cast?_eq_some_iff.mp hcast
      exact if_pos htype
  | failure c => rfl

/-- A type case that is not for a cause raises it again. -/
theorem Handler.resume_typeCase [Language D K σ] {case : Case D K E B} {c : Cause (Value D K)}
    (h : case.match? (.failure c) = none) :
    ((Handler.typeCase E case.type case.handler.node).resume c : Play D K σ _) =
      Node.haltOnce (c.passed E) := by
  cases c with
  | fail e =>
    simp only [resume, Cause.passed, Cause.typed]
    cases e.cast? E <;> rfl
  | die d =>
    obtain ⟨payload, name⟩ := d
    cases payload with
    | unmatched u =>
      have htake : u.take? case.type = none := h
      simp only [resume, Cause.typed, htake]
      rfl
    | _ => rfl

/-- An ending of the declared types in which no value is parked comes out as it went in. -/
theorem Ending.behind_eq_self {out : Ending D K} (hchecked : out.checked E B = out)
    (hplain : ∀ u name, out ≠ .failure (.die ⟨.unmatched u, name⟩)) (n : Nat) :
    out.behind E B n = out := by
  cases n with
  | zero => rfl
  | succ n =>
    cases out with
    | success v => exact hchecked
    | failure c =>
      cases c with
      | fail e => exact hchecked
      | die d =>
        obtain ⟨payload, name⟩ := d
        cases payload with
        | unmatched u => exact absurd rfl (hplain u name)
        | _ => rfl

/-- So does a value that has been parked. -/
theorem Ending.behind_parked (u : Unmatched (Value D K)) (n : Nat) :
    (Ending.behind E B n (.failure (.dieWith (.unmatched u))) : Ending D K) =
      .failure (.dieWith (.unmatched u)) := by
  cases n <;> rfl

section Denotes

variable [Language D K σ] {callees : Callees D K σ} {env : Option (Value D K)}
  {e : Effect D K R E B} {case : Case D K E B} {out : Ending D K} {n : Nat} {w w₁ w' : World σ}

/-- A case hands on an ending that it is not for. -/
theorem Effect.atType_passed (he : e.node.Denotes callees env w (.ok (out, n)) w₁)
    (hcase : case.match? out = none) :
    ∃ n', (e.atType case.handler).node.Denotes callees env w (.ok (out.passed E B, n'))
      (w₁.spent (out.cells B)) := by
  cases out with
  | success v =>
    cases hcast : v.cast? B with
    | some v' =>
      obtain ⟨htype, rfl⟩ := Value.cast?_eq_some_iff.mp hcast
      obtain ⟨node, w₂, hnow, hnode⟩ := Node.succeedOnce_denotes callees env w₁ v
      have hresume : ((Continuation.typed B .now).resume v : Play D K σ _) =
          Node.succeedOnce v := by
        simp only [Continuation.resume, Link.followTyped, hcast]
        rfl
      rw [← hresume] at hnow
      simp only [Ending.passed, Ending.checked, Ending.cells, hcast, htype, if_true]
      exact ⟨_, .answer rfl he rfl hnow hnode⟩
    | none =>
      have htype := Value.cast?_eq_none_iff.mp hcast
      have hresume : ((Continuation.typed B .now).resume v : Play D K σ _) =
          pure (.ofFault (.valueMismatch B.name)) := by
        simp only [Continuation.resume, Link.followTyped, hcast]
      have hreply : ((Continuation.typed B .now).resume v : Play D K σ _) callees w₁ =
          some (.ok (.ofFault (.valueMismatch B.name)), w₁) := by
        rw [hresume]
        rfl
      simp only [Ending.passed, Ending.checked, Ending.cells, hcast, htype, if_false,
        World.spent_zero]
      exact ⟨_, .answer rfl he rfl hreply (.leaf rfl rfl)⟩
  | failure c =>
    obtain ⟨node, w₂, hhalt, hnode⟩ := Node.haltOnce_denotes callees env w₁ (c.passed E)
    rw [← Handler.resume_typeCase hcase] at hhalt
    exact ⟨_, .answer rfl he rfl hhalt hnode⟩

/-- A case that is for a parked value ends as its handler does with the value bound. -/
theorem Effect.atType_matched_iff {v : Value D K}
    (he : e.node.Denotes callees env w (.ok (out, n)) w₁) (hcase : case.match? out = some v)
    {result : Raised D K (Ending D K × Nat)} :
    (e.atType case.handler).node.Denotes callees env w result w' ↔
      ∃ result', case.handler.node.Denotes callees (some v) (w₁.spent 1) result' w' ∧
        result = Node.later (n + 1) (Node.later 1 result') := by
  obtain ⟨u, name, rfl, htake⟩ : ∃ u name, out = .failure (.die ⟨.unmatched u, name⟩) ∧
      u.take? case.type = some v := by
    cases out with
    | success v' => cases hcase
    | failure c =>
      cases c with
      | fail e' => cases hcase
      | die d =>
        obtain ⟨payload, name⟩ := d
        cases payload with
        | unmatched u => exact ⟨u, name, rfl, hcase⟩
        | _ => cases hcase
  -- the handler makes a cell for the value, and the node it returns takes it at once
  obtain ⟨s, halts, cells, trace⟩ := w₁
  have hresume : (Handler.typeCase E case.type case.handler.node).resume
      (.die ⟨.unmatched u, name⟩) callees ⟨s, halts, cells, trace⟩ =
        some (.ok (.provide (.once cells.size v) case.handler.node),
          ⟨s, halts, cells.push false, trace⟩) := by
    simp only [Handler.resume, Cause.typed, htake]
    rfl
  have hslot : (Slot.once cells.size v).take callees ⟨s, halts, cells.push false, trace⟩ =
      some (.ok (some v), World.spent ⟨s, halts, cells, trace⟩ 1) := by
    simp only [Slot.take, Play.bind_apply, Play.take, takeCell_push, if_true]
    rfl
  rw [Node.Denotes.answer_iff rfl he rfl hresume]
  constructor
  · rintro ⟨result', hprovide, rfl⟩
    obtain ⟨result'', hhandler, rfl⟩ := (Node.Denotes.provide_iff hslot).mp hprovide
    exact ⟨result'', hhandler, rfl⟩
  · rintro ⟨result', hhandler, rfl⟩
    exact ⟨_, (Node.Denotes.provide_iff hslot).mpr ⟨result', hhandler, rfl⟩, rfl⟩

/-- A case adds nothing to what the effect in front of it raises. -/
theorem Effect.atType_raised {p : Value D K} (he : e.node.Denotes callees env w (.error p) w₁) :
    (e.atType case.handler).node.Denotes callees env w (.error p) w₁ := .enter_raised rfl he

/-! ## Any number of cases -/

/-- Cases are for endings; what is raised goes past all of them. -/
theorem Effect.atTypes_raised {p : Value D K} (cases : List (Case D K E B))
    (he : e.node.Denotes callees env w (.error p) w₁) :
    (e.atTypes cases).node.Denotes callees env w (.error p) w₁ := by
  induction cases generalizing e with
  | nil => exact he
  | cons case cases ih => exact ih (atType_raised he)

/-- Where the whole comes to an end, so does the effect in front of the cases. -/
theorem Effect.exists_of_atTypes (cases : List (Case D K E B))
    {result : Raised D K (Ending D K × Nat)}
    (h : (e.atTypes cases).node.Denotes callees env w result w') :
    ∃ result₁ w₁, e.node.Denotes callees env w result₁ w₁ := by
  induction cases generalizing e with
  | nil => exact ⟨result, w', h⟩
  | cons case cases ih =>
    obtain ⟨result₁, w₁, hcase⟩ := ih h
    exact Node.Denotes.of_enter rfl hcase

/-- Cases that are not for the ending hand it on. -/
theorem Effect.atTypes_left (cases : List (Case D K E B))
    (hcases : ∀ case ∈ cases, case.match? out = none)
    (he : e.node.Denotes callees env w (.ok (out, n)) w₁) :
    ∃ n', (e.atTypes cases).node.Denotes callees env w
      (.ok (out.behind E B cases.length, n')) (w₁.behind B cases.length out) := by
  induction cases generalizing e out n w₁ with
  | nil => exact ⟨n, he⟩
  | cons case cases ih =>
    obtain ⟨n', hpassed⟩ := atType_passed he (hcases case (List.mem_cons_self ..))
    have hrest : ∀ case ∈ cases, case.match? (out.passed E B) = none := by
      intro case hmem
      rw [Case.match?_passed]
      exact hcases case (List.mem_cons_of_mem _ hmem)
    have hbehind : (out.passed E B).behind E B cases.length = out.passed E B := by
      cases cases with
      | nil => rfl
      | cons _ _ => exact out.passed_passed
    have hworld : (w₁.spent (out.cells B)).behind B cases.length (out.passed E B) =
        w₁.spent (out.cells B + cases.length) := by
      cases cases with
      | nil => rfl
      | cons _ rest =>
        rw [List.length_cons, World.behind, Ending.cells_passed, World.spent_spent,
          Nat.add_comm 1]
    have hcases' := ih hrest hpassed
    rw [hbehind, hworld] at hcases'
    exact hcases'

/-- Only a parked value matches, and to hand it on takes one cell. -/
theorem Case.cells_of_match {v : Value D K} (hcase : case.match? out = some v) :
    out.cells B = 1 := by
  cases out with
  | success v' => cases hcase
  | failure c => rfl

/-- The first case that is for the ending does as its handler does with the value bound. -/
theorem Effect.atTypes_first {v : Value D K} (before : List (Case D K E B))
    (hbefore : ∀ case ∈ before, case.match? out = none) (hcase : case.match? out = some v)
    (he : e.node.Denotes callees env w (.ok (out, n)) w₁) :
    ∃ n', ∀ result w', (e.atTypes (before ++ [case])).node.Denotes callees env w result w' ↔
      ∃ result', case.handler.node.Denotes callees (some v) (w₁.spent (before.length + 1))
          result' w' ∧
        result = Node.later (n' + 1) (Node.later 1 result') := by
  obtain ⟨n', hleft⟩ := atTypes_left before hbefore he
  have hmatch : case.match? (out.behind E B before.length) = some v := by
    cases before with
    | nil => exact hcase
    | cons _ _ => exact (case.match?_passed out).trans hcase
  have hworld : (w₁.behind B before.length out).spent 1 = w₁.spent (before.length + 1) := by
    cases before with
    | nil => rfl
    | cons _ rest =>
      rw [List.length_cons, World.behind, World.spent_spent, Case.cells_of_match hcase,
        Nat.add_comm 1]
  refine ⟨n', fun result w' => ?_⟩
  rw [atTypes_append, ← hworld]
  exact atType_matched_iff hleft hmatch

end Denotes

/-! ## The rules and the combinators -/

theorem World.Agree.behind {w v : World σ} (h : w.Agree v) (B : Ty) (n : Nat) (out : Ending D K) :
    (w.behind B n out).Agree (v.behind B n out) := by
  cases n with
  | zero => exact h
  | succ n => exact h.spent _

/-- The cells that are spent in parking depend on the ending alone. -/
theorem World.Agree.parked {w v : World σ} (h : w.Agree v) (A : Ty) (out : Ending D K) :
    (w.parked A out).Agree (v.parked A out) := by
  cases out with
  | success a => exact h.spent _
  | failure c => exact h

section Rules

variable [Language D K σ] {callees : Callees D K σ} {r : Runner D K} {env : Option (Value D K)}
  {case : Case D K E B} {v : Value D K} {fuel : Nat} {w w' u : World σ}

/-- What a handler comes to on a runner with the value bound, it does by the reading, and in any
    world that differs in what was reported at most. -/
theorem Case.denotes_of_evaluate (hc : Callees.Alike World.Agree callees callees)
    (hfit : r.settings.framesFit = true) {ending : Raised D K (Ending D K)} {r' : Runner D K}
    (hrun : (r.binding v).evaluate callees fuel case.handler.node w = some (ending, r', w'))
    (hw : w.Agree u) :
    ∃ result u', case.handler.node.Denotes callees (some v) u result u' ∧
      result.map Prod.fst = ending ∧ w'.Agree u' := by
  have hfit' : (r.binding v).settings.framesFit = true := hfit
  have hback : (r.binding v).environments.back? = some v := Array.back?_push
  obtain ⟨result, v', hdenotes, hends⟩ := Runner.denotes_of_evaluate hc hfit' hrun
  rw [hback] at hdenotes
  obtain ⟨u', hdenotes', hagree⟩ := hdenotes.agree hc hw
  exact ⟨result, u', hdenotes', hends.ending.symm, hends.world.trans hagree⟩

/-- What a handler comes to by the reading, it does on a runner with the value bound. -/
theorem Case.evaluate_of_denotes (hc : Callees.Alike World.Agree callees callees)
    (hfit : r.settings.framesFit = true) {result : Raised D K (Ending D K × Nat)}
    (h : case.handler.node.Denotes callees (some v) u result w') (hw : w.Agree u) :
    ∃ fuel r' w₁, (r.binding v).evaluate callees fuel case.handler.node w =
        some (result.map Prod.fst, r', w₁) ∧ w₁.Agree w' := by
  have hfit' : (r.binding v).settings.framesFit = true := hfit
  have hback : (r.binding v).environments.back? = some v := Array.back?_push
  obtain ⟨w₂, hdenotes, hagree⟩ := h.agree hc hw.symm
  rw [← hback] at hdenotes
  obtain ⟨fuel, r', w₁, hrun, hends⟩ := Runner.evaluate_of_denotes hc hfit' hdenotes
  exact ⟨fuel, r', w₁, hrun, hends.world.trans hagree.symm⟩

/-- What the rules say of an ending, the cases do behind any effect that comes to it. -/
theorem Dispatched.denotes (hc : Callees.Alike World.Agree callees callees)
    (hfit : r.settings.framesFit = true) {cases : List (Case D K E B)} {out : Ending D K}
    {ending : Raised D K (Ending D K)} (h : Dispatched callees r cases out w ending w')
    {e : Effect D K R E B} {n : Nat} {w₀ : World σ}
    (he : e.node.Denotes callees env w₀ (.ok (out, n)) u) (hu : w.Agree u) :
    ∃ result u', (e.atTypes cases).node.Denotes callees env w₀ result u' ∧
      result.map Prod.fst = ending ∧ w'.Agree u' := by
  -- a rule leaps to the first match, and what its handler ends in is the ending of a new effect
  induction h generalizing e n u with
  | @left cases out w hcases =>
    obtain ⟨n', hleft⟩ := Effect.atTypes_left cases hcases he
    exact ⟨_, _, hleft, rfl, hu.behind B _ out⟩
  | @raised before case after out v w fuel p r' w' hbefore hcase hrun =>
    obtain ⟨n', hfirst⟩ := Effect.atTypes_first before hbefore hcase he
    obtain ⟨result, u', hhandler, hresult, hu'⟩ :=
      Case.denotes_of_evaluate hc hfit hrun (hu.spent (before.length + 1))
    obtain rfl : result = .error p := by
      cases result with
      | error q => cases hresult; rfl
      | ok _ => cases hresult
    have hwhole := Effect.atTypes_raised after ((hfirst _ _).mpr ⟨_, hhandler, rfl⟩)
    rw [← Effect.atTypes_append, List.append_assoc] at hwhole
    exact ⟨_, u', hwhole, rfl, hu'⟩
  | @matched before case after out v w fuel next r' w₁ ending w' hbefore hcase hrun _ ih =>
    obtain ⟨n', hfirst⟩ := Effect.atTypes_first before hbefore hcase he
    obtain ⟨result, u', hhandler, hresult, hu'⟩ :=
      Case.denotes_of_evaluate hc hfit hrun (hu.spent (before.length + 1))
    obtain ⟨m, rfl⟩ : ∃ m, result = .ok (next, m) := by
      rcases result with q | ⟨next', m⟩
      · cases hresult
      · cases hresult
        exact ⟨m, rfl⟩
    obtain ⟨result, u'', hwhole, hresult', hu''⟩ := ih ((hfirst _ _).mpr ⟨_, hhandler, rfl⟩) hu'
    rw [← Effect.atTypes_append, List.append_assoc] at hwhole
    exact ⟨result, u'', hwhole, hresult', hu''⟩

/-- What the cases do behind an effect, the rules say of its ending. -/
theorem Dispatched.of_denotes (hc : Callees.Alike World.Agree callees callees)
    (hfit : r.settings.framesFit = true) (cases : List (Case D K E B)) {out : Ending D K}
    {e : Effect D K R E B} {n : Nat} {w₀ u' : World σ} {result : Raised D K (Ending D K × Nat)}
    (he : e.node.Denotes callees env w₀ (.ok (out, n)) u) (hu : w.Agree u)
    (h : (e.atTypes cases).node.Denotes callees env w₀ result u') :
    ∃ w', Dispatched callees r cases out w (result.map Prod.fst) w' ∧ w'.Agree u' := by
  -- on the length of the list: behind the first match there are fewer cases left
  induction hlength : cases.length using Nat.strongRecOn generalizing cases out e n w u with
  | _ length ih =>
    obtain hcases | ⟨before, case, after, v, rfl, hbefore, hcase⟩ := Case.first_match cases out
    · obtain ⟨n', hleft⟩ := Effect.atTypes_left cases hcases he
      obtain ⟨rfl, rfl⟩ := h.unique hleft
      exact ⟨_, .left hcases, hu.behind B _ out⟩
    · rw [List.append_cons, Effect.atTypes_append] at h
      obtain ⟨n', hfirst⟩ := Effect.atTypes_first before hbefore hcase he
      obtain ⟨result₁, u₁, hcases⟩ := Effect.exists_of_atTypes after h
      obtain ⟨result₂, hhandler, rfl⟩ := (hfirst _ _).mp hcases
      obtain ⟨fuel, r', w₁, hrun, hw₁⟩ :=
        Case.evaluate_of_denotes hc hfit hhandler (hu.spent (before.length + 1))
      rcases result₂ with p | ⟨next, m⟩
      · obtain ⟨rfl, rfl⟩ := h.unique (Effect.atTypes_raised after hcases)
        exact ⟨w₁, .raised hbefore hcase hrun, hw₁⟩
      · have hfewer : after.length < length := by
          rw [← hlength, List.length_append, List.length_cons]
          omega
        obtain ⟨w', hafter, hw'⟩ := ih after.length hfewer after hcases hw₁ h rfl
        exact ⟨w', .matched hbefore hcase hrun hafter, hw'⟩

section Behind

variable {x : Effect D K R E B} {out : Ending D K} {n : Nat} {w v u : World σ}

/-- What type cases do depends on what the effect in front of them ends in, and in what world. -/
theorem Effect.evaluate_atTypes_iff (hc : Callees.Alike World.Agree callees callees)
    (hfit : r.settings.framesFit = true) (cases : List (Case D K E B))
    (hx : x.node.Denotes callees r.environments.back? w (.ok (out, n)) u) (hv : v.Agree u)
    {ending : Raised D K (Ending D K)} {t : World σ} :
    (∃ fuel r' w', r.evaluate callees fuel (x.atTypes cases).node w = some (ending, r', w') ∧
      w'.Agree t) ↔ ∃ v', Dispatched callees r cases out v ending v' ∧ v'.Agree t := by
  constructor
  · rintro ⟨fuel, r', w', heval, hw'⟩
    obtain ⟨result, u', hdenotes, hends⟩ := Runner.denotes_of_evaluate hc hfit heval
    obtain ⟨v', hrules, hv'⟩ := Dispatched.of_denotes (r := r) hc hfit cases hx hv hdenotes
    rw [← hends.ending] at hrules
    exact ⟨v', hrules, hv'.trans (hends.world.symm.trans hw')⟩
  · rintro ⟨v', hrules, hv'⟩
    obtain ⟨result, u', hdenotes, rfl, hu'⟩ := hrules.denotes hc hfit hx hv
    obtain ⟨fuel, r', w', heval, hends⟩ := Runner.evaluate_of_denotes hc hfit hdenotes
    exact ⟨fuel, r', w', heval, hends.world.trans (hu'.symm.trans hv')⟩

/-- The first of any cases does not look at the name that is kept with a parked value. -/
theorem Dispatched.renamed {cases : List (Case D K E B)} (hcases : cases ≠ [])
    {parked : Unmatched (Value D K)} {name : Option String} (name' : Option String)
    {ending : Raised D K (Ending D K)}
    (h : Dispatched callees r cases (.failure (.die ⟨.unmatched parked, name⟩)) w ending v) :
    Dispatched callees r cases (.failure (.die ⟨.unmatched parked, name'⟩)) w ending v := by
  generalize hout : (.failure (.die ⟨.unmatched parked, name⟩) : Ending D K) = out at h
  have hmatch : ∀ case : Case D K E B,
      case.match? (.failure (.die ⟨.unmatched parked, name'⟩)) = case.match? out := by
    rintro case
    rw [← hout]
    rfl
  cases h with
  | left hnone =>
    cases cases with
    | nil => exact absurd rfl hcases
    | cons case cases =>
      have hleft : ∀ case' ∈ case :: cases,
          case'.match? (.failure (.die ⟨.unmatched parked, name'⟩)) = none :=
        fun case' hmem => (hmatch case').trans (hnone case' hmem)
      rw [← hout]
      exact .left hleft
  | raised hbefore hcase hrun =>
    exact .raised (fun case' hmem => (hmatch case').trans (hbefore case' hmem))
      ((hmatch _).trans hcase) hrun
  | matched hbefore hcase hrun hafter =>
    exact .matched (fun case' hmem => (hmatch case').trans (hbefore case' hmem))
      ((hmatch _).trans hcase) hrun hafter

end Behind

/-- To park the value of an effect is to end in it parked. -/
theorem Effect.matchTypes_denotes {e : Effect D K R E A} {out : Ending D K} {n : Nat}
    (he : e.node.Denotes callees env w (.ok (out, n)) u) :
    ∃ n', (e.matchTypes : Effect D K R E B).node.Denotes callees env w
      (.ok (out.parked A, n')) (u.parked A out) := by
  cases out with
  | success v =>
    simp only [Ending.parked, World.parked]
    split
    · rename_i htype
      obtain ⟨node, w₂, hhalt, hnode⟩ :=
        Node.haltOnce_denotes callees env u (.dieWith (.unmatched (.ofValue v)))
      have hresume : ((Continuation.typed A .park).resume v : Play D K σ _) =
          Node.haltOnce (.dieWith (.unmatched (.ofValue v))) := by
        simp only [Continuation.resume, Link.followTyped, Value.cast?, htype, if_true]
        rfl
      rw [← hresume] at hhalt
      exact ⟨_, .answer rfl he rfl hhalt hnode⟩
    · rename_i htype
      have hresume : ((Continuation.typed A .park).resume v : Play D K σ _) callees u =
          some (.ok (.ofFault (.valueMismatch A.name)), u) := by
        simp only [Continuation.resume, Link.followTyped, Value.cast?, htype, if_false]
        rfl
      rw [World.spent_zero]
      exact ⟨_, .answer rfl he rfl hresume (.leaf rfl rfl)⟩
  | failure c => exact ⟨_, .enter_skipped rfl he rfl⟩

end Rules

namespace Runner

/-- The first case for the type of a value runs, and no other.

    Put `matchTypes` and any list of cases, in which types may be repeated, behind an effect.  On
    every runner the whole comes to an end only if the effect alone does, and it raises what the
    effect raises.  If the effect ends, its value parked, as `out`, then the whole ends just as the
    rules say that the cases make of `out`, in the same world up to what was reported, and so with
    the same calls made in the same order.

    By the rules, an ending with no parked value, or with one of a type that no case is for, is
    left as it is but for the check that it is of the declared types, with no case run.  Otherwise
    the first case for its type is run once with the value bound, in the world that the effect has
    left but for library cells that are spent, and what that ends in is treated by the cases further
    behind in the same way. -/
theorem evaluate_dispatches (L : Language D K σ) (depth : Nat) (e : Effect D K R E A)
    (cases : List (Case D K E B)) (r : Runner D K) (w : World (Noted D K σ)) :
    letI := L.noting
    let callees : Callees D K (Noted D K σ) := Callees.ofFuel depth
    let whole : Effect D K R E B := e.matchTypes.atTypes cases
    (∀ fuel ending r' w', r.evaluate callees fuel whole.node w = some (ending, r', w') →
      ∃ fuel₀ first r₀ w₀, r.evaluate callees fuel₀ e.node w = some (first, r₀, w₀)) ∧
    (∀ fuel₀ p r₀ w₀, r.evaluate callees fuel₀ e.node w = some (.error p, r₀, w₀) →
      ∃ fuel r' w', r.evaluate callees fuel whole.node w = some (.error p, r', w') ∧
        w'.Agree w₀) ∧
    (∀ fuel₀ out r₀ w₀, r.evaluate callees fuel₀ e.node w = some (.ok out, r₀, w₀) →
      ∀ ending v,
        (∃ fuel r' w', r.evaluate callees fuel whole.node w = some (ending, r', w') ∧
          w'.Agree v) ↔
        ∃ v', Dispatched callees r cases (out.parked A) (w₀.parked A out) ending v' ∧
          v'.Agree v) := by
  let _ := L.noting
  intro callees whole
  have hc : Callees.Alike World.Agree callees callees := Callees.ofFuel_agree depth
  refine ⟨?_, ?_, ?_⟩
  · intro fuel ending r' w' hwhole
    cases hfit : r.settings.framesFit with
    | false => exact ⟨0, _, _, _, evaluate_eq_overflow hfit⟩
    | true =>
      obtain ⟨result, u, hdenotes, -⟩ := denotes_of_evaluate hc hfit hwhole
      obtain ⟨result₁, u₁, hparked⟩ := Effect.exists_of_atTypes cases hdenotes
      obtain ⟨result₂, u₂, hfirst⟩ := Node.Denotes.of_enter rfl hparked
      obtain ⟨fuel₀, r₀, w₀, he, -⟩ := evaluate_of_denotes hc hfit hfirst
      exact ⟨fuel₀, _, r₀, w₀, he⟩
  · intro fuel₀ p r₀ w₀ he
    cases hfit : r.settings.framesFit with
    | false =>
      obtain ⟨hp, hw₀⟩ := evaluate_without_room hfit he
      cases hp
      have hopened : ((r.opened w).report .exit).Agree w := ⟨rfl, rfl, rfl⟩
      exact ⟨0, _, _, evaluate_eq_overflow hfit, hopened.trans hw₀.symm⟩
    | true =>
      obtain ⟨result, u, hdenotes, hends⟩ := denotes_of_evaluate hc hfit he
      obtain rfl := hends.eq_error
      have hparked : (e.matchTypes : Effect D K R E B).node.Denotes callees
          r.environments.back? w (.error p) u := .enter_raised rfl hdenotes
      obtain ⟨fuel, r', w', hwhole, hends'⟩ :=
        evaluate_of_denotes hc hfit (Effect.atTypes_raised cases hparked)
      exact ⟨fuel, r', w', hwhole, hends'.world.trans hends.world.symm⟩
  · intro fuel₀ out r₀ w₀ he ending v
    have hfit := framesFit_of_evaluate_ok he
    obtain ⟨result, u, hdenotes, hends⟩ := denotes_of_evaluate hc hfit he
    obtain ⟨n, rfl⟩ := hends.exists_eq_ok
    obtain ⟨n', hparked⟩ := Effect.matchTypes_denotes (B := B) hdenotes
    have hagree := hends.world.parked A out
    constructor
    · rintro ⟨fuel, r', w', hwhole, hw'⟩
      obtain ⟨result, u', hdenotes', hends'⟩ := denotes_of_evaluate hc hfit hwhole
      obtain ⟨v', hrules, hv'⟩ :=
        Dispatched.of_denotes (r := r) hc hfit cases hparked hagree hdenotes'
      rw [← hends'.ending] at hrules
      exact ⟨v', hrules, hv'.trans (hends'.world.symm.trans hw')⟩
    · rintro ⟨v', hrules, hv'⟩
      obtain ⟨result, u', hdenotes', rfl, hu'⟩ := hrules.denotes hc hfit hparked hagree
      obtain ⟨fuel, r', w', hwhole, hends'⟩ := evaluate_of_denotes hc hfit hdenotes'
      exact ⟨fuel, r', w', hwhole, hends'.world.trans (hu'.symm.trans hv')⟩

end Runner

end EffectMachine
