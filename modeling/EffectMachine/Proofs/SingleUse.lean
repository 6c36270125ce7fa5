/-
  Effects can be run any number of times.

  Whatever is made by the constructors and combinators can be evaluated again and again, on any
  runners and in between anything else, with the exception of halts.  That this is so is not plain
  from the machine, which makes nodes and continuations for a single evaluation all the time; it
  rests on each of them being reached in one way only.

  The argument puts two things together.  The records of what happens to cells tell the truth, so
  that all there is to show is that the library finds its own cells there.  And the states of an
  evaluation are their own twins: whenever one asks for a cell it is its own, there to be taken
  (`Machine.asks_found`), and what closures do in between stays within the program and makes newer
  cells (`Machine.act_within`).
-/
import EffectMachine.Effect.Run
import EffectMachine.Proofs.Accounting
import EffectMachine.Proofs.Reruns
import Mathlib.Data.List.Basic

namespace EffectMachine

variable {D K σ α β : Type}

/-! ## What closures do in a step of a program -/

section Acts

variable {P : Program K} {I : σ → Prop} {A : α → Prop} {B : β → Prop}

theorem Act.Within.void {a : Act D K σ α} (h : a.Within P I A) :
    a.void.Within P I fun _ => True := by
  rw [Act.void, map_eq_pure_bind]
  exact h.bind fun _ _ => trivial

variable [L : Language D K σ]

/-- A source made anew is a call of a closure of the program. -/
theorem Source.act_within (hL : L.Within P I) {source : Source D K} (h : source.Reusable P) :
    source.act.Within P I fun _ => True := by
  cases h with
  | shared h => exact trivial
  | halted hhalts h => exact trivial
  | made hf => exact (hL.cause hf).void
  | failing hf => exact (hL.value hf .nil).void

/-- The calls of a link are to closures that the link holds, on values it was given. -/
theorem Link.act_within (hL : L.Within P I) {link : Link D K} (h : link.Reusable P)
    {v : Value D K} (hv : v.Reusable P) : (link.act v).Within P I fun _ => True := by
  cases h with
  | nowOf hf => exact (hL.value hf (.singleton hv)).void
  | call hf => exact (hL.effect hf (.singleton hv)).void
  | outcomeOf hf => exact (hL.outcome hf hv).void
  | @join earlier join h hjoin =>
    cases join with
    | none => exact trivial
    | some f => exact (hL.value (hjoin f rfl) (.pair h hv)).void
  | require hpasses hmake | assert hpasses hmake =>
    refine (hL.test hpasses hv).bind fun there _ => ?_
    cases there with
    | true => exact trivial
    | false => exact (hL.value hmake (.singleton hv)).void
  | now | nowSuccess | nowFailure | failNow | replace h | zip h hjoin | absolve | flatten
  | provide h | supply h | park | applyTo hf | applyWhole hf => exact trivial

/-- A value of another type is not followed at all. -/
theorem Link.actTyped_within (hL : L.Within P I) {link : Link D K} (h : link.Reusable P)
    {v : Value D K} (hv : v.Reusable P) (T : Ty) :
    (link.actTyped T v).Within P I fun _ => True := by
  simp only [Link.actTyped]
  cases hcast : v.cast? T with
  | none => exact trivial
  | some v' =>
    obtain ⟨-, rfl⟩ := Value.cast?_eq_some_iff.mp hcast
    exact Link.act_within hL h hv

theorem Continuation.act_within (hL : L.Within P I) {k : Continuation D K} (h : k.Reusable P)
    {v : Value D K} (hv : v.Reusable P) (w : World σ) :
    (k.act v w).Within P I fun _ => True := by
  cases h with
  | passThrough => exact trivial
  | typed h => exact Link.actTyped_within hL h hv _

/-- The calls of a handler depend on the kind of cause; what is looked at of the cause is reusable
    with it. -/
theorem Handler.act_within (hL : L.Within P I) {onCause : Handler D K} (h : onCause.Reusable P)
    {c : Cause (Value D K)} (hc : c.Reusable P) : (onCause.act c).Within P I fun _ => True := by
  have htyped : ∀ E, (c.typed E).Reusable P := hc.typed
  cases h with
  | @mapError E f hf =>
    have h := htyped E
    simp only [Handler.act]
    generalize c.typed E = typed at h ⊢
    cases h with
    | fail h => exact (hL.value hf (.singleton h)).void
    | die h => exact trivial
  | onCause hf => exact (hL.handler hf (htyped _)).void
  | @onFailure E link hlink =>
    have h := htyped E
    simp only [Handler.act]
    generalize c.typed E = typed at h ⊢
    cases h with
    | fail h => exact Link.act_within hL hlink h
    | die h => exact trivial
  | @narrow E payload into hf =>
    have h := htyped E
    simp only [Handler.act]
    generalize c.typed E = typed at h ⊢
    cases h with
    | fail h => exact trivial
    | @die d h =>
      simp only
      cases hcast : d.cast? payload with
      | none => exact trivial
      | some p =>
        obtain ⟨-, rfl⟩ := Value.cast?_eq_some_iff.mp hcast
        exact (hL.value hf (.singleton h)).void
  | escalate | typeCase hcase => exact trivial

/-- What the closures do that a step calls stays within the program. -/
theorem Machine.act_within (hL : L.Within P I) {pairs : List (Nat × Nat)} {m m' : Machine D K}
    (h : Machine.Twins P pairs m m') (w : World σ) : (m.act w).Within P I fun _ => True := by
  cases h with
  | dispatch hnode hframes henvs =>
    cases hnode with
    | reusable h =>
      cases h with
      | failCause h => exact Source.act_within hL h
      | total hf hargs => exact (hL.value hf hargs).void
      | attempt hf hargs => exact (hL.value hf hargs).void
      | @read R link h =>
        simp only [Machine.act]
        rename_i envs _
        cases hback : envs.back? with
        | none => exact trivial
        | some env =>
          exact Link.actTyped_within hL h (reusable_of_back? henvs env hback) R
      | succeed h | flatMap h hk | fold h hcause hk | provide hv h => exact trivial
    | succeed h | failCause h | provide hv h | flatMap h hlink => exact trivial
  | settle hending hframes henvs =>
    rename_i ending _ _ _ _
    cases hframes with
    | nil => cases ending <;> exact trivial
    | cons hframe hframes =>
      cases hframe with
      | restore => cases ending <;> exact trivial
      | apply hk =>
        cases ending with
        | success v => exact Continuation.act_within hL hk hending w
        | failure c => exact trivial
      | @applyOnce c d T link hlink =>
        cases ending with
        | success v =>
          show (if (takeCell c w.cells).1 then link.actTyped T v else pure ()).Within P I _
          split
          · exact Link.actTyped_within hL hlink hending T
          · exact trivial
        | failure c => exact trivial
      | fold hcause hk =>
        cases ending with
        | success v => exact Continuation.act_within hL hk hending w
        | failure c => exact Handler.act_within hL hcause hending

end Acts

/-! ## Whoever asks for a cell of the library finds it -/

/-- If this is about a cell of the library, it was there. -/
def Use.Found : Use D K → Prop
  | cell _ there => there = true
  | _ => True

/-- A state that asks for a cell owns it. -/
theorem Machine.Twins.cell_owned {P : Program K} {pairs : List (Nat × Nat)} {m m' : Machine D K}
    (h : Machine.Twins P pairs m m') {c : Nat} (hc : m.cell? = some c) :
    c ∈ pairs.map Prod.fst := by
  cases h with
  | dispatch hnode hframes henvs =>
    cases hnode with
    | reusable h =>
      cases h with
      | failCause h => cases h <;> cases hc
      | succeed h | total hf hargs | attempt hf hargs | flatMap h hk | fold h hcause hk
      | provide hv h | read h => cases hc
    | succeed h | failCause h | provide hv h =>
      cases hc
      exact List.mem_cons_self ..
    | flatMap h hlink => cases hc
  | settle hending hframes henvs =>
    rename_i ending _ _ _ _
    cases hframes with
    | nil => cases ending <;> cases hc
    | cons hframe hframes =>
      cases hframe with
      | restore => cases ending <;> cases hc
      | apply hk => cases ending <;> cases hk <;> cases hc
      | fold hcause hk => cases ending <;> cases hk <;> cases hc
      | applyOnce hlink =>
        cases ending with
        | success v =>
          cases hc
          exact List.mem_cons_self ..
        | failure c => cases hc

section Found

variable {P : Program K} {I : σ → Prop} {observer : Observer D K σ} {callees : Callees D K σ}
  {w : World σ}

/-- A world is its own twin. -/
theorem World.twins_self (h : I w.state) : World.Twins P I [] [] w w :=
  ⟨rfl, h, fun _ => rfl, w.trace, (List.append_nil _).symm, (List.append_nil _).symm⟩

/-- The cell that a state asks for is one it owns, and those are there to be taken. -/
theorem Machine.asks_found [Language D K σ] {base : World σ} {m : Machine D K}
    (h : Together P I [] [] base base (m, w) (m, w)) : ∀ u ∈ m.asks callees w, u.Found := by
  intro u hu
  obtain ⟨pairs, hmachine, -, hown⟩ := h
  unfold asks at hu
  cases hhalt : m.halt? with
  | some halt =>
    simp only [hhalt] at hu
    split at hu
    · cases List.mem_singleton.mp hu
      exact trivial
    · cases hu
  | none =>
    simp only [hhalt] at hu
    cases hcell : m.cell? with
    | none =>
      rw [hcell] at hu
      cases hu
    | some c =>
      rw [hcell] at hu
      cases List.mem_singleton.mp hu
      -- the state owns the cell, and what it owns has not been taken yet
      have hthere := (hown.left.fresh c (hmachine.cell_owned hcell)).there
      exact (takeCell_fst c w.cells).mpr hthere

/-- In runs and calls of the program every cell is found. -/
structure Observer.Finds (P : Program K) (I : σ → Prop) (observer : Observer D K σ) : Prop where
  run {w : World σ} (hw : I w.state) {r : Runner D K} {env : Option (Value D K)}
    {node : Node D K} (hr : r.Reusable P) (henv : ∀ v, env = some v → v.Reusable P)
    (hnode : node.Reusable P) : ∀ u ∈ observer.run r env node w, u.Found
  build {w : World σ} (hw : I w.state) {f : K} {args : List (Value D K)} (hf : P.closures f)
    (hargs : Value.AllReusable P args) : ∀ u ∈ observer.build f args w, u.Found

/-- By induction on the act: what it does itself is not about cells of the library, and its runs and
    calls are of the program. -/
theorem Act.finds (hc : callees.Paired P I [] []) (ho : observer.Finds P I) {A : α → Prop}
    {a : Act D K σ α} (h : a.Within P I A) (hw : I w.state) :
    ∀ u ∈ a.uses observer callees w, u.Found := by
  induction a generalizing w with
  | done a => exact fun u hu => nomatch hu
  | raise p => exact fun u hu => nomatch hu
  | look k ih => exact ih _ (h _ hw) hw
  | write s k ih => exact ih h.2 h.1
  | newCell k ih =>
    have hw' : I ({ w with halts := w.halts.push false } : World σ).state := hw
    intro u hu
    rcases List.mem_cons.mp hu with rfl | hu
    · exact trivial
    · exact ih _ (h.2 _) hw' u hu
  | run r env node k ih =>
    obtain ⟨hr, henv, hnode, hk⟩ := h
    -- read for a world and itself, what runs come to says that the invariant is kept
    have hrun := hc.run (World.twins_self hw) hr henv hnode
    intro u hu
    simp only [uses] at hu
    rcases List.mem_append.mp hu with hu | hu
    · exact ho.run hw hr henv hnode u hu
    · generalize callees.run r env node w = out at hrun hu
      cases hrun with
      | endless => cases hu
      | ended htwins _ _ hending hr' => exact ih _ _ (hk _ _ hr' hending) htwins.inv u hu
  | build f args k ih =>
    obtain ⟨hf, hargs, hk⟩ := h
    have hbuild := hc.build (World.twins_self hw) hf hargs
    intro u hu
    simp only [uses] at hu
    rcases List.mem_append.mp hu with hu | hu
    · exact ho.build hw hf hargs u hu
    · generalize callees.build f args w = out at hbuild hu
      cases hbuild with
      | endless => cases hu
      | returned htwins _ _ _ hnode => exact ih _ (hk (.ok _) hnode.2.2) htwins.inv u hu
      | raised htwins _ _ hp => exact ih _ (hk (.error _) hp) htwins.inv u hu

variable [L : Language D K σ]

/-- While the cells of a state are its own, all that are asked for are found. -/
theorem Machine.finds (hL : L.Within P I) (hc : callees.Paired P I [] [])
    (ho : observer.Finds P I) (fuel : Nat) {base : World σ} {m : Machine D K}
    (h : Together P I [] [] base base (m, w) (m, w)) :
    ∀ u ∈ m.uses observer callees fuel w, u.Found := by
  induction fuel generalizing m w with
  | zero => exact fun u hu => nomatch hu
  | succ fuel ih =>
    have hstep := step_together hL hc h
    obtain ⟨pairs, hmachine, htwins, hown⟩ := id h
    have hasked : (m.asked w).state = w.state := by
      unfold asked World.asked
      split
      · rfl
      · split <;> rfl
    have hinv : I (m.asked w).state := hasked ▸ htwins.inv
    intro u hu
    simp only [uses, List.append_assoc] at hu
    rcases List.mem_append.mp hu with hu | hu
    · exact asks_found h u hu
    rcases List.mem_append.mp hu with hu | hu
    · exact Act.finds hc ho (act_within hL hmachine w) hinv u hu
    -- the cells are its own in the next state as well
    · generalize m.step callees w = out at hstep hu
      cases hstep with
      | endless => cases hu
      | running h => exact ih h u hu
      | finished => cases hu

/-- A run begins in a state that owns all its cells: the one of its environment, or none. -/
theorem Runner.finds (hL : L.Within P I) (hc : callees.Paired P I [] [])
    (ho : observer.Finds P I) (fuel : Nat) {r : Runner D K} (hr : r.Reusable P)
    {env : Option (Value D K)} (henv : ∀ v, env = some v → v.Reusable P) {node : Node D K}
    (hnode : node.Reusable P) (hw : I w.state) :
    ∀ u ∈ r.uses observer callees fuel env node w, u.Found := by
  have hentry : Play.Paired P I [] [] callees (Node.Twins P) (entry env node) := by
    cases env with
    | none => exact .pure (.reusable hnode)
    | some env => exact .cell fun _ _ => .provide (henv env rfl) hnode
  have hstart := hentry (World.twins_self hw)
  have hnil : OwnPairs w w w w [] := ⟨.nil (.refl w), .nil (.refl w)⟩
  intro u hu
  simp only [uses] at hu
  generalize entry env node callees w = out at hstart hu
  cases hstart with
  | endless => cases hu
  | raised => cases hu
  | @returned pair? start _ w₁ _ htwins hgrow hgrow' hfresh h =>
    simp only at hu
    split at hu
    · have hown := hnil.append hgrow hgrow' hfresh
      rw [List.append_nil] at hown
      have htogether := start_together rfl hr h (htwins.report (.span r.settings.label)) hown
      exact Machine.finds hL hc ho fuel htogether u hu
    · cases hu

theorem Observer.ofFuel_finds (hL : L.Within P I) (depth : Nat) :
    (Observer.ofFuel depth : Observer D K σ).Finds P I := by
  induction depth with
  | zero =>
    constructor
    · intro w hw r env node hr henv hnode u hu
      cases hu
    · intro w hw f args hf hargs u hu
      cases hu
  | succ depth ih =>
    have hc : (Callees.ofFuel depth : Callees D K σ).Paired P I [] [] :=
      Callees.ofFuel_paired hL [] [] depth
    constructor
    · intro w hw r env node hr henv hnode
      exact Runner.finds hL hc ih depth hr henv hnode hw
    · intro w hw f args hf hargs
      exact Act.finds hc ih (hL.effect hf hargs) hw

end Found

/-! ## Runs as acts of a program -/

section Programs

variable {P : Program K} {I : σ → Prop} {R E A : Ty}

/-- The check at the end of a run keeps an ending, or makes a fault of it. -/
theorem Ending.Reusable.checked {ending : Ending D K} (h : Ending.Reusable P ending) (E A : Ty) :
    Ending.Reusable P (ending.checked E A) := by
  cases ending with
  | failure c => exact Cause.Reusable.typed h E
  | success v =>
    simp only [Ending.checked]
    cases hcast : v.cast? A with
    | none => exact Cause.Reusable.ofFault _
    | some v' =>
      obtain ⟨-, rfl⟩ := Value.cast?_eq_some_iff.mp hcast
      exact h

theorem Act.ofRaised_within {Q : α → Prop} {result : Raised D K α}
    (h : Raised.Reusable P Q result) : (ofRaised result : Act D K σ α).Within P I Q := by
  cases result with
  | ok a => exact h
  | error p => exact h

/-- To run an effect of the program is an act of the program. -/
theorem Effect.Made.runBound_within {e : Effect D K R E A} (he : e.Made P) {r : Runner D K}
    (hr : r.Reusable P) {env : Option (Value D K)} (henv : ∀ v, env = some v → v.Reusable P) :
    (r.runBound env e : Act D K σ _).Within P I fun out =>
      out.1.Reusable P ∧ Raised.Reusable P (Ending.Reusable P) out.2 := by
  refine ⟨hr, henv, he.reusable, fun r' ending hr' hending => ⟨hr', ?_⟩⟩
  cases ending with
  | ok ending => exact Ending.Reusable.checked hending E A
  | error p => exact hending

/-- A fresh runner has no environments, so all its runs are of the program. -/
theorem Effect.Made.runOutcome_within {e : Effect D K .unit E A} (he : e.Made P) :
    (e.runOutcome : Act D K σ _).Within P I (Ending.Reusable P) := by
  have hfresh : (Runner.fresh : Runner D K).Reusable P := fun v hv => nomatch hv
  have hrun : (Runner.fresh.runOutcome e : Act D K σ _).Within P I _ :=
    he.runBound_within hfresh nofun
  exact hrun.bind fun out hout => Act.ofRaised_within hout.2

/-- To make a halt is an act of a program that has any. -/
theorem Effect.halt_within (hhalts : P.halts) {cause : Cause (Value D K)}
    (hcause : cause.Reusable P) :
    (Effect.halt cause : Act D K σ (Effect D K R E A)).Within P I fun e => e.node.Reusable P :=
  ⟨hhalts, fun _ => .failCause (.halted hhalts hcause)⟩

end Programs

/-! ## Reusable effects -/

/-- What happens to cells while an act is played, with runs and calls nested up to `depth` deep. -/
def Act.record [Language D K σ] (depth : Nat) (a : Act D K σ α) (w : World σ) : List (Use D K) :=
  a.uses (Observer.ofFuel depth) (Callees.ofFuel depth) w

/-- The cell of the library that this is about. -/
def Use.cell? : Use D K → Option Nat
  | cell c _ => some c
  | _ => none

/-- Where every cell of the library was found, those asked for are those taken. -/
theorem Use.cells_eq_taken {uses : List (Use D K)} (h : ∀ u ∈ uses, u.Found) :
    uses.filterMap Use.cell? = uses.filterMap Use.taken? := by
  refine List.filterMap_congr fun u hu => ?_
  cases u with
  | made n | halt n cause result => rfl
  | cell c there =>
    have hthere : there = true := h _ hu
    rw [hthere]
    rfl

/-- Effects can be run any number of times.

    * Let a program be played, with all that it runs and calls.  A node or a continuation that the
      library made for one evaluation is evaluated once at most, and finds its cell there; and no
      cell is taken but for such an evaluation.
    * A halt has a cell of its own.  Since that was made, in the runs of the program and its
      closures taken together, the first evaluation of the halt ends in its cause, and every later
      one in the fault `alreadyConsumed`.
    * Without halts, an effect that is run from the same shared state goes the same way, whatever
      has been run before. -/
theorem Language.Within.single_use {L : Language D K σ} {P : Program K} {I : σ → Prop}
    (hL : L.Within P I) :
    (∀ {α : Type} {Q : α → Prop} {program : Act D K σ α}, program.Within P I Q →
      ∀ (depth : Nat) {w : World σ}, I w.state →
        (∀ c there, .cell c there ∈ program.record depth w → there = true) ∧
        ((program.record depth w).filterMap Use.cell?).Nodup ∧
        ∀ {result w'}, program.exec (Callees.ofFuel depth) w = some (result, w') →
          ∀ c, w'.cells[c]? = some true ↔
            w.cells[c]? = some true ∨ c ∈ (program.record depth w).filterMap Use.cell?) ∧
    ((∀ {R E A : Ty} (cause : Cause (Value D K)) (depth : Nat) (w : World σ),
        (Effect.halt cause : Act D K σ (Effect D K R E A)).record depth w =
            [.made w.halts.size] ∧
        ∃ w', (Effect.halt cause : Act D K σ (Effect D K R E A)).exec (Callees.ofFuel depth) w =
            some (.ok ⟨.failCause (.halted w.halts.size cause)⟩, w')) ∧
      ∀ {α : Type} (program : Act D K σ α) (depth : Nat) (w : World σ) {n : Nat}
        {cause result : Cause (Value D K)} {before since later : List (Use D K)},
        program.record depth w = before ++ since ++ .halt n cause result :: later →
        before.getLast? = some (.made n) ∨ before = [] ∧ w.halts[n]? = some false →
          ((∀ u ∈ since, ¬u.OfHalt n) → result = cause) ∧
          ((∃ u ∈ since, u.OfHalt n) → result = .ofFault .alreadyConsumed)) ∧
    (¬P.halts → ∀ {R E A : Ty} {e : Effect D K R E A}, e.Made P →
      ∀ (depth fuel : Nat) {r r' : Runner D K}, r.environments = r'.environments →
        r.settings.framesFit = r'.settings.framesFit → r.Reusable P →
      ∀ {env : Option (Value D K)}, (∀ v, env = some v → v.Reusable P) →
      ∀ {w v : World (Noted D K σ)}, I w.state.state → w.state.state = v.state.state →
        Reruns P r r' w v
          (@Runner.evaluateWith D K _ L.noting (@Callees.ofFuel D K _ L.noting depth) fuel r env
            e.node w)
          (@Runner.evaluateWith D K _ L.noting (@Callees.ofFuel D K _ L.noting depth) fuel r' env
            e.node v)) := by
  refine ⟨?_, ⟨?_, ?_⟩, ?_⟩
  · intro α Q program hprogram depth w hw
    have hfound := Act.finds (Callees.ofFuel_paired hL [] [] depth) (Observer.ofFuel_finds hL depth)
      hprogram hw
    have haccounts := program.accounts (Observer.ofFuel_accounts depth) w
    have hcells : (program.record depth w).filterMap Use.cell? =
        (program.record depth w).filterMap Use.taken? := Use.cells_eq_taken hfound
    refine ⟨fun c there hmem => hfound _ hmem, ?_, fun {result w'} hexec c => ?_⟩
    · rw [hcells]
      exact haccounts.nodup
    · have hend : (program.exec (Callees.ofFuel depth) w).map Prod.snd = some w' := by
        rw [hexec, Option.map_some]
      rw [hcells, Use.mem_taken_iff]
      exact (haccounts.ends w' hend).cells c
  · intro R E A cause depth w
    exact ⟨rfl, _, rfl⟩
  · intro α program depth w n cause result before since later hrecord hmade
    have hhonest := (program.accounts (Observer.ofFuel_accounts depth) w).honest
    rw [show program.uses _ _ w = _ from hrecord, List.append_assoc, Use.allHonest_append]
      at hhonest
    refine hhonest.2.halt_result ?_
    -- at that time the cell has just been made, or it is there from the beginning
    rcases hmade with hlast | ⟨rfl, hthere⟩
    · obtain ⟨earlier, rfl⟩ := List.getLast?_eq_some_iff.mp hlast
      rw [List.foldl_append]
      exact if_pos rfl
    · exact hthere
  · intro hhalts R E A e he depth fuel r r' henvs hfit hr env henv w v hinv hstate
    exact Runner.evaluateWith_again hL depth fuel henvs hfit hr henv he.reusable hinv hstate
      fun h => absurd h hhalts

/-- What a language that greets does stays within any program. -/
theorem Language.greeting_within (halts : Prop) :
    Language.greeting.Within (Program.all halts) fun _ => True where
  value _ _ := .text
  test _ _ := trivial
  outcome _ _ := Value.Reusable.text
  effect _ _ := .succeed .text
  handler _ _ := .succeed .text
  cause _ := .fail .text

/-- A greeting next to a halt, run twice, and a greeting next to another, run twice.  The first two
    runs make a continuation that they never come to, and the cells 0 and 1 stay as they are; each
    of the other two finds the cells of its continuation and of what that makes.  And a greeting next
    to a greeting goes the same way again, from any worlds. -/
theorem Language.Within.single_use_greeting :
    (Language.greeting.Within (Program.all True) fun _ => True) ∧
    (Language.greeting.Within (Program.all False) fun _ => True) ∧
    let greeted : Effect Unit Unit .unit .text .text := .total ()
    let program : Act Unit Unit Unit (Ending Unit Unit) := do
      let gone : Effect Unit Unit .unit .text .text ← Effect.halt (.fail (.text "gone"))
      let _ ← (greeted.zip gone).runOutcome
      let _ ← (greeted.zip gone).runOutcome
      let _ ← (greeted.zip greeted).runOutcome
      (greeted.zip greeted).runOutcome
    let record := @Act.record _ _ _ _ Language.greeting 9 program (World.start ())
    (∀ c there, .cell c there ∈ record → there = true) ∧ (record.filterMap Use.cell?).Nodup ∧
    record.filterMap Use.cell? = [2, 3, 4, 5] ∧
    (∃ result w', program.exec (@Callees.ofFuel _ _ _ Language.greeting 9) (World.start ()) =
      some (result, w') ∧ ∀ c, w'.cells[c]? = some true ↔ c ∈ [2, 3, 4, 5]) ∧
    ∀ w v : World (Noted Unit Unit Unit),
      Reruns (Program.all False) Runner.fresh Runner.fresh w v
        (@Runner.evaluateWith _ _ _ Language.greeting.noting
          (@Callees.ofFuel _ _ _ Language.greeting.noting 9) 9 Runner.fresh none
          (greeted.zip greeted).node w)
        (@Runner.evaluateWith _ _ _ Language.greeting.noting
          (@Callees.ofFuel _ _ _ Language.greeting.noting 9) 9 Runner.fresh none
          (greeted.zip greeted).node v) := by
  refine ⟨Language.greeting_within True, Language.greeting_within False, ?_⟩
  intro greeted program record
  have hgreeted : ∀ {halts}, greeted.Made (Program.all halts) := .total trivial
  have htwice : ∀ {halts}, (greeted.zip greeted).Made (Program.all halts) := .zip hgreeted hgreeted
  have hprogram : program.Within (Program.all True) (fun _ => True)
      (Ending.Reusable (Program.all True)) := by
    refine (Effect.halt_within trivial (.fail .text)).bind fun gone hgone => ?_
    have hboth : (greeted.zip gone).Made (Program.all True) :=
      .zip hgreeted (.ofValue (.effect hgone))
    refine hboth.runOutcome_within.bind fun _ _ => hboth.runOutcome_within.bind fun _ _ => ?_
    exact htwice.runOutcome_within.bind fun _ _ => htwice.runOutcome_within
  obtain ⟨hcells, -, -⟩ := Language.Within.single_use (Language.greeting_within True)
  obtain ⟨-, -, hreruns⟩ := Language.Within.single_use (Language.greeting_within False)
  obtain ⟨hfound, hnodup, hends⟩ := hcells hprogram 9 trivial
  have hrecord : record.filterMap Use.cell? = [2, 3, 4, 5] := rfl
  obtain ⟨result, w', hexec⟩ : ∃ result w',
      program.exec (@Callees.ofFuel _ _ _ Language.greeting 9) (World.start ()) =
        some (result, w') := ⟨_, _, rfl⟩
  refine ⟨hfound, hnodup, hrecord, ⟨result, w', hexec, fun c => ?_⟩, fun w v => ?_⟩
  · -- in the beginning there are no cells, so those taken in the end are the ones in the record
    rw [← hrecord, hends hexec c]
    exact or_iff_right nofun
  · have hfresh : (Runner.fresh : Runner Unit Unit).Reusable (Program.all False) :=
      fun v hv => nomatch hv
    have henv : ∀ v : Value Unit Unit, none = some v → v.Reusable (Program.all False) := nofun
    exact hreruns id htwice 9 9 rfl rfl hfresh henv trivial rfl

/-- A halt that is run twice. -/
example :
    let cause : Cause (Value Unit Unit) := .fail (.text "gone")
    let twice : Act Unit Unit Unit (Ending Unit Unit) := do
      let gone : Effect Unit Unit .unit .text .text ← Effect.halt cause
      let _ ← gone.runOutcome
      gone.runOutcome
    @Act.record _ _ _ _ Language.greeting 9 twice (World.start ()) =
      [.made 0, .halt 0 cause cause, .halt 0 cause (.ofFault .alreadyConsumed)] := rfl

end EffectMachine
