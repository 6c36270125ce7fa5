/-
  What is there for a single use, and what becomes of it.

  Three kinds of things are made for one evaluation: the node of a cause that a closure handed over,
  and the nodes and the continuations that the library makes for itself while it runs.  Each of them
  owns a cell.  This file keeps a record of everything that happens to such cells: `Act.uses` lists
  it in the order in which it happens while an act is played, in the runs that the act asks for, in
  the runs that closures called in those runs ask for, and so on, and also if the act comes to no
  end.

  Two tables say what a step does to cells.  `Machine.cell?` and `Machine.halt?` tell the one that
  it asks for, and `Machine.act` is what the closures do that it calls, all in one act.

  A record is to tell the truth about the cells there are (`Use.Accounts`): whoever evaluates the
  node of a cause gets the cause if its cell is there to be taken, and is told off otherwise; no
  cell of the library is taken twice; and what has been taken by the end was taken before, or on the
way. -/
import EffectMachine.Proofs.Transition

namespace EffectMachine

variable {D K σ α β : Type}

/-! ## Records -/

/-- Something that happens to a cell. -/
inductive Use (D K : Type) where
  /-- A closure asked for a cell, to hand over a cause, and got this one. -/
  | made (n : Nat)
  /-- A node with this cause, which was to be handed over once, was evaluated and ended in that. -/
  | halt (n : Nat) (cause result : Cause (Value D K))
  /-- A node or a continuation with this cell of the library was evaluated; whether the cell was
      still there. -/
  | cell (c : Nat) (there : Bool)

/-- Where what happens in runs, and in closures that build nodes, is looked up. -/
structure Observer (D K σ : Type) where
  run : Runner D K → Option (Value D K) → Node D K → World σ → List (Use D K)
  build : K → List (Value D K) → World σ → List (Use D K)

/-- What happens to cells while an act is played, in order. -/
def Act.uses (observer : Observer D K σ) (callees : Callees D K σ) :
    Act D K σ α → World σ → List (Use D K)
  | done _, _ => []
  | raise _, _ => []
  | look k, w => uses observer callees (k w.state) w
  | write s k, w => uses observer callees k { w with state := s }
  | newCell k, w =>
    .made w.halts.size ::
      uses observer callees (k w.halts.size) { w with halts := w.halts.push false }
  | run r env node k, w =>
    observer.run r env node w ++
      match callees.run r env node w with
      | some (ending, r', w') => uses observer callees (k r' ending) w'
      | none => []
  | build f args k, w =>
    observer.build f args w ++
      match callees.build f args w with
      | some (node, w') => uses observer callees (k node) w'
      | none => []

/-! ## What a step asks for -/

/-- The cell that a slot for one evaluation owns. -/
def Slot.cell? : Slot D K → Option Nat
  | once c _ => some c
  | _ => none

def Source.cell? : Source D K → Option Nat
  | once c _ => some c
  | _ => none

def Continuation.cell? : Continuation D K → Option Nat
  | typedOnce c _ _ => some c
  | _ => none

/-- What happens when somebody asks for this cell of the library, if it is one. -/
def Use.ofCell (c? : Option Nat) (w : World σ) : List (Use D K) :=
  match c? with
  | some c => [cell c (takeCell c w.cells).1]
  | none => []

/-- The world after somebody has asked for this cell of the library, if it is one. -/
def World.asked (w : World σ) : Option Nat → World σ
  | some c => { w with cells := (takeCell c w.cells).2 }
  | none => w

/-- The act for what it does, not for what it returns. -/
def Act.void (a : Act D K σ α) : Act D K σ Unit := (fun _ => ()) <$> a

section Tables

variable [Language D K σ]

/-- What the closure does that a source calls. -/
def Source.act : Source D K → Act D K σ Unit
  | made f => (Language.cause f).void
  | failing f => (Language.value f []).void
  | _ => pure ()

/-- What the closures do that are called when a link is followed. -/
def Link.act : Link D K → Value D K → Act D K σ Unit
  | nowOf f, v => (Language.value f [v]).void
  | call f, v => (Language.effect f [v]).void
  | outcomeOf f, v => (Language.outcome f v).void
  | join earlier (some f), v => (Language.value f [earlier, v]).void
  | require passes make, v | assert passes make, v => do
    if ← Language.test passes v then pure () else (Language.value make [v]).void
  | _, _ => pure ()

/-- A link is followed only on a value of the type expected. -/
def Link.actTyped (type : Ty) (link : Link D K) (v : Value D K) : Act D K σ Unit :=
  match v.cast? type with
  | some v => link.act v
  | none => pure ()

/-- So is a continuation, and if it owns a cell only while that is there. -/
def Continuation.act (k : Continuation D K) (v : Value D K) (w : World σ) : Act D K σ Unit :=
  match k with
  | passThrough => pure ()
  | typed type link => link.actTyped type v
  | typedOnce c type link => if (takeCell c w.cells).1 then link.actTyped type v else pure ()

def Handler.act : Handler D K → Cause (Value D K) → Act D K σ Unit
  | mapError error f, c => match c.typed error with
    | .fail e => (Language.value f [e]).void
    | .die _ => pure ()
  | onCause error f, c => (Language.handler f (c.typed error)).void
  | onFailure error link, c => match c.typed error with
    | .fail e => link.act e
    | .die _ => pure ()
  | narrow error payload into, c => match c.typed error with
    | .fail _ => pure ()
    | .die d => match d.cast? payload with
      | some p => (Language.value into [p]).void
      | none => pure ()
  | _, _ => pure ()

namespace Machine

/-- What the closures do that are called in the next step. -/
def act : Machine D K → World σ → Act D K σ Unit
  | ⟨.dispatch (.failCause source), _, _, _⟩, _ => source.act
  | ⟨.dispatch (.total f args), _, _, _⟩, _ => (Language.value f args).void
  | ⟨.dispatch (.attempt f args), _, _, _⟩, _ => (Language.value f args).void
  | ⟨.dispatch (.read type link), _, envs, _⟩, _ => match envs.back? with
    | some env => link.actTyped type env
    | none => pure ()
  | ⟨.settle (.success v), .apply k :: _, _, _⟩, w => k.act v w
  | ⟨.settle (.success v), .fold _ k :: _, _, _⟩, w => k.act v w
  | ⟨.settle (.failure c), .fold onCause _ :: _, _, _⟩, _ => onCause.act c
  | _, _ => pure ()

/-- The cell of the library that the next step asks for. -/
def cell? : Machine D K → Option Nat
  | ⟨.dispatch (.succeed slot), _, _, _⟩ => slot.cell?
  | ⟨.dispatch (.failCause source), _, _, _⟩ => source.cell?
  | ⟨.dispatch (.provide slot _), _, _, _⟩ => slot.cell?
  | ⟨.settle (.success _), .apply k :: _, _, _⟩ => k.cell?
  | ⟨.settle (.success _), .fold _ k :: _, _, _⟩ => k.cell?
  | _ => none

/-- The cell and the cause of the node that is evaluated in the next step, if its cause was handed
    over by a closure. -/
def halt? : Machine D K → Option (Nat × Cause (Value D K))
  | ⟨.dispatch (.failCause (.halted n cause)), _, _, _⟩ => some (n, cause)
  | _ => none

/-- What happens in the next step to the cell that it asks for. -/
def asks (callees : Callees D K σ) (m : Machine D K) (w : World σ) : List (Use D K) :=
  match m.halt? with
  | some (n, cause) => match m.step callees w with
    | some (.running ⟨.settle (.failure result), _, _, _⟩, _) => [.halt n cause result]
    | _ => []
  | none => Use.ofCell m.cell? w

/-- The world after the next step has asked for its cell. -/
def asked (m : Machine D K) (w : World σ) : World σ :=
  match m.halt? with
  | some (n, _) => { w with halts := (takeCell n w.halts).2 }
  | none => w.asked m.cell?

/-- What happens to cells in as many steps as the fuel suffices for. -/
def uses (observer : Observer D K σ) (callees : Callees D K σ) :
    Nat → Machine D K → World σ → List (Use D K)
  | 0, _, _ => []
  | fuel + 1, m, w =>
    m.asks callees w ++ (m.act w).uses observer callees (m.asked w) ++
      match m.step callees w with
      | some (.running m', w') => uses observer callees fuel m' w'
      | _ => []

end Machine

/-- What happens to cells in a run. -/
def Runner.uses (observer : Observer D K σ) (callees : Callees D K σ) (fuel : Nat)
    (r : Runner D K) (env : Option (Value D K)) (node : Node D K) (w : World σ) :
    List (Use D K) :=
  match entry env node callees w with
  | some (.ok node, w) =>
    if r.settings.framesFit then Machine.uses observer callees fuel (r.start node) (r.opened w)
    else []
  | _ => []

/-- What happens to cells in runs and calls nested up to `depth` deep. -/
def Observer.ofFuel : Nat → Observer D K σ
  | 0 => ⟨fun _ _ _ _ => [], fun _ _ _ => []⟩
  | depth + 1 =>
    { run := Runner.uses (ofFuel depth) (Callees.ofFuel depth) depth
      build := fun f args w =>
        (Language.effect f args).uses (ofFuel depth) (Callees.ofFuel depth) w }

end Tables

/-! ## Records that tell the truth -/

namespace Use

/-- For every cell that a closure may have asked for, whether it has been taken; nothing if it has
    not been made. -/
abbrev Flags : Type := Nat → Option Bool

/-- The flags after something has happened. -/
def after (flags : Flags) : Use D K → Flags
  | made n => fun i => if i = n then some false else flags i
  | halt n _ _ => fun i => if i = n then (flags n).map fun _ => true else flags i
  | cell _ _ => flags

/-- A cell that is made is a new one, and the node of a cause ends in it only while its cell is
    there. -/
def Honest (flags : Flags) : Use D K → Prop
  | made n => flags n = none
  | halt n cause result =>
    result = if flags n = some false then cause else .ofFault .alreadyConsumed
  | cell _ _ => True

/-- Each of these was honest when it happened. -/
def AllHonest (flags : Flags) : List (Use D K) → Prop
  | [] => True
  | u :: uses => u.Honest flags ∧ AllHonest (u.after flags) uses

/-- The cell of the library, if it was there to be taken. -/
def taken? : Use D K → Option Nat
  | cell c true => some c
  | _ => none

/-- A record is honest if its first part is, and the second is where the first one has left off. -/
theorem allHonest_append {flags : Flags} {uses later : List (Use D K)} :
    AllHonest flags (uses ++ later) ↔
      AllHonest flags uses ∧ AllHonest (uses.foldl after flags) later := by
  induction uses generalizing flags with
  | nil => exact ⟨fun h => ⟨trivial, h⟩, And.right⟩
  | cons u uses ih =>
    simp only [List.cons_append, AllHonest, List.foldl_cons, ih, and_assoc]

/-- In a record that is honest, each thing was when it happened. -/
theorem AllHonest.at {flags : Flags} {uses later : List (Use D K)} {u : Use D K}
    (h : AllHonest flags (uses ++ u :: later)) : u.Honest (uses.foldl after flags) :=
  (allHonest_append.mp h).2.1

/-- The node of the cause with this cell was evaluated. -/
def OfHalt (n : Nat) (u : Use D K) : Prop := ∃ cause result, u = .halt n cause result

/-- Only its own node being evaluated changes the flag of a cell there is. -/
theorem after_eq {flags : Flags} {u : Use D K} {n : Nat} {taken : Bool} (h : u.Honest flags)
    (hn : flags n = some taken) (hu : ¬u.OfHalt n) : u.after flags n = some taken := by
  cases u with
  | cell c there => exact hn
  | made m =>
    have hne : n ≠ m := by
      rintro rfl
      cases hn.symm.trans h
    exact (if_neg hne).trans hn
  | halt m cause result =>
    have hne : n ≠ m := by
      rintro rfl
      exact hu ⟨cause, result, rfl⟩
    exact (if_neg hne).trans hn

/-- A cell that nobody asks for keeps its flag. -/
theorem foldl_after_eq {flags : Flags} {uses : List (Use D K)} {n : Nat} {taken : Bool}
    (h : AllHonest flags uses) (hn : flags n = some taken) (hno : ∀ u ∈ uses, ¬u.OfHalt n) :
    uses.foldl after flags n = some taken := by
  induction uses generalizing flags with
  | nil => exact hn
  | cons u uses ih =>
    have hu := after_eq h.1 hn (hno u (List.mem_cons_self ..))
    exact ih h.2 hu fun u' hu' => hno u' (List.mem_cons_of_mem _ hu')

/-- Once somebody has asked for a cell it is taken. -/
theorem foldl_after_taken {flags : Flags} {uses : List (Use D K)} {n : Nat} {taken : Bool}
    (h : AllHonest flags uses) (hn : flags n = some taken)
    (hasked : taken = true ∨ ∃ u ∈ uses, u.OfHalt n) :
    uses.foldl after flags n = some true := by
  induction uses generalizing flags taken with
  | nil =>
    obtain rfl | ⟨u, hu, -⟩ := hasked
    · exact hn
    · cases hu
  | cons u uses ih =>
    by_cases hhalt : u.OfHalt n
    · obtain ⟨cause, result, rfl⟩ := hhalt
      have hthere : (flags n).map (fun _ => true) = some true := by rw [hn, Option.map_some]
      have htaken : (halt n cause result).after flags n = some true := (if_pos rfl).trans hthere
      exact ih h.2 htaken (.inl rfl)
    · refine ih h.2 (after_eq h.1 hn hhalt) ?_
      obtain htaken | ⟨u', hu', hasked⟩ := hasked
      · exact .inl htaken
      · rcases List.mem_cons.mp hu' with rfl | hu'
        · exact absurd hasked hhalt
        · exact .inr ⟨u', hu', hasked⟩

/-- While its cell has not been asked for the node of a cause ends in the cause, and afterwards it
    does not. -/
theorem AllHonest.halt_result {flags : Flags} {since later : List (Use D K)} {n : Nat}
    {cause result : Cause (Value D K)}
    (h : AllHonest flags (since ++ .halt n cause result :: later)) (hn : flags n = some false) :
    ((∀ u ∈ since, ¬u.OfHalt n) → result = cause) ∧
      ((∃ u ∈ since, u.OfHalt n) → result = .ofFault .alreadyConsumed) := by
  have hresult : result = if since.foldl after flags n = some false then cause
      else .ofFault .alreadyConsumed := h.at
  have hsince := (allHonest_append.mp h).1
  constructor
  · intro hno
    rw [hresult, if_pos (foldl_after_eq hsince hn hno)]
  · intro hasked
    have htaken := foldl_after_taken hsince hn (.inr hasked)
    rw [hresult, htaken, if_neg (by decide)]

theorem taken?_eq_some_iff {u : Use D K} {c : Nat} : u.taken? = some c ↔ u = .cell c true := by
  cases u with
  | made n | halt n cause result => exact ⟨nofun, nofun⟩
  | cell d there =>
    cases there with
    | true => simp only [taken?, Option.some.injEq, cell.injEq, and_true]
    | false => exact ⟨nofun, nofun⟩

/-- The cells taken are those that were asked for and found. -/
theorem mem_taken_iff {uses : List (Use D K)} {c : Nat} :
    c ∈ uses.filterMap taken? ↔ .cell c true ∈ uses := by
  rw [List.mem_filterMap]
  constructor
  · rintro ⟨u, hu, hc⟩
    rw [taken?_eq_some_iff] at hc
    exact hc ▸ hu
  · exact fun h => ⟨_, h, rfl⟩

end Use

namespace World

/-- The flags of the cells that closures have asked for. -/
def flags (w : World σ) : Use.Flags := fun n => w.halts[n]?

/-- The cells that closures have asked for are as they were, and so are those of the library that
    were taken. -/
structure Still (w w' : World σ) : Prop where
  halts : w'.halts = w.halts
  cells (c : Nat) : w'.cells[c]? = some true ↔ w.cells[c]? = some true

protected theorem Still.refl (w : World σ) : w.Still w := ⟨rfl, fun _ => Iff.rfl⟩

protected theorem Still.trans {w w₁ w' : World σ} (h : w.Still w₁) (h' : w₁.Still w') :
    w.Still w' := ⟨h'.halts.trans h.halts, fun c => (h'.cells c).trans (h.cells c)⟩

theorem Still.report (w : World σ) (e : Event) : w.Still (w.report e) :=
  ⟨rfl, fun _ => Iff.rfl⟩

end World

namespace Use

/-- What the record says about the world at the end: what has been taken by then was taken before,
    or on the way. -/
structure Settles (w : World σ) (uses : List (Use D K)) (w' : World σ) : Prop where
  flags : w'.flags = uses.foldl after w.flags
  cells (c : Nat) :
    w'.cells[c]? = some true ↔ w.cells[c]? = some true ∨ .cell c true ∈ uses

/-- The record of what happens between a world and the one at the end, if it comes to an end. -/
structure Accounts (w : World σ) (uses : List (Use D K)) (end? : Option (World σ)) : Prop where
  honest : AllHonest w.flags uses
  before (c : Nat) (hc : .cell c true ∈ uses) : w.cells[c]? ≠ some true
  nodup : (uses.filterMap taken?).Nodup
  ends (w' : World σ) (hend : end? = some w') : Settles w uses w'

namespace Accounts

variable {w w₁ : World σ} {uses later : List (Use D K)} {end? end?' : Option (World σ)}

/-- Nothing happens. -/
protected theorem nil (h : w.Still w₁) : Accounts w ([] : List (Use D K)) (some w₁) where
  honest := trivial
  before _ hc := nomatch hc
  nodup := List.nodup_nil
  ends w' hend := by
    cases hend
    refine ⟨?_, fun c => ?_⟩
    · show (fun n => w₁.halts[n]?) = fun n => w.halts[n]?
      rw [h.halts]
    · rw [h.cells]
      exact ⟨.inl, fun hc => hc.elim id fun hc => nomatch hc⟩

/-- What was found may be said of a part as well. -/
theorem stop (h : Accounts w uses end?) : Accounts w uses none :=
  ⟨h.honest, h.before, h.nodup, fun _ hend => nomatch hend⟩

/-- One thing after another. -/
theorem append (h : Accounts w uses (some w₁)) (h' : Accounts w₁ later end?) :
    Accounts w (uses ++ later) end? := by
  obtain ⟨hflags, hcells⟩ := h.ends w₁ rfl
  refine ⟨?_, fun c hc hbefore => ?_, ?_, fun w' hend => ?_⟩
  · rw [allHonest_append, ← hflags]
    exact ⟨h.honest, h'.honest⟩
  · rcases List.mem_append.mp hc with hc | hc
    · exact h.before c hc hbefore
    · exact h'.before c hc ((hcells c).mpr (.inl hbefore))
  · rw [List.filterMap_append]
    refine List.nodup_append.mpr ⟨h.nodup, h'.nodup, ?_⟩
    -- what is taken in the first part is taken in between, and so not taken in the second
    rintro c hc d hd rfl
    have htaken : w₁.cells[c]? = some true := (hcells c).mpr (.inr (mem_taken_iff.mp hc))
    exact h'.before c (mem_taken_iff.mp hd) htaken
  · obtain ⟨hflags', hcells'⟩ := h'.ends w' hend
    refine ⟨?_, fun c => ?_⟩
    · rw [List.foldl_append, ← hflags, hflags']
    · rw [hcells', hcells, List.mem_append, or_assoc]

/-- What comes before and leaves all cells still needs no account. -/
theorem of_still (h : w.Still w₁) (h' : Accounts w₁ uses end?) : Accounts w uses end? :=
  (Accounts.nil h).append h'

/-- A new cell is made for a closure. -/
protected theorem made (w : World σ) :
    Accounts w ([.made w.halts.size] : List (Use D K))
      (some { w with halts := w.halts.push false }) where
  honest := ⟨Array.getElem?_eq_none (Nat.le_refl _), trivial⟩
  before c hc := by cases List.mem_singleton.mp hc
  nodup := List.nodup_nil
  ends w' hend := by
    cases hend
    refine ⟨?_, fun c => ⟨.inl, fun hc => hc.elim id fun hc => nomatch List.mem_singleton.mp hc⟩⟩
    funext i
    show (w.halts.push false)[i]? = if i = w.halts.size then some false else w.halts[i]?
    exact Array.getElem?_push

/-- The node of a cause is evaluated. -/
protected theorem halt {n : Nat} {cause result : Cause (Value D K)}
    (hresult : result = if (takeCell n w.halts).1 then cause else .ofFault .alreadyConsumed) :
    Accounts w [.halt n cause result] (some { w with halts := (takeCell n w.halts).2 }) where
  honest := by
    refine ⟨?_, trivial⟩
    show result = if w.halts[n]? = some false then cause else .ofFault .alreadyConsumed
    simp only [hresult, takeCell_fst]
  before c hc := by cases List.mem_singleton.mp hc
  nodup := List.nodup_nil
  ends w' hend := by
    cases hend
    refine ⟨?_, fun c => ⟨.inl, fun hc => hc.elim id fun hc => nomatch List.mem_singleton.mp hc⟩⟩
    funext i
    exact takeCell_snd n i w.halts

/-- A node or a continuation with a cell of the library is evaluated. -/
protected theorem cell (w : World σ) (c : Nat) :
    Accounts w ([.cell c (takeCell c w.cells).1] : List (Use D K))
      (some { w with cells := (takeCell c w.cells).2 }) := by
  have hmem : ∀ d, (.cell d true : Use D K) ∈ [.cell c (takeCell c w.cells).1] ↔
      d = c ∧ w.cells[c]? = some false := by
    intro d
    rw [List.mem_singleton, Use.cell.injEq, ← takeCell_fst]
    exact and_congr_right fun _ => eq_comm
  refine ⟨⟨trivial, trivial⟩, fun d hd htaken => ?_, ?_, fun w' hend => ?_⟩
  · obtain ⟨rfl, hthere⟩ := (hmem d).mp hd
    cases htaken.symm.trans hthere
  · cases (takeCell c w.cells).1 with
    | true => exact List.nodup_cons.mpr ⟨List.not_mem_nil, List.nodup_nil⟩
    | false => exact List.nodup_nil
  · cases hend
    refine ⟨rfl, fun d => ?_⟩
    show (takeCell c w.cells).2[d]? = some true ↔ _
    rw [takeCell_snd, hmem]
    by_cases hd : d = c
    · subst hd
      rcases w.cells[d]? with _ | _ | _ <;> simp
    · simp only [hd, if_false, false_and, or_false]

protected theorem ofCell (c? : Option Nat) (w : World σ) :
    Accounts w (Use.ofCell c? w : List (Use D K)) (some (w.asked c?)) := by
  cases c? with
  | none => exact .nil (.refl w)
  | some c => exact .cell w c

end Accounts

end Use

end EffectMachine
