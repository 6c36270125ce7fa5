/-
  Plays: what the library does between two nodes.

  A `Play` is a step of the library itself.  It plays the acts of closures, and beyond that it uses
  cells of the library's own and reports to the trace, neither of which an act can do.  Like an
  act it ends in a value returned or in one raised, or, if a run or a call in it comes to no end,
  in nothing.

  A cell that was made for a single evaluation is taken by the first one that asks for it.  Whoever
  asks later is told so, and so is one who asks for a cell that was never made.
-/
import EffectMachine.Act

namespace EffectMachine

/-- A step of the library that returns an `α`. -/
def Play (D K σ α : Type) : Type :=
  Callees D K σ → World σ → Option (Raised D K α × World σ)

/-- Takes one of an array of cells: whether it was still there, and the cells afterwards. -/
def takeCell (c : Nat) (cells : Array Bool) : Bool × Array Bool :=
  -- in either case the array that was given comes back, so that it is changed in place
  match cells[c]? with
  | some false => (true, cells.setIfInBounds c true)
  | _ => (false, cells)

namespace Play

variable {D K σ α β γ : Type}

protected def bind (x : Play D K σ α) (f : α → Play D K σ β) : Play D K σ β :=
  fun callees w =>
    match x callees w with
    | some (.ok a, w) => f a callees w
    | some (.error p, w) => some (.error p, w)
    | none => none

instance : Monad (Play D K σ) where
  pure a := fun _ w => some (.ok a, w)
  bind := Play.bind

instance : LawfulMonad (Play D K σ) :=
  LawfulMonad.mk' _
    (fun x => by
      funext callees w
      change Play.bind x _ callees w = x callees w
      simp only [Play.bind]
      cases x callees w with
      | none => rfl
      | some r =>
        obtain ⟨r, w⟩ := r
        cases r with
        | ok a => rfl
        | error p => rfl)
    (fun _ _ => rfl)
    (fun x f g => by
      funext callees w
      change Play.bind (Play.bind x f) g callees w = Play.bind x _ callees w
      simp only [Play.bind]
      cases x callees w with
      | none => rfl
      | some r =>
        obtain ⟨r, w⟩ := r
        cases r with
        | ok a => rfl
        | error p => rfl)

/-- Plays an act. -/
def act (a : Act D K σ α) : Play D K σ α := fun callees w => a.exec callees w

/-- Plays an act, and returns what it raises. -/
def attempt (a : Act D K σ α) : Play D K σ (Raised D K α) := fun callees w =>
  match a.exec callees w with
  | some (r, w) => some (.ok r, w)
  | none => none

/-- Puts an event on the trace. -/
def report (e : Event) : Play D K σ Unit := fun _ w => some (.ok (), w.report e)

/-- A new cell of the library. -/
def cell : Play D K σ Nat := fun _ ⟨s, halts, cells, trace⟩ =>
  let c := cells.size
  some (.ok c, ⟨s, halts, cells.push false, trace⟩)

/-- Whether a cell of the library was still there to be taken. -/
def take (c : Nat) : Play D K σ Bool := fun _ ⟨s, halts, cells, trace⟩ =>
  let (there, cells) := takeCell c cells
  some (.ok there, ⟨s, halts, cells, trace⟩)

/-- Whether a cell that an act asked for was still there to be taken. -/
def takeHalt (c : Nat) : Play D K σ Bool := fun _ ⟨s, halts, cells, trace⟩ =>
  let (there, halts) := takeCell c halts
  some (.ok there, ⟨s, halts, cells, trace⟩)

/-! ## What plays come to -/

theorem pure_apply (a : α) (callees : Callees D K σ) (w : World σ) :
    (pure a : Play D K σ α) callees w = some (.ok a, w) := rfl

/-- A sequence of two plays is played one after the other, unless the first one raises. -/
theorem bind_apply (x : Play D K σ α) (f : α → Play D K σ β) (callees : Callees D K σ)
    (w : World σ) :
    (x >>= f) callees w =
      match x callees w with
      | some (.ok a, w) => f a callees w
      | some (.error p, w) => some (.error p, w)
      | none => none := rfl

@[simp] theorem act_pure (a : α) : act (pure a : Act D K σ α) = pure a := rfl

/-- Acts in sequence are plays in sequence. -/
@[simp] theorem act_bind (a : Act D K σ α) (f : α → Act D K σ β) :
    act (a >>= f) = act a >>= fun x => act (f x) := by
  funext callees w
  rw [bind_apply]
  exact Act.exec_bind callees a f w

@[simp] theorem act_map (f : α → β) (a : Act D K σ α) : act (f <$> a) = f <$> act a := by
  rw [map_eq_pure_bind, map_eq_pure_bind, act_bind]
  rfl

/-- To attempt an act is to play it with what it raises captured, as payloads. -/
theorem attempt_eq_act_capture (a : Act D K σ α) :
    attempt a = (fun r => r.mapError Defect.payload) <$> act a.capture := by
  funext callees w
  rw [map_eq_pure_bind, bind_apply]
  simp only [act, attempt, Act.exec_capture]
  cases a.exec callees w with
  | none => rfl
  | some r => obtain ⟨r, w⟩ := r; cases r <;> rfl

end Play

/-! ## Cells -/

/-- Once a cell has been asked for it cannot be taken any more. -/
theorem takeCell_takeCell (c : Nat) (cells : Array Bool) :
    (takeCell c (takeCell c cells).2).1 = false := by
  by_cases h : cells[c]? = some false
  · have hlt := (Array.getElem?_eq_some_iff.1 h).1
    simp only [takeCell, h, Array.getElem?_setIfInBounds_self_of_lt hlt]
  · have keep : takeCell c cells = (false, cells) := by
      unfold takeCell
      split
      · contradiction
      · rfl
    rw [keep, keep]

/-- A cell just made can be taken. -/
theorem takeCell_push (cells : Array Bool) :
    takeCell cells.size (cells.push false) = (true, cells.push true) := by
  simp [takeCell, Array.setIfInBounds]
  grind

/-- A cell is there to be taken if its flag says so. -/
theorem takeCell_fst (c : Nat) (cells : Array Bool) :
    (takeCell c cells).1 = true ↔ cells[c]? = some false := by
  unfold takeCell
  split
  · rename_i hthere
    exact ⟨fun _ => hthere, fun _ => rfl⟩
  · rename_i hgone
    exact ⟨nofun, fun hthere => absurd hthere hgone⟩

/-- A cell that has been asked for is taken, if there is such a cell, and the others are as they
    were. -/
theorem takeCell_snd (c i : Nat) (cells : Array Bool) :
    (takeCell c cells).2[i]? = if i = c then cells[c]?.map fun _ => true else cells[i]? := by
  by_cases hi : i = c
  · subst hi
    rw [if_pos rfl]
    unfold takeCell
    cases h : cells[i]? with
    | none => exact h
    | some taken =>
      have hlt := (Array.getElem?_eq_some_iff.mp h).1
      cases taken with
      | true => exact h
      | false => exact Array.getElem?_setIfInBounds_self_of_lt hlt
  · rw [if_neg hi]
    unfold takeCell
    split
    · exact Array.getElem?_setIfInBounds_ne (Ne.symm hi)
    · rfl

/-- What has been taken stays so when a cell is asked for. -/
theorem takeCell_taken (c : Nat) {d : Nat} {cells : Array Bool} (h : cells[d]? = some true) :
    (takeCell c cells).2[d]? = some true := by
  rw [takeCell_snd]
  split
  · rename_i hd
    rw [← hd, h]
    rfl
  · exact h

example : takeCell 1 #[false, false] = (true, #[false, true]) := by decide

end EffectMachine
