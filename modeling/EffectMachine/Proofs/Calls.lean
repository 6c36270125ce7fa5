/-
  A record of the calls.

  What an evaluation did to its closures, which of them it called, on what and in what order, is not
  kept anywhere in a world.  `Language.noting` makes up for it: from a language it makes another in
  which every closure, when it is called, first notes the call in the shared state and then does
  what it did before, to its own part of the state.  Calls made by the library, calls that closures
  make of each other and calls in the runs that closures ask for are all noted, the latest first.

  To note the calls changes nothing else: a run in the language that notes them is a run in the
  original one as soon as the record is forgotten (`Runner.evaluate_noting`).  So whatever is found
  about calls in the one holds of the runs of the other.
-/
import EffectMachine.Proofs.Likeness

namespace EffectMachine

variable {D K σ α : Type}

/-- A call of a closure, by the role it is called in, and what it is called on. -/
inductive Call (D K : Type) where
  | value (f : K) (args : List (Value D K))
  | test (f : K) (v : Value D K)
  | outcome (f : K) (v : Value D K)
  | effect (f : K) (args : List (Value D K))
  | handler (f : K) (cause : Cause (Value D K))
  | cause (f : K)

/-- A state together with the calls so far, the latest first. -/
structure Noted (D K σ : Type) where
  state : σ
  calls : List (Call D K)

/-- The state in which calls are noted beside it. -/
def Noted.part : StatePart σ (Noted D K σ) := ⟨Noted.state, fun s n => { n with state := s }⟩

namespace Act

/-- The act on its own part of a state that calls are noted in. -/
def lift : Act D K σ α → Act D K (Noted D K σ) α
  | done a => done a
  | raise p => raise p
  | look k => look fun s => (k s.state).lift
  | write s k => look fun n => write { n with state := s } k.lift
  | newCell k => newCell fun c => (k c).lift
  | run r env node k => run r env node fun r' ending => (k r' ending).lift
  | build f args k => build f args fun node => (k node).lift

/-- The act after the call has been noted. -/
def noted (call : Call D K) (a : Act D K σ α) : Act D K (Noted D K σ) α :=
  look fun n => write { n with calls := call :: n.calls } a.lift

end Act

/-- The language in which every closure notes that it is called. -/
@[reducible]
def Language.noting (L : Language D K σ) : Language D K (Noted D K σ) where
  value f args := (L.value f args).noted (.value f args)
  test f v := (L.test f v).noted (.test f v)
  outcome f v := (L.outcome f v).noted (.outcome f v)
  effect f args := (L.effect f args).noted (.effect f args)
  handler f c := (L.handler f c).noted (.handler f c)
  cause f := (L.cause f).noted (.cause f)

namespace World

/-- The calls noted in a world, the latest first. -/
def calls (w : World (Noted D K σ)) : List (Call D K) := w.state.calls

/-- The world without the calls noted in it. -/
def forget (w : World (Noted D K σ)) : World σ := ⟨w.state.state, w.halts, w.cells, w.trace⟩

/-- The first world is the second one with calls noted in it. -/
def Notes (w : World (Noted D K σ)) (v : World σ) : Prop := w.forget = v

/-- The library has no access to what is noted. -/
theorem notes_kept : World.Kept (@Notes D K σ) where
  halts h := by subst h; rfl
  cells h := by subst h; rfl
  setHalts h _ := by subst h; rfl
  setCells h _ := by subst h; rfl
  report h _ := by subst h; rfl

theorem notes_keptAt : World.KeptAt (@Notes D K σ) Noted.part StatePart.whole where
  get h := by subst h; rfl
  set h _ := by subst h; rfl

end World

/-! ## Noting changes nothing -/

/-- What is noted leaves the act its own part of the state. -/
theorem Noted.places_lift :
    (Noted.part : StatePart σ (Noted D K σ)).Places (Act.lift : Act D K σ α → _) where
  done _ := rfl
  raise _ := rfl
  look _ _ _ := rfl
  write _ _ _ _ := rfl
  newCell _ := rfl
  run _ _ _ _ := rfl
  build _ _ _ := rfl

/-- An act does the same to its own part of the state as it does alone. -/
theorem Act.exec_lift {c : Callees D K (Noted D K σ)} {d : Callees D K σ}
    (hc : Callees.Alike World.Notes c d) (a : Act D K σ α) :
    Play.Alike World.Notes c d (.act a.lift) (.act a) :=
  Noted.places_lift.alike StatePart.places_whole World.notes_kept World.notes_keptAt hc a

/-- One more call in the record, and then the act on its own part of the state. -/
theorem Act.exec_noted {c : Callees D K (Noted D K σ)} {d : Callees D K σ}
    (hc : Callees.Alike World.Notes c d) (call : Call D K) (a : Act D K σ α) :
    Play.Alike World.Notes c d (.act (a.noted call)) (.act a) := by
  intro w v h
  subst h
  let noted : World (Noted D K σ) :=
    ⟨⟨w.state.state, call :: w.state.calls⟩, w.halts, w.cells, w.trace⟩
  exact Act.exec_lift hc a (show World.Notes noted w.forget from rfl)

/-- Every closure does, apart from the note, what it did before. -/
theorem Language.noting_alike (L : Language D K σ) : Language.Alike L.noting L World.Notes where
  value h _ _ := Act.exec_noted h _ _
  test h _ _ := Act.exec_noted h _ _
  outcome h _ _ := Act.exec_noted h _ _
  effect h _ _ := Act.exec_noted h _ _
  handler h _ _ := Act.exec_noted h _ _
  cause h _ := Act.exec_noted h _ _

/-- To note the calls changes nothing else about a run. -/
theorem Runner.evaluate_noting (L : Language D K σ) (depth fuel : Nat) (r : Runner D K)
    (node : Node D K) (w : World (Noted D K σ)) :
    (@Runner.evaluate D K _ L.noting (@Callees.ofFuel D K _ L.noting depth) fuel r node w).map
        (fun (ending, r', w') => (ending, r', w'.forget)) =
      r.evaluate (Callees.ofFuel depth) fuel node w.forget := by
  have h := Runner.evaluate_alike L.noting_alike World.notes_kept
    (Callees.ofFuel_alike L.noting_alike World.notes_kept depth) fuel r node
    (show World.Notes w w.forget from rfl)
  generalize @Runner.evaluate D K _ L.noting _ fuel r node w = p at h ⊢
  generalize r.evaluate (Callees.ofFuel depth) fuel node w.forget = q at h ⊢
  cases h with
  | endless => rfl
  | ended h' => subst h'; rfl

/-! ## A language to try things on -/

/-- A language of one closure, which greets whatever is asked of it, in each of its roles. -/
@[reducible]
def Language.greeting : Language Unit Unit Unit where
  value _ _ := pure (.text "hello")
  test _ _ := pure true
  outcome _ _ := pure (.success (.text "hello"))
  effect _ _ := pure (.succeed (.shared (.text "hello")))
  handler _ _ := pure (.succeed (.shared (.text "hello")))
  cause _ := pure (.fail (.text "hello"))

end EffectMachine
