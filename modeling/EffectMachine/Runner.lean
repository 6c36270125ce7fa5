/-
  Runners: what is kept from one run to the next.

  A runner owns the stack of bound environments and remembers how many steps its last run took.
  Its settings say how its spans are labelled and how much room to set aside: for environments when
  the runner is made, and for frames at the start of every run.  Where that much room cannot be
  addressed a literal is raised that says so; apart from this the settings have no part in what a
  run results in.
-/
import EffectMachine.Value

namespace EffectMachine

/-- How a runner is set up. -/
structure Settings where
  /-- The label of its spans. -/
  label : String := "eddy"
  /-- The room set aside for pending frames. -/
  frameCapacity : Nat := 32
  /-- The room set aside for bound environments. -/
  environmentCapacity : Nat := 4
deriving DecidableEq

/-- The most bytes that can be set aside at once: half of what 64 bits address. -/
def roomLimit : Nat := 0x7fffffffffffffff

/-- Whether the room for frames can be set aside.  A frame takes a tag and four addresses. -/
def Settings.framesFit (s : Settings) : Bool := s.frameCapacity * 40 ≤ roomLimit

/-- Whether the room for environments can be set aside.  A value takes two addresses. -/
def Settings.environmentsFit (s : Settings) : Bool := s.environmentCapacity * 16 ≤ roomLimit

example : ({} : Settings).framesFit = true ∧ ({} : Settings).environmentsFit = true := by decide

/-- The description of the settings. -/
def Settings.debug (s : Settings) : String :=
  Text.record "RuntimeConfig"
    [Text.field "label" (Text.debug s.label),
     Text.field "frame_capacity" (toString s.frameCapacity),
     Text.field "environment_capacity" (toString s.environmentCapacity)]

/-- What runs effects, one after another. -/
structure Runner (D K : Type) where
  settings : Settings
  /-- The bound environments, the innermost one last. -/
  environments : Array (Value D K)
  /-- The steps of the last run that returned. -/
  lastSteps : Nat

namespace Runner

variable {D K : Type}

/-- What is raised where the room that the settings ask for cannot be set aside. -/
def overflow : Value D K := .literal "capacity overflow"

/-- A runner that has run nothing so far, if there is room for its environments. -/
def ofSettings (s : Settings) : Except (Value D K) (Runner D K) :=
  if s.environmentsFit then .ok ⟨s, #[], 0⟩ else .error overflow

/-- A runner with the default settings. -/
def fresh : Runner D K := ⟨{}, #[], 0⟩

theorem ofSettings_default : ofSettings {} = .ok (fresh : Runner D K) := rfl

/-- The description of a runner, which counts its environments. -/
def debug (r : Runner D K) : String :=
  Text.record "Runtime"
    [Text.field "config" r.settings.debug,
     Text.field "bound_environments" (toString r.environments.size),
     Text.field "last_steps" (toString r.lastSteps)]

end Runner

end EffectMachine
