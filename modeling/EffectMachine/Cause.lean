/-
  Causes: why an effect produced no value.

  There are two tiers.  A `fail` is a typed failure, which recovery is for.  A `die` is a defect:
  something that was raised, a fault of the machine, a value no type case matched, or an error
  somebody chose to escalate.  Recovery sees failures only; `failureOrDefect` is the projection it
  goes through, and what comes out on the other side of it is raised again as it was.

  A defect carries a payload, and the name of the payload's type if it was made from a value whose
  type was known.  A defect made from something raised has no name to show.  All of this is over an
  arbitrary type `V` of payloads and errors.
-/

namespace EffectMachine

/-- Something that went wrong outside the typed channel. -/
structure Defect (V : Type) where
  payload : V
  /-- The name of the payload's type, where the defect was made from a typed value. -/
  typeName : Option String

/-- A typed failure, or a defect. -/
inductive Cause (V : Type) where
  | fail (error : V)
  | die (defect : Defect V)

namespace Defect

variable {V : Type}

/-- The defect of something that was raised: the payload alone. -/
def ofRaised (payload : V) : Defect V := ⟨payload, none⟩

end Defect

namespace Cause

variable {V : Type} {m : Type → Type}

def isFail : Cause V → Bool
  | fail _ => true
  | die _ => false

def isDie : Cause V → Bool
  | fail _ => false
  | die _ => true

/-- The typed error. -/
def failure? : Cause V → Option V
  | fail e => some e
  | die _ => none

def defect? : Cause V → Option (Defect V)
  | fail _ => none
  | die d => some d

/-- What a recovery handler may consume, or the defect it has to raise again. -/
def failureOrDefect : Cause V → Except (Defect V) V
  | fail e => .ok e
  | die d => .error d

/-- Acts on the typed error; a defect is carried over as it is. -/
def mapM [Monad m] (f : V → m V) : Cause V → m (Cause V)
  | fail e => fail <$> f e
  | die d => pure (die d)

theorem isDie_eq_not_isFail (c : Cause V) : c.isDie = !c.isFail := by cases c <;> rfl

@[simp] theorem mapM_die [Monad m] (f : V → m V) (d : Defect V) :
    (die d).mapM f = pure (die d) := rfl

end Cause

end EffectMachine
