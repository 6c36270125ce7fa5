/-
  Outcomes: a result that is either a failure or a success.

  An `Outcome ε α` is what a computation is seen to have ended in once its failure is no longer in
  the way of what follows: a `failure` holding an error of type `ε`, or a `success` holding a value
  of type `α`.  The failure type stands first, because the operations that compose (`map`, `bind`,
  `flatten`) leave it alone.

  Operations that call a function are given in an arbitrary monad `m`, under a name that ends in
  `M`: a function that logs, counts or raises is then run at most once, exactly when the case it
  belongs to is the one at hand.  In `Id` they are the ordinary ones, and `map`, `mapFailure` and
  `bind` are those under their short names.

  Outcomes over ordered types are ordered with every failure below every success.
-/

namespace EffectMachine

/-- A failure with its error, or a success with its value. -/
inductive Outcome (ε α : Type) where
  | failure (error : ε)
  | success (value : α)
deriving BEq, DecidableEq

namespace Outcome

variable {ε ε' α β γ P : Type} {m : Type → Type}

/-! ## Observing -/

def isSuccess : Outcome ε α → Bool
  | failure _ => false
  | success _ => true

def isFailure : Outcome ε α → Bool
  | failure _ => true
  | success _ => false

/-- The value of a success. -/
def success? : Outcome ε α → Option α
  | failure _ => none
  | success a => some a

/-- The error of a failure. -/
def failure? : Outcome ε α → Option ε
  | failure e => some e
  | success _ => none

/-- Calls exactly one of the two functions, on what the outcome holds. -/
def foldM (onFailure : ε → m γ) (onSuccess : α → m γ) : Outcome ε α → m γ
  | failure e => onFailure e
  | success a => onSuccess a

/-- Forgets which case it was, when both hold the same type. -/
def toUnion : Outcome α α → α
  | failure a => a
  | success a => a

/-! ## Transforming -/

def map (f : α → β) : Outcome ε α → Outcome ε β
  | failure e => failure e
  | success a => success (f a)

def mapFailure (f : ε → ε') : Outcome ε α → Outcome ε' α
  | failure e => failure (f e)
  | success a => success a

def bind (o : Outcome ε α) (f : α → Outcome ε β) : Outcome ε β :=
  match o with
  | failure e => failure e
  | success a => f a

/-- Exchanges the two cases. -/
def swap : Outcome ε α → Outcome α ε
  | failure e => success e
  | success a => failure a

/-- An outcome inside a success takes the place of the whole. -/
def flatten (o : Outcome ε (Outcome ε α)) : Outcome ε α := o.bind id

def toExcept : Outcome ε α → Except ε α
  | failure e => .error e
  | success a => .ok a

def ofExcept : Except ε α → Outcome ε α
  | .error e => failure e
  | .ok a => success a

/-! ## Transforming with functions that act -/

def mapM [Monad m] (f : α → m β) : Outcome ε α → m (Outcome ε β)
  | failure e => pure (failure e)
  | success a => success <$> f a

def mapFailureM [Monad m] (f : ε → m ε') : Outcome ε α → m (Outcome ε' α)
  | failure e => failure <$> f e
  | success a => pure (success a)

def bindM [Monad m] (f : α → m (Outcome ε β)) : Outcome ε α → m (Outcome ε β)
  | failure e => pure (failure e)
  | success a => f a

/-- Keeps a success that passes the test and turns any other into the failure made from it. -/
def requireM [Monad m] (passes : α → m Bool) (error : α → m ε) : Outcome ε α → m (Outcome ε α)
  | failure e => pure (failure e)
  | success a => do
    if ← passes a then return success a
    return failure (← error a)

/-- Keeps a success that passes the test and raises the payload made from any other. -/
def assertM [Monad m] [MonadExcept P m] (passes : α → m Bool) (payload : α → m P) :
    Outcome ε α → m (Outcome ε α)
  | failure e => pure (failure e)
  | success a => do
    if ← passes a then return success a
    throw (← payload a)

/-- Shows the outcome to `look` and keeps it as it is. -/
def tapM [Monad m] (look : Outcome ε α → m Unit) (o : Outcome ε α) : m (Outcome ε α) := do
  look o
  return o

/-! ## Order

  Every failure stands below every success; within a case the payloads decide. -/

instance [Ord ε] [Ord α] : Ord (Outcome ε α) where
  compare
    | failure a, failure b => compare a b
    | failure _, success _ => .lt
    | success _, failure _ => .gt
    | success a, success b => compare a b

/-- The larger of two outcomes, the second when they are equal. -/
def max [Ord ε] [Ord α] (a b : Outcome ε α) : Outcome ε α :=
  if compare a b = .gt then a else b

/-! ## Laws -/

@[simp] theorem swap_swap (o : Outcome ε α) : o.swap.swap = o := by cases o <;> rfl

@[simp] theorem ofExcept_toExcept (o : Outcome ε α) : ofExcept o.toExcept = o := by cases o <;> rfl

@[simp] theorem toExcept_ofExcept (r : Except ε α) : (ofExcept r).toExcept = r := by
  cases r <;> rfl

theorem bind_assoc (o : Outcome ε α) (f : α → Outcome ε β) (g : β → Outcome ε γ) :
    (o.bind f).bind g = o.bind fun a => (f a).bind g := by cases o <;> rfl

theorem isFailure_eq_not_isSuccess (o : Outcome ε α) : o.isFailure = !o.isSuccess := by
  cases o <;> rfl

example : compare (failure 9 : Outcome Nat Nat) (success 1) = .lt := by decide
example : (success (failure 2) : Outcome Nat (Outcome Nat Nat)).flatten = failure 2 := by decide

end Outcome

end EffectMachine
