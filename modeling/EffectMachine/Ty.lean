/-
  Runtime types.

  Values in flight have lost their static type; what is left of it is a runtime type, a piece of
  data that two values can be compared by.  `named` is the open end of the family: every user type
  is known by a name, and two names are two types, however alike their contents.  The other types
  are those the library itself makes values of.

  Tuple types are built like lists, from the empty tuple, which is the unit type, and one more
  component in front.
-/

namespace EffectMachine

/-- The type of a value as far as it can be asked for while a program runs. -/
inductive Ty where
  /-- A user type, known by its name. -/
  | named (name : String)
  /-- Text that was made while running. -/
  | text
  /-- Text that was fixed when the program was written. -/
  | literal
  /-- The empty tuple. -/
  | unit
  /-- A tuple with one more component in front. -/
  | cons (head tail : Ty)
  | outcome (error value : Ty)
  /-- Effects reading `env`, failing with `error` and producing `value`. -/
  | effect (env error value : Ty)
  /-- The positional and named arguments of a call. -/
  | arguments (positional : Ty)
  /-- A complaint of the machine itself. -/
  | fault
  /-- A value no type case has matched so far. -/
  | unmatched
  /-- A failure nobody handled, made into a payload. -/
  | unhandled (error : Ty)
  /-- A value whose type was erased on purpose. -/
  | erased
deriving DecidableEq

namespace Ty

/-- The type of tuples with these components. -/
def tuple : List Ty → Ty
  | [] => unit
  | t :: ts => cons t (tuple ts)

/-- How many components a tuple type has. -/
def arity : Ty → Nat
  | cons _ tail => tail.arity + 1
  | _ => 0

/-- The name a type is shown by.  User types are shown by their own name, and the library's by one
    word, to which the type of a call's arguments adds how many there are. -/
def name : Ty → String
  | named n => n
  | text => "str"
  | literal => "static"
  | unit => "unit"
  | cons _ _ => "tuple"
  | outcome _ _ => "outcome"
  | effect _ _ _ => "effect"
  | arguments positional => "args" ++ toString positional.arity
  | fault => "runtime_error"
  | unmatched => "type_match"
  | unhandled _ => "unhandled"
  | erased => "erased"

@[simp] theorem arity_tuple (ts : List Ty) : (tuple ts).arity = ts.length := by
  induction ts with
  | nil => rfl
  | cons t ts ih => simp [tuple, arity, ih]

theorem tuple_injective {ts us : List Ty} (h : tuple ts = tuple us) : ts = us := by
  induction ts generalizing us with
  | nil => cases us with
    | nil => rfl
    | cons u us => simp [tuple] at h
  | cons t ts ih => cases us with
    | nil => simp [tuple] at h
    | cons u us =>
      simp only [tuple, cons.injEq] at h
      rw [h.1, ih h.2]

example : (arguments (tuple [text, unit])).name = "args2" := by decide +kernel
example : named "unit" ≠ unit := by decide

end Ty

end EffectMachine
