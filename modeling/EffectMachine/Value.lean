/-
  Values and their runtime types.

  `Value.type` reads the type off a value, and a *cast* to a type gives the value back if it is of
  exactly that type, and nothing otherwise.  Two contents that look alike are told apart by their
  types alone: a text is not a literal, and a user type is none of another name.

  The payload of a defect is a value like any other; so the questions one asks of a defect (what
  type it is of, whether it carries a message) are questions about a value.
-/
import EffectMachine.Node

namespace EffectMachine

variable {D K : Type}

namespace Value

mutual

/-- The runtime type of a value. -/
def type : Value D K → Ty
  | plain t _ => .named t
  | text _ => .text
  | literal _ => .literal
  | tuple items => types items
  | outcome e a _ => .outcome e a
  | effect r e a _ => .effect r e a
  | arguments positional _ => .arguments positional.type
  | fault _ => .fault
  | unmatched _ => .unmatched
  | unhandled e => .unhandled e.type
  | erased _ => .erased

/-- The type of the tuple of these values. -/
def types : List (Value D K) → Ty
  | [] => .unit
  | v :: vs => .cons v.type (types vs)

end

/-- The value, if it is of exactly this type. -/
def cast? (t : Ty) (v : Value D K) : Option (Value D K) :=
  if v.type = t then some v else none

/-- The text a payload carries as a message: only texts and literals have one. -/
def message? : Value D K → Option String
  | text s => some s
  | literal s => some s
  | _ => none

/-- The unit value, which is the empty tuple. -/
def unit : Value D K := tuple []

/-- Two values in a pair. -/
def pair (a b : Value D K) : Value D K := tuple [a, b]

/-- The values a tuple is made of; any other value stands for itself. -/
def components : Value D K → List (Value D K)
  | tuple items => items
  | v => [v]

theorem types_eq_tuple (vs : List (Value D K)) : types vs = Ty.tuple (vs.map type) := by
  induction vs with
  | nil => rfl
  | cons v vs ih => simp [types, Ty.tuple, ih]

theorem cast?_eq_some_iff {t : Ty} {v w : Value D K} : v.cast? t = some w ↔ v.type = t ∧ v = w := by
  simp only [cast?]; split <;> simp_all

theorem cast?_eq_none_iff {t : Ty} {v : Value D K} : v.cast? t = none ↔ v.type ≠ t := by
  simp only [cast?]; split <;> simp_all

@[simp] theorem cast?_type (v : Value D K) : v.cast? v.type = some v := by simp [cast?]

end Value

/-! ## Defects with a value as payload -/

namespace Defect

/-- The defect of a typed value, which keeps the name of its type. -/
def ofValue (v : Value D K) : Defect (Value D K) := ⟨v, some v.type.name⟩

/-- The message a defect carries, if its payload is a text. -/
def message? (d : Defect (Value D K)) : Option String := d.payload.message?

/-- The sentence that shows a defect: its message, or else its type's name, or else neither. -/
def display (d : Defect (Value D K)) : String :=
  match d.message?, d.typeName with
  | some m, _ => "defect: " ++ m
  | none, some t => "defect: value of type " ++ t
  | none, none => "defect: opaque panic payload"

/-- The description of a defect. -/
def debug (d : Defect (Value D K)) : String :=
  Text.record "Defect"
    [Text.field "type_name" (Text.debug (d.typeName.getD "<erased>")),
     Text.field "message" (match d.message? with
      | some m => Text.wrapped "Some" (Text.debug m)
      | none => "None")]

/-- The payload, if it is of exactly this type. -/
def cast? (t : Ty) (d : Defect (Value D K)) : Option (Value D K) := d.payload.cast? t

end Defect

namespace Cause

/-- To die with a typed value as payload. -/
def dieWith (v : Value D K) : Cause (Value D K) := die (Defect.ofValue v)

/-- To die of a fault. -/
def ofFault (f : Fault) : Cause (Value D K) := dieWith (.fault f)

/-- A cause whose typed error, if it has one, is of this type; otherwise it dies of that. -/
def typed (error : Ty) : Cause (Value D K) → Cause (Value D K)
  | fail e => match e.cast? error with
    | some e => fail e
    | none => ofFault (.valueMismatch error.name)
  | die d => die d

/-- The description of a cause, given the one of an error. -/
def debug (describe : Value D K → String) : Cause (Value D K) → String
  | fail e => Text.wrapped "Fail" (describe e)
  | die d => Text.wrapped "Die" d.debug

end Cause

/-! ## Values no type case has matched -/

namespace Unmatched

/-- Parks a value.  A value whose type was erased is parked as what it is underneath, by one level,
    and its type goes by no name. -/
def ofValue : Value D K → Unmatched (Value D K)
  | .erased v => ⟨"<erased>", v⟩
  | v => ⟨v.type.name, v⟩

/-- The parked value, if it is of exactly this type. -/
def take? (t : Ty) (u : Unmatched (Value D K)) : Option (Value D K) := u.value.cast? t

/-- The sentence that shows a parked value. -/
def display (u : Unmatched (Value D K)) : String :=
  "no type case matched a value of type " ++ u.typeName

/-- The description of a parked value, which keeps the value to itself. -/
def debug (u : Unmatched (Value D K)) : String :=
  Text.openRecord "TypeMatchError" [Text.field "type_name" (Text.debug u.typeName)]

end Unmatched

/-! ## Failures nobody handled -/

namespace Unhandled

/-- The sentence that shows an unhandled failure, given the description of its error. -/
def display (error : String) : String := "unhandled failure: " ++ error

/-- The description of an unhandled failure, given the one of its error. -/
def debug (error : String) : String := Text.record "UnhandledFailure" [Text.field "error" error]

end Unhandled

/-! ## Outcomes out of a value of one of two types -/

/-- A value of one of two types as an outcome: the failure type is tried first, and a value of
    neither type is given back. -/
def Outcome.ofUnion (error value : Ty) (v : Value D K) :
    Except (Value D K) (Outcome (Value D K) (Value D K)) :=
  if v.type = error then .ok (.failure v)
  else if v.type = value then .ok (.success v)
  else .error v

end EffectMachine
