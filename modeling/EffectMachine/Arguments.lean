/-
  Named arguments.

  Besides its positional arguments a call may carry arguments under names.  They are kept as a list
  of entries in increasing order of the names, one entry a name, where text is ordered by its code
  points; an argument given again under a name takes the place of the earlier one, of whatever type
  either is.  To look an argument up one says what type it is expected to be of, and an argument of
  another type is not found.
-/
import EffectMachine.Value

namespace EffectMachine

/-- Arguments under names, in increasing order of the names. -/
abbrev NamedArguments (V : Type) : Type := List (String × V)

namespace NamedArguments

variable {V D K : Type}

/-- The names are in increasing order; in particular no two are the same. -/
def Ordered (entries : NamedArguments V) : Prop := entries.Pairwise fun a b => a.1 < b.1

/-- The entries with this argument among them, in the place of an earlier one of its name. -/
def insert (name : String) (v : V) : NamedArguments V → NamedArguments V
  | [] => [(name, v)]
  | (n, u) :: rest =>
    if name = n then (name, v) :: rest
    else if name < n then (name, v) :: (n, u) :: rest
    else (n, u) :: insert name v rest

/-- The arguments inserted one after the other. -/
def ofList (entries : List (String × V)) : NamedArguments V :=
  entries.foldl (fun named e => named.insert e.1 e.2) []

/-- The argument under a name, of whatever type. -/
def find? (name : String) : NamedArguments V → Option V
  | [] => none
  | (n, v) :: rest => if name = n then some v else find? name rest

def contains (name : String) (entries : NamedArguments V) : Bool := (entries.find? name).isSome

/-- Inserts the argument; the answer is whether it took the place of an earlier one. -/
def put (name : String) (v : V) : StateM (NamedArguments V) Bool := fun entries =>
  (entries.contains name, entries.insert name v)

/-- The names, in increasing order. -/
def names (entries : NamedArguments V) : List String := entries.map (·.1)

/-- The argument under a name, if it is of exactly this type. -/
def get? (t : Ty) (name : String) (entries : NamedArguments (Value D K)) : Option (Value D K) :=
  (entries.find? name).bind fun v => v.cast? t

/-- The description of named arguments, which shows their names. -/
def debug (entries : NamedArguments V) : String := Text.set (entries.names.map Text.debug)

/-! ## What an insertion changes -/

theorem find?_insert (name other : String) (v : V) (entries : NamedArguments V) :
    (entries.insert name v).find? other =
      if other = name then some v else entries.find? other := by
  induction entries with
  | nil => simp [insert, find?]
  | cons e rest ih =>
    obtain ⟨n, u⟩ := e
    by_cases h : name = n
    · subst h; simp [insert, find?]; split <;> rfl
    · by_cases hlt : name < n
      · simp [insert, h, hlt, find?]
      · simp only [insert, h, hlt, if_false, find?, ih]
        by_cases ho : other = n
        · subst ho; simp [Ne.symm h]
        · simp [ho]

theorem contains_insert (name other : String) (v : V) (entries : NamedArguments V) :
    (entries.insert name v).contains other = (decide (other = name) || entries.contains other) := by
  simp only [contains, find?_insert]; split <;> simp_all

end NamedArguments

/-- The call with this argument under a name, in the place of an earlier one of that name. -/
def Value.withNamed {D K : Type} (call : Value D K) (name : String) (v : Value D K) : Value D K :=
  match call with
  | .arguments positional named => .arguments positional (NamedArguments.insert name v named)
  | call => call

/-- The description of a call's arguments, given the one of the positional arguments. -/
def describeArguments {V : Type} (positional : String) (named : NamedArguments V) : String :=
  Text.record "FunctionArguments"
    [Text.field "args" positional, Text.field "named" named.debug]

end EffectMachine
