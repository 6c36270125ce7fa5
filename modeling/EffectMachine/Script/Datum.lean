/-
  Data, and the closures of scripts.

  A `Datum` is what scripts compute with: one type for everything, as the contents of the dynamic
  type.  Each datum also has a type of its own, and can be handed over as a value of that
  type instead; `Form` lists the ways, and `Datum.as` follows them.  In the other direction
  `Datum.ofValue` reads any value as a datum, and forgets what type it was of.

  A script's closure is the body of a function together with the scope it was met in.  A scope
  binds names to data, to effects, or to the functions that `fixIn` defines.
-/
import EffectMachine.Node
import EffectMachine.Value
import EffectMachine.Script.Syntax

namespace EffectMachine.Script

mutual

/-- What scripts compute with. -/
inductive Datum where
  | unit
  | bool (b : Bool)
  | int (n : Int64)
  | str (s : String)
  | list (items : List Datum)
  | pair (fst snd : Datum)
  | outcome (o : Outcome Datum Datum)
  /-- Two labels, to tell apart two types with the same contents. -/
  | bippy (d : Datum)
  | notBippy (d : Datum)
  | fault (f : Fault)
  /-- A value no type case matched, and the name its type went by. -/
  | unmatched (typeName : String) (d : Datum)
  | effect (env : Ty) (node : Node Datum Closure)

/-- A body, and the scope it was met in. -/
inductive Closure where
  /-- A function of the parameters, whose result is handed over in this form. -/
  | function (params : List String) (body : Expr) (form : Form) (scope : List (String × Binding))
  /-- A function of a call: its positional arguments by number, its named ones by `named`. -/
  | callFunction (body : Expr) (scope : List (String × Binding))
  /-- The conversion of a value to this form. -/
  | convert (form : Form)
  /-- The conversion of the second component of a pair. -/
  | convertSecond (form : Form)
  /-- The effect that succeeds with the value as a datum. -/
  | succeeds
  /-- A function of the parameters to effects that read this type. -/
  | builder (params : List String) (env : Ty) (body : Recipe) (scope : List (String × Binding))
  /-- A handler of causes, for effects that read this type. -/
  | handler (x : String) (env : Ty) (onFail onDie : Option Recipe)
      (scope : List (String × Binding))
  /-- A producer of causes. -/
  | cause (c : CauseExpr) (scope : List (String × Binding))

/-- What a name can stand for. -/
inductive Binding where
  | datum (d : Datum)
  | effect (env : Ty) (node : Node Datum Closure)
  /-- A function from the datum `x` to effects, and the scope it was defined in. -/
  | function (x : String) (body : Recipe) (scope : List (String × Binding))

end

/-- The names a body can refer to, the innermost first. -/
abbrev Scope : Type := List (String × Binding)

/-- The values that flow between the nodes of a script's effects. -/
abbrev Flow : Type := Value Datum Closure

namespace Datum

/-! ## Equality

  Two data are equal if they are built alike, except that an effect equals nothing, not even
  itself. -/

mutual

def beq : Datum → Datum → Bool
  | unit, unit => true
  | bool a, bool b => a == b
  | int a, int b => a == b
  | str a, str b => a == b
  | list a, list b => beqAll a b
  | pair a b, pair c d => beq a c && beq b d
  | outcome (.success a), outcome (.success b) => beq a b
  | outcome (.failure a), outcome (.failure b) => beq a b
  | bippy a, bippy b => beq a b
  | notBippy a, notBippy b => beq a b
  | fault a, fault b => a == b
  | unmatched n a, unmatched m b => n == m && beq a b
  | _, _ => false

def beqAll : List Datum → List Datum → Bool
  | [], [] => true
  | a :: as, b :: bs => beq a b && beqAll as bs
  | _, _ => false

end

instance : BEq Datum := ⟨beq⟩

/-! ## Text -/

/-- A JSON object of one member. -/
def member (key content : String) : String := "\x7b" ++ Text.json key ++ ":" ++ content ++ "\x7d"

mutual

/-- The datum as JSON, with no blank in it. -/
def json : Datum → String
  | unit => "null"
  | bool b => toString b
  | int n => toString n.toInt
  | str s => Text.json s
  | list items => "[" ++ ",".intercalate (jsonAll items) ++ "]"
  | pair a b => member "pair" ("[" ++ json a ++ "," ++ json b ++ "]")
  | outcome (.success d) => member "success" (json d)
  | outcome (.failure d) => member "failure" (json d)
  | bippy d => member "bippy" (json d)
  | notBippy d => member "not_bippy" (json d)
  | fault f =>
    member "runtime_error"
      ("[" ++ ",".intercalate
        [Text.json f.kind, Text.json (f.expected?.getD ""), Text.json f.message] ++ "]")
  | unmatched n d => member "unmatched" ("[" ++ Text.json n ++ "," ++ json d ++ "]")
  | effect env _ => member "effect" (Text.json env.name)

def jsonAll : List Datum → List String
  | [] => []
  | d :: ds => json d :: jsonAll ds

end

/-- The datum shown: a text as it is, and any other datum as JSON. -/
def display : Datum → String
  | str s => s
  | d => d.json

/-- The description of a datum: a text in quotes, and any other datum as JSON. -/
def debug : Datum → String
  | str s => Text.debug s
  | d => d.json

/-! ## Readings of a datum -/

/-- The number a datum is counted as. -/
def number : Datum → Int64
  | int n => n
  | bool b => if b then 1 else 0
  | str s => Int64.ofNat s.length
  | list items => Int64.ofNat items.length
  | _ => 0

/-- The outcome a datum is: any datum but an outcome is a success. -/
def toOutcome : Datum → Outcome Datum Datum
  | outcome o => o
  | d => .success d

/-- The datum as a value of the dynamic type. -/
def dynamic (d : Datum) : Flow := .plain "dyn" d

/-- An outcome of data as one between two dynamic types. -/
def dynamicOutcome (o : Outcome Datum Datum) : Outcome Flow Flow :=
  (o.map dynamic).mapFailure dynamic

/-- The datum as a value of its own type. -/
def own : Datum → Flow
  | unit => .unit
  | d@(bool _) => .plain "bool" d
  | d@(int _) => .plain "int" d
  | str s => .text s
  | d@(list _) => .plain "list" d
  | d@(pair _ _) => .plain "pair" d
  | outcome o => .outcome .dynamic .dynamic (dynamicOutcome o)
  | d@(bippy _) => .plain "bippy" d
  | d@(notBippy _) => .plain "not_bippy" d
  | fault f => .fault f
  | d => dynamic d

/-- The tree of the effect a datum is, for effects that read this type: any other datum stands for
    the effect that succeeds with it. -/
def toNode (env : Ty) : Datum → Node Datum Closure
  | d@(effect r node) => if r = env then node else .succeed (.shared d.dynamic)
  | d => .succeed (.shared d.dynamic)

/-- The datum handed over in a form. -/
def as (form : Form) (d : Datum) : Flow :=
  match form with
  | .dynamic => d.dynamic
  | .erased => .erased d.own
  | .text => .text d.display
  | .number => .plain "int" (int d.number)
  | .bippy => .plain "bippy" (bippy d)
  | .outcome => .outcome .dynamic .dynamic (dynamicOutcome d.toOutcome)
  | .effect env => .effect env .dynamic .dynamic (d.toNode env)
  | .wide => .plain "wide" d
  | .narrow => .plain "narrow" d

/-- The datum as an environment of this type, if it can be one: the types that hold any datum take
    it as it is, a call of two arguments takes a list of two, and any other type takes its own. -/
def asEnvironment? (env : Ty) (d : Datum) : Option Flow :=
  if env = .dynamic then some (d.as .dynamic)
  else if env = .named "wide" then some (d.as .wide)
  else if env = .named "narrow" then some (d.as .narrow)
  else if env = .arguments (.tuple [.dynamic, .dynamic]) then
    match d with
    | list [a, b] => some (.arguments (.pair a.dynamic b.dynamic) [])
    | _ => none
  else d.own.cast? env

/-! ## Values read as data -/

mutual

/-- A value read as a datum, whatever type it is of. -/
def ofValue : Flow → Datum
  | .plain _ d => d
  | .text s => str s
  | .literal s => str s
  | .tuple [] => unit
  | .tuple [a, b] => pair (ofValue a) (ofValue b)
  | .tuple items => list (ofValues items)
  | .outcome _ _ (.success v) => outcome (.success (ofValue v))
  | .outcome _ _ (.failure v) => outcome (.failure (ofValue v))
  | .effect env _ _ node => effect env node
  | .arguments (.tuple items) named => pair (list (ofValues items)) (list (ofNamed named))
  | .arguments v named => pair (ofValue v) (list (ofNamed named))
  | .fault f => fault f
  | .unmatched ⟨name, v⟩ => unmatched name (ofValue v)
  | .unhandled e => ofValue e
  | .erased v => ofValue v

def ofValues : List Flow → List Datum
  | [] => []
  | v :: vs => ofValue v :: ofValues vs

def ofNamed : List (String × Flow) → List Datum
  | [] => []
  | (name, v) :: rest => pair (str name) (ofValue v) :: ofNamed rest

end

/-- A form hands over values of its type. -/
theorem type_as (form : Form) (d : Datum) : (d.as form).type = form.type := by
  cases form <;> rfl

@[simp] theorem ofValue_dynamic (d : Datum) : ofValue d.dynamic = d := by simp [dynamic, ofValue]

/-- A datum handed over in its own type reads back as itself. -/
theorem ofValue_own (d : Datum) : ofValue d.own = d := by
  cases d with
  | outcome o => cases o <;> simp [own, dynamicOutcome, ofValue, Outcome.map, Outcome.mapFailure]
  | _ => simp [own, dynamic, ofValue, Value.unit]

end Datum

end EffectMachine.Script
