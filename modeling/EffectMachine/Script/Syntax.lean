/-
  Scripts: a small language to write effects and their closures in.

  An `Expr` computes a datum.  Its operators apply to operands evaluated from left to right; only a
  conditional leaves one of its branches out.  A `Recipe` says how an effect is built for a type of
  environment: some of its expressions are evaluated while the effect is built, the others are the
  bodies of closures and wait.  A `Combinator` is what can be put behind an effect that has been
  built already.

  Expressions, recipes and combinators nest in each other: an expression can hold a recipe, whose
  effect is then a datum, or is run.
-/
import EffectMachine.Ty

namespace EffectMachine

/-- The type that holds any datum. -/
abbrev Ty.dynamic : Ty := .named "dyn"

namespace Script

/-- A datum that is written out. -/
inductive Literal where
  | unit
  | bool (b : Bool)
  | int (n : Int64)
  | str (s : String)

/-- The operators of expressions. -/
inductive Operator where
  | add | sub | mul | mod | lt
  | eq | not | len
  | cat | shown | list | push | pair | fst | snd
  | success | failure | bippy | notBippy
  | seq
  /-- Puts the operand on the log. -/
  | log
  /-- Counts: the value of the counter of this name before. -/
  | tick
  /-- Raise the operand: as a value of its own type, as a literal, as a datum. -/
  | raise | raiseLiteral | raiseDatum
deriving DecidableEq

/-- The word an operator is written as. -/
def Operator.word : Operator → String
  | add => "add" | sub => "sub" | mul => "mul" | mod => "mod" | lt => "lt"
  | eq => "eq" | not => "not" | len => "len"
  | cat => "cat" | shown => "show" | list => "list" | push => "push" | pair => "pair"
  | fst => "fst" | snd => "snd"
  | success => "success" | failure => "failure" | bippy => "bippy" | notBippy => "not_bippy"
  | seq => "seq" | log => "log" | tick => "tick"
  | raise => "panic" | raiseLiteral => "panic_static" | raiseDatum => "panic_dyn"

/-- The operators there are. -/
def Operator.all : List Operator :=
  [add, sub, mul, mod, lt, eq, not, len, cat, shown, list, push, pair, fst, snd, success, failure,
   bippy, notBippy, seq, log, tick, raise, raiseLiteral, raiseDatum]

/-- The operator a word stands for. -/
def Operator.ofWord? (w : String) : Option Operator := all.find? (·.word = w)

/-- The type a datum is handed over as. -/
inductive Form where
  /-- The dynamic type, which holds any datum. -/
  | dynamic
  /-- The datum's own type, erased. -/
  | erased
  /-- Its text. -/
  | text
  /-- Its number. -/
  | number
  /-- The datum labelled `bippy`. -/
  | bippy
  /-- An outcome between two dynamic types. -/
  | outcome
  /-- An effect that reads this type. -/
  | effect (env : Ty)
  /-- Two types that hold any datum, like the dynamic one. -/
  | wide | narrow
deriving DecidableEq

/-- The type that a form hands over. -/
def Form.type : Form → Ty
  | dynamic => .dynamic
  | erased => .erased
  | text => .text
  | number => .named "int"
  | bippy => .named "bippy"
  | outcome => .outcome .dynamic .dynamic
  | effect env => .effect env .dynamic .dynamic
  | wide => .named "wide"
  | narrow => .named "narrow"

/-- How a value or an error of a type other than declared is consumed. -/
inductive ValueConsumer where
  | map | andThen | zip | fold | either | matchTypes
deriving DecidableEq

inductive ErrorConsumer where
  | mapError | recover | orDie | swap
deriving DecidableEq

mutual

/-- What computes a datum. -/
inductive Expr where
  | literal (l : Literal)
  | var (name : String)
  | apply (op : Operator) (operands : List Expr)
  | cond (test yes no : Expr)
  /-- The effect built by the recipe, as a datum. -/
  | effect (env : Ty) (recipe : Recipe)
  /-- What the effect built by the recipe produces when it is run. -/
  | run (recipe : Recipe)

/-- A cause: a typed failure, or a defect whose payload is handed over in some form. -/
inductive CauseExpr where
  | fail (error : Expr)
  | die (payload : Expr)
  | dieDatum (payload : Expr)
  | dieLiteral (payload : Expr)

/-- How an effect is built. -/
inductive Recipe where
  | succeed (v : Expr)
  | fail (e : Expr)
  | ofOutcome (o : Expr)
  | ofOption (v : Option Expr) (onNone : Expr)
  /-- Ends in the cause, once. -/
  | halt (c : CauseExpr)
  | haltWith (c : CauseExpr)
  | die (payload : Expr)
  | dieDatum (payload : Expr)
  | total (body : Expr)
  | attempt (body : Expr)
  | access (x : String) (body : Expr)
  | accessM (x : String) (body : Recipe)
  | accessOutcome (x : String) (body : Expr)
  | environment
  /-- A function applied to these arguments, the named ones included if there are any given. -/
  | applied (args : List Expr) (named : Option (List (String × Expr))) (body : Expr)
  /-- A function of two arguments as an effect, of the named ones too or not. -/
  | function (wholeCall : Bool) (body : Expr)
  /-- The effect of this name. -/
  | ref (name : String)
  | letIn (name : String) (bound body : Recipe)
  | bind (x : String) (v : Expr) (body : Recipe)
  | cond (test : Expr) (yes no : Recipe)
  /-- Defines a function from a datum to effects, which may call itself. -/
  | fixIn (name x : String) (function body : Recipe)
  | call (name : String) (arg : Expr)
  /-- Builds an effect, and then `count` times one from the last. -/
  | iterate (first : Recipe) (count : Nat) (x name : String) (step : Recipe)
  | provide (env : Ty) (v : Expr) (inner : Recipe)
  | swapEnvironments (env : Ty) (inner : Recipe)
  /-- An effect built for the type `narrow`, declared to read the type `wide`. -/
  | recastEnvironment (inner : Recipe)
  | behind (inner : Recipe) (c : Combinator)

/-- What can be put behind an effect. -/
inductive Combinator where
  | map (x : String) (body : Expr)
  | mapError (x : String) (body : Expr)
  | andThen (x : String) (body : Recipe)
  | recover (x : String) (body : Recipe)
  | followedBy (that : Recipe)
  | orElse (that : Recipe)
  | zip (that : Recipe)
  | zipWith (that : Recipe) (x y : String) (body : Expr)
  | fold (x : String) (onFailure : Expr) (y : String) (onSuccess : Expr)
  | foldM (x : String) (onFailure : Recipe) (y : String) (onSuccess : Recipe)
  /-- A case that is left out hands on what it was given. -/
  | foldCause (x : String) (onFail onDie : Option Recipe) (y : String) (onSuccess : Option Recipe)
  | either
  | absolve
  | swap
  | flatten
  | orDie (form : Form)
  | matchTypes (form : Form)
  | atType (type : Ty) (case : Recipe)
  | require (x : String) (passes error : Expr)
  | assert (x : String) (passes payload : Expr) (form : Form)
  | narrow (payload : Ty)
  | recastValue (consumer : ValueConsumer)
  | recastError (consumer : ErrorConsumer)

end

end Script

end EffectMachine
