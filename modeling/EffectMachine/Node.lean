/-
  Nodes: effects as data.

  An effect is a tree of nodes, and a node says what one step of the machine is to do.  The tree is
  finite and first order: where a function is needed it holds a *closure*, an element of a type `K`
  of which nothing is known here.  What a closure does is said elsewhere, once for all trees (see
  `Language`), so that an effect can be stored in a value, shown, shared and run again, and can
  lead back to itself through a closure without being infinite.

  Everything that flows between nodes is a `Value`, which knows its own runtime type.  The contents
  of user types are of a type `D`, of which nothing is known here either.

  The functions the library itself puts between two nodes are data too.  They come in two layers:

  * a `Link` takes a value of the type it expects and says which node follows;
  * a `Continuation` stands behind a node, checks the type of the value that arrives, and hands it
    to a link; a `Handler` stands behind a node for causes instead.

  Some nodes and continuations are for a single evaluation.  Such a one owns a *cell*, a number
  that is taken when it is evaluated.  Which cells have been taken is part of the state of the
  world, not of the tree: copies of a tree share their cells.  There are two kinds of cells, those
  of the causes a program hands to `Effect.halt`, and those of what the library itself makes while
  it runs; neither is ever asked for in the place of the other.
-/
import EffectMachine.Outcome
import EffectMachine.Cause
import EffectMachine.Fault
import EffectMachine.Ty

namespace EffectMachine

/-- A value that met no type case: what it is, and the name its type goes by. -/
structure Unmatched (V : Type) where
  typeName : String
  value : V

mutual

/-- A value in flight, which carries its runtime type. -/
inductive Value (D K : Type) where
  /-- A value of the user type of this name. -/
  | plain (type : String) (content : D)
  | text (s : String)
  | literal (s : String)
  | tuple (items : List (Value D K))
  /-- An outcome, with the types of both of its sides. -/
  | outcome (error value : Ty) (o : Outcome (Value D K) (Value D K))
  /-- An effect as a value: what it reads, fails with and produces, and its tree. -/
  | effect (env error value : Ty) (node : Node D K)
  /-- The arguments of a call: the positional ones, and the named ones in the order of the names. -/
  | arguments (positional : Value D K) (named : List (String × Value D K))
  | fault (f : Fault)
  | unmatched (u : Unmatched (Value D K))
  | unhandled (error : Value D K)
  /-- A value of which only this is known from outside: that its type was erased. -/
  | erased (v : Value D K)

/-- Where a node takes its value from. -/
inductive Slot (D K : Type) where
  /-- A copy for every evaluation. -/
  | shared (v : Value D K)
  /-- A value for the one evaluation that takes the cell. -/
  | once (cell : Nat) (v : Value D K)

/-- Where a node takes its cause from. -/
inductive Source (D K : Type) where
  /-- A copy for every evaluation. -/
  | shared (c : Cause (Value D K))
  /-- A cause handed over by a program, for the one evaluation that takes the cell. -/
  | halted (cell : Nat) (c : Cause (Value D K))
  /-- A cause handed on by the library, for the one evaluation that takes the cell. -/
  | once (cell : Nat) (c : Cause (Value D K))
  /-- The cause the closure produces. -/
  | made (f : K)
  /-- A typed failure with the error the closure produces. -/
  | failing (f : K)

/-- What follows on a value of the expected type. -/
inductive Link (D K : Type) where
  /-- Succeed with the value. -/
  | now
  /-- Succeed with what the closure makes of the value. -/
  | nowOf (f : K)
  /-- Succeed with the value as the success, or the failure, of an outcome between these types. -/
  | nowSuccess (error value : Ty)
  | nowFailure (error value : Ty)
  /-- Fail with the value. -/
  | failNow
  /-- The effect the closure makes of the value. -/
  | call (f : K)
  /-- Succeed or fail as the closure's outcome says. -/
  | outcomeOf (f : K)
  /-- This node, whatever the value. -/
  | replace (that : Node D K)
  /-- This node, and then the value and its own joined: in a pair, or by the closure if there is
      one. -/
  | zip (that : Node D K) (thatValue : Ty) (join : Option K)
  /-- Succeed with an earlier value and this one joined in the same way. -/
  | join (earlier : Value D K) (join : Option K)
  /-- Succeed with the value if it passes, and fail with the error made of it if not. -/
  | require (passes error : K)
  /-- Succeed with the value if it passes, and die with the payload made of it if not. -/
  | assert (passes payload : K)
  /-- Succeed or fail as the outcome that the value is says. -/
  | absolve
  /-- The effect that the value is. -/
  | flatten
  /-- The effect that the value is, with this environment bound. -/
  | provide (env : Value D K)
  /-- Succeed with the effect that runs this node, whose value is an effect of the type given, and
      then that effect with the value bound as its environment. -/
  | supply (outer : Node D K) (outerEnv env error value : Ty)
  /-- Die with the value parked, for type cases to pick up. -/
  | park
  /-- Call the closure on the positional arguments that the value holds, catching what it raises. -/
  | applyTo (f : K)
  /-- Call the closure on the value as it is, catching what it raises. -/
  | applyWhole (f : K)

/-- One step of an effect's description. -/
inductive Node (D K : Type) where
  | succeed (slot : Slot D K)
  | failCause (source : Source D K)
  /-- Call a closure that does not raise.  If it does, the whole run unwinds. -/
  | total (f : K) (args : List (Value D K))
  /-- Call a closure that may raise.  What it raises becomes a defect. -/
  | attempt (f : K) (args : List (Value D K))
  | flatMap (inner : Node D K) (k : Continuation D K)
  | fold (inner : Node D K) (onCause : Handler D K) (onSuccess : Continuation D K)
  | provide (env : Slot D K) (inner : Node D K)
  /-- Read the bound environment, which is expected to be of this type. -/
  | read (env : Ty) (link : Link D K)

/-- What stands behind a node for the value it succeeds with. -/
inductive Continuation (D K : Type) where
  /-- Succeed with the value, of whatever type. -/
  | passThrough
  /-- Follow the link if the value is of this type, and die if not. -/
  | typed (type : Ty) (link : Link D K)
  /-- The same for the one evaluation that takes the cell. -/
  | typedOnce (cell : Nat) (type : Ty) (link : Link D K)

/-- What stands behind a node for the cause it ends in.  Errors are expected to be of type
    `error`. -/
inductive Handler (D K : Type) where
  /-- Fail with what the closure makes of the error. -/
  | mapError (error : Ty) (f : K)
  /-- The effect the closure makes of the cause. -/
  | onCause (error : Ty) (f : K)
  /-- Follow the link on a typed error; a defect is raised again. -/
  | onFailure (error : Ty) (link : Link D K)
  /-- Die with the error as payload. -/
  | escalate (error : Ty)
  /-- A defect whose payload is of this type becomes the typed failure the closure makes of it. -/
  | narrow (error payload : Ty) (into : K)
  /-- A parked value of this type becomes the environment of the case. -/
  | typeCase (error type : Ty) (case : Node D K)

end

namespace Node

variable {D K : Type}

/-- The name of a node's kind. -/
def kind : Node D K → String
  | succeed _ => "Succeed"
  | failCause _ => "FailCause"
  | total _ _ => "EffectTotal"
  | attempt _ _ => "EffectPartial"
  | flatMap _ _ => "FlatMap"
  | fold _ _ _ => "Fold"
  | provide _ _ => "Provide"
  | read _ _ => "ReadEnvironment"

end Node

end EffectMachine
