/-
  Traces: what a run tells an observer.

  A run opens a span that carries the label of its runner, enters it, reports the environments it
  binds and restores, the closures whose raising it turned into a defect, and the end it came to,
  and leaves the span.  Runs made by a closure report in between.
-/

namespace EffectMachine

/-- One report of a run. -/
inductive Event where
  | span (label : String)
  | enter
  | exit
  /-- An environment was bound; this many are bound now. -/
  | bound (depth : Nat)
  /-- The innermost environment was dropped; this many are bound now. -/
  | restored (depth : Nat)
  /-- An attempted closure raised, and a defect was made of it. -/
  | raised
  /-- The run came to an end after so many steps. -/
  | finished (steps : Nat) (succeeded : Bool)
deriving DecidableEq

/-- The line an event is written as. -/
def Event.text : Event → String
  | span label => "SPAN DEBUG run label=" ++ label
  | enter => "ENTER"
  | exit => "EXIT"
  | bound depth => "TRACE environment bound depth=" ++ toString depth
  | restored depth => "TRACE environment restored depth=" ++ toString depth
  | raised => "TRACE partial effect panicked, raising a defect"
  | finished steps succeeded =>
    "DEBUG run finished steps=" ++ toString steps ++ " succeeded=" ++ toString succeeded

end EffectMachine
