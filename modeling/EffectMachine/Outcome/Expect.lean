/-
  Outcomes one insists on.

  Where only one of the two cases will do, the other raises: a text that shows what was met
  instead, or the error itself as the payload.
-/
import EffectMachine.Act

namespace EffectMachine.Outcome

variable {D K σ ε α : Type}

/-- The description of an outcome, given those of what it can hold. -/
def debug (describeError : ε → String) (describeValue : α → String) : Outcome ε α → String
  | failure e => Text.wrapped "Failure" (describeError e)
  | success a => Text.wrapped "Success" (describeValue a)

/-! ## Taking out what is held -/

/-- The value of a success. -/
def expectSuccess (describe : ε → String) : Outcome ε α → Act D K σ α
  | success a => .done a
  | failure e => .raise (.text
      ("called `Outcome::unwrap_success()` on a `Failure` value: " ++ describe e))

/-- The error of a failure. -/
def expectFailure (describe : α → String) : Outcome ε α → Act D K σ ε
  | failure e => .done e
  | success a => .raise (.text
      ("called `Outcome::unwrap_failure()` on a `Success` value: " ++ describe a))

/-- The value of a success; the error of a failure is raised as it is. -/
def orRaise (payload : ε → Value D K) : Outcome ε α → Act D K σ α
  | success a => .done a
  | failure e => .raise (payload e)

/-- The value of a success; the error of a failure is raised as one nobody handled. -/
def orUnhandled (payload : ε → Value D K) : Outcome ε α → Act D K σ α :=
  orRaise fun e => .unhandled (payload e)

/-! ## Checks -/

def checkSuccess (describe : ε → String) : Outcome ε α → Act D K σ Unit
  | success _ => .done ()
  | failure e => .raise (.text ("Expected Success, got Failure: " ++ describe e))

def checkFailure (describe : α → String) : Outcome ε α → Act D K σ Unit
  | failure _ => .done ()
  | success a => .raise (.text ("Expected Failure, got Success: " ++ describe a))

/-- That the outcome is a failure with an error equal to the expected one. -/
def checkFailureIs [BEq ε] (describeError : ε → String) (describeValue : α → String)
    (expected : ε) : Outcome ε α → Act D K σ Unit
  | failure e =>
    if e == expected then .done ()
    else .raise (.text ("assertion `left == right` failed\n  left: " ++ describeError e
      ++ "\n right: " ++ describeError expected))
  | success a => .raise (.text ("Expected Failure with error " ++ describeError expected
      ++ ", got Success: " ++ describeValue a))

/-! ## When they raise -/

/-- Exactly a success is let through. -/
theorem orRaise_eq_done_iff (payload : ε → Value D K) (o : Outcome ε α) (a : α) :
    o.orRaise payload = (.done a : Act D K σ α) ↔ o = success a := by
  cases o <;> simp [orRaise]

end EffectMachine.Outcome
