import EffectMachine.Act
import EffectMachine.Arguments
import EffectMachine.Cause
import EffectMachine.Denotation
import EffectMachine.Effect.Basic
import EffectMachine.Effect.Environment
import EffectMachine.Effect.Function
import EffectMachine.Effect.Recovery
import EffectMachine.Effect.Run
import EffectMachine.Effect.Sequence
import EffectMachine.Effect.TypeCases
import EffectMachine.Fault
import EffectMachine.Language
import EffectMachine.Machine
import EffectMachine.Node
import EffectMachine.Outcome
import EffectMachine.Outcome.Expect
import EffectMachine.Outcome.Json
import EffectMachine.Play
import EffectMachine.Proofs.Accounting
import EffectMachine.Proofs.Alikeness
import EffectMachine.Proofs.Alternatives
import EffectMachine.Proofs.Brackets
import EffectMachine.Proofs.Calls
import EffectMachine.Proofs.Costs
import EffectMachine.Proofs.Courses
import EffectMachine.Proofs.Depth
import EffectMachine.Proofs.Dispatch
import EffectMachine.Proofs.EitherLaws
import EffectMachine.Proofs.Embedding
import EffectMachine.Proofs.Events
import EffectMachine.Proofs.FunctionLaws
import EffectMachine.Proofs.Independence
import EffectMachine.Proofs.Insertions
import EffectMachine.Proofs.Likeness
import EffectMachine.Proofs.Matching
import EffectMachine.Proofs.Meaning
import EffectMachine.Proofs.MonadLaws
import EffectMachine.Proofs.NarrowLaws
import EffectMachine.Proofs.Ordinary
import EffectMachine.Proofs.OutcomeLaws
import EffectMachine.Proofs.Propagation
import EffectMachine.Proofs.Raising
import EffectMachine.Proofs.ReaderLaws
import EffectMachine.Proofs.Refinement
import EffectMachine.Proofs.RepeatedCases
import EffectMachine.Proofs.Reruns
import EffectMachine.Proofs.Reusable
import EffectMachine.Proofs.Scopes
import EffectMachine.Proofs.SingleUse
import EffectMachine.Proofs.Soundness
import EffectMachine.Proofs.StepCounts
import EffectMachine.Proofs.SwapDuality
import EffectMachine.Proofs.SwapLaws
import EffectMachine.Proofs.Transition
import EffectMachine.Proofs.TwinRuns
import EffectMachine.Proofs.Twins
import EffectMachine.Proofs.TypedEffects
import EffectMachine.Proofs.Typing
import EffectMachine.Proofs.Unwinding
import EffectMachine.Proofs.Uses
import EffectMachine.Proofs.ZipLaws
import EffectMachine.Runner
import EffectMachine.Script.Build
import EffectMachine.Script.Datum
import EffectMachine.Script.Meaning
import EffectMachine.Script.Syntax
import EffectMachine.Text.CodeRange
import EffectMachine.Text.Extending
import EffectMachine.Text.Printable
import EffectMachine.Text.Quoted
import EffectMachine.Text.Record
import EffectMachine.Trace
import EffectMachine.Ty
import EffectMachine.Value
