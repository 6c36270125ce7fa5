/-
  Types for trees.

  An effect is declared with three types, and the tree inside it shows none of them.  The judgements
  of this file put them back: `Node.Typed Γ R E A node` says that the node reads an environment of
  type `R`, fails with errors of type `E` and succeeds with values of type `A`.  A node need not
  have only one such type.  One that cannot fail fails with errors of any type, one that provides
  its environment reads any, and one that parks its value succeeds with values of any type.

  What closures are declared as is told by a `Signature`, one relation for each of the roles a
  closure can have; nothing keeps a closure from being declared more than once.  A signature also
  tells which faults a program may bring along as values of its own.  The machine adds two to them:
  that a node for a single evaluation was evaluated again, and that no environment was bound where
  one of the unit type was expected.  That a value or an environment is of another type than its
  consumer's is not among them.

  Since effects are values and trees hold values, the judgements are all about each other:
  `Value.Sound` says of a value that everything inside it is of the type it is said to be of, and so
  of an effect that its tree is typed as declared.
-/
import EffectMachine.Machine

namespace EffectMachine

variable {D K : Type}

/-- What the closures of a program are declared as, and the faults the program brings along. -/
structure Signature (K : Type) where
  /-- From arguments of these types to values of this one. -/
  value : K → List Ty → Ty → Prop
  /-- Tests of values of this type. -/
  test : K → Ty → Prop
  /-- From values of the first type to outcomes between the other two. -/
  outcome : K → Ty → Ty → Ty → Prop
  /-- From arguments of these types to effects. -/
  effect : K → List Ty → Ty → Ty → Ty → Prop
  /-- From causes with errors of the first type to effects. -/
  handler : K → Ty → Ty → Ty → Ty → Prop
  /-- Producers of causes with errors of this type. -/
  cause : K → Ty → Prop
  fault : Fault → Prop

namespace Signature

/-- The faults that may be met in a run: those of the program, and two of the machine. -/
inductive Admits (Γ : Signature K) : Fault → Prop where
  | brought {f} (h : Γ.fault f) : Admits Γ f
  | consumed : Admits Γ .alreadyConsumed
  | unbound : Admits Γ (.missingEnvironment Ty.unit.name)

/-- How values of two types are joined to one of a third. -/
inductive Joins (Γ : Signature K) : Option K → Ty → Ty → Ty → Prop where
  | pair {A B} : Joins Γ none A B (.tuple [A, B])
  | byClosure {f A B C} (h : Γ.value f [A, B] C) : Joins Γ (some f) A B C

end Signature

/-! ## The judgements -/

mutual

/-- Everything inside the value is of the type it is said to be of. -/
inductive Value.Sound (Γ : Signature K) : Value D K → Prop where
  | plain {type content} : Value.Sound Γ (.plain type content)
  | text {s} : Value.Sound Γ (.text s)
  | literal {s} : Value.Sound Γ (.literal s)
  | tuple {items} (h : ∀ v ∈ items, Value.Sound Γ v) : Value.Sound Γ (.tuple items)
  | success {v E A} (htype : v.type = A) (h : Value.Sound Γ v) :
      Value.Sound Γ (.outcome E A (.success v))
  | failure {e E A} (htype : e.type = E) (h : Value.Sound Γ e) :
      Value.Sound Γ (.outcome E A (.failure e))
  | effect {R E A node} (h : Node.Typed Γ R E A node) : Value.Sound Γ (.effect R E A node)
  | arguments {positional named} (h : Value.Sound Γ positional)
      (hnamed : ∀ entry ∈ named, Value.Sound Γ entry.2) :
      Value.Sound Γ (.arguments positional named)
  | fault {f} (h : Γ.Admits f) : Value.Sound Γ (.fault f)
  | unmatched {u} (h : Value.Sound Γ u.value) : Value.Sound Γ (.unmatched u)
  | unhandled {e} (h : Value.Sound Γ e) : Value.Sound Γ (.unhandled e)
  | erased {v} (h : Value.Sound Γ v) : Value.Sound Γ (.erased v)

/-- A typed failure with an error of this type, or a defect. -/
inductive Cause.Typed (Γ : Signature K) : Ty → Cause (Value D K) → Prop where
  | fail {E e} (htype : e.type = E) (h : Value.Sound Γ e) : Cause.Typed Γ E (.fail e)
  | die {E d} (h : Value.Sound Γ d.payload) : Cause.Typed Γ E (.die d)

inductive Slot.Typed (Γ : Signature K) : Ty → Slot D K → Prop where
  | shared {A v} (htype : v.type = A) (h : Value.Sound Γ v) : Slot.Typed Γ A (.shared v)
  | once {A cell v} (htype : v.type = A) (h : Value.Sound Γ v) : Slot.Typed Γ A (.once cell v)

inductive Source.Typed (Γ : Signature K) : Ty → Source D K → Prop where
  | shared {E c} (h : Cause.Typed Γ E c) : Source.Typed Γ E (.shared c)
  | halted {E cell c} (h : Cause.Typed Γ E c) : Source.Typed Γ E (.halted cell c)
  | once {E cell c} (h : Cause.Typed Γ E c) : Source.Typed Γ E (.once cell c)
  | made {E f} (h : Γ.cause f E) : Source.Typed Γ E (.made f)
  | failing {E f} (h : Γ.value f [] E) : Source.Typed Γ E (.failing f)

/-- From a value of the first type to a node that reads, fails and succeeds with the others. -/
inductive Link.Typed (Γ : Signature K) : Ty → Ty → Ty → Ty → Link D K → Prop where
  | now {R E A} : Link.Typed Γ A R E A .now
  | nowOf {T R E A f} (h : Γ.value f [T] A) : Link.Typed Γ T R E A (.nowOf f)
  | nowSuccess {R E e a} : Link.Typed Γ a R E (.outcome e a) (.nowSuccess e a)
  | nowFailure {R E e a} : Link.Typed Γ e R E (.outcome e a) (.nowFailure e a)
  | failNow {R E A} : Link.Typed Γ E R E A .failNow
  | call {T R E A f} (h : Γ.effect f [T] R E A) : Link.Typed Γ T R E A (.call f)
  | outcomeOf {T R E A f} (h : Γ.outcome f T E A) : Link.Typed Γ T R E A (.outcomeOf f)
  | replace {T R E A that} (h : Node.Typed Γ R E A that) : Link.Typed Γ T R E A (.replace that)
  | zip {T R E A B that how} (h : Node.Typed Γ R E A that) (hjoin : Γ.Joins how T A B) :
      Link.Typed Γ T R E B (.zip that A how)
  | join {T R E B earlier how} (h : Value.Sound Γ earlier)
      (hjoin : Γ.Joins how earlier.type T B) : Link.Typed Γ T R E B (.join earlier how)
  | require {R E A passes error} (hpasses : Γ.test passes A) (herror : Γ.value error [A] E) :
      Link.Typed Γ A R E A (.require passes error)
  | assert {R E A X passes payload} (hpasses : Γ.test passes A)
      (hpayload : Γ.value payload [A] X) : Link.Typed Γ A R E A (.assert passes payload)
  | absolve {R E A} : Link.Typed Γ (.outcome E A) R E A .absolve
  | flatten {R E A} : Link.Typed Γ (.effect R E A) R E A .flatten
  | provide {R E A env} (h : Value.Sound Γ env) :
      Link.Typed Γ (.effect env.type E A) R E A (.provide env)
  | supply {R E r s e a outer} (h : Node.Typed Γ r e (.effect s e a) outer) :
      Link.Typed Γ s R E (.effect r e a) (.supply outer r s e a)
  | park {T R E A} : Link.Typed Γ T R E A .park
  | applyTo {Ts R E A f} (h : Γ.value f Ts A) :
      Link.Typed Γ (.arguments (.tuple Ts)) R E A (.applyTo f)
  | applyWhole {T R E A f} (h : Γ.value f [.arguments T] A) :
      Link.Typed Γ (.arguments T) R E A (.applyWhole f)

/-- The types of the environment read, the errors failed with, and the values succeeded with. -/
inductive Node.Typed (Γ : Signature K) : Ty → Ty → Ty → Node D K → Prop where
  | succeed {R E A slot} (h : Slot.Typed Γ A slot) : Node.Typed Γ R E A (.succeed slot)
  | failCause {R E A source} (h : Source.Typed Γ E source) :
      Node.Typed Γ R E A (.failCause source)
  | total {R E A f args} (h : Γ.value f (args.map Value.type) A)
      (hargs : ∀ v ∈ args, Value.Sound Γ v) : Node.Typed Γ R E A (.total f args)
  | attempt {R E A f args} (h : Γ.value f (args.map Value.type) A)
      (hargs : ∀ v ∈ args, Value.Sound Γ v) : Node.Typed Γ R E A (.attempt f args)
  | flatMap {R E A B inner k} (h : Node.Typed Γ R E A inner)
      (hk : Continuation.Typed Γ A R E B k) : Node.Typed Γ R E B (.flatMap inner k)
  | fold {R E E' A B inner onCause k} (h : Node.Typed Γ R E A inner)
      (hcause : Handler.Typed Γ E R E' B onCause) (hk : Continuation.Typed Γ A R E' B k) :
      Node.Typed Γ R E' B (.fold inner onCause k)
  | provide {R R' E A slot inner} (hslot : Slot.Typed Γ R slot)
      (h : Node.Typed Γ R E A inner) : Node.Typed Γ R' E A (.provide slot inner)
  | read {R E A link} (h : Link.Typed Γ R R E A link) : Node.Typed Γ R E A (.read R link)

inductive Continuation.Typed (Γ : Signature K) : Ty → Ty → Ty → Ty → Continuation D K → Prop where
  | passThrough {R E A} : Continuation.Typed Γ A R E A .passThrough
  | typed {T R E A link} (h : Link.Typed Γ T R E A link) :
      Continuation.Typed Γ T R E A (.typed T link)
  | typedOnce {T R E A cell link} (h : Link.Typed Γ T R E A link) :
      Continuation.Typed Γ T R E A (.typedOnce cell T link)

/-- From a cause with errors of the first type to a node as the others say. -/
inductive Handler.Typed (Γ : Signature K) : Ty → Ty → Ty → Ty → Handler D K → Prop where
  | mapError {E R E' A f} (h : Γ.value f [E] E') : Handler.Typed Γ E R E' A (.mapError E f)
  | onCause {E R E' A f} (h : Γ.handler f E R E' A) : Handler.Typed Γ E R E' A (.onCause E f)
  | onFailure {E R E' A link} (h : Link.Typed Γ E R E' A link) :
      Handler.Typed Γ E R E' A (.onFailure E link)
  | escalate {E R E' A} : Handler.Typed Γ E R E' A (.escalate E)
  | narrow {E R A payload into} (h : Γ.value into [payload] E) :
      Handler.Typed Γ E R E A (.narrow E payload into)
  | typeCase {E R A type case} (h : Node.Typed Γ type E A case) :
      Handler.Typed Γ E R E A (.typeCase E type case)

end

/-- A sound value of this type. -/
structure Value.Fits (Γ : Signature K) (T : Ty) (v : Value D K) : Prop where
  type : v.type = T
  sound : v.Sound Γ

/-- Sound values of these types. -/
structure Value.AllFit (Γ : Signature K) (Ts : List Ty) (vs : List (Value D K)) : Prop where
  types : vs.map Value.type = Ts
  sound : ∀ v ∈ vs, Value.Sound Γ v

/-- An outcome of sound values of these types. -/
def Outcome.Fits (Γ : Signature K) (E A : Ty) : Outcome (Value D K) (Value D K) → Prop
  | .success v => v.Fits Γ A
  | .failure e => e.Fits Γ E

/-- An ending as the types of a node promise it. -/
def Ending.Typed (Γ : Signature K) (E A : Ty) : Ending D K → Prop
  | .success v => v.Fits Γ A
  | .failure c => c.Typed Γ E

/-! ## Small consequences -/

section Consequences

variable {Γ : Signature K} {R E A : Ty}

/-- A look-up by type finds every value that fits. -/
theorem Value.Fits.cast? {T : Ty} {v : Value D K} (h : v.Fits Γ T) : v.cast? T = some v :=
  Value.cast?_eq_some_iff.mpr ⟨h.type, rfl⟩

theorem Value.AllFit.nil : Value.AllFit Γ [] ([] : List (Value D K)) :=
  ⟨rfl, fun _ hv => nomatch hv⟩

theorem Value.AllFit.singleton {T : Ty} {v : Value D K} (h : v.Fits Γ T) :
    Value.AllFit Γ [T] [v] := by
  refine ⟨congrArg (fun t => [t]) h.type, ?_⟩
  intro u hu
  rw [List.mem_singleton.mp hu]
  exact h.sound

theorem Value.AllFit.pair {S T : Ty} {v u : Value D K} (hv : v.Fits Γ S) (hu : u.Fits Γ T) :
    Value.AllFit Γ [S, T] [v, u] := by
  constructor
  · show [v.type, u.type] = [S, T]
    rw [hv.type, hu.type]
  · intro x hx
    obtain rfl | rfl : x = v ∨ x = u := by
      simpa only [List.mem_cons, List.not_mem_nil, or_false] using hx
    · exact hv.sound
    · exact hu.sound

/-- Values of the types of a tuple make up a value of the tuple's type. -/
theorem Value.AllFit.tuple {Ts : List Ty} {vs : List (Value D K)} (h : Value.AllFit Γ Ts vs) :
    (Value.tuple vs).Fits Γ (.tuple Ts) := by
  refine ⟨?_, .tuple h.sound⟩
  show Value.types vs = _
  rw [Value.types_eq_tuple, h.types]

/-! A value of one of the library's own types is of the form that goes with the type. -/

/-- The type of a list of values is that of a tuple, so no other type is. -/
theorem Value.types_ne {vs : List (Value D K)} {T : Ty} (hunit : T ≠ .unit)
    (hcons : ∀ head tail, T ≠ .cons head tail) : Value.types vs ≠ T := by
  cases vs with
  | nil => exact hunit.symm
  | cons v vs => exact (hcons _ _).symm

/-- Canonical forms: what fits a tuple type is a tuple, of items that fit the items of the type. -/
theorem Value.Fits.exists_tuple {Ts : List Ty} {v : Value D K} (h : v.Fits Γ (.tuple Ts)) :
    ∃ items, v = .tuple items ∧ Value.AllFit Γ Ts items := by
  obtain ⟨htype, hsound⟩ := h
  cases v with
  | tuple items =>
    cases hsound with
    | tuple hitems =>
      refine ⟨items, rfl, Ty.tuple_injective ?_, hitems⟩
      rw [← Value.types_eq_tuple]
      exact htype
  | _ => cases Ts <;> cases htype

/-- Canonical forms: what fits an outcome type is an outcome, and its value or error fits. -/
theorem Value.Fits.exists_outcome {v : Value D K} (h : v.Fits Γ (.outcome E A)) :
    ∃ o, v = .outcome E A o ∧ o.Fits Γ E A := by
  obtain ⟨htype, hsound⟩ := h
  cases v with
  | outcome e a o =>
    cases htype
    refine ⟨o, rfl, ?_⟩
    cases hsound with
    | success ha h => exact ⟨ha, h⟩
    | failure he h => exact ⟨he, h⟩
  | tuple items => exact absurd htype (types_ne (by simp) (by simp))
  | _ => cases htype

/-- Canonical forms: what fits an effect type is an effect, whose node is typed as declared. -/
theorem Value.Fits.exists_effect {v : Value D K} (h : v.Fits Γ (.effect R E A)) :
    ∃ node, v = .effect R E A node ∧ node.Typed Γ R E A := by
  obtain ⟨htype, hsound⟩ := h
  cases v with
  | effect r e a node =>
    cases htype
    cases hsound with
    | effect hnode => exact ⟨node, rfl, hnode⟩
  | tuple items => exact absurd htype (types_ne (by simp) (by simp))
  | _ => cases htype

/-- Canonical forms: what fits a type of calls is a call, whose positional arguments fit. -/
theorem Value.Fits.exists_arguments {T : Ty} {v : Value D K} (h : v.Fits Γ (.arguments T)) :
    ∃ positional named, v = .arguments positional named ∧ positional.Fits Γ T := by
  obtain ⟨htype, hsound⟩ := h
  cases v with
  | arguments positional named =>
    cases htype
    cases hsound with
    | arguments hpositional hnamed => exact ⟨positional, named, rfl, rfl, hpositional⟩
  | tuple items => exact absurd htype (types_ne (by simp) (by simp))
  | _ => cases htype

/-- What is parked of a sound value is sound. -/
theorem Value.Sound.parked {v : Value D K} (h : v.Sound Γ) :
    (Unmatched.ofValue v).value.Sound Γ := by
  cases v with
  | erased v =>
    cases h with
    | erased h => exact h
  | _ => exact h

/-- Defects come under any type of errors. -/
theorem Cause.Typed.dieWith {v : Value D K} (h : v.Sound Γ) : (Cause.dieWith v).Typed Γ E :=
  .die h

/-- A fault is typed at any error type, if the program admits it. -/
theorem Cause.Typed.ofFault {f : Fault} (h : Γ.Admits f) :
    (Cause.ofFault f : Cause (Value D K)).Typed Γ E := .dieWith (.fault h)

theorem Cause.Typed.ofFail {e : Value D K} (h : e.Fits Γ E) : (Cause.fail e).Typed Γ E :=
  .fail h.type h.sound

/-- A cause of its type passes the check for it. -/
theorem Cause.Typed.typed_eq {c : Cause (Value D K)} (h : c.Typed Γ E) : c.typed E = c := by
  cases h with
  | fail htype he => simp only [Cause.typed, Value.cast?_eq_some_iff.mpr ⟨htype, rfl⟩]
  | die => rfl

theorem Slot.Typed.shared_of_fits {T : Ty} {v : Value D K} (h : v.Fits Γ T) :
    (Slot.shared v).Typed Γ T := .shared h.type h.sound

theorem Slot.Typed.once_of_fits {T : Ty} {v : Value D K} {cell : Nat} (h : v.Fits Γ T) :
    (Slot.once cell v).Typed Γ T := .once h.type h.sound

end Consequences

end EffectMachine
