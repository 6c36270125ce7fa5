/-
  Trees that can be evaluated any number of times.

  A node that owns a cell is for a single evaluation.  The cells of the library are for nodes that
  it makes while it runs; what a program is made of owns none.  `Node.Reusable P` says so of a tree
  and of everything in it: of the nodes inside it, of the values it holds, and of the trees of
  effects among those.  The one single-use node that a program can have in its trees is the one that
  `Effect.halt` makes for it.

  `P` tells which closures a program uses, and whether it uses such halts.

  That a combinator does not make its single-use nodes too early, when an effect is put together
  instead of when it is evaluated, is what `Effect.Made.reusable` is about: whatever constructors
  and combinators an effect is made by, its tree can be evaluated any number of times.
-/
import EffectMachine.Effect.Function
import EffectMachine.Effect.Recovery
import EffectMachine.Effect.Sequence
import EffectMachine.Effect.TypeCases

namespace EffectMachine

variable {D K : Type}

/-- What a program uses: its closures, and whether it hands causes to `Effect.halt`. -/
structure Program (K : Type) where
  closures : K → Prop
  halts : Prop

/-- The program of all closures there are, with halts or without. -/
abbrev Program.all (halts : Prop) : Program K := ⟨fun _ => True, halts⟩

/-! ## No cell inside -/

mutual

inductive Value.Reusable (P : Program K) : Value D K → Prop where
  | plain {type content} : Value.Reusable P (.plain type content)
  | text {s} : Value.Reusable P (.text s)
  | literal {s} : Value.Reusable P (.literal s)
  | tuple {items} (h : ∀ v ∈ items, Value.Reusable P v) : Value.Reusable P (.tuple items)
  | success {v E A} (h : Value.Reusable P v) : Value.Reusable P (.outcome E A (.success v))
  | failure {e E A} (h : Value.Reusable P e) : Value.Reusable P (.outcome E A (.failure e))
  | effect {R E A node} (h : Node.Reusable P node) : Value.Reusable P (.effect R E A node)
  | arguments {positional named} (h : Value.Reusable P positional)
      (hnamed : ∀ entry ∈ named, Value.Reusable P entry.2) :
      Value.Reusable P (.arguments positional named)
  | fault {f} : Value.Reusable P (.fault f)
  | unmatched {u} (h : Value.Reusable P u.value) : Value.Reusable P (.unmatched u)
  | unhandled {e} (h : Value.Reusable P e) : Value.Reusable P (.unhandled e)
  | erased {v} (h : Value.Reusable P v) : Value.Reusable P (.erased v)

inductive Cause.Reusable (P : Program K) : Cause (Value D K) → Prop where
  | fail {e} (h : Value.Reusable P e) : Cause.Reusable P (.fail e)
  | die {d} (h : Value.Reusable P d.payload) : Cause.Reusable P (.die d)

inductive Source.Reusable (P : Program K) : Source D K → Prop where
  | shared {c} (h : Cause.Reusable P c) : Source.Reusable P (.shared c)
  | halted {cell c} (hhalts : P.halts) (h : Cause.Reusable P c) :
      Source.Reusable P (.halted cell c)
  | made {f} (hf : P.closures f) : Source.Reusable P (.made f)
  | failing {f} (hf : P.closures f) : Source.Reusable P (.failing f)

inductive Link.Reusable (P : Program K) : Link D K → Prop where
  | now : Link.Reusable P .now
  | nowOf {f} (hf : P.closures f) : Link.Reusable P (.nowOf f)
  | nowSuccess {E A} : Link.Reusable P (.nowSuccess E A)
  | nowFailure {E A} : Link.Reusable P (.nowFailure E A)
  | failNow : Link.Reusable P .failNow
  | call {f} (hf : P.closures f) : Link.Reusable P (.call f)
  | outcomeOf {f} (hf : P.closures f) : Link.Reusable P (.outcomeOf f)
  | replace {that} (h : Node.Reusable P that) : Link.Reusable P (.replace that)
  | zip {that T join} (h : Node.Reusable P that) (hjoin : ∀ f, join = some f → P.closures f) :
      Link.Reusable P (.zip that T join)
  | join {earlier join} (h : Value.Reusable P earlier) (hjoin : ∀ f, join = some f → P.closures f) :
      Link.Reusable P (.join earlier join)
  | require {passes error} (hpasses : P.closures passes) (herror : P.closures error) :
      Link.Reusable P (.require passes error)
  | assert {passes payload} (hpasses : P.closures passes) (hpayload : P.closures payload) :
      Link.Reusable P (.assert passes payload)
  | absolve : Link.Reusable P .absolve
  | flatten : Link.Reusable P .flatten
  | provide {env} (h : Value.Reusable P env) : Link.Reusable P (.provide env)
  | supply {outer R S E A} (h : Node.Reusable P outer) : Link.Reusable P (.supply outer R S E A)
  | park : Link.Reusable P .park
  | applyTo {f} (hf : P.closures f) : Link.Reusable P (.applyTo f)
  | applyWhole {f} (hf : P.closures f) : Link.Reusable P (.applyWhole f)

inductive Node.Reusable (P : Program K) : Node D K → Prop where
  | succeed {v} (h : Value.Reusable P v) : Node.Reusable P (.succeed (.shared v))
  | failCause {source} (h : Source.Reusable P source) : Node.Reusable P (.failCause source)
  | total {f args} (hf : P.closures f) (hargs : ∀ v ∈ args, Value.Reusable P v) :
      Node.Reusable P (.total f args)
  | attempt {f args} (hf : P.closures f) (hargs : ∀ v ∈ args, Value.Reusable P v) :
      Node.Reusable P (.attempt f args)
  | flatMap {inner k} (h : Node.Reusable P inner) (hk : Continuation.Reusable P k) :
      Node.Reusable P (.flatMap inner k)
  | fold {inner onCause k} (h : Node.Reusable P inner) (hcause : Handler.Reusable P onCause)
      (hk : Continuation.Reusable P k) : Node.Reusable P (.fold inner onCause k)
  | provide {v inner} (hv : Value.Reusable P v) (h : Node.Reusable P inner) :
      Node.Reusable P (.provide (.shared v) inner)
  | read {R link} (h : Link.Reusable P link) : Node.Reusable P (.read R link)

inductive Continuation.Reusable (P : Program K) : Continuation D K → Prop where
  | passThrough : Continuation.Reusable P .passThrough
  | typed {T link} (h : Link.Reusable P link) : Continuation.Reusable P (.typed T link)

inductive Handler.Reusable (P : Program K) : Handler D K → Prop where
  | mapError {E f} (hf : P.closures f) : Handler.Reusable P (.mapError E f)
  | onCause {E f} (hf : P.closures f) : Handler.Reusable P (.onCause E f)
  | onFailure {E link} (h : Link.Reusable P link) : Handler.Reusable P (.onFailure E link)
  | escalate {E} : Handler.Reusable P (.escalate E)
  | narrow {E payload into} (hf : P.closures into) : Handler.Reusable P (.narrow E payload into)
  | typeCase {E T case} (h : Node.Reusable P case) : Handler.Reusable P (.typeCase E T case)

end

/-- All of these values are reusable. -/
def Value.AllReusable (P : Program K) (vs : List (Value D K)) : Prop := ∀ v ∈ vs, Value.Reusable P v

/-- So is what the outcome is of. -/
def Outcome.Reusable (P : Program K) : Outcome (Value D K) (Value D K) → Prop
  | .success v => v.Reusable P
  | .failure e => e.Reusable P

/-- So is what the evaluation ended in. -/
def Ending.Reusable (P : Program K) : Ending D K → Prop
  | .success v => v.Reusable P
  | .failure c => c.Reusable P

/-! ## Small consequences -/

section Consequences

variable {P : Program K} {v : Value D K}

theorem Value.AllReusable.nil : Value.AllReusable P ([] : List (Value D K)) :=
  fun _ hv => nomatch hv

theorem Value.AllReusable.singleton (h : v.Reusable P) : Value.AllReusable P [v] := by
  intro u hu
  cases List.mem_singleton.mp hu
  exact h

theorem Value.AllReusable.pair {u : Value D K} (hu : u.Reusable P) (hv : v.Reusable P) :
    Value.AllReusable P [u, v] := by
  intro x hx
  rcases List.mem_cons.mp hx with rfl | hx
  · exact hu
  · cases List.mem_singleton.mp hx
    exact hv

/-- The components of a reusable value are. -/
theorem Value.Reusable.components (h : v.Reusable P) : Value.AllReusable P v.components := by
  cases v with
  | tuple items =>
    cases h with
    | tuple h => exact h
  | _ => exact .singleton h

theorem Cause.Reusable.dieWith (h : v.Reusable P) : (Cause.dieWith v).Reusable P := .die h

theorem Cause.Reusable.ofFault (f : Fault) : (Cause.ofFault f : Cause (Value D K)).Reusable P :=
  .dieWith .fault

/-- To check the type of an error keeps a cause reusable. -/
theorem Cause.Reusable.typed {c : Cause (Value D K)} (h : c.Reusable P) (E : Ty) :
    (c.typed E).Reusable P := by
  cases h with
  | @fail e h =>
    simp only [Cause.typed]
    cases hcast : e.cast? E with
    | some e' =>
      obtain ⟨-, rfl⟩ := Value.cast?_eq_some_iff.mp hcast
      exact .fail h
    | none => exact .ofFault _
  | die h => exact .die h

/-- A parked value is reusable if the value was. -/
theorem Value.Reusable.parked (h : v.Reusable P) : (Unmatched.ofValue v).value.Reusable P := by
  cases v with
  | erased v =>
    cases h with
    | erased h => exact h
  | _ => exact h

theorem Node.reusable_ofFault (f : Fault) : (Node.ofFault f : Node D K).Reusable P :=
  .failCause (.shared (.ofFault f))

end Consequences

/-! ## How effects are made -/

/-- The effect is made by the constructors and combinators, of reusable values and of closures of
    the program. -/
inductive Effect.Made (P : Program K) : {R E A : Ty} → Effect D K R E A → Prop where
  | succeed {R E A v} (hv : Value.Reusable P v) : Made P (.succeed v : Effect D K R E A)
  | fail {R E A e} (he : Value.Reusable P e) : Made P (.fail e : Effect D K R E A)
  | ofOutcome {R E A o} (ho : Outcome.Reusable P o) : Made P (.ofOutcome o : Effect D K R E A)
  | ofOption {R E A v? onNone} (hv : ∀ v, v? = some v → Value.Reusable P v)
      (hnone : P.closures onNone) : Made P (.ofOption v? onNone : Effect D K R E A)
  | haltWith {R E A f} (hf : P.closures f) : Made P (.haltWith f : Effect D K R E A)
  /-- The effect that `halt` returns, in whatever world it is called. -/
  | halt {R E A cause} {τ : Type} {callees : Callees D K τ} {w w' : World τ} {e : Effect D K R E A}
      (hhalts : P.halts) (hcause : Cause.Reusable P cause)
      (h : (Effect.halt cause : Act D K τ _).exec callees w = some (.ok e, w')) : Made P e
  | die {R E A payload} (h : Value.Reusable P payload) : Made P (.die payload : Effect D K R E A)
  | total {R E A f} (hf : P.closures f) : Made P (.total f : Effect D K R E A)
  | attempt {R E A f} (hf : P.closures f) : Made P (.attempt f : Effect D K R E A)
  | accessM {R E A f} (hf : P.closures f) : Made P (.accessM f : Effect D K R E A)
  | access {R E A f} (hf : P.closures f) : Made P (.access f : Effect D K R E A)
  | accessOutcome {R E A f} (hf : P.closures f) : Made P (.accessOutcome f : Effect D K R E A)
  | environment {R E} : Made P (.environment : Effect D K R E R)
  | ofFunction {E A T f} (hf : P.closures f) :
      Made P (.ofFunction f : Effect D K (.arguments T) E A)
  | ofCallFunction {E A T f} (hf : P.closures f) :
      Made P (.ofCallFunction f : Effect D K (.arguments T) E A)
  /-- An effect that was a value. -/
  | ofValue {R E A} {e : Effect D K R E A} (h : Value.Reusable P (.effect R E A e.node)) : Made P e
  | map {R E A B f} {e : Effect D K R E A} (he : Made P e) (hf : P.closures f) :
      Made P (e.map f : Effect D K R E B)
  | andThen {R E A B f} {e : Effect D K R E A} (he : Made P e) (hf : P.closures f) :
      Made P (e.andThen f : Effect D K R E B)
  | followedBy {R E A B} {e : Effect D K R E A} {that : Effect D K R E B} (he : Made P e)
      (hthat : Made P that) : Made P (e.followedBy that)
  | zip {R E A B} {e : Effect D K R E A} {that : Effect D K R E B} (he : Made P e)
      (hthat : Made P that) : Made P (e.zip that)
  | zipWith {R E A B C f} {e : Effect D K R E A} {that : Effect D K R E B} (he : Made P e)
      (hthat : Made P that) (hf : P.closures f) : Made P (e.zipWith that f : Effect D K R E C)
  | require {R E A passes error} {e : Effect D K R E A} (he : Made P e)
      (hpasses : P.closures passes) (herror : P.closures error) : Made P (e.require passes error)
  | assert {R E A passes payload} {e : Effect D K R E A} (he : Made P e)
      (hpasses : P.closures passes) (hpayload : P.closures payload) :
      Made P (e.assert passes payload)
  | absolve {R E A} {e : Effect D K R E (.outcome E A)} (he : Made P e) : Made P e.absolve
  | flatten {R E A} {e : Effect D K R E (.effect R E A)} (he : Made P e) : Made P e.flatten
  | mapError {R E E' A f} {e : Effect D K R E A} (he : Made P e) (hf : P.closures f) :
      Made P (e.mapError f : Effect D K R E' A)
  | foldM {R E E' A B onFailure onSuccess} {e : Effect D K R E A} (he : Made P e)
      (hfailure : P.closures onFailure) (hsuccess : P.closures onSuccess) :
      Made P (e.foldM onFailure onSuccess : Effect D K R E' B)
  | fold {R E E' A B onFailure onSuccess} {e : Effect D K R E A} (he : Made P e)
      (hfailure : P.closures onFailure) (hsuccess : P.closures onSuccess) :
      Made P (e.fold onFailure onSuccess : Effect D K R E' B)
  | recover {R E E' A f} {e : Effect D K R E A} (he : Made P e) (hf : P.closures f) :
      Made P (e.recover f : Effect D K R E' A)
  | orElse {R E E' A} {e : Effect D K R E A} {that : Effect D K R E' A} (he : Made P e)
      (hthat : Made P that) : Made P (e.orElse that)
  | either {R E E' A} {e : Effect D K R E A} (he : Made P e) :
      Made P (e.either : Effect D K R E' (.outcome E A))
  | swap {R E A} {e : Effect D K R E A} (he : Made P e) : Made P e.swap
  | orDie {R E E' A} {e : Effect D K R E A} (he : Made P e) : Made P (e.orDie : Effect D K R E' A)
  | foldCause {R E E' A B onCause onSuccess} {e : Effect D K R E A} (he : Made P e)
      (hcause : P.closures onCause) (hsuccess : P.closures onSuccess) :
      Made P (e.foldCause onCause onSuccess : Effect D K R E' B)
  | narrow {R E A payload into} {e : Effect D K R E A} (he : Made P e) (hinto : P.closures into) :
      Made P (e.narrow payload into)
  | provide {R R' E A env} {e : Effect D K R E A} (he : Made P e) (henv : Value.Reusable P env) :
      Made P (e.provide env : Effect D K R' E A)
  | swapEnvironments {R₁ R₂ E E' A} {e : Effect D K R₁ E (.effect R₂ E A)} (he : Made P e) :
      Made P (e.swapEnvironments : Effect D K R₂ E' (.effect R₁ E A))
  | matchTypes {R E A B} {e : Effect D K R E A} (he : Made P e) :
      Made P (e.matchTypes : Effect D K R E B)
  | atType {R E A T} {e : Effect D K R E A} {case : Effect D K T E A} (he : Made P e)
      (hcase : Made P case) : Made P (e.atType case)

namespace Effect

variable {P : Program K} {R E E' A B : Ty} {e : Effect D K R E A}

/-- A combinator of one link can be evaluated again if the effect and the link can. -/
theorem linked_reusable {link : Link D K} (he : e.node.Reusable P) (h : link.Reusable P) :
    (e.linked link : Effect D K R E B).node.Reusable P := .flatMap he (.typed h)

theorem folded_reusable {onFailure onSuccess : Link D K} (he : e.node.Reusable P)
    (hfailure : onFailure.Reusable P) (hsuccess : onSuccess.Reusable P) :
    (e.folded onFailure onSuccess : Effect D K R E' B).node.Reusable P :=
  .fold he (.onFailure hfailure) (.typed hsuccess)

/-- Whatever an effect is made by, it can be evaluated any number of times. -/
theorem Made.reusable (h : e.Made P) : e.node.Reusable P := by
  have hpair : ∀ f, (none : Option K) = some f → P.closures f := nofun
  have hclosure : ∀ {f : K}, P.closures f → ∀ g, some f = some g → P.closures g := by
    intro f hf g hg
    cases hg
    exact hf
  induction h with
  | succeed hv => exact .succeed hv
  | fail he => exact .failCause (.shared (.fail he))
  | @ofOutcome _ _ _ o ho =>
    cases o with
    | success v => exact .succeed ho
    | failure e => exact .failCause (.shared (.fail ho))
  | @ofOption _ _ _ v? _ hv hnone =>
    cases v? with
    | some v => exact .succeed (hv v rfl)
    | none => exact .failCause (.failing hnone)
  | haltWith hf => exact .failCause (.made hf)
  | halt hhalts hcause h =>
    cases h
    exact .failCause (.halted hhalts hcause)
  | die h => exact .failCause (.shared (.dieWith h))
  | total hf => exact .total hf Value.AllReusable.nil
  | attempt hf => exact .attempt hf Value.AllReusable.nil
  | accessM hf => exact .read (.call hf)
  | access hf => exact .read (.nowOf hf)
  | accessOutcome hf => exact .read (.outcomeOf hf)
  | environment => exact .read .now
  | ofFunction hf => exact .read (.applyTo hf)
  | ofCallFunction hf => exact .read (.applyWhole hf)
  | ofValue h =>
    cases h with
    | effect hnode => exact hnode
  | map _ hf ih => exact linked_reusable ih (.nowOf hf)
  | andThen _ hf ih => exact linked_reusable ih (.call hf)
  | followedBy _ _ ih hthat => exact linked_reusable ih (.replace hthat)
  | zip _ _ ih hthat => exact linked_reusable ih (.zip hthat hpair)
  | zipWith _ _ hf ih hthat => exact linked_reusable ih (.zip hthat (hclosure hf))
  | require _ hpasses herror ih => exact linked_reusable ih (.require hpasses herror)
  | assert _ hpasses hpayload ih => exact linked_reusable ih (.assert hpasses hpayload)
  | absolve _ ih => exact linked_reusable ih .absolve
  | flatten _ ih => exact linked_reusable ih .flatten
  | mapError _ hf ih => exact .fold ih (.mapError hf) .passThrough
  | foldM _ hfailure hsuccess ih => exact folded_reusable ih (.call hfailure) (.call hsuccess)
  | fold _ hfailure hsuccess ih => exact folded_reusable ih (.nowOf hfailure) (.nowOf hsuccess)
  | recover _ hf ih => exact folded_reusable ih (.call hf) .now
  | orElse _ _ ih hthat => exact folded_reusable ih (.replace hthat) .now
  | either _ ih => exact folded_reusable ih .nowFailure .nowSuccess
  | swap _ ih => exact folded_reusable ih .now .failNow
  | orDie _ ih => exact .fold ih .escalate (.typed .now)
  | foldCause _ hcause hsuccess ih => exact .fold ih (.onCause hcause) (.typed (.call hsuccess))
  | narrow _ hinto ih => exact .fold ih (.narrow hinto) (.typed .now)
  | provide _ henv ih => exact .provide henv ih
  | swapEnvironments _ ih => exact .read (.supply ih)
  | matchTypes _ ih => exact .flatMap ih (.typed .park)
  | atType _ _ ih hcase => exact .fold ih (.typeCase hcase) (.typed .now)

end Effect

end EffectMachine
