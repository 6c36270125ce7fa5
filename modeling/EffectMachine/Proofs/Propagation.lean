/-
  Failures and defects that nothing is done about.

  Most combinators leave some failures of the effect they are put around alone.  Those that put a
  node behind it (`map`, `zip`, `absolve` and so on) leave all of them alone, and so does the one
  that provides its environment; those that look at typed failures (`fold`, `recover`, `swap` and so
  on) leave defects alone, `narrow` those with a payload of another type, and `atType` those that
  do not hold a parked value of its type.  The first kind does so by skipping a frame, the second by
  taking the cause apart and raising it again, which costs one more node each time.

  A `Layer` is any one of these combinators with its arguments, and `Layers` are any number of them
  put around an effect one after the other.  Through whatever layers a failure passes that they
  leave alone, it comes out as it went in (`Runner.evaluate_layers`): no closure of a layer is
  called, no node evaluated but those of the layers themselves, and of a defect not even the name
  that its type goes by is changed, unless it holds a parked value that a type case looked at.
-/
import EffectMachine.Effect.Environment
import EffectMachine.Effect.Recovery
import EffectMachine.Effect.Sequence
import EffectMachine.Effect.TypeCases
import EffectMachine.Proofs.Refinement

namespace EffectMachine

variable {D K σ : Type}

/-! ## Layers -/

/-- A combinator around an effect of the first three types, which makes one of the other three. -/
inductive Layer (D K : Type) : Ty → Ty → Ty → Ty → Ty → Ty → Type where
  | map {R E A B} (f : K) : Layer D K R E A R E B
  | andThen {R E A B} (f : K) : Layer D K R E A R E B
  | followedBy {R E A B} (that : Effect D K R E B) : Layer D K R E A R E B
  | zip {R E A B} (that : Effect D K R E B) : Layer D K R E A R E (.tuple [A, B])
  | zipWith {R E A B C} (that : Effect D K R E B) (f : K) : Layer D K R E A R E C
  | require {R E A} (passes error : K) : Layer D K R E A R E A
  | assert {R E A} (passes payload : K) : Layer D K R E A R E A
  | absolve {R E A} : Layer D K R E (.outcome E A) R E A
  | flatten {R E A} : Layer D K R E (.effect R E A) R E A
  | matchTypes {R E A B} : Layer D K R E A R E B
  | provide {R R' E A} (env : Value D K) : Layer D K R E A R' E A
  | mapError {R E E' A} (f : K) : Layer D K R E A R E' A
  | foldM {R E E' A B} (onFailure onSuccess : K) : Layer D K R E A R E' B
  | fold {R E E' A B} (onFailure onSuccess : K) : Layer D K R E A R E' B
  | recover {R E E' A} (f : K) : Layer D K R E A R E' A
  | orElse {R E E' A} (that : Effect D K R E' A) : Layer D K R E A R E' A
  | either {R E E' A} : Layer D K R E A R E' (.outcome E A)
  | swap {R E A} : Layer D K R E A R A E
  | orDie {R E E' A} : Layer D K R E A R E' A
  | narrow {R E A} (payload : Ty) (into : K) : Layer D K R E A R E A
  | atType {R E A} (type : Ty) (case : Effect D K type E A) : Layer D K R E A R E A

namespace Layer

variable {R R' E E' A B : Ty}

/-- The effect with the combinator around it. -/
def wrap : Layer D K R E A R' E' B → Effect D K R E A → Effect D K R' E' B
  | map f, e => e.map f
  | andThen f, e => e.andThen f
  | followedBy that, e => e.followedBy that
  | zip that, e => e.zip that
  | zipWith that f, e => e.zipWith that f
  | require passes error, e => e.require passes error
  | assert passes payload, e => e.assert passes payload
  | absolve, e => e.absolve
  | flatten, e => e.flatten
  | matchTypes, e => e.matchTypes
  | provide env, e => e.provide env
  | mapError f, e => e.mapError f
  | foldM onFailure onSuccess, e => e.foldM onFailure onSuccess
  | fold onFailure onSuccess, e => e.fold onFailure onSuccess
  | recover f, e => e.recover f
  | orElse that, e => e.orElse that
  | either, e => e.either
  | swap, e => e.swap
  | orDie, e => e.orDie
  | narrow payload into, e => e.narrow payload into
  | atType _ case, e => e.atType case

/-- The environment that the effect inside sees, where this one is bound outside. -/
def sees : Layer D K R E A R' E' B → Option (Value D K) → Option (Value D K)
  | provide env, _ => some env
  | _, env => env

/-- The handler for causes, if the combinator looks at them. -/
def handler? : Layer D K R E A R' E' B → Option (Handler D K)
  | @mapError _ _ _ E _ _ f => some (.mapError E f)
  | @foldM _ _ _ E _ _ _ f _ => some (.onFailure E (.call f))
  | @fold _ _ _ E _ _ _ f _ => some (.onFailure E (.nowOf f))
  | @recover _ _ _ E _ _ f => some (.onFailure E (.call f))
  | @orElse _ _ _ E _ _ that => some (.onFailure E (.replace that.node))
  | @either _ _ _ E _ A => some (.onFailure E (.nowFailure E A))
  | @swap _ _ _ E _ => some (.onFailure E .now)
  | @orDie _ _ _ E _ _ => some (.escalate E)
  | @narrow _ _ _ E _ payload into => some (.narrow E payload into)
  | @atType _ _ _ E _ type case => some (.typeCase E type case.node)
  | _ => none

/-- The combinator is a type case. -/
def looks : Layer D K R E A R' E' B → Bool
  | atType _ _ => true
  | _ => false

/-- The payload is not one that the combinator takes a defect with for its own. -/
def Leaves : Layer D K R E A R' E' B → Value D K → Prop
  | narrow type _, payload => payload.type ≠ type
  | atType type _, payload => ∀ u, payload = .unmatched u → u.value.type ≠ type
  | _, _ => True

/-- The nodes evaluated for the combinator alone, where it leaves the failure inside alone. -/
def cost (layer : Layer D K R E A R' E' B) : Nat := if layer.handler?.isSome then 2 else 1

/-- What a defect is once the combinator has left it alone: a type case makes the defect of a parked
    value anew, and then it carries the name of its payload's type. -/
def carry (layer : Layer D K R E A R' E' B) (d : Defect (Value D K)) : Defect (Value D K) :=
  if layer.looks = true ∧ d.payload.type = .unmatched then .ofValue d.payload else d

/-! ## One layer -/

/-- A combinator that looks at causes puts its handler behind the effect, and binds nothing. -/
theorem wrap_of_handler? {layer : Layer D K R E A R' E' B} {onCause : Handler D K}
    (h : layer.handler? = some onCause) (e : Effect D K R E A) :
    (∃ k, (layer.wrap e).node = .fold e.node onCause k) ∧ ∀ env, layer.sees env = env := by
  cases layer with
  | mapError | foldM | fold | recover | orElse | either | swap | orDie | narrow | atType =>
    cases h
    exact ⟨⟨_, rfl⟩, fun _ => rfl⟩
  | map | andThen | followedBy | zip | zipWith | require | assert | absolve | flatten
  | matchTypes | provide => cases h

variable [Language D K σ] {callees : Callees D K σ} {env : Option (Value D K)}
  {e : Effect D K R E A} {n : Nat} {w w₁ : World σ}

/-- A handler raises again the defects that its combinator leaves alone. -/
theorem resume_die {layer : Layer D K R E A R' E' B} {onCause : Handler D K}
    (h : layer.handler? = some onCause) {d : Defect (Value D K)}
    (hleaves : layer.Leaves d.payload) :
    (onCause.resume (.die d) : Play D K σ _) = Node.haltOnce (.die (layer.carry d)) := by
  cases layer with
  | mapError | foldM | fold | recover | orElse | either | swap | orDie => cases h; rfl
  | narrow type into =>
    cases h
    have hcast : d.cast? type = none := Value.cast?_eq_none_iff.mpr hleaves
    simp only [Handler.resume, Cause.typed, hcast]
    rfl
  | atType type case =>
    cases h
    obtain ⟨payload, name⟩ := d
    cases payload with
    | unmatched u =>
      have htake : u.take? type = none := Value.cast?_eq_none_iff.mpr (hleaves u rfl)
      simp only [Handler.resume, Cause.typed, htake]
      rfl
    | tuple items => cases items <;> rfl
    | _ => rfl
  | map | andThen | followedBy | zip | zipWith | require | assert | absolve | flatten
  | matchTypes | provide => cases h

/-- A combinator that does not look at causes leaves every failure alone. -/
theorem denotes_failure {layer : Layer D K R E A R' E' B} (hlayer : layer.handler? = none)
    {c : Cause (Value D K)}
    (he : e.node.Denotes callees (layer.sees env) w (.ok (.failure c, n)) w₁) :
    (layer.wrap e).node.Denotes callees env w (.ok (.failure c, n + layer.cost)) w₁ := by
  cases layer with
  | map | andThen | followedBy | zip | zipWith | require | assert | absolve | flatten
  | matchTypes => exact .enter_skipped rfl he rfl
  | provide bound => exact .provide rfl he
  | mapError | foldM | fold | recover | orElse | either | swap | orDie | narrow | atType =>
    cases hlayer

/-- A node that ends in a cause once does so when it is evaluated right away. -/
theorem denotes_haltOnce (callees : Callees D K σ) (env : Option (Value D K))
    (c : Cause (Value D K)) (w : World σ) :
    ∃ node w₁ w₂, Node.haltOnce c callees w = some (.ok node, w₁) ∧
      node.Denotes callees env w₁ (.ok (.failure c, 1)) w₂ ∧
      w₂.state = w.state ∧ w₂.halts = w.halts := by
  obtain ⟨node, w₁, hhalt, hnode⟩ := Node.haltOnce_denotes callees env w c
  exact ⟨node, w₁, w.spent 1, hhalt, hnode, rfl, rfl⟩

/-- A combinator leaves alone a defect that it does not take for its own. -/
theorem denotes_die (layer : Layer D K R E A R' E' B) {d : Defect (Value D K)}
    (hleaves : layer.Leaves d.payload)
    (he : e.node.Denotes callees (layer.sees env) w (.ok (.failure (.die d), n)) w₁) :
    ∃ w₂, (layer.wrap e).node.Denotes callees env w
        (.ok (.failure (.die (layer.carry d)), n + layer.cost)) w₂ ∧
      w₂.state = w₁.state ∧ w₂.halts = w₁.halts := by
  cases hlayer : layer.handler? with
  | none =>
    have hcarry : layer.carry d = d := by
      cases layer <;> first | rfl | cases hlayer
    rw [hcarry]
    exact ⟨w₁, denotes_failure hlayer he, rfl, rfl⟩
  | some onCause =>
    obtain ⟨⟨k, hwrap⟩, hsees⟩ := wrap_of_handler? hlayer e
    rw [hsees] at he
    obtain ⟨node, w₂, w₃, hhalt, hnode, hstate, hhalts⟩ :=
      denotes_haltOnce callees env (.die (layer.carry d)) w₁
    rw [← resume_die hlayer hleaves] at hhalt
    have hcost : layer.cost = 2 := by simp only [cost, hlayer, Option.isSome_some, if_true]
    rw [hwrap, hcost, show n + 2 = 1 + (n + 1) by omega]
    exact ⟨w₃, .answer rfl he rfl hhalt hnode, hstate, hhalts⟩

end Layer

/-! ## Any number of layers -/

/-- Combinators put around an effect one after the other. -/
inductive Layers (D K : Type) : Ty → Ty → Ty → Ty → Ty → Ty → Type where
  | nil {R E A} : Layers D K R E A R E A
  | snoc {R E A R₁ E₁ A₁ R' E' B} (inner : Layers D K R E A R₁ E₁ A₁)
      (layer : Layer D K R₁ E₁ A₁ R' E' B) : Layers D K R E A R' E' B

namespace Layers

variable {R E A : Ty}

def wrap : {R' E' B : Ty} → Layers D K R E A R' E' B → Effect D K R E A → Effect D K R' E' B
  | _, _, _, nil, e => e
  | _, _, _, snoc inner layer, e => layer.wrap (inner.wrap e)

/-- The environment that the effect inside sees, where this one is bound outside. -/
def sees : {R' E' B : Ty} → Layers D K R E A R' E' B → Option (Value D K) → Option (Value D K)
  | _, _, _, nil, env => env
  | _, _, _, snoc inner layer, env => inner.sees (layer.sees env)

/-- None of the combinators looks at causes. -/
def isBlind : {R' E' B : Ty} → Layers D K R E A R' E' B → Bool
  | _, _, _, nil => true
  | _, _, _, snoc inner layer => inner.isBlind && layer.handler?.isNone

/-- Some combinator is a type case. -/
def looks : {R' E' B : Ty} → Layers D K R E A R' E' B → Bool
  | _, _, _, nil => false
  | _, _, _, snoc inner layer => inner.looks || layer.looks

/-- The payload is not one that any of the combinators takes a defect with for its own. -/
def Leaves : {R' E' B : Ty} → Layers D K R E A R' E' B → Value D K → Prop
  | _, _, _, nil, _ => True
  | _, _, _, snoc inner layer, payload => inner.Leaves payload ∧ layer.Leaves payload

/-- The nodes evaluated for the combinators alone, where they leave the failure inside alone. -/
def cost : {R' E' B : Ty} → Layers D K R E A R' E' B → Nat
  | _, _, _, nil => 0
  | _, _, _, snoc inner layer => inner.cost + layer.cost

variable {R' E' B : Ty}

/-- The name that goes with a defect after it has passed through. -/
def typeName (layers : Layers D K R E A R' E' B) (d : Defect (Value D K)) : Option String :=
  if layers.looks = true ∧ d.payload.type = .unmatched then some Ty.unmatched.name else d.typeName

/-- Passing one more combinator changes the name as that combinator does. -/
theorem carry_typeName {R₁ E₁ A₁ : Ty} (inner : Layers D K R E A R₁ E₁ A₁)
    (layer : Layer D K R₁ E₁ A₁ R' E' B) (d : Defect (Value D K)) :
    layer.carry ⟨d.payload, inner.typeName d⟩ = ⟨d.payload, (inner.snoc layer).typeName d⟩ := by
  by_cases hlooks : layer.looks = true ∧ d.payload.type = .unmatched
  · obtain ⟨hlayer, htype⟩ := hlooks
    simp [Layer.carry, typeName, looks, hlayer, htype, Defect.ofValue]
  · have hiff : ((inner.snoc layer).looks = true ∧ d.payload.type = .unmatched) ↔
        (inner.looks = true ∧ d.payload.type = .unmatched) := by
      simp only [looks, Bool.or_eq_true]
      constructor
      · rintro ⟨hinner | hlayer, htype⟩
        · exact ⟨hinner, htype⟩
        · exact absurd ⟨hlayer, htype⟩ hlooks
      · rintro ⟨hinner, htype⟩
        exact ⟨.inl hinner, htype⟩
    simp only [Layer.carry, if_neg hlooks, typeName, hiff]

variable [Language D K σ] {callees : Callees D K σ} {env : Option (Value D K)}
  {e : Effect D K R E A} {n : Nat} {w w₁ : World σ}

/-- A failure goes past any number of layers that are blind to it, by induction on the layers from
    the inside. -/
theorem denotes_failure {layers : Layers D K R E A R' E' B} (hlayers : layers.isBlind = true)
    {c : Cause (Value D K)}
    (he : e.node.Denotes callees (layers.sees env) w (.ok (.failure c, n)) w₁) :
    (layers.wrap e).node.Denotes callees env w (.ok (.failure c, n + layers.cost)) w₁ := by
  induction layers generalizing env with
  | nil => exact he
  | snoc inner layer ih =>
    obtain ⟨hinner, hlayer⟩ := Bool.and_eq_true_iff.mp hlayers
    rw [cost, ← Nat.add_assoc]
    exact Layer.denotes_failure (Option.isNone_iff_eq_none.mp hlayer) (ih hinner he)

/-- A defect goes past them too if no layer takes its payload; a case that hands it on puts its own
    name to it. -/
theorem denotes_die {layers : Layers D K R E A R' E' B} {d : Defect (Value D K)}
    (hleaves : layers.Leaves d.payload)
    (he : e.node.Denotes callees (layers.sees env) w (.ok (.failure (.die d), n)) w₁) :
    ∃ w₂, (layers.wrap e).node.Denotes callees env w
        (.ok (.failure (.die ⟨d.payload, layers.typeName d⟩), n + layers.cost)) w₂ ∧
      w₂.state = w₁.state ∧ w₂.halts = w₁.halts := by
  induction layers generalizing env with
  | nil => exact ⟨w₁, he, rfl, rfl⟩
  | snoc inner layer ih =>
    obtain ⟨hinner, hlayer⟩ := hleaves
    obtain ⟨w₂, hpassed, hstate, hhalts⟩ := ih hinner he
    obtain ⟨w₃, hpassed', hstate', hhalts'⟩ :=
      layer.denotes_die (d := ⟨d.payload, inner.typeName d⟩) hlayer hpassed
    rw [carry_typeName, Nat.add_assoc] at hpassed'
    exact ⟨w₃, hpassed', hstate'.trans hstate, hhalts'.trans hhalts⟩

end Layers

/-! ## Whole evaluations -/

namespace Runner

section General

variable [Language D K σ] {callees : Callees D K σ} {fuel : Nat} {r r₀ r₁ : Runner D K}
  {node node' : Node D K} {c c' : Cause (Value D K)} {more : Nat} {w w₁ : World σ}

/-- An evaluation that has ended in a value or a cause had room for its frames. -/
theorem framesFit_of_evaluate_ok {ending : Ending D K}
    (h : r.evaluate callees fuel node w = some (.ok ending, r₁, w₁)) :
    r.settings.framesFit = true := by
  obtain ⟨-, hending, -⟩ | ⟨hfit, -⟩ | ⟨hfit, -⟩ := evaluate_cases h
  · cases hending
  · exact hfit
  · exact hfit

/-- If by the reading one node fails some nodes later than another does, then it does so when they
    are evaluated. -/
theorem evaluate_failure (hc : Callees.Alike World.Agree callees callees)
    (hsettings : r.settings = r₀.settings)
    (h : r₀.evaluate callees fuel node w = some (.ok (.failure c), r₁, w₁))
    (hpass : ∀ {n v}, node.Denotes callees r₀.environments.back? w (.ok (.failure c, n)) v →
      ∃ v', node'.Denotes callees r.environments.back? w (.ok (.failure c', n + more)) v' ∧
        v'.state = v.state ∧ v'.halts = v.halts) :
    ∃ fuel' r' w', r.evaluate callees fuel' node' w = some (.ok (.failure c'), r', w') ∧
      w'.state = w₁.state ∧ w'.halts = w₁.halts ∧ r'.lastSteps = r₁.lastSteps + more := by
  have hfit := framesFit_of_evaluate_ok h
  obtain ⟨result, v, hdenotes, hends⟩ := denotes_of_evaluate hc hfit h
  obtain ⟨n, rfl⟩ := hends.exists_eq_ok
  obtain ⟨v', hdenotes', hstate, hhalts⟩ := hpass hdenotes
  obtain ⟨fuel', r', w', heval, hends'⟩ :=
    evaluate_of_denotes hc ((congrArg Settings.framesFit hsettings).trans hfit) hdenotes'
  refine ⟨fuel', r', w', heval, ?_, ?_, ?_⟩
  · rw [hends'.world.state, hstate, hends.world.state]
  · rw [hends'.world.halts, hhalts, hends.world.halts]
  · rw [hends'.steps rfl, hends.steps rfl]

end General

/-- What nothing is done about comes out as it went in.

    Put any combinators around an effect, and let the effect alone, evaluated with the environment
    that it sees inside of them, end in a cause.  If none of them looks at causes, the whole ends in
    that same cause, whether a failure or a defect.  If the cause is a defect, and the payload is
    not one that a `narrow` or an `atType` among them takes it with for its own, the whole ends in a
    defect with that same payload; and with the same name, unless the payload is a parked value and
    there is a type case among them.

    In either case the whole has called the closures that the effect alone did, on the same
    arguments and in the same order, and no others, and it has dispatched as many nodes more as the
    combinators themselves amount to, so that no other effect among their arguments was run. -/
theorem evaluate_layers (L : Language D K σ) (depth : Nat) {R E A R' E' B : Ty}
    (layers : Layers D K R E A R' E' B) (e : Effect D K R E A) {r r₀ : Runner D K}
    (hsettings : r.settings = r₀.settings)
    (hsees : layers.sees r.environments.back? = r₀.environments.back?)
    (w : World (Noted D K σ)) :
    letI := L.noting
    let callees : Callees D K (Noted D K σ) := Callees.ofFuel depth
    ∀ fuel c r₁ w₁, r₀.evaluate callees fuel e.node w = some (.ok (.failure c), r₁, w₁) →
      (layers.isBlind = true →
        ∃ fuel' r' w',
          r.evaluate callees fuel' (layers.wrap e).node w = some (.ok (.failure c), r', w') ∧
          w'.calls = w₁.calls ∧ w'.state = w₁.state ∧ w'.halts = w₁.halts ∧
          r'.lastSteps = r₁.lastSteps + layers.cost) ∧
      (∀ d, c = .die d → layers.Leaves d.payload →
        ∃ fuel' r' w', r.evaluate callees fuel' (layers.wrap e).node w =
            some (.ok (.failure (.die ⟨d.payload, layers.typeName d⟩)), r', w') ∧
          w'.calls = w₁.calls ∧ w'.state = w₁.state ∧ w'.halts = w₁.halts ∧
          r'.lastSteps = r₁.lastSteps + layers.cost) := by
  let _ := L.noting
  intro callees fuel c r₁ w₁ he
  have hc : Callees.Alike World.Agree callees callees := Callees.ofFuel_agree depth
  constructor
  · -- any failure goes past layers that are blind
    intro hblind
    obtain ⟨fuel', r', w', heval, hstate, hhalts, hsteps⟩ :=
      evaluate_failure hc hsettings he fun hdenotes => by
        rw [← hsees] at hdenotes
        exact ⟨_, Layers.denotes_failure hblind hdenotes, rfl, rfl⟩
    exact ⟨fuel', r', w', heval, congrArg Noted.calls hstate, hstate, hhalts, hsteps⟩
  · -- a defect also goes past type cases that leave its payload alone
    rintro d rfl hleaves
    obtain ⟨fuel', r', w', heval, hstate, hhalts, hsteps⟩ :=
      evaluate_failure hc hsettings he fun hdenotes => by
        rw [← hsees] at hdenotes
        exact Layers.denotes_die hleaves hdenotes
    exact ⟨fuel', r', w', heval, congrArg Noted.calls hstate, hstate, hhalts, hsteps⟩

/-- A parked value that no case takes: of a closure, a type case for another type and an escalation,
    none is called, and the type case leaves its mark. -/
theorem evaluate_layers_parked :
    letI := Language.greeting.noting
    let parked : Value Unit Unit := .unmatched ⟨"str", .text "left over"⟩
    let layers : Layers Unit Unit .unit .unit .literal .unit .unit .text :=
      ((Layers.nil.snoc (.map ())).snoc (.atType .literal (.succeed parked))).snoc .orDie
    ∃ fuel r' w', fresh.evaluate (Callees.ofFuel 1) fuel (layers.wrap (.die parked)).node
        (World.start ⟨(), []⟩) =
          some (.ok (.failure (.die ⟨parked, some "type_match"⟩)), r', w') ∧
      w'.calls = [] ∧ r'.lastSteps = 6 := by
  let _ := Language.greeting.noting
  intro parked layers
  have hleaves : layers.Leaves parked := by
    refine ⟨⟨⟨trivial, trivial⟩, ?_⟩, trivial⟩
    intro u hparked
    rw [← Value.unmatched.inj hparked]
    exact nofun
  obtain ⟨fuel, r', w', heval, hcalls, -, -, hsteps⟩ :=
    (evaluate_layers Language.greeting 1 layers (.die parked) (r := fresh) rfl rfl
      (World.start ⟨(), []⟩) 2 _ _ _ rfl).2 _ rfl hleaves
  exact ⟨fuel, r', w', heval, hcalls, hsteps⟩

end Runner

end EffectMachine
