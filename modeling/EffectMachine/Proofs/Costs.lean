/-
  What effects cost.

  The machine counts the nodes that it dispatches.  How many an effect takes is defined by that
  count, from dispatching its node to settling its ending, under whatever frames are pending
  (`Node.Takes`).  The reading of a node counts in the same way, which makes the number a
  compositional one: a node with a frame takes what the node inside takes, one for itself, and what
  the frame answers with.

  What that last part is differs from combinator to combinator, and often with the ending.  Most
  links and handlers answer with a node that is settled in the step it is dispatched in, so that it
  makes no difference what they do (`Play.Prompt`).  The others lead to an effect, which takes what
  it takes.  `Effect.Charged` is the table of all combinators, with what each of them adds
  (`Charge`), and `Effect.steps_compositional` says that the machine goes by the table.
-/
import EffectMachine.Effect.Function
import EffectMachine.Effect.TypeCases
import EffectMachine.Proofs.Matching
import EffectMachine.Proofs.Propagation

namespace EffectMachine

variable {D K σ α : Type}

/-! ## Counting nodes -/

section Counting

variable [L : Language D K σ] {callees : Callees D K σ} {env : Option (Value D K)}
  {node inner : Node D K} {out out' : Ending D K} {n n' : Nat} {w w' v' : World σ}

/-- With this environment bound innermost, the node takes the machine `n` dispatched nodes to come
    to the ending `out`, itself included, and leaves the world `w'` but for what was reported. 
    Which frames are pending, what is bound below and how many nodes were dispatched before plays no
    part in it. -/
def Node.Takes (callees : Callees D K σ) (env : Option (Value D K)) (node : Node D K)
    (w : World σ) (out : Ending D K) (n : Nat) (w' : World σ) : Prop :=
  ∀ (frames : List (Frame D K)) (envs : Array (Value D K)) (steps : Nat), envs.back? = env →
    ∃ u, Machine.Reaches callees (⟨.dispatch node, frames, envs, steps⟩, w)
      (⟨.settle out, frames, envs, steps + n⟩, u) ∧ u.Agree w'

/-- The reading counts as the machine does. -/
theorem Node.Denotes.takes (hc : Callees.Alike World.Agree callees callees)
    (h : node.Denotes callees env w (.ok (out, n)) w') : node.Takes callees env w out n w' := by
  rintro frames envs steps rfl
  obtain ⟨fuel, hdenote⟩ := h
  obtain ⟨u, hreach, hu⟩ := Machine.follows_of_fuel hc fuel frames envs steps hdenote (.refl w)
  exact ⟨u, hreach, hu.symm⟩

/-- The machine counts as the reading does. -/
theorem Node.Takes.denotes (hc : Callees.Alike World.Agree callees callees)
    (h : node.Takes callees env w out n w') :
    ∃ v', node.Denotes callees env w (.ok (out, n)) v' ∧ v'.Agree w' := by
  have hback : env.toArray.back? = env := by cases env <;> rfl
  obtain ⟨u, hreach, hu⟩ := h [] env.toArray 0 hback
  obtain ⟨fuel, hdrive⟩ := Machine.Ends.of_reaches hreach (.of_leaves .finish)
  obtain ⟨p, v', hp, -⟩ | ⟨out', n', w₁, v₁, less, -, hdenotes, hv₁, hrest⟩ :=
    Machine.settles_of_fuel hc fuel hdrive (.refl w)
  · cases hp
  · obtain ⟨-, -, ⟨m, w₂, hleads, -⟩ | ⟨hleaves, -⟩⟩ := Machine.drive_cases hrest
    · cases hleads
    · rw [hback] at hdenotes
      obtain ⟨rfl, rfl, rfl⟩ : out' = out ∧ n' = n ∧ w₁ = u := by
        generalize hsteps : 0 + n = total at hleaves
        cases hleaves
        exact ⟨rfl, by omega, rfl⟩
      exact ⟨v₁, hdenotes, hv₁.symm.trans hu⟩

/-- There is one number at most that a node takes. -/
theorem Node.Takes.unique (hc : Callees.Alike World.Agree callees callees)
    (h : node.Takes callees env w out n w') (h' : node.Takes callees env w out' n' v') :
    out = out' ∧ n = n' := by
  obtain ⟨u, hdenotes, -⟩ := h.denotes hc
  obtain ⟨u', hdenotes', -⟩ := h'.denotes hc
  cases (hdenotes.unique hdenotes').1
  exact ⟨rfl, rfl⟩

/-- A leaf is one node. -/
theorem Node.Takes.of_leaf (hc : Callees.Alike World.Agree callees callees)
    {play : Play D K σ (Ending D K)} (hleaf : node.leaf? = some play)
    (h : node.Takes callees env w out n w') : n = 1 := by
  obtain ⟨v', ⟨fuel, hdenote⟩, -⟩ := h.denotes hc
  cases fuel with
  | zero => cases hdenote
  | succ fuel =>
    rw [denote_leaf hleaf, map_eq_pure_bind] at hdenote
    obtain ⟨ending, w₁, -, hdone⟩ | ⟨p, -, herror⟩ := Play.bind_eq_some hdenote
    · cases hdone
      rfl
    · cases herror

/-- A node with a frame takes what the node inside takes, and one for itself; and if the frame
    answers, what the node takes that it answers with. -/
theorem Node.Takes.of_enter (hc : Callees.Alike World.Agree callees callees) {frame : Frame D K}
    (henter : node.enter? = some (inner, frame)) (h : node.Takes callees env w out n w') :
    ∃ first m w₁, inner.Takes callees env w first m w₁ ∧
      ((frame.answer? (σ := σ) first = none ∧ n = m + 1) ∨
        ∃ play next w₂ m', frame.answer? first = some play ∧
          play callees w₁ = some (.ok next, w₂) ∧ next.Takes callees env w₂ out m' w' ∧
          n = m + 1 + m') := by
  obtain ⟨v', ⟨fuel, hdenote⟩, hv'⟩ := h.denotes hc
  cases fuel with
  | zero => cases hdenote
  | succ fuel =>
    rw [denote_enter henter] at hdenote
    obtain ⟨⟨first, m⟩, w₁, hinner, hrest⟩ | ⟨p, -, herror⟩ := Play.bind_eq_some hdenote
    · refine ⟨first, m, w₁, Denotes.takes hc ⟨fuel, hinner⟩, ?_⟩
      simp only at hrest
      -- the frame answers and another node goes on, or the ending goes past it
      cases hframe : frame.answer? (σ := σ) first with
      | some play =>
        rw [hframe] at hrest
        obtain ⟨next, w₂, hplay, hmore⟩ | ⟨p, -, herror⟩ := Play.bind_eq_some hrest
        · obtain ⟨result, hnext, hresult⟩ := counting_eq_some hmore
          obtain ⟨m', rfl, rfl⟩ : ∃ m', result = .ok (out, m') ∧ n = m' + (m + 1) := by
            rcases result with p | ⟨out', m'⟩
            · cases hresult
            · cases hresult
              exact ⟨m', rfl, rfl⟩
          refine .inr ⟨play, next, w₂, m', rfl, hplay, ?_, by omega⟩
          intro frames envs steps hback
          obtain ⟨u, hreach, hu⟩ := Denotes.takes hc ⟨fuel, hnext⟩ frames envs steps hback
          exact ⟨u, hreach, hu.trans hv'⟩
        · cases herror
      | none =>
        rw [hframe] at hrest
        cases hrest
        exact .inl ⟨rfl, rfl⟩
    · cases herror

/-- A node that binds an environment takes what the node inside takes with it, and one for
    itself. -/
theorem Node.Takes.of_provide (hc : Callees.Alike World.Agree callees callees) {slot : Slot D K}
    {bound : Value D K} {w₁ : World σ} (htake : slot.take callees w = some (.ok (some bound), w₁))
    (h : (Node.provide slot inner).Takes callees env w out n w') :
    ∃ m, inner.Takes callees (some bound) w₁ out m w' ∧ n = m + 1 := by
  obtain ⟨v', hdenotes, hv'⟩ := h.denotes hc
  obtain ⟨result, hinner, hresult⟩ := (Denotes.provide_iff htake).mp hdenotes
  obtain ⟨m, rfl, rfl⟩ : ∃ m, result = .ok (out, m) ∧ n = m + 1 := by
    rcases result with p | ⟨out', m⟩
    · cases hresult
    · cases hresult
      exact ⟨m, rfl, rfl⟩
  refine ⟨m, ?_, rfl⟩
  intro frames envs steps hback
  obtain ⟨u, hreach, hu⟩ := hinner.takes hc frames envs steps hback
  exact ⟨u, hreach, hu.trans hv'⟩

/-- A node that reads the environment takes what it leads to, and one for itself. -/
theorem Node.Takes.of_read (hc : Callees.Alike World.Agree callees callees) {type : Ty}
    {link : Link D K} (h : (Node.read type link).Takes callees env w out n w') :
    ∃ next w₁ m, link.followEnvironment type env callees w = some (.ok next, w₁) ∧
      next.Takes callees env w₁ out m w' ∧ n = m + 1 := by
  obtain ⟨v', ⟨fuel, hdenote⟩, hv'⟩ := h.denotes hc
  cases fuel with
  | zero => cases hdenote
  | succ fuel =>
    rw [denote_read] at hdenote
    obtain ⟨next, w₁, hplay, hmore⟩ | ⟨p, -, herror⟩ := Play.bind_eq_some hdenote
    · obtain ⟨result, hnext, hresult⟩ := counting_eq_some hmore
      obtain ⟨m, rfl, rfl⟩ : ∃ m, result = .ok (out, m) ∧ n = m + 1 := by
        rcases result with p | ⟨out', m⟩
        · cases hresult
        · cases hresult
          exact ⟨m, rfl, rfl⟩
      refine ⟨next, w₁, m, hplay, ?_, rfl⟩
      intro frames envs steps hback
      obtain ⟨u, hreach, hu⟩ := Denotes.takes hc ⟨fuel, hnext⟩ frames envs steps hback
      exact ⟨u, hreach, hu.trans hv'⟩
    · cases herror

/-- The number of steps that a run leaves behind is the number of nodes that were taken, one more
    where the run binds an environment. -/
theorem Runner.evaluateWith_takes (hc : Callees.Alike World.Agree callees callees) {fuel : Nat}
    {r r' : Runner D K} {env : Option (Value D K)}
    (h : r.evaluateWith callees fuel env node w = some (.ok out, r', w')) :
    match env with
    | none => node.Takes callees r.environments.back? w out r'.lastSteps w'
    | some bound => ∃ m, node.Takes callees (some bound) (w.spent 1) out m w' ∧
        r'.lastSteps = m + 1 := by
  have hroot : ∀ {root : Node D K} {w₀ : World σ},
      r.evaluate callees fuel root w₀ = some (.ok out, r', w') →
        root.Takes callees r.environments.back? w₀ out r'.lastSteps w' := by
    intro root w₀ heval
    have hfit := framesFit_of_evaluate_ok heval
    obtain ⟨result, v', hdenotes, hends⟩ := denotes_of_evaluate hc hfit heval
    obtain ⟨m, rfl⟩ := hends.exists_eq_ok
    rw [hends.steps rfl]
    intro frames envs steps hback
    obtain ⟨u, hreach, hu⟩ := hdenotes.takes hc frames envs steps hback
    exact ⟨u, hreach, hu.trans hends.world.symm⟩
  cases env with
  | none => exact hroot h
  | some bound =>
    obtain ⟨s, halts, cells, trace⟩ := w
    have hentry : r.evaluate callees fuel (.provide (.once cells.size bound) node)
        ⟨s, halts, cells.push false, trace⟩ = some (.ok out, r', w') := h
    have htake : (Slot.once cells.size bound).take callees ⟨s, halts, cells.push false, trace⟩ =
        some (.ok (some bound), World.spent ⟨s, halts, cells, trace⟩ 1) := by
      simp only [Slot.take, Play.bind_apply, Play.take, takeCell_push, if_true]
      rfl
    exact (hroot hentry).of_provide hc htake

end Counting

/-! ## Answers that are settled at once -/

/-- Whatever node the play returns is a leaf. -/
def Play.Prompt [Language D K σ] (callees : Callees D K σ) (x : Play D K σ (Node D K)) : Prop :=
  ∀ ⦃w node w'⦄, x callees w = some (.ok node, w') →
    ∃ play : Play D K σ (Ending D K), node.leaf? = some play

/-- The links that answer with a leaf, whatever they are given. -/
def Link.prompt : Link D K → Bool
  | .call _ | .replace _ | .zip _ _ _ | .flatten | .provide _ => false
  | _ => true

/-- The handlers that do. -/
def Handler.prompt : Handler D K → Bool
  | .onFailure _ link => link.prompt
  | .onCause _ _ | .typeCase _ _ _ => false
  | _ => true

section Prompt

variable [Language D K σ] {callees : Callees D K σ}

namespace Play.Prompt

theorem of_leaf {node : Node D K} {play : Play D K σ (Ending D K)} (h : node.leaf? = some play) :
    Prompt callees (pure node) := by
  intro w next w' hplay
  cases hplay
  exact ⟨play, h⟩

/-- Only what is done last counts. -/
protected theorem bind (x : Play D K σ α) {f : α → Play D K σ (Node D K)}
    (h : ∀ a, Prompt callees (f a)) : Prompt callees (x >>= f) := by
  intro w node w' hplay
  obtain ⟨a, w₁, -, hrest⟩ | ⟨p, -, herror⟩ := Play.bind_eq_some hplay
  · exact h a hrest
  · cases herror

theorem succeedOnce (v : Value D K) : Prompt callees (Node.succeedOnce v) :=
  .bind _ fun _ => .of_leaf rfl

theorem haltOnce (c : Cause (Value D K)) : Prompt callees (Node.haltOnce c) :=
  .bind _ fun _ => .of_leaf rfl

theorem ofOutcomeOnce (o : Outcome (Value D K) (Value D K)) :
    Prompt callees (Node.ofOutcomeOnce o) := by
  cases o with
  | success v => exact succeedOnce v
  | failure e => exact haltOnce _

theorem ofFault (f : Fault) : Prompt callees (pure (Node.ofFault f) : Play D K σ (Node D K)) :=
  .of_leaf rfl

end Play.Prompt

/-- The prompt links, one by one; where one of them is given something it cannot use, it returns a
    fault, which is a leaf too. -/
theorem Link.follow_prompt {link : Link D K} (h : link.prompt = true) (v : Value D K) :
    Play.Prompt callees (link.follow v) := by
  cases link with
  | call | replace | zip | flatten | provide => cases h
  | now | nowSuccess | nowFailure | supply => exact .succeedOnce _
  | failNow | park => exact .haltOnce _
  | nowOf f => exact .bind _ fun _ => .succeedOnce _
  | outcomeOf f => exact .bind _ fun o => .ofOutcomeOnce o
  | join a how => exact .bind _ fun _ => .succeedOnce _
  | require passes other | assert passes other =>
    refine .bind _ fun passed => ?_
    cases passed with
    | true => exact .succeedOnce v
    | false => exact .bind _ fun _ => .haltOnce _
  | absolve =>
    cases v with
    | outcome e a o => exact .ofOutcomeOnce o
    | _ => exact .ofFault _
  | applyTo f => cases v <;> exact .of_leaf rfl
  | applyWhole f => exact .of_leaf rfl

theorem Link.followTyped_prompt {link : Link D K} (h : link.prompt = true) (type : Ty)
    (v : Value D K) : Play.Prompt callees (link.followTyped type v) := by
  unfold Link.followTyped
  split
  · exact follow_prompt h _
  · exact .ofFault _

/-- An environment of another type than the one declared is answered with a fault, whatever the
    link. -/
theorem Link.followEnvironment_prompt {link : Link D K} {type : Ty} {env : Option (Value D K)}
    (h : link.prompt = true ∨ ∀ v, env = some v → v.type ≠ type) :
    Play.Prompt callees (link.followEnvironment type env) := by
  cases env with
  | none => exact .ofFault _
  | some v =>
    simp only [followEnvironment]
    cases hcast : v.cast? type with
    | none => exact .ofFault _
    | some v' =>
      obtain ⟨htype, rfl⟩ := Value.cast?_eq_some_iff.mp hcast
      rcases h with hlink | hmismatch
      · exact follow_prompt hlink _
      · exact absurd htype (hmismatch v rfl)

theorem Handler.resume_prompt {onCause : Handler D K} (h : onCause.prompt = true)
    (c : Cause (Value D K)) : Play.Prompt callees (onCause.resume c) := by
  cases onCause with
  | onCause | typeCase => cases h
  | mapError error f => exact .bind _ fun _ => .haltOnce _
  | onFailure error link =>
    simp only [resume]
    cases c.typed error with
    | fail e => exact link.follow_prompt h e
    | die d => exact .haltOnce _
  | escalate error =>
    simp only [resume]
    cases c.typed error <;> exact .haltOnce _
  | narrow error payload into =>
    simp only [resume]
    cases c.typed error with
    | fail e => exact .haltOnce _
    | die d =>
      simp only
      cases d.cast? payload with
      | some p => exact .bind _ fun _ => .haltOnce _
      | none => exact .haltOnce _

end Prompt

/-! ## What a combinator adds -/

/-- What the whole takes beyond what the effect at its front has taken, once that has ended. -/
inductive Charge (D K σ : Type) where
  /-- So many nodes. -/
  | nodes (n : Nat)
  /-- One node, and those of the node that is chosen by this play. -/
  | chosen (next : Play D K σ (Node D K))
  /-- Two nodes and those of this one, and one more if it succeeds. -/
  | second (that : Node D K)
  /-- Two nodes, and those of this one with the value bound. -/
  | bound (v : Value D K) (case : Node D K)

namespace Charge

/-- The charge comes to `k` nodes where the effect at the front has left the world `w` and the whole
    ends in `out`. -/
def Costs [Language D K σ] (callees : Callees D K σ) (env : Option (Value D K)) (w : World σ)
    (out : Ending D K) (w' : World σ) : Charge D K σ → Nat → Prop
  | nodes n, k => k = n
  | chosen next, k => ∃ node w₁ m, next callees w = some (.ok node, w₁) ∧
      node.Takes callees env w₁ out m w' ∧ k = m + 1
  | second that, k => ∃ out₁ m w₁, that.Takes callees env { w with cells := w.cells.push false }
      out₁ m w₁ ∧ k = m + 2 + if out₁.isSuccess then 1 else 0
  | bound v case, k => ∃ m, case.Takes callees (some v) (w.spent 1) out m w' ∧ k = m + 2

/-- A charge that falls due on a success.  A failure goes past the whole, which is one node. -/
def onSuccess (charge : Value D K → Charge D K σ) : Ending D K → Charge D K σ
  | .success v => charge v
  | .failure _ => nodes 1

/-- A charge that falls due on a typed failure.  Any other ending is handed on by one more node. -/
def onFailure (charge : Value D K → Charge D K σ) : Ending D K → Charge D K σ
  | .failure (.fail x) => charge x
  | _ => nodes 2

end Charge

namespace Effect

/-- Effects that are a single node and read nothing. -/
inductive Plain : {R E A : Ty} → Effect D K R E A → Prop where
  | succeed {R E A v} : Plain (succeed v : Effect D K R E A)
  | fail {R E A x} : Plain (fail x : Effect D K R E A)
  | ofOutcome {R E A o} : Plain (ofOutcome o : Effect D K R E A)
  | ofOption {R E A v? f} : Plain (ofOption v? f : Effect D K R E A)
  | haltWith {R E A f} : Plain (haltWith f : Effect D K R E A)
  | halt {R E A cause} {τ : Type} {callees : Callees D K τ} {w w' : World τ} {e : Effect D K R E A}
      (h : (halt cause : Act D K τ _).exec callees w = some (.ok e, w')) : Plain e
  | die {R E A payload} : Plain (die payload : Effect D K R E A)
  | total {R E A f} : Plain (total f : Effect D K R E A)
  | attempt {R E A f} : Plain (attempt f : Effect D K R E A)

/-- Effects that make one node of the environment they read. -/
inductive Reading : {R E A : Ty} → Effect D K R E A → Prop where
  | access {R E A f} : Reading (access f : Effect D K R E A)
  | accessOutcome {R E A f} : Reading (accessOutcome f : Effect D K R E A)
  | environment {R E} : Reading (environment : Effect D K R E R)
  | ofFunction {T E A f} : Reading (ofFunction f : Effect D K (.arguments T) E A)
  | ofCallFunction {T E A f} : Reading (ofCallFunction f : Effect D K (.arguments T) E A)
  | swapEnvironments {R₁ R₂ E E' A} {e : Effect D K R₁ E (.effect R₂ E A)} :
      Reading (e.swapEnvironments : Effect D K R₂ E' (.effect R₁ E A))

open Charge in
/-- What each combinator adds to what the effect it is applied to takes, by how that ended. -/
inductive Charged [M : Language D K σ] : {R E A E' B : Ty} → Effect D K R E A →
    Effect D K R E' B → (Ending D K → Charge D K σ) → Prop where
  | map {R E A B f} {e : Effect D K R E A} :
      Charged e (e.map f : Effect D K R E B) (onSuccess fun _ => nodes 2)
  | require {R E A passes error} {e : Effect D K R E A} :
      Charged e (e.require passes error) (onSuccess fun _ => nodes 2)
  | assert {R E A passes payload} {e : Effect D K R E A} :
      Charged e (e.assert passes payload) (onSuccess fun _ => nodes 2)
  | absolve {R E A} {e : Effect D K R E (.outcome E A)} :
      Charged e e.absolve (onSuccess fun _ => nodes 2)
  | matchTypes {R E A B} {e : Effect D K R E A} :
      Charged e (e.matchTypes : Effect D K R E B) (onSuccess fun _ => nodes 2)
  | andThen {R E A B f} {e : Effect D K R E A} :
      Charged e (e.andThen f : Effect D K R E B)
        (onSuccess fun v => chosen (.act (M.effect f [v])))
  | followedBy {R E A B} {e : Effect D K R E A} {that : Effect D K R E B} :
      Charged e (e.followedBy that) (onSuccess fun _ => chosen (pure that.node))
  | flatten {R E A} {e : Effect D K R E (.effect R E A)} :
      Charged e e.flatten (onSuccess fun
        | .effect _ _ _ node => chosen (pure node)
        -- not met, as the value is of a type of effects
        | _ => nodes 2)
  | zip {R E A B} {e : Effect D K R E A} {that : Effect D K R E B} :
      Charged e (e.zip that) (onSuccess fun _ => second that.node)
  | zipWith {R E A B C f} {e : Effect D K R E A} {that : Effect D K R E B} :
      Charged e (e.zipWith that f : Effect D K R E C) (onSuccess fun _ => second that.node)
  | mapError {R E E' A f} {e : Effect D K R E A} :
      Charged e (e.mapError f : Effect D K R E' A) fun _ => nodes 2
  | fold {R E E' A B f g} {e : Effect D K R E A} :
      Charged e (e.fold f g : Effect D K R E' B) fun _ => nodes 2
  | either {R E E' A} {e : Effect D K R E A} :
      Charged e (e.either : Effect D K R E' (.outcome E A)) fun _ => nodes 2
  | orDie {R E E' A} {e : Effect D K R E A} :
      Charged e (e.orDie : Effect D K R E' A) fun _ => nodes 2
  | swap {R E A} {e : Effect D K R E A} : Charged e e.swap fun _ => nodes 2
  | narrow {R E A payload into} {e : Effect D K R E A} :
      Charged e (e.narrow payload into) fun _ => nodes 2
  | recover {R E E' A f} {e : Effect D K R E A} :
      Charged e (e.recover f : Effect D K R E' A)
        (onFailure fun x => chosen (.act (M.effect f [x])))
  | orElse {R E E' A} {e : Effect D K R E A} {that : Effect D K R E' A} :
      Charged e (e.orElse that) (onFailure fun _ => chosen (pure that.node))
  | foldM {R E E' A B f g} {e : Effect D K R E A} :
      Charged e (e.foldM f g : Effect D K R E' B) fun
        | .success v => chosen (.act (M.effect g [v]))
        | .failure (.fail x) => chosen (.act (M.effect f [x]))
        | .failure (.die _) => nodes 2
  | foldCause {R E E' A B f g} {e : Effect D K R E A} :
      Charged e (e.foldCause f g : Effect D K R E' B) fun
        | .success v => chosen (.act (M.effect g [v]))
        | .failure c => chosen (.act (M.handler f c))
  | atType {R E A T} {e : Effect D K R E A} {case : Effect D K T E A} :
      Charged e (e.atType case) fun
        | .failure (.die ⟨.unmatched u, _⟩) => match u.take? T with
          | some v => bound v case.node
          | none => nodes 2
        | _ => nodes 2

/-- Whenever the whole comes to an end, the effect at its front has come to an end before, and the
    whole takes what that took and the charge for its ending on top. -/
def Pays [Language D K σ] {R E A E' B : Ty} (callees : Callees D K σ) (I : σ → Prop)
    (env : Option (Value D K)) (e : Effect D K R E A) (whole : Effect D K R E' B)
    (charge : Ending D K → Charge D K σ) : Prop :=
  ∀ ⦃w out n w'⦄, I w.state → whole.node.Takes callees env w out n w' → ∃ first m w₁ k,
    e.node.Takes callees env w first m w₁ ∧ (charge first).Costs callees env w₁ out w' k ∧
      n = m + k

end Effect

/-! ## The table holds -/

section Table

variable [M : Language D K σ] {callees : Callees D K σ} {env : Option (Value D K)}
  {Γ : Signature K} {I : σ → Prop} {R E E' A B : Ty}

/-- The charge is for what the play returns: it is settled at once, or is the node that is chosen,
    or goes on with a second effect or with a case. -/
inductive Charge.Meets (callees : Callees D K σ) : Play D K σ (Node D K) → Charge D K σ → Prop where
  | prompt {play} (h : play.Prompt callees) : Meets callees play (nodes 2)
  | chosen {play} : Meets callees play (chosen play)
  | second {that B how v} : Meets callees ((Link.zip that B how).follow v) (second that)
  | bound {v case} :
      Meets callees (do return .provide (.once (← Play.cell) v) case) (bound v case)

/-- A continuation that was made for this once returns a leaf, whether its cell is there or not. -/
theorem Continuation.typedOnce_prompt {link : Link D K} (h : link.prompt = true) (cell : Nat)
    (type : Ty) (v : Value D K) :
    Play.Prompt callees ((Continuation.typedOnce cell type link).resume v) := by
  refine .bind _ fun there => ?_
  cases there with
  | true => exact link.followTyped_prompt h type v
  | false => exact .ofFault _

/-- With one for the whole itself, the charge is what the node takes that the play returns. -/
theorem Charge.Meets.costs (hc : Callees.Alike World.Agree callees callees)
    {play : Play D K σ (Node D K)} {charge : Charge D K σ} (h : Meets callees play charge)
    {next : Node D K} {out : Ending D K} {m : Nat} {w₁ w₂ w' : World σ}
    (hplay : play callees w₁ = some (.ok next, w₂)) (hnext : next.Takes callees env w₂ out m w') :
    charge.Costs callees env w₁ out w' (m + 1) := by
  cases h with
  | prompt hprompt =>
    obtain ⟨_, hleaf⟩ := hprompt hplay
    obtain rfl := hnext.of_leaf hc hleaf
    rfl
  | chosen => exact ⟨next, w₂, m, hplay, hnext, rfl⟩
  | second =>
    cases hplay
    obtain ⟨out₁, m₁, u, hthat, hframe⟩ := hnext.of_enter hc rfl
    refine ⟨out₁, m₁, u, hthat, ?_⟩
    cases out₁ with
    | success b =>
      -- the values are joined by one node more
      obtain ⟨hnone, -⟩ | ⟨reply, joined, w₃, m₂, hreply, hplay', hjoined, rfl⟩ := hframe
      · cases hnone
      · cases hreply
        obtain ⟨_, hleaf⟩ := Continuation.typedOnce_prompt rfl _ _ b hplay'
        obtain rfl := hjoined.of_leaf hc hleaf
        rfl
    | failure cause =>
      obtain ⟨-, rfl⟩ | ⟨reply, -, -, -, hreply, -⟩ := hframe
      · rfl
      · cases hreply
  | @bound v case =>
    obtain ⟨s, halts, cells, trace⟩ := w₁
    cases hplay
    have htake : (Slot.once cells.size v).take callees ⟨s, halts, cells.push false, trace⟩ =
        some (.ok (some v), World.spent ⟨s, halts, cells, trace⟩ 1) := by
      simp only [Slot.take, Play.bind_apply, Play.take, takeCell_push, if_true]
      rfl
    obtain ⟨m₁, hcase, rfl⟩ := hnext.of_provide hc htake
    exact ⟨m₁, hcase, rfl⟩

namespace Effect

variable {e : Effect D K R E A}

/-- An effect comes to typed endings. -/
theorem Built.takes_typed (he : e.Built Γ) (H : TypedRun M Γ I callees R env) {w w' : World σ}
    {out : Ending D K} {n : Nat} (hw : I w.state) (h : e.node.Takes callees env w out n w') :
    Ending.Typed Γ E A out := by
  obtain ⟨v', hdenotes, -⟩ := h.denotes H.agree
  exact (H.result_sound he.typed hw (Node.result_eq_some.mpr ⟨_, hdenotes, rfl⟩)).1

/-- It suffices to know what the frame makes of typed endings. -/
theorem Pays.of_enter (H : TypedRun M Γ I callees R env) (he : e.Built Γ)
    {whole : Effect D K R E' B} {charge : Ending D K → Charge D K σ} {frame : Frame D K}
    (henter : whole.node.enter? = some (e.node, frame))
    (h : ∀ first, Ending.Typed Γ E A first →
      (frame.answer? (σ := σ) first = none ∧ charge first = .nodes 1) ∨
        ∃ play, frame.answer? first = some play ∧ Charge.Meets callees play (charge first)) :
    Pays callees I env e whole charge := by
  intro w out n w' hw hwhole
  obtain ⟨first, m, w₁, hfirst, hframe⟩ := hwhole.of_enter H.agree henter
  refine ⟨first, m, w₁, ?_⟩
  obtain ⟨hskip, hcharge⟩ | ⟨play, hanswer, hmeets⟩ := h first (he.takes_typed H hw hfirst)
  · obtain ⟨-, rfl⟩ | ⟨play', -, -, -, hanswer', -⟩ := hframe
    · exact ⟨1, hfirst, hcharge ▸ rfl, rfl⟩
    · rw [hskip] at hanswer'
      cases hanswer'
  · obtain ⟨hskip, -⟩ | ⟨play', next, w₂, m', hanswer', hplay, hnext, rfl⟩ := hframe
    · rw [hanswer] at hskip
      cases hskip
    · obtain rfl : play = play' := Option.some.inj (hanswer.symm.trans hanswer')
      exact ⟨m' + 1, hfirst, hmeets.costs H.agree hplay hnext, by omega⟩

/-- An effect with a link behind it. -/
theorem linked_pays (H : TypedRun M Γ I callees R env) (he : e.Built Γ) {link : Link D K}
    {charge : Value D K → Charge D K σ}
    (h : ∀ v : Value D K, v.Fits Γ A → Charge.Meets callees (link.follow v) (charge v)) :
    Pays callees I env e (e.linked link : Effect D K R E B) (Charge.onSuccess charge) := by
  refine .of_enter H he rfl fun first hfirst => ?_
  cases first with
  | success v =>
    refine .inr ⟨_, rfl, ?_⟩
    show Charge.Meets callees (link.followTyped A v) (charge v)
    rw [Link.followTyped_of_fits hfirst]
    exact h v hfirst
  | failure cause => exact .inl ⟨rfl, rfl⟩

/-- A prompt link adds two nodes for a success: its own, and the leaf it returns. -/
theorem linked_pays_prompt (H : TypedRun M Γ I callees R env) (he : e.Built Γ) {link : Link D K}
    (h : link.prompt = true) :
    Pays callees I env e (e.linked link : Effect D K R E B)
      (Charge.onSuccess fun _ => .nodes 2) :=
  linked_pays H he fun v _ => .prompt (link.follow_prompt h v)

/-- An effect with a handler behind it, and a continuation. -/
theorem Pays.of_fold (H : TypedRun M Γ I callees R env) (he : e.Built Γ)
    {whole : Effect D K R E' B} {onCause : Handler D K} {k : Continuation D K}
    {charge : Ending D K → Charge D K σ} (hnode : whole.node = .fold e.node onCause k)
    (hvalue : ∀ v : Value D K, v.Fits Γ A → Charge.Meets callees (k.resume v) (charge (.success v)))
    (hcause : ∀ cause : Cause (Value D K), cause.Typed Γ E →
      Charge.Meets callees (onCause.resume cause) (charge (.failure cause))) :
    Pays callees I env e whole charge := by
  refine .of_enter H he (by rw [hnode]; rfl) fun first hfirst => ?_
  cases first with
  | success v => exact .inr ⟨_, rfl, hvalue v hfirst⟩
  | failure cause => exact .inr ⟨_, rfl, hcause cause hfirst⟩

/-- Two links, where the one that is followed is known by the ending; a defect is handed on by one
    more node. -/
theorem folded_pays (H : TypedRun M Γ I callees R env) (he : e.Built Γ)
    {onFailure onSuccess : Link D K} {charge : Ending D K → Charge D K σ}
    (hvalue : ∀ v : Value D K, v.Fits Γ A →
      Charge.Meets callees (onSuccess.follow v) (charge (.success v)))
    (herror : ∀ x : Value D K, x.Fits Γ E →
      Charge.Meets callees (onFailure.follow x) (charge (.failure (.fail x))))
    (hdefect : ∀ d, charge (.failure (.die d)) = .nodes 2) :
    Pays callees I env e (e.folded onFailure onSuccess : Effect D K R E' B) charge := by
  refine .of_fold H he rfl (fun v hv => ?_) fun cause hcause => ?_
  · show Charge.Meets callees (onSuccess.followTyped A v) _
    rw [Link.followTyped_of_fits hv]
    exact hvalue v hv
  · cases hcause with
    | fail htype hx =>
      rw [Handler.onFailure_fail ⟨htype, hx⟩]
      exact herror _ ⟨htype, hx⟩
    | @die _ d _ =>
      rw [Handler.onFailure_die, hdefect d]
      exact .prompt (.haltOnce _)

/-- The table holds of every effect that is typed. -/
theorem Charged.pays (H : TypedRun M Γ I callees R env) (he : e.Built Γ)
    {whole : Effect D K R E' B} {charge : Ending D K → Charge D K σ}
    (h : Charged e whole charge) : Pays callees I env e whole charge := by
  have hnow : ∀ v : Value D K, Charge.Meets callees (Link.now.follow v) (.nodes 2) :=
    fun v => .prompt (.succeedOnce v)
  -- a continuation that hands the value on, whatever its type
  have htyped : ∀ (type : Ty) (v : Value D K),
      Charge.Meets callees ((Continuation.typed type .now).resume v) (.nodes 2) :=
    fun type v => .prompt (Link.followTyped_prompt rfl type v)
  cases h with
  | map | require | assert | absolve | matchTypes => exact linked_pays_prompt H he rfl
  | andThen | followedBy => exact linked_pays H he fun v _ => .chosen
  | flatten =>
    refine linked_pays H he fun v hv => ?_
    obtain ⟨node, rfl, -⟩ := hv.exists_effect
    exact .chosen
  | zip | zipWith => exact linked_pays H he fun v _ => .second
  | mapError =>
    exact .of_fold H he rfl (fun v _ => .prompt (.succeedOnce v)) fun cause _ =>
      .prompt (Handler.resume_prompt rfl cause)
  | fold | either | swap =>
    exact folded_pays H he (fun v _ => .prompt (Link.follow_prompt rfl v))
      (fun x _ => .prompt (Link.follow_prompt rfl x)) fun _ => rfl
  | orDie | narrow =>
    exact .of_fold H he rfl (fun v _ => htyped A v) fun cause _ =>
      .prompt (Handler.resume_prompt rfl cause)
  | recover | orElse => exact folded_pays H he (fun v _ => hnow v) (fun x _ => .chosen) fun _ => rfl
  | foldM => exact folded_pays H he (fun v _ => .chosen) (fun x _ => .chosen) fun _ => rfl
  | foldCause =>
    refine .of_fold H he rfl (fun v hv => ?_) fun cause hcause => ?_
    · show Charge.Meets callees (Link.followTyped A (.call _) v) _
      rw [Link.followTyped_of_fits hv]
      exact .chosen
    · rw [Handler.onCause_resume hcause]
      exact .chosen
  | @atType _ T _ case =>
    refine .of_fold H he rfl (fun v _ => htyped A v) fun cause hcause => ?_
    simp only [Handler.resume, hcause.typed_eq]
    cases cause with
    | fail x => exact .prompt (.haltOnce _)
    | die d =>
      obtain ⟨payload, name⟩ := d
      cases payload with
      | unmatched u =>
        simp only
        cases u.take? T with
        | some v => exact .bound
        | none => exact .prompt (.haltOnce _)
      | _ => exact .prompt (.haltOnce _)

/-- A plain effect takes one node, in whatever it ends. -/
theorem Plain.takes (hc : Callees.Alike World.Agree callees callees) (h : e.Plain) {w w' : World σ}
    {out : Ending D K} {n : Nat} (htakes : e.node.Takes callees env w out n w') : n = 1 := by
  cases h with
  | succeed | fail | haltWith | die | total | attempt => exact htakes.of_leaf hc rfl
  | @ofOutcome o => cases o <;> exact htakes.of_leaf hc rfl
  | @ofOption v? f => cases v? <;> exact htakes.of_leaf hc rfl
  | halt hhalt =>
    cases hhalt
    exact htakes.of_leaf hc rfl

/-- To read takes two nodes where what is read leads to a leaf, or cannot be read. -/
theorem takes_read (hc : Callees.Alike World.Agree callees callees) {link : Link D K}
    (h : link.prompt = true ∨ ∀ v, env = some v → v.type ≠ R) {w w' : World σ} {out : Ending D K}
    {n : Nat} (htakes : (Node.read R link).Takes callees env w out n w') : n = 2 := by
  obtain ⟨next, w₁, m, hplay, hnext, rfl⟩ := htakes.of_read hc
  obtain ⟨_, hleaf⟩ := Link.followEnvironment_prompt h hplay
  rw [hnext.of_leaf hc hleaf]

/-- A reading effect takes one node to read and one for what it makes of it. -/
theorem Reading.takes (hc : Callees.Alike World.Agree callees callees) (h : e.Reading)
    {w w' : World σ} {out : Ending D K} {n : Nat}
    (htakes : e.node.Takes callees env w out n w') : n = 2 := by
  cases h <;> exact takes_read hc (.inl rfl) htakes

end Effect

end Table

/-- Steps are accounted for compositionally, and to the node.

    The number of steps that a run leaves behind is the number of nodes that the machine dispatches
    on its way from the node of the effect to its ending, with one more where the run binds an
    environment; and an effect takes the same number wherever it stands in a program, since the
    frames that are pending then play no part in `Node.Takes`, nor does anything that is bound but
    the innermost environment.  There is one such number at most.

    It adds up along the tree of the effect.  An effect from a value, a cause or a closure takes one
    node.  One that reads its environment takes two, also if the environment is missing or of
    another type; `accessM` takes what the effect takes that is made of the environment, and one. 
    To provide an environment takes one.  Every other combinator adds to what a typed effect takes
    as the table says (`Effect.Charged`), depending on how that effect has ended: a fixed number of
    nodes; or one and those of the effect that is chosen by the ending, which runs on in the world
    that the choice has left; or for a pair two, those of the second effect, and one if that
    succeeds; or for a type case that matches two and those of the case. -/
theorem Effect.steps_compositional (M : Language D K σ) {Γ : Signature K} {I : σ → Prop}
    (hM : M.Honours Γ I) (depth : Nat) :
    let callees : Callees D K σ := Callees.ofFuel depth
    -- runs
    (∀ (fuel : Nat) (r r' : Runner D K) (node : Node D K) (w w' : World σ) (out : Ending D K),
      r.evaluateWith callees fuel none node w = some (.ok out, r', w') →
        node.Takes callees r.environments.back? w out r'.lastSteps w') ∧
    (∀ (fuel : Nat) (r r' : Runner D K) (a : Value D K) (node : Node D K) (w w' : World σ)
        (out : Ending D K), r.evaluateWith callees fuel (some a) node w = some (.ok out, r', w') →
      ∃ n, node.Takes callees (some a) (w.spent 1) out n w' ∧ r'.lastSteps = n + 1) ∧
    (∀ (node : Node D K) (env : Option (Value D K)) (w w₁ w₂ : World σ) (out₁ out₂ : Ending D K)
        (n₁ n₂ : Nat), node.Takes callees env w out₁ n₁ w₁ → node.Takes callees env w out₂ n₂ w₂ →
      out₁ = out₂ ∧ n₁ = n₂) ∧
    -- constructors
    (∀ (R E A : Ty) (e : Effect D K R E A) (env : Option (Value D K)) (w w' : World σ)
        (out : Ending D K) (n : Nat), e.node.Takes callees env w out n w' →
      (e.Plain → n = 1) ∧ (e.Reading → n = 2)) ∧
    (∀ (R E A : Ty) (f : K) (env : Option (Value D K)) (w w' : World σ) (out : Ending D K)
        (n : Nat), (accessM f : Effect D K R E A).node.Takes callees env w out n w' →
      (∀ a, env = some a → a.type = R →
        (Charge.chosen (.act (M.effect f [a]))).Costs callees env w out w' n) ∧
      ((∀ a, env = some a → a.type ≠ R) → n = 2)) ∧
    -- combinators
    (∀ (R R' E A : Ty) (e : Effect D K R E A) (a : Value D K) (env : Option (Value D K))
        (w w' : World σ) (out : Ending D K) (n : Nat),
      (e.provide a : Effect D K R' E A).node.Takes callees env w out n w' →
        ∃ m, e.node.Takes callees (some a) w out m w' ∧ n = m + 1) ∧
    (∀ (R E A E' B : Ty) (e : Effect D K R E A) (whole : Effect D K R E' B)
        (charge : Ending D K → Charge D K σ), Charged e whole charge → e.Built Γ →
      ∀ env, Supplied Γ R env → Pays callees I env e whole charge) := by
  intro callees
  have hc : Callees.Alike World.Agree callees callees := Callees.ofFuel_agree depth
  refine ⟨?_, ?_, ?_, ?_, ?_, ?_, ?_⟩
  · intro fuel r r' node w w' out h
    exact Runner.evaluateWith_takes hc h
  · intro fuel r r' a node w w' out h
    exact Runner.evaluateWith_takes hc h
  · intro node env w w₁ w₂ out₁ out₂ n₁ n₂ h₁ h₂
    exact h₁.unique hc h₂
  · intro R E A e env w w' out n h
    exact ⟨fun hplain => hplain.takes hc h, fun hreading => hreading.takes hc h⟩
  · intro R E A f env w w' out n h
    constructor
    · rintro a rfl ha
      obtain ⟨next, w₁, m, hplay, hnext, rfl⟩ := h.of_read hc
      simp only [Link.followEnvironment, Value.cast?_eq_some_iff.mpr ⟨ha, rfl⟩] at hplay
      exact ⟨next, w₁, m, hplay, hnext, rfl⟩
    · intro hmismatch
      exact takes_read hc (.inr hmismatch) h
  · intro R R' E A e a env w w' out n h
    exact h.of_provide hc rfl
  · intro R E A E' B e whole charge hcharged he env henv
    exact hcharged.pays (.ofFuel hM depth henv) he

/-- Two effects in a row fail after three nodes, and the greeting that is chosen then brings them to
    five. -/
theorem Effect.steps_compositional_greeting :
    letI := Language.greeting
    let callees : Callees Unit Unit Unit := Callees.ofFuel 1
    let refused : Effect Unit Unit .unit .text .text :=
      (succeed (.text "please") : Effect Unit Unit .unit .text .text).followedBy (fail (.text "no"))
    let greeted : Effect Unit Unit .unit .text .text := refused.recover ()
    ∃ r' w' k w₁, Runner.fresh.evaluateWith callees 9 none greeted.node (World.start ()) =
        some (.ok (.success (.text "hello")), r', w') ∧
      refused.node.Takes callees none (World.start ()) (.failure (.fail (.text "no"))) 3 w₁ ∧
      (Charge.chosen (.act (Language.greeting.effect () [.text "no"]))).Costs callees none w₁
        (.success (.text "hello")) w' k ∧
      r'.lastSteps = 3 + k ∧ k = 2 := by
  let _ := Language.greeting
  intro callees refused greeted
  have hrefused : refused.Built Signature.greeting :=
    .followedBy (.succeed ⟨rfl, .text⟩) (.fail ⟨rfl, .text⟩)
  obtain ⟨hruns, -, hunique, -, -, -, htable⟩ :=
    steps_compositional Language.greeting Language.greeting_honours 1
  have hgreeted := hruns 9 Runner.fresh _ greeted.node (World.start ()) _ _ rfl
  obtain ⟨first, m, w₁, k, hfirst, hcharge, hsteps⟩ :=
    htable _ _ _ _ _ refused greeted _ .recover hrefused none .none trivial hgreeted
  have hrun := hruns 9 Runner.fresh _ refused.node (World.start ()) _ _ rfl
  obtain ⟨rfl, rfl⟩ := hunique _ _ _ _ _ _ _ _ _ hrun hfirst
  refine ⟨_, _, k, w₁, rfl, hfirst, hcharge, hsteps, ?_⟩
  have htotal : 5 = 3 + k := hsteps
  omega

end EffectMachine
