/-
  One alternative after another.

  `orElse` puts a second effect in the place of a first one that fails.  In a chain of them each
  alternative may fail with errors of a type of its own, and the chain fails with those of the last
  one.  A chain can be nested to the left or to the right, and while it runs quite different frames
  are pending then: to the left, the frames of all alternatives that are still to come wait behind
  the first one; to the right, no more than one does.

  Both go the same course, `Runner.Tries`: the alternatives in order, all on the runner that the
  chain is evaluated on and so with the environments that are bound where the chain stands, up to
  the first one that does not fail.  On plays this is a matter of associativity, `onFailure_assoc`:
  an alternative that comes after a chain is one more at its end.
-/
import EffectMachine.Proofs.Courses
import EffectMachine.Proofs.OutcomeLaws

namespace EffectMachine

variable {D K σ : Type} {R E E' A : Ty}

/-! ## Chains -/

/-- An effect among others that read the same and produce the same, with errors of its own type. -/
structure Choice (D K : Type) (R A : Ty) where
  error : Ty
  effect : Effect D K R error A

namespace Choice

/-- The one, and where it fails the other. -/
def orElse (x y : Choice D K R A) : Choice D K R A := ⟨y.error, x.effect.orElse y.effect⟩

/-- The chain that is nested to the left: whatever is there comes first. -/
def leftChain (first : Choice D K R A) (rest : List (Choice D K R A)) : Choice D K R A :=
  rest.foldl orElse first

/-- The chain that is nested to the right: whatever is left comes second. -/
def rightChain (first : Choice D K R A) : List (Choice D K R A) → Choice D K R A
  | [] => first
  | next :: rest => first.orElse (next.rightChain rest)

end Choice

/-- The alternatives are evaluated in order on this runner.  The first one that does not end in a
    typed failure is the last one evaluated, and its ending is that of the whole; if all of them
    fail, it is the ending of the last one. -/
def Runner.Tries [Language D K σ] (c : Callees D K σ) (r : Runner D K) :
    Choice D K R A → List (Choice D K R A) → Course D K σ
  | first, [] => r.Evaluates c (pure first.effect.node)
  | first, next :: rest => .Then (r.Evaluates c (pure first.effect.node)) fun
      | .failure (.fail _) => r.Tries c next rest
      | ending => .Ends ending

/-! ## Chains of plays -/

namespace Play

/-- The one, and where it ends in a typed failure the other. -/
def onFailure (x y : Play D K σ (Ending D K)) : Play D K σ (Ending D K) :=
  x >>= fun
    | .failure (.fail _) => y
    | ending => pure ending

/-- Which of two alternatives are put together first makes no difference to what is tried. -/
theorem onFailure_assoc (x y z : Play D K σ (Ending D K)) :
    (x.onFailure y).onFailure z = x.onFailure (y.onFailure z) := by
  unfold onFailure
  rw [bind_assoc]
  refine bind_congr fun ending => ?_
  rcases ending with (_ | _) | _ <;> rfl

/-- All of them in order, up to the first that does not end in a typed failure. -/
def tried (first : Play D K σ (Ending D K)) :
    List (Play D K σ (Ending D K)) → Play D K σ (Ending D K)
  | [] => first
  | next :: rest => first.onFailure (next.tried rest)

/-- An alternative put behind the first play is the first one of the rest. -/
theorem tried_onFailure (x y : Play D K σ (Ending D K)) (rest : List (Play D K σ (Ending D K))) :
    (x.onFailure y).tried rest = x.tried (y :: rest) := by
  cases rest with
  | nil => rfl
  | cons next rest => exact onFailure_assoc x y (next.tried rest)

variable {P : Program K} {I : σ → Prop} {c : Callees D K σ} {x x' y y' : Play D K σ (Ending D K)}
  {rest : List (Play D K σ (Ending D K))}

theorem SameAs.onFailure (hx : Play.Equal P I c x x') (hy : Play.Equal P I c y y') :
    Play.Equal P I c (x.onFailure y) (x'.onFailure y') := by
  refine hx.bind fun ending _ => ?_
  rcases ending with (_ | _) | _
  · exact hy
  · exact .pure trivial
  · exact .pure trivial

/-- By induction on the rest; the plays tried so far are what varies. -/
theorem SameAs.tried (hx : Play.Equal P I c x x') (hrest : ∀ y ∈ rest, Play.Equal P I c y y) :
    Play.Equal P I c (x.tried rest) (x'.tried rest) := by
  induction rest generalizing x x' with
  | nil => exact hx
  | cons next rest ih =>
    have hnext : Play.Equal P I c next next := hrest next (List.mem_cons_self ..)
    exact hx.onFailure (ih hnext fun y hy => hrest y (List.mem_cons_of_mem _ hy))

end Play

/-! ## What chains come to -/

section Chains

variable [M : Language D K σ] {Γ : Signature K} {P : Program K} {I : σ → Prop}
  {c : Callees D K σ} {env : Option (Value D K)}

/-- What an alternative comes to. -/
noncomputable abbrev Choice.result (env : Option (Value D K)) (x : Choice D K R A) :
    Play D K σ (Ending D K) := x.effect.node.result env

variable (H : TypedRun M Γ I c R env) (HP : ProgramRun M P I c env)

include H HP

/-- `orElse` tries the second choice where the first one ends in a typed failure. -/
theorem Choice.orElse_acts {x y : Choice D K R A} (hx : x.effect.Proper Γ P)
    (hy : y.effect.Proper Γ P) :
    Play.Equal P I c ((x.orElse y).result env) ((x.result env).onFailure (y.result env)) := by
  have hnext : (x.result env).onFailure (y.result env) = x.result env >>=
      Ending.onOutcome (Outcome.foldM (fun _ => y.result env) fun v => pure (.success v)) := by
    refine bind_congr fun ending => ?_
    rcases ending with (_ | _) | _ <;> rfl
  rw [hnext]
  exact x.effect.folded_acts H HP hx.built hx.made (fun v _ _ => .succeeded v)
    fun _ _ _ => hy.result_self HP

/-- A chain nested to the right, by induction on the alternatives from the front. -/
theorem Choice.rightChain_acts {first : Choice D K R A} {rest : List (Choice D K R A)}
    (hfirst : first.effect.Proper Γ P) (hrest : ∀ x ∈ rest, x.effect.Proper Γ P) :
    (first.rightChain rest).effect.Proper Γ P ∧
      Play.Equal P I c ((first.rightChain rest).result env)
        ((first.result env).tried (rest.map (Choice.result env))) := by
  induction rest generalizing first with
  | nil => exact ⟨hfirst, hfirst.result_self HP⟩
  | cons next rest ih =>
    obtain ⟨hchain, hacts⟩ := ih (hrest next (List.mem_cons_self ..))
      fun x hx => hrest x (List.mem_cons_of_mem _ hx)
    exact ⟨⟨hfirst.built.orElse hchain.built, hfirst.made.orElse hchain.made⟩,
      (orElse_acts H HP hfirst hchain).trans ((hfirst.result_self HP).onFailure hacts)⟩

/-- A chain nested to the left.  The first choice grows with each alternative, so the induction is
    for all first choices at once. -/
theorem Choice.leftChain_acts {first : Choice D K R A} {rest : List (Choice D K R A)}
    (hfirst : first.effect.Proper Γ P) (hrest : ∀ x ∈ rest, x.effect.Proper Γ P) :
    (first.leftChain rest).effect.Proper Γ P ∧
      Play.Equal P I c ((first.leftChain rest).result env)
        ((first.result env).tried (rest.map (Choice.result env))) := by
  induction rest generalizing first with
  | nil => exact ⟨hfirst, hfirst.result_self HP⟩
  | cons next rest ih =>
    have hnext := hrest next (List.mem_cons_self ..)
    have hlater : ∀ x ∈ rest, x.effect.Proper Γ P := fun x hx =>
      hrest x (List.mem_cons_of_mem _ hx)
    have hboth : (first.orElse next).effect.Proper Γ P :=
      ⟨hfirst.built.orElse hnext.built, hfirst.made.orElse hnext.made⟩
    obtain ⟨hchain, hacts⟩ := ih hboth hlater
    have hself : ∀ y ∈ rest.map (Choice.result env), Play.Equal P I c y y := by
      intro y hy
      obtain ⟨x, hx, rfl⟩ := List.mem_map.mp hy
      exact (hlater x hx).result_self HP
    refine ⟨hchain, hacts.trans ?_⟩
    rw [List.map_cons, ← Play.tried_onFailure]
    exact (orElse_acts H HP hfirst hnext).tried hself

omit H HP in
/-- The course of a chain is played by the alternatives in order. -/
theorem Choice.tries_played {r : Runner D K} (HP : ProgramRun M P I c r.environments.back?)
    (hfit : r.settings.framesFit = true) {first : Choice D K R A} {rest : List (Choice D K R A)}
    (hfirst : first.effect.Proper Γ P) (hrest : ∀ x ∈ rest, x.effect.Proper Γ P) :
    Course.Played P I c (r.Tries c first rest)
      ((first.result r.environments.back?).tried
        (rest.map (Choice.result r.environments.back?))) := by
  induction rest generalizing first with
  | nil => exact HP.node_played hfit hfirst.made.reusable
  | cons next rest ih =>
    have hlater := ih (hrest next (List.mem_cons_self ..))
      fun x hx => hrest x (List.mem_cons_of_mem _ hx)
    refine (HP.node_played hfit hfirst.made.reusable).then (hfirst.result_self HP)
      fun ending _ => ?_
    rcases ending with (_ | _) | _
    · exact hlater
    · exact .ends _
    · exact .ends _

end Chains

/-! ## The course of a chain, of what the machine does -/

/-- A chain of alternatives tries them in order, however it is nested.

    Take closures that do as they are declared and stay within a program, a runner that has room for
    its frames, with whatever environments are bound, and any number of effects the program has
    made, but at least one.  The chain of them, nested to the left or to the right, goes the course
    of its alternatives: one after another they are evaluated, each at most once and each with the
    environments bound that are bound for the chain, up to the first one that does not end in a
    typed failure.  What that ends in, a value, a defect or a payload raised, is what the chain ends
    in, and nothing is evaluated after it; if all of them fail, the chain ends as the last one does.

    So both chains are the same.  From any world either ends if the other one does, and both end in
    the same value, in the same failure, in the same defect with the same name kept with it, or in
    the same payload raised; and they leave the same shared state, with the same calls noted in it
    in the same order. -/
theorem Effect.alternatives_tried_in_order (M : Language D K (Noted D K σ)) {Γ : Signature K}
    {P : Program K} {I : Noted D K σ → Prop} (hM : M.Honours Γ I) (hP : M.Within P I) (depth : Nat)
    {r : Runner D K} (hfit : r.settings.framesFit = true) {R : Ty}
    (henv : Supplied Γ R r.environments.back?)
    (hbound : ∀ v, r.environments.back? = some v → v.Reusable P) {w : World (Noted D K σ)}
    (hw : I w.state) {A : Ty} {first : Choice D K R A} {rest : List (Choice D K R A)}
    (hfirst : first.effect.Proper Γ P) (hrest : ∀ x ∈ rest, x.effect.Proper Γ P) :
    letI := M
    let callees : Callees D K (Noted D K σ) := Callees.ofFuel depth
    let left : Node D K := (first.leftChain rest).effect.node
    let right : Node D K := (first.rightChain rest).effect.node
    Course.Agrees (World.Alike P I) (r.Tries callees first rest) (r.Evaluates callees (pure left))
      w ∧
    Course.Agrees (World.Alike P I) (r.Tries callees first rest) (r.Evaluates callees (pure right))
      w ∧
    r.Same (World.Alike P I) callees (pure left) r (pure right) w := by
  let _ := M
  intro callees left right
  have H : TypedRun M Γ I callees R r.environments.back? := .ofFuel hM depth henv
  have HP : ProgramRun M P I callees r.environments.back? := .ofFuel hP depth hbound
  have htries := Choice.tries_played HP hfit hfirst hrest
  obtain ⟨hleft, hleftActs⟩ := Choice.leftChain_acts H HP hfirst hrest
  obtain ⟨hright, hrightActs⟩ := Choice.rightChain_acts H HP hfirst hrest
  refine ⟨?_, ?_, ?_⟩
  · exact htries.agrees (HP.node_played hfit hleft.made.reusable) hleftActs.symm hw
  · exact htries.agrees (HP.node_played hfit hright.made.reusable) hrightActs.symm hw
  · exact HP.same_of_equal hfit hw (hleftActs.trans hrightActs.symm)

open Voice in
/-- A chain of three on a runner with an environment bound.  The first one fails where another
    environment is provided, the second one succeeds with the environment of the chain, and the word
    of the third one is not said. -/
theorem Effect.alternatives_tried_in_order_voices :
    letI := Language.voices
    let callees : Callees Unit Voice (Noted Unit Voice Unit) := Callees.ofFuel 1
    let w : World (Noted Unit Voice Unit) := World.start ⟨(), []⟩
    let r : Runner Unit Voice := ⟨{}, #[.text "outer"], 0⟩
    let lost : Choice Unit Voice .text .text :=
      ⟨.literal, (fail (.literal "lost") : Effect Unit Voice .unit .literal .text).provide .unit⟩
    let asked : Choice Unit Voice .text .text := ⟨.text, environment⟩
    let said : Choice Unit Voice .text .text := ⟨.fault, attempt (tells "c")⟩
    let left : Node Unit Voice := (lost.leftChain [asked, said]).effect.node
    let right : Node Unit Voice := (lost.rightChain [asked, said]).effect.node
    Course.Agrees Voice.Alike (r.Tries callees lost [asked, said]) (r.Evaluates callees (pure left))
      w ∧
    Course.Agrees Voice.Alike (r.Tries callees lost [asked, said])
      (r.Evaluates callees (pure right)) w ∧
    r.Same Voice.Alike callees (pure left) r (pure right) w ∧
    ∃ w', r.Evaluates callees (pure left) w (.ok (.success (.text "outer"))) w' ∧
      w'.calls = [] := by
  let _ := Language.voices
  intro callees w r lost asked said left right
  have hunit : (Value.unit : Value Unit Voice).Fits Signature.voices .unit :=
    ⟨rfl, .tuple fun _ hv => nomatch hv⟩
  have hlost : lost.effect.Proper Signature.voices (Program.all False) :=
    ⟨.provide (.fail ⟨rfl, .literal⟩) hunit, .provide (.fail .literal) unit_reusable⟩
  have hrest : ∀ x ∈ [asked, said], x.effect.Proper Signature.voices (Program.all False) := by
    intro x hx
    obtain rfl | rfl : x = asked ∨ x = said := by
      simpa only [List.mem_cons, List.not_mem_nil, or_false] using hx
    · exact ⟨.environment, .environment⟩
    · exact ⟨.attempt (.inl ⟨rfl, "c", rfl⟩), .attempt trivial⟩
  obtain ⟨h₁, h₂, h₃⟩ := alternatives_tried_in_order Language.voices Language.voices_honours
    Language.voices_within 1 (r := r) (Runner.fresh_framesFit (D := Unit) (K := Voice))
    (.some ⟨rfl, .text⟩)
    (fun v hv => by cases hv; exact .text) (w := w) trivial hlost hrest
  refine ⟨h₁, h₂, h₃, Runner.evaluates_of_evaluate 30 ?_⟩
  simp only [r]
  exact ⟨_, _, rfl, rfl⟩

end EffectMachine
