/-
  The laws of environments.

  To provide an environment is the local operation of a reader: it changes what is read by the
  effect it is put around, and nothing else.  So of two environments provided the inner one is read;
  to read the environment that is provided is to have it from the start; and it makes no difference
  whether an environment is provided to a sequence of effects or to each of them.

  On the two sides of such a law other scopes are open while the same closure is called, one that
  spans a whole sequence or several of them one after another.  Nobody can tell them apart, as what
  a node comes to depends on the environment bound innermost alone (`Node.result_provide_shared`);
  and so no law needs anything of the effects in it, not even that they are typed.

  An environment can also be bound for a run, once, instead of being provided as often as the effect
  is evaluated.  That uses up a cell of the library, and so the two can be told apart by their cells
  only.
-/
import EffectMachine.Proofs.Alikeness
import EffectMachine.Proofs.Depth
import EffectMachine.Proofs.MonadLaws

namespace EffectMachine

variable {D K σ : Type} {R R' R'' E E' A B : Ty}

/-! ## The laws, read off the trees -/

section Laws

variable [M : Language D K σ] {env : Option (Value D K)} {e : Effect D K R E A} {a : Value D K}

/-- An effect that is provided for means what it does in that environment, wherever it stands. -/
theorem Effect.provide_result :
    ((e.provide a : Effect D K R' E A).node.result env : Play D K σ _) =
      e.node.result (some a) :=
  Node.result_provide_shared _ _

/-- Of two environments that are provided the inner one is read. -/
theorem provide_provide (b : Value D K) :
    (((e.provide a : Effect D K R' E A).provide b : Effect D K R'' E A).node.result env :
        Play D K σ _) =
      (e.provide a : Effect D K R'' E A).node.result env := by
  simp only [Effect.provide_result]

/-- To read an environment that is provided takes a cell. -/
theorem environment_provide (ha : a.type = R) :
    (((Effect.environment : Effect D K R E R).provide a : Effect D K R' E R).node.result env :
        Play D K σ _) =
      Play.spend 1 >>= fun _ => (Effect.succeed a : Effect D K R' E R).node.result env := by
  have hcast : a.cast? R = some a := Value.cast?_eq_some_iff.mpr ⟨ha, rfl⟩
  rw [Effect.provide_result, Effect.environment, Node.result_read]
  simp only [Link.followEnvironment, hcast, Link.follow, Node.succeedOnce_result, Effect.succeed,
    Node.result_succeed]

/-- The closure is called when the environment is read. -/
theorem accessM_provide (ha : a.type = R) (f : K) :
    (((Effect.accessM f : Effect D K R E A).provide a : Effect D K R' E A).node.result env :
        Play D K σ _) =
      Play.act (M.effect f [a]) >>= fun node =>
        ((⟨node⟩ : Effect D K R E A).provide a : Effect D K R' E A).node.result env := by
  have hcast : a.cast? R = some a := Value.cast?_eq_some_iff.mpr ⟨ha, rfl⟩
  simp only [Effect.provide_result, Effect.accessM, Node.result_read, Link.followEnvironment, hcast,
    Link.follow]

/-- What a closure calls for, with an environment provided to it, is what another closure calls
    for with this environment bound. -/
theorem Language.Wraps.call_provide {f h : K}
    (hh : M.Wraps f h fun n : Effect D K R E B => (n.provide a : Effect D K R' E B))
    (v : Value D K) :
    ((Link.call h).followTyped A v >>= Node.result env : Play D K σ _) =
      (Link.call f).followTyped A v >>= Node.result (some a) := by
  simp only [Link.followTyped]
  cases v.cast? A with
  | none => simp only [pure_bind, Node.result_ofFault]
  | some v =>
    simp only [Link.follow, hh.result, Effect.provide_result]

/-- To provide for a sequence is to provide for its parts. -/
theorem andThen_provide {f h : K}
    (hh : M.Wraps f h fun n : Effect D K R E B => (n.provide a : Effect D K R' E B)) :
    (((e.andThen f : Effect D K R E B).provide a : Effect D K R' E B).node.result env :
        Play D K σ _) =
      ((e.provide a : Effect D K R' E A).andThen h : Effect D K R' E B).node.result env := by
  simp only [Effect.provide_result, Effect.andThen, Effect.linked_result]
  refine bind_congr fun ending => ?_
  cases ending with
  | success v => exact (hh.call_provide v).symm
  | failure c => rfl

/-- To provide for a fold is to provide for the effect and for what either closure makes. -/
theorem foldCause_provide {f g h h' : K}
    (hh : M.WrapsHandler f h fun n : Effect D K R E' B => (n.provide a : Effect D K R' E' B))
    (hh' : M.Wraps g h' fun n : Effect D K R E' B => (n.provide a : Effect D K R' E' B)) :
    (((e.foldCause f g : Effect D K R E' B).provide a : Effect D K R' E' B).node.result env :
        Play D K σ _) =
      ((e.provide a : Effect D K R' E A).foldCause h h' : Effect D K R' E' B).node.result env := by
  simp only [Effect.provide_result, Effect.foldCause_result]
  refine bind_congr fun ending => ?_
  cases ending with
  | success v => exact (hh'.call_provide v).symm
  | failure c => simp only [Handler.resume, hh.result, Effect.provide_result]

end Laws

/-! ## Environments of runs -/

/-- A run with an environment bound for it ends as one of the effect that the environment is
    provided to. -/
theorem Effect.runWith_sameEnds [L : Language D K σ] {P : Program K} {I : σ → Prop}
    (hL : L.Within P I) {e : Effect D K R E A} (he : e.Made P) {a : Value D K}
    (ha : a.Reusable P) :
    Act.SameEnds (World.Alike P I) (e.runWith a) (e.provide a : Effect D K .unit E A).run := by
  refine .of_agree World.Alike.untraced (runWith_ends e a) (run_ends _)
    (.of_matches (Q := fun _ => True) fun depth => ?_)
  have H : ProgramRun L P I (Callees.ofFuel depth) (some a) := by
    refine .ofFuel hL depth fun v hv => ?_
    cases hv
    exact ha
  rw [delivery_some, delivery_none, provide_result]
  exact Play.SameAs.spend_left 1
    (Play.SameAs.bind (H.result_sameAs he.reusable) fun ending _ => ending.deliver_matches)

/-! ## The laws, of what the machine does -/

/-- To provide an environment is the local operation of a reader.

    Take any runner that has room for its frames, with whatever environments are bound.  From any
    world, either side of each law ends if the other one does, and both end in the same value, in
    the same failure, in the same defect with the same name kept with it, or in the same payload
    raised.  They leave the same shared state, with the same calls noted in it in the same order,
    and the same causes handed over are there to be taken.  Nor does it make a difference on which
    runner an effect is evaluated that an environment is provided to, and so what is bound there.

    For effects that a program has made, the same goes for a run with an environment bound for it
    and for a run of the effect that the environment is provided to, on fresh runners and however
    deep the runs in them go. -/
theorem Effect.provide_lawful (M : Language D K (Noted D K σ)) (depth : Nat) {r : Runner D K}
    (hfit : r.settings.framesFit = true) (w : World (Noted D K σ)) :
    letI := M
    let Same (x y : Act D K (Noted D K σ) (Node D K)) : Prop :=
      r.Same World.Indistinct (Callees.ofFuel depth) x r y w
    -- what is read
    (∀ (R R' R'' E A : Ty) (e : Effect D K R E A) (a b : Value D K),
      Same (pure ((e.provide a : Effect D K R' E A).provide b : Effect D K R'' E A).node)
        (pure (e.provide a : Effect D K R'' E A).node)) ∧
    (∀ (R R' E : Ty) (a : Value D K), a.type = R →
      Same (pure ((environment : Effect D K R E R).provide a : Effect D K R' E R).node)
        (pure (succeed a : Effect D K R' E R).node)) ∧
    (∀ (R R' E A : Ty) (a : Value D K) (f : K), a.type = R →
      Same (pure ((accessM f : Effect D K R E A).provide a : Effect D K R' E A).node)
        ((fun node => ((⟨node⟩ : Effect D K R E A).provide a : Effect D K R' E A).node) <$>
          M.effect f [a])) ∧
    -- sequences
    (∀ (R R' E A B : Ty) (e : Effect D K R E A) (a : Value D K) (f h : K),
      M.Wraps f h (fun n : Effect D K R E B => (n.provide a : Effect D K R' E B)) →
        Same (pure ((e.andThen f : Effect D K R E B).provide a : Effect D K R' E B).node)
          (pure ((e.provide a : Effect D K R' E A).andThen h : Effect D K R' E B).node)) ∧
    (∀ (R R' E E' A B : Ty) (e : Effect D K R E A) (a : Value D K) (f g h h' : K),
      M.WrapsHandler f h (fun n : Effect D K R E' B => (n.provide a : Effect D K R' E' B)) →
      M.Wraps g h' (fun n : Effect D K R E' B => (n.provide a : Effect D K R' E' B)) →
        Same (pure ((e.foldCause f g : Effect D K R E' B).provide a : Effect D K R' E' B).node)
          (pure ((e.provide a : Effect D K R' E A).foldCause h h' : Effect D K R' E' B).node)) ∧
    -- surroundings
    (∀ (R R' R'' E A : Ty) (e : Effect D K R E A) (a : Value D K) (s : Runner D K),
      s.settings.framesFit = true →
        r.Same World.Indistinct (Callees.ofFuel depth) (pure (e.provide a : Effect D K R' E A).node)
          s (pure (e.provide a : Effect D K R'' E A).node) w) ∧
    (∀ (P : Program K) (I : Noted D K σ → Prop), M.Within P I →
      ∀ (R E A : Ty) (e : Effect D K R E A) (a : Value D K), e.Made P → a.Reusable P →
        Act.SameEnds (World.Alike P I) (e.runWith a) (e.provide a : Effect D K .unit E A).run) := by
  let _ := M
  intro Same
  let callees : Callees D K (Noted D K σ) := Callees.ofFuel depth
  have hagree : Callees.Alike World.Agree callees callees := Callees.ofFuel_agree depth
  have hsame : ∀ {s : Runner D K} {x y : Act D K (Noted D K σ) (Node D K)},
      s.settings.framesFit = true →
      Play.Indistinct (fun _ => True) callees (r.meaning x) (s.meaning y) →
        r.Same World.Indistinct callees x s y w := fun hfit' h =>
    Runner.same_of_matches hagree hfit hfit' World.Indistinct.untraced h ⟨rfl, trivial⟩
  refine ⟨?_, ?_, ?_, ?_, ?_, ?_, ?_⟩
  · intro R R' R'' E A e a b
    exact hsame hfit (.of_eq (provide_provide b))
  · intro R R' E a ha
    refine hsame hfit ?_
    show Play.Indistinct _ _ (Node.result _ _) (Node.result _ _)
    rw [environment_provide ha, Effect.succeed, Node.result_succeed]
    exact .spent 1 0 _
  · intro R R' E A a f ha
    refine hsame hfit (.of_eq ?_)
    show Node.result _ _ = _
    rw [accessM_provide ha, Runner.meaning, Play.act_map, bind_map_left]
  · intro R R' E A B e a f h hh
    exact hsame hfit (.of_eq (andThen_provide hh))
  · intro R R' E E' A B e a f g h h' hh hh'
    exact hsame hfit (.of_eq (foldCause_provide hh hh'))
  · intro R R' R'' E A e a s hfit'
    refine hsame hfit' (.of_eq ?_)
    show Node.result _ _ = Node.result _ _
    rw [provide_result, provide_result]
  · intro P I hP R E A e a he ha
    exact runWith_sameEnds hP he ha

/-! ### A language of scopes -/

/-- Closures that tell their names, that read, and that make an effect in the scope of a text. -/
inductive Scope where
  | tell (name : String)
  | ask
  | inside (text : String) (f : Scope)

namespace Scope

/-- Effects between texts. -/
abbrev Scoped : Type := Effect Unit Scope .text .text .text

/-- The effect in the scope of this text. -/
def around (text : String) (n : Scoped) : Scoped := n.provide (.text text)

/-- Closures note that they are called, except in the name of another. -/
def effect : Scope → List (Value Unit Scope) →
    Act Unit Scope (Noted Unit Scope Unit) (Node Unit Scope)
  | tell name, args => .noted (.effect (.tell name) args) (pure (.succeed (.shared (.text name))))
  | ask, args => .noted (.effect .ask args) (pure (.read .text .now))
  | inside text f, args => (fun node => (around text ⟨node⟩).node) <$> f.effect args

def handler : Scope → Cause (Value Unit Scope) →
    Act Unit Scope (Noted Unit Scope Unit) (Node Unit Scope)
  | tell name, c => .noted (.handler (.tell name) c) (pure (.succeed (.shared (.text name))))
  | ask, c => .noted (.handler .ask c) (pure (.read .text .now))
  | inside text f, c => (fun node => (around text ⟨node⟩).node) <$> f.handler c

end Scope

@[reducible]
def Language.scopes : Language Unit Scope (Noted Unit Scope Unit) where
  value _ _ := pure (.text "")
  test _ _ := pure true
  outcome _ _ := pure (.success (.text ""))
  effect := Scope.effect
  handler := Scope.handler
  cause _ := pure (.fail (.text ""))

theorem Scope.effect_within (f : Scope) (args : List (Value Unit Scope)) :
    (f.effect args).Within (Program.all False) (fun _ => True)
      (Node.Reusable (Program.all False)) := by
  induction f with
  | tell name => exact fun _ _ => ⟨trivial, .succeed .text⟩
  | ask => exact fun _ _ => ⟨trivial, .read .now⟩
  | inside text f ih =>
    rw [effect, map_eq_pure_bind]
    exact ih.bind fun node hnode => .provide .text hnode

theorem Scope.handler_within (f : Scope) (c : Cause (Value Unit Scope)) :
    (f.handler c).Within (Program.all False) (fun _ => True)
      (Node.Reusable (Program.all False)) := by
  induction f with
  | tell name => exact fun _ _ => ⟨trivial, .succeed .text⟩
  | ask => exact fun _ _ => ⟨trivial, .read .now⟩
  | inside text f ih =>
    rw [handler, map_eq_pure_bind]
    exact ih.bind fun node hnode => .provide .text hnode

theorem Language.scopes_within : Language.scopes.Within (Program.all False) fun _ => True where
  value _ _ := .text
  test _ _ := trivial
  outcome _ _ := .text
  effect _ _ := Scope.effect_within _ _
  handler _ _ := Scope.handler_within _ _
  cause _ := .fail .text

/-- All of the laws, and what is read by the last one of two effects in the scope of a text. -/
theorem Effect.provide_lawful_scopes :
    letI := Language.scopes
    let Same (x y : Act Unit Scope (Noted Unit Scope Unit) (Node Unit Scope)) : Prop :=
      Runner.fresh.Same World.Indistinct (Callees.ofFuel 1) x .fresh y (World.start ⟨(), []⟩)
    let here : Scope.Scoped := succeed (.text "here")
    let asked : Scope.Scoped := here.andThen .ask
    (Same (pure ((Scope.around "inner" asked).provide (.text "outermost") : Scope.Scoped).node)
        (pure (Scope.around "inner" asked).node) ∧
      Same (pure (Scope.around "inner" (environment : Scope.Scoped)).node)
        (pure (succeed (.text "inner") : Scope.Scoped).node) ∧
      Same (pure (Scope.around "inner" (accessM (.tell "a") : Scope.Scoped)).node)
        (Scope.effect (.inside "inner" (.tell "a")) [.text "inner"])) ∧
    (Same (pure (Scope.around "inner" asked).node)
        (pure ((Scope.around "inner" here).andThen (.inside "inner" .ask) : Scope.Scoped).node) ∧
      Same (pure (Scope.around "inner" (here.foldCause (.tell "a") .ask : Scope.Scoped)).node)
        (pure ((Scope.around "inner" here).foldCause (.inside "inner" (.tell "a"))
          (.inside "inner" .ask) : Scope.Scoped).node)) ∧
    (Runner.fresh.Same World.Indistinct (Callees.ofFuel 1) (pure (Scope.around "inner" asked).node)
        ⟨{}, #[.text "outer"], 0⟩ (pure (Scope.around "inner" asked).node) (World.start ⟨(), []⟩) ∧
      Act.SameEnds (World.Alike (Program.all False : Program Scope) fun _ => True)
        (asked.runWith (.text "inner"))
        (asked.provide (.text "inner") : Effect Unit Scope .unit .text .text).run) ∧
    ∃ w', Runner.fresh.Evaluates (Callees.ofFuel 1) (pure (Scope.around "inner" asked).node)
        (World.start ⟨(), []⟩) (.ok (.success (.text "inner"))) w' ∧
      w'.calls = [.effect .ask [.text "here"]] := by
  let _ := Language.scopes
  intro Same here asked
  obtain ⟨h₁, h₂, h₃, h₄, h₅, h₆, h₇⟩ := provide_lawful Language.scopes 1 (r := .fresh)
    Runner.fresh_framesFit (World.start ⟨(), []⟩)
  have hasked : asked.Made (Program.all False) := .andThen (.succeed .text) trivial
  refine ⟨⟨?_, ?_, ?_⟩, ⟨?_, ?_⟩, ⟨?_, ?_⟩, ?_⟩
  · exact h₁ .text .text .text .text .text asked (.text "inner") (.text "outermost")
  · exact h₂ .text .text .text (.text "inner") rfl
  · exact h₃ .text .text .text .text (.text "inner") (.tell "a") rfl
  · exact h₄ .text .text .text .text .text here (.text "inner") .ask _ fun _ => rfl
  · exact h₅ .text .text .text .text .text .text here (.text "inner") (.tell "a") .ask _ _
      (fun _ => rfl) fun _ => rfl
  · exact h₆ .text .text .text .text .text asked (.text "inner")
      ⟨{}, #[.text "outer"], 0⟩ (Runner.fresh_framesFit (K := Scope) (D := Unit))
  · exact h₇ (Program.all False) (fun _ => True) Language.scopes_within .text .text .text asked
      (.text "inner") hasked .text
  · have hruns : ∃ w', Runner.fresh.evaluate (Callees.ofFuel 1) 20 (Scope.around "inner" asked).node
        (World.start ⟨(), []⟩) = some (.ok (.success (.text "inner")), ⟨{}, #[], 5⟩, w') ∧
        w'.calls = [.effect .ask [.text "here"]] := ⟨_, rfl, rfl⟩
    obtain ⟨w', heval, hcalls⟩ := hruns
    exact ⟨w', .ended rfl heval, hcalls⟩

end EffectMachine
