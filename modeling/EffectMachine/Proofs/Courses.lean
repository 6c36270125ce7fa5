/-
  Courses of evaluations.

  To say what a combinator does one would like to say: evaluate this effect, and then, if it ends
  so, that one.  A `Course` is such a description.  It relates the world one starts in to what
  things come to and to the world that is left, and it is put together of evaluations of the machine
  (`Runner.Evaluates`), of calls of closures, and of plain endings.  A course shows which effects
  are evaluated, in what order, on which runner and so with which environments bound; it knows
  nothing of frames, and nothing of the nodes that combinators make.

  That a combinator goes the course is an agreement of two courses, one of which is the evaluation
  of the combined effect (`Course.Agrees`).  The way to it leads through plays: a play tells what a
  course comes to (`Course.Played`), plays follow the courses in sequence, and courses agree if
  their plays do the same.
-/
import EffectMachine.Proofs.Alikeness

namespace EffectMachine

variable {D K σ α : Type}

/-- What things can come to from a world, and in what world. -/
abbrev Course (D K σ : Type) : Type := World σ → Raised D K (Ending D K) → World σ → Prop

namespace Course

/-- Nothing more is evaluated, and this is the ending. -/
inductive Ends (ending : Ending D K) : World σ → Raised D K (Ending D K) → World σ → Prop where
  | here {w} : Ends ending w (.ok ending) w

/-- One course, and then another that depends on how the first one ended.  What is raised ends the
    whole. -/
inductive Then (first : Course D K σ) (next : Ending D K → Course D K σ) :
    World σ → Raised D K (Ending D K) → World σ → Prop where
  | raised {w p w'} (h : first w (.error p) w') : Then first next w (.error p) w'
  | ended {w ending w₁ out w'} (h : first w (.ok ending) w₁) (hnext : next ending w₁ out w') :
      Then first next w out w'

/-- A call of a closure, and then a course that depends on what it returned. -/
inductive Calls (callees : Callees D K σ) (act : Act D K σ α) (next : α → Course D K σ) :
    World σ → Raised D K (Ending D K) → World σ → Prop where
  | raised {w p w'} (h : act.exec callees w = some (.error p, w')) :
      Calls callees act next w (.error p) w'
  | returned {w a w₁ out w'} (h : act.exec callees w = some (.ok a, w₁))
      (hnext : next a w₁ out w') : Calls callees act next w out w'

/-- The course, with something else made of what it ends in. -/
def ended (view : Ending D K → Ending D K) (first : Course D K σ) : Course D K σ :=
  Then first fun ending => Ends (view ending)

/-- The next course is for a success only; a failure is the ending of the whole. -/
def onSuccess (first : Course D K σ) (next : Value D K → Course D K σ) : Course D K σ :=
  Then first fun
    | .success v => next v
    | .failure cause => Ends (.failure cause)

/-- Whatever one of the two can come to from this world, the other can as well, and they leave
    worlds that `S` holds between. -/
structure Agrees (S : World σ → World σ → Prop) (x y : Course D K σ) (w : World σ) : Prop where
  left {out w'} (h : x w out w') : ∃ v', y w out v' ∧ S w' v'
  right {out v'} (h : y w out v') : ∃ w', x w out w' ∧ S w' v'

/-- To make nothing else of the endings there are is to leave the course as it is. -/
theorem Agrees.of_ended {S : World σ → World σ → Prop} {x y : Course D K σ} {w : World σ}
    {view : Ending D K → Ending D K} (h : Agrees S (x.ended view) y w)
    (hview : ∀ ending w', x w (.ok ending) w' → view ending = ending) : Agrees S x y w := by
  constructor
  · intro out w' hx
    cases out with
    | error p => exact h.left (.raised hx)
    | ok ending =>
      refine h.left (.ended hx ?_)
      rw [hview ending w' hx]
      exact .here
  · intro out v' hy
    obtain ⟨w', hx, hS⟩ := h.right hy
    cases hx with
    | raised hx => exact ⟨w', hx, hS⟩
    | ended hx hends =>
      cases hends
      rw [hview _ _ hx]
      exact ⟨w', hx, hS⟩

end Course

/-! ## Courses and plays -/

/-- In worlds that are alike the play comes to what the course comes to. -/
structure Course.Played (P : Program K) (I : σ → Prop) (c : Callees D K σ) (x : Course D K σ)
    (play : Play D K σ (Ending D K)) : Prop where
  left {w v out w'} (hwv : w.Alike P I v) (h : x w out w') :
    ∃ v', play c v = some (out, v') ∧ w'.Alike P I v'
  right {w v out v'} (hwv : w.Alike P I v) (h : play c v = some (out, v')) :
    ∃ w', x w out w' ∧ w'.Alike P I v'

/-- Of plays that come to the same, where the one comes to an end so does the other. -/
theorem Play.SameAs.exists_eq_some {P : Program K} {I : σ → Prop} {c : Callees D K σ}
    {Q : α → Prop} {x y : Play D K σ α} (h : Play.SameAs P I c Q x y) {w v w' : World σ}
    {out : Raised D K α} (hwv : w.Alike P I v) (hx : x c w = some (out, w')) :
    (∃ v', y c v = some (out, v') ∧ w'.Alike P I v') ∧ ∀ a, out = .ok a → Q a := by
  have hxy := h hwv
  rw [hx] at hxy
  generalize y c v = result at hxy ⊢
  cases hxy with
  | returned h' ha =>
    refine ⟨⟨_, rfl, h'⟩, fun a heq => ?_⟩
    cases heq
    exact ha
  | raised h' => exact ⟨⟨_, rfl, h'⟩, fun a heq => nomatch heq⟩

/-- What the second one of two plays ends in tells what the first one does. -/
theorem Play.SameAs.of_right {P : Program K} {I : σ → Prop} {c : Callees D K σ} {Q : α → Prop}
    {x y : Play D K σ α} (h : Play.SameAs P I c (fun _ => True) x y)
    (hy : Play.SameAs P I c Q y y) : Play.SameAs P I c Q x y :=
  (hy.trans h.symm).symm

namespace Course.Played

variable {P : Program K} {I : σ → Prop} {c : Callees D K σ} {x y : Course D K σ}
  {play play' : Play D K σ (Ending D K)}

protected theorem ends (ending : Ending D K) : Played P I c (Ends ending) (pure ending) where
  left hwv h := by
    cases h
    exact ⟨_, rfl, hwv⟩
  right hwv h := by
    cases h
    exact ⟨_, .here, hwv⟩

/-- A course may be played in any way that comes to the same. -/
theorem congr {Q : Ending D K → Prop} (h : x.Played P I c play)
    (hsame : Play.SameAs P I c Q play play') : x.Played P I c play' where
  left {w v out w'} hwv hx := by
    obtain ⟨v₁, hplay, hv₁⟩ := h.left hwv hx
    obtain ⟨⟨v', hplay', hv'⟩, -⟩ := hsame.exists_eq_some (.refl hwv.symm.inv) hplay
    exact ⟨v', hplay', hv₁.trans hv'⟩
  right {w v out v'} hwv hplay' := by
    obtain ⟨⟨v₁, hplay, hv₁⟩, -⟩ := hsame.symm.exists_eq_some (.refl hwv.symm.inv) hplay'
    obtain ⟨w', hx, hw'⟩ := h.right hwv hplay
    exact ⟨w', hx, hw'.trans hv₁.symm⟩

/-- Courses in sequence are played in sequence. -/
protected theorem «then» {Q : Ending D K → Prop} {next : Ending D K → Course D K σ}
    {f : Ending D K → Play D K σ (Ending D K)} (hx : x.Played P I c play)
    (hplay : Play.SameAs P I c Q play play)
    (hnext : ∀ ending, Q ending → (next ending).Played P I c (f ending)) :
    Played P I c (Then x next) (play >>= f) where
  left {w v out w'} hwv h := by
    rw [Play.bind_apply]
    cases h with
    | raised h =>
      obtain ⟨v', hv, hv'⟩ := hx.left hwv h
      exact ⟨v', by rw [hv], hv'⟩
    | @ended ending _ _ _ h hrest =>
      obtain ⟨v₁, hv, hv₁⟩ := hx.left hwv h
      obtain ⟨-, hQ⟩ := hplay.exists_eq_some (.refl hwv.symm.inv) hv
      rw [hv]
      exact (hnext ending (hQ ending rfl)).left hv₁ hrest
  right {w v out v'} hwv h := by
    obtain ⟨ending, v₁, hv, hrest⟩ | ⟨p, hv, rfl⟩ := Play.bind_eq_some h
    · obtain ⟨w₁, hw, hw₁⟩ := hx.right hwv hv
      obtain ⟨-, hQ⟩ := hplay.exists_eq_some (.refl hwv.symm.inv) hv
      obtain ⟨w', hrest', hw'⟩ := (hnext ending (hQ ending rfl)).right hw₁ hrest
      exact ⟨w', .ended hw hrest', hw'⟩
    · obtain ⟨w', hw, hw'⟩ := hx.right hwv hv
      exact ⟨w', .raised hw, hw'⟩

/-- A call and what goes on from it, if the act comes to the same in worlds that are alike. -/
protected theorem calls {Q : α → Prop} {act : Act D K σ α} {next : α → Course D K σ}
    {f : α → Play D K σ (Ending D K)} (hact : Play.SameAs P I c Q (Play.act act) (Play.act act))
    (hnext : ∀ a, Q a → (next a).Played P I c (f a)) :
    Played P I c (Calls c act next) (Play.act act >>= f) where
  left {w v out w'} hwv h := by
    rw [Play.bind_apply]
    cases h with
    | raised h =>
      obtain ⟨⟨v', hv, hv'⟩, -⟩ := hact.exists_eq_some hwv h
      exact ⟨v', by rw [hv], hv'⟩
    | @returned a _ _ _ h hrest =>
      obtain ⟨⟨v₁, hv, hv₁⟩, hQ⟩ := hact.exists_eq_some hwv h
      rw [hv]
      exact (hnext a (hQ a rfl)).left hv₁ hrest
  right {w v out v'} hwv h := by
    obtain ⟨a, v₁, hv, hrest⟩ | ⟨p, hv, rfl⟩ := Play.bind_eq_some h
    · obtain ⟨⟨w₁, hw, hw₁⟩, hQ⟩ := hact.exists_eq_some hwv.symm hv
      obtain ⟨w', hrest', hw'⟩ := (hnext a (hQ a rfl)).right hw₁.symm hrest
      exact ⟨w', .returned hw hrest', hw'⟩
    · obtain ⟨⟨w', hw, hw'⟩, -⟩ := hact.exists_eq_some hwv.symm hv
      exact ⟨w', .raised hw, hw'.symm⟩

/-- A course with another view of its ending is played by mapping the view over the play. -/
protected theorem ended {Q : Ending D K → Prop} (hx : x.Played P I c play)
    (hplay : Play.SameAs P I c Q play play) (view : Ending D K → Ending D K) :
    (x.ended view).Played P I c (view <$> play) := by
  rw [map_eq_pure_bind]
  exact hx.then hplay fun ending _ => .ends (view ending)

/-- Courses agree if they can be played in the same way. -/
theorem agrees {Q : Ending D K → Prop} (hx : x.Played P I c play) (hy : y.Played P I c play')
    (hsame : Play.SameAs P I c Q play play') {w : World σ} (hw : I w.state) :
    Agrees (World.Alike P I) x y w where
  left h := by
    obtain ⟨v₁, hplay, hv₁⟩ := (hx.congr hsame).left (.refl hw) h
    obtain ⟨v', hy', hv'⟩ := hy.right (.refl hw) hplay
    exact ⟨v', hy', hv₁.trans hv'.symm⟩
  right h := by
    obtain ⟨v₁, hplay, hv₁⟩ := hy.left (.refl hw) h
    obtain ⟨w', hx', hw'⟩ := (hx.congr hsame).right (.refl hw) hplay
    exact ⟨w', hx', hw'.trans hv₁.symm⟩

/-- A course ends as one of its plays does. -/
theorem ensures {Q : Ending D K → Prop} (hx : x.Played P I c play)
    (hplay : Play.SameAs P I c Q play play') {w w' : World σ} (hw : I w.state)
    {ending : Ending D K} (h : x w (.ok ending) w') : Q ending := by
  obtain ⟨v', hv, -⟩ := hx.left (.refl hw) h
  exact (hplay.exists_eq_some (.refl hw) hv).2 ending rfl

end Course.Played

/-! ## Evaluations as courses -/

section Evaluations

variable [L : Language D K σ] {P : Program K} {I : σ → Prop} {c : Callees D K σ}
  {r : Runner D K} {w : World σ}

/-- What an act of the program returns comes to the same once it is evaluated. -/
theorem ProgramRun.meaning_sameAs (HP : ProgramRun L P I c r.environments.back?)
    {start : Act D K σ (Node D K)} (hstart : start.Within P I (Node.Reusable P)) :
    Play.SameAs P I c (Ending.Reusable P) (r.meaning start) (r.meaning start) :=
  (HP.act hstart).bind fun _ hnode => HP.result_sameAs hnode

/-- An evaluation is played by its meaning. -/
theorem ProgramRun.evaluates_played (HP : ProgramRun L P I c r.environments.back?)
    (hfit : r.settings.framesFit = true) {start : Act D K σ (Node D K)}
    (hstart : start.Within P I (Node.Reusable P)) :
    Course.Played P I c (r.Evaluates c start) (r.meaning start) where
  left {w v out w'} hwv h := by
    obtain ⟨u, hmeaning, hu⟩ :=
      (Runner.exists_evaluates_iff HP.agree hfit).mp ⟨w', h, .refl w'⟩
    obtain ⟨⟨v', hv, hv'⟩, -⟩ := (HP.meaning_sameAs hstart).exists_eq_some hwv hmeaning
    exact ⟨v', hv, World.Alike.untraced hu (.refl v') hv'⟩
  right {w v out v'} hwv h := by
    obtain ⟨⟨u, hu, hu'⟩, -⟩ := (HP.meaning_sameAs hstart).exists_eq_some hwv.symm h
    obtain ⟨w', hends, hw'⟩ :=
      (Runner.exists_evaluates_iff HP.agree hfit).mpr ⟨u, hu, .refl u⟩
    exact ⟨w', hends, World.Alike.untraced hw'.symm (.refl v') hu'.symm⟩

/-- The evaluation of a node is played by what the node comes to. -/
theorem ProgramRun.node_played (HP : ProgramRun L P I c r.environments.back?)
    (hfit : r.settings.framesFit = true) {node : Node D K} (hnode : node.Reusable P) :
    Course.Played P I c (r.Evaluates c (pure node)) (node.result r.environments.back?) := by
  have hpure : (pure node : Act D K σ (Node D K)).Within P I (Node.Reusable P) := hnode
  exact HP.evaluates_played hfit hpure

/-- Nodes that come to the same are the same to evaluate. -/
theorem ProgramRun.same_of_equal (HP : ProgramRun L P I c r.environments.back?)
    (hfit : r.settings.framesFit = true) (hw : I w.state) {node node' : Node D K}
    (h : Play.SameAs P I c (fun _ => True) (node.result r.environments.back?)
      (node'.result r.environments.back?)) :
    r.Same (World.Alike P I) c (pure node) r (pure node') w :=
  Runner.same_of_matches HP.agree hfit hfit World.Alike.untraced h (.refl hw)

/-- A node that only makes something else of what another one comes to goes the course of that. -/
theorem ProgramRun.ended_agrees (HP : ProgramRun L P I c r.environments.back?)
    (hfit : r.settings.framesFit = true) (hw : I w.state) {node node' : Node D K}
    (hnode : node.Reusable P) (hnode' : node'.Reusable P) {view : Ending D K → Ending D K}
    (h : Play.SameAs P I c (fun _ => True) (node'.result r.environments.back?)
      (view <$> node.result r.environments.back?)) :
    Course.Agrees (World.Alike P I) (Course.ended view (r.Evaluates c (pure node)))
      (r.Evaluates c (pure node')) w :=
  ((HP.node_played hfit hnode).ended (HP.result_sameAs hnode) view).agrees
    (HP.node_played hfit hnode') h.symm hw

/-- The ending of an evaluation is as all endings of a play are that comes to the same. -/
theorem ProgramRun.ends_ensured (HP : ProgramRun L P I c r.environments.back?)
    (hfit : r.settings.framesFit = true) {node : Node D K} (hnode : node.Reusable P)
    {Q : Ending D K → Prop} {play : Play D K σ (Ending D K)}
    (hplay : Play.SameAs P I c (fun _ => True) (node.result r.environments.back?) play)
    (hself : Play.SameAs P I c Q play play) (hw : I w.state) {ending : Ending D K} {w' : World σ}
    (h : r.Evaluates c (pure node) w (.ok ending) w') : Q ending :=
  (HP.node_played hfit hnode).ensures (hplay.of_right hself) hw h

/-- Where the machine has come to an end the evaluation is over. -/
theorem Runner.evaluates_of_evaluate (fuel : Nat) {node : Node D K} {out : Raised D K (Ending D K)}
    {Q : World σ → Prop}
    (h : ∃ r' w', r.evaluate c fuel node w = some (out, r', w') ∧ Q w') :
    ∃ w', r.Evaluates c (pure node) w out w' ∧ Q w' :=
  have ⟨_, w', heval, hw'⟩ := h
  ⟨w', .ended rfl heval, hw'⟩

/-- An evaluation has one ending at most, and leaves one world. -/
theorem Runner.Evaluates.unique {start : Act D K σ (Node D K)} {out out' : Raised D K (Ending D K)}
    {w' v' : World σ} (h : r.Evaluates c start w out w') (h' : r.Evaluates c start w out' v') :
    out = out' ∧ w' = v' := by
  cases h with
  | raised h =>
    cases h' with
    | raised h' => simpa using h.symm.trans h'
    | ended hstart' => simpa using h.symm.trans hstart'
  | ended hstart h =>
    cases h' with
    | raised h' => simpa using hstart.symm.trans h'
    | ended hstart' h' =>
      cases hstart.symm.trans hstart'
      cases Runner.evaluate_unique h h'
      exact ⟨rfl, rfl⟩

/-- Evaluations that agree come to the same. -/
theorem Runner.same_of_agrees {S : World σ → World σ → Prop} {r' : Runner D K}
    {start start' : Act D K σ (Node D K)}
    (h : Course.Agrees S (r.Evaluates c start) (r'.Evaluates c start') w) :
    r.Same S c start r' start' w where
  left ending w' hends := by
    obtain ⟨v', hends', hS⟩ := h.left hends
    exact ⟨ending, v', hends', rfl, hS⟩
  right ending v' hends := by
    obtain ⟨w', hends', hS⟩ := h.right hends
    exact ⟨ending, w', hends', rfl, hS⟩

end Evaluations

/-! ## Effects of a program -/

/-- The effect is made by constructors and combinators, of closures that are declared for their use
    and belong to the program. -/
structure Effect.Proper (Γ : Signature K) (P : Program K) {R E A : Ty} (e : Effect D K R E A) :
    Prop where
  built : e.Built Γ
  made : e.Made P

/-- In alike worlds the effect comes to the same. -/
theorem Effect.Proper.result_self [L : Language D K σ] {Γ : Signature K} {P : Program K}
    {I : σ → Prop} {c : Callees D K σ} {env : Option (Value D K)} {R E A : Ty}
    {e : Effect D K R E A} (he : e.Proper Γ P) (HP : ProgramRun L P I c env) :
    Play.SameAs P I c (fun _ => True) (e.node.result env) (e.node.result env) :=
  (HP.result_sameAs he.made.reusable).weaken (fun _ _ h => h) (fun _ _ h => h) fun _ _ => trivial

/-- What is made of the endings of an effect makes no difference if it leaves as they are those
    that the effect does end in. -/
theorem Effect.same_of_view [L : Language D K σ] {Γ : Signature K} {P : Program K}
    {I : σ → Prop} {c : Callees D K σ} {r : Runner D K} {w : World σ} {R E A : Ty}
    (H : TypedRun L Γ I c R r.environments.back?) (HP : ProgramRun L P I c r.environments.back?)
    (hfit : r.settings.framesFit = true) (hw : I w.state) {e : Effect D K R E A} (he : e.Built Γ)
    (hm : e.Made P) {node : Node D K} (hnode : node.Reusable P) {view : Ending D K → Ending D K}
    (h : Play.SameAs P I c (fun _ => True) (node.result r.environments.back?)
      (view <$> e.node.result r.environments.back?))
    (hview : ∀ ending, Ending.Typed Γ E A ending →
      (∃ w', r.Evaluates c (pure e.node) w (.ok ending) w') → view ending = ending) :
    r.Same (World.Alike P I) c (pure e.node) r (pure node) w := by
  have hself := (HP.result_sameAs hm.reusable).and_sound (H.result_sound he.typed)
  have hviewed := HP.ended_agrees hfit hw hm.reusable hnode h
  refine Runner.same_of_agrees (hviewed.of_ended fun ending w' hends => ?_)
  obtain ⟨-, htyped⟩ := (HP.node_played hfit hm.reusable).ensures hself hw hends
  exact hview ending htyped ⟨w', hends⟩

/-! ### A language of voices -/

/-- Closures that say a word, and closures that do something about what others say. -/
inductive Voice where
  | tells (word : String)
  /-- Converts a value of this type into a literal. -/
  | into (T : Ty)
  /-- Converts what the closure returns, which is of this type. -/
  | converts (T : Ty) (f : Voice)
  /-- Calls the closure on both values of a pair. -/
  | onPair (f : Voice)
  | second
  /-- Of a pair of a pair and a value, the pair of a value and a pair. -/
  | regroups
  /-- The effect that succeeds with what the closure returns. -/
  | succeeds (f : Voice)
  /-- Calls the one closure on the failure of an outcome, the other on its success. -/
  | chooses (f g : Voice)

namespace Voice

/-- Effects that fail with literals and succeed with texts. -/
abbrev Voiced : Type := Effect Unit Voice .unit .literal .text

/-- What closures of this language do, with the words that are said noted. -/
abbrev Noting (α : Type) : Type := Act Unit Voice (Noted Unit Voice Unit) α

/-- A literal as it is, and the name of the type of any other value. -/
def converted (T : Ty) (v : Value Unit Voice) : Value Unit Voice :=
  if T = .literal then v else .literal T.name

def seconded : Value Unit Voice → Value Unit Voice
  | .tuple [_, y] => y
  | v => v

def regrouped : Value Unit Voice → Value Unit Voice
  | .tuple [.tuple [x, y], z] => .pair x (.pair y z)
  | v => v

def value : Voice → List (Value Unit Voice) → Noting (Value Unit Voice)
  | tells word, args => .noted (.value (tells word) args) (pure (.text word))
  | into T, args => pure (converted T (args.headD .unit))
  | converts T f, args => converted T <$> f.value args
  | onPair f, args => f.value (args.headD .unit).components
  | second, args => pure (seconded (args.headD .unit))
  | regroups, args => pure (regrouped (args.headD .unit))
  | succeeds _, _ | chooses _ _, _ => pure .unit

def test : Voice → Value Unit Voice → Noting Bool
  | tells word, v => .noted (.test (tells word) v) (pure false)
  | _, _ => pure true

def effect : Voice → List (Value Unit Voice) → Noting (Node Unit Voice)
  | tells word, args => .noted (.effect (tells word) args) (pure (.succeed (.shared (.text word))))
  | succeeds f, args => (fun v => (Effect.succeed v : Voiced).node) <$> f.value args
  | chooses f g, [.outcome _ _ o] => o.foldM (fun x => f.effect [x]) fun v => g.effect [v]
  | _, _ => pure (.succeed (.shared .unit))

end Voice

@[reducible]
def Language.voices : Language Unit Voice (Noted Unit Voice Unit) where
  value := Voice.value
  test := Voice.test
  outcome _ v := pure (.success v)
  effect := Voice.effect
  handler _ _ := pure (.succeed (.shared .unit))
  cause _ := pure (.fail .unit)

/-- Closures that say a word are declared to make texts, and those that convert literals. -/
def Signature.voices : Signature Voice where
  value f Ts A := (A = .text ∧ ∃ word, f = .tells word) ∨
    ∃ T, A = .literal ∧ Ts = [T] ∧ f = .into T
  test _ _ := True
  outcome _ _ _ _ := False
  effect f _ _ _ A := A = .text ∧ ∃ word, f = .tells word
  handler _ _ _ _ _ := False
  cause _ _ := False
  fault _ := False

theorem Voice.converted_fits {T : Ty} {v : Value Unit Voice} (h : v.Fits Signature.voices T) :
    (Voice.converted T v).Fits Signature.voices .literal := by
  unfold converted
  split
  · rename_i hT
    exact hT ▸ h
  · exact ⟨rfl, .literal⟩

theorem Language.voices_honours : Language.voices.Honours Signature.voices fun _ => True where
  value {f Ts A vs} h hvs := by
    obtain ⟨rfl, word, rfl⟩ | ⟨T, rfl, rfl, rfl⟩ := h
    · exact fun _ _ => ⟨trivial, rfl, .text⟩
    · obtain ⟨htypes, hsound⟩ := hvs
      obtain ⟨v, rfl, hv⟩ := List.map_eq_singleton_iff.mp htypes
      exact Voice.converted_fits ⟨hv, hsound v (List.mem_singleton.mpr rfl)⟩
  test {f T v} _ _ := by
    cases f with
    | tells word => exact fun _ _ => ⟨trivial, trivial⟩
    | _ => trivial
  outcome h _ := h.elim
  effect h _ := by
    obtain ⟨rfl, word, rfl⟩ := h
    exact fun _ _ => ⟨trivial, .succeed (.shared rfl .text)⟩
  handler h _ := h.elim
  cause h := h.elim

namespace Voice

variable {args : List (Value Unit Voice)} {v : Value Unit Voice}

theorem unit_reusable : (Value.unit : Value Unit Voice).Reusable (Program.all False) :=
  .tuple fun _ hv => nomatch hv

theorem headD_reusable (h : Value.AllReusable (Program.all False) args) :
    (args.headD .unit).Reusable (Program.all False) := by
  cases args with
  | nil => exact unit_reusable
  | cons v vs => exact h v (List.mem_cons_self ..)

theorem converted_reusable (T : Ty) (h : v.Reusable (Program.all False)) :
    (converted T v).Reusable (Program.all False) := by
  unfold converted
  split
  · exact h
  · exact .literal

theorem seconded_reusable (h : v.Reusable (Program.all False)) :
    (seconded v).Reusable (Program.all False) := by
  unfold seconded
  split
  · exact h.components _ (by simp [Value.components])
  · exact h

theorem regrouped_reusable (h : v.Reusable (Program.all False)) :
    (regrouped v).Reusable (Program.all False) := by
  unfold regrouped
  split
  · rename_i x y z
    have hxy : (Value.tuple [x, y]).Reusable (Program.all False) :=
      h.components _ (by simp [Value.components])
    have hx := hxy.components x (by simp [Value.components])
    have hy := hxy.components y (by simp [Value.components])
    have hz := h.components z (by simp [Value.components])
    exact .tuple (Value.AllReusable.pair hx (.tuple (Value.AllReusable.pair hy hz)))
  · exact h

/-- Only values that were given or words come out. -/
theorem value_within (f : Voice) (hargs : Value.AllReusable (Program.all False) args) :
    (f.value args).Within (Program.all False) (fun _ => True)
      (Value.Reusable (Program.all False)) := by
  induction f generalizing args with
  | tells word => exact fun _ _ => ⟨trivial, .text⟩
  | into T => exact converted_reusable T (headD_reusable hargs)
  | converts T f ih =>
    rw [value, map_eq_pure_bind]
    exact (ih hargs).bind fun v hv => converted_reusable T hv
  | onPair f ih => exact ih (headD_reusable hargs).components
  | second => exact seconded_reusable (headD_reusable hargs)
  | regroups => exact regrouped_reusable (headD_reusable hargs)
  | succeeds f ih | chooses f g ihf ihg => exact unit_reusable

/-- The effects they make are of nodes that can be evaluated any number of times. -/
theorem effect_within (f : Voice) (hargs : Value.AllReusable (Program.all False) args) :
    (f.effect args).Within (Program.all False) (fun _ => True)
      (Node.Reusable (Program.all False)) := by
  induction f generalizing args with
  | tells word => exact fun _ _ => ⟨trivial, .succeed .text⟩
  | succeeds f ih =>
    rw [effect, map_eq_pure_bind]
    exact (value_within f hargs).bind fun v hv => .succeed hv
  | chooses f g ihf ihg =>
    rcases args with _ | ⟨v, _ | ⟨u, args⟩⟩
    · exact .succeed unit_reusable
    · have hv : v.Reusable (Program.all False) := headD_reusable hargs
      cases hv with
      | success h => exact ihg (.singleton h)
      | failure h => exact ihf (.singleton h)
      | _ => exact .succeed unit_reusable
    · cases v <;> exact .succeed unit_reusable
  | into | converts | onPair | second | regroups => exact .succeed unit_reusable

end Voice

theorem Language.voices_within : Language.voices.Within (Program.all False) fun _ => True where
  value _ hargs := Voice.value_within _ hargs
  test {f v} _ _ := by
    cases f with
    | tells word => exact fun _ _ => ⟨trivial, trivial⟩
    | _ => trivial
  outcome _ hv := hv
  effect _ hargs := Voice.effect_within _ hargs
  handler _ _ := .succeed Voice.unit_reusable
  cause _ := .fail Voice.unit_reusable

/-- The same words have been said. -/
abbrev Voice.Alike : World (Noted Unit Voice Unit) → World (Noted Unit Voice Unit) → Prop :=
  World.Alike (Program.all False : Program Voice) fun _ => True

end EffectMachine
