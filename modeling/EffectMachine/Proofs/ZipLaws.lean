/-
  Effects side by side, from left to right.

  `zip` and `zipWith` join the values of two effects, `followedBy` keeps the second one.  Each of
  them can be put together of others as well: `zipWith` of `zip` and a closure on pairs, `map` of a
  call and an effect that succeeds.  The two ways take different turns on the machine.  To join two
  values the machine makes, in the middle of a run, a continuation that holds the first one, for the
  one evaluation that takes its cell; a closure on pairs stands in the tree from the start.

  The key fact is that the cell is there to be taken when the second effect has ended
  (`ProgramRun.once_result`): what runs in between leaves alone the cells that there were.  From
  there on a continuation for one evaluation is as good as any other, and what is left is
  associativity of a sequence of plays (`Play.onSuccess_assoc`).

  Lists of effects can be folded by `zipWith` from either end.  The frames that are pending
  meanwhile differ, and so does when the closure is called; but either way the effects are
  evaluated in the order of the list, up to the first one that fails.
-/
import EffectMachine.Proofs.Courses
import EffectMachine.Proofs.Independence
import EffectMachine.Proofs.OutcomeLaws

namespace EffectMachine

variable {D K σ : Type} {R E A B C : Ty}

/-! ## Plays that go on with a value -/

namespace Play

/-- Goes on with the value of a success.  A failure stays as it is. -/
def onSuccess (x : Play D K σ (Ending D K)) (next : Value D K → Play D K σ (Ending D K)) :
    Play D K σ (Ending D K) :=
  x >>= fun
    | .success v => next v
    | .failure cause => pure (.failure cause)

/-- Succeeds with what the play returns. -/
abbrev succeeding (x : Play D K σ (Value D K)) : Play D K σ (Ending D K) :=
  (fun v => .success v) <$> x

variable {x : Play D K σ (Ending D K)} {f g : Value D K → Play D K σ (Ending D K)}

/-- To go on from a success is associative. -/
theorem onSuccess_assoc :
    (x.onSuccess f).onSuccess g = x.onSuccess fun v => (f v).onSuccess g := by
  unfold onSuccess
  rw [bind_assoc]
  refine bind_congr fun ending => ?_
  cases ending <;> rfl

@[simp] theorem onSuccess_success (v : Value D K) :
    (pure (.success v) : Play D K σ (Ending D K)).onSuccess g = g v := rfl

@[simp] theorem succeeding_onSuccess (y : Play D K σ (Value D K)) :
    y.succeeding.onSuccess g = y >>= g := by
  unfold onSuccess
  rw [succeeding, bind_map_left]

/-- To go on by succeeding is to do nothing. -/
theorem onSuccess_pure : (x.onSuccess fun v => pure (.success v)) = x := by
  have hpure : (x.onSuccess fun v => pure (.success v)) = x >>= pure :=
    bind_congr fun ending => by cases ending <;> rfl
  rw [hpure, bind_pure]

end Play

namespace Effect.Proper

variable {Γ : Signature K} {P : Program K} {a : Effect D K R E A} {b : Effect D K R E B}

protected theorem zip (ha : a.Proper Γ P) (hb : b.Proper Γ P) : (a.zip b).Proper Γ P :=
  ⟨ha.built.zip hb.built, ha.made.zip hb.made⟩

protected theorem zipWith (ha : a.Proper Γ P) (hb : b.Proper Γ P) {f : K}
    (hf : Γ.value f [A, B] C) (hf' : P.closures f) :
    (a.zipWith b f : Effect D K R E C).Proper Γ P :=
  ⟨ha.built.zipWith hb.built hf, ha.made.zipWith hb.made hf'⟩

end Effect.Proper

/-! ## A continuation for one evaluation -/

section Combinators

variable [M : Language D K σ] {Γ : Signature K} {P : Program K} {I : σ → Prop}
  {c : Callees D K σ} {env : Option (Value D K)}
  (H : TypedRun M Γ I c R env) (HP : ProgramRun M P I c env)

include H HP

/-- A continuation that is made before an effect is evaluated, for the one evaluation that takes its
    cell, goes on with the value of the effect: the cell is still there. -/
theorem Effect.Proper.once_result {b : Effect D K R E B} (hb : b.Proper Γ P) {link : Link D K}
    {next : Value D K → Play D K σ (Ending D K)}
    (hnext : ∀ y, y.Fits Γ B → y.Reusable P →
      Play.Equal P I c (link.follow y >>= Node.result env) (next y)) :
    Play.Equal P I c
      ((do return .flatMap b.node (.typedOnce (← Play.cell) B link)) >>= Node.result env)
      ((b.node.result env).onSuccess next) := by
  intro w v hwv
  let made : World σ := { w with cells := w.cells.push false }
  have hmade : made.Alike P I v := ⟨hwv.state, hwv.inv, hwv.halts⟩
  show Matched _ _ ((Node.flatMap b.node (.typedOnce w.cells.size B link)).result env c made) _
  rw [Node.result_flatMap, Play.bind_apply, Play.onSuccess, Play.bind_apply]
  have hresult := (HP.result_sameAs hb.made.reusable).and_sound (H.result_sound hb.built.typed)
    hmade
  have hgrows : ∀ {out w'}, b.node.result env c made = some (out, w') → made.Grows w' :=
    fun h => (HP.result_of_alike hb.made.reusable hmade h).2.1
  generalize b.node.result env c made = out at hresult hgrows ⊢
  generalize b.node.result env c v = out' at hresult ⊢
  cases hresult with
  | endless => exact .endless
  | raised h => exact .raised h
  | @returned ending w' v' h hending =>
    obtain ⟨hreusable, htyped⟩ := hending
    cases ending with
    | failure cause => exact .returned h trivial
    | success y =>
      -- made before `b` was evaluated, the cell is still there when its value arrives
      have hown : w.Owns w' [w.cells.size] :=
        ((World.Owns.nil (.refl w)).cons (.cell w) (.cell w)).later (hgrows rfl)
      have htook : (w'.took w.cells.size).Alike P I v' := ⟨h.state, h.inv, h.halts⟩
      show Matched _ _ (((Continuation.typedOnce _ B link).resume y >>= Node.result env) c w') _
      rw [Play.bind_apply, hown.resume, Link.followTyped_of_fits htyped, ← Play.bind_apply]
      exact hnext y htyped hreusable htook

/-- What follows on a value of an effect may be compared on the values it can have. -/
theorem Effect.Proper.onSuccess_acts {e : Effect D K R E A} (he : e.Proper Γ P)
    {x : Play D K σ (Ending D K)} (hx : Play.Equal P I c (e.node.result env) x)
    {f g : Value D K → Play D K σ (Ending D K)}
    (hnext : ∀ v, v.Fits Γ A → v.Reusable P → Play.Equal P I c (f v) (g v)) :
    Play.Equal P I c ((e.node.result env).onSuccess f) (x.onSuccess g) := by
  have hresult := (HP.result_sameAs he.made.reusable).and_sound (H.result_sound he.built.typed)
  refine (hresult.trans hx).bind fun ending ⟨hreusable, htyped⟩ => ?_
  cases ending with
  | success v => exact hnext v htyped hreusable
  | failure cause => exact .pure trivial

/-- A linked effect goes on from a success by its link, given a value that fits and can be handed
    over again. -/
theorem Effect.Proper.linked_acts {e : Effect D K R E A} (he : e.Proper Γ P)
    {x : Play D K σ (Ending D K)} (hx : Play.Equal P I c (e.node.result env) x) {link : Link D K}
    {next : Value D K → Play D K σ (Ending D K)}
    (hnext : ∀ v, v.Fits Γ A → v.Reusable P →
      Play.Equal P I c (link.follow v >>= Node.result env) (next v)) :
    Play.Equal P I c ((e.linked link : Effect D K R E B).node.result env) (x.onSuccess next) := by
  rw [Effect.linked_result]
  refine he.onSuccess_acts H HP hx fun v hv hv' => ?_
  rw [Link.followTyped_of_fits hv]
  exact hnext v hv hv'

/-- `map` goes on by the closure, whose value is that of the whole. -/
theorem Effect.Proper.map_acts {e : Effect D K R E A} (he : e.Proper Γ P)
    {x : Play D K σ (Ending D K)} (hx : Play.Equal P I c (e.node.result env) x) {f : K}
    (hf : P.closures f) :
    Play.Equal P I c ((e.map f : Effect D K R E B).node.result env)
      (x.onSuccess fun v => .succeeding (.act (M.value f [v]))) :=
  he.linked_acts H HP hx fun _ _ hv => HP.value_acts hf (.singleton hv)

omit H in
/-- To join two values is to succeed with them joined. -/
theorem ProgramRun.joined_acts {how : Option K} (hhow : ∀ f, how = some f → P.closures f)
    {u v : Value D K} (hu : u.Reusable P) (hv : v.Reusable P) :
    Play.Equal P I c ((Link.join u how).follow v >>= Node.result env)
      (.succeeding (joined how u v)) := by
  cases how with
  | none => exact .succeeded _
  | some f => exact HP.value_acts (hhow f rfl) (.pair hu hv)

/-- `zip` goes on by the second effect, and puts the values together once both are there.  The link
    makes a continuation for this once in between, which takes a cell. -/
theorem Effect.Proper.zip_acts {a : Effect D K R E A} {b : Effect D K R E B} (ha : a.Proper Γ P)
    (hb : b.Proper Γ P) {x : Play D K σ (Ending D K)}
    (hx : Play.Equal P I c (a.node.result env) x) (how : Option K)
    (hhow : ∀ f, how = some f → P.closures f) :
    Play.Equal P I c ((a.linked (.zip b.node B how) : Effect D K R E C).node.result env)
      (x.onSuccess fun u => (b.node.result env).onSuccess fun v => .succeeding (joined how u v)) :=
  ha.linked_acts H HP hx fun _ _ hu => hb.once_result H HP fun _ _ hv => HP.joined_acts hhow hu hv

/-! ## Pairs of combinators -/

section Pairs

variable {a : Effect D K R E A} {b : Effect D K R E B} {d : Effect D K R E C} {f h : K}
  (ha : a.Proper Γ P) (hb : b.Proper Γ P)

include ha hb

/-- To pair two values is to do no more. -/
theorem pair_acts {x : Play D K σ (Ending D K)} (hx : Play.Equal P I c (a.node.result env) x) :
    Play.Equal P I c ((a.zip b).node.result env)
      (x.onSuccess fun u => (b.node.result env).onSuccess fun v => pure (.success (.pair u v))) :=
  ha.zip_acts H HP hb hx none nofun

/-- A closure is called on the pair. -/
theorem zip_map_acts (hh : P.closures h) :
    Play.Equal P I c (((a.zip b).map h : Effect D K R E C).node.result env)
      ((a.node.result env).onSuccess fun u => (b.node.result env).onSuccess fun v =>
        .succeeding (.act (M.value h [.pair u v]))) := by
  have hmap := (ha.zip hb).map_acts H HP (pair_acts H HP ha hb (ha.result_self HP)) hh (B := C)
  simp only [Play.onSuccess_assoc, Play.onSuccess_success] at hmap
  exact hmap

/-- What follows on two values may be compared on the values there can be. -/
theorem zip_sameAs {F G : Value D K → Value D K → Play D K σ (Ending D K)}
    (hnext : ∀ u v, u.Fits Γ A → v.Fits Γ B → u.Reusable P → v.Reusable P →
      Play.Equal P I c (F u v) (G u v)) :
    Play.Equal P I c
      ((a.node.result env).onSuccess fun u => (b.node.result env).onSuccess (F u))
      ((a.node.result env).onSuccess fun u => (b.node.result env).onSuccess (G u)) :=
  ha.onSuccess_acts H HP (ha.result_self HP) fun u hu hu' =>
    hb.onSuccess_acts H HP (hb.result_self HP) fun v hv hv' => hnext u v hu hv hu' hv'

/-- Values joined by the closure, or put in a pair first and then joined. -/
theorem zipWith_zip_map (hf : P.closures f) (hh : P.closures h)
    (hop : ∀ u v, u.Fits Γ A → v.Fits Γ B → M.value h [.pair u v] = M.value f [u, v]) :
    Play.Equal P I c ((a.zipWith b f : Effect D K R E C).node.result env)
      (((a.zip b).map h : Effect D K R E C).node.result env) := by
  have hzipWith := ha.zip_acts H HP hb (ha.result_self HP) (some f)
    (by rintro g ⟨⟩; exact hf) (C := C)
  refine (hzipWith.trans ?_).trans (zip_map_acts H HP ha hb hh).symm
  refine zip_sameAs H HP ha hb fun u v hu hv hu' hv' => ?_
  rw [hop u v hu hv]
  exact (HP.act (HP.within.value hf (.pair hu' hv'))).map _ fun _ _ => trivial

/-- `followedBy` keeps the second value of the pair. -/
theorem followedBy_zip_map (hh : P.closures h)
    (hop : ∀ u v, u.Fits Γ A → v.Fits Γ B → M.value h [.pair u v] = pure v) :
    Play.Equal P I c ((a.followedBy b).node.result env)
      (((a.zip b).map h : Effect D K R E B).node.result env) := by
  have hfollowed : Play.Equal P I c ((a.followedBy b).node.result env)
      ((a.node.result env).onSuccess fun _ =>
        (b.node.result env).onSuccess fun v => pure (.success v)) := by
    simp only [Play.onSuccess_pure]
    exact ha.linked_acts H HP (ha.result_self HP) fun _ _ _ => hb.result_self HP
  refine (hfollowed.trans ?_).trans (zip_map_acts H HP ha hb hh).symm
  refine zip_sameAs H HP ha hb fun u v hu hv _ _ => ?_
  rw [hop u v hu hv]
  exact .pure trivial

omit hb in
/-- `map` goes on by an effect that succeeds at once. -/
theorem map_andThen_succeed (hf : P.closures f)
    (hop : ∀ v, v.Fits Γ A → M.effect h [v] =
      (fun y => (Effect.succeed y : Effect D K R E B).node) <$> M.value f [v]) :
    Play.Equal P I c ((a.map f : Effect D K R E B).node.result env)
      ((a.andThen h : Effect D K R E B).node.result env) := by
  refine (ha.map_acts H HP (ha.result_self HP) hf).trans (Play.SameAs.symm ?_)
  refine ha.linked_acts H HP (ha.result_self HP) fun v hv hv' => ?_
  have hcall : ((Link.call h).follow v >>= Node.result env : Play D K σ _) =
      .succeeding (.act (M.value f [v])) := by
    simp only [Link.follow, hop v hv, Play.act_map, bind_map_left, Effect.succeed,
      Node.result_succeed]
    rw [Play.succeeding, map_eq_pure_bind]
  rw [hcall]
  exact (HP.act (HP.within.value hf (.singleton hv'))).map _ fun _ _ => trivial

/-- Pairs may be nested to the left or to the right. -/
theorem zip_zip_map (hd : d.Proper Γ P) (hh : P.closures h)
    (hop : ∀ u v t, u.Fits Γ A → v.Fits Γ B → t.Fits Γ C →
      M.value h [.pair (.pair u v) t] = pure (.pair u (.pair v t))) :
    Play.Equal P I c
      ((((a.zip b).zip d).map h : Effect D K R E (.tuple [A, .tuple [B, C]])).node.result env)
      ((a.zip (b.zip d)).node.result env) := by
  have hleft := (ha.zip hb).zip hd |>.map_acts H HP
    (pair_acts H HP (ha.zip hb) hd (pair_acts H HP ha hb (ha.result_self HP))) hh
    (B := .tuple [A, .tuple [B, C]])
  have hright := ha.onSuccess_acts H HP (ha.result_self HP) fun u _ _ =>
    (hb.zip hd).onSuccess_acts H HP (pair_acts H HP hb hd (hb.result_self HP))
      (f := fun q => pure (.success (.pair u q))) fun q _ _ => .pure trivial
  simp only [Play.onSuccess_assoc, Play.onSuccess_success] at hleft hright
  refine (hleft.trans ?_).trans
    ((pair_acts H HP ha (hb.zip hd) (ha.result_self HP)).trans hright).symm
  refine ha.onSuccess_acts H HP (ha.result_self HP) fun u hu _ => ?_
  refine zip_sameAs H HP hb hd fun v t hv ht _ _ => ?_
  rw [hop u v t hu hv ht]
  exact .pure trivial

end Pairs

end Combinators

/-! ## Lists of effects -/

namespace Effect

/-- What there is, and behind it one effect after another, each joined to what there is. -/
def zipLeft (start : Effect D K R E B) (f : K) (es : List (Effect D K R E A)) : Effect D K R E B :=
  es.foldl (fun acc e => acc.zipWith e f) start

/-- One effect before another, each joined to what comes of those after it. -/
def zipRight (last : Effect D K R E B) (f : K) (es : List (Effect D K R E A)) : Effect D K R E B :=
  es.foldr (fun e acc => e.zipWith acc f) last

end Effect

namespace Runner

variable [M : Language D K σ] (c : Callees D K σ) (r : Runner D K) (f : K)

/-- The effects are evaluated in order on this runner, and after each of them the closure is called
    on what there is and its value.  The first failure ends it all. -/
def GathersLeft : List (Effect D K R E A) → Value D K → Course D K σ
  | [], b => .Ends (.success b)
  | e :: es, b => .onSuccess (r.Evaluates c (pure e.node)) fun v =>
      .Calls c (M.value f [b, v]) (GathersLeft es)

/-- The effects are evaluated in order on this runner, and after the last one the closure is called
    from the last to the first, on the value of each and what there is.  The first failure ends it
    all. -/
def GathersRight (last : Effect D K R E B) : List (Effect D K R E A) → Course D K σ
  | [] => r.Evaluates c (pure last.node)
  | e :: es => .onSuccess (r.Evaluates c (pure e.node)) fun v =>
      .onSuccess (GathersRight last es) fun b =>
        .Calls c (M.value f [v, b]) fun joined => .Ends (.success joined)

end Runner

namespace Play

variable [M : Language D K σ] (f : K)

/-- One play after another, and after each of them the closure. -/
def gatheredLeft : List (Play D K σ (Ending D K)) → Value D K → Play D K σ (Ending D K)
  | [], b => pure (.success b)
  | x :: xs, b => x.onSuccess fun v => act (M.value f [b, v]) >>= gatheredLeft xs

/-- One play after another, and then the closure as often. -/
def gatheredRight (last : Play D K σ (Ending D K)) :
    List (Play D K σ (Ending D K)) → Play D K σ (Ending D K)
  | [] => last
  | x :: xs => x.onSuccess fun v => (gatheredRight last xs).onSuccess fun b =>
      succeeding (act (M.value f [v, b]))

end Play

section Folds

variable [M : Language D K σ] {Γ : Signature K} {P : Program K} {I : σ → Prop}
  {c : Callees D K σ} {f : K} {es : List (Effect D K R E A)}

/-- The fold to the left, by induction on the effects from the front, with the accumulator free. -/
theorem Effect.zipLeft_acts {env : Option (Value D K)} (H : TypedRun M Γ I c R env)
    (HP : ProgramRun M P I c env) (hf : Γ.value f [B, A] B) (hf' : P.closures f)
    {start : Effect D K R E B} (hstart : start.Proper Γ P) (hes : ∀ e ∈ es, e.Proper Γ P)
    {x : Play D K σ (Ending D K)} (hx : Play.Equal P I c (start.node.result env) x) :
    (start.zipLeft f es).Proper Γ P ∧ Play.Equal P I c ((start.zipLeft f es).node.result env)
      (x.onSuccess (Play.gatheredLeft f (es.map fun e => e.node.result env))) := by
  induction es generalizing start x with
  | nil =>
    refine ⟨hstart, ?_⟩
    rw [List.map_nil, show Play.gatheredLeft f [] = fun b => pure (.success b) from rfl,
      Play.onSuccess_pure]
    exact hx
  | cons e es ih =>
    have he := hes e (List.mem_cons_self ..)
    have hzip := hstart.zip_acts H HP he hx (some f) (by rintro g ⟨⟩; exact hf') (C := B)
    have hjoined : (start.zipWith e f).Proper Γ P := hstart.zipWith he hf hf'
    obtain ⟨hproper, hacts⟩ := ih hjoined (fun e he => hes e (List.mem_cons_of_mem _ he)) hzip
    refine ⟨hproper, ?_⟩
    -- the closure is called where it was, whatever comes behind it
    simp only [Play.onSuccess_assoc, joined, Play.succeeding_onSuccess] at hacts
    exact hacts

/-- The fold to the right, by induction on the effects. -/
theorem Effect.zipRight_acts {env : Option (Value D K)} (H : TypedRun M Γ I c R env)
    (HP : ProgramRun M P I c env) (hf : Γ.value f [A, B] B) (hf' : P.closures f)
    {last : Effect D K R E B} (hlast : last.Proper Γ P) (hes : ∀ e ∈ es, e.Proper Γ P) :
    (last.zipRight f es).Proper Γ P ∧ Play.Equal P I c ((last.zipRight f es).node.result env)
      (Play.gatheredRight f (last.node.result env) (es.map fun e => e.node.result env)) := by
  induction es with
  | nil => exact ⟨hlast, hlast.result_self HP⟩
  | cons e es ih =>
    have he := hes e (List.mem_cons_self ..)
    obtain ⟨hproper, hacts⟩ := ih fun e he => hes e (List.mem_cons_of_mem _ he)
    refine ⟨he.zipWith hproper hf hf', ?_⟩
    refine (he.zip_acts H HP hproper (he.result_self HP) (some f)
      (by rintro g ⟨⟩; exact hf')).trans ?_
    refine he.onSuccess_acts H HP (he.result_self HP) fun v _ hv => ?_
    refine hproper.onSuccess_acts H HP hacts fun b _ hb => ?_
    exact (HP.act (HP.within.value hf' (.pair hv hb))).map _ fun _ _ => trivial

omit M in
/-- Reusable values lead on to reusable ones. -/
theorem Play.SameAs.onSuccess {x x' : Play D K σ (Ending D K)}
    (hx : Play.SameAs P I c (Ending.Reusable P) x x')
    {g g' : Value D K → Play D K σ (Ending D K)}
    (hnext : ∀ v, v.Reusable P → Play.SameAs P I c (Ending.Reusable P) (g v) (g' v)) :
    Play.SameAs P I c (Ending.Reusable P) (x.onSuccess g) (x'.onSuccess g') := by
  refine hx.bind fun ending hending => ?_
  cases ending with
  | success v => exact hnext v hending
  | failure cause => exact .pure hending

omit M in
/-- To go on with a success is to go on with one in the play. -/
theorem Course.Played.onSuccess {x : Course D K σ} {play : Play D K σ (Ending D K)}
    (hx : x.Played P I c play) (hplay : Play.SameAs P I c (Ending.Reusable P) play play)
    {next : Value D K → Course D K σ} {g : Value D K → Play D K σ (Ending D K)}
    (hnext : ∀ v, v.Reusable P → (next v).Played P I c (g v)) :
    Course.Played P I c (Course.onSuccess x next) (play.onSuccess g) := by
  refine hx.then hplay fun ending hending => ?_
  cases ending with
  | success v => exact hnext v hending
  | failure cause => exact .ends _

section Courses

variable {r : Runner D K} (HP : ProgramRun M P I c r.environments.back?)
  (hfit : r.settings.framesFit = true) (hf : P.closures f) (hes : ∀ e ∈ es, e.Proper Γ P)

include HP hfit hf hes

/-- Gathering from the left as a course: one evaluation after another on the same runner. -/
theorem Runner.gathersLeft_played {b : Value D K} (hb : b.Reusable P) :
    Course.Played P I c (r.GathersLeft c f es b)
      (Play.gatheredLeft f (es.map fun e => e.node.result r.environments.back?) b) := by
  induction es generalizing b with
  | nil => exact .ends _
  | cons e es ih =>
    have he := (hes e (List.mem_cons_self ..)).made.reusable
    refine (HP.node_played hfit he).onSuccess (HP.result_sameAs he) fun v hv => ?_
    exact .calls (HP.act (HP.within.value hf (.pair hb hv))) fun b' hb' =>
      ih (fun e he => hes e (List.mem_cons_of_mem _ he)) hb'

omit hfit in
theorem Play.gatheredRight_self {last : Effect D K R E B} (hlast : last.Proper Γ P) :
    let play : Play D K σ (Ending D K) :=
      Play.gatheredRight f (last.node.result r.environments.back?)
        (es.map fun e => e.node.result r.environments.back?)
    Play.SameAs P I c (Ending.Reusable P) play play := by
  induction es with
  | nil => exact HP.result_sameAs hlast.made.reusable
  | cons e es ih =>
    have he := (hes e (List.mem_cons_self ..)).made.reusable
    refine (HP.result_sameAs he).onSuccess fun v hv => ?_
    refine (ih fun e he => hes e (List.mem_cons_of_mem _ he)).onSuccess fun b hb => ?_
    exact (HP.act (HP.within.value hf (.pair hv hb))).map _ fun _ h => h

/-- Gathering from the right as a course.  The last effect is evaluated after all the others, before
    their values are put together. -/
theorem Runner.gathersRight_played {last : Effect D K R E B} (hlast : last.Proper Γ P) :
    Course.Played P I c (r.GathersRight c f last es)
      (Play.gatheredRight f (last.node.result r.environments.back?)
        (es.map fun e => e.node.result r.environments.back?)) := by
  induction es with
  | nil => exact HP.node_played hfit hlast.made.reusable
  | cons e es ih =>
    have he := (hes e (List.mem_cons_self ..)).made.reusable
    refine (HP.node_played hfit he).onSuccess (HP.result_sameAs he) fun v hv => ?_
    have hlater : ∀ e ∈ es, e.Proper Γ P := fun e he => hes e (List.mem_cons_of_mem _ he)
    refine (ih hlater).onSuccess (Play.gatheredRight_self HP hf hlater hlast) fun b hb => ?_
    rw [Play.succeeding, map_eq_pure_bind]
    exact .calls (HP.act (HP.within.value hf (.pair hv hb))) fun _ _ => .ends _

end Courses

end Folds

/-! ## Again and again -/

/-- The node is evaluated on a runner in a world, and again on the runner and in the world there are
    then, any number of times. -/
def Runner.Repeats [Language D K σ] (c : Callees D K σ) (node : Node D K) :
    Runner D K × World σ → Runner D K × World σ → Prop :=
  Relation.ReflTransGen fun s s' => ∃ fuel out, s.1.evaluate c fuel node s.2 = some (out, s')

/-- However often a reusable node is evaluated, what is bound stays the same, and the invariant
    holds. -/
theorem Runner.Repeats.kept [L : Language D K σ] {P : Program K} {I : σ → Prop}
    {c : Callees D K σ} {r : Runner D K} (HP : ProgramRun L P I c r.environments.back?)
    (hfit : r.settings.framesFit = true) {node : Node D K} (hnode : node.Reusable P) {w : World σ}
    (hw : I w.state) {s : Runner D K × World σ} (h : Runner.Repeats c node (r, w) s) :
    s.1.settings = r.settings ∧ s.1.environments = r.environments ∧ I s.2.state := by
  induction h with
  | refl => exact ⟨rfl, rfl, hw⟩
  | @tail s s' _ hstep ih =>
    obtain ⟨hsettings, henvs, hinv⟩ := ih
    obtain ⟨fuel, out, heval⟩ := hstep
    have HP' : ProgramRun L P I c s.1.environments.back? := by rwa [henvs]
    have hfit' : s.1.settings.framesFit = true := by rwa [hsettings]
    have heval' : s.1.evaluateWith c fuel none node s.2 = some (out, s'.1, s'.2) := heval
    obtain ⟨hsettings', henvs'⟩ := evaluateWith_kept heval'
    obtain ⟨v', -, halike⟩ := (HP'.node_played hfit' hnode).left (.refl hinv) (.ended rfl heval)
    exact ⟨hsettings'.trans hsettings, henvs'.trans henvs, halike.inv⟩

/-! ## The laws, of what the machine does -/

/-- Effects are put side by side from left to right, whichever combinators it is done by.

    Take closures that do as they are declared and stay within a program, a runner that has room for
    its frames, with whatever environments are bound, and effects the program has made.  Then it is
    the same to join the values of two effects by a closure or to pair them and have a closure take
    the pair apart; to keep the second value or to take it out of the pair; to transform a value or
    to go on with an effect that succeeds with it transformed; and to bracket three effects in the
    one way or in the other, but for the brackets in the value.  From any world, either side ends if
    the other one does, and both end in the same value, in the same failure, in the same defect with
    the same name kept with it, or in the same payload raised; and they leave the same shared state,
    with the same calls noted in it in the same order.

    A list of effects that is folded from the left, or from the right, goes its course in the order
    of the list: each effect is evaluated after those before it, up to the first one that fails or
    dies, which is what the whole ends in; and if none does, the closure joins all values.  Each
    further evaluation on the same runner goes that course again. -/
theorem Effect.zip_lawful (M : Language D K (Noted D K σ)) {Γ : Signature K} {P : Program K}
    {I : Noted D K σ → Prop} (hM : M.Honours Γ I) (hP : M.Within P I) (depth : Nat)
    {r : Runner D K} (hfit : r.settings.framesFit = true) {R : Ty}
    (henv : Supplied Γ R r.environments.back?)
    (hbound : ∀ v, r.environments.back? = some v → v.Reusable P) {w : World (Noted D K σ)}
    (hw : I w.state) :
    letI := M
    let callees : Callees D K (Noted D K σ) := Callees.ofFuel depth
    let Same {E A : Ty} (x y : Effect D K R E A) : Prop :=
      r.Same (World.Alike P I) callees (pure x.node) r (pure y.node) w
    let Goes {E A : Ty} (x : Effect D K R E A) (course : Runner D K → Course D K (Noted D K σ)) :
      Prop := ∀ s, Runner.Repeats callees x.node (r, w) s →
        Course.Agrees (World.Alike P I) (course s.1) (s.1.Evaluates callees (pure x.node)) s.2
    -- two effects, or three
    (∀ (E A B C : Ty) (a : Effect D K R E A) (b : Effect D K R E B) (f h : K), a.Proper Γ P →
      b.Proper Γ P → P.closures f → P.closures h →
      (∀ u v, u.Fits Γ A → v.Fits Γ B → M.value h [.pair u v] = M.value f [u, v]) →
        Same (a.zipWith b f : Effect D K R E C) ((a.zip b).map h)) ∧
    (∀ (E A B : Ty) (a : Effect D K R E A) (b : Effect D K R E B) (h : K), a.Proper Γ P →
      b.Proper Γ P → P.closures h →
      (∀ u v, u.Fits Γ A → v.Fits Γ B → M.value h [.pair u v] = pure v) →
        Same (a.followedBy b) ((a.zip b).map h)) ∧
    (∀ (E A B : Ty) (a : Effect D K R E A) (f h : K), a.Proper Γ P → P.closures f →
      (∀ v, v.Fits Γ A → M.effect h [v] =
        (fun y => (succeed y : Effect D K R E B).node) <$> M.value f [v]) →
        Same (a.map f : Effect D K R E B) (a.andThen h)) ∧
    (∀ (E A B C : Ty) (a : Effect D K R E A) (b : Effect D K R E B) (d : Effect D K R E C) (h : K),
      a.Proper Γ P → b.Proper Γ P → d.Proper Γ P → P.closures h →
      (∀ u v t, u.Fits Γ A → v.Fits Γ B → t.Fits Γ C →
        M.value h [.pair (.pair u v) t] = pure (.pair u (.pair v t))) →
        Same (((a.zip b).zip d).map h) (a.zip (b.zip d))) ∧
    -- lists of effects
    (∀ (E A B : Ty) (start : Effect D K R E B) (es : List (Effect D K R E A)) (f : K),
      start.Proper Γ P → (∀ e ∈ es, e.Proper Γ P) → Γ.value f [B, A] B → P.closures f →
        Goes (start.zipLeft f es) fun r =>
          .onSuccess (r.Evaluates callees (pure start.node)) (r.GathersLeft callees f es)) ∧
    (∀ (E A B : Ty) (last : Effect D K R E B) (es : List (Effect D K R E A)) (f : K),
      last.Proper Γ P → (∀ e ∈ es, e.Proper Γ P) → Γ.value f [A, B] B → P.closures f →
        Goes (last.zipRight f es) fun r => r.GathersRight callees f last es) := by
  let _ := M
  intro callees Same Goes
  have H : TypedRun M Γ I callees R r.environments.back? := .ofFuel hM depth henv
  have HP : ProgramRun M P I callees r.environments.back? := .ofFuel hP depth hbound
  -- the runner of a later evaluation has bound what the first one had
  have hgoes : ∀ {E A : Ty} {x : Effect D K R E A}
      {course : Runner D K → Course D K (Noted D K σ)}, x.Made P →
      (∀ r' : Runner D K, r'.settings.framesFit = true →
        TypedRun M Γ I callees R r'.environments.back? →
        ProgramRun M P I callees r'.environments.back? →
        ∃ play, Course.Played P I callees (course r') play ∧
          Play.Equal P I callees (x.node.result r'.environments.back?) play) →
      Goes x course := by
    intro E A x course hx hcourse s hs
    obtain ⟨hsettings, henvs, hinv⟩ := hs.kept HP hfit hx.reusable hw
    have hfit' : s.1.settings.framesFit = true := by rwa [hsettings]
    have HP' : ProgramRun M P I callees s.1.environments.back? := by rwa [henvs]
    obtain ⟨play, hplayed, hacts⟩ := hcourse s.1 hfit' (by rwa [henvs]) HP'
    exact hplayed.agrees (HP'.node_played hfit' hx.reusable) hacts.symm hinv
  refine ⟨?_, ?_, ?_, ?_, ?_, ?_⟩
  · intro E A B C a b f h ha hb hf hh hop
    exact HP.same_of_equal hfit hw (zipWith_zip_map H HP ha hb hf hh hop)
  · intro E A B a b h ha hb hh hop
    exact HP.same_of_equal hfit hw (followedBy_zip_map H HP ha hb hh hop)
  · intro E A B a f h ha hf hop
    exact HP.same_of_equal hfit hw (map_andThen_succeed H HP ha hf hop)
  · intro E A B C a b d h ha hb hd hh hop
    exact HP.same_of_equal hfit hw (zip_zip_map H HP ha hb hd hh hop)
  · intro E A B start es f hstart hes hf hf'
    have hmade := (zipLeft_acts H HP hf hf' hstart hes (hstart.result_self HP)).1.made
    exact hgoes hmade fun r' hfit' H' HP' => ⟨_,
      (HP'.node_played hfit' hstart.made.reusable).onSuccess
        (HP'.result_sameAs hstart.made.reusable)
        fun _ => Runner.gathersLeft_played HP' hfit' hf' hes,
      (zipLeft_acts H' HP' hf hf' hstart hes (hstart.result_self HP')).2⟩
  · intro E A B last es f hlast hes hf hf'
    have hmade := (zipRight_acts H HP hf hf' hlast hes).1.made
    exact hgoes hmade fun r' hfit' H' HP' => ⟨_, Runner.gathersRight_played HP' hfit' hf' hes hlast,
      (zipRight_acts H' HP' hf hf' hlast hes).2⟩

open Voice in
/-- All of it for effects that say a word, on a fresh runner.  Folded from the left, the word behind
    a failure is not said; folded from the right, all words are said before any two are joined. -/
theorem Effect.zip_lawful_voices :
    letI := Language.voices
    let callees : Callees Unit Voice (Noted Unit Voice Unit) := Callees.ofFuel 1
    let w : World (Noted Unit Voice Unit) := World.start ⟨(), []⟩
    let Same {A : Ty} (x y : Effect Unit Voice .unit .literal A) : Prop :=
      Runner.fresh.Same Voice.Alike callees (pure x.node) .fresh (pure y.node) w
    let Goes (x : Voiced)
      (course : Runner Unit Voice → Course Unit Voice (Noted Unit Voice Unit)) : Prop :=
      ∀ s, Runner.Repeats callees x.node (.fresh, w) s →
        Course.Agrees Voice.Alike (course s.1) (s.1.Evaluates callees (pure x.node)) s.2
    let say (word : String) : Voiced := attempt (tells word)
    let lost : Voiced := fail (.literal "lost")
    let left : Voiced := (say "a").zipLeft (tells "f") [say "b", lost, say "c"]
    let right : Voiced := (say "c").zipRight (tells "f") [say "a", say "b"]
    Same ((say "a").zipWith (say "b") (tells "f") : Voiced)
      (((say "a").zip (say "b")).map (onPair (tells "f"))) ∧
    Same ((say "a").followedBy (say "b")) (((say "a").zip (say "b")).map second) ∧
    Same ((say "a").map (tells "f") : Voiced) ((say "a").andThen (succeeds (tells "f"))) ∧
    Same ((((say "a").zip (say "b")).zip (say "c")).map regroups)
      ((say "a").zip ((say "b").zip (say "c"))) ∧
    (Goes left (fun r => .onSuccess (r.Evaluates callees (pure (say "a").node))
        (r.GathersLeft callees (tells "f") [say "b", lost, say "c"])) ∧
      Goes right fun r => r.GathersRight callees (tells "f") (say "c") [say "a", say "b"]) ∧
    (∃ w', Runner.fresh.Evaluates callees (pure left.node) w
        (.ok (.failure (.fail (.literal "lost")))) w' ∧
      w'.calls =
        [.value (tells "f") [.text "a", .text "b"], .value (tells "b") [], .value (tells "a") []]) ∧
    ∃ w', Runner.fresh.Evaluates callees (pure right.node) w (.ok (.success (.text "f"))) w' ∧
      w'.calls =
        [.value (tells "f") [.text "a", .text "f"], .value (tells "f") [.text "b", .text "c"],
          .value (tells "c") [], .value (tells "b") [], .value (tells "a") []] := by
  let _ := Language.voices
  intro callees w Same Goes say lost left right
  have hsay : ∀ word, (say word).Proper Signature.voices (Program.all False) := fun word =>
    ⟨.attempt (.inl ⟨rfl, word, rfl⟩), .attempt trivial⟩
  have hlost : lost.Proper Signature.voices (Program.all False) :=
    ⟨.fail ⟨rfl, .literal⟩, .fail .literal⟩
  have htells : Signature.voices.value (tells "f") [.text, .text] .text := .inl ⟨rfl, "f", rfl⟩
  obtain ⟨h₁, h₂, h₃, h₄, h₅, h₆⟩ := zip_lawful Language.voices Language.voices_honours
    Language.voices_within 1 (r := .fresh) Runner.fresh_framesFit (R := .unit) .none
    (fun _ h => nomatch h) (w := w) trivial
  refine ⟨?_, ?_, ?_, ?_, ⟨?_, ?_⟩, ?_, ?_⟩
  · exact h₁ .literal .text .text .text (say "a") (say "b") (tells "f") (onPair (tells "f"))
      (hsay "a") (hsay "b") trivial trivial fun _ _ _ _ => rfl
  · exact h₂ .literal .text .text (say "a") (say "b") second (hsay "a") (hsay "b") trivial
      fun _ _ _ _ => rfl
  · exact h₃ .literal .text .text (say "a") (tells "f") (succeeds (tells "f")) (hsay "a") trivial
      fun _ _ => rfl
  · exact h₄ .literal .text .text .text (say "a") (say "b") (say "c") regroups (hsay "a")
      (hsay "b") (hsay "c") trivial fun _ _ _ _ _ _ => rfl
  · refine h₅ .literal .text .text (say "a") [say "b", lost, say "c"] (tells "f") (hsay "a") ?_
      htells trivial
    simp only [List.forall_mem_cons, List.not_mem_nil, false_implies, implies_true, and_true]
    exact ⟨hsay "b", hlost, hsay "c"⟩
  · refine h₆ .literal .text .text (say "c") [say "a", say "b"] (tells "f") (hsay "c") ?_
      htells trivial
    simp only [List.forall_mem_cons, List.not_mem_nil, false_implies, implies_true, and_true]
    exact ⟨hsay "a", hsay "b"⟩
  · exact Runner.evaluates_of_evaluate 40 ⟨_, _, rfl, rfl⟩
  · exact Runner.evaluates_of_evaluate 40 ⟨_, _, rfl, rfl⟩

end EffectMachine
