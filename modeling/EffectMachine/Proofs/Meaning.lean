/-
  What a node comes to.

  The reading of a node works on fuel.  More fuel never changes what a reading has come to, and so
  the readings of a node on more and more fuel have a limit: the play that comes to whatever one of
  them comes to.  `Node.result` is that limit, with the number of nodes left out.

  There is no fuel in it any more, and that is what it is for.  It obeys an equation for each kind
  of node, and since plays are a lawful monad one can calculate with these: two trees that mean the
  same are shown to do so by rewriting, with `bind_assoc` doing most of the work.  The nodes that
  the library makes while it runs leave a trace in such a calculation, namely the cells they were
  given; `Play.spend` is the play that makes some cells and takes them, and does nothing else.

  What the calculation is about is what the machine does: an evaluation ends as the play does
  (`Runner.exists_evaluate_iff`), but for what was reported.
-/
import EffectMachine.Effect.Recovery
import EffectMachine.Effect.Sequence
import EffectMachine.Proofs.Refinement

namespace EffectMachine

variable {D K σ α β : Type}

/-! ## Limits -/

namespace Play

/-- Each of the plays comes to whatever the one before it comes to. -/
def Growing (x : Nat → Play D K σ α) : Prop := ∀ n, (x n).Below (x (n + 1))

open Classical in
/-- The play that comes to whatever one of these comes to. -/
noncomputable def limit (x : Nat → Play D K σ α) : Play D K σ α := fun callees w =>
  if h : ∃ out n, x n callees w = some out then some h.choose else none

/-- What is above all of these plays and comes to nothing else is their limit. -/
theorem limit_eq {x : Nat → Play D K σ α} {y : Play D K σ α}
    (h : ∀ callees w out, y callees w = some out ↔ ∃ n, x n callees w = some out) :
    limit x = y := by
  funext callees w
  unfold limit
  split
  · rename_i hsome
    exact ((h callees w _).mpr hsome.choose_spec).symm
  · rename_i hnone
    refine (Option.eq_none_iff_forall_ne_some.mpr fun out hout => hnone ?_).symm
    exact ⟨out, (h callees w out).mp hout⟩

theorem limit_const (x : Play D K σ α) : limit (fun _ => x) = x :=
  limit_eq fun _ _ _ => ⟨fun h => ⟨0, h⟩, fun ⟨_, h⟩ => h⟩

variable {x : Nat → Play D K σ α} {callees : Callees D K σ} {w : World σ}
  {out : Raised D K α × World σ}

/-- What a reading has come to with some fuel it comes to with more. -/
theorem Growing.le (hx : Growing x) {m n : Nat} (h : m ≤ n) : (x m).Below (x n) := by
  induction h with
  | refl => exact .refl _
  | step _ ih => exact fun callees w out hout => hx _ (ih hout)

/-- The limit comes to what some reading comes to; the readings agree, so it does not matter which.
    -/
theorem limit_eq_some (hx : Growing x) :
    limit x callees w = some out ↔ ∃ n, x n callees w = some out := by
  constructor
  · intro h
    unfold limit at h
    split at h
    · rename_i hsome
      cases h
      exact hsome.choose_spec
    · cases h
  · rintro ⟨n, hn⟩
    unfold limit
    split
    · rename_i hsome
      obtain ⟨m, hm⟩ := hsome.choose_spec
      have hmax := hx.le (Nat.le_max_left m n) hm
      rw [hx.le (Nat.le_max_right m n) hn] at hmax
      exact hmax.symm
    · rename_i hnone
      exact absurd ⟨out, n, hn⟩ hnone

theorem Growing.bind {f : α → Nat → Play D K σ β} (hx : Growing x) (hf : ∀ a, Growing (f a)) :
    Growing fun n => x n >>= fun a => f a n :=
  fun n => (hx n).bind fun a => hf a n

theorem Growing.map (hx : Growing x) (f : α → β) : Growing fun n => f <$> x n := by
  intro n
  show (f <$> x n).Below (f <$> x (n + 1))
  rw [map_eq_pure_bind, map_eq_pure_bind]
  exact (hx n).bind fun _ => .refl _

/-- One unit of fuel more for every reading makes no difference in the limit. -/
theorem limit_succ (hx : Growing x) : limit (fun n => x (n + 1)) = limit x := by
  refine limit_eq fun callees w out => ?_
  rw [limit_eq_some hx]
  constructor
  · rintro ⟨n, hn⟩
    exact ⟨n, hx n hn⟩
  · rintro ⟨n, hn⟩
    exact ⟨n + 1, hn⟩

/-- The limit of plays in sequence is the limits in sequence. -/
theorem limit_bind {f : α → Nat → Play D K σ β} (hx : Growing x) (hf : ∀ a, Growing (f a)) :
    limit (fun n => x n >>= fun a => f a n) = limit x >>= fun a => limit (f a) := by
  refine limit_eq fun callees w ⟨result, w'⟩ => ?_
  constructor
  · intro h
    obtain ⟨a, w₁, ha, hrest⟩ | ⟨p, hp, rfl⟩ := bind_eq_some h
    · obtain ⟨m, hm⟩ := (limit_eq_some hx).mp ha
      obtain ⟨n, hn⟩ := (limit_eq_some (hf a)).mp hrest
      refine ⟨max m n, ?_⟩
      rw [bind_apply, hx.le (Nat.le_max_left m n) hm]
      exact (hf a).le (Nat.le_max_right m n) hn
    · obtain ⟨m, hm⟩ := (limit_eq_some hx).mp hp
      exact ⟨m, by rw [bind_apply, hm]⟩
  · rintro ⟨n, hn⟩
    rw [bind_apply]
    obtain ⟨a, w₁, ha, hrest⟩ | ⟨p, hp, rfl⟩ := bind_eq_some hn
    · rw [(limit_eq_some hx).mpr ⟨n, ha⟩]
      exact (limit_eq_some (hf a)).mpr ⟨n, hrest⟩
    · rw [(limit_eq_some hx).mpr ⟨n, hp⟩]

end Play

/-! ## What a node comes to -/

namespace Node

theorem counting_fst (more : Nat) (x : Play D K σ (Ending D K × Nat)) :
    Prod.fst <$> counting more x = Prod.fst <$> x := by
  rw [counting, Functor.map_map]

variable [Language D K σ]

/-- What a node comes to with this environment bound, or none. -/
noncomputable def result (env : Option (Value D K)) (node : Node D K) : Play D K σ (Ending D K) :=
  .limit fun fuel => Prod.fst <$> node.denote fuel env

variable {env : Option (Value D K)} {node inner : Node D K}

/-- More fuel never changes what a node has been read to. -/
theorem denote_growing (env : Option (Value D K)) (node : Node D K) :
    Play.Growing fun fuel => (Prod.fst <$> node.denote fuel env : Play D K σ (Ending D K)) :=
  Play.Growing.map (fun fuel => denote_below_succ fuel env node) Prod.fst

/-- The meaning of a node is what it denotes, with the steps left out. -/
theorem result_eq_some {callees : Callees D K σ} {w w' : World σ}
    {ending : Raised D K (Ending D K)} :
    node.result env callees w = some (ending, w') ↔
      ∃ result, node.Denotes callees env w result w' ∧ ending = result.map Prod.fst := by
  rw [result, Play.limit_eq_some (denote_growing env node)]
  simp only [map_eq_pure_bind, Play.bind_apply, Denotes]
  constructor
  · rintro ⟨fuel, h⟩
    rcases hfuel : node.denote fuel env callees w with _ | ⟨p | e, w₁⟩
    · rw [hfuel] at h; cases h
    · rw [hfuel] at h; cases h; exact ⟨_, ⟨fuel, hfuel⟩, rfl⟩
    · rw [hfuel] at h; cases h; exact ⟨_, ⟨fuel, hfuel⟩, rfl⟩
  · rintro ⟨result, ⟨fuel, hfuel⟩, rfl⟩
    refine ⟨fuel, ?_⟩
    rw [hfuel]
    cases result <;> rfl

/-! One equation for each kind of node. -/

/-- A node without parts means what it does at once. -/
theorem result_leaf {play : Play D K σ (Ending D K)} (h : node.leaf? = some play) :
    node.result env = play := by
  rw [result, ← Play.limit_succ (denote_growing env node)]
  simp only [denote_leaf h, Functor.map_map, id_map', Play.limit_const]

/-- A node with a part in it means that part, and then what the frame pushed for it makes of the
    ending. -/
theorem result_enter {frame : Frame D K} (h : node.enter? = some (inner, frame)) :
    node.result env = inner.result env >>= fun ending =>
      match frame.answer? ending with
      | some play => play >>= result env
      | none => (pure ending : Play D K σ _) := by
  have hstep : ∀ fuel, (Prod.fst <$> node.denote (fuel + 1) env : Play D K σ _) =
      (Prod.fst <$> inner.denote fuel env) >>= fun ending =>
        match frame.answer? ending with
        | some play => play >>= fun next => Prod.fst <$> next.denote fuel env
        | none => pure ending := by
    intro fuel
    rw [denote_enter h, map_bind, bind_map_left]
    refine bind_congr fun ⟨ending, n⟩ => ?_
    simp only
    cases frame.answer? (σ := σ) ending with
    | some play => simp only [map_bind, counting_fst]
    | none => simp only [map_pure]
  rw [result, ← Play.limit_succ (denote_growing env node)]
  simp only [hstep]
  rw [Play.limit_bind (denote_growing env inner)]
  · refine bind_congr fun ending => ?_
    cases frame.answer? (σ := σ) ending with
    | some play =>
      exact (Play.limit_bind (fun _ => .refl play) fun next => denote_growing env next).trans
        (by rw [Play.limit_const]; rfl)
    | none => exact Play.limit_const _
  · intro ending
    cases frame.answer? (σ := σ) ending with
    | some play => exact Play.Growing.bind (fun _ => .refl play) fun next => denote_growing env next
    | none => exact fun _ => .refl _

/-- The equation for sequence: a failure passes, and a value is handed to the continuation. -/
theorem result_flatMap (inner : Node D K) (k : Continuation D K) :
    ((Node.flatMap inner k).result env : Play D K σ _) = inner.result env >>= fun
      | .success v => k.resume v >>= result env
      | .failure c => pure (.failure c) := by
  rw [result_enter rfl]
  refine bind_congr fun ending => ?_
  cases ending <;> rfl

/-- The equation for a fold: either ending is handed on, to the handler or to the continuation. -/
theorem result_fold (inner : Node D K) (onCause : Handler D K) (k : Continuation D K) :
    ((Node.fold inner onCause k).result env : Play D K σ _) = inner.result env >>= fun
      | .success v => k.resume v >>= result env
      | .failure c => onCause.resume c >>= result env := by
  rw [result_enter rfl]
  refine bind_congr fun ending => ?_
  cases ending <;> rfl

/-- The equation for a scope: what is inside means what it does in the environment of the slot. -/
theorem result_provide (slot : Slot D K) (inner : Node D K) :
    ((Node.provide slot inner).result env : Play D K σ _) = slot.take >>= fun
      | some bound => inner.result (some bound)
      | none => pure (.failure (.ofFault .alreadyConsumed)) := by
  have hstep : ∀ fuel, (Prod.fst <$> (Node.provide slot inner).denote (fuel + 1) env :
      Play D K σ _) = slot.take >>= fun
        | some bound => Prod.fst <$> inner.denote fuel (some bound)
        | none => pure (.failure (.ofFault .alreadyConsumed)) := by
    intro fuel
    rw [denote_provide, map_bind]
    refine bind_congr fun bound? => ?_
    cases bound? with
    | some bound => exact counting_fst _ _
    | none => simp only [map_pure]
  rw [result, ← Play.limit_succ (denote_growing env _)]
  simp only [hstep]
  rw [Play.limit_bind fun _ => .refl slot.take, Play.limit_const]
  · refine bind_congr fun bound? => ?_
    cases bound? with
    | some bound => rfl
    | none => exact Play.limit_const _
  · intro bound?
    cases bound? with
    | some bound => exact denote_growing (some bound) inner
    | none => exact fun _ => .refl _

/-- The equation for a read: the link goes on from the environment bound, or a fault is made. -/
theorem result_read (type : Ty) (link : Link D K) :
    ((Node.read type link).result env : Play D K σ _) =
      link.followEnvironment type env >>= result env := by
  have hstep : ∀ fuel, (Prod.fst <$> (Node.read type link).denote (fuel + 1) env :
      Play D K σ _) = link.followEnvironment type env >>= fun next =>
        Prod.fst <$> next.denote fuel env := by
    intro fuel
    simp only [denote_read, map_bind, counting_fst]
  rw [result, ← Play.limit_succ (denote_growing env _)]
  simp only [hstep]
  rw [Play.limit_bind (fun _ => .refl _) fun next => denote_growing env next, Play.limit_const]
  rfl

/-! The leaves that effects are made of. -/

@[simp] theorem result_succeed (v : Value D K) :
    ((Node.succeed (.shared v)).result env : Play D K σ _) = pure (.success v) :=
  result_leaf rfl

@[simp] theorem result_failCause (c : Cause (Value D K)) :
    ((Node.failCause (.shared c)).result env : Play D K σ _) = pure (.failure c) :=
  result_leaf rfl

@[simp] theorem result_ofFault (f : Fault) :
    ((Node.ofFault f).result env : Play D K σ _) = pure (.failure (.ofFault f)) :=
  result_failCause _

/-- To provide an environment is to put it in the place of the one that is bound. -/
@[simp] theorem result_provide_shared (v : Value D K) (inner : Node D K) :
    ((Node.provide (.shared v) inner).result env : Play D K σ _) = inner.result (some v) :=
  result_provide _ _

end Node

/-! ## Nodes made for one evaluation -/

/-- Makes so many cells of the library, and takes them. -/
def Play.spend (k : Nat) : Play D K σ Unit := fun _ w => some (.ok (), w.spent k)

namespace Node

variable [Language D K σ] {env : Option (Value D K)}

/-- A node made for this once ends as its slot says, at the cost of the cell it takes. -/
@[simp] theorem succeedOnce_result (v : Value D K) :
    (succeedOnce v >>= result env : Play D K σ _) =
      Play.spend 1 >>= fun _ => pure (.success v) := by
  funext callees w
  obtain ⟨node, w₁, hplay, hdenotes⟩ := succeedOnce_denotes callees env w v
  rw [Play.bind_apply, hplay]
  exact result_eq_some.mpr ⟨_, hdenotes, rfl⟩

@[simp] theorem haltOnce_result (c : Cause (Value D K)) :
    (haltOnce c >>= result env : Play D K σ _) =
      Play.spend 1 >>= fun _ => pure (.failure c) := by
  funext callees w
  obtain ⟨node, w₁, hplay, hdenotes⟩ := haltOnce_denotes callees env w c
  rw [Play.bind_apply, hplay]
  exact result_eq_some.mpr ⟨_, hdenotes, rfl⟩

end Node

/-! ## What the combinators make of an ending -/

namespace Effect

variable [Language D K σ] {env : Option (Value D K)} {R E E' A B : Ty}

/-- A combinator of one link goes on from the value alone, and only if that is of the type declared.
    -/
theorem linked_result (e : Effect D K R E A) (link : Link D K) :
    ((e.linked link : Effect D K R E B).node.result env : Play D K σ _) =
      e.node.result env >>= fun
        | .success v => link.followTyped A v >>= Node.result env
        | .failure c => pure (.failure c) :=
  Node.result_flatMap _ _

/-- A combinator of two links goes on from typed failures and values; defects pass. -/
theorem folded_result (e : Effect D K R E A) (onFailure onSuccess : Link D K) :
    ((e.folded onFailure onSuccess : Effect D K R E' B).node.result env : Play D K σ _) =
      e.node.result env >>= fun
        | .success v => onSuccess.followTyped A v >>= Node.result env
        | .failure c => (Handler.onFailure E onFailure).resume c >>= Node.result env :=
  Node.result_fold _ _ _

/-- The only combinator that goes on from a cause as a whole, defects included. -/
theorem foldCause_result (e : Effect D K R E A) (onCause onSuccess : K) :
    ((e.foldCause onCause onSuccess : Effect D K R E' B).node.result env : Play D K σ _) =
      e.node.result env >>= fun
        | .success v => (Link.call onSuccess).followTyped A v >>= Node.result env
        | .failure c => (Handler.onCause E onCause).resume c >>= Node.result env :=
  Node.result_fold _ _ _

end Effect

/-! ## What the machine does -/

/-- An evaluation that has room for its frames ends as its node does, but for what was reported. -/
theorem Runner.exists_evaluate_iff [Language D K σ] {callees : Callees D K σ}
    (hc : Callees.Alike World.Agree callees callees) {r : Runner D K}
    (hfit : r.settings.framesFit = true) {node : Node D K} {w u : World σ}
    {ending : Raised D K (Ending D K)} :
    (∃ fuel r' w', r.evaluate callees fuel node w = some (ending, r', w') ∧ w'.Agree u) ↔
      ∃ v', node.result r.environments.back? callees w = some (ending, v') ∧ v'.Agree u := by
  constructor
  · rintro ⟨fuel, r', w', h, hu⟩
    obtain ⟨result, v', hdenotes, hends⟩ := denotes_of_evaluate hc hfit h
    exact ⟨v', Node.result_eq_some.mpr ⟨result, hdenotes, hends.ending⟩, hends.world.symm.trans hu⟩
  · rintro ⟨v', h, hu⟩
    obtain ⟨result, hdenotes, rfl⟩ := Node.result_eq_some.mp h
    obtain ⟨fuel, r', w', heval, hends⟩ := evaluate_of_denotes hc hfit hdenotes
    exact ⟨fuel, r', w', heval, hends.world.trans hu⟩

end EffectMachine
