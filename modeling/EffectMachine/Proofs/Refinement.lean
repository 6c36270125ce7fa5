/-
  The machine and the reading.

  `Node.denote` reads off a tree what its node means, by recursion and with one environment at hand;
  the machine gets there step by step, with a stack of frames and a stack of environments.  This
  file shows that they are the same.

  Both directions are said for a node in the middle of an evaluation, under any pending frames and
  on any stack of environments.  If the reading comes to an end, the machine gets from dispatching
  the node to settling its ending with the stacks as they were (`follows_of_fuel`, by induction on
  the fuel of the reading).  If the machine comes to an end, it must have settled the node on the
  way or have been cut short inside it, and the reading says the same (`settles_of_fuel`, by
  induction on the fuel of the machine).  The stack of environments enters the reading through its
  top alone, and the reports of the machine are the only difference there is between the worlds.

  A whole evaluation is the case in which no frame is pending (`evaluate_refines_denote`).
-/
import EffectMachine.Denotation
import EffectMachine.Proofs.Calls
import EffectMachine.Proofs.Ordinary

namespace EffectMachine

variable {D K σ α β : Type}

/-! ## Readings that come to an end -/

/-- What comes of a sequence of two plays comes of the second one, unless the first one raises. -/
theorem Play.bind_eq_some {x : Play D K σ α} {f : α → Play D K σ β} {callees : Callees D K σ}
    {w w' : World σ} {result : Raised D K β} (h : (x >>= f) callees w = some (result, w')) :
    (∃ a w₁, x callees w = some (.ok a, w₁) ∧ f a callees w₁ = some (result, w')) ∨
      ∃ p, x callees w = some (.error p, w') ∧ result = .error p := by
  rw [bind_apply] at h
  rcases hx : x callees w with _ | ⟨p | a, w₁⟩
  · rw [hx] at h; cases h
  · rw [hx] at h; cases h; exact .inr ⟨p, rfl, rfl⟩
  · rw [hx] at h; exact .inl ⟨a, w₁, rfl, h⟩

/-- What comes of one play comes of another. -/
def Play.Below (x y : Play D K σ α) : Prop :=
  ∀ ⦃callees w out⦄, x callees w = some out → y callees w = some out

theorem Play.Below.refl (x : Play D K σ α) : x.Below x := fun _ _ _ h => h

theorem Play.Below.bind {x y : Play D K σ α} {f g : α → Play D K σ β} (hx : x.Below y)
    (hf : ∀ a, (f a).Below (g a)) : (x >>= f).Below (y >>= g) := by
  intro callees w ⟨result, w'⟩ h
  rw [bind_apply]
  obtain ⟨a, w₁, ha, h'⟩ | ⟨p, hp, rfl⟩ := Play.bind_eq_some h
  · rw [hx ha]
    exact hf a h'
  · rw [hx hp]

/-- A relation between plays that is kept in sequence, and that every play of the library's has to
    itself.  The reading of a node consists of such plays, one after the other, and so it stands in
    this relation as well (`Node.denote_congr`). -/
structure Play.Congruence [Language D K σ]
    (R : (α : Type) → Play D K σ α → Play D K σ α → Prop) : Prop where
  bind {α β : Type} {x y : Play D K σ α} {f g : α → Play D K σ β} (hx : R α x y)
    (hf : ∀ a, R β (f a) (g a)) : R β (x >>= f) (y >>= g)
  ordinary {α : Type} {x : Play D K σ α} (hx : x.Ordinary) : R α x x
  attempted (f : K) (args : List (Value D K)) :
    R _ (Machine.attempted f args) (Machine.attempted f args)

namespace Play.Congruence

variable [Language D K σ] {R : (α : Type) → Play D K σ α → Play D K σ α → Prop}

theorem map (h : Congruence R) (f : α → β) {x y : Play D K σ α} (hx : R α x y) :
    R β (f <$> x) (f <$> y) := by
  rw [map_eq_pure_bind, map_eq_pure_bind]
  exact h.bind hx fun a => h.ordinary (.pure (f a))

theorem leaf (h : Congruence R) {node : Node D K} {play : Play D K σ (Ending D K)}
    (hleaf : node.leaf? = some play) : R _ play play := by
  cases node with
  | attempt f args => cases hleaf; exact h.attempted f args
  | succeed slot | failCause source | total f args =>
    exact h.ordinary (Node.leaf?_ordinary hleaf nofun)
  | flatMap inner k | fold inner onCause k | provide slot inner | read type link => cases hleaf

end Play.Congruence

theorem Play.below_congruence [Language D K σ] :
    Play.Congruence fun _ (x y : Play D K σ _) => x.Below y where
  bind := .bind
  ordinary _ := .refl _
  attempted _ _ := .refl _

namespace Node

/-- A result after so many more nodes. -/
def later (more : Nat) (result : Raised D K (Ending D K × Nat)) : Raised D K (Ending D K × Nat) :=
  result.map fun (ending, n) => (ending, n + more)

/-- The play, with so many more nodes counted at the end. -/
def counting (more : Nat) (x : Play D K σ (Ending D K × Nat)) : Play D K σ (Ending D K × Nat) :=
  (fun (ending, n) => (ending, n + more)) <$> x

theorem counting_apply (more : Nat) (x : Play D K σ (Ending D K × Nat)) (callees : Callees D K σ)
    (w : World σ) :
    counting more x callees w = (x callees w).map fun (result, w') => (later more result, w') := by
  rw [counting, map_eq_pure_bind, Play.bind_apply]
  rcases x callees w with _ | ⟨_ | a, w₁⟩ <;> rfl

/-- What a counted play comes to, the play itself comes to with the smaller count. -/
theorem counting_eq_some {more : Nat} {x : Play D K σ (Ending D K × Nat)}
    {callees : Callees D K σ} {w w' : World σ} {result : Raised D K (Ending D K × Nat)}
    (h : counting more x callees w = some (result, w')) :
    ∃ result', x callees w = some (result', w') ∧ result = later more result' := by
  rw [counting_apply] at h
  rcases hx : x callees w with _ | ⟨result', w₁⟩
  · rw [hx] at h; cases h
  · rw [hx] at h; cases h; exact ⟨result', rfl, rfl⟩

section Equations

variable [Language D K σ] {fuel : Nat} {env : Option (Value D K)}

/-- The reading of a leaf: what it does at once, for one node. -/
theorem denote_leaf {node : Node D K} {play : Play D K σ (Ending D K)}
    (h : node.leaf? = some play) : node.denote (fuel + 1) env = (fun e => (e, 1)) <$> play := by
  rw [map_eq_pure_bind]
  cases node with
  | succeed slot => cases h; rfl
  | failCause source => cases h; rw [map_eq_pure_bind, bind_assoc]; rfl
  | total f args => cases h; rw [map_eq_pure_bind, bind_assoc]; rfl
  | attempt f args => cases h; rfl
  | flatMap inner k | fold inner onCause k | provide slot inner | read type link => cases h

/-- What a node with a frame means: the node inside it, and then what the frame answers. -/
theorem denote_enter {node inner : Node D K} {frame : Frame D K}
    (h : node.enter? = some (inner, frame)) :
    (node.denote (fuel + 1) env : Play D K σ _) = do
      let (ending, n) ← inner.denote fuel env
      match frame.answer? ending with
      | some play => play >>= fun next => counting (n + 1) (next.denote fuel env)
      | none => return (ending, n + 1) := by
  have hcount : ∀ (n : Nat) (next : Node D K), (do
      let (ending, m) ← next.denote fuel env
      return (ending, n + m + 1) : Play D K σ _) = counting (n + 1) (next.denote fuel env) := by
    intro n next
    rw [counting, map_eq_pure_bind]
    refine bind_congr fun ⟨ending, m⟩ => ?_
    show pure (ending, n + m + 1) = pure (ending, m + (n + 1))
    rw [show n + m + 1 = m + (n + 1) by omega]
  cases node with
  | flatMap inner k =>
    cases h
    simp only [denote]
    refine bind_congr fun ⟨ending, n⟩ => ?_
    cases ending with
    | success v => exact bind_congr fun next => hcount n next
    | failure c => rfl
  | fold inner onCause k =>
    cases h
    simp only [denote]
    refine bind_congr fun ⟨ending, n⟩ => ?_
    cases ending with
    | success v => exact bind_congr fun next => hcount n next
    | failure c => exact bind_congr fun next => hcount n next
  | succeed slot | failCause source | total f args | attempt f args | provide slot inner
  | read type link => cases h

/-- The reading of a scope: what is inside is read in the environment of the slot. -/
theorem denote_provide (slot : Slot D K) (inner : Node D K) :
    ((Node.provide slot inner).denote (fuel + 1) env : Play D K σ _) =
      slot.take >>= fun
        | some bound => counting 1 (inner.denote fuel (some bound))
        | none => return (.failure (.ofFault .alreadyConsumed), 1) := by
  simp only [denote]
  refine bind_congr fun bound? => ?_
  cases bound? with
  | none => rfl
  | some bound => exact (map_eq_pure_bind _ _).symm

/-- The reading of a read: what the link makes of the environment is read in its place. -/
theorem denote_read (type : Ty) (link : Link D K) :
    ((Node.read type link).denote (fuel + 1) env : Play D K σ _) =
      link.followEnvironment type env >>= fun next => counting 1 (next.denote fuel env) := by
  simp only [denote]
  refine bind_congr fun next => ?_
  rw [counting, map_eq_pure_bind]

/-- Readings stand in every relation that the plays stand in which they consist of, also readings on
    fuel that differs, as long as this holds where the first of them is out of fuel.  By induction on
    that fuel: all kinds of nodes are one of four. -/
theorem denote_congr {R : (α : Type) → Play D K σ α → Play D K σ α → Prop}
    (h : Play.Congruence R) (more : Nat)
    (hendless : ∀ env node, R _ (Node.denote 0 env node) (Node.denote more env node))
    (fuel : Nat) (env : Option (Value D K)) (node : Node D K) :
    R _ (node.denote fuel env) (node.denote (fuel + more) env) := by
  induction fuel generalizing env node with
  | zero => rw [Nat.zero_add]; exact hendless env node
  | succ fuel ih =>
    rw [Nat.add_right_comm]
    cases hleaf : node.leaf? (σ := σ) with
    | some play =>
      rw [denote_leaf hleaf, denote_leaf hleaf]
      exact h.map _ (h.leaf hleaf)
    | none =>
      cases node with
      | succeed slot | failCause source | total f args | attempt f args => cases hleaf
      | flatMap inner k | fold inner onCause k =>
        rw [denote_enter rfl, denote_enter rfl]
        refine h.bind (ih env inner) fun ⟨ending, n⟩ => ?_
        simp only
        split
        · rename_i play hframe
          exact h.bind (h.ordinary (Frame.answer?_ordinary hframe))
            fun next => h.map _ (ih env next)
        · exact h.ordinary (.pure _)
      | provide slot inner =>
        rw [denote_provide, denote_provide]
        refine h.bind (h.ordinary slot.take_ordinary) fun bound? => ?_
        cases bound? with
        | none => exact h.ordinary (.pure _)
        | some bound => exact h.map _ (ih (some bound) inner)
      | read type link =>
        rw [denote_read, denote_read]
        exact h.bind (h.ordinary (link.followEnvironment_ordinary type env))
          fun next => h.map _ (ih env next)

/-- A reading that has come to an end is not changed by more fuel. -/
theorem denote_below_succ (fuel : Nat) (env : Option (Value D K)) (node : Node D K) :
    (node.denote fuel env : Play D K σ _).Below (node.denote (fuel + 1) env) :=
  denote_congr Play.below_congruence 1 (fun _ _ _ _ _ h => nomatch h) fuel env node

/-- More fuel never changes what a reading comes to. -/
theorem denote_below {fuel more : Nat} (h : fuel ≤ more) (env : Option (Value D K))
    (node : Node D K) : (node.denote fuel env : Play D K σ _).Below (node.denote more env) := by
  induction h with
  | refl => exact .refl _
  | step _ ih => exact fun callees w out hout => denote_below_succ _ env node (ih hout)

end Equations

/-- The reading of a node comes to an end: what it raises, or its ending and the number of nodes. -/
def Denotes [Language D K σ] (callees : Callees D K σ) (env : Option (Value D K)) (node : Node D K)
    (w : World σ) (result : Raised D K (Ending D K × Nat)) (w' : World σ) : Prop :=
  ∃ fuel, node.denote fuel env callees w = some (result, w')

namespace Denotes

variable [Language D K σ] {callees : Callees D K σ} {env : Option (Value D K)}
  {node inner next : Node D K} {frame : Frame D K} {play : Play D K σ (Ending D K)}
  {reply : Play D K σ (Node D K)} {ending : Ending D K} {n : Nat} {p : Value D K}
  {result : Raised D K (Ending D K × Nat)} {w w₁ w₂ w₃ : World σ}

theorem leaf (h : node.leaf? = some play) (hplay : play callees w = some (.ok ending, w₁)) :
    Denotes callees env node w (.ok (ending, 1)) w₁ := by
  refine ⟨1, ?_⟩
  rw [denote_leaf h, map_eq_pure_bind, Play.bind_apply, hplay]
  rfl

theorem leaf_raised (h : node.leaf? = some play) (hplay : play callees w = some (.error p, w₁)) :
    Denotes callees env node w (.error p) w₁ := by
  refine ⟨1, ?_⟩
  rw [denote_leaf h, map_eq_pure_bind, Play.bind_apply, hplay]

theorem enter_raised (h : node.enter? = some (inner, frame))
    (hinner : Denotes callees env inner w (.error p) w₁) :
    Denotes callees env node w (.error p) w₁ := by
  obtain ⟨fuel, hfuel⟩ := hinner
  refine ⟨fuel + 1, ?_⟩
  rw [denote_enter h, Play.bind_apply, hfuel]

/-- A frame that does not answer hands the ending on, and the node counts as one more. -/
theorem enter_skipped (h : node.enter? = some (inner, frame))
    (hinner : Denotes callees env inner w (.ok (ending, n)) w₁)
    (hframe : frame.answer? (σ := σ) ending = none) :
    Denotes callees env node w (.ok (ending, n + 1)) w₁ := by
  obtain ⟨fuel, hfuel⟩ := hinner
  refine ⟨fuel + 1, ?_⟩
  rw [denote_enter h, Play.bind_apply, hfuel]
  simp only [hframe]
  rfl

theorem answer_raised (h : node.enter? = some (inner, frame))
    (hinner : Denotes callees env inner w (.ok (ending, n)) w₁)
    (hframe : frame.answer? ending = some reply)
    (hreply : reply callees w₁ = some (.error p, w₂)) :
    Denotes callees env node w (.error p) w₂ := by
  obtain ⟨fuel, hfuel⟩ := hinner
  refine ⟨fuel + 1, ?_⟩
  rw [denote_enter h, Play.bind_apply, hfuel]
  simp only [hframe]
  rw [Play.bind_apply, hreply]

/-- If the frame answers, the node it returns is what goes on. -/
theorem answer (h : node.enter? = some (inner, frame))
    (hinner : Denotes callees env inner w (.ok (ending, n)) w₁)
    (hframe : frame.answer? ending = some reply)
    (hreply : reply callees w₁ = some (.ok next, w₂))
    (hnext : Denotes callees env next w₂ result w₃) :
    Denotes callees env node w (later (n + 1) result) w₃ := by
  obtain ⟨fuel, hfuel⟩ := hinner
  obtain ⟨fuel', hfuel'⟩ := hnext
  refine ⟨max fuel fuel' + 1, ?_⟩
  rw [denote_enter h, Play.bind_apply, denote_below (Nat.le_max_left fuel fuel') env inner hfuel]
  simp only [hframe]
  rw [Play.bind_apply, hreply]
  simp only
  rw [counting_apply, denote_below (Nat.le_max_right fuel fuel') env next hfuel']
  rfl

theorem consumed {slot : Slot D K} (htake : slot.take callees w = some (.ok none, w₁)) :
    Denotes callees env (.provide slot inner) w
      (.ok (.failure (.ofFault .alreadyConsumed), 1)) w₁ := by
  refine ⟨1, ?_⟩
  rw [denote_provide, Play.bind_apply, htake]
  rfl

/-- A scope denotes what is inside it, in the environment of the slot. -/
theorem provide {slot : Slot D K} {bound : Value D K}
    (htake : slot.take callees w = some (.ok (some bound), w₁))
    (hinner : Denotes callees (some bound) inner w₁ result w₂) :
    Denotes callees env (.provide slot inner) w (later 1 result) w₂ := by
  obtain ⟨fuel, hfuel⟩ := hinner
  refine ⟨fuel + 1, ?_⟩
  rw [denote_provide, Play.bind_apply, htake]
  simp only
  rw [counting_apply, hfuel]
  rfl

theorem read_raised {type : Ty} {link : Link D K}
    (hplay : link.followEnvironment type env callees w = some (.error p, w₁)) :
    Denotes callees env (.read type link) w (.error p) w₁ := by
  refine ⟨1, ?_⟩
  rw [denote_read, Play.bind_apply, hplay]

theorem read {type : Ty} {link : Link D K}
    (hplay : link.followEnvironment type env callees w = some (.ok next, w₁))
    (hnext : Denotes callees env next w₁ result w₂) :
    Denotes callees env (.read type link) w (later 1 result) w₂ := by
  obtain ⟨fuel, hfuel⟩ := hnext
  refine ⟨fuel + 1, ?_⟩
  rw [denote_read, Play.bind_apply, hplay]
  simp only
  rw [counting_apply, hfuel]
  rfl

/-- A reading comes to one end at most. -/
theorem unique {result' : Raised D K (Ending D K × Nat)}
    (h : Denotes callees env node w result w₁) (h' : Denotes callees env node w result' w₂) :
    result = result' ∧ w₁ = w₂ := by
  obtain ⟨fuel, hfuel⟩ := h
  obtain ⟨fuel', hfuel'⟩ := h'
  have hmax := denote_below (Nat.le_max_left fuel fuel') env node hfuel
  have hmax' := denote_below (Nat.le_max_right fuel fuel') env node hfuel'
  cases hmax.symm.trans hmax'
  exact ⟨rfl, rfl⟩

/-- Where a node with a frame comes to an end, so does the node inside it. -/
theorem of_enter (h : node.enter? = some (inner, frame))
    (hnode : Denotes callees env node w result w₁) :
    ∃ result' w', Denotes callees env inner w result' w' := by
  obtain ⟨fuel, hfuel⟩ := hnode
  cases fuel with
  | zero => cases hfuel
  | succ fuel =>
    rw [denote_enter h] at hfuel
    obtain ⟨⟨ending, n⟩, w', hinner, -⟩ | ⟨p, hinner, -⟩ := Play.bind_eq_some hfuel
    · exact ⟨_, w', fuel, hinner⟩
    · exact ⟨_, w₁, fuel, hinner⟩

/-- Where the frame answers with a node, the whole ends as that node does. -/
theorem answer_iff (h : node.enter? = some (inner, frame))
    (hinner : Denotes callees env inner w (.ok (ending, n)) w₁)
    (hframe : frame.answer? ending = some reply)
    (hreply : reply callees w₁ = some (.ok next, w₂)) :
    Denotes callees env node w result w₃ ↔
      ∃ result', Denotes callees env next w₂ result' w₃ ∧ result = later (n + 1) result' := by
  constructor
  · rintro ⟨fuel, hfuel⟩
    cases fuel with
    | zero => cases hfuel
    | succ fuel =>
      rw [denote_enter h] at hfuel
      obtain ⟨⟨ending', n'⟩, w', hinner', hrest⟩ | ⟨p, hinner', -⟩ := Play.bind_eq_some hfuel
      · obtain ⟨hsame, rfl⟩ := unique hinner ⟨fuel, hinner'⟩
        cases hsame
        simp only [hframe, Play.bind_apply, hreply] at hrest
        obtain ⟨result', hnext, rfl⟩ := counting_eq_some hrest
        exact ⟨result', ⟨fuel, hnext⟩, rfl⟩
      · cases (unique hinner ⟨fuel, hinner'⟩).1
  · rintro ⟨result', hnext, rfl⟩
    exact answer h hinner hframe hreply hnext

/-- A node that provides an environment ends as the node inside it does with that bound. -/
theorem provide_iff {slot : Slot D K} {bound : Value D K}
    (htake : slot.take callees w = some (.ok (some bound), w₁)) :
    Denotes callees env (.provide slot inner) w result w₂ ↔
      ∃ result', Denotes callees (some bound) inner w₁ result' w₂ ∧ result = later 1 result' := by
  constructor
  · rintro ⟨fuel, hfuel⟩
    cases fuel with
    | zero => cases hfuel
    | succ fuel =>
      rw [denote_provide, Play.bind_apply, htake] at hfuel
      obtain ⟨result', hinner, rfl⟩ := counting_eq_some hfuel
      exact ⟨result', ⟨fuel, hinner⟩, rfl⟩
  · rintro ⟨result', hinner, rfl⟩
    exact provide htake hinner

end Denotes

end Node

/-! ## Nodes made for one evaluation -/

/-- The world after so many cells of the library have been made and taken. -/
def World.spent (w : World σ) (k : Nat) : World σ :=
  { w with cells := w.cells ++ Array.replicate k true }

theorem World.spent_zero (w : World σ) : w.spent 0 = w := by
  show { w with cells := w.cells ++ #[] } = w
  rw [Array.append_empty]

theorem World.spent_spent (w : World σ) (j k : Nat) : (w.spent j).spent k = w.spent (j + k) := by
  simp only [spent, Array.append_assoc, Array.replicate_append_replicate]

theorem World.Agree.spent {w v : World σ} (h : w.Agree v) (k : Nat) :
    (w.spent k).Agree (v.spent k) :=
  ⟨h.state, h.halts, congrArg (· ++ Array.replicate k true) h.cells⟩

namespace Node

variable [Language D K σ] (callees : Callees D K σ) (env : Option (Value D K)) (w : World σ)

/-- A node that succeeds with a value once does so when it is evaluated right away. -/
theorem succeedOnce_denotes (v : Value D K) :
    ∃ node w₁, succeedOnce v callees w = some (.ok node, w₁) ∧
      node.Denotes callees env w₁ (.ok (.success v, 1)) (w.spent 1) := by
  obtain ⟨s, halts, cells, trace⟩ := w
  refine ⟨.succeed (.once cells.size v), ⟨s, halts, cells.push false, trace⟩, rfl, .leaf rfl ?_⟩
  simp only [Slot.settle, Slot.take, Play.bind_apply, Play.take, takeCell_push, if_true]
  rfl

/-- A node that ends in a cause once does so when it is evaluated right away. -/
theorem haltOnce_denotes (c : Cause (Value D K)) :
    ∃ node w₁, haltOnce c callees w = some (.ok node, w₁) ∧
      node.Denotes callees env w₁ (.ok (.failure c, 1)) (w.spent 1) := by
  obtain ⟨s, halts, cells, trace⟩ := w
  refine ⟨.failCause (.once cells.size c), ⟨s, halts, cells.push false, trace⟩, rfl, .leaf rfl ?_⟩
  rw [map_eq_pure_bind, Play.bind_apply]
  simp only [Source.take, Play.bind_apply, Play.take, takeCell_push, if_true]
  rfl

end Node

/-! ## From the reading to the machine -/

/-- What the first of two plays that are alike comes to the second comes to as well. -/
theorem Play.Alike.exists_of_eq_some {τ : Type} {R : World σ → World τ → Prop}
    {c : Callees D K σ} {d : Callees D K τ} {x : Play D K σ α} {y : Play D K τ α}
    (h : Play.Alike R c d x y) {w w' : World σ} {v : World τ} {result : Raised D K α}
    (hw : R w v) (hx : x c w = some (result, w')) : ∃ v', y d v = some (result, v') ∧ R w' v' := by
  have hxy := h hw
  rw [hx] at hxy
  generalize y d v = q at hxy
  cases hxy with
  | ended h' => exact ⟨_, rfl, h'⟩

section Tables

variable [L : Language D K σ] {callees : Callees D K σ}

/-- In worlds that differ in what was reported at most, all of it goes the same way. -/
theorem Play.agree_congruence (hc : Callees.Alike World.Agree callees callees) :
    Play.Congruence fun _ (x y : Play D K σ _) => Play.Alike World.Agree callees callees x y where
  bind := .bind
  ordinary hx := by
    induction hx with
    | pure a => exact .pure a
    | act a => exact a.exec_agree hc
    | cell => exact .cell World.agree_kept
    | take n => exact .take World.agree_kept n
    | takeHalt n => exact .takeHalt World.agree_kept n
    | bind _ _ ihx ihf => exact ihx.bind ihf
  attempted f args := Machine.attempted_alike L.alike_agree World.agree_kept hc f args

theorem Node.leaf?_agree (hc : Callees.Alike World.Agree callees callees) {node : Node D K}
    {play : Play D K σ (Ending D K)} (h : node.leaf? = some play) :
    Play.Alike World.Agree callees callees play play := (Play.agree_congruence hc).leaf h

theorem Frame.answer?_agree (hc : Callees.Alike World.Agree callees callees) {frame : Frame D K}
    {ending : Ending D K} {play : Play D K σ (Node D K)} (h : frame.answer? ending = some play) :
    Play.Alike World.Agree callees callees play play :=
  (Play.agree_congruence hc).ordinary (answer?_ordinary h)

/-- Nodes mean the same in worlds that differ in what was reported at most. -/
theorem Node.denote_agree (hc : Callees.Alike World.Agree callees callees) (fuel : Nat)
    (env : Option (Value D K)) (node : Node D K) :
    Play.Alike World.Agree callees callees (node.denote fuel env) (node.denote fuel env) :=
  denote_congr (Play.agree_congruence hc) 0 (fun _ _ _ _ _ => .endless) fuel env node

/-- What a node denotes does not depend on what was reported before, by induction on the fuel of the
    reading. -/
theorem Node.Denotes.agree (hc : Callees.Alike World.Agree callees callees)
    {env : Option (Value D K)} {node : Node D K} {result : Raised D K (Ending D K × Nat)}
    {w w' v : World σ} (h : node.Denotes callees env w result w') (hw : w.Agree v) :
    ∃ v', node.Denotes callees env v result v' ∧ w'.Agree v' := by
  obtain ⟨fuel, hfuel⟩ := h
  obtain ⟨v', hv', hagree⟩ := (node.denote_agree hc fuel env).exists_of_eq_some hw hfuel
  exact ⟨v', ⟨fuel, hv'⟩, hagree⟩

end Tables

namespace Machine

variable [L : Language D K σ] {callees : Callees D K σ} {node : Node D K}
  {frames : List (Frame D K)} {envs : Array (Value D K)} {env : Option (Value D K)} {steps : Nat}
  {result : Raised D K (Ending D K × Nat)} {w v v' : World σ}

/-- The machine gets through the node: to settling its ending with the stacks as they were, or to a
    step inside it that raises. -/
def Arrives (callees : Callees D K σ) (node : Node D K) (frames : List (Frame D K))
    (envs : Array (Value D K)) (steps : Nat) (w : World σ) :
    Raised D K (Ending D K × Nat) → World σ → Prop
  | .ok (ending, n), w' =>
    Reaches callees (⟨.dispatch node, frames, envs, steps⟩, w)
      (⟨.settle ending, frames, envs, steps + n⟩, w')
  | .error p, w' => ∃ last w₁ steps',
    Reaches callees (⟨.dispatch node, frames, envs, steps⟩, w) (last, w₁) ∧
      Leaves callees last w₁ (.error p) steps' w'

/-- What the machine reaches from a state that a node leads to, it reaches from that node. -/
theorem Arrives.of_reaches {next : Node D K} {n : Nat} {w₁ w' : World σ}
    (hreach : Reaches callees (⟨.dispatch node, frames, envs, steps⟩, w)
      (⟨.dispatch next, frames, envs, steps + n⟩, w₁))
    (h : Arrives callees next frames envs (steps + n) w₁ result w') :
    Arrives callees node frames envs steps w (Node.later n result) w' := by
  cases result with
  | ok r =>
    obtain ⟨ending, m⟩ := r
    have h' : Reaches callees _ (⟨.settle ending, frames, envs, steps + n + m⟩, w') := h
    rw [show steps + n + m = steps + (m + n) by omega] at h'
    exact hreach.trans h'
  | error p =>
    obtain ⟨last, w₂, steps', hlast, hleaves⟩ := h
    exact ⟨last, w₂, steps', hreach.trans hlast, hleaves⟩

/-- On this fuel the machine gets through a node wherever the reading does, under any frames and in
    any world that differs in what was reported at most. -/
def Follows (callees : Callees D K σ) (fuel : Nat) : Prop :=
  ∀ ⦃node result v v' w⦄ (frames : List (Frame D K)) (envs : Array (Value D K)) (steps : Nat),
    node.denote fuel envs.back? callees v = some (result, v') → v.Agree w →
      ∃ w', Arrives callees node frames envs steps w result w' ∧ v'.Agree w'

/-! One lemma for each kind of node: the machine follows the reading of it on a little more fuel
than it follows the readings of what it is made of. -/

section Kinds

variable {fuel : Nat}

/-- A leaf: one step, and the machine settles. -/
theorem follows_leaf (hc : Callees.Alike World.Agree callees callees)
    {play : Play D K σ (Ending D K)} (hleaf : node.leaf? = some play)
    (hdenote : node.denote (fuel + 1) env callees v = some (result, v')) (hw : v.Agree w) :
    ∃ w', Arrives callees node frames envs steps w result w' ∧ v'.Agree w' := by
  rw [Node.denote_leaf hleaf, map_eq_pure_bind] at hdenote
  obtain ⟨ending, v₁, hplay, hdone⟩ | ⟨p, hplay, rfl⟩ := Play.bind_eq_some hdenote
  · cases hdone
    obtain ⟨w', hplay', hw'⟩ := (Node.leaf?_agree hc hleaf).exists_of_eq_some hw hplay
    exact ⟨w', .single (.leaf hleaf hplay'), hw'⟩
  · obtain ⟨w', hplay', hw'⟩ := (Node.leaf?_agree hc hleaf).exists_of_eq_some hw hplay
    exact ⟨w', ⟨_, _, _, .refl, .leaf hleaf hplay'⟩, hw'⟩

/-- A node with a part: one step goes into the part, and by induction the machine comes back to the
    frame with what the part denotes; then the frame answers, or the ending goes past it. -/
theorem follows_enter (hc : Callees.Alike World.Agree callees callees)
    (ih : Follows callees fuel) {inner : Node D K} {frame : Frame D K}
    (henter : node.enter? = some (inner, frame))
    (hdenote : node.denote (fuel + 1) envs.back? callees v = some (result, v')) (hw : v.Agree w) :
    ∃ w', Arrives callees node frames envs steps w result w' ∧ v'.Agree w' := by
  have hstep : Reaches callees (⟨.dispatch node, frames, envs, steps⟩, w)
      (⟨.dispatch inner, frame :: frames, envs, steps + 1⟩, w) := .single (.enter henter)
  rw [Node.denote_enter henter] at hdenote
  obtain ⟨⟨ending, n⟩, v₁, hinner, hrest⟩ | ⟨p, hinner, rfl⟩ := Play.bind_eq_some hdenote
  · obtain ⟨w₁, harrives, hw₁⟩ := ih (frame :: frames) envs (steps + 1) hinner hw
    have hsettle : Reaches callees _
        (⟨.settle ending, frame :: frames, envs, steps + 1 + n⟩, w₁) := hstep.trans harrives
    rw [show steps + 1 + n = steps + (n + 1) by omega] at hsettle
    simp only at hrest
    cases hframe : frame.answer? (σ := σ) ending with
    | none =>
      -- the frame does not wait for this ending, which is that of the whole
      rw [hframe] at hrest
      cases hrest
      obtain ⟨k, c, rfl, rfl⟩ := Frame.skips_of_enter henter hframe
      exact ⟨w₁, hsettle.tail .skip, hw₁⟩
    | some play =>
      -- the frame answers, and the node it answers with is the rest of the whole
      rw [hframe] at hrest
      have hplays := Frame.answer?_agree hc hframe
      obtain ⟨next, v₂, hplay, hmore⟩ | ⟨p, hplay, rfl⟩ := Play.bind_eq_some hrest
      · obtain ⟨w₂, hplay', hw₂⟩ := hplays.exists_of_eq_some hw₁ hplay
        have hnext := hsettle.tail (.resume hframe hplay')
        obtain ⟨result', hdenote', rfl⟩ := Node.counting_eq_some hmore
        obtain ⟨w₃, harrives', hw₃⟩ := ih frames envs (steps + (n + 1)) hdenote' hw₂
        exact ⟨w₃, .of_reaches hnext harrives', hw₃⟩
      · obtain ⟨w₂, hplay', hw₂⟩ := hplays.exists_of_eq_some hw₁ hplay
        exact ⟨w₂, ⟨_, _, _, hsettle, .resume hframe hplay'⟩, hw₂⟩
  · obtain ⟨w', ⟨last, w₁, steps', hreach, hleaves⟩, hw'⟩ :=
      ih (frame :: frames) envs (steps + 1) hinner hw
    exact ⟨w', ⟨last, w₁, steps', hstep.trans hreach, hleaves⟩, hw'⟩

/-- A scope: one step binds the environment, and the frame that was pushed for it restores the depth
    at the end. -/
theorem follows_provide (ih : Follows callees fuel) {slot : Slot D K} {inner : Node D K}
    (hdenote : (Node.provide slot inner).denote (fuel + 1) env callees v = some (result, v'))
    (hw : v.Agree w) :
    ∃ w', Arrives callees (.provide slot inner) frames envs steps w result w' ∧ v'.Agree w' := by
  rw [Node.denote_provide] at hdenote
  have hplays : Play.Alike World.Agree callees callees slot.take slot.take :=
    slot.take_alike World.agree_kept
  obtain ⟨bound?, v₁, htake, hmore⟩ | ⟨p, htake, -⟩ := Play.bind_eq_some hdenote
  · obtain ⟨w₁, htake', hw₁⟩ := hplays.exists_of_eq_some hw htake
    cases bound? with
    | none => cases hmore; exact ⟨w₁, .single (.consumed htake'), hw₁⟩
    | some bound =>
      have hbind : Reaches callees (⟨.dispatch (.provide slot inner), frames, envs, steps⟩, w)
          (⟨.dispatch inner, .restore envs.size :: frames, envs.push bound, steps + 1⟩,
            w₁.report (.bound (envs.size + 1))) := .single (.bind htake')
      have hback : (envs.push bound).back? = some bound := Array.back?_push
      obtain ⟨result', hdenote', rfl⟩ := Node.counting_eq_some hmore
      rw [← hback] at hdenote'
      obtain ⟨w₂, harrives, hw₂⟩ := ih (.restore envs.size :: frames) (envs.push bound)
        (steps + 1) hdenote' (hw₁.trans (World.agree_report w₁ _))
      cases result' with
      | ok r =>
        -- the frame pushed with the environment drops it again
        obtain ⟨ending, n⟩ := r
        have hend := (hbind.trans harrives).tail .restore
        rw [shrink_push, show steps + 1 + n = steps + (n + 1) by omega] at hend
        exact ⟨_, hend, hw₂.trans (World.agree_report w₂ _)⟩
      | error p =>
        obtain ⟨last, w₃, steps', hreach, hleaves⟩ := harrives
        exact ⟨w₂, ⟨last, w₃, steps', hbind.trans hreach, hleaves⟩, hw₂⟩
  · exact absurd htake (take_ne_error slot callees v v' p)

/-- A read: one step to look at the environment, and the machine dispatches what the link makes of
    it. -/
theorem follows_read (hc : Callees.Alike World.Agree callees callees)
    (ih : Follows callees fuel) {type : Ty} {link : Link D K}
    (hdenote : (Node.read type link).denote (fuel + 1) envs.back? callees v = some (result, v'))
    (hw : v.Agree w) :
    ∃ w', Arrives callees (.read type link) frames envs steps w result w' ∧ v'.Agree w' := by
  rw [Node.denote_read] at hdenote
  have hplays := link.followEnvironment_alike L.alike_agree World.agree_kept hc type envs.back?
  obtain ⟨next, v₁, hplay, hmore⟩ | ⟨p, hplay, rfl⟩ := Play.bind_eq_some hdenote
  · obtain ⟨w₁, hplay', hw₁⟩ := hplays.exists_of_eq_some hw hplay
    obtain ⟨result', hdenote', rfl⟩ := Node.counting_eq_some hmore
    obtain ⟨w₂, harrives, hw₂⟩ := ih frames envs (steps + 1) hdenote' hw₁
    exact ⟨w₂, .of_reaches (.single (.read hplay')) harrives, hw₂⟩
  · obtain ⟨w₁, hplay', hw₁⟩ := hplays.exists_of_eq_some hw hplay
    exact ⟨w₁, ⟨_, _, _, .refl, .read hplay'⟩, hw₁⟩

end Kinds

/-- Where the reading of a node comes to an end, so does the machine. -/
theorem follows_of_fuel (hc : Callees.Alike World.Agree callees callees) (fuel : Nat) :
    Follows callees fuel := by
  induction fuel with
  | zero =>
    intro node result v v' w frames envs steps hdenote hw
    cases hdenote
  | succ fuel ih =>
    intro node result v v' w frames envs steps hdenote hw
    cases node with
    | succeed slot | failCause source | total f args | attempt f args =>
      exact follows_leaf hc rfl hdenote hw
    | flatMap inner k | fold inner onCause k => exact follows_enter hc ih rfl hdenote hw
    | provide slot inner => exact follows_provide ih hdenote hw
    | read type link => exact follows_read hc ih hdenote hw

/-! ## From the machine to the reading -/

/-- The machine was cut short inside the node, as the reading of the node is, or it settled the
    ending of that reading with the stacks as they were, on less than this fuel. -/
def Settled (callees : Callees D K σ) (fuel : Nat) (node : Node D K) (frames : List (Frame D K))
    (envs : Array (Value D K)) (steps : Nat) (v : World σ)
    (out : (Raised D K (Ending D K) × Array (Value D K) × Nat) × World σ) : Prop :=
  (∃ p v', out.1.1 = .error p ∧ Node.Denotes callees envs.back? node v (.error p) v' ∧
      out.2.Agree v') ∨
    ∃ ending n w₁ v₁ less, less < fuel ∧
      Node.Denotes callees envs.back? node v (.ok (ending, n)) v₁ ∧ w₁.Agree v₁ ∧
      drive callees less ⟨.settle ending, frames, envs, steps + n⟩ w₁ = some out

variable {out : (Raised D K (Ending D K) × Array (Value D K) × Nat) × World σ}

/-- A node is settled as soon as the one it leads to is, if it means the same, some nodes later. -/
theorem Settled.of_next {next : Node D K} {fuel less n : Nat} {v₁ : World σ} (hless : less ≤ fuel)
    (hlift : ∀ {result v'}, Node.Denotes callees envs.back? next v₁ result v' →
      Node.Denotes callees envs.back? node v (Node.later n result) v')
    (h : Settled callees less next frames envs (steps + n) v₁ out) :
    Settled callees fuel node frames envs steps v out := by
  obtain ⟨p, v', hp, hnext, hv'⟩ | ⟨ending, m, w₂, v₂, less', hless', hnext, hv₂, hrest⟩ := h
  · exact .inl ⟨p, v', hp, hlift hnext, hv'⟩
  · rw [show steps + n + m = steps + (m + n) by omega] at hrest
    exact .inr ⟨ending, m + n, w₂, v₂, less', by omega, hlift hnext, hv₂, hrest⟩

/-- On this fuel the machine settles a node as the reading does, if it comes to an end. -/
def Settles (callees : Callees D K σ) (fuel : Nat) : Prop :=
  ∀ ⦃node frames envs steps w v out⦄,
    drive callees fuel ⟨.dispatch node, frames, envs, steps⟩ w = some out → w.Agree v →
      Settled callees fuel node frames envs steps v out

section Kinds

variable {inner : Node D K} {less : Nat}

/-- A node with a node inside is settled once the ending of that one has met the frame. -/
theorem settled_enter (hc : Callees.Alike World.Agree callees callees)
    (ih : ∀ fuel ≤ less, Settles callees fuel) {frame : Frame D K}
    (henter : node.enter? = some (inner, frame))
    (hdrive : drive callees less ⟨.dispatch inner, frame :: frames, envs, steps + 1⟩ w = some out)
    (hw : w.Agree v) : Settled callees (less + 1) node frames envs steps v out := by
  obtain ⟨⟨ending, envs', steps'⟩, w'⟩ := out
  obtain ⟨p, v', hp, hinner, hv'⟩ | ⟨e, n, w₁, v₁, less₁, hless₁, hinner, hv₁, hrest⟩ :=
    ih less (Nat.le_refl _) hdrive hw
  · exact .inl ⟨p, v', hp, .enter_raised henter hinner, hv'⟩
  · rw [show steps + 1 + n = steps + (n + 1) by omega] at hrest
    obtain ⟨less₂, rfl, ⟨m, w₂, hleads, hrest⟩ | ⟨hleaves, -⟩⟩ := drive_cases hrest
    · cases hleads with
      | @resume _ _ _ next _ _ _ _ _ hframe hplay =>
        obtain ⟨v₂, hplay', hv₂⟩ := (Frame.answer?_agree hc hframe).exists_of_eq_some hv₁ hplay
        exact .of_next (by omega) (fun hnext => .answer henter hinner hframe hplay' hnext)
          (ih less₂ (by omega) hrest hv₂)
      | skip =>
        exact .inr ⟨_, n + 1, w₁, v₁, less₂, by omega, .enter_skipped henter hinner rfl, hv₁, hrest⟩
      | restore => cases node <;> cases henter
    · cases hleaves with
      | resume hframe hplay =>
        obtain ⟨v', hplay', hv'⟩ := (Frame.answer?_agree hc hframe).exists_of_eq_some hv₁ hplay
        exact .inl ⟨_, v', rfl, .answer_raised henter hinner hframe hplay', hv'⟩

/-- A node that provides an environment is settled once that one has been dropped. -/
theorem settled_bind (ih : Settles callees less) {slot : Slot D K} {bound : Value D K}
    {w₀ v₀ : World σ} (htake : slot.take callees v₀ = some (.ok (some bound), v))
    (hdrive : drive callees less
      ⟨.dispatch inner, .restore envs.size :: frames, envs.push bound, steps + 1⟩
      (w₀.report (.bound (envs.size + 1))) = some out) (hw : w₀.Agree v) :
    Settled callees (less + 1) (.provide slot inner) frames envs steps v₀ out := by
  obtain ⟨⟨ending, envs', steps'⟩, w'⟩ := out
  have hback : (envs.push bound).back? = some bound := Array.back?_push
  obtain ⟨p, v', hp, hinner, hv'⟩ | ⟨e, n, w₁, v₁, less₁, hless₁, hinner, hv₁, hrest⟩ :=
    ih hdrive ((World.agree_report w₀ _).symm.trans hw)
  · rw [hback] at hinner
    exact .inl ⟨p, v', hp, .provide htake hinner, hv'⟩
  · rw [hback] at hinner
    rw [show steps + 1 + n = steps + (n + 1) by omega] at hrest
    obtain ⟨less₂, rfl, ⟨m, w₂, hleads, hrest⟩ | ⟨hleaves, -⟩⟩ := drive_cases hrest
    · cases hleads with
      | resume hframe hplay => cases e <;> cases hframe
      | restore =>
        rw [shrink_push] at hrest
        exact .inr ⟨e, n + 1, _, v₁, less₂, by omega, .provide htake hinner,
          (World.agree_report w₁ _).symm.trans hv₁, hrest⟩
    · cases hleaves with
      | resume hframe hplay => cases e <;> cases hframe

end Kinds

/-- Where the machine comes to an end after dispatching a node, it was cut short inside the node or
    has settled its ending. -/
theorem settles_of_fuel (hc : Callees.Alike World.Agree callees callees) (fuel : Nat) :
    Settles callees fuel := by
  induction fuel using Nat.strongRecOn with
  | ind fuel ih =>
    intro node frames envs steps w v out hdrive hw
    obtain ⟨⟨ending, envs', steps'⟩, w'⟩ := out
    obtain ⟨less, rfl, ⟨m, w₁, hleads, hrest⟩ | ⟨hleaves, -⟩⟩ := drive_cases hdrive
    · cases hleads with
      | leaf hleaf hplay =>
        obtain ⟨v₁, hplay', hv₁⟩ := (Node.leaf?_agree hc hleaf).exists_of_eq_some hw hplay
        exact .inr ⟨_, 1, w₁, v₁, less, by omega, .leaf hleaf hplay', hv₁, hrest⟩
      | enter henter =>
        -- the node inside is settled with less fuel, and so is what the frame goes on with
        exact settled_enter hc (fun fuel hfuel => ih fuel (by omega)) henter hrest hw
      | bind htake =>
        obtain ⟨v₁, htake', hv₁⟩ :=
          (Slot.take_alike World.agree_kept _).exists_of_eq_some hw htake
        exact settled_bind (ih less (by omega)) htake' hrest hv₁
      | consumed htake =>
        obtain ⟨v₁, htake', hv₁⟩ :=
          (Slot.take_alike World.agree_kept _).exists_of_eq_some hw htake
        exact .inr ⟨_, 1, w₁, v₁, less, by omega, .consumed htake', hv₁, hrest⟩
      | @read type link _ _ _ _ _ _ hplay =>
        obtain ⟨v₁, hplay', hv₁⟩ :=
          (link.followEnvironment_alike L.alike_agree World.agree_kept hc type _).exists_of_eq_some
            hw hplay
        exact .of_next (by omega) (fun hnext => .read hplay' hnext) (ih less (by omega) hrest hv₁)
    · cases hleaves with
      | leaf hleaf hplay =>
        obtain ⟨v', hplay', hv'⟩ := (Node.leaf?_agree hc hleaf).exists_of_eq_some hw hplay
        exact .inl ⟨_, v', rfl, .leaf_raised hleaf hplay', hv'⟩
      | @read type link _ _ _ _ _ _ hplay =>
        obtain ⟨v', hplay', hv'⟩ :=
          (link.followEnvironment_alike L.alike_agree World.agree_kept hc type _).exists_of_eq_some
            hw hplay
        exact .inl ⟨_, v', rfl, .read_raised hplay', hv'⟩

end Machine

/-! ## Whole evaluations -/

namespace Runner

/-- An evaluation ended as a reading did: in the same, with the same number of nodes, and in a world
    that differs in what was reported at most. -/
structure EndsAs (ending : Raised D K (Ending D K)) (r' : Runner D K) (w' : World σ)
    (result : Raised D K (Ending D K × Nat)) (v' : World σ) : Prop where
  ending : ending = result.map Prod.fst
  steps {e n} (hok : result = .ok (e, n)) : r'.lastSteps = n
  world : w'.Agree v'

/-- What was returned, the reading returned after some number of nodes. -/
theorem EndsAs.exists_eq_ok {e : Ending D K} {r' : Runner D K} {w' v' : World σ}
    {result : Raised D K (Ending D K × Nat)} (h : EndsAs (.ok e) r' w' result v') :
    ∃ n, result = .ok (e, n) := by
  rcases result with p | ⟨e', n⟩
  · cases h.ending
  · cases h.ending
    exact ⟨n, rfl⟩

/-- What was raised, the reading raised. -/
theorem EndsAs.eq_error {p : Value D K} {r' : Runner D K} {w' v' : World σ}
    {result : Raised D K (Ending D K × Nat)} (h : EndsAs (.error p) r' w' result v') :
    result = .error p := by
  cases result with
  | error q => cases h.ending; rfl
  | ok _ => cases h.ending

theorem opened_agree (r : Runner D K) (w : World σ) : (r.opened w).Agree w := ⟨rfl, rfl, rfl⟩

section General

variable [Language D K σ] {callees : Callees D K σ} {fuel : Nat} {r r' : Runner D K}
  {node : Node D K} {ending : Raised D K (Ending D K)} {result : Raised D K (Ending D K × Nat)}
  {w w' v' : World σ}

/-- Where an evaluation has room for its frames and ends, the reading of its node ends as it. -/
theorem denotes_of_evaluate (hc : Callees.Alike World.Agree callees callees)
    (hfit : r.settings.framesFit = true)
    (h : r.evaluate callees fuel node w = some (ending, r', w')) :
    ∃ result v', node.Denotes callees r.environments.back? w result v' ∧
      EndsAs ending r' w' result v' := by
  obtain ⟨hfit', -⟩ | ⟨-, e, envs, steps, w₁, hdrive, rfl, rfl, rfl⟩ |
    ⟨-, p, envs, steps, w₁, hdrive, rfl, rfl, rfl⟩ := evaluate_cases h
  · rw [hfit] at hfit'; cases hfit'
  · obtain ⟨p, v', hp, -⟩ | ⟨e', n, w₂, v₂, less, -, hdenotes, hv₂, hrest⟩ :=
      Machine.settles_of_fuel hc fuel hdrive (r.opened_agree w)
    · cases hp
    · -- no frame is pending, so that to settle the ending of the node is to end in it
      obtain ⟨-, -, ⟨m, w₃, hleads, -⟩ | ⟨hleaves, -⟩⟩ := Machine.drive_cases hrest
      · cases hleads
      · cases hleaves
        refine ⟨_, v₂, hdenotes, rfl, ?_, ⟨hv₂.state, hv₂.halts, hv₂.cells⟩⟩
        intro e n hok
        cases hok
        exact Nat.zero_add n
  · obtain ⟨p', v', hp, hdenotes, hv'⟩ | ⟨e', n, w₂, v₂, less, -, -, -, hrest⟩ :=
      Machine.settles_of_fuel hc fuel hdrive (r.opened_agree w)
    · cases hp
      refine ⟨_, v', hdenotes, rfl, ?_, ⟨hv'.state, hv'.halts, hv'.cells⟩⟩
      intro e n hok
      cases hok
    · obtain ⟨-, -, ⟨m, w₃, hleads, -⟩ | ⟨hleaves, -⟩⟩ := Machine.drive_cases hrest
      · cases hleads
      · cases hleaves

/-- Where the reading of a node ends, an evaluation that has room for its frames ends as it. -/
theorem evaluate_of_denotes (hc : Callees.Alike World.Agree callees callees)
    (hfit : r.settings.framesFit = true)
    (h : node.Denotes callees r.environments.back? w result v') :
    ∃ fuel r' w', r.evaluate callees fuel node w = some (result.map Prod.fst, r', w') ∧
      EndsAs (result.map Prod.fst) r' w' result v' := by
  obtain ⟨fuel, hdenote⟩ := h
  obtain ⟨w₁, harrives, hw₁⟩ := Machine.follows_of_fuel hc fuel [] r.environments 0 hdenote
    (r.opened_agree w).symm
  cases result with
  | ok ended =>
    obtain ⟨e, n⟩ := ended
    obtain ⟨fuel', hdrive⟩ := Machine.Ends.of_reaches harrives (.of_leaves .finish)
    obtain ⟨r', w', heval, hsteps, hstate, hhalts, hcells⟩ := evaluate_of_drive hfit hdrive
    refine ⟨fuel', r', w', heval, rfl, ?_,
      ⟨hstate.trans hw₁.state.symm, hhalts.trans hw₁.halts.symm, hcells.trans hw₁.cells.symm⟩⟩
    intro e' n' hok
    cases hok
    rw [hsteps e rfl]
    exact Nat.zero_add n
  | error p =>
    obtain ⟨last, w₂, steps, hreach, hleaves⟩ := harrives
    obtain ⟨fuel', hdrive⟩ := Machine.Ends.of_reaches hreach (.of_leaves hleaves)
    obtain ⟨r', w', heval, -, hstate, hhalts, hcells⟩ := evaluate_of_drive hfit hdrive
    refine ⟨fuel', r', w', heval, rfl, ?_,
      ⟨hstate.trans hw₁.state.symm, hhalts.trans hw₁.halts.symm, hcells.trans hw₁.cells.symm⟩⟩
    intro e n hok
    cases hok

/-- Where there is no room for the frames the evaluation is cut short before the first node. -/
theorem evaluate_eq_overflow (hfit : r.settings.framesFit = false) :
    r.evaluate callees fuel node w = some (.error overflow, r, (r.opened w).report .exit) := by
  simp only [evaluate, hfit, opened]
  rfl

/-- Where there is no room for the frames nothing is evaluated. -/
theorem evaluate_without_room (hfit : r.settings.framesFit = false)
    (h : r.evaluate callees fuel node w = some (ending, r', w')) :
    ending = .error overflow ∧ w'.Agree w := by
  obtain ⟨-, hending, -, rfl⟩ | ⟨hfit', -⟩ | ⟨hfit', -⟩ := evaluate_cases h
  · exact ⟨hending, rfl, rfl, rfl⟩
  · rw [hfit] at hfit'; cases hfit'
  · rw [hfit] at hfit'; cases hfit'

/-- Evaluations on two runners with the same environment bound innermost end alike. -/
theorem evaluate_of_back?_eq (hc : Callees.Alike World.Agree callees callees) {s : Runner D K}
    (hback : s.environments.back? = r.environments.back?)
    (hfits : s.settings.framesFit = r.settings.framesFit)
    (h : r.evaluate callees fuel node w = some (ending, r', w')) :
    ∃ fuel' s' v', s.evaluate callees fuel' node w = some (ending, s', v') ∧ w'.Agree v' := by
  cases hfit : r.settings.framesFit with
  | true =>
    obtain ⟨result, u, hdenotes, hends⟩ := denotes_of_evaluate hc hfit h
    rw [← hback] at hdenotes
    obtain ⟨fuel', s', v', h', hends'⟩ := evaluate_of_denotes hc (hfits.trans hfit) hdenotes
    rw [← hends.ending] at h'
    exact ⟨fuel', s', v', h', hends.world.trans hends'.world.symm⟩
  | false =>
    obtain ⟨rfl, hw'⟩ := evaluate_without_room hfit h
    exact ⟨fuel, s, _, evaluate_eq_overflow (hfits.trans hfit), hw'.trans ⟨rfl, rfl, rfl⟩⟩

end General

/-- An evaluation refines the reading of its node under the environment bound innermost.

    Both are taken with all calls noted, which changes nothing else about the evaluation.  Whenever
    an evaluation ends, the reading ends in the same value, cause or payload raised, calls the same
    closures on the same arguments in the same order, and leaves the same world, unless there was
    no room for the frames, where nothing is evaluated at all.  Whenever the reading ends, so does
    the evaluation.  In particular two runners with the same environment bound innermost evaluate
    alike, whatever lies below it. -/
theorem evaluate_refines_denote (L : Language D K σ) (depth : Nat) (r : Runner D K)
    (node : Node D K) (w : World (Noted D K σ)) :
    letI := L.noting
    let callees : Callees D K (Noted D K σ) := Callees.ofFuel depth
    (∀ fuel, (r.evaluate callees fuel node w).map
        (fun (ending, r', w') => (ending, r', w'.forget)) =
      @evaluate D K σ L (@Callees.ofFuel D K σ L depth) fuel r node w.forget) ∧
    (∀ fuel ending r' w', r.evaluate callees fuel node w = some (ending, r', w') →
      if r.settings.framesFit then
        ∃ more result v', node.denote more r.environments.back? callees w = some (result, v') ∧
          EndsAs ending r' w' result v' ∧ w'.calls = v'.calls
      else ending = .error overflow ∧ w'.Agree w ∧ w'.calls = w.calls) ∧
    (∀ more result v', node.denote more r.environments.back? callees w = some (result, v') →
      r.settings.framesFit = true →
        ∃ fuel ending r' w', r.evaluate callees fuel node w = some (ending, r', w') ∧
          EndsAs ending r' w' result v' ∧ w'.calls = v'.calls) ∧
    (∀ s : Runner D K, s.environments.back? = r.environments.back? →
      s.settings.framesFit = r.settings.framesFit →
        ∀ fuel ending r' w', r.evaluate callees fuel node w = some (ending, r', w') →
          ∃ fuel' s' v', s.evaluate callees fuel' node w = some (ending, s', v') ∧
            w'.Agree v' ∧ w'.calls = v'.calls) := by
  let _ := L.noting
  intro callees
  have hc : Callees.Alike World.Agree callees callees := Callees.ofFuel_agree depth
  have hcalls : ∀ {u v : World (Noted D K σ)}, u.Agree v → u.calls = v.calls :=
    fun h => congrArg Noted.calls h.state
  refine ⟨fun fuel => evaluate_noting L depth fuel r node w, ?_, ?_, ?_⟩
  · -- from the machine to the reading
    intro fuel ending r' w' h
    cases hfit : r.settings.framesFit with
    | true =>
      obtain ⟨result, v', ⟨more, hdenote⟩, hends⟩ := denotes_of_evaluate hc hfit h
      exact ⟨more, result, v', hdenote, hends, hcalls hends.world⟩
    | false =>
      obtain ⟨hending, hw'⟩ := evaluate_without_room hfit h
      exact ⟨hending, hw', hcalls hw'⟩
  · -- and back
    intro more result v' hdenote hfit
    obtain ⟨fuel, r', w', h, hends⟩ := evaluate_of_denotes hc hfit ⟨more, hdenote⟩
    exact ⟨fuel, _, r', w', h, hends, hcalls hends.world⟩
  · -- the reading knows no environment but the one bound innermost
    intro s hback hfits fuel ending r' w' h
    obtain ⟨fuel', s', v', h', hagree⟩ := evaluate_of_back?_eq hc hback hfits h
    exact ⟨fuel', s', v', h', hagree, hcalls hagree⟩

end Runner

end EffectMachine
