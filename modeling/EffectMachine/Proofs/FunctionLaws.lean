/-
  Functions and effects that read arguments.

  A closure on some arguments is turned into an effect that reads them, and an effect that reads
  arguments into a function that runs it.  Each way there is a runner, an environment that is bound
  and read again, and a closure that is attempted; what the closure raises becomes a defect, and
  what the run fails with or dies of is raised.  This file shows that nothing is lost on the way
  there and back.

  It comes down to one fact.  To deliver what an attempted closure has come to is to call the
  closure: a value is returned as it was, if it is of the type declared, and a payload is raised
  again as it was (`Machine.attempted_deliver`).  Around that a run makes one cell and one report,
  and so the two sides are compared in worlds that are alike.
-/
import EffectMachine.Effect.Function
import EffectMachine.Proofs.Alikeness
import EffectMachine.Proofs.Depth

namespace EffectMachine

variable {D K σ α β : Type} {E E' A T : Ty}

/-! ## Acts that end in the same -/

section SameEnds

variable [Language D K σ] {S : World σ → World σ → Prop} {a b : Act D K σ α}

theorem Act.SameEnds.refl_agree (a : Act D K σ α) : Act.SameEnds World.Agree a a :=
  .of_iff fun _ _ _ => Iff.rfl

theorem Act.SameEnds.pure (a : α) : Act.SameEnds S (pure a : Act D K σ α) (pure a) :=
  .of_matches (Q := fun _ => True) fun _ => .pure (fun _ _ h => h) trivial

protected theorem Act.SameEnds.bind {f g : α → Act D K σ β} (h : Act.SameEnds S a b)
    (hfg : ∀ x, Act.SameEnds S (f x) (g x)) : Act.SameEnds S (a >>= f) (b >>= g) := by
  unfold SameEnds
  rw [Play.act_bind, Play.act_bind]
  exact Play.SameEnds.bind (.act a) (fun _ => .act _) (.act b) (fun _ => .act _) h hfg

/-- If two acts end alike, so do the acts that return what those raise. -/
theorem Play.EndsLike.capture (h : EndsLike S (.act a) (.act b)) :
    EndsLike S (.act a.capture) (.act b.capture) := by
  rintro w v hwv result w' ⟨depth, hends⟩
  change a.capture.exec _ w = _ at hends
  rw [Act.exec_capture, Option.map_eq_some_iff] at hends
  obtain ⟨⟨raised, u⟩, ha, hresult⟩ := hends
  cases hresult
  obtain ⟨v', ⟨depth', hb⟩, hS⟩ := h hwv ⟨depth, ha⟩
  refine ⟨v', ⟨depth', ?_⟩, hS⟩
  show b.capture.exec _ v = _
  rw [Act.exec_capture, show b.exec _ v = _ from hb]
  rfl

/-- So they do where what is raised is kept as a defect. -/
theorem Act.SameEnds.capture (h : Act.SameEnds S a b) : Act.SameEnds S a.capture b.capture :=
  ⟨h.left.capture, h.right.capture⟩

/-- So do any number of them, one after the other. -/
theorem Act.SameEnds.mapM {γ : Type} {f g : γ → Act D K σ α} (calls : List γ)
    (h : ∀ call ∈ calls, Act.SameEnds S (f call) (g call)) :
    Act.SameEnds S (calls.mapM f) (calls.mapM g) := by
  induction calls with
  | nil => exact .pure []
  | cons call calls ih =>
    rw [List.mapM_cons, List.mapM_cons]
    refine .bind (h call (List.mem_cons_self ..)) fun x => ?_
    exact .bind (ih fun call hcall => h call (List.mem_cons_of_mem _ hcall)) fun xs => .pure _

end SameEnds

/-! ## Attempted, and delivered -/

section Attempted

variable [M : Language D K σ] {P : Program K} {I : σ → Prop} {c : Callees D K σ}

/-- To attempt a closure and deliver the ending is to call it, as far as values of the type declared
    and payloads go. -/
theorem Machine.attempted_deliver {f : K} {args : List (Value D K)} {y : Play D K σ (Value D K)}
    (h : Play.SameAs P I c (fun v => v.type = A) (Play.act (M.value f args)) y) :
    Play.SameAs P I c (fun _ => True) (Machine.attempted f args >>= Ending.deliver E A) y := by
  intro w v hwv
  have hxy := h hwv
  rw [Play.bind_apply, attempted_apply]
  change Matched _ _ ((M.value f args).exec c w) _ at hxy
  generalize (M.value f args).exec c w = out at hxy ⊢
  generalize y c v = out' at hxy ⊢
  cases hxy with
  | endless => exact .endless
  | returned hwv' htype =>
    simp only [Option.map_some, Ending.deliver_success htype]
    exact .returned hwv' trivial
  | raised hwv' => exact .raised ⟨hwv'.state, hwv'.inv, hwv'.halts⟩

/-- A run of an effect that reads its environment, and for it attempts a closure on something of it,
    attempts the closure and delivers what that comes to. -/
theorem Effect.read_delivery {R : Ty} {link : Link D K} {env : Value D K} {f : K}
    {args : List (Value D K)} (htype : env.type = R)
    (hlink : (link.follow env : Play D K σ _) = pure (.attempt f args)) :
    ((⟨.read R link⟩ : Effect D K R E A).delivery (some env) : Play D K σ _) =
      Play.spend 1 >>= fun _ => Machine.attempted f args >>= Ending.deliver E A := by
  have henv : (link.followEnvironment R (some env) : Play D K σ _) = pure (.attempt f args) := by
    simp only [Link.followEnvironment, Value.cast?_eq_some_iff.mpr ⟨htype, rfl⟩, hlink]
  rw [delivery_some, Node.result_read, henv, pure_bind, Node.result_leaf rfl]

variable {positional : Value D K} {named : NamedArguments (Value D K)}

/-- A run of a function's effect attempts the function on the positional arguments. -/
theorem Effect.ofFunction_delivery (f : K) (hpositional : positional.type = T) :
    ((ofFunction f : Effect D K (.arguments T) E A).delivery (some (.arguments positional named)) :
        Play D K σ _) =
      Play.spend 1 >>= fun _ =>
        Machine.attempted f positional.components >>= Ending.deliver E A :=
  read_delivery (congrArg Ty.arguments hpositional) rfl

/-- A run of a call function's effect attempts the function on the call as a whole. -/
theorem Effect.ofCallFunction_delivery (f : K) (hpositional : positional.type = T) :
    ((ofCallFunction f : Effect D K (.arguments T) E A).delivery
        (some (.arguments positional named)) : Play D K σ _) =
      Play.spend 1 >>= fun _ =>
        Machine.attempted f [.arguments positional named] >>= Ending.deliver E A :=
  read_delivery (congrArg Ty.arguments hpositional) rfl

/-- Where a run attempts a closure and delivers what that comes to, it ends as any act that the
    closure does as. -/
theorem Effect.runWith_sameEnds_of_attempted {R : Ty} {e : Effect D K R E A} {env : Value D K}
    {f : K} {args : List (Value D K)} {a : Act D K σ (Value D K)}
    (he : (e.delivery (some env) : Play D K σ _) =
      Play.spend 1 >>= fun _ => Machine.attempted f args >>= Ending.deliver E A)
    (ha : ∀ depth, Play.SameAs P I (Callees.ofFuel depth) (fun v => v.type = A)
      (Play.act (M.value f args)) (Play.act a)) :
    Act.SameEnds (World.Alike P I) (e.runWith env) a := by
  refine .of_agree World.Alike.untraced (runWith_ends e env) (Act.SameEnds.refl_agree a)
    (.of_matches (Q := fun _ => True) fun depth => ?_)
  rw [he]
  exact Play.SameAs.spend_left 1 (Machine.attempted_deliver (ha depth))

end Attempted

/-! ## Runs as acts of a program -/

/-- A run stays within the program that the effect is made by, and what it returns is of the type
    declared. -/
theorem Effect.runWith_within {R : Ty} {P : Program K} {I : σ → Prop} {e : Effect D K R E A}
    (he : e.Made P) {env : Value D K} (henv : env.Reusable P) :
    (e.runWith env : Act D K σ _).Within P I fun v => v.type = A := by
  refine ⟨fun v hv => by simp [Runner.fresh] at hv, ?_, he.reusable,
    fun r' ending hr' hending => ?_⟩
  · rintro v ⟨⟩
    exact henv
  · show (Act.ofRaised ((ending.map (Ending.checked E A)).bind Ending.raised)).Within P I _
    rcases ending with p | (cause | v)
    · exact hending
    · have hcause : (cause.typed E).Reusable P := Cause.Reusable.typed hending E
      show (Act.ofRaised (Ending.raised (.failure (cause.typed E)))).Within P I _
      generalize cause.typed E = cause' at hcause
      cases hcause with
      | fail hx => exact hx
      | die hd => exact hd
    · show (Act.ofRaised (Ending.checked E A (.success v)).raised).Within P I _
      simp only [Ending.checked]
      cases hcast : v.cast? A with
      | none => exact .fault
      | some v' =>
        obtain ⟨htype, rfl⟩ := Value.cast?_eq_some_iff.mp hcast
        exact htype

/-- Functions and effects over arguments stand for each other.

    Take any closure that is declared as a function of some arguments, however many, and belongs to
    a program that does as it is declared.  The effect made of it, run on any arguments, ends as a
    call of the closure on the positional ones does, in their order and whatever the named ones are:
    in the value that the closure returns, or in the payload that it raises, which is neither
    wrapped nor changed on its way through the defect; or neither ends.  So does the function that
    the effect is turned back into, and so do any number of calls of it, each of which may raise
    without harm to those after it.

    Take any effect over arguments that is made by the program, and a closure that calls the
    function the effect is turned into.  The effect made of that closure, run on any call, ends as
    the effect itself does when it is run on that call, in the same value or by raising the same
    payload, whether the effect has failed, died or been cut short.  If the closure takes the
    positional arguments alone, it ends as the effect does when it is run on the call without the
    named ones.

    Both sides are started in worlds that are alike, with the same shared state and the same causes
    handed over if the program hands any over, and leave worlds that are alike. -/
theorem Effect.functions_correspond (M : Language D K σ) {Γ : Signature K} {P : Program K}
    {I : σ → Prop} (hM : M.Honours Γ I) (hP : M.Within P I) :
    let Same {α : Type} (a b : Act D K σ α) : Prop := Act.SameEnds (World.Alike P I) a b
    -- from a function to an effect, and back
    (∀ (E A : Ty) (Ts : List Ty) (f : K), Γ.value f Ts A → P.closures f →
      let e : Effect D K (.arguments (.tuple Ts)) E A := ofFunction f
      let Takes (items : List (Value D K)) : Prop :=
        Value.AllFit Γ Ts items ∧ Value.AllReusable P items
      (∀ items, Takes items → ∀ named,
        Same (e.runWith (.arguments (.tuple items) named)) (M.value f items)) ∧
      (∀ items, Takes items → Same (e.toFunction (.tuple items)) (M.value f items)) ∧
      ∀ calls : List (List (Value D K)), (∀ items ∈ calls, Takes items) →
        Same (calls.mapM fun items => (e.toFunction (.tuple items)).capture)
          (calls.mapM fun items => (M.value f items).capture)) ∧
    -- from an effect to a function, and back
    (∀ (T E E' A : Ty) (e : Effect D K (.arguments T) E A), e.Made P →
      ∀ (k : K) (positional : Value D K) (named : NamedArguments (Value D K)),
        (Value.arguments positional named).Reusable P → positional.type = T →
          M.value k [.arguments positional named] = e.toCallFunction positional named →
            Same ((ofCallFunction k : Effect D K (.arguments T) E' A).runWith
                (.arguments positional named))
              (e.runWith (.arguments positional named))) ∧
    (∀ (Ts : List Ty) (E E' A : Ty) (e : Effect D K (.arguments (.tuple Ts)) E A), e.Made P →
      ∀ (k : K) (items : List (Value D K)) (named : NamedArguments (Value D K)),
        Value.AllReusable P items → items.map Value.type = Ts →
          M.value k items = e.toFunction (.tuple items) →
            Same ((ofFunction k : Effect D K (.arguments (.tuple Ts)) E' A).runWith
                (.arguments (.tuple items) named))
              (e.runWith (.arguments (.tuple items) []))) := by
  intro Same
  have HP : ∀ depth, ProgramRun M P I (Callees.ofFuel depth) (none : Option (Value D K)) :=
    fun depth => .ofFuel hP depth nofun
  refine ⟨?_, ?_, ?_⟩
  · intro E A Ts f hf hf' e Takes
    have hcall : ∀ items, Takes items → ∀ named,
        Same (e.runWith (.arguments (.tuple items) named)) (M.value f items) := by
      rintro items ⟨hfit, hreusable⟩ named
      refine runWith_sameEnds_of_attempted
        (ofFunction_delivery f hfit.tuple.type) fun depth => ?_
      have hsound := Play.Sound.act (Callees.ofFuel_sound hM depth) (hM.value hf hfit)
      refine (((HP depth).act (hP.value hf' hreusable)).and_sound hsound).weaken
        (fun _ _ h => h) (fun _ _ h => h) fun v hv => ?_
      exact hv.2.type
    have hfunction : ∀ items, Takes items → Same (e.toFunction (.tuple items)) (M.value f items) :=
      fun items hitems => hcall items hitems []
    refine ⟨hcall, hfunction, fun calls hcalls => ?_⟩
    exact .mapM calls fun items hitems => .capture (hfunction items (hcalls items hitems))
  · intro T E E' A e he k positional named hargs htype hk
    refine runWith_sameEnds_of_attempted (ofCallFunction_delivery k htype) fun depth => ?_
    rw [hk]
    exact (HP depth).act (runWith_within he hargs)
  · intro Ts E E' A e he k items named hitems htypes hk
    have htype : (Value.tuple items).type = .tuple Ts := by
      rw [← htypes]
      exact Value.types_eq_tuple items
    refine runWith_sameEnds_of_attempted (ofFunction_delivery k htype) fun depth => ?_
    rw [show (Value.tuple items).components = items from rfl, hk]
    exact (HP depth).act (runWith_within he (.arguments (.tuple hitems) nofun))

/-! ### A language of letters -/

/-- Closures on texts: one joins two of them and refuses an empty one, one writes down a call with
    the names in it, and two run the effect made of that. -/
inductive Letters where
  | join
  | write
  | writeCall
  | writePositional

namespace Letters

/-- Two texts, and what is made of them. -/
abbrev Written : Type :=
  Effect Unit Letters (.arguments (.tuple [.text, .text])) .unit .text

/-- The effect that writes down its call. -/
def written : Written := .access .write

def join? : List (Value Unit Letters) → Act Unit Letters Unit (Value Unit Letters)
  | [.text "", .text _] => throw (.text "nothing to join")
  | [.text a, .text b] => pure (.text (a ++ b))
  | _ => pure (.text "")

def value : Letters → List (Value Unit Letters) → Act Unit Letters Unit (Value Unit Letters)
  | join, args => join? args
  | write, [.arguments (.tuple [.text a, .text b]) named] =>
    pure (.text (a ++ b ++ String.join (named.map Prod.fst)))
  | writeCall, [.arguments positional named] => written.toCallFunction positional named
  | writePositional, args => written.toFunction (.tuple args)
  | _, _ => pure (.text "")

end Letters

@[reducible]
def Language.letters : Language Unit Letters Unit where
  value := Letters.value
  test _ _ := pure true
  outcome _ v := pure (.success v)
  effect _ _ := pure (.succeed (.shared (.text "")))
  handler _ _ := pure (.succeed (.shared (.text "")))
  cause _ := pure (.fail (.text ""))

def Signature.letters : Signature Letters where
  value f Ts A := f = .join ∧ Ts = [.text, .text] ∧ A = .text
  test _ _ := False
  outcome _ _ _ _ := False
  effect _ _ _ _ _ := False
  handler _ _ _ _ _ := False
  cause _ _ := False
  fault _ := False

/-- The closures on texts alone. -/
def Program.letters : Program Letters := ⟨fun f => f = .join ∨ f = .write, False⟩

/-- To join is to come to a text or to raise one. -/
theorem Letters.join?_cases (args : List (Value Unit Letters)) :
    (∃ s, join? args = pure (.text s)) ∨ ∃ s, join? args = throw (.text s) := by
  unfold join?
  split
  · exact .inr ⟨_, rfl⟩
  · exact .inl ⟨_, rfl⟩
  · exact .inl ⟨_, rfl⟩

/-- `join` makes a text of two texts, and is the only closure that is declared. -/
theorem Language.letters_honours : Language.letters.Honours Signature.letters fun _ => True where
  value {f Ts T vs} h _ := by
    obtain ⟨rfl, -, rfl⟩ := h
    show (Letters.join? vs).Sound _ _ _
    obtain ⟨s, hs⟩ | ⟨s, hs⟩ := Letters.join?_cases vs
    · rw [hs]; exact ⟨rfl, .text⟩
    · rw [hs]; exact .text
  test h _ := h.elim
  outcome h _ := h.elim
  effect h _ := h.elim
  handler h _ := h.elim
  cause h := h.elim

theorem Language.letters_within : Language.letters.Within Program.letters fun _ => True where
  value {f args} hf _ := by
    show (Letters.value f args).Within _ _ _
    rcases hf with rfl | rfl
    · show (Letters.join? args).Within _ _ _
      obtain ⟨s, hs⟩ | ⟨s, hs⟩ := Letters.join?_cases args
      · rw [hs]; exact .text
      · rw [hs]; exact .text
    · unfold Letters.value
      split
      case h_2 => exact .text
      case h_5 => exact .text
      all_goals contradiction
  test _ _ := trivial
  outcome _ hv := hv
  effect _ _ := .succeed .text
  handler _ _ := .succeed .text
  cause _ := .fail .text

/-- Two calls of a function that is turned into an effect and back, one of which raises; and an
    effect that keeps the names of its call, turned into a function and back, with the names and
    without them. -/
theorem Effect.functions_correspond_letters :
    letI := Language.letters
    let Same {α : Type} (a b : Act Unit Letters Unit α) : Prop :=
      Act.SameEnds (World.Alike Program.letters fun _ => True) a b
    let joined : Letters.Written := ofFunction .join
    let calls : List (List (Value Unit Letters)) :=
      [[.text "", .text "b"], [.text "a", .text "b"]]
    let call : Value Unit Letters := .arguments (.tuple [.text "a", .text "b"]) [("c", .text "d")]
    (Same (calls.mapM fun items => (joined.toFunction (.tuple items)).capture)
        (calls.mapM fun items => (Language.letters.value .join items).capture) ∧
      ∃ w', (calls.mapM fun items => (joined.toFunction (.tuple items)).capture).Ends
        (World.start ())
        (.ok [.error (Defect.ofRaised (.text "nothing to join")), .ok (.text "ab")]) w') ∧
    (Same ((ofCallFunction .writeCall : Letters.Written).runWith call)
        (Letters.written.runWith call) ∧
      ∃ w', ((ofCallFunction .writeCall : Letters.Written).runWith call).Ends (World.start ())
        (.ok (.text "abc")) w') ∧
    Same ((ofFunction .writePositional : Letters.Written).runWith call)
        (Letters.written.runWith (.arguments (.tuple [.text "a", .text "b"]) [])) ∧
      ∃ w', ((ofFunction .writePositional : Letters.Written).runWith call).Ends (World.start ())
        (.ok (.text "ab")) w' := by
  let _ := Language.letters
  intro Same joined calls call
  obtain ⟨hback, hcall, hpositional⟩ := functions_correspond Language.letters
    Language.letters_honours Language.letters_within
  have hfit : ∀ a b : String,
      Value.AllFit Signature.letters [.text, .text] [Value.text a, (Value.text b : Value Unit _)] :=
    fun a b => .pair ⟨rfl, .text⟩ ⟨rfl, .text⟩
  have hreusable : ∀ a b : String,
      Value.AllReusable Program.letters [Value.text a, (Value.text b : Value Unit _)] :=
    fun a b => .pair .text .text
  have hwritten : Letters.written.Made Program.letters := .access (.inr rfl)
  have hcall' : call.Reusable Program.letters := by
    refine .arguments (.tuple (hreusable "a" "b")) fun entry hentry => ?_
    cases List.mem_singleton.mp hentry
    exact .text
  refine ⟨⟨?_, ?_⟩, ⟨?_, ?_⟩, ?_, ?_⟩
  · refine (hback .unit .text [.text, .text] .join ⟨rfl, rfl, rfl⟩ (.inl rfl)).2.2 calls ?_
    intro items hitems
    obtain rfl | hitems := List.mem_cons.mp hitems
    · exact ⟨hfit "" "b", hreusable "" "b"⟩
    · cases List.mem_singleton.mp hitems
      exact ⟨hfit "a" "b", hreusable "a" "b"⟩
  · exact ⟨_, 9, rfl⟩
  · exact hcall _ _ .unit _ Letters.written hwritten .writeCall _ _ hcall' rfl rfl
  · exact ⟨_, 9, rfl⟩
  · exact hpositional _ _ .unit _ Letters.written hwritten .writePositional _ _
      (hreusable "a" "b") rfl rfl
  · exact ⟨_, 9, rfl⟩

end EffectMachine
