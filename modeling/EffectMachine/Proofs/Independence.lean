/-
  Runs on one runner are independent.

  A runner is used for one run after another, and all that it keeps is its stack of environments and
  the steps of its last run.  The file shows that nothing of this is ever seen by a later run.  Each
  run leaves the stack as it was, in whatever way it ends, also if it is cut short while
  environments are bound (`Runner.evaluateWith_kept`); so whatever the history of a runner the stack
  is empty between two runs, and the next run goes as it would on a runner that has run nothing yet.

  What a history can be is left open on purpose: any runs, of any nodes, in any worlds, and even by
  closures of other languages.
-/
import EffectMachine.Proofs.Reruns
import EffectMachine.Proofs.Unwinding

namespace EffectMachine

variable {D K σ : Type}

namespace Runner

/-- The runner was made with these settings, and has made some runs since: one after another, each
    of which ended in one way or the other. -/
inductive History (s : Settings) : Runner D K → Prop where
  | new {r} (h : ofSettings s = .ok r) : History s r
  | ran {r r' ending} {τ : Type} {L : Language D K τ} {callees : Callees D K τ} {fuel : Nat}
      {env : Option (Value D K)} {node : Node D K} {w w' : World τ} (h : History s r)
      (hrun : r.evaluateWith callees fuel env node w = some (ending, r', w')) : History s r'

section Runs

variable [Language D K σ] {callees : Callees D K σ} {fuel : Nat} {r r' : Runner D K}
  {env : Option (Value D K)} {node : Node D K} {ending : Raised D K (Ending D K)}
  {w w' : World σ}

/-- A run keeps the settings of its runner, and leaves the environments there were. -/
theorem evaluateWith_kept (h : r.evaluateWith callees fuel env node w = some (ending, r', w')) :
    r'.settings = r.settings ∧ r'.environments = r.environments := by
  have hevaluate : ∀ {node : Node D K} {w : World σ},
      r.evaluate callees fuel node w = some (ending, r', w') →
        r'.settings = r.settings ∧ r'.environments = r.environments := by
    intro node w h
    refine ⟨?_, evaluate_environments h⟩
    obtain ⟨-, -, rfl, -⟩ | ⟨-, _, _, _, _, -, -, rfl, -⟩ | ⟨-, _, _, _, _, -, -, rfl, -⟩ :=
      evaluate_cases h
    · rfl
    · rfl
    · rfl
  cases env with
  | none => exact hevaluate h
  | some env => exact hevaluate h

end Runs

namespace History

variable {s : Settings} {r : Runner D K}

/-- Nothing that is done with a runner changes its settings, and between two runs nothing is
    bound. -/
theorem kept (h : History s r) : r.settings = s ∧ r.environments = #[] := by
  induction h with
  | new h =>
    unfold ofSettings at h
    split at h <;> cases h
    exact ⟨rfl, rfl⟩
  | ran _ hrun ih =>
    obtain ⟨hsettings, henvs⟩ := evaluateWith_kept hrun
    exact ⟨hsettings.trans ih.1, henvs.trans ih.2⟩

/-- Runs on one runner are independent.

    Take any runner with room for its frames, whatever it has been used for since it was made.  Its
    stack of environments is empty, and is so again after the next run, however that ends.  In this
    run a read that no `provide` is open for finds no environment.  And it goes the same way as on a
    fresh runner, from any world with the same shared state and the same halts: the same calls, the
    same reports but for the label of its span, the same ending or the same payload raised, and if
    it returns as many steps. -/
theorem independent {L : Language D K σ} {P : Program K} {I : σ → Prop} (hL : L.Within P I)
    (hfit : s.framesFit = true) (hr : History s r) :
    r.environments = #[] ∧
    (∀ (callees : Callees D K σ) (fuel : Nat) (env : Option (Value D K)) (node : Node D K)
      (w : World σ) {ending r' w'},
      r.evaluateWith callees fuel env node w = some (ending, r', w') → r'.environments = #[]) ∧
    (∀ (callees : Callees D K σ) (env : Option (Value D K)) (node start : Node D K)
      (w w₁ w' : World σ) (type : Ty) (link : Link D K) (frames : List (Frame D K))
      (envs : Array (Value D K)) (steps : Nat),
      entry env node callees w = some (.ok start, w₁) →
      Machine.Reaches callees (r.start start, r.opened w₁)
        (⟨.dispatch (.read type link), frames, envs, steps⟩, w') →
      Frame.depths frames = [] →
        ∃ m, Machine.step callees ⟨.dispatch (.read type link), frames, envs, steps⟩ w' =
            some (.running m, w') ∧
          Machine.step callees m w' =
            some (.running ⟨.settle (.failure (.ofFault (.missingEnvironment type.name))), frames,
              envs, steps + 2⟩, w')) ∧
    (∀ (depth fuel : Nat) (env : Option (Value D K)) (node : Node D K)
      (w v : World (Noted D K σ)), (∀ bound, env = some bound → bound.Reusable P) →
      node.Reusable P → I w.state.state → w.state.state = v.state.state → w.halts = v.halts →
        Reruns P r fresh w v
          (@evaluateWith D K _ L.noting (@Callees.ofFuel D K _ L.noting depth) fuel r env node w)
          (@evaluateWith D K _ L.noting (@Callees.ofFuel D K _ L.noting depth) fuel fresh env node
            v)) := by
  obtain ⟨hsettings, henvs⟩ := hr.kept
  refine ⟨henvs, ?_, ?_, ?_⟩
  · intro callees fuel env node w ending r' w' hrun
    rw [(evaluateWith_kept hrun).2, henvs]
  · intro callees env node start w w₁ w' type link frames envs steps _ hreach hframes
    -- scopes are nested in what was bound at the beginning of the run, which is nothing
    have hnested : Nested r.environments frames envs := hreach.nested rfl
    have hnone : envs = #[] := (hnested.eq_base hframes).trans henvs
    subst hnone
    exact ⟨_, rfl, rfl⟩
  · intro depth fuel env node w v henv hnode hinv hstate hhalts
    have hroom : r.settings.framesFit = (fresh : Runner D K).settings.framesFit := by
      rw [hsettings, hfit, fresh_framesFit]
    have hreusable : r.Reusable P := by
      intro bound hbound
      rw [henvs] at hbound
      exact absurd hbound (Array.not_mem_empty bound)
    exact evaluateWith_again hL depth fuel henvs hroom hreusable henv hnode hinv hstate
      fun _ => hhalts

end History

end Runner

/-! ## A run that is cut short -/

/-- What a language that raises does stays within any program. -/
theorem Language.raising_within :
    Language.raising.Within (Program.all True) fun _ => True where
  value {f args} _ _ := by cases f <;> exact .text
  test {f v} _ _ := by
    cases f with
    | false => exact trivial
    | true => exact .text
  outcome {f v} _ _ := by cases f <;> exact Value.Reusable.text
  effect {f args} _ _ := by
    cases f with
    | false => exact .succeed .text
    | true => exact .text
  handler {f c} _ _ := by
    cases f with
    | false => exact .succeed .text
    | true => exact .text
  cause {f} _ := by
    cases f with
    | false => exact .fail .text
    | true => exact .text

/-- After a run that was cut short while an environment was bound, a read goes as on a fresh
    runner. -/
theorem Runner.History.independent_after_raising :
    let s : Settings := { label := "probe", frameCapacity := 1, environmentCapacity := 1 }
    let cut : Node Unit Bool := .provide (.shared .unit) (.total true [])
    ∃ r' w', @evaluateWith _ _ _ Language.raising (@Callees.ofFuel _ _ _ Language.raising 9) 9
        ⟨s, #[], 0⟩ none cut (World.start ()) = some (.error (.text "no"), r', w') ∧
      ∀ w : World (Noted Unit Bool Unit),
        Reruns (Program.all True) r' fresh w w
          (@evaluateWith _ _ _ Language.raising.noting
            (@Callees.ofFuel _ _ _ Language.raising.noting 9) 9 r' none (.read .unit .now) w)
          (@evaluateWith _ _ _ Language.raising.noting
            (@Callees.ofFuel _ _ _ Language.raising.noting 9) 9 fresh none (.read .unit .now) w) := by
  intro s cut
  obtain ⟨r', w', hrun⟩ : ∃ r' w', @evaluateWith _ _ _ Language.raising
      (@Callees.ofFuel _ _ _ Language.raising 9) 9 ⟨s, #[], 0⟩ none cut (World.start ()) =
        some (.error (.text "no"), r', w') := ⟨_, _, rfl⟩
  have hnew : History s (⟨s, #[], 0⟩ : Runner Unit Bool) := .new rfl
  have hfit : s.framesFit = true := by decide
  obtain ⟨-, -, -, hruns⟩ :=
    History.independent Language.raising_within hfit (hnew.ran hrun)
  refine ⟨r', w', hrun, fun w => ?_⟩
  exact hruns 9 9 none (.read .unit .now) w w nofun (.read .now) trivial rfl rfl

end EffectMachine
