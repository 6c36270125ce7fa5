/-
  Ranges of code points.

  A property of characters is given by the code points that have it, as a list of closed ranges.
  Kept in ascending order, with a gap between two of them, a property has only one list.
-/

namespace EffectMachine.Text

/-- Closed ranges of code points, each by its first and its last. -/
abbrev CodeRanges := List (Nat × Nat)

namespace CodeRanges

/-- Whether a character lies in one of the ranges. -/
def has (ranges : CodeRanges) (c : Char) : Bool :=
  ranges.any fun r => r.1 ≤ c.toNat && c.toNat ≤ r.2

/-- Whether the ranges ascend, none of them empty, with a gap between two of them. -/
def ascending : CodeRanges → Bool
  | [] => true
  | [r] => r.1 ≤ r.2
  | r :: s :: ranges => r.1 ≤ r.2 && r.2 + 1 < s.1 && ascending (s :: ranges)

/-- How many code points lie in the ranges. -/
def count (ranges : CodeRanges) : Nat := ranges.foldl (fun n r => n + (r.2 + 1 - r.1)) 0

theorem has_iff (ranges : CodeRanges) (c : Char) :
    ranges.has c = true ↔ ∃ r ∈ ranges, r.1 ≤ c.toNat ∧ c.toNat ≤ r.2 := by
  simp [has]

/-- A character below the first of ascending ranges lies in none of them. -/
theorem has_eq_false_of_lt {first last : Nat} {ranges : CodeRanges} {c : Char}
    (asc : ascending ((first, last) :: ranges) = true) (h : c.toNat < first) :
    has ((first, last) :: ranges) c = false := by
  induction ranges generalizing first last with
  | nil => simp [has]; omega
  | cons r ranges ih =>
    simp only [ascending, Bool.and_eq_true, decide_eq_true_eq] at asc
    have rest : has (r :: ranges) c = false := ih asc.2 (by omega)
    simp only [has, List.any_cons, Bool.or_eq_false_iff] at rest ⊢
    exact ⟨by simp; omega, rest⟩

end CodeRanges

end EffectMachine.Text
