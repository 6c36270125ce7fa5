/-
  What named arguments hold after any insertions.

  Named arguments are a list of entries, and an insertion walks along it.  What one would like to
  think of instead is a map: each name stands for the argument last inserted under it, of whatever
  type that and the earlier ones are, and the order in which names came up does not matter.

  Two things make the list as good as the map.  The names are in increasing order, which every
  insertion keeps (`Ordered.insert`); and a list in order is known by what is found in it, under
  each name (`Ordered.ext`).  So what is left to say of a sequence of insertions is what is found
  afterwards (`find?_ofList`), and this is by induction from its end, where the last write stands.
-/
import EffectMachine.Arguments
import Mathlib.Data.Finset.Card

namespace EffectMachine

namespace NamedArguments

variable {V D K : Type} {entries other : NamedArguments V} {name : String} {v : V}

/-! ## Entries in order -/

theorem contains_iff_mem_names : entries.contains name = true ↔ name ∈ entries.names := by
  induction entries with
  | nil => simp [contains, find?, names]
  | cons e rest ih =>
    obtain ⟨n, u⟩ := e
    by_cases hn : name = n
    · simp [contains, find?, names, hn]
    · have hrest : contains name ((n, u) :: rest) = contains name rest := by
        simp [contains, find?, hn]
      rw [hrest, ih]
      simp [names, hn]

theorem find?_eq_none_iff : entries.find? name = none ↔ name ∉ entries.names := by
  rw [← contains_iff_mem_names, contains, Option.isSome_iff_ne_none, not_not]

theorem mem_names_insert {n : String} :
    n ∈ (entries.insert name v).names ↔ n = name ∨ n ∈ entries.names := by
  simp only [← contains_iff_mem_names, contains_insert, Bool.or_eq_true, decide_eq_true_eq]

namespace Ordered

theorem nil : Ordered ([] : NamedArguments V) := List.Pairwise.nil

/-- The names of entries in order are. -/
theorem names_increasing (h : Ordered entries) : entries.names.Pairwise (· < ·) :=
  List.pairwise_map.mpr h

theorem names_nodup (h : Ordered entries) : entries.names.Nodup := by
  refine h.names_increasing.imp fun {a b} hab heq => ?_
  rw [heq] at hab
  exact String.lt_irrefl b hab

/-- An entry before others in order is before those too that an insertion behind it leaves. -/
theorem before_insert {e : String × V} {rest : NamedArguments V}
    (hrest : ∀ e' ∈ rest, e.1 < e'.1) (hname : e.1 < name) :
    ∀ e' ∈ insert name v rest, e.1 < e'.1 := by
  intro e' he'
  have hmem : e'.1 ∈ names (insert name v rest) := List.mem_map_of_mem he'
  obtain heq | hmem := mem_names_insert.mp hmem
  · rw [heq]
    exact hname
  · obtain ⟨e'', he'', heq⟩ := List.mem_map.mp hmem
    rw [← heq]
    exact hrest e'' he''

/-- An insertion keeps the names in order. -/
protected theorem insert (name : String) (v : V) (h : Ordered entries) :
    Ordered (entries.insert name v) := by
  induction entries with
  | nil => exact List.pairwise_singleton _ _
  | cons e rest ih =>
    obtain ⟨n, u⟩ := e
    obtain ⟨hfirst, hrest⟩ := List.pairwise_cons.mp h
    unfold NamedArguments.insert
    split
    · rename_i heq
      subst heq
      exact List.pairwise_cons.mpr ⟨hfirst, hrest⟩
    · rename_i hne
      split
      · rename_i hlt
        refine List.pairwise_cons.mpr ⟨fun e' he' => ?_, h⟩
        obtain rfl | he' := List.mem_cons.mp he'
        · exact hlt
        · exact String.lt_trans hlt (hfirst e' he')
      · rename_i hnot
        have hname : n < name := by
          rw [← String.not_le]
          exact fun hle => hne (String.le_antisymm hle (String.not_lt.mp hnot))
        exact List.pairwise_cons.mpr ⟨before_insert hfirst hname, ih hrest⟩

/-- What comes behind an entry is not found under its name. -/
theorem find?_rest {n : String} {u : V} {rest : NamedArguments V} (h : Ordered ((n, u) :: rest)) :
    find? n rest = none := by
  rw [find?_eq_none_iff]
  intro hmem
  obtain ⟨e, he, heq⟩ := List.mem_map.mp hmem
  have hlt : n < e.1 := (List.pairwise_cons.mp h).1 e he
  rw [heq] at hlt
  exact String.lt_irrefl n hlt

/-- Under no name less than the first is anything found. -/
theorem le_of_find? {n m : String} {u x : V} {rest : NamedArguments V}
    (h : Ordered ((n, u) :: rest)) (hfind : find? m ((n, u) :: rest) = some x) : n ≤ m := by
  have hmem : m ∈ names ((n, u) :: rest) := by
    by_contra hnot
    rw [← find?_eq_none_iff, hfind] at hnot
    cases hnot
  obtain rfl | hmem := List.mem_cons.mp hmem
  · exact String.le_refl _
  · obtain ⟨e, he, rfl⟩ := List.mem_map.mp hmem
    have hlt : n < e.1 := (List.pairwise_cons.mp h).1 e he
    exact String.not_lt.mp (String.lt_asymm hlt)

/-- Entries in order are known by what is found in them. -/
protected theorem ext (h : Ordered entries) (h' : Ordered other)
    (hfind : ∀ n, entries.find? n = other.find? n) : entries = other := by
  induction entries generalizing other with
  | nil =>
    cases other with
    | nil => rfl
    | cons e rest => simpa [find?] using hfind e.1
  | cons e rest ih =>
    cases other with
    | nil => simpa [find?] using hfind e.1
    | cons e' rest' =>
      obtain ⟨n, u⟩ := e
      obtain ⟨n', u'⟩ := e'
      have hself : find? n' ((n, u) :: rest) = some u' := (hfind n').trans (by simp [find?])
      have hself' : find? n ((n', u') :: rest') = some u := (hfind n).symm.trans (by simp [find?])
      obtain rfl : n = n' := String.le_antisymm (h.le_of_find? hself) (h'.le_of_find? hself')
      obtain rfl : u = u' := by simpa [find?] using hself
      -- under their common name nothing is found in what comes behind
      have hrest : ∀ m, find? m rest = find? m rest' := by
        intro m
        by_cases hm : m = n
        · rw [hm, h.find?_rest, h'.find?_rest]
        · simpa [find?, hm] using hfind m
      rw [ih (List.pairwise_cons.mp h).2 (List.pairwise_cons.mp h').2 hrest]

/-- Insertions under two names may change places. -/
theorem insert_comm (h : Ordered entries) {name' : String} (hne : name ≠ name') (v v' : V) :
    (entries.insert name v).insert name' v' = (entries.insert name' v').insert name v := by
  refine ((h.insert name v).insert name' v').ext ((h.insert name' v').insert name v) fun n => ?_
  simp only [find?_insert]
  by_cases hn : n = name
  · have hn' : n ≠ name' := fun h => hne (hn.symm.trans h)
    rw [if_neg hn', if_pos hn, if_pos hn]
  · rw [if_neg hn, if_neg hn]

end Ordered

/-! ## Any number of insertions -/

/-- The last of these arguments under the name is this one. -/
def LastUnder (name : String) (v : V) (calls : List (String × V)) : Prop :=
  ∃ before after, calls = before ++ (name, v) :: after ∧ name ∉ after.map (·.1)

/-- One more insertion: it is the last one under its own name, and makes no difference to the
    others. -/
theorem lastUnder_concat {calls : List (String × V)} {call : String × V} :
    LastUnder name v (calls ++ [call]) ↔
      if name = call.1 then call.2 = v else LastUnder name v calls := by
  constructor
  · rintro ⟨before, after, heq, hafter⟩
    cases after using List.reverseRecOn with
    | nil =>
      obtain ⟨-, hcall⟩ := List.append_inj' heq rfl
      cases hcall
      simp
    | append_singleton after last =>
      rw [← List.cons_append, ← List.append_assoc] at heq
      obtain ⟨hcalls, hlast⟩ := List.append_inj' heq rfl
      cases hlast
      simp only [List.map_append, List.mem_append, not_or, List.map_cons, List.map_nil,
        List.mem_singleton] at hafter
      rw [if_neg hafter.2]
      exact ⟨before, after, hcalls, hafter.1⟩
  · intro h
    split at h
    · rename_i hname
      obtain ⟨n, u⟩ := call
      cases hname
      cases h
      exact ⟨calls, [], rfl, List.not_mem_nil⟩
    · rename_i hname
      obtain ⟨before, after, rfl, hafter⟩ := h
      refine ⟨before, after ++ [call], by simp, ?_⟩
      simp [hafter, hname]

theorem ofList_concat (calls : List (String × V)) (call : String × V) :
    ofList (calls ++ [call]) = (ofList calls).insert call.1 call.2 := by
  rw [ofList, List.foldl_append]
  rfl

/-- By induction on the insertions from the last one: each keeps the order. -/
theorem ofList_ordered (calls : List (String × V)) : Ordered (ofList calls) := by
  induction calls using List.reverseRecOn with
  | nil => exact .nil
  | append_singleton calls call ih =>
    rw [ofList_concat]
    exact ih.insert call.1 call.2

/-- Under a name the argument is found that was last inserted under it. -/
theorem find?_ofList {calls : List (String × V)} :
    (ofList calls).find? name = some v ↔ LastUnder name v calls := by
  induction calls using List.reverseRecOn with
  | nil => simp [ofList, find?, LastUnder]
  | append_singleton calls call ih =>
    rw [ofList_concat, find?_insert, lastUnder_concat]
    split
    · exact Option.some_inj
    · exact ih

theorem mem_names_ofList {calls : List (String × V)} :
    name ∈ (ofList calls).names ↔ name ∈ calls.map (·.1) := by
  induction calls using List.reverseRecOn with
  | nil => simp [ofList, names]
  | append_singleton calls call ih =>
    rw [ofList_concat, mem_names_insert, ih, List.map_append, List.mem_append, or_comm,
      List.map_singleton, List.mem_singleton]

theorem contains_ofList {calls : List (String × V)} :
    (ofList calls).contains name = true ↔ name ∈ calls.map (·.1) :=
  contains_iff_mem_names.trans mem_names_ofList

/-- There are as many entries as names were given. -/
theorem length_ofList (calls : List (String × V)) :
    (ofList calls).length = (calls.map (·.1)).toFinset.card := by
  have hnames : (ofList calls).names.toFinset = (calls.map (·.1)).toFinset := by
    ext n
    rw [List.mem_toFinset, List.mem_toFinset, mem_names_ofList]
  rw [← hnames, List.toFinset_card_of_nodup (ofList_ordered calls).names_nodup, names,
    List.length_map]

/-- There is nothing among the arguments only if nothing was ever inserted. -/
theorem isEmpty_ofList (calls : List (String × V)) :
    (ofList calls).isEmpty = true ↔ calls = [] := by
  rw [List.isEmpty_iff_length_eq_zero, length_ofList, Finset.card_eq_zero,
    List.toFinset_eq_empty_iff, List.map_eq_nil_iff]

/-- To put one more argument is to insert it after the others, and tells whether its name is new. -/
theorem put_ofList (name : String) (v : V) (calls : List (String × V)) :
    (put name v).run (ofList calls) =
      (decide (name ∈ calls.map (·.1)), ofList (calls ++ [(name, v)])) := by
  have hanswer : (ofList calls).contains name = decide (name ∈ calls.map (·.1)) := by
    rw [Bool.eq_iff_iff, contains_ofList, decide_eq_true_iff]
  rw [ofList_concat, ← hanswer]
  rfl

/-- Arguments put under two names may change places, and the answers are the same. -/
theorem put_comm {name' : String} (hne : name ≠ name') (v v' : V) (h : Ordered entries) :
    (do
      let replaced ← put name v
      let replaced' ← put name' v'
      return (replaced, replaced')).run entries =
    (do
      let replaced' ← put name' v'
      let replaced ← put name v
      return (replaced, replaced')).run entries := by
  have hanswer : (entries.insert name v).contains name' = entries.contains name' := by
    rw [contains_insert, decide_eq_false hne.symm, Bool.false_or]
  have hanswer' : (entries.insert name' v').contains name = entries.contains name := by
    rw [contains_insert, decide_eq_false hne, Bool.false_or]
  show ((entries.contains name, (entries.insert name v).contains name'),
      (entries.insert name v).insert name' v') =
    (((entries.insert name' v').contains name, entries.contains name'),
      (entries.insert name' v').insert name v)
  rw [hanswer, hanswer', h.insert_comm hne]

/-- A call that is given one named argument after another holds what is inserted so. -/
theorem foldl_withNamed (positional : Value D K) (calls later : List (String × Value D K)) :
    later.foldl (fun call c => Value.withNamed call c.1 c.2)
        (Value.arguments positional (ofList calls)) =
      Value.arguments positional (ofList (calls ++ later)) := by
  induction later generalizing calls with
  | nil => simp
  | cons c later ih =>
    rw [List.foldl_cons, List.append_cons, ← ih, ofList_concat]
    rfl

/-- Named arguments are an ordered map by type, in which the last write wins.

    Take what there is after any insertions: under any names, of values of any types, with names
    that come up again or not.  The names are in strictly increasing order, and they are those that
    were given; there are as many entries as there are such names, none only if nothing was
    inserted.  A look-up for a type finds the value last inserted under the name if it is of just
    that type, and nothing otherwise; no earlier value comes up again.

    One more insertion answers whether its name was given before, and has the same effect on the
    arguments of a whole call, whose positional ones stay.  Two insertions under different names
    may change places. -/
theorem last_write_wins (calls : List (String × Value D K)) :
    let named := ofList calls
    let given := calls.map (·.1)
    named.names.Pairwise (· < ·) ∧
    (∀ name, name ∈ named.names ↔ name ∈ given) ∧
    named.length = given.toFinset.card ∧
    (named.isEmpty = true ↔ calls = []) ∧
    (∀ name, named.contains name = true ↔ name ∈ given) ∧
    (∀ t name v, named.get? t name = some v ↔ v.type = t ∧ LastUnder name v calls) ∧
    (∀ name v, (put name v).run named =
      (decide (name ∈ given), ofList (calls ++ [(name, v)]))) ∧
    (∀ positional (later : List (String × Value D K)),
      later.foldl (fun call c => Value.withNamed call c.1 c.2)
          (Value.arguments positional named) =
        Value.arguments positional (ofList (calls ++ later))) ∧
    (∀ name name' v v', name ≠ name' →
      (do
        let replaced ← put name v
        let replaced' ← put name' v'
        return (replaced, replaced')).run named =
      (do
        let replaced' ← put name' v'
        let replaced ← put name v
        return (replaced, replaced')).run named) := by
  intro named given
  have hordered : Ordered named := ofList_ordered calls
  refine ⟨hordered.names_increasing, fun name => mem_names_ofList, length_ofList calls,
    isEmpty_ofList calls, fun name => contains_ofList, ?_, fun name v => put_ofList name v calls,
    fun positional later => foldl_withNamed positional calls later,
    fun name name' v v' hne => put_comm hne v v' hordered⟩
  intro t name v
  simp only [get?, Option.bind_eq_some_iff, Value.cast?_eq_some_iff]
  constructor
  · rintro ⟨u, hfind, htype, rfl⟩
    exact ⟨htype, find?_ofList.mp hfind⟩
  · rintro ⟨htype, hlast⟩
    exact ⟨v, find?_ofList.mpr hlast, htype, rfl⟩

/-- A name given again holds the later value, whose type is another one. -/
example :
    let named : NamedArguments (Value Unit Unit) :=
      ofList [("é", .text "a"), ("", .unit), ("é", .literal "b")]
    named.names = ["", "é"] ∧ named.get? .literal "é" = some (.literal "b") ∧
      named.get? .text "é" = none :=
  ⟨rfl, rfl, rfl⟩

end NamedArguments

end EffectMachine
