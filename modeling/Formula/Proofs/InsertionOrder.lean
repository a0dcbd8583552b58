import Formula.Bindings.Indexed
import Formula.Proofs.Signatures

/-!
Variables with an index, over any sequence of insertions. The index is never out of step: it has exactly
the names of the variables, each with the position at which its variable stands, and what is found through
it is what a search would find. The variables stand in the order in which their names first came.
-/

namespace Formula

namespace Bindings

variable {x : Variable} {xs : List Variable}

theorem insertInto_of_not_mem (h : x.name ∉ xs.map (·.name)) : insertInto x xs = xs ++ [x] := by
  induction xs with
  | nil => rfl
  | cons y ys ih =>
      obtain ⟨hne, hys⟩ : x.name ≠ y.name ∧ x.name ∉ ys.map (·.name) := by simpa using h
      rw [insertInto, if_neg hne.symm, ih hys, List.cons_append]

/-- The place of a name that is there already is the one at which it stands. -/
theorem insertInto_eq_set {i : Nat} (hnames : (xs.map (·.name)).Nodup)
    (hi : (xs.map (·.name))[i]? = some x.name) : insertInto x xs = xs.set i x := by
  induction xs generalizing i with
  | nil => simp at hi
  | cons y ys ih =>
      obtain ⟨hfresh, hrest⟩ := List.nodup_cons.mp hnames
      cases i with
      | zero =>
          have hname : y.name = x.name := by simpa using hi
          rw [insertInto, if_pos hname, List.set_cons_zero]
      | succ i =>
          have hi' : (ys.map (·.name))[i]? = some x.name := by simpa using hi
          have hne : y.name ≠ x.name := by
            rintro hname
            rw [← hname] at hi'
            exact hfresh (List.mem_of_getElem? hi')
          rw [insertInto, if_neg hne, ih hrest hi', List.set_cons_succ]

theorem ofList_concat (xs : List Variable) (x : Variable) : ofList (xs ++ [x]) = (ofList xs).insert x :=
  List.foldl_append

theorem names_ofList_concat (xs : List Variable) (x : Variable) :
    (ofList (xs ++ [x])).vars.map (·.name) =
      if x.name ∈ (ofList xs).vars.map (·.name) then (ofList xs).vars.map (·.name)
      else (ofList xs).vars.map (·.name) ++ [x.name] := by
  rw [ofList_concat, insert, names_insertInto]

theorem mem_names_ofList {name : String} :
    name ∈ (ofList xs).vars.map (·.name) ↔ name ∈ xs.map (·.name) := by
  induction xs using List.reverseRecOn with
  | nil => rfl
  | append_singleton xs x ih =>
      rw [names_ofList_concat, List.map_append, List.mem_append, ← ih, List.map_singleton,
        List.mem_singleton]
      split
      · next hx => exact ⟨.inl, fun h => h.elim id fun h => h ▸ hx⟩
      · rw [List.mem_append, List.mem_singleton]

/-- Of two variables, that whose name came first stands first. -/
theorem pairwise_names_ofList (xs : List Variable) :
    ((ofList xs).vars.map (·.name)).Pairwise fun name name' =>
      (xs.map (·.name)).idxOf name < (xs.map (·.name)).idxOf name' := by
  induction xs using List.reverseRecOn with
  | nil => exact .nil
  | append_singleton xs x ih =>
      -- The last insertion moves no name that is already there.
      have hkept : ∀ name ∈ (ofList xs).vars.map (·.name),
          ((xs ++ [x]).map (·.name)).idxOf name = (xs.map (·.name)).idxOf name := by
        intro name hname
        rw [List.map_append, List.idxOf_append_of_mem (mem_names_ofList.mp hname)]
      have hearlier := ih.imp_of_mem fun {name name'} hname hname' hlt => by
        rwa [← hkept name hname, ← hkept name' hname'] at hlt
      rw [names_ofList_concat]
      split
      · exact hearlier
      · next hx =>
        refine List.pairwise_append.mpr ⟨hearlier, List.pairwise_singleton _ _, ?_⟩
        intro name hname name' hname'
        rw [List.mem_singleton.mp hname', hkept name hname, List.map_append,
          List.idxOf_append_of_notMem (mem_names_ofList.not.mp hx)]
        exact Nat.lt_of_lt_of_le (List.idxOf_lt_length_of_mem (mem_names_ofList.mp hname))
          (Nat.le_add_right _ _)

end Bindings

namespace IndexedBindings

variable {b : IndexedBindings} {x : Variable} {name : String} {i : Nat}

/-- The index has the names of the variables, each with the position of its variable, and nothing else. -/
def IsInStep (b : IndexedBindings) : Prop :=
  ∀ (name : String) (i : Nat),
    b.index[name]? = some i ↔ (b.toBindings.vars.map (·.name))[i]? = some name

theorem getElem?_concat_eq_some_iff {names : List String} {last : String} :
    (names ++ [last])[i]? = some name ↔ names[i]? = some name ∨ i = names.length ∧ last = name := by
  rw [List.getElem?_append]
  split
  · next hi => simp [hi.ne]
  · next hi =>
    have hi : names.length ≤ i := Nat.not_lt.mp hi
    rw [List.getElem?_eq_none hi, List.getElem?_singleton]
    by_cases hlast : i = names.length
    · simp [hlast]
    · simp [hlast, Nat.sub_eq_zero_iff_le]
      omega

theorem isInStep_empty : empty.IsInStep := fun name i => by simp [empty, toBindings]

theorem IsInStep.distinct (h : b.IsInStep) : b.toBindings.Distinct := by
  refine List.nodup_iff_getElem?_ne_getElem?.mpr fun i j hij hj heq => ?_
  have hname := List.getElem?_eq_getElem hj
  have hi := (h _ i).mpr (heq.trans hname)
  have hj := (h _ j).mpr hname
  exact hij.ne (Option.some.inj (hi.symm.trans hj))

theorem IsInStep.not_mem (h : b.IsInStep) (hname : b.index[name]? = none) :
    name ∉ b.toBindings.vars.map (·.name) := by
  intro hmem
  obtain ⟨i, hi⟩ := List.mem_iff_getElem?.mp hmem
  rw [(h name i).mpr hi] at hname
  cases hname

/-- All that an insertion can do. -/
theorem insert_cases (b : IndexedBindings) (x : Variable) :
    (∃ i, b.index[x.name]? = some i ∧ (b.insert x).index = b.index ∧
      (b.insert x).toBindings.vars = b.toBindings.vars.set i x) ∨
    (b.index[x.name]? = none ∧ (b.insert x).index = b.index.insert x.name b.toBindings.vars.length ∧
      (b.insert x).toBindings.vars = b.toBindings.vars ++ [x]) := by
  rw [insert]
  split
  · next i hi => exact .inl ⟨i, hi, rfl, by simp [toBindings]⟩
  · next hnone => exact .inr ⟨hnone, rfl, by simp [toBindings]⟩

theorem IsInStep.toBindings_insert (h : b.IsInStep) (x : Variable) :
    (b.insert x).toBindings = b.toBindings.insert x := by
  rcases b.insert_cases x with ⟨i, hi, -, hvars⟩ | ⟨hnone, -, hvars⟩
  · have hset := Bindings.insertInto_eq_set h.distinct ((h _ i).mp hi)
    rw [Bindings.insert, hset, ← hvars]
  · rw [Bindings.insert, Bindings.insertInto_of_not_mem (h.not_mem hnone), ← hvars]

theorem IsInStep.insert (h : b.IsInStep) (x : Variable) : (b.insert x).IsInStep := by
  intro name j
  rcases b.insert_cases x with ⟨i, hi, hindex, hvars⟩ | ⟨hnone, hindex, hvars⟩
  · have hnames : (b.toBindings.vars.set i x).map (·.name) = b.toBindings.vars.map (·.name) := by
      obtain ⟨hlt, heq⟩ := List.getElem?_eq_some_iff.mp ((h _ i).mp hi)
      rw [List.map_set, ← heq, List.set_getElem_self]
    rw [hindex, hvars, hnames]
    exact h name j
  · have hfresh := h.not_mem hnone
    rw [hindex, hvars, Std.HashMap.getElem?_insert, List.map_append, List.map_singleton,
      getElem?_concat_eq_some_iff, List.length_map]
    by_cases hname : x.name = name
    · subst hname
      have hnot : ¬(b.toBindings.vars.map (·.name))[j]? = some x.name := fun hj =>
        hfresh (List.mem_of_getElem? hj)
      simp only [beq_self_eq_true, if_true, hnot, false_or, and_true, Option.some.injEq, eq_comm]
    · simp [hname, h name j]

theorem find?_of_index (h : b.index[name]? = some i) : b.find? name = b.toBindings.vars[i]? := by
  have hi := b.inside h
  rw [find?]
  split
  · next j hj =>
    obtain rfl : i = j := Option.some.inj (h.symm.trans hj)
    simp [toBindings, hi]
  · next hnone =>
    rw [hnone] at h
    cases h

theorem find?_of_index_none (h : b.index[name]? = none) : b.find? name = none := by
  rw [find?]
  split
  · next j hj =>
    rw [h] at hj
    cases hj
  · rfl

theorem contains_eq_isSome (b : IndexedBindings) (name : String) :
    b.contains name = (b.find? name).isSome := by
  rw [contains, Std.HashMap.contains_eq_isSome_getElem?]
  cases hindex : b.index[name]? with
  | none =>
      rw [find?_of_index_none hindex]
      rfl
  | some i =>
      have hi := b.inside hindex
      rw [find?_of_index hindex]
      simp [toBindings, hi]

/-- The index leads to the variable that a search for the name comes to. -/
theorem IsInStep.find?_eq (h : b.IsInStep) (name : String) : b.find? name = b.toBindings.find? name := by
  cases hindex : b.index[name]? with
  | none =>
      have hnone : b.toBindings.find? name = none := by
        refine List.find?_eq_none.mpr fun y hy hname => h.not_mem hindex ?_
        exact List.mem_map.mpr ⟨y, hy, by simpa using hname⟩
      rw [find?_of_index_none hindex, hnone]
  | some i =>
      have hi := (h name i).mp hindex
      rw [List.getElem?_map, Option.map_eq_some_iff] at hi
      obtain ⟨y, hy, hname⟩ := hi
      have hfind : b.toBindings.find? name = some y :=
        (Bindings.find?_name_eq_some_iff h.distinct).mpr ⟨List.mem_of_getElem? hy, hname⟩
      rw [find?_of_index hindex, hy, hfind]

/-! ### A sequence of insertions -/

theorem isInStep_ofList (xs : List Variable) : (ofList xs).IsInStep :=
  List.foldlRecOn xs _ isInStep_empty fun _ h x _ => h.insert x

theorem toBindings_ofList (xs : List Variable) : (ofList xs).toBindings = Bindings.ofList xs := by
  induction xs using List.reverseRecOn with
  | nil => rfl
  | append_singleton xs x ih =>
      have hlast : ofList (xs ++ [x]) = (ofList xs).insert x := List.foldl_append
      rw [hlast, (isInStep_ofList xs).toBindings_insert, ih, Bindings.ofList_concat]

/-- What holds of the variables after they were inserted one after another. -/
structure Keeps (xs : List Variable) (b : IndexedBindings) : Prop where
  toBindings : b.toBindings = Bindings.ofList xs
  names : (b.vars.toList.map (·.name)).Nodup
  positions : ∀ (name : String) (i : Nat),
    b.index[name]? = some i ↔ ∃ x, b.vars[i]? = some x ∧ x.name = name
  order : b.vars.toList.Pairwise fun x y =>
    (xs.map (·.name)).idxOf x.name < (xs.map (·.name)).idxOf y.name
  latest : ∀ name, b.find? name = xs.reverse.find? (·.name == name)
  contains : ∀ name, b.contains name = (b.find? name).isSome

theorem keeps_ofList (xs : List Variable) : (ofList xs).Keeps xs := by
  have h := isInStep_ofList xs
  have hbindings := toBindings_ofList xs
  refine ⟨hbindings, h.distinct, fun name i => ?positions, ?order, fun name => ?latest,
    (ofList xs).contains_eq_isSome⟩
  case positions =>
    rw [h name i, List.getElem?_map, Option.map_eq_some_iff, toBindings, Array.getElem?_toList]
  case order =>
    have hpairwise := Bindings.pairwise_names_ofList xs
    rwa [← hbindings, List.pairwise_map] at hpairwise
  case latest =>
    rw [h.find?_eq, hbindings, Bindings.find?_ofList]

/-- The variables with their index are a map that keeps the order of insertion. Their signature is a
canonical form of the mapping from names to declared types. -/
theorem isOrderedMap :
    (∀ xs, (ofList xs).Keeps xs) ∧
      ∀ xs ys, (ofList xs).toBindings.signature = (ofList ys).toBindings.signature ↔
        ∀ name, ((ofList xs).find? name).map (·.type) = ((ofList ys).find? name).map (·.type) := by
  refine ⟨keeps_ofList, fun xs ys => ?_⟩
  have hxs := isInStep_ofList xs
  have hys := isInStep_ofList ys
  rw [hxs.distinct.signature_eq_iff hys.distinct]
  refine forall_congr' fun name => ?_
  rw [Bindings.declared?, Bindings.declared?, ← hxs.find?_eq, ← hys.find?_eq]

end IndexedBindings

end Formula
