import Formula.Proofs.WellTyped
import Mathlib.Data.List.Induction

/-!
The signature of variables is a canonical form of the mapping from their names to their declared
types: the order in which the variables were inserted does not show in it.
-/

namespace Formula

namespace Bindings

/-- The mapping from names to declared types. -/
def declared? (b : Bindings) (name : String) : Option TypeTag := (b.find? name).map (·.type)

/-! ### Variables that are inserted keep their names apart -/

theorem names_insertInto (x : Variable) (xs : List Variable) :
    (insertInto x xs).map (·.name) =
      if x.name ∈ xs.map (·.name) then xs.map (·.name) else xs.map (·.name) ++ [x.name] := by
  induction xs with
  | nil => simp [insertInto]
  | cons y ys ih =>
      rw [insertInto]
      by_cases hy : y.name = x.name
      · simp [hy]
      · rw [if_neg hy, List.map_cons, ih, List.map_cons]
        have hxy : x.name ≠ y.name := fun h => hy h.symm
        simp only [List.mem_cons, hxy, false_or]
        split <;> rfl

theorem distinct_empty : empty.Distinct := List.nodup_nil

theorem Distinct.insert {b : Bindings} (h : b.Distinct) (x : Variable) : (b.insert x).Distinct := by
  rw [Distinct, Bindings.insert, names_insertInto]
  split
  · exact h
  · next hx => exact List.nodup_append.mpr ⟨h, List.nodup_singleton _, by
      intro a ha c hc
      rw [List.mem_singleton.mp hc]
      exact fun hac => hx (hac ▸ ha)⟩

theorem distinct_ofList (xs : List Variable) : (ofList xs).Distinct :=
  List.foldlRecOn xs _ distinct_empty fun _ h x _ => h.insert x

/-- Of the variables with one name, the one inserted last is there. -/
theorem find?_ofList (xs : List Variable) (name : String) :
    (ofList xs).find? name = xs.reverse.find? (·.name == name) := by
  induction xs using List.reverseRecOn with
  | nil => rfl
  | append_singleton xs x ih =>
      have hlast : ofList (xs ++ [x]) = (ofList xs).insert x := List.foldl_append
      rw [hlast, List.reverse_concat, List.find?_cons]
      by_cases hx : x.name = name
      · simp only [hx, beq_self_eq_true]
        exact hx ▸ find?_insert_self (ofList xs) x
      · rw [find?_insert_of_ne _ hx, ih, beq_false_of_ne hx]

/-! ### What is read off a signature -/

theorem find?_name_eq_some_iff {xs : List Variable} (h : (xs.map (·.name)).Nodup) {name : String}
    {x : Variable} : xs.find? (·.name == name) = some x ↔ x ∈ xs ∧ x.name = name := by
  constructor
  · intro hx
    exact ⟨List.mem_of_find?_eq_some hx, by simpa using List.find?_some hx⟩
  · rintro ⟨hx, rfl⟩
    obtain ⟨y, hy⟩ := Option.isSome_iff_exists.mp
      (List.find?_isSome (p := (·.name == x.name)).mpr ⟨x, hx, beq_self_eq_true x.name⟩)
    have hname : y.name = x.name := by simpa using List.find?_some hy
    rw [hy, List.inj_on_of_nodup_map h (List.mem_of_find?_eq_some hy) hx hname]

theorem Distinct.mem_signature {b : Bindings} (h : b.Distinct) {name : String} {type : TypeTag} :
    (name, type) ∈ b.signature.entries ↔ b.declared? name = some type := by
  simp only [signature, List.mem_mergeSort, List.mem_map, declared?, find?, Option.map_eq_some_iff,
    find?_name_eq_some_iff h, Prod.mk.injEq, and_assoc]

theorem Distinct.nodup_signature {b : Bindings} (h : b.Distinct) :
    (b.signature.entries.map (·.1)).Nodup := by
  have hperm := (List.mergeSort_perm b.shape fun x y => decide (x.1 ≤ y.1)).map (·.1)
  refine hperm.nodup_iff.mpr ?_
  rwa [shape, List.map_map]

theorem pairwise_signature (b : Bindings) :
    b.signature.entries.Pairwise fun x y => x.1 ≤ y.1 := by
  let le (x y : String × TypeTag) : Bool := decide (x.1 ≤ y.1)
  have htrans (x y z : String × TypeTag) (hxy : le x y = true) (hyz : le y z = true) : le x z = true :=
    decide_eq_true (String.le_trans (of_decide_eq_true hxy) (of_decide_eq_true hyz))
  have htotal (x y : String × TypeTag) : (le x y || le y x) = true := by
    simpa [le] using String.le_total x.1 y.1
  exact (List.pairwise_mergeSort htrans htotal b.shape).imp of_decide_eq_true

/-- Entries in one order with no name twice are told by which of them there are. -/
theorem Distinct.signature_eq_iff {b b' : Bindings} (h : b.Distinct) (h' : b'.Distinct) :
    b.signature = b'.signature ↔ ∀ name, b.declared? name = b'.declared? name := by
  constructor
  · intro heq name
    ext type
    rw [← h.mem_signature, ← h'.mem_signature, heq]
  · intro heq
    have hmem (x : String × TypeTag) : x ∈ b.signature.entries ↔ x ∈ b'.signature.entries := by
      rw [h.mem_signature, h'.mem_signature, heq]
    have hperm : b.signature.entries.Perm b'.signature.entries :=
      (List.perm_ext_iff_of_nodup (.of_map _ h.nodup_signature) (.of_map _ h'.nodup_signature)).mpr hmem
    have hentries : b.signature.entries = b'.signature.entries := by
      refine hperm.eq_of_pairwise ?_ b.pairwise_signature b'.pairwise_signature
      intro x y hx hy hxy hyx
      exact List.inj_on_of_nodup_map h'.nodup_signature ((hmem x).mp hx) hy (String.le_antisymm hxy hyx)
    calc b.signature = ⟨b.signature.entries⟩ := rfl
      _ = ⟨b'.signature.entries⟩ := by rw [hentries]
      _ = b'.signature := rfl

theorem signature_ofList_of_perm {xs ys : List Variable} (hperm : xs.Perm ys)
    (hnames : (xs.map (·.name)).Nodup) : (ofList xs).signature = (ofList ys).signature := by
  refine ((distinct_ofList xs).signature_eq_iff (distinct_ofList ys)).mpr fun name => ?_
  have hxs : (xs.reverse.map (·.name)).Nodup := by
    rwa [List.map_reverse, List.nodup_reverse]
  have hys : (ys.reverse.map (·.name)).Nodup := by
    rwa [List.map_reverse, List.nodup_reverse, ← (hperm.map _).nodup_iff]
  have hfind : (ofList xs).find? name = (ofList ys).find? name := by
    ext x
    rw [find?_ofList, find?_ofList, find?_name_eq_some_iff hxs, find?_name_eq_some_iff hys,
      List.mem_reverse, List.mem_reverse, hperm.mem_iff]
  rw [declared?, hfind, declared?]

end Bindings

end Formula
