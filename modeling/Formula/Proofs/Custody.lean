import Formula.Proofs.RecordField
import Mathlib.Data.Set.Lattice

/-!
Which objects a host can get at: those that it is given, and what these and the static members hold in
turn. An object that nobody holds stays as it is.
-/

namespace Formula

open Contract

variable {H : Host} {α β : Type}

/-- No object, or one of `A`. -/
def Value.Within (A : Set Nat) (v : Value) : Prop := ∀ o, v = .object o → o.id ∈ A

namespace Value

variable {A B : Set Nat} {v : Value}

theorem Within.mono (h : v.Within A) (hAB : A ⊆ B) : v.Within B := fun o ho => hAB (h o ho)

theorem within_object {o : ObjectRef} (h : o.id ∈ A) : (Value.object o).Within A := by
  rintro _ ⟨⟩
  exact h

theorem within_of_not_object (h : v.object? = none) : v.Within A := by
  rintro o rfl
  cases h

theorem within_of_isScalar (h : v.IsScalar) : v.Within A := by
  rintro o rfl
  exact h.elim

theorem within_ofLiteral (c : Literal) : (ofLiteral c).Within A :=
  within_of_isScalar (by cases c <;> trivial)

/-- Converting a value makes no object of it. -/
theorem Within.convert {types : Directory} {m : Memory H} {w : Value} {tag : TypeTag}
    (h : v.Within A) (hw : v.convert types m tag = .ok w) : w.Within A := by
  rcases (v.convert_yields types m tag).of_ok hw with ⟨rfl, -⟩ | ⟨hscalar, -⟩ | ⟨_, _, -, rfl, -⟩
  · exact h
  · exact within_of_isScalar hscalar
  · exact within_of_not_object rfl

end Value

/-- The values that the objects of a host hold, and those that its static members keep. -/
structure Custody (H : Host) where
  object : H.Object → List Value
  state : H.State → List Value

namespace Custody

def content (K : Custody H) : Content H → List Value
  | .list items => items
  | .host object => K.object object

/-- Objects outside `A` are not held by those of `A`, by static members or by one another. Nobody else
holds the objects `X`, if all that is held elsewhere is in `A`. -/
structure Secludes (K : Custody H) (A X : Set Nat) (m : Memory H) : Prop where
  lt_size : ∀ {i}, i ∈ A ∪ X → i < m.cells.size
  disjoint : ∀ {i}, i ∈ A → i ∉ X
  content : ∀ {o : ObjectRef} {c}, o.id ∈ A ∪ X → m.get? o = some c →
    ∀ v ∈ K.content c, v.Within A
  state : ∀ v ∈ K.state m.state, v.Within A

namespace Secludes

variable {K : Custody H} {A X Y : Set Nat} {m : Memory H} {o : ObjectRef} {c : Content H}

theorem mono (h : K.Secludes A X m) (hY : Y ⊆ X) : K.Secludes A Y m where
  lt_size hi := h.lt_size (Set.union_subset_union_right A hY hi)
  disjoint hi hy := h.disjoint hi (hY hy)
  content ho := h.content (Set.union_subset_union_right A hY ho)
  state := h.state

theorem exists_content (h : K.Secludes A X m) (ho : o.id ∈ A ∪ X) : ∃ c, m.get? o = some c :=
  ⟨_, Array.getElem?_eq_getElem (h.lt_size ho)⟩

theorem set (h : K.Secludes A X m) (ho : o.id ∈ A ∪ X) (hc : ∀ v ∈ K.content c, v.Within A) :
    K.Secludes A X (m.set o c) where
  lt_size hi := by simpa [Memory.set] using h.lt_size hi
  disjoint := h.disjoint
  content {p c'} hp hget := by
    by_cases hid : o.id = p.id
    · have hself : (m.set o c).get? p = some c := by
        rw [Memory.get?, ← hid]
        exact Memory.get?_set (h.lt_size ho)
      exact Option.some.inj (hself.symm.trans hget) ▸ hc
    · rw [Memory.get?_set_of_ne hid] at hget
      exact h.content hp hget
  state := h.state

/-- What a new object holds becomes neither more nor less reachable by it. -/
theorem alloc (h : K.Secludes A X m) (hc : ∀ v ∈ K.content c, v.Within A) {A' X' : Set Nat}
    (hA : A ⊆ A') (hdisjoint : ∀ {i}, i ∈ A' → i ∉ X')
    (hnew : ∀ {i}, i ∈ A' ∪ X' → i = m.cells.size ∨ i ∈ A ∪ X) (typeName : String) :
    K.Secludes A' X' (m.alloc typeName c).2 where
  lt_size {i} hi := by
    have hsize : (m.alloc typeName c).2.cells.size = m.cells.size + 1 := by simp [Memory.alloc]
    rcases hnew hi with rfl | hi
    · omega
    · have := h.lt_size hi
      omega
  disjoint := hdisjoint
  content {p c'} hp hget v hv := by
    refine Value.Within.mono ?_ hA
    by_cases hid : p.id = m.cells.size
    · have hself : (m.alloc typeName c).2.get? p = some c := by
        rw [Memory.get?, hid]
        exact m.get?_alloc typeName c
      exact hc v (Option.some.inj (hself.symm.trans hget) ▸ hv)
    · rw [Memory.get?_alloc_of_ne hid] at hget
      exact h.content ((hnew hp).resolve_left hid) hget v hv
  state v hv := (h.state v hv).mono hA

/-- A new object that can be passed on. -/
theorem alloc_held (h : K.Secludes A X m) (hc : ∀ v ∈ K.content c, v.Within A) (typeName : String) :
    K.Secludes (insert m.cells.size A) X (m.alloc typeName c).2 := by
  refine h.alloc hc (Set.subset_insert ..) (fun {i} hi hx => ?_) (fun {i} hi => ?_) typeName
  · rcases Set.mem_insert_iff.mp hi with rfl | hi
    · exact Nat.lt_irrefl _ (h.lt_size (.inr hx))
    · exact h.disjoint hi hx
  · rwa [Set.insert_union, Set.mem_insert_iff] at hi

/-- A new object that is kept from the others. -/
theorem alloc_own (h : K.Secludes A X m) (hc : ∀ v ∈ K.content c, v.Within A) (typeName : String) :
    K.Secludes A (insert m.cells.size X) (m.alloc typeName c).2 := by
  refine h.alloc hc subset_rfl (fun {i} hi hx => ?_) (fun {i} hi => ?_) typeName
  · rcases Set.mem_insert_iff.mp hx with rfl | hx
    · exact Nat.lt_irrefl _ (h.lt_size (.inl hi))
    · exact h.disjoint hi hx
  · rwa [Set.union_insert, Set.mem_insert_iff] at hi

end Secludes

/-- All that can be got at is in `A`, apart from the objects `own`. The objects `rest`, which nobody
holds, are as they are in `m₀`. -/
def guard (K : Custody H) (own rest : Set Nat) (m₀ : Memory H) :
    Contract (Set Nat) Fault (Memory H) where
  state A m := K.Secludes A (own ∪ rest) m ∧
    ∀ o : ObjectRef, o.id ∈ rest → o.id ∉ own → m.get? o = m₀.get? o
  error _ := True

variable {K : Custody H} {own rest A : Set Nat} {m₀ : Memory H} {Q : Set Nat → α → Prop}

theorem ofExcept_keeps {x : Except Fault α} (h : ∀ a, x = .ok a → ∀ A', A ⊆ A' → Q A' a) :
    (K.guard own rest m₀).Keeps A (liftM x : Action H α) Q := by
  cases x with
  | ok a => exact .pure (h a rfl)
  | error f => exact .throw trivial

end Custody

/-- `values` are those that the contents hold. -/
structure Facet.IsHeld {T : Type} (K : Custody H) (facet : Facet H T) (values : T → List Value) :
    Prop where
  view : ∀ {c t}, facet.view? c = some t → values t ⊆ K.content c
  embed : ∀ t, K.content (facet.embed t) ⊆ values t

theorem Facet.isHeld_items (K : Custody H) : Facet.items.IsHeld K id where
  view {c t} h := by
    cases c with
    | list items =>
        obtain rfl := Option.some.inj h
        exact List.Subset.refl _
    | host => cases h
  embed _ := List.Subset.refl _

namespace Action

open Custody

variable {T : Type} {K : Custody H} {own rest A : Set Nat} {m₀ : Memory H} {facet : Facet H T}
  {values : T → List Value} {o : ObjectRef}

theorem read_error {m : Memory H} (h : (m.get? o).bind facet.view? = none) :
    ∃ f, read facet o m = .error f m := by
  have hget : (get : Action H (Memory H)) m = .ok m m := rfl
  rw [read, run_bind_of_ok hget, h]
  exact ⟨_, rfl⟩

theorem read_guards (hfacet : facet.IsHeld K values) (ho : o.id ∈ A ∪ (own ∪ rest)) :
    (K.guard own rest m₀).Keeps A (read facet o)
      fun A' t => ∀ v ∈ values t, v.Within A' := by
  intro A' hA m hm
  cases ht : (m.get? o).bind facet.view? with
  | some t =>
      obtain ⟨c, hc, hview⟩ := Option.bind_eq_some_iff.mp ht
      rw [read_ok ht]
      refine ⟨A', le_rfl, hm, fun v hv => ?_⟩
      exact hm.1.content (Set.union_subset_union_left _ hA ho) hc v (hfacet.view hview hv)
  | none =>
      obtain ⟨f, hf⟩ := read_error ht
      rw [hf]
      exact ⟨trivial, A', le_rfl, hm⟩

theorem modify_guards (hfacet : facet.IsHeld K values) {f : T → T} (ho : o.id ∈ A ∪ own)
    (hf : ∀ A' t, A ⊆ A' → (∀ v ∈ values t, v.Within A') → ∀ v ∈ values (f t), v.Within A') :
    (K.guard own rest m₀).Keeps A (modify facet o f) fun _ _ => True := by
  have ho' : o.id ∈ A ∪ (own ∪ rest) := Set.union_subset_union_right A Set.subset_union_left ho
  refine (read_guards hfacet ho').bind fun A₁ t hA ht => ?_
  intro A₂ hA₂ m hm
  refine ⟨A₂, le_rfl, ⟨?_, fun p hp hown => ?_⟩, trivial⟩
  · refine hm.1.set (Set.union_subset_union_left _ (hA.trans hA₂) ho') fun v hv => ?_
    refine hf A₂ t (hA.trans hA₂) (fun u hu => (ht u hu).mono hA₂) v ?_
    exact hfacet.embed _ hv
  · refine (Memory.get?_set_of_ne fun hid => ?_).trans (hm.2 p hp hown)
    rw [hid] at ho
    exact hm.1.disjoint (hA.trans hA₂ (ho.resolve_right hown)) (.inr hp)

theorem create_guards (hfacet : facet.IsHeld K values) {t : T} (ht : ∀ v ∈ values t, v.Within A)
    (typeName : String) :
    (K.guard own rest m₀).Keeps A (create facet typeName t) fun A' o => o.id ∈ A' := by
  intro A' hA m hm
  refine ⟨insert m.cells.size A', Set.subset_insert .., ⟨?_, fun p hp hown => ?_⟩, Set.mem_insert ..⟩
  · exact hm.1.alloc_held (fun v hv => (ht v (hfacet.embed t hv)).mono hA) typeName
  · rw [← hm.2 p hp hown]
    change (m.alloc typeName (facet.embed t)).2.get? p = m.get? p
    exact Memory.get?_alloc_of_ne (hm.1.lt_size (.inr (.inr hp))).ne

theorem copy_guards (hfacet : facet.IsHeld K values) (ho : o.id ∈ A ∪ (own ∪ rest)) :
    (K.guard own rest m₀).Keeps A (copy facet o) fun A' o' => o'.id ∈ A' :=
  (read_guards hfacet ho).bind fun _ _ _ ht => create_guards hfacet ht o.typeName

end Action

/-- Decoding and encoding get at no more than they are given. `values` are those that are held by what
is decoded. -/
structure Coding.IsConfined {F : Type} (K : Custody H) (code : Coding H F) (values : F → List Value) :
    Prop where
  decode : ∀ {A own rest m₀ v}, v.Within A → (K.guard own rest m₀).Keeps A (code.decode v)
    fun A' x => ∀ u ∈ values x, u.Within A'
  encode : ∀ {A own rest m₀ x}, (∀ u ∈ values x, u.Within A) →
    (K.guard own rest m₀).Keeps A (code.encode x) fun A' v => v.Within A'

/-- The code of a member gets at no more than it is given. Only a member that is not written to may
give away its receiver. -/
structure Member.IsConfined (K : Custody H) (m : Member H) : Prop where
  get : ∀ {get A own rest m₀ o}, m.getter? = some get → (m.isWritable = true ∨ own = ∅) →
    o.Within (A ∪ own) → (K.guard own rest m₀).Keeps A (get o) fun A' v => v.Within A'
  set : ∀ {set A own rest m₀ o v}, m.setter? = some set → o.Within (A ∪ own) → v.Within A →
    (K.guard own rest m₀).Keeps A (set o v) fun _ _ => True

/-- A body gets at no more than the receiver and the arguments. -/
def Method.IsConfined (K : Custody H) (f : Method H) : Prop :=
  ∀ {A rest m₀ c}, c.receiver.Within A → (∀ v ∈ c.args, v.Within A) →
    (K.guard ∅ rest m₀).Keeps A (f.body c) fun A' v => v.Within A'

/-- All code of the type is confined, and so is the copying of its objects. -/
structure HostType.IsConfined (K : Custody H) (t : HostType H) : Prop where
  member : ∀ {v name m}, t.HasMember v name m → m.IsConfined K
  method : ∀ {v : Value} {name fs f},
    (if v.isTypeRoot then t.staticMethods? name else t.methods? name) = some fs → f ∈ fs →
      f.IsConfined K
  copy : t.isValueType = false ∧ (∀ o, t.copy? o = none) ∨
    t.isValueType = true ∧ ∃ (T : Type) (facet : Facet H T) (values : T → List Value),
      facet.IsLawful ∧ facet.IsHeld K values ∧ ∀ o, t.copy? o = some (Action.copy facet o)

theorem HostType.IsConfined.copiesContents {K : Custody H} {t : HostType H} (h : t.IsConfined K) :
    t.CopiesContents :=
  h.copy.imp_right fun ⟨hv, T, facet, _, hfacet, _, hcopy⟩ => ⟨hv, T, facet, hfacet, hcopy⟩

def Registry.IsConfined (K : Custody H) (r : Registry H) : Prop := ∀ t ∈ r.types, t.IsConfined K

namespace Member

variable {T F : Type} {K : Custody H} {facet : Facet H T} {code : Coding H F} {values : T → List Value}
  {values' : F → List Value}

/-- A member of what the objects contain is confined. -/
theorem isConfined_of_coding (hfacet : facet.IsHeld K values) (hcode : code.IsConfined K values')
    (name : String) (kind : MemberKind) {get : T → F} (set? : Option (T → F → T))
    (hget : ∀ t, values' (get t) ⊆ values t)
    (hset : ∀ set, set? = some set → ∀ t x, values (set t x) ⊆ values t ++ values' x) :
    IsConfined K ⟨name, kind, some (getterOf facet code get), set?.map (setterOf facet code)⟩ where
  get {_ A own rest m₀ o} hg _ ho := by
    obtain rfl := Option.some.inj hg
    rw [getterOf]
    split
    · next p hp =>
      have hp' : p.id ∈ A ∪ (own ∪ rest) := by
        refine Set.union_subset_union_right A Set.subset_union_left (ho p ?_)
        cases o <;> cases hp
        rfl
      refine (Action.read_guards hfacet hp').bind fun A' t _ ht => ?_
      exact hcode.encode fun u hu => ht u (hget t hu)
    · exact .throw trivial
  set {_ A own rest m₀ o v} hs ho hv := by
    obtain ⟨set, hset?, rfl⟩ := Option.map_eq_some_iff.mp hs
    cases o with
    | object p =>
        rw [setterOf_object]
        refine (hcode.decode hv).bind fun A' x hA hx => ?_
        refine Action.modify_guards hfacet (Set.union_subset_union_left _ hA (ho p rfl)) ?_
        intro A'' t hA' ht u hu
        rcases List.mem_append.mp (hset set hset? t x hu) with hu | hu
        · exact ht u hu
        · exact (hx u hu).mono hA'
    | null | bool | int | float | string | enum | typeRoot => exact .throw trivial

end Member

end Formula
