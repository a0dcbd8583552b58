import Formula.Proofs.Custody
import Formula.Proofs.Reading

/-!
A variable that holds an object of a value type which nobody else holds. Loading it gives a copy, so
whatever goes on elsewhere leaves the object alone; an assignment to a member puts the changed copy in
its place.
-/

namespace Formula

open Contract

variable {H : Host} {α β : Type}

/-- After a store it holds the new value, or the one that it held. -/
def Slot.Settles : Slot → Prop
  | .owned _ => True
  | .backed _ keep => ∀ old new, keep old new = old ∨ keep old new = new

namespace Slot.Settles

variable {s : Slot}

theorem get_set (h : s.Settles) (v : Value) : (s.set v).get = s.get ∨ (s.set v).get = v := by
  cases s with
  | owned => exact .inr rfl
  | backed old keep => exact h old v

theorem set (h : s.Settles) (v : Value) : (s.set v).Settles := by
  cases s with
  | owned => trivial
  | backed => exact h

end Slot.Settles

namespace Custody

/-- While the variables are as they are in `b`. -/
def during (K : Custody H) (own rest : Set Nat) (m₀ : Memory H) (b : Bindings) :
    Contract (Set Nat) EvalError (World H) where
  state A w := (K.guard own rest m₀).state A w.memory ∧ w.bindings = b
  error _ := True

section

variable {K : Custody H} {r : Registry H} {own rest A : Set Nat} {m₀ : Memory H} {b : Bindings}
  {Q : Set Nat → α → Prop} {o v : Value} {name : String}

theorem liftAction_keeps {x : Action H α} (h : (K.guard own rest m₀).Keeps A x Q) :
    (K.during own rest m₀ b).Keeps A (liftM x : Eval H α) Q := by
  refine .ofAction fun b' A' hA m hm => ?_
  have hx := h A' hA m hm.1
  cases hr : x m with
  | ok a m' =>
      rw [hr] at hx
      obtain ⟨A'', hA', hm', ha⟩ := hx
      exact ⟨A'', hA', ⟨hm', hm.2⟩, ha⟩
  | error f m' =>
      rw [hr] at hx
      obtain ⟨-, A'', hA', hm'⟩ := hx
      exact ⟨trivial, A'', hA', hm', hm.2⟩

theorem liftExcept_keeps {x : Except Fault α} (h : ∀ a, x = .ok a → ∀ A', A ⊆ A' → Q A' a) :
    (K.during own rest m₀ b).Keeps A (liftM x : Eval H α) Q :=
  .ofExcept h fun _ _ => trivial

theorem fail_keeps {f : Fault} : (K.during own rest m₀ b).Keeps A (Eval.fail f : Eval H α) Q :=
  .throw trivial

theorem findMember_keeps (o : Value) (name : String) :
    (K.during own rest m₀ b).Keeps A
      (liftM (Eval.findMember r o name) : Eval H (HostType H × Member H))
      fun _ (t, m) => Eval.findMember r o name = .ok (t, m) :=
  liftExcept_keeps fun _ h _ _ => h

theorem checkAllowed_keeps (v : Value) :
    (K.during own rest m₀ b).Keeps A (liftM (r.directory.checkAllowed v) : Eval H Unit)
      fun _ _ => True :=
  liftExcept_keeps fun _ _ _ _ => trivial

theorem checkReceiver_keeps (o : Value) (name : String) :
    (K.during own rest m₀ b).Keeps A (Eval.checkReceiver o name) fun _ _ => True := by
  rw [Eval.checkReceiver]
  split
  · exact fail_keeps
  · exact .pure fun _ _ => trivial

variable (hr : r.IsConfined K)

include hr

theorem isConfined_of_findMember {t : HostType H} {m : Member H}
    (hm : Eval.findMember r o name = .ok (t, m)) : m.IsConfined K := by
  obtain ⟨ht, hm⟩ := Eval.findMember_eq_ok hm
  exact (hr t (Registry.mem_of_find? ht).1).member hm

theorem copyOnLoad_keeps
    (hv : v.Within A ∨ r.directory.holdsValueType v = true ∧ v.Within (A ∪ (own ∪ rest))) :
    (K.guard own rest m₀).Keeps A (r.copyOnLoad v) fun A' y => y.Within A' := by
  cases v with
  | object o =>
      rw [Registry.copyOnLoad]
      cases hf : (r.find? o.typeName).bind (·.copy? o) with
      | some copy =>
          obtain ⟨t, ht, hcopy⟩ := Option.bind_eq_some_iff.mp hf
          rcases (hr t (Registry.mem_of_find? ht).1).copy with
            ⟨-, hnone⟩ | ⟨-, T, facet, values, -, hfacet, hcopy'⟩
          · rw [hnone] at hcopy
            cases hcopy
          · obtain rfl := Option.some.inj (hcopy.symm.trans (hcopy' o))
            have ho : o.id ∈ A ∪ (own ∪ rest) :=
              hv.elim (fun h => .inl (h o rfl)) fun h => h.2 o rfl
            exact (Action.copy_guards hfacet ho).bind fun A' o' _ ho' =>
              .pure fun _ hA => Value.within_object (hA ho')
      | none =>
          refine .pure fun _ hA => (hv.resolve_right fun h => ?_).mono hA
          obtain ⟨t, ht, hvalue⟩ : ∃ t, r.find? o.typeName = some t ∧ t.isValueType = true := by
            have h' := h.1
            rw [Registry.holdsValueType_object] at h'
            cases ht : r.find? o.typeName with
            | none => simp [ht] at h'
            | some t => exact ⟨t, rfl, by simpa [ht] using h'⟩
          rcases (hr t (Registry.mem_of_find? ht).1).copy with
            ⟨hshared, -⟩ | ⟨-, T, facet, values, -, -, hcopy⟩
          · simp [hshared] at hvalue
          · simp [ht, hcopy] at hf
  | null | bool | int | float | string | enum | typeRoot =>
      exact .pure fun _ _ => Value.within_of_not_object rfl

/-- What a variable holds is given away, or it is copied. -/
theorem load_keeps
    (hb : ∀ x, b.find? name = some x → x.get.Within A ∨
      r.directory.holdsValueType x.get = true ∧ x.get.Within (own ∪ rest)) :
    (K.during own rest m₀ b).Keeps A (Eval.load r name) fun A' v => v.Within A' := by
  refine .load (fun _ _ => trivial) fun A' w x hA hw hx _ => liftAction_keeps ?_
  refine copyOnLoad_keeps hr ?_
  rw [hw.2] at hx
  exact (hb x hx).imp (·.mono hA) fun h => ⟨h.1, h.2.mono Set.subset_union_right⟩

theorem get_keeps {t : HostType H} {m : Member H} (hm : Eval.findMember r o name = .ok (t, m))
    (hown : m.isWritable = true ∨ own = ∅) (ho : o.Within (A ∪ own)) :
    (K.during own rest m₀ b).Keeps A (liftM (m.get o t.tag.name) : Eval H Value)
      fun A' v => v.Within A' := by
  rw [Member.get.eq_def]
  split
  · next get hg => exact liftAction_keeps ((isConfined_of_findMember hr hm).get hg hown ho)
  · exact fail_keeps

theorem set_keeps {t : HostType H} {m : Member H} (hm : Eval.findMember r o name = .ok (t, m))
    (ho : o.Within (A ∪ own)) (hv : v.Within A) :
    (K.during own rest m₀ b).Keeps A (liftM (m.set o v t.tag.name) : Eval H Unit)
      fun _ _ => True := by
  rw [Member.set.eq_def]
  split
  · next set hs => exact liftAction_keeps ((isConfined_of_findMember hr hm).set hs ho hv)
  · exact fail_keeps

theorem readMember_keeps (ho : o.Within A) :
    (K.during ∅ rest m₀ b).Keeps A (Eval.readMember r o name) fun A' v => v.Within A' :=
  (findMember_keeps o name).bind fun _ _ hA hm =>
    get_keeps hr hm (.inr rfl) (ho.mono (hA.trans Set.subset_union_left))

/-- An object that nobody else holds can be written to and stays so. -/
theorem writeMember_keeps (ho : o.Within (A ∪ own)) (hv : v.Within A) :
    (K.during own rest m₀ b).Keeps A (Eval.writeMember r o name v) fun _ _ => True :=
  (findMember_keeps o name).bind fun _ _ hA hm =>
    set_keeps hr hm (ho.mono (Set.union_subset_union_left own hA)) (hv.mono hA)

theorem updateMember_keeps (ho : o.Within (A ∪ own)) (hv : v.Within A) :
    (K.during own rest m₀ b).Keeps A (Eval.updateMember r o name v) fun A' v => v.Within A' := by
  refine (findMember_keeps o name).bind fun A₁ (t, m) hA₁ hm => ?_
  have hmono {A' : Set Nat} (hA : A ⊆ A') : o.Within (A' ∪ own) :=
    ho.mono (Set.union_subset_union_left own hA)
  have store (A₂ : Set Nat) (hA₂ : A ⊆ A₂) (new : Value) (hnew : new.Within A₂) :
      (K.during own rest m₀ b).Keeps A₂ (do
        r.directory.checkAllowed new
        m.set o new t.tag.name
        return new : Eval H Value) fun A' v => v.Within A' := by
    refine (checkAllowed_keeps new).bind fun A₃ _ hA₃ _ => ?_
    refine (set_keeps hr hm (hmono (hA₂.trans hA₃)) (hnew.mono hA₃)).bind fun A₄ _ hA₄ _ => ?_
    exact .pure fun _ hA₅ => hnew.mono (hA₃.trans (hA₄.trans hA₅))
  dsimp only
  split
  · exact (fail_keeps (Q := fun _ _ => False)).bind fun _ _ _ h => h.elim
  · next hwritable =>
    split
    · have hown : m.isWritable = true ∨ own = ∅ := .inl (by simpa using hwritable)
      refine (get_keeps hr hm hown (hmono hA₁)).bind fun A₂ current hA₂ _ => ?_
      refine Keeps.get.bind fun A₃ w hA₃ _ => ?_
      refine (liftExcept_keeps (Q := fun A' v => v.Within A') fun new hnew A₄ hA₄ => ?_).bind
        fun A₄ new hA₄ hnew => store A₄ (hA₁.trans (hA₂.trans (hA₃.trans hA₄))) new hnew
      exact (hv.convert hnew).mono (hA₁.trans (hA₂.trans (hA₃.trans hA₄)))
    · exact store A₁ hA₁ v (hv.mono hA₁)

theorem access_keeps (ho : o.Within A) :
    (K.during ∅ rest m₀ b).Keeps A (Eval.access r o name) fun A' v => v.Within A' := by
  refine (checkReceiver_keeps o name).bind fun A₁ _ hA₁ _ => ?_
  refine (readMember_keeps hr (ho.mono hA₁)).bind fun A₂ v _ hv => ?_
  refine (checkAllowed_keeps v).bind fun A₃ _ hA₃ _ => ?_
  exact .pure fun _ hA₄ => hv.mono (hA₃.trans hA₄)

theorem invoke_keeps {typeArgs : List TypeTag} {args : List Value} (ho : o.Within A)
    (hargs : ∀ v ∈ args, v.Within A) :
    (K.during ∅ rest m₀ b).Keeps A (Eval.invoke r o name typeArgs args) fun A' v => v.Within A' := by
  refine (liftExcept_keeps (Q := fun _ t => r.typeOf o = .ok t) fun _ h _ _ => h).bind
    fun A₁ t hA₁ ht => ?_
  refine (liftExcept_keeps fun _ h _ _ => (Method.select_yields ..).of_ok h).bind
    fun A₂ (f, ws) hA₂ hselect => ?_
  obtain ⟨⟨fs, hfs, hf⟩, hfits⟩ := hselect
  have hA := hA₁.trans hA₂
  have hws (w : Value) (hw : w ∈ ws) : w.Within A₂ := by
    rcases hfits.2.mem hw with hw | ⟨_, _, rfl, -⟩
    · exact (hargs w hw).mono hA
    · exact Value.within_of_not_object rfl
  have ht' := Registry.mem_of_find? (Registry.find?_of_typeOf ht)
  refine (liftAction_keeps ((hr t ht'.1).method hfs hf (ho.mono hA) hws)).bind fun A₃ v hA₃ hv => ?_
  refine (checkAllowed_keeps _).bind fun A₄ _ hA₄ _ => ?_
  refine .pure fun _ hA₅ => ?_
  split
  · exact ho.mono (hA.trans (hA₃.trans (hA₄.trans hA₅)))
  · exact hv.mono (hA₄.trans hA₅)

end

/-- The variable `x` holds an object of a value type. Nobody else can get at it: all that others hold is
in `A`. -/
structure Isolated (K : Custody H) (r : Registry H) (x : String) (A : Set Nat) (z : Variable)
    (o : ObjectRef) (c : Content H) (w : World H) : Prop where
  found : w.bindings.find? x = some z
  holds : z.get = .object o
  isValue : r.directory.holdsValueType (.object o) = true
  get? : w.memory.get? o = some c
  secludes : K.Secludes A {o.id} w.memory
  others : ∀ y ∈ w.bindings.vars, y.name ≠ x → y.get.Within A
  settles : ∀ y ∈ w.bindings.vars, y.slot.Settles

/-- The variable `x` and the contents of its object are such that `S` holds, and nobody else can get at
the object. -/
def ward (K : Custody H) (r : Registry H) (x : String) (S : Variable → Content H → Prop) :
    Contract (Set Nat) EvalError (World H) where
  state A w := ∃ z o c, S z c ∧ K.Isolated r x A z o c w
  error _ := True

variable {K : Custody H} {r : Registry H} {x name : String} {A : Set Nat} {z : Variable}
  {o k : ObjectRef} {c : Content H} {w : World H} {v : Value} {S : Variable → Content H → Prop}
  {Q : Set Nat → α → Prop}

theorem Isolated.mem_of_find? {b : Bindings} {y : Variable} (h : b.find? name = some y) :
    y ∈ b.vars ∧ y.name = name :=
  ⟨List.mem_of_find?_eq_some h, by simpa using List.find?_some h⟩

namespace Isolated

variable (hw : K.Isolated r x A z o c w)

include hw

/-- The variables are as they were, and so is the object of `x`. -/
theorem of_during {own A' : Set Nat} {m₀ : Memory H} {w' : World H} (hown : o.id ∉ own)
    (hc : m₀.get? o = some c) (hA : A ⊆ A')
    (hw' : (K.during own {o.id} m₀ w.bindings).state A' w') : K.Isolated r x A' z o c w' := by
  obtain ⟨⟨hsecludes, hkept⟩, hb⟩ := hw'
  refine ⟨?_, hw.holds, hw.isValue, ?_, hsecludes.mono Set.subset_union_right, ?_, ?_⟩
  · rw [hb, hw.found]
  · rw [hkept o rfl hown, hc]
  · rw [hb]
    exact fun y hy hne => (hw.others y hy hne).mono hA
  · rw [hb]
    exact hw.settles

/-- What leaves the variables alone and gets at no more than it is given leaves `x` and its object
alone. -/
theorem meets {y : Eval H α} (hS : S z c)
    (h : (K.during ∅ {o.id} w.memory w.bindings).Keeps A y Q) : (K.ward r x S).Meets Q A (y w) := by
  have hstate {A' : Set Nat} {w' : World H} (hA : A ⊆ A')
      (hw' : (K.during ∅ {o.id} w.memory w.bindings).state A' w') : (K.ward r x S).state A' w' :=
    ⟨z, o, c, hS, hw.of_during (Set.notMem_empty _) hw.get? hA hw'⟩
  have hsecludes : K.Secludes A (∅ ∪ {o.id}) w.memory := by
    rw [Set.empty_union]
    exact hw.secludes
  have hy := h A le_rfl w ⟨⟨hsecludes, fun _ _ _ => rfl⟩, rfl⟩
  cases hrun : y w with
  | ok a w' =>
      rw [hrun] at hy
      obtain ⟨A', hA, hw', ha⟩ := hy
      exact ⟨A', hA, hstate hA hw', ha⟩
  | error e w' =>
      rw [hrun] at hy
      obtain ⟨-, A', hA, hw'⟩ := hy
      exact ⟨trivial, A', hA, hstate hA hw'⟩

theorem within_or_copied {y : Variable} (hy : w.bindings.find? name = some y) :
    y.get.Within A ∨ r.directory.holdsValueType y.get = true ∧ y.get.Within (∅ ∪ {o.id}) := by
  obtain ⟨hmem, rfl⟩ := mem_of_find? hy
  by_cases hname : y.name = x
  · rw [hname, hw.found] at hy
    obtain rfl := Option.some.inj hy
    rw [hw.holds]
    exact .inr ⟨hw.isValue, Value.within_object (.inr rfl)⟩
  · exact .inl (hw.others y hmem hname)

theorem load_meets (hr : r.IsConfined K) (hS : S z c) (name : String) :
    (K.ward r x S).Meets (fun A' v => v.Within A') A (Eval.load r name w) :=
  hw.meets hS (load_keeps hr fun _ => hw.within_or_copied)

theorem others_store (hv : name ≠ x → v.Within A) :
    ∀ y ∈ (w.bindings.store name v).vars, y.name ≠ x → y.get.Within A := by
  intro y hy hne
  obtain ⟨y', hmem, rfl⟩ := List.mem_map.mp hy
  split at hne
  · next hname =>
    simp only [hname, if_true]
    rcases (hw.settles y' hmem).get_set v with h | h
    · rw [Variable.get, Variable.set, h]
      exact hw.others y' hmem hne
    · rw [Variable.get, Variable.set, h]
      exact hv (hname ▸ hne)
  · next hname =>
    simp only [hname, if_false]
    exact hw.others y' hmem hne

theorem settles_store (name : String) (v : Value) :
    ∀ y ∈ (w.bindings.store name v).vars, y.slot.Settles := by
  intro y hy
  obtain ⟨y', hmem, rfl⟩ := List.mem_map.mp hy
  split
  · exact (hw.settles y' hmem).set v
  · exact hw.settles y' hmem

theorem store (hname : name ≠ x) (hv : v.Within A) :
    K.Isolated r x A z o c { w with bindings := w.bindings.store name v } :=
  ⟨(Bindings.find?_store_of_ne _ _ hname).trans hw.found, hw.holds, hw.isValue, hw.get?,
    hw.secludes, hw.others_store fun _ => hv, hw.settles_store name v⟩

/-- The copy that is loaded from `x` is an object of its own, which nobody else holds yet. -/
theorem load_own (hr : r.IsConfined K) :
    (∃ e, Eval.load r x w = .error e w) ∨
      ∃ (k : ObjectRef) (m : Memory H), k.typeName = o.typeName ∧ o.id ≠ k.id ∧
        Eval.load r x w = .ok (.object k) { w with memory := m } ∧
        K.Secludes A ({k.id} ∪ {o.id}) m ∧ m.get? o = some c := by
  obtain ⟨T, facet, hfacet, hcopy⟩ :=
    Registry.copyOnLoad_of_valueType (fun t ht => (hr t ht).copiesContents) hw.isValue
  have hadmits : r.directory.Admits z.get := by
    rw [hw.holds]
    exact Registry.admits_of_holdsValueType hw.isValue
  cases ht : (w.memory.get? o).bind facet.view? with
  | some t =>
      obtain ⟨c', hc, hview⟩ := Option.bind_eq_some_iff.mp ht
      obtain rfl := Option.some.inj (hw.get?.symm.trans hc)
      have hsize : o.id < w.memory.cells.size := hw.secludes.lt_size (.inr rfl)
      refine .inr ⟨(w.memory.alloc o.typeName c).1, (w.memory.alloc o.typeName c).2, rfl, hsize.ne,
        Eval.load_ok hw.found hadmits ?_, ?_, (Memory.get?_alloc_of_ne hsize.ne).trans hw.get?⟩
      · rw [hw.holds, hcopy o rfl, map_eq_pure_bind, Action.copy, bind_assoc,
          run_bind_of_ok (Action.read_ok ht), ← hfacet.embed_view hview]
        rfl
      · exact hw.secludes.alloc_own (hw.secludes.content (.inr rfl) hw.get?) o.typeName
  | none =>
      obtain ⟨f, hread⟩ := Action.read_error ht
      have hcopy' : r.copyOnLoad z.get w.memory = .error f w.memory := by
        rw [hw.holds, hcopy o rfl, map_eq_pure_bind, Action.copy, bind_assoc,
          run_bind_of_error hread]
      refine .inl ⟨.of f, ?_⟩
      rw [Eval.load, run_bind_of_ok (Eval.lookup_of_find? hw.found), hadmits, Eval.liftM_ok, pure_bind]
      change Eval.ofAction (r.copyOnLoad z.get) w = _
      rw [Eval.ofAction, hcopy']

theorem isValue_of_typeName (hk : k.typeName = o.typeName) :
    r.directory.holdsValueType (.object k) = true := by
  rw [Registry.holdsValueType_object, hk, ← Registry.holdsValueType_object, hw.isValue]

/-- A copy that nobody else holds takes the place of the object, unless the host that keeps `x` goes on
with the old one. -/
theorem store_own (hk : k.typeName = o.typeName) (hsecludes : K.Secludes A ({k.id} ∪ {o.id}) w.memory) :
    ∃ z' o' c', K.Isolated r x A z' o' c'
      { w with bindings := w.bindings.store x (.object k) } := by
  have hfound : (w.bindings.store x (.object k)).find? x = some (z.set (.object k)) := by
    rw [Bindings.find?_store_self, hw.found]
    rfl
  have hothers : ∀ y ∈ (w.bindings.store x (.object k)).vars, y.name ≠ x → y.get.Within A :=
    hw.others_store (absurd rfl)
  have hsettles := hw.settles_store x (.object k)
  rcases (hw.settles z (mem_of_find? hw.found).1).get_set (.object k) with h | h
  · exact ⟨_, o, c, hfound, h.trans hw.holds, hw.isValue, hw.get?, hw.secludes, hothers, hsettles⟩
  · obtain ⟨c', hc'⟩ := hsecludes.exists_content (.inr (.inl rfl))
    exact ⟨_, k, c', hfound, h, hw.isValue_of_typeName hk, hc', hsecludes.mono Set.subset_union_left,
      hothers, hsettles⟩

theorem writeBack_own (hk : k.typeName = o.typeName) :
    (Place.var x).writeBack r (.object k) w =
      .ok () { w with bindings := w.bindings.store x (.object k) } := by
  rw [Place.writeBack, if_pos (hw.isValue_of_typeName hk),
    run_bind_of_ok (Eval.lookup_of_find? hw.found)]
  rfl

/-- A member of `x` is written to in a copy that nobody else holds, and this copy is stored in `x`. -/
theorem replace_meets (hr : r.IsConfined K) (hS : ∀ z c, S z c) {y : Value → Eval H α}
    (hy : ∀ (k : ObjectRef) rest m₀ b, (K.during {k.id} rest m₀ b).Keeps A (y (.object k)) Q) :
    (K.ward r x S).Meets Q A ((do
      let q ← Eval.load r x
      let a ← y q
      (Place.var x).writeBack r q
      return a : Eval H α) w) := by
  rcases hw.load_own hr with ⟨e, he⟩ | ⟨k, m, hk, hne, hload, hsecludes, hc⟩
  · rw [run_bind_of_error he]
    exact ⟨trivial, A, le_rfl, z, o, c, hS z c, hw⟩
  · have hy' := hy k {o.id} m w.bindings A le_rfl { w with memory := m }
      ⟨⟨hsecludes, fun _ _ _ => rfl⟩, rfl⟩
    rw [run_bind_of_ok hload]
    cases hrun : y (.object k) { w with memory := m } with
    | ok a w' =>
        rw [hrun] at hy'
        obtain ⟨A', hA, hw', ha⟩ := hy'
        have hisolated : K.Isolated r x A' z o c w' := hw.of_during hne hc hA hw'
        obtain ⟨z', o', c', hstored⟩ := hisolated.store_own hk hw'.1.1
        rw [run_bind_of_ok hrun, run_bind_of_ok (hisolated.writeBack_own hk)]
        exact ⟨A', hA, ⟨z', o', c', hS z' c', hstored⟩, ha⟩
    | error e w' =>
        rw [hrun] at hy'
        obtain ⟨-, A', hA, hw'⟩ := hy'
        rw [run_bind_of_error hrun]
        exact ⟨trivial, A', hA, z, o, c, hS z c, hw.of_during hne hc hA hw'⟩

end Isolated

theorem updateVariable_keeps (hname : name ≠ x) (hv : v.Within A) :
    (K.ward r x S).Keeps A (Eval.updateVariable r name v) fun A' v => v.Within A' := by
  refine .updateVariable (fun _ _ => trivial) fun A' w y new hA hw _ hnew => ?_
  obtain ⟨z, o, c, hS, hw⟩ := hw
  have hnew' := (hv.convert hnew).mono hA
  exact ⟨⟨z, o, c, hS, hw.store hname hnew'⟩, hnew'⟩

theorem store_keeps (hname : name ≠ x) (hv : v.Within A) :
    (K.ward r x S).Keeps A (do let _ ← Eval.lookup name; Eval.store name v : Eval H Unit)
      fun _ _ => True := by
  refine .store (fun _ _ => trivial) fun A' w y hA hw _ => ?_
  obtain ⟨z, o, c, hS, hw⟩ := hw
  exact ⟨z, o, c, hS, hw.store hname (hv.mono hA)⟩

end Custody

end Formula
