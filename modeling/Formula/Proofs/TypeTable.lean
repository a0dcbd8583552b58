import Formula.Proofs.Access
import Formula.Sample

/-!
Registries whose types are tables of members, or enumerations.
-/

namespace Formula

variable {H : Host}

theorem TypeDef.mem_of_member? {d : TypeDef H} {name : String} {m : Member H}
    (h : d.member? name = some m) : m ∈ d.members := by
  rw [member?] at h
  rcases Option.or_eq_some_iff.mp h with h | ⟨-, h⟩
  · exact (List.mem_filter.mp (List.mem_of_find?_eq_some h)).1
  · exact (List.mem_filter.mp (List.mem_of_head? h)).1

theorem TypeDef.mem_of_overloads? {fs gs : List (Method H)} {name : String} {f : Method H}
    (h : overloads? fs name = some gs) (hf : f ∈ gs) : f ∈ fs := by
  rw [overloads?] at h
  split at h
  · cases h
  · obtain rfl := Option.some.inj h
    exact (List.mem_filter.mp hf).1

namespace Enumeration

def constant (e : Enumeration) (variant : String) (ordinal : Nat) : Member H :=
  ⟨variant, .property, some fun _ => pure (.enum (e.value variant ordinal)), none⟩

/-- What an enumeration is apart from its variants. -/
def members (e : Enumeration) : TypeDef H :=
  (TypeDef.ofTag (.enum e.name)).computed "Name" (property fun v => .string v.variant)
    |>.computed "Ordinal" (property fun v => .int v.ordinal)
    |>.method "ToString" [] Call.receiverText

theorem typeDef_eq (e : Enumeration) :
    (e.typeDef : TypeDef H) = { e.members with
      staticMembers := (e.variants.zipIdx.map fun v => e.constant v.1 v.2).reverse } := by
  have hfold (vs : List (String × Nat)) (d : TypeDef H) :
      vs.foldl (fun d v => d.staticProperty v.1 (pure (.enum (e.value v.1 v.2)))) d =
        { d with staticMembers := (vs.map fun v => e.constant v.1 v.2).reverse ++ d.staticMembers } := by
    induction vs generalizing d with
    | nil => rfl
    | cons v vs ih =>
        rw [List.foldl_cons, ih]
        simp [TypeDef.staticProperty, TypeDef.addStatic, constant]
  exact (hfold e.variants.zipIdx e.members).trans (by
    simp [members, TypeDef.method, TypeDef.addMethod, TypeDef.computed, TypeDef.add, TypeDef.ofTag])

@[simp]
theorem tag_toHostType (e : Enumeration) : (e.toHostType : HostType H).tag = .enum e.name := by
  rw [toHostType, TypeDef.toHostType, typeDef_eq]
  rfl

@[simp]
theorem copy?_toHostType (e : Enumeration) (o : ObjectRef) :
    (e.toHostType : HostType H).copy? o = none := by
  rw [toHostType, TypeDef.toHostType, typeDef_eq]
  rfl

end Enumeration

/-- A type that is a table of members, or an enumeration. -/
inductive HostType.IsTabled : HostType H → Prop
  | typeDef (d : TypeDef H)
      (h : ∀ copy, d.copy? = some copy → ∃ T, ∃ facet : Facet H T, copy = Action.copy facet) :
      IsTabled d.toHostType
  | enumeration (e : Enumeration) : IsTabled e.toHostType

def Registry.IsTabled (r : Registry H) : Prop := ∀ t ∈ r.types, t.IsTabled

namespace Registry

variable {r : Registry H}

/-- What is true of the types of a registry and of those that are added is true of all in the end. -/
theorem forall_mem_register {P : HostType H → Prop} (hr : ∀ t ∈ r.types, P t) {t : HostType H}
    (ht : P t) : ∀ u ∈ (r.register t).types, P u := by
  intro u hu
  rcases List.mem_cons.mp hu with rfl | hu
  · exact ht
  · exact hr u (List.mem_filter.mp hu).1

theorem forall_mem_registerAll {P : HostType H → Prop} (hr : ∀ t ∈ r.types, P t)
    {ts : List (HostType H)} (hts : ∀ t ∈ ts, P t) : ∀ u ∈ (registerAll r ts).types, P u := by
  induction ts generalizing r with
  | nil => exact hr
  | cons t ts ih =>
      rw [List.forall_mem_cons] at hts
      exact ih (forall_mem_register hr hts.1) hts.2

theorem IsTabled.register (hr : r.IsTabled) {t : HostType H} (ht : t.IsTabled) :
    (r.register t).IsTabled := forall_mem_register hr ht

theorem IsTabled.registerAll (hr : r.IsTabled) {ts : List (HostType H)}
    (hts : ∀ t ∈ ts, t.IsTabled) : (registerAll r ts).IsTabled := forall_mem_registerAll hr hts

theorem isTabled_builtins : (builtins : Registry H).IsTabled := by
  refine IsTabled.registerAll (fun t ht => by simp [empty] at ht) ?_
  simp only [List.map_cons, List.map_nil, List.forall_mem_cons]
  refine ⟨?_, ?_, ?_, ?_, ?_, ?_, ?_, by simp⟩
  all_goals exact .typeDef _ fun _ hcopy => by cases hcopy

end Registry

namespace Action

/-- A copy has the type of the original. -/
theorem typeName_copy {T : Type} {facet : Facet H T} {o o' : ObjectRef} {m m' : Memory H}
    (h : copy facet o m = .ok o' m') : o'.typeName = o.typeName := by
  obtain ⟨t, m'', -, h⟩ := ok_of_run_bind h
  obtain ⟨rfl, -⟩ := EStateM.Result.ok.inj h
  rfl

end Action

namespace HostType.IsTabled

variable {t : HostType H}

theorem typeName_copy (ht : t.IsTabled) {o o' : ObjectRef} {copy : Action H ObjectRef}
    {m m' : Memory H} (hc : t.copy? o = some copy) (h : copy m = .ok o' m') :
    o'.typeName = o.typeName := by
  cases ht with
  | typeDef d hd =>
      obtain ⟨c, hc', rfl⟩ := Option.map_eq_some_iff.mp hc
      obtain ⟨T, facet, rfl⟩ := hd c hc'
      exact Action.typeName_copy h
  | enumeration e => simp at hc

theorem tag_of_variant (ht : t.IsTabled) {e : EnumValue}
    (h : (∃ variant, t.variant? variant = some e) ∨ ∃ ordinal, t.variantAt? ordinal = some e) :
    t.tag = .enum e.typeName := by
  cases ht with
  | typeDef d hd => simp [TypeDef.toHostType] at h
  | enumeration e' =>
      rw [Enumeration.tag_toHostType]
      have hvalue {n : Nat} (h : e'.valueAt? n = some e) : TypeTag.enum e'.name = .enum e.typeName := by
        obtain ⟨-, variant, -, rfl⟩ := Enumeration.valueAt?_eq_some.mp h
        rfl
      rcases h with ⟨variant, h⟩ | ⟨ordinal, h⟩
      · obtain ⟨n, -, h⟩ := Option.bind_eq_some_iff.mp h
        exact hvalue h
      · simp only [Enumeration.toHostType, Enumeration.variantAt?] at h
        split at h
        · exact hvalue h
        · cases h

end HostType.IsTabled

namespace Registry

variable {r : Registry H}

theorem find?_directory {name : String} {info : TypeInfo} (h : r.directory.find? name = some info) :
    ∃ t, r.find? name = some t ∧ t.toTypeInfo = info := Option.map_eq_some_iff.mp h

/-- A declared variant is one of the enumeration that is registered under its type's name. -/
theorem IsTabled.declares (hr : r.IsTabled) {name : String} {e : EnumValue}
    (h : r.directory.Declares name e) :
    e.typeName = name ∧ ∃ t, r.find? name = some t ∧ t.tag = .enum name := by
  obtain ⟨info, hi, he⟩ := h
  obtain ⟨t, ht, rfl⟩ := find?_directory hi
  obtain ⟨hmem, hname⟩ := mem_of_find? ht
  have htag := (hr t hmem).tag_of_variant he
  rw [htag] at hname
  obtain rfl : e.typeName = name := hname
  exact ⟨rfl, t, ht, htag⟩

/-- A loaded value is the one that is held, or an object of its type. -/
theorem IsTabled.copyOnLoad_ok (hr : r.IsTabled) {v w : Value} {m m' : Memory H}
    (h : r.copyOnLoad v m = .ok w m') :
    w = v ∨ ∃ o o', v = .object o ∧ w = .object o' ∧ o'.typeName = o.typeName := by
  rcases r.copyOnLoad_cases v with hc | ⟨o, t, copy, rfl, ht, hcopy, hc⟩
  · rw [hc] at h
    exact .inl (EStateM.Result.ok.inj h).1.symm
  · rw [hc, map_eq_pure_bind] at h
    obtain ⟨o', m'', ho, h⟩ := ok_of_run_bind h
    obtain ⟨rfl, -⟩ := EStateM.Result.ok.inj h
    exact .inr ⟨o, o', rfl, rfl, (hr t (mem_of_find? ht).1).typeName_copy hcopy ho⟩

end Registry

theorem Sample.isTabled_registry : registry.IsTabled := by
  have shared (d : TypeDef host) (h : d.copy? = none) : d.toHostType.IsTabled :=
    .typeDef d fun copy hcopy => by simp [h] at hcopy
  have copied {T : Type} (facet : Facet host T) (d : TypeDef host)
      (h : d.copy? = some (Action.copy facet)) : d.toHostType.IsTabled :=
    .typeDef d fun copy hcopy => ⟨T, facet, Option.some.inj (hcopy.symm.trans h)⟩
  apply Registry.IsTabled.registerAll
  · exact ((Registry.isTabled_builtins.register (.enumeration _)).register (.enumeration _)).register
      (.enumeration _)
  · simp only [List.map_cons, List.map_nil, List.forall_mem_cons]
    exact ⟨shared _ rfl, copied Point.facet _ rfl, copied Rect.facet _ rfl, shared _ rfl,
      shared _ rfl, shared _ rfl, shared _ rfl, by simp⟩

end Formula
