import Formula.Proofs.BuiltinTypes
import Formula.Proofs.NestedUpdate
import Formula.Proofs.Custody

/-!
Types that are put together member by member are confined if each of their members and methods is. So
are lists, and the types of a scene.
-/

namespace Formula

open Contract Custody

variable {H : Host}

/-- All code of a type is confined, and its objects are shared or copied with their contents. -/
structure TypeDef.IsConfined (K : Custody H) (d : TypeDef H) : Prop where
  members : ∀ m ∈ d.members, m.IsConfined K
  methods : ∀ f ∈ d.methods, f.IsConfined K
  staticMembers : ∀ m ∈ d.staticMembers, m.IsConfined K
  staticMethods : ∀ f ∈ d.staticMethods, f.IsConfined K
  copy : d.copy? = none ∨ ∃ (T : Type) (facet : Facet H T) (values : T → List Value),
    facet.IsLawful ∧ facet.IsHeld K values ∧ d.copy? = some (Action.copy facet)

namespace TypeDef.IsConfined

variable {K : Custody H} {d : TypeDef H} {name : String} {params : List ParamType} {T F : Type}
  {facet : Facet H T} {values : T → List Value} {code : Coding H F} {values' : F → List Value}

theorem toHostType (h : d.IsConfined K) : d.toHostType.IsConfined K where
  member {v name m} hm := by
    rw [HostType.HasMember] at hm
    split at hm
    · exact h.staticMembers m (List.mem_of_find?_eq_some hm)
    · exact h.members m (TypeDef.mem_of_member? hm)
  method {v name fs f} hfs hf := by
    split at hfs
    · exact h.staticMethods f (TypeDef.mem_of_overloads? hfs hf)
    · exact h.methods f (TypeDef.mem_of_overloads? hfs hf)
  copy := by
    rcases h.copy with hcopy | ⟨T, facet, values, hfacet, hheld, hcopy⟩
    · simp [TypeDef.toHostType, hcopy]
    · exact .inr ⟨by simp [TypeDef.toHostType, hcopy], T, facet, values, hfacet, hheld,
        by simp [TypeDef.toHostType, hcopy]⟩

theorem ofTag (tag : TypeTag) : (TypeDef.ofTag tag : TypeDef H).IsConfined K :=
  ⟨by simp [TypeDef.ofTag], by simp [TypeDef.ofTag], by simp [TypeDef.ofTag],
    by simp [TypeDef.ofTag], .inl rfl⟩

theorem valueType (hfacet : facet.IsLawful) (hheld : facet.IsHeld K values) (name : String) :
    (TypeDef.valueType facet name).IsConfined K :=
  { ofTag (.object name) with copy := .inr ⟨T, facet, values, hfacet, hheld, rfl⟩ }

theorem add {m : Member H} (hm : m.IsConfined K) (h : d.IsConfined K) : (d.add m).IsConfined K :=
  { h with members := List.forall_mem_cons.mpr ⟨hm, h.members⟩ }

/-- A member that is read and written, a field or not. -/
theorem addReadWrite {kind : MemberKind} {get : T → F} {set : T → F → T}
    (hfacet : facet.IsHeld K values) (hcode : code.IsConfined K values')
    (hget : ∀ t, values' (get t) ⊆ values t)
    (hset : ∀ t x, values (set t x) ⊆ values t ++ values' x) (h : d.IsConfined K) :
    (d.add ⟨name, kind, some (Member.getterOf facet code get),
      some (Member.setterOf facet code set)⟩).IsConfined K :=
  h.add (Member.isConfined_of_coding hfacet hcode name kind (some set) hget
    fun _ hs => Option.some.inj hs ▸ hset)

theorem property {get : T → F} (hfacet : facet.IsHeld K values) (hcode : code.IsConfined K values')
    (hget : ∀ t, values' (get t) ⊆ values t) (h : d.IsConfined K) :
    (d.property facet code name get).IsConfined K :=
  h.add (Member.isConfined_of_coding hfacet hcode name .property none hget nofun)

theorem addMethod {f : Method H} (hf : f.IsConfined K) (h : d.IsConfined K) :
    (d.addMethod f).IsConfined K :=
  { h with methods := List.forall_mem_append.mpr ⟨h.methods, List.forall_mem_singleton.mpr hf⟩ }

theorem voidMethod {body : Call → Action H Unit}
    (hbody : ∀ {A rest m₀ c}, c.receiver.Within A → (∀ v ∈ c.args, v.Within A) →
      (K.guard ∅ rest m₀).Keeps A (body c) fun _ _ => True)
    (h : d.IsConfined K) : (d.voidMethod name params body).IsConfined K :=
  h.addMethod fun hc hargs => (hbody hc hargs).bind fun _ _ _ _ =>
    .pure fun _ _ => Value.within_of_not_object rfl

theorem staticProperty {get : Action H Value}
    (hget : ∀ {A own rest m₀}, (K.guard own rest m₀).Keeps A get fun A' v => v.Within A')
    (h : d.IsConfined K) : (d.staticProperty name get).IsConfined K := by
  have hm : Member.IsConfined K ⟨name, .property, some fun _ => get, none⟩ :=
    ⟨fun hg _ _ => Option.some.inj hg ▸ hget, nofun⟩
  exact { h with staticMembers := List.forall_mem_cons.mpr ⟨hm, h.staticMembers⟩ }

theorem staticMethod {body : Call → Action H Value}
    (hbody : Method.IsConfined K ⟨name, params, 0, false, body⟩) (h : d.IsConfined K) :
    (d.staticMethod name params body).IsConfined K :=
  { h with staticMethods :=
    List.forall_mem_append.mpr ⟨h.staticMethods, List.forall_mem_singleton.mpr hbody⟩ }

end TypeDef.IsConfined

section

variable {K : Custody H} {own rest A : Set Nat} {m₀ : Memory H} {α : Type} {c : Call}

/-- What has no object in it. -/
theorem Custody.scalar_keeps {v : Value} (hv : v.IsScalar) :
    (K.guard own rest m₀).Keeps A (pure v : Action H Value) fun A' v => v.Within A' :=
  .pure fun _ _ => Value.within_of_isScalar hv

theorem Custody.any_keeps (x : Except Fault α) :
    (K.guard own rest m₀).Keeps A (liftM x : Action H α) fun _ _ => True :=
  ofExcept_keeps fun _ _ _ _ => trivial

namespace Call

theorem within_of_arg {i : Nat} {v : Value} (hargs : ∀ v ∈ c.args, v.Within A)
    (h : c.arg i = .ok v) : v.Within A := by
  rw [arg, expect.eq_def] at h
  split at h
  · next u hu =>
    obtain rfl := Except.ok.inj h
    exact hargs u (List.mem_of_getElem? hu)
  · cases h

theorem arg_guards (hargs : ∀ v ∈ c.args, v.Within A) (i : Nat) :
    (K.guard own rest m₀).Keeps A (liftM (c.arg i) : Action H Value) fun A' v => v.Within A' :=
  ofExcept_keeps fun _ hv _ hA => (within_of_arg hargs hv).mono hA

theorem receiverObject_guards (hc : c.receiver.Within A) :
    (K.guard own rest m₀).Keeps A (liftM c.receiverObject : Action H ObjectRef)
      fun A' o => o.id ∈ A' := by
  refine ofExcept_keeps fun o ho A' hA => hA (hc o ?_)
  rw [receiverObject, expect.eq_def] at ho
  split at ho
  · next p hp =>
    obtain rfl := Except.ok.inj ho
    cases hv : c.receiver <;> rw [hv] at hp <;> cases hp
    rfl
  · cases ho

end Call

namespace Coding

theorem isConfined_checked {F : Type} (typeName : String) (view? : Value → Option F)
    {encode : F → Value} (h : ∀ x, (encode x).IsScalar) :
    (checked typeName view? encode : Coding H F).IsConfined K fun _ => [] where
  decode {_ _ _ _ v} _ := by
    cases hx : view? v with
    | some x =>
        simp only [checked, hx]
        exact .pure fun _ _ => List.forall_mem_nil _
    | none =>
        simp only [checked, hx]
        exact Keeps.get.bind fun _ _ _ _ => .throw trivial
  encode _ := scalar_keeps (h _)

theorem isConfined_int : (int : Coding H Int64).IsConfined K fun _ => [] :=
  isConfined_checked "int" Value.int? fun _ => trivial

theorem isConfined_float : (float : Coding H Number.Double).IsConfined K fun _ => [] :=
  isConfined_checked "float" Value.float? fun _ => trivial

theorem isConfined_string : (string : Coding H String).IsConfined K fun _ => [] :=
  isConfined_checked "string" Value.string? fun _ => trivial

theorem isConfined_any : (any : Coding H Value).IsConfined K fun v => [v] where
  decode hv := .pure fun _ hA => List.forall_mem_singleton.mpr (hv.mono hA)
  encode hv := .pure fun _ hA => (hv _ (List.mem_singleton_self _)).mono hA

end Coding

namespace Builtin.Sequence

/-- A computation on the items of a list that gets at no more than the items. -/
theorem change_guards {f : List Value → Except Fault (α × List Value)} (hc : c.receiver.Within A)
    (hf : ∀ items A', A ⊆ A' → (∀ v ∈ items, v.Within A') →
      Yields (f items) fun p => ∀ v ∈ p.2, v.Within A') :
    (K.guard ∅ rest m₀).Keeps A (change c f : Action H α) fun _ _ => True := by
  have hheld := Facet.isHeld_items K
  refine (Call.receiverObject_guards hc).bind fun A₁ o hA₁ ho => ?_
  refine (Action.read_guards hheld (.inl ho)).bind fun A₂ items hA₂ hitems => ?_
  refine (ofExcept_keeps (Q := fun A' p => ∀ v ∈ p.2, v.Within A') fun p hp A₃ hA₃ v hv =>
    ((hf items A₂ (hA₁.trans hA₂) hitems).of_ok hp v hv).mono hA₃).bind fun A₃ p hA₃ hp => ?_
  refine (Action.modify_guards hheld (.inl (hA₃ (hA₂ ho))) fun A₄ _ hA₄ _ v hv => ?_).bind
    fun _ _ _ _ => .pure fun _ _ => trivial
  exact (hp v hv).mono hA₄

theorem items_guards (hc : c.receiver.Within A) :
    (K.guard own rest m₀).Keeps A (items c : Action H (List Value))
      fun A' items => ∀ v ∈ items, v.Within A' :=
  (Call.receiverObject_guards hc).bind fun _ _ _ ho =>
    Action.read_guards (Facet.isHeld_items K) (.inl ho)

theorem isConfined_mutator {d : TypeDef H} {name : String} {params : List ParamType}
    {f : Call → Except Fault (List Value → Except Fault (List Value))}
    (hf : ∀ {A c g}, (∀ v ∈ c.args, v.Within A) → f c = .ok g →
      ∀ items, (∀ v ∈ items, v.Within A) → Yields (g items) fun new => ∀ v ∈ new, v.Within A)
    (h : d.IsConfined K) : (mutator d name params f).IsConfined K := by
  refine .voidMethod (fun {A _ _ c} hc hargs => ?_) h
  refine (ofExcept_keeps (Q := fun _ g => f c = .ok g) fun _ h _ _ => h).bind fun A₁ g hA₁ hg => ?_
  refine change_guards (hc.mono hA₁) fun items A₂ hA₂ hitems => ?_
  exact (hf (fun v hv => (hargs v hv).mono (hA₁.trans hA₂)) hg items hitems).bind fun _ hnew => hnew

theorem isConfined_typeDef : (typeDef : TypeDef H).IsConfined K := by
  -- From the last method back to the first: `Get`, `IndexOf`, `Contains` and `Remove`, then the
  -- mutators `Set`, `Clear`, `RemoveAt`, `Insert` and `Add`.
  apply TypeDef.IsConfined.addMethod
  · intro A rest m₀ c hc _
    refine (any_keeps _).bind fun A₁ i hA₁ _ => ?_
    refine (items_guards (hc.mono hA₁)).bind fun A₂ items _ hitems => ?_
    exact ofExcept_keeps fun v hv _ hA₃ =>
      ((getAt_yields i (Value.within_of_not_object rfl) hitems).of_ok hv).mono hA₃
  apply TypeDef.IsConfined.addMethod
  · intro A rest m₀ c hc _
    refine (any_keeps _).bind fun A₁ v hA₁ _ => ?_
    exact (items_guards (hc.mono hA₁)).bind fun _ _ _ _ => scalar_keeps trivial
  apply TypeDef.IsConfined.addMethod
  · intro A rest m₀ c hc _
    refine (any_keeps _).bind fun A₁ v hA₁ _ => ?_
    exact (items_guards (hc.mono hA₁)).bind fun _ _ _ _ => scalar_keeps trivial
  apply TypeDef.IsConfined.addMethod
  · intro A rest m₀ c hc _
    refine (any_keeps _).bind fun A₁ v hA₁ _ => ?_
    refine (change_guards (hc.mono hA₁) fun items A' _ hitems => ?_).bind
      fun _ _ _ _ => scalar_keeps trivial
    exact remove_snd v hitems
  apply isConfined_mutator
  · intro A c g hargs hg items hitems
    obtain ⟨i, -, hg⟩ := bind_eq_ok.mp hg
    obtain ⟨v, hv, hg⟩ := bind_eq_ok.mp hg
    obtain rfl := Except.ok.inj hg
    exact setAt_yields i (Call.within_of_arg hargs hv) hitems
  apply isConfined_mutator
  · intro A c g _ hg items _
    obtain rfl := Except.ok.inj hg
    exact List.forall_mem_nil _
  apply isConfined_mutator
  · intro A c g _ hg items hitems
    obtain ⟨i, -, hg⟩ := bind_eq_ok.mp hg
    obtain rfl := Except.ok.inj hg
    exact removeAt_yields i hitems
  apply isConfined_mutator
  · intro A c g hargs hg items hitems
    obtain ⟨i, -, hg⟩ := bind_eq_ok.mp hg
    obtain ⟨v, hv, hg⟩ := bind_eq_ok.mp hg
    obtain rfl := Except.ok.inj hg
    exact insertAt_yields i (Call.within_of_arg hargs hv) hitems
  apply isConfined_mutator
  · intro A c g hargs hg items hitems
    obtain ⟨v, hv, hg⟩ := bind_eq_ok.mp hg
    obtain rfl := Except.ok.inj hg
    have hv := Call.within_of_arg hargs hv
    exact List.forall_mem_append.mpr ⟨hitems, List.forall_mem_singleton.mpr hv⟩
  have hheld := Facet.isHeld_items K
  refine .staticMethod (fun _ _ => ?_)
    (.property hheld Coding.isConfined_int (fun _ => List.nil_subset _) (.ofTag _))
  exact (Action.create_guards hheld (List.forall_mem_nil _) "List").bind fun A' o _ ho =>
    .pure fun _ hA => Value.within_object (hA ho)

end Builtin.Sequence

end

namespace Sample

/-- Of the sample objects only scenes hold values, and the settings hold none. -/
def custody : Custody host where
  object
    | .scene s => [s.slot]
    | _ => []
  state _ := []

section

variable {T : Type} {view? : Object → Option T} {embed : T → Object} {values : T → List Value}

theorem isHeld_facetOf (hview : ∀ o t, view? o = some t → values t ⊆ custody.object o)
    (hembed : ∀ t, custody.object (embed t) ⊆ values t) :
    (facetOf view? embed).IsHeld custody values where
  view {c t} h := by
    cases c with
    | list => cases h
    | host o => exact hview o t h
  embed := hembed

theorem isConfined_codingOf {facet : Facet host T} {typeName : String}
    (hfacet : facet.IsHeld custody values) :
    (codingOf facet typeName).IsConfined custody values where
  decode {A own rest m₀ v} hv := by
    refine (ofExcept_keeps (Q := fun A' o => o.id ∈ A') fun o ho A' hA => hA ?_).bind
      fun A' o _ ho => Action.read_guards hfacet (.inl ho)
    rw [Call.expect.eq_def] at ho
    cases v <;> cases ho
    exact hv _ rfl
  encode hx := (Action.create_guards hfacet hx typeName).bind fun _ _ _ ho =>
    .pure fun _ hA => Value.within_object (hA ho)

end

theorem isHeld_point : Point.facet.IsHeld custody fun _ => [] :=
  isHeld_facetOf (fun _ _ _ => List.nil_subset _) fun _ => List.nil_subset _

theorem isHeld_rect : Rect.facet.IsHeld custody fun _ => [] :=
  isHeld_facetOf (fun _ _ _ => List.nil_subset _) fun _ => List.nil_subset _

theorem isHeld_scene : Scene.facet.IsHeld custody fun s => [s.slot] :=
  isHeld_facetOf (fun o t h => by cases o <;> cases h; exact List.Subset.refl _)
    fun _ => List.Subset.refl _

theorem isConfined_pointCoding : Point.coding.IsConfined custody fun _ => [] :=
  isConfined_codingOf isHeld_point

theorem receiver_guards {T : Type} {own rest A : Set Nat} {m₀ : Memory host} {c : Call}
    {facet : Facet host T} {values : T → List Value} (hfacet : facet.IsHeld custody values)
    (hc : c.receiver.Within A) :
    (custody.guard own rest m₀).Keeps A (receiver facet c) fun A' t => ∀ v ∈ values t, v.Within A' :=
  (Call.receiverObject_guards hc).bind fun _ _ _ ho => Action.read_guards hfacet (.inl ho)

theorem isConfined_point : Point.typeDef.IsConfined custody := by
  -- From the last addition back to the first: `One`, `Zero`, the methods `Component`, `SumX`, `Reset`
  -- and `Scaled`, then the fields.
  refine .staticProperty (isConfined_pointCoding.encode nofun) ?_
  refine .staticMethod (fun _ _ => isConfined_pointCoding.encode nofun) ?_
  apply TypeDef.IsConfined.addMethod
  · intro A rest m₀ c hc hargs
    refine (any_keeps _).bind fun A₁ axis hA₁ _ => ?_
    refine (receiver_guards isHeld_point (hc.mono hA₁)).bind fun A₂ p _ _ => ?_
    refine ofExcept_keeps fun v hv _ _ => Value.within_of_isScalar ?_
    rw [Point.component] at hv
    split at hv <;> cases hv <;> trivial
  apply TypeDef.IsConfined.addMethod
  · intro A rest m₀ c hc hargs
    refine (Call.arg_guards hargs 0).bind fun A₁ v hA₁ hv => ?_
    refine (isConfined_pointCoding.decode hv).bind fun A₂ q hA₂ _ => ?_
    exact (receiver_guards isHeld_point (hc.mono (hA₁.trans hA₂))).bind fun _ _ _ _ =>
      scalar_keeps trivial
  apply TypeDef.IsConfined.voidMethod
  · intro A rest m₀ c hc _
    exact (Call.receiverObject_guards hc).bind fun _ _ _ ho =>
      Action.modify_guards isHeld_point (.inl ho) fun _ _ _ _ => nofun
  apply TypeDef.IsConfined.addMethod
  · intro A rest m₀ c hc _
    refine (any_keeps _).bind fun A₁ k hA₁ _ => ?_
    exact (receiver_guards isHeld_point (hc.mono hA₁)).bind fun _ _ _ _ =>
      isConfined_pointCoding.encode nofun
  have hnone {F : Type} (_ : F) : ([] : List Value) ⊆ [] := List.nil_subset _
  refine .addReadWrite isHeld_point Coding.isConfined_float hnone (fun _ => hnone) ?_
  refine .addReadWrite isHeld_point Coding.isConfined_int hnone (fun _ => hnone) ?_
  exact .valueType isLawful_point isHeld_point "Point"

theorem isConfined_rect : Rect.typeDef.IsConfined custody := by
  have hnone {F : Type} (_ : F) : ([] : List Value) ⊆ [] := List.nil_subset _
  refine .property isHeld_rect isConfined_pointCoding hnone ?_
  refine .addReadWrite isHeld_rect Coding.isConfined_string hnone (fun _ => hnone) ?_
  refine .addReadWrite isHeld_rect isConfined_pointCoding hnone (fun _ => hnone) ?_
  exact .valueType isLawful_rect isHeld_rect "Rect"

/-- A slot gives away what it holds. -/
theorem isConfined_scene : Scene.typeDef.IsConfined custody := by
  refine .addReadWrite isHeld_scene Coding.isConfined_any (fun _ => List.Subset.refl _)
    (fun _ _ => List.subset_append_right _ _) ?_
  exact .addReadWrite isHeld_scene (isConfined_codingOf isHeld_rect) (fun _ => List.nil_subset _)
    (fun _ _ => List.subset_append_left _ _) (.ofTag _)

end Sample

end Formula
