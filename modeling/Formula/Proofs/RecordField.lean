import Formula.Proofs.Atomicity
import Formula.Proofs.WellTyped

/-!
Members that behave like the fields of a record: what is read was set last, in an object that is
otherwise left alone.
-/

namespace Formula

variable {H : Host}

/-- What a value is taken for when values are compared by their structure: an object of a value type is
its contents, any other object is itself. -/
inductive Datum (H : Host) where
  | shared (v : Value)
  | record (typeName : String) (content : Option (Content H))

def Datum.typeTag : Datum H → TypeTag
  | shared v => v.typeTag
  | record typeName _ => .object typeName

namespace Memory

def datum (types : Directory) (m : Memory H) (v : Value) : Datum H :=
  match v with
  | .object o => if types.holdsValueType v then .record o.typeName (m.get? o) else .shared v
  | v => .shared v

variable {types : Directory} {m m' : Memory H} {o p : ObjectRef} {v : Value}

theorem datum_of_valueType (h : types.holdsValueType (.object o) = true) :
    m.datum types (.object o) = .record o.typeName (m.get? o) := by
  rw [datum, if_pos h]

theorem datum_of_shared (h : types.holdsValueType v = false) : m.datum types v = .shared v := by
  cases v with
  | object o => rw [datum, if_neg (by simp [h])]
  | null | bool | int | float | string | enum | typeRoot => rfl

@[simp]
theorem typeTag_datum (types : Directory) (m : Memory H) (v : Value) :
    (m.datum types v).typeTag = v.typeTag := by
  cases v with
  | object o =>
      rw [datum]
      split <;> rfl
  | null | bool | int | float | string | enum | typeRoot => rfl

theorem object_of_datum_eq_record {typeName : String} {c : Option (Content H)}
    (h : m.datum types v = .record typeName c) :
    ∃ o, v = .object o ∧ o.typeName = typeName ∧ m.get? o = c := by
  cases v with
  | object o =>
      rw [datum] at h
      split at h
      · obtain ⟨rfl, rfl⟩ := Datum.record.inj h
        exact ⟨o, rfl, rfl, rfl⟩
      · cases h
  | null | bool | int | float | string | enum | typeRoot => cases h

theorem eq_of_datum_eq_shared {u : Value} (h : m.datum types v = .shared u) : v = u := by
  cases v with
  | object o =>
      rw [datum] at h
      split at h
      · cases h
      · exact Datum.shared.inj h
  | null | bool | int | float | string | enum | typeRoot => exact Datum.shared.inj h

theorem object_of_datum_eq {m' : Memory H} (h : m'.datum types v = m.datum types (.object o)) :
    ∃ p, v = .object p := by
  cases hv : types.holdsValueType (.object o) with
  | true =>
      rw [datum_of_valueType hv] at h
      obtain ⟨p, rfl, -⟩ := object_of_datum_eq_record h
      exact ⟨p, rfl⟩
  | false =>
      rw [datum_of_shared hv] at h
      exact ⟨o, eq_of_datum_eq_shared h⟩

end Memory

/-- Loading a variable gives an equal value, in a new object if its type is a value type. Whether an
object can be copied depends on its type and contents. -/
structure Registry.CopiesValues (r : Registry H) : Prop where
  shared : ∀ {v}, r.directory.holdsValueType v = false → r.copyOnLoad v = pure v
  adds : ∀ v μ, (r.copyOnLoad v).Adds μ fun y μ' =>
    y.IsNew r.directory μ ∧ μ'.datum r.directory y = μ.datum r.directory v
  congr : ∀ {o o' μ μ' y μ₁}, o.typeName = o'.typeName → μ.get? o = μ'.get? o' →
    r.copyOnLoad (.object o) μ = .ok y μ₁ → ∃ y' μ₁', r.copyOnLoad (.object o') μ' = .ok y' μ₁'

namespace Member

theorem get_of_getter? {m : Member H} {get : Value → Action H Value} (h : m.getter? = some get)
    (o : Value) (owner : String) : m.get o owner = get o := by
  rw [Member.get.eq_def, h]

theorem set_of_setter? {m : Member H} {set : Value → Value → Action H Unit} (h : m.setter? = some set)
    (o v : Value) (owner : String) : m.set o v owner = set o v := by
  rw [Member.set.eq_def, h]

theorem getter?_of_get_ok {m : Member H} {o y : Value} {owner : String} {μ μ' : Memory H}
    (h : m.get o owner μ = .ok y μ') : ∃ get, m.getter? = some get ∧ get o μ = .ok y μ' := by
  cases hg : m.getter? with
  | some get => exact ⟨get, rfl, by rw [← h, get_of_getter? hg]⟩
  | none =>
      rw [Member.get.eq_def, hg] at h
      cases h

theorem setter?_of_set_ok {m : Member H} {o v : Value} {owner : String} {μ μ' : Memory H}
    (h : m.set o v owner μ = .ok () μ') : ∃ set, m.setter? = some set ∧ set o v μ = .ok () μ' := by
  cases hs : m.setter? with
  | some set => exact ⟨set, rfl, by rw [← h, set_of_setter? hs]⟩
  | none =>
      rw [Member.set.eq_def, hs] at h
      cases h

/-- The member of an object reads as `d`. -/
def Yields (types : Directory) (m : Member H) (o : ObjectRef) (μ : Memory H) (d : Datum H) : Prop :=
  ∃ get v μ', m.getter? = some get ∧ get (.object o) μ = .ok v μ' ∧ μ'.datum types v = d

/-- What the member reads as depends on no more than the type and the contents of the object. -/
def IsLocal (types : Directory) (typeName : String) (m : Member H) : Prop :=
  ∀ {o o' μ μ' d}, o.typeName = typeName → o'.typeName = typeName → μ.get? o = μ'.get? o' →
    m.Yields types o μ d → m.Yields types o' μ' d

/-- What the member reads as, for objects of a type with the given contents. -/
def Gives (types : Directory) (m : Member H) (typeName : String) (c : Content H) (d : Datum H) :
    Prop :=
  ∃ o μ, o.typeName = typeName ∧ μ.get? o = some c ∧ m.Yields types o μ d

/-- The laws of a field, for the objects of one type. Reading changes nothing and gives new objects of
value types. Setting changes no other object, and what is set is what is read. -/
structure IsRecordField (r : Registry H) (typeName : String) (m : Member H) : Prop where
  isReadable : m.isReadable = true
  isWritable : m.isWritable = true
  isLocal : m.IsLocal r.directory typeName
  get_adds : ∀ {get o}, m.getter? = some get → o.typeName = typeName →
    ∀ μ, (get (.object o)).Adds μ fun v _ => v.IsNew r.directory μ
  exists_of_get : ∀ {o μ d}, o.typeName = typeName → m.Yields r.directory o μ d →
    ∃ c, μ.get? o = some c
  intactBut_of_set : ∀ {set o v μ μ'}, m.setter? = some set → o.typeName = typeName →
    set (.object o) v μ = .ok () μ' → Memory.IntactBut o μ μ'
  get_set : ∀ {set o v μ μ' d}, m.setter? = some set → o.typeName = typeName →
    m.Yields r.directory o μ d → d.typeTag.Holds v → set (.object o) v μ = .ok () μ' →
    m.Yields r.directory o μ' (μ.datum r.directory v)
  copies_of_set : ∀ {set o v μ μ'}, m.setter? = some set → o.typeName = typeName →
    set (.object o) v μ = .ok () μ' → ∃ y μ'', r.copyOnLoad (.object o) μ' = .ok y μ''

/-- Setting the member of an object of the type can turn the one content into the other. -/
def Turns (m : Member H) (typeName : String) (c c' : Content H) : Prop :=
  ∃ set o v μ μ', m.setter? = some set ∧ o.typeName = typeName ∧ μ.get? o = some c ∧
    set (.object o) v μ = .ok () μ' ∧ μ'.get? o = some c'

/-- The laws of two fields of one record, of which only `m` is set. -/
structure IsBeside (types : Directory) (typeName : String) (n m : Member H) : Prop where
  isLocal : n.IsLocal types typeName
  kept : ∀ {c c' d}, m.Turns typeName c c' → n.Gives types typeName c d → n.Gives types typeName c' d

variable {types : Directory} {m : Member H} {typeName : String} {o : ObjectRef} {μ : Memory H}
  {c : Content H} {d d' : Datum H}

theorem Gives.yields (h : m.Gives types typeName c d) (hm : m.IsLocal types typeName)
    (ho : o.typeName = typeName) (hc : μ.get? o = some c) : m.Yields types o μ d := by
  obtain ⟨o', μ', ho', hc', hd⟩ := h
  exact hm ho' ho (hc'.trans hc.symm) hd

end Member

/-! Members that are made of a function on the contents are fields, and objects are copied with their
contents, if the contents of a type are what its facet takes them for. -/

/-- What is embedded is seen, and nothing else. -/
structure Facet.IsLawful {T : Type} (facet : Facet H T) : Prop where
  view_embed : ∀ t, facet.view? (facet.embed t) = some t
  embed_view : ∀ {c t}, facet.view? c = some t → facet.embed t = c

/-- Encoding gives an equal value, new if of a value type, and decoding does not confuse values of the
type. -/
structure Coding.IsLawful {F : Type} (types : Directory) (code : Coding H F) (datum : F → Datum H) :
    Prop where
  encode : ∀ x μ, ∃ v μ', code.encode x μ = .ok v μ' ∧ μ.Intact μ' ∧ v.IsNew types μ ∧
    μ'.datum types v = datum x
  decode : ∀ v μ, (code.decode v).Adds μ fun x _ =>
    ∀ y, (datum y).typeTag.Holds v → datum x = μ.datum types v

/-- A shared type, or a value type of which all objects are copied with their contents. -/
def HostType.CopiesContents (t : HostType H) : Prop :=
  t.isValueType = false ∧ (∀ o, t.copy? o = none) ∨
    t.isValueType = true ∧ ∃ (T : Type) (facet : Facet H T), facet.IsLawful ∧
      ∀ o, t.copy? o = some (Action.copy facet o)

namespace Member

variable {T F : Type} {r : Registry H} {facet : Facet H T} {code : Coding H F} {datum : F → Datum H}
  {typeName : String} {get : T → F} {o : ObjectRef} {μ : Memory H} {d : Datum H}

theorem isCareful_of_isLawful {types : Directory} (h : code.IsLawful types datum) :
    code.IsCareful types where
  decode v μ := (h.decode v μ).imp fun _ _ _ _ => trivial
  encode x μ := by
    obtain ⟨v, μ', hrun, hμ, hnew, -⟩ := h.encode x μ
    rw [Action.Adds, hrun]
    exact ⟨hμ, hnew⟩

theorem yields_getterOf_iff (hcode : code.IsLawful r.directory datum) (name : String)
    (kind : MemberKind) (setter? : Option (Value → Value → Action H Unit)) :
    Yields r.directory ⟨name, kind, some (getterOf facet code get), setter?⟩ o μ d ↔
      ∃ t, (μ.get? o).bind facet.view? = some t ∧ datum (get t) = d := by
  have hgetter : getterOf facet code get (.object o) =
      (do code.encode (get (← Action.read facet o)) : Action H Value) := rfl
  constructor
  · rintro ⟨_, v, μ', ⟨⟩, hrun, rfl⟩
    rw [hgetter] at hrun
    obtain ⟨t, μ₁, hread, hencode⟩ := ok_of_run_bind hrun
    obtain ⟨-, rfl, ht⟩ := (Action.read_adds facet o μ).ok hread
    obtain ⟨v', μ'', hencode', -, -, hd⟩ := hcode.encode (get t) μ₁
    obtain ⟨rfl, rfl⟩ := EStateM.Result.ok.inj (hencode.symm.trans hencode')
    exact ⟨t, ht, hd.symm⟩
  · rintro ⟨t, ht, rfl⟩
    obtain ⟨v, μ', hencode, -, -, hd⟩ := hcode.encode (get t) μ
    exact ⟨_, v, μ', rfl, by rw [hgetter, run_bind_of_ok (Action.read_ok ht), hencode], hd⟩

/-- What is made of a function on the contents depends on no more than these. -/
theorem isLocal_of_coding (hcode : code.IsLawful r.directory datum) (name : String)
    (kind : MemberKind) (setter? : Option (Value → Value → Action H Unit)) :
    IsLocal r.directory typeName ⟨name, kind, some (getterOf facet code get), setter?⟩ := by
  intro o o' μ μ' d _ _ hget hd
  rw [yields_getterOf_iff hcode] at hd ⊢
  rwa [← hget]

/-- A field of the contents is a record field. -/
theorem isRecordField_of_coding (hfacet : facet.IsLawful) (hcode : code.IsLawful r.directory datum)
    (name : String) (kind : MemberKind) {set : T → F → T} (hset : ∀ t x, get (set t x) = x)
    (hcopy : ∀ o, o.typeName = typeName → (r.find? typeName).bind (·.copy? o) = none ∨
      (r.find? typeName).bind (·.copy? o) = some (Action.copy facet o)) :
    IsRecordField r typeName
      ⟨name, kind, some (getterOf facet code get), some (setterOf facet code set)⟩ where
  isReadable := rfl
  isWritable := rfl
  isLocal := isLocal_of_coding hcode name kind _
  get_adds hg _ μ := by
    obtain rfl := Option.some.inj hg
    exact getterOf_adds (isCareful_of_isLawful hcode) get _ μ
  exists_of_get _ hd := by
    obtain ⟨t, ht, -⟩ := (yields_getterOf_iff hcode ..).mp hd
    obtain ⟨c, hc, -⟩ := Option.bind_eq_some_iff.mp ht
    exact ⟨c, hc⟩
  intactBut_of_set hs _ hrun := by
    obtain rfl := Option.some.inj hs
    exact setterOf_ok (isCareful_of_isLawful hcode) hrun
  get_set hs _ hd hv hrun := by
    obtain rfl := Option.some.inj hs
    obtain ⟨t, -, rfl⟩ := (yields_getterOf_iff hcode ..).mp hd
    obtain ⟨x, μ₁, hdecode, hmodify⟩ := ok_of_run_bind hrun
    obtain ⟨t', ht', rfl⟩ := Action.modify_ok hmodify
    obtain ⟨c, hc, -⟩ := Option.bind_eq_some_iff.mp ht'
    rw [yields_getterOf_iff hcode, Memory.get?_set_of_get? hc]
    refine ⟨set t' x, hfacet.view_embed _, ?_⟩
    rw [hset]
    exact ((hcode.decode _ _).ok hdecode).2 _ hv
  copies_of_set {_ o _ _ _} hs ho hrun := by
    obtain rfl := Option.some.inj hs
    obtain ⟨x, μ₁, -, hmodify⟩ := ok_of_run_bind hrun
    obtain ⟨t, ht, rfl⟩ := Action.modify_ok hmodify
    obtain ⟨c, hc, -⟩ := Option.bind_eq_some_iff.mp ht
    rw [Registry.copyOnLoad, ho]
    rcases hcopy o ho with h | h
    · rw [h]
      exact ⟨_, _, rfl⟩
    · have hread : Action.read facet o (μ₁.set o (facet.embed (set t x))) = .ok (set t x) _ :=
        Action.read_ok (by rw [Memory.get?_set_of_get? hc]; exact hfacet.view_embed _)
      simp only [h, Action.copy, bind_assoc]
      rw [run_bind_of_ok hread]
      exact ⟨_, _, rfl⟩

/-- Another field of the contents, which is what it was when the first one is set. -/
theorem isBeside_of_coding {F' : Type} {code' : Coding H F'} {datum' : F' → Datum H} {get' : T → F'}
    (hfacet : facet.IsLawful) (hcode : code.IsLawful r.directory datum)
    (hcode' : code'.IsLawful r.directory datum') (name name' : String) (kind kind' : MemberKind)
    (getter? : Option (Value → Action H Value)) (setter? : Option (Value → Value → Action H Unit))
    {set : T → F → T} (hset : ∀ t x, get' (set t x) = get' t) :
    IsBeside r.directory typeName
      ⟨name', kind', some (getterOf facet code' get'), setter?⟩
      ⟨name, kind, getter?, some (setterOf facet code set)⟩ where
  isLocal := isLocal_of_coding hcode' name' kind' setter?
  kept {c c' d} hturns hgives := by
    obtain ⟨_, o, v, μ, μ', ⟨⟩, ho, hc, hrun, hc'⟩ := hturns
    obtain ⟨p, ν, -, hp, hd⟩ := hgives
    obtain ⟨t, ht, rfl⟩ := (yields_getterOf_iff hcode' ..).mp hd
    obtain ⟨x, μ₁, hdecode, hmodify⟩ := ok_of_run_bind hrun
    obtain ⟨t', ht', rfl⟩ := Action.modify_ok hmodify
    rw [((hcode.decode v μ).ok hdecode).1.get? hc, ← hp, ht] at ht'
    obtain rfl := Option.some.inj ht'
    refine ⟨o, _, ho, hc', (yields_getterOf_iff hcode' ..).mpr ⟨set t x, ?_, by rw [hset]⟩⟩
    rw [Memory.get?_set_of_get? (((hcode.decode v μ).ok hdecode).1.get? hc)]
    exact hfacet.view_embed _

end Member

namespace Registry

variable {r : Registry H}

theorem copyOnLoad_of_shared (h : ∀ t ∈ r.types, t.CopiesContents) {v : Value}
    (hv : r.directory.holdsValueType v = false) : r.copyOnLoad v = pure v := by
  cases v with
  | object o =>
      rw [holdsValueType_object] at hv
      rw [copyOnLoad]
      cases ht : r.find? o.typeName with
      | none => rfl
      | some t =>
          rcases h t (mem_of_find? ht).1 with ⟨-, hcopy⟩ | ⟨hvalue, -⟩
          · simp [hcopy]
          · simp [ht, hvalue] at hv
  | null | bool | int | float | string | enum | typeRoot => rfl

theorem copyOnLoad_of_valueType (h : ∀ t ∈ r.types, t.CopiesContents) {o : ObjectRef}
    (hv : r.directory.holdsValueType (.object o) = true) :
    ∃ (T : Type) (facet : Facet H T), facet.IsLawful ∧ ∀ o' : ObjectRef, o'.typeName = o.typeName →
      r.copyOnLoad (.object o') = Value.object <$> Action.copy facet o' := by
  rw [holdsValueType_object] at hv
  cases ht : r.find? o.typeName with
  | none => simp [ht] at hv
  | some t =>
      rcases h t (mem_of_find? ht).1 with ⟨hshared, -⟩ | ⟨-, T, facet, hfacet, hcopy⟩
      · simp [ht, hshared] at hv
      · refine ⟨T, facet, hfacet, fun o' ho' => ?_⟩
        rw [copyOnLoad, ho', ht]
        simp [hcopy]

theorem copiesValues_of_types (h : ∀ t ∈ r.types, t.CopiesContents) : r.CopiesValues where
  shared := copyOnLoad_of_shared h
  adds v μ := by
    cases hv : r.directory.holdsValueType v with
    | false =>
        rw [copyOnLoad_of_shared h hv]
        exact .pure ⟨Value.isNew_of_not_holdsValueType hv, rfl⟩
    | true =>
        obtain ⟨o, rfl⟩ := Directory.object_of_holdsValueType hv
        obtain ⟨T, facet, hfacet, hcopy⟩ := copyOnLoad_of_valueType h hv
        rw [hcopy o rfl, map_eq_pure_bind]
        refine (Action.copy_adds facet o μ).bind fun o' μ' _ _ ho' => .pure ⟨fun p hp _ => ?_, ?_⟩
        · obtain rfl := Value.object.inj hp
          exact ho'.1
        · obtain ⟨-, hname, t, ht, hc⟩ := ho'
          obtain ⟨c, hc₀, hview⟩ := Option.bind_eq_some_iff.mp ht
          have hv' : r.directory.holdsValueType (.object o') = true := by
            rw [holdsValueType_object, hname, ← holdsValueType_object, hv]
          rw [Memory.datum_of_valueType hv', Memory.datum_of_valueType hv, hname, hc, hc₀,
            hfacet.embed_view hview]
  congr {o o' μ μ' y μ₁} ho hget hrun := by
    cases hv : r.directory.holdsValueType (.object o) with
    | false =>
        have hv' : r.directory.holdsValueType (.object o') = false := by
          rw [holdsValueType_object, ← ho, ← holdsValueType_object, hv]
        exact ⟨.object o', μ', by rw [copyOnLoad_of_shared h hv']; rfl⟩
    | true =>
        obtain ⟨T, facet, hfacet, hcopy⟩ := copyOnLoad_of_valueType h hv
        rw [hcopy o rfl, map_eq_pure_bind] at hrun
        obtain ⟨p, μ₂, hrun, -⟩ := ok_of_run_bind hrun
        obtain ⟨t, μ₃, hread, -⟩ := ok_of_run_bind hrun
        obtain ⟨-, rfl, ht⟩ := (Action.read_adds facet o μ).ok hread
        rw [hcopy o' ho.symm, map_eq_pure_bind, Action.copy, bind_assoc,
          run_bind_of_ok (Action.read_ok (hget ▸ ht))]
        exact ⟨_, _, rfl⟩

end Registry

end Formula
