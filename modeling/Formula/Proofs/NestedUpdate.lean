import Formula.Proofs.Reading

/-!
What an assignment to a member of a member changes. Copies are stored from the inside out, until one is
stored in a shared object or in the variable that the chain begins at.
-/

namespace Formula

variable {H : Host}

/-- The object is there, and of the type that its handle says. -/
def World.Knows (w : World H) (typed : Nat → String) (o : ObjectRef) : Prop :=
  (∃ c, w.memory.get? o = some c) ∧ typed o.id = o.typeName

namespace Place

/-- The objects on a chain are known, no shared one is there twice, and the variable that the chain
begins at owns its value. -/
structure Sound (r : Registry H) (w : World H) (typed : Nat → String) (place : Place) : Prop where
  owned : ∀ {name x}, place.root? = some name → w.bindings.find? name = some x →
    ∃ v, x.slot = .owned v
  rootObject : ∀ {name x o}, place.root? = some name → w.bindings.find? name = some x →
    x.get = .object o → r.directory.holdsValueType (.object o) = true → w.Knows typed o
  owner : ∀ {owner o}, owner ∈ place.owners → owner.Shares r w o → w.Knows typed o
  distinct : place.owners.Pairwise fun p q => ∀ o o', p.Shares r w o → q.Shares r w o' → o.id ≠ o'.id

/-- The place reads as `d`, and all else is as it was in `w`: the other members of the objects on the
chain, the other variables, and the objects that are not on the chain. -/
structure Updated (r : Registry H) (w w' : World H) (place : Place) (d : Datum H) : Prop where
  isFieldChain : place.IsFieldChain r w'
  reads : place.Reads r w' d
  passed : ∀ {owner name}, place.Passes owner name →
    ∃ typeName c c', owner.HoldsObject r w typeName c ∧ owner.HoldsObject r w' typeName c' ∧
      (c' = c ∨ ∃ t m, (∀ o : ObjectRef, o.typeName = typeName →
        Eval.findMember r (.object o) name = .ok (t, m)) ∧ m.Turns typeName c c')
  others : ∀ {other}, place.root? ≠ some other →
    w'.bindings.find? other = w.bindings.find? other
  object : ∀ {p c}, w.memory.get? p = some c →
    (∀ owner o, owner ∈ place.owners → owner.Shares r w o → o.id ≠ p.id) →
    w'.memory.get? p = some c

variable {r : Registry H} {w w' w₁ w₂ : World H} {typed : Nat → String} {place owner : Place}
  {name : String} {span : Span} {d : Datum H}

theorem Sound.ofMember (h : (Place.member owner name span).Sound r w typed) :
    owner.Sound r w typed :=
  ⟨h.owned, h.rootObject, fun ho => h.owner (List.mem_cons_of_mem _ ho),
    (List.pairwise_cons.mp h.distinct).2⟩

theorem Sound.agrees (h : place.Sound r w typed) (hw : w.Intact w') : place.Agrees r w w' where
  root _ := by rw [hw.bindings]
  rootObject hroot hx hget hv := by
    obtain ⟨c, hc⟩ := (h.rootObject hroot hx hget hv).1
    rw [hc, hw.memory.get? hc]
  owner ho hs := by
    obtain ⟨c, hc⟩ := (h.owner ho hs).1
    exact ⟨c, hc, hw.memory.get? hc⟩

/-- What is read is shared only if it is of no value type. -/
theorem not_shares_of_read {y : Value} (h : place.read r w = .ok y w₁)
    (hy : r.directory.holdsValueType y = true) (o : ObjectRef) : ¬place.Shares r w o := by
  rintro ⟨hv, w₂, h'⟩
  obtain ⟨rfl, -⟩ := EStateM.Result.ok.inj (h.symm.trans h')
  rw [hv] at hy
  cases hy

/-- Objects of which one is shared and one is not are not the same. -/
theorem id_ne_of_knows {o p : ObjectRef} (ho : w.Knows typed o) (hp : w.Knows typed p)
    (hshared : r.directory.holdsValueType (.object o) = false)
    (hvalue : r.directory.holdsValueType (.object p) = true) : o.id ≠ p.id := by
  intro hid
  have hname : o.typeName = p.typeName := by rw [← ho.2, ← hp.2, hid]
  have hv : r.directory.holdsValueType (.object o) = r.directory.holdsValueType (.object p) := by
    simp only [Directory.holdsValueType, hname]
  rw [hshared, hvalue] at hv
  cases hv

/-- What is known once a value has been set in the last member of a chain. -/
structure Turned (r : Registry H) (w : World H) (owner : Place) (name : String) (q : ObjectRef)
    (t : HostType H) (m : Member H) (μ' : Memory H) (d : Datum H) (c c' : Content H) : Prop where
  before : owner.HoldsObject r w q.typeName c
  after : μ'.get? q = some c'
  found : ∀ o : ObjectRef, o.typeName = q.typeName → Eval.findMember r (.object o) name = .ok (t, m)
  field : m.IsRecordField r q.typeName
  turns : m.Turns q.typeName c c'
  gives : m.Gives r.directory q.typeName c' d
  copies : ∃ y μ'', r.copyOnLoad (.object q) μ' = .ok y μ''

section

variable {q : ObjectRef} {t : HostType H} {m : Member H} {μ μ' : Memory H} {v : Value}
  {c c' : Content H}

theorem turned_of_set (hr : r.CopiesValues)
    (hchain : (Place.member owner name span).IsFieldChain r w)
    (hs : (Place.member owner name span).Sound r w typed)
    (hd : (Place.member owner name span).Reads r w d) (hw : w.Intact w₁)
    (hq : owner.read r w₁ = .ok (.object q) w₂) (hμ : w₂.memory.Intact μ)
    (hm : Eval.findMember r (.object q) name = .ok (t, m)) (hv : d.typeTag.Holds v)
    (hset : m.set (.object q) v t.tag.name μ = .ok () μ') :
    (∃ c c', owner.Turned r w name q t m μ' (μ.datum r.directory v) c c') ∧
      Memory.IntactBut q μ μ' := by
  obtain ⟨typeName, c, t', m', hobject, hfound, hfield, hgives⟩ := hchain.holdsObject hd
  cases hchain with
  | member _ howner hfields =>
    have ha := hs.agrees hw
    obtain ⟨o, w₃, hread, -, -⟩ := id hobject
    have howner' := (reads_of_agrees hr howner ha.ofMember ⟨_, w₃, hread, rfl⟩).1
    obtain ⟨o', w₄, hread', rfl, hc'⟩ := hobject.of_reads hr howner howner'
      (fun d hd => (reads_of_agrees hr howner ha.ofMember hd).2)
      fun p hp => ha.owner (List.mem_cons_self ..) hp
    obtain ⟨ho', rfl⟩ := EStateM.Result.ok.inj (hread'.symm.trans hq)
    obtain rfl := Value.object.inj ho'
    obtain ⟨rfl, rfl⟩ := Prod.mk.inj (Except.ok.inj ((hfound o' rfl).symm.trans hm))
    obtain ⟨set, hsetter, hrun⟩ := Member.setter?_of_set_ok hset
    have hc := hμ.get? hc'
    have hyields := hfield.get_set hsetter rfl (hgives.yields hfield.isLocal rfl hc) hv hrun
    obtain ⟨c', hafter⟩ := hfield.exists_of_get rfl hyields
    exact ⟨⟨c, c', hobject, hafter, hfound, hfield, ⟨set, o', v, μ, μ', hsetter, rfl, hc, hrun, hafter⟩,
      ⟨o', μ', rfl, hafter, hyields⟩, hfield.copies_of_set hsetter rfl hrun⟩,
      hfield.intactBut_of_set hsetter rfl hrun⟩

/-- The object that was changed has been stored where it was read from. -/
theorem Turned.updated_of_value (h : owner.Turned r w name q t m μ' d c c')
    (howner : owner.Updated r w w' (.record q.typeName (some c'))) :
    (Place.member owner name span).Updated r w w' d := by
  obtain ⟨y, w₁, hread, hd⟩ := howner.reads
  obtain ⟨o, rfl, ho, hc⟩ := Memory.object_of_datum_eq_record hd
  have hobject : owner.HoldsObject r w' q.typeName c' := ⟨o, w₁, hread, ho, hc⟩
  constructor
  · refine .member span howner.isFieldChain fun p w₂ hp => ?_
    obtain ⟨rfl, -⟩ := EStateM.Result.ok.inj (hread.symm.trans hp)
    exact ⟨o, t, m, rfl, h.found o ho, ho ▸ h.field⟩
  · exact (reads_member_iff hobject h.found h.field.isLocal).mpr h.gives
  · intro place other hpasses
    cases hpasses with
    | last => exact ⟨q.typeName, c, c', h.before, hobject, .inr ⟨t, m, h.found, h.turns⟩⟩
    | owner hpasses => exact howner.passed hpasses
  · exact howner.others
  · exact fun hc hne => howner.object hc fun p o hp => hne p o (List.mem_cons_of_mem _ hp)

/-- The object that was changed is shared, and nothing else has changed. -/
theorem Turned.updated_of_shared (hr : r.CopiesValues) (h : owner.Turned r w name q t m μ' d c c')
    (hchain : owner.IsFieldChain r w) (hs : (Place.member owner name span).Sound r w typed)
    (hq : owner.Shares r w q) (hw : w.bindings = w'.bindings)
    (hbut : Memory.IntactBut q w.memory w'.memory) (hμ' : w'.memory = μ') :
    (Place.member owner name span).Updated r w w' d := by
  have hknown : w.Knows typed q := hs.owner (List.mem_cons_self ..) hq
  have hdistinct := (List.pairwise_cons.mp hs.distinct).1
  have ha : owner.Agrees r w w' :=
    { root := fun _ => by rw [hw]
      rootObject := fun hroot hx hget hv => by
        have ho := hs.rootObject hroot hx hget hv
        obtain ⟨c₀, hc₀⟩ := ho.1
        rw [hc₀, hbut.get? (id_ne_of_knows hknown ho hq.1 hv).symm hc₀]
      owner := fun {p o} hp ho => by
        obtain ⟨c₀, hc₀⟩ := (hs.ofMember.owner hp ho).1
        exact ⟨c₀, hc₀, hbut.get? (hdistinct p hp q o hq ho).symm hc₀⟩ }
  obtain ⟨w₁, hread⟩ := hq.2
  have hreads : owner.Reads r w (.shared (.object q)) :=
    ⟨_, w₁, hread, Memory.datum_of_shared hq.1⟩
  obtain ⟨hchain', y, w₂, hread', hd⟩ := reads_of_agrees hr hchain ha hreads
  obtain rfl := Memory.eq_of_datum_eq_shared hd
  have hobject : owner.HoldsObject r w' q.typeName c' :=
    ⟨q, w₂, hread', rfl, (read_intact hr hchain' hread').1.memory.get? (hμ' ▸ h.after)⟩
  constructor
  · refine .member span hchain' fun p w₃ hp => ?_
    obtain ⟨rfl, -⟩ := EStateM.Result.ok.inj (hread'.symm.trans hp)
    exact ⟨q, t, m, rfl, h.found q rfl, h.field⟩
  · exact (reads_member_iff hobject h.found h.field.isLocal).mpr h.gives
  · intro place other hpasses
    cases hpasses with
    | last => exact ⟨q.typeName, c, c', h.before, hobject, .inr ⟨t, m, h.found, h.turns⟩⟩
    | owner hpasses =>
        obtain ⟨typeName, c₀, hbefore, hafter⟩ := holdsObject_of_passes hr hchain ha hreads hpasses
        exact ⟨typeName, c₀, c₀, hbefore, hafter, .inl rfl⟩
  · exact fun _ => by rw [hw]
  · exact fun hc hne => hbut.get? (hne owner q (List.mem_cons_self ..) hq).symm hc

/-- Storing an object of a value type in a place updates the place. -/
def StoresBack (r : Registry H) (w : World H) (place : Place) : Prop :=
  ∀ {w₁ w' : World H} {o : ObjectRef} {c : Content H} {d : Datum H}, w.Intact w₁ → place.Reads r w d →
    d.typeTag = .object o.typeName → r.directory.holdsValueType (.object o) = true →
    w₁.memory.get? o = some c → (∃ y μ, r.copyOnLoad (.object o) w₁.memory = .ok y μ) →
    place.writeBack r (.object o) w₁ = .ok () w' →
    place.Updated r w w' (.record o.typeName (some c))

/-- A value has been set in the last member of a chain, and its owner is stored where it was read
from. -/
theorem updated_of_set (hr : r.CopiesValues)
    (hchain : (Place.member owner name span).IsFieldChain r w)
    (hs : (Place.member owner name span).Sound r w typed)
    (hd : (Place.member owner name span).Reads r w d) (hstores : owner.StoresBack r w)
    (hw : w.Intact w₁) (hq : owner.read r w₁ = .ok (.object q) w₂) (hμ : w₂.memory.Intact μ)
    (hm : Eval.findMember r (.object q) name = .ok (t, m)) (hv : d.typeTag.Holds v)
    (hset : m.set (.object q) v t.tag.name μ = .ok () μ')
    (hback : owner.writeBack r (.object q) ⟨μ', w₂.bindings⟩ = .ok () w') :
    (Place.member owner name span).Updated r w w' (μ.datum r.directory v) := by
  obtain ⟨⟨c, c', hturned⟩, hbut⟩ := turned_of_set hr hchain hs hd hw hq hμ hm hv hset
  cases hchain with
  | member _ howner hfields =>
    obtain ⟨o, w₃, hread, ho, -⟩ := id hturned.before
    have ha := hs.ofMember.agrees hw
    obtain ⟨howner', y, w₄, hy, hdatum⟩ := reads_of_agrees hr howner ha ⟨_, w₃, hread, rfl⟩
    obtain ⟨rfl, rfl⟩ := EStateM.Result.ok.inj (hq.symm.trans hy)
    obtain ⟨hw₂, hnew⟩ := read_intact hr howner' hq
    have hw₂' : w.Intact ⟨μ, w₂.bindings⟩ :=
      ⟨hw₂.bindings.trans hw.bindings, (hw.memory.trans hw₂.memory).trans hμ⟩
    cases hvalue : r.directory.holdsValueType (.object q) with
    | true =>
        have hfresh := hw.memory.get?_eq_none (hnew q rfl hvalue)
        have hw' : w.Intact ⟨μ', w₂.bindings⟩ :=
          ⟨hw₂'.bindings, hw₂'.memory.trans_but hfresh hbut⟩
        refine hturned.updated_of_value (hstores hw' ⟨_, w₃, hread, rfl⟩ ?_ hvalue hturned.after
          hturned.copies hback)
        simp [Value.typeTag, ho]
    | false =>
        rw [Memory.datum_of_shared hvalue] at hdatum
        have hoq := Memory.eq_of_datum_eq_shared hdatum.symm
        rw [writeBack_of_shared hvalue] at hback
        obtain ⟨-, rfl⟩ := EStateM.Result.ok.inj hback
        have hshares : owner.Shares r w q := ⟨hvalue, w₃, hoq ▸ hread⟩
        refine hturned.updated_of_shared hr howner hs hshares hw₂'.bindings.symm ?_ rfl
        exact ⟨hbut.state.trans hw₂'.memory.state, fun hne hc => hbut.get? hne (hw₂'.memory.get? hc)⟩

end

section

variable (hr : r.CopiesValues)

include hr

theorem storesBack_var (hs : (Place.var name).Sound r w typed) : (Place.var name).StoresBack r w := by
  intro w₁ w' o c d hw hd _ hv hc hcopies hback
  rw [writeBack, if_pos hv] at hback
  obtain ⟨x, w₂, hlookup, hstore⟩ := ok_of_run_bind hback
  cases hx : w₁.bindings.find? name with
  | none => rw [Eval.lookup_of_find?_none hx] at hlookup; cases hlookup
  | some x' =>
      rw [Eval.lookup_of_find? hx] at hlookup
      obtain ⟨rfl, rfl⟩ := EStateM.Result.ok.inj hlookup
      obtain ⟨-, rfl⟩ := EStateM.Result.ok.inj hstore
      obtain ⟨u, hu⟩ := hs.owned rfl (hw.bindings ▸ hx)
      have hfound : (w₁.bindings.store name (.object o)).find? name =
          some (x'.set (.object o)) := by
        rw [Bindings.find?_store_self, hx]
        rfl
      have hget : (x'.set (.object o)).get = .object o := by
        rw [Variable.get, Variable.set, hu]
        rfl
      obtain ⟨y, μ, hcopy⟩ := hcopies
      have hload := Eval.load_ok (r := r)
        (w := { w₁ with bindings := w₁.bindings.store name (.object o) }) hfound
        (by rw [hget]; exact Registry.admits_of_holdsValueType hv) (by rw [hget]; exact hcopy)
      refine ⟨.var name, ⟨y, _, by rw [read]; exact hload, ?_⟩, fun h => ?_, fun hne => ?_,
        fun hp _ => hw.memory.get? hp⟩
      · rw [((hr.adds _ _).ok hcopy).2.2, Memory.datum_of_valueType hv, hc]
      · cases h
      · have hname : name ≠ _ := fun h => hne (congrArg some h)
        exact (Bindings.find?_store_of_ne _ _ hname).trans (by rw [hw.bindings])

/-- Write-back goes up the chain until it meets a shared object or the variable. -/
theorem storesBack (hchain : place.IsFieldChain r w) (hs : place.Sound r w typed) :
    place.StoresBack r w := by
  induction hchain with
  | var name => exact storesBack_var hr hs
  | @member owner name span howner hfields ih =>
      intro w₁ w' o c d hw hd htag hv hc _ hback
      have hchain := IsFieldChain.member span howner hfields
      rw [writeBack, if_pos hv] at hback
      obtain ⟨y, w₂, hy, hback⟩ := ok_of_run_bind hback
      obtain ⟨⟨⟩, w₃, hwrite, hback⟩ := ok_of_run_bind hback
      obtain ⟨t, m, μ, hm, hset, rfl⟩ := Eval.ok_of_writeMember hwrite
      obtain ⟨typeName, c₀, -, -, ⟨p, w₃, hp, -⟩, -⟩ := hchain.holdsObject hd
      obtain ⟨howner', y', w₄, hy', hdatum⟩ :=
        reads_of_agrees hr howner (hs.ofMember.agrees hw) ⟨_, w₃, hp, rfl⟩
      obtain ⟨rfl, rfl⟩ := EStateM.Result.ok.inj (hy.symm.trans hy')
      obtain ⟨q, rfl⟩ := Memory.object_of_datum_eq hdatum
      have hupdated := updated_of_set (v := .object o) hr hchain hs hd (ih hs.ofMember) hw hy
        (.refl _) hm (.inr (.inr htag.symm)) hset hback
      rwa [Memory.datum_of_valueType hv, (read_intact hr howner' hy).1.memory.get? hc] at hupdated

end

end Place

/-- No conversion makes objects. -/
theorem Value.eq_of_convert_object {types : Directory} {m : Memory H} {v : Value} {o : ObjectRef}
    {tag : TypeTag} (h : v.convert types m tag = .ok (.object o)) : v = .object o := by
  rcases (v.convert_yields types m tag).of_ok h with ⟨hv, -⟩ | ⟨hscalar, -⟩ | ⟨_, _, _, he, _⟩
  · exact hv.symm
  · exact hscalar.elim
  · cases he

namespace Program

variable {r : Registry H} {w w₁ w₂ : World H} {typed : Nat → String} {owner : Place} {name : String}
  {span span' : Span} {value : Program} {v x : Value}

/-- A value that was known before an update is the same after it. -/
theorem datum_of_updated {place : Place} {μ : Memory H} {d : Datum H} (hs : place.Sound r w₁ typed)
    (hx : ∀ o, x = .object o → w₁.Knows typed o) (hμ : w₁.memory.Intact μ)
    (h : place.Updated r w₁ w₂ d) : w₂.memory.datum r.directory x = μ.datum r.directory x := by
  cases hvalue : r.directory.holdsValueType x with
  | false => rw [Memory.datum_of_shared hvalue, Memory.datum_of_shared hvalue]
  | true =>
      obtain ⟨o, rfl⟩ := Directory.object_of_holdsValueType hvalue
      obtain ⟨c, hc⟩ := (hx o rfl).1
      have hw₂ := h.object hc fun owner p hp hshares =>
        Place.id_ne_of_knows (hs.owner hp hshares) (hx o rfl) hshares.1 hvalue
      rw [Memory.datum_of_valueType hvalue, Memory.datum_of_valueType hvalue, hw₂, hμ.get? hc]

/-- What an assignment to a member does once its value is known. -/
theorem updated_of_assign (hr : r.IsTabled) (hcopies : r.CopiesValues)
    (hchain : (Place.member owner name span').IsFieldChain r w₁)
    (hs : (Place.member owner name span').Sound r w₁ typed)
    (hv : ∀ o, v = .object o → w₁.Knows typed o)
    (hassign : Place.assign r (.member owner name span') v w₁ = .ok x w₂) :
    (Place.member owner name span').Updated r w₁ w₂ (w₂.memory.datum r.directory x) ∧
      r.directory.Admits x := by
  rw [Place.assign] at hassign
  obtain ⟨q, w₃, hq, h⟩ := ok_of_run_bind (Eval.ok_of_located hassign)
  obtain ⟨new, w₄, hupdate, h⟩ := ok_of_run_bind h
  obtain ⟨⟨⟩, w₅, hback, h⟩ := ok_of_run_bind h
  obtain ⟨rfl, rfl⟩ := EStateM.Result.ok.inj h
  obtain ⟨o, t, m, rfl, hm, hfield⟩ : ∃ o t m, q = .object o ∧
      Eval.findMember r (.object o) name = .ok (t, m) ∧ m.IsRecordField r o.typeName := by
    cases hchain with
    | member _ _ hfields => exact hfields q w₃ hq
  obtain ⟨current, μ, μ', hget, hconvert, hadmits, hset, rfl⟩ :=
    Eval.ok_of_updateMember hm hfield.isReadable hupdate
  obtain ⟨get, hgetter, hrun⟩ := Member.getter?_of_get_ok hget
  have hμ := ((hfield.get_adds hgetter rfl _).ok hrun).1
  have hreads : (Place.member owner name span').Reads r w₁ (μ.datum r.directory current) := by
    rw [Place.Reads, Place.read, run_bind_of_ok hq]
    exact (Eval.readMember_iff hm).mpr ⟨get, current, μ, hgetter, hrun, rfl⟩
  have howner : owner.IsFieldChain r w₁ := by
    cases hchain with
    | member _ howner _ => exact howner
  have hupdated := Place.updated_of_set (v := new) hcopies hchain hs hreads
    (Place.storesBack hcopies howner hs.ofMember) (.refl w₁) hq hμ hm
    ((Memory.typeTag_datum ..).symm ▸ TypeTag.holds_convert hr hconvert) hset hback
  have hw₁ := (Place.read_intact hcopies howner hq).1.memory.trans hμ
  refine ⟨?_, hadmits⟩
  rwa [datum_of_updated hs (fun p hp => ?_) hw₁ hupdated]
  exact hv p (Value.eq_of_convert_object (hp ▸ hconvert))

/-- An assignment to a member is a lawful update, however deep the member is and whichever types on the
way are value types. What is read from the member afterwards equals the result. Another member of an
object on the way reads as it did once the value was known, if it is another field of the same record.
The store changes no variable but the one that the chain begins at. -/
theorem run_assign_lawful (hr : r.IsTabled) (hcopies : r.CopiesValues)
    (hvalue : value.run r w = .ok v w₁)
    (hassign : Program.run r [.assign span (.member owner name span') value] w = .ok x w₂)
    (hchain : (Place.member owner name span').IsFieldChain r w₁)
    (hs : (Place.member owner name span').Sound r w₁ typed)
    (hv : ∀ o, v = .object o → w₁.Knows typed o) :
    (∀ p : Program, p.Loads (.member owner name span') → ∃ y w₃, p.run r w₂ = .ok y w₃ ∧
      w₃.memory.datum r.directory y = w₂.memory.datum r.directory x) ∧
    (∀ place member, (Place.member owner name span').Passes place member → ∀ other,
      (∀ o w', place.read r w₁ = .ok (.object o) w' → ∀ t m,
        Eval.findMember r (.object o) member = .ok (t, m) →
        ∃ n, Eval.findMember r (.object o) other = .ok (t, n) ∧
          n.IsBeside r.directory o.typeName m) →
      ∀ (p : Program) (span : Span), p.Loads (.member place other span) →
      ∀ y w', p.run r w₁ = .ok y w' → ∃ y' w'', p.run r w₂ = .ok y' w'' ∧
        w''.memory.datum r.directory y' = w'.memory.datum r.directory y) ∧
    ∀ other, (Place.member owner name span').root? ≠ some other →
      w₂.bindings.find? other = w₁.bindings.find? other := by
  have hplace : Place.assign r (.member owner name span') v w₁ = .ok x w₂ := by
    rw [Program.run_assign] at hassign
    have h := Eval.ok_of_located hassign
    rwa [run_bind_of_ok hvalue] at h
  obtain ⟨hupdated, hadmits⟩ := updated_of_assign hr hcopies hchain hs hv hplace
  refine ⟨fun p hp => ?_, fun place member hpasses other hother p span hp y w' hy => ?_,
    fun _ => hupdated.others⟩
  · obtain ⟨y, w₃, hread, hd⟩ := hupdated.reads
    exact ⟨y, w₃, hp.run_of_read hupdated.isFieldChain hread
      (Directory.admits_of_datum_eq hd.symm hadmits), hd⟩
  · obtain ⟨typeName, c, c', hbefore, hafter, hturns⟩ := hupdated.passed hpasses
    obtain ⟨o, w₃, hread, rfl, -⟩ := id hbefore
    obtain ⟨-, hfields⟩ := hchain.of_passes hpasses
    obtain ⟨_, t, m, ⟨⟩, hm, -⟩ := hfields _ w₃ hread
    obtain ⟨n, hn, hbeside⟩ := hother o w₃ hread t m hm
    have hfound (o' : ObjectRef) (ho' : o'.typeName = o.typeName) :
        Eval.findMember r (.object o') other = .ok (t, n) :=
      (Eval.findMember_object ho' other).trans hn
    have hgives := (Place.reads_member_iff hbefore hfound hbeside.isLocal).mp
      ⟨y, w', hp.read_of_run hy, rfl⟩
    have hgives' : n.Gives r.directory o.typeName c' (w'.memory.datum r.directory y) := by
      rcases hturns with rfl | ⟨t', m', hm', hturns⟩
      · exact hgives
      · obtain ⟨-, rfl⟩ := Prod.mk.inj (Except.ok.inj (hm.symm.trans (hm' o rfl)))
        exact hbeside.kept hturns hgives
    exact hp.run_of_reads (hupdated.isFieldChain.of_passes hpasses).1 hafter hfound hbeside.isLocal
      hgives' fun μ y' hd => Directory.admits_of_datum_eq hd.symm (hp.admits_of_run hy)

end Program

namespace Sample

/-- A scene and the shapes in it. -/
def stage : Registry host :=
  ⟨[Scene.typeDef.toHostType, Rect.typeDef.toHostType, Point.typeDef.toHostType]⟩

def staged (n : Int64) : World host where
  memory := ⟨#[.host (.scene ⟨⟨⟨1, .zero⟩, "a"⟩, .null⟩)], Settings.initialLevel⟩
  bindings := ⟨[.infer "sc" (.object ⟨0, "Scene"⟩), .infer "n" (.int n)]⟩

/-- The places `sc.Main`, `sc.Main.Origin` and `sc.Main.Origin.X`. -/
def mainPlace : Place := .member (.var "sc") "Main" ⟨0, 7⟩

def originPlace : Place := .member mainPlace "Origin" ⟨0, 14⟩

def xPlace : Place := .member originPlace "X" ⟨0, 16⟩

theorem isLawful_facetOf {T : Type} {view? : Object → Option T} {embed : T → Object}
    (hembed : ∀ t, view? (embed t) = some t) (hview : ∀ o t, view? o = some t → embed t = o) :
    (facetOf view? embed).IsLawful where
  view_embed := hembed
  embed_view {c t} h := by
    cases c with
    | list => cases h
    | host o => exact congrArg Content.host (hview o t h)

theorem isLawful_point : Point.facet.IsLawful :=
  isLawful_facetOf (fun _ => rfl) fun o t h => by cases o <;> cases h; rfl

theorem isLawful_rect : Rect.facet.IsLawful :=
  isLawful_facetOf (fun _ => rfl) fun o t h => by cases o <;> cases h; rfl

theorem isLawful_scene : Scene.facet.IsLawful :=
  isLawful_facetOf (fun _ => rfl) fun o t h => by cases o <;> cases h; rfl

theorem isLawful_codingOf {T : Type} {types : Directory} {facet : Facet host T} {typeName : String}
    (hfacet : facet.IsLawful) (htype : ∀ id, types.holdsValueType (.object ⟨id, typeName⟩) = true) :
    (codingOf facet typeName).IsLawful types fun t => .record typeName (some (facet.embed t)) where
  encode t μ := by
    have hcreate := Action.create_adds facet typeName t μ
    obtain ⟨hμ, hnone, -, hc⟩ := hcreate.ok (a := ⟨μ.cells.size, typeName⟩) rfl
    refine ⟨.object ⟨μ.cells.size, typeName⟩, _, rfl, hμ, fun p hp _ => ?_, ?_⟩
    · obtain rfl := Value.object.inj hp
      exact hnone
    · rw [Memory.datum_of_valueType (htype _), hc]
  decode v μ := by
    cases v with
    | object o =>
        refine (Action.read_adds facet o μ).imp fun t _ _ ht y hv => ?_
        obtain ⟨c, hc, hview⟩ := Option.bind_eq_some_iff.mp ht.2
        have ho : o.typeName = typeName := by simpa [TypeTag.Holds, Datum.typeTag, Value.typeTag] using hv
        have hvalue := htype o.id
        rw [← ho] at hvalue ⊢
        rw [Memory.datum_of_valueType hvalue, hc, hfacet.embed_view hview]
    | null | bool | int | float | string | enum | typeRoot => exact Memory.Intact.refl μ

theorem isLawful_int (types : Directory) :
    (Coding.int : Coding host Int64).IsLawful types fun n => .shared (.int n) where
  encode n μ := ⟨.int n, μ, rfl, .refl μ, Value.isNew_of_not_holdsValueType rfl, rfl⟩
  decode v μ := by
    cases v with
    | int n => exact .pure fun _ _ => rfl
    | null | bool | float | string | enum | object | typeRoot => exact Memory.Intact.refl μ

theorem isLawful_string (types : Directory) :
    (Coding.string : Coding host String).IsLawful types fun s => .shared (.string s) where
  encode s μ := ⟨.string s, μ, rfl, .refl μ, Value.isNew_of_not_holdsValueType rfl, rfl⟩
  decode v μ := by
    cases v with
    | string s => exact .pure fun _ _ => rfl
    | null | bool | float | int | enum | object | typeRoot => exact Memory.Intact.refl μ

theorem copiesValues_stage : stage.CopiesValues := by
  apply Registry.copiesValues_of_types
  simp only [stage, List.forall_mem_cons]
  exact ⟨.inl ⟨rfl, fun _ => rfl⟩, .inr ⟨rfl, _, _, isLawful_rect, fun _ => rfl⟩,
    .inr ⟨rfl, _, _, isLawful_point, fun _ => rfl⟩, by simp⟩

theorem isFieldChain_xPlace (n : Int64) : xPlace.IsFieldChain stage (staged n) := by
  have hpoint : Point.coding.IsLawful stage.directory fun p => .record "Point" _ :=
    isLawful_codingOf isLawful_point fun _ => rfl
  have hrect : Rect.coding.IsLawful stage.directory fun p => .record "Rect" _ :=
    isLawful_codingOf isLawful_rect fun _ => rfl
  refine .member _ (.member _ (.member _ (.var "sc") fun q w' h => ?_) fun q w' h => ?_)
    fun q w' h => ?_
  · have hread : (Place.var "sc").read stage (staged n) = .ok (.object ⟨0, "Scene"⟩) (staged n) := rfl
    obtain ⟨rfl, -⟩ := EStateM.Result.ok.inj (hread.symm.trans h)
    exact ⟨_, _, _, rfl, rfl, Member.isRecordField_of_coding isLawful_scene hrect _ _
      (fun _ _ => rfl) fun _ _ => .inl rfl⟩
  · obtain ⟨w₁, hread⟩ : ∃ w₁, mainPlace.read stage (staged n) = .ok (.object ⟨1, "Rect"⟩) w₁ := ⟨_, rfl⟩
    obtain ⟨rfl, -⟩ := EStateM.Result.ok.inj (hread.symm.trans h)
    exact ⟨_, _, _, rfl, rfl, Member.isRecordField_of_coding isLawful_rect hpoint _ _
      (fun _ _ => rfl) fun _ _ => .inr rfl⟩
  · obtain ⟨w₁, hread⟩ : ∃ w₁, originPlace.read stage (staged n) = .ok (.object ⟨2, "Point"⟩) w₁ :=
      ⟨_, rfl⟩
    obtain ⟨rfl, -⟩ := EStateM.Result.ok.inj (hread.symm.trans h)
    exact ⟨_, _, _, rfl, rfl, Member.isRecordField_of_coding isLawful_point (isLawful_int _) _ _
      (fun _ _ => rfl) fun _ _ => .inr rfl⟩

/-- The scene is the only shared object on the way. -/
theorem sound_xPlace (n : Int64) : xPlace.Sound stage (staged n) fun _ => "Scene" := by
  have hmain : ∃ w, mainPlace.read stage (staged n) = .ok (.object ⟨1, "Rect"⟩) w := ⟨_, rfl⟩
  have horigin : ∃ w, originPlace.read stage (staged n) = .ok (.object ⟨2, "Point"⟩) w := ⟨_, rfl⟩
  have hmain' := Place.not_shares_of_read hmain.choose_spec rfl
  have horigin' := Place.not_shares_of_read horigin.choose_spec rfl
  have hscene {name : String} {x : Variable} (hroot : xPlace.root? = some name)
      (hx : (staged n).bindings.find? name = some x) : x = .infer "sc" (.object ⟨0, "Scene"⟩) := by
    obtain rfl := Option.some.inj hroot
    exact (Option.some.inj hx).symm
  constructor
  · intro name x hroot hx
    exact ⟨.object ⟨0, "Scene"⟩, by rw [hscene hroot hx]; rfl⟩
  · intro name x o hroot hx ho hv
    rw [hscene hroot hx] at ho
    cases ho
    cases hv
  · intro owner o howner hshares
    simp only [xPlace, originPlace, mainPlace, Place.owners, List.mem_cons, List.not_mem_nil,
      or_false] at howner
    rcases howner with rfl | rfl | rfl
    · exact (horigin' o hshares).elim
    · exact (hmain' o hshares).elim
    · obtain ⟨w, h⟩ := hshares.2
      obtain ⟨ho, -⟩ := EStateM.Result.ok.inj (h : EStateM.Result.ok _ _ = _)
      cases ho
      exact ⟨⟨_, rfl⟩, rfl⟩
  · exact .cons (fun _ _ o _ h => (horigin' o h).elim)
      (.cons (fun _ _ o _ h => (hmain' o h).elim) (List.pairwise_singleton ..))

theorem isTabled_stage : stage.IsTabled := by
  simp only [Registry.IsTabled, stage, List.forall_mem_cons]
  exact ⟨.typeDef _ (fun _ h => by cases h), .typeDef _ (fun _ h => ⟨_, _, (Option.some.inj h).symm⟩),
    .typeDef _ (fun _ h => ⟨_, _, (Option.some.inj h).symm⟩), by simp⟩

theorem label_beside_origin {n : Int64} {o : ObjectRef} {w : World host}
    (h : mainPlace.read stage (staged n) = .ok (.object o) w) {t : HostType host} {m : Member host}
    (hm : Eval.findMember stage (.object o) "Origin" = .ok (t, m)) :
    ∃ label, Eval.findMember stage (.object o) "Label" = .ok (t, label) ∧
      label.IsBeside stage.directory o.typeName m := by
  obtain ⟨w₁, hread⟩ : ∃ w₁, mainPlace.read stage (staged n) = .ok (.object ⟨1, "Rect"⟩) w₁ := ⟨_, rfl⟩
  obtain ⟨ho, -⟩ := EStateM.Result.ok.inj (hread.symm.trans h)
  obtain rfl := Value.object.inj ho
  obtain ⟨rfl, rfl⟩ := Prod.mk.inj (Except.ok.inj hm)
  exact ⟨_, rfl, Member.isBeside_of_coding isLawful_rect
    (isLawful_codingOf isLawful_point fun _ => rfl) (isLawful_string _) _ _ _ _ _ _ fun _ _ => rfl⟩

end Sample

open Sample in
/-- The assignment `sc.Main.Origin.X = n = 7` writes to a point in a rectangle in a scene. The label of
the rectangle stays, and so does the value that `n` has by then. -/
theorem Program.run_assign_lawful_staged :
    let value : Program := [.assign ⟨19, 24⟩ (.var "n") [.push ⟨23, 24⟩ (.int 7)]]
    let assigned := Program.run stage [.assign ⟨0, 24⟩ xPlace value] (staged 1)
    let origin : Program := [.load ⟨0, 2⟩ "sc", .get ⟨0, 7⟩ "Main", .get ⟨0, 14⟩ "Origin"]
    let label : Program := [.load ⟨0, 2⟩ "sc", .get ⟨0, 7⟩ "Main", .get ⟨0, 13⟩ "Label"]
    ∃ w, value.run stage (staged 1) = .ok (.int 7) (staged 7) ∧ assigned = .ok (.int 7) w ∧
      (∃ y w', Program.run stage (origin ++ [.get ⟨0, 16⟩ "X"]) w = .ok y w' ∧
        w'.memory.datum stage.directory y = .shared (.int 7)) ∧
      (∃ y w', label.run stage w = .ok y w' ∧
        w'.memory.datum stage.directory y = .shared (.string "a")) ∧
      w.bindings.find? "n" = (staged 7).bindings.find? "n" := by
  intro value assigned origin label
  have hvalue : value.run stage (staged 1) = .ok (.int 7) (staged 7) := rfl
  obtain ⟨w, hassigned⟩ : ∃ w, assigned = .ok (.int 7) w := ⟨_, rfl⟩
  obtain ⟨hread, hother, hvariable⟩ := Program.run_assign_lawful isTabled_stage copiesValues_stage hvalue
    hassigned (isFieldChain_xPlace 7) (sound_xPlace 7) fun _ h => by cases h
  have hmain : Program.Loads [.load ⟨0, 2⟩ "sc", .get ⟨0, 7⟩ "Main"] mainPlace :=
    .member _ _ _ (.var _ _)
  refine ⟨w, hvalue, hassigned, ?_, ?_, hvariable "n" (by decide)⟩
  · exact hread (origin ++ _) (.member _ _ _ (.member (p := [_, _]) _ _ _ hmain))
  · obtain ⟨w', hlabel⟩ : ∃ w', label.run stage (staged 7) = .ok (.string "a") w' := ⟨_, rfl⟩
    exact hother mainPlace "Origin" (.owner .last) "Label"
      (fun _ _ h _ _ hm => label_beside_origin h hm) label ⟨0, 13⟩
      (.member (p := [_, _]) _ _ _ hmain) _ w' hlabel

end Formula
