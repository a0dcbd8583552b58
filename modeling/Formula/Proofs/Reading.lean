import Formula.Proofs.RecordField
import Formula.Proofs.Watch

/-!
Reading members along a chain. What is read depends on the variable that the chain begins at and on the
contents of the objects on the way.
-/

namespace Formula

variable {H : Host} {α β : Type}

namespace Eval

variable {r : Registry H} {w w' : World H} {o v y : Value} {name : String}

theorem ok_of_liftAction {x : Action H α} {a : α} (h : (liftM x : Eval H α) w = .ok a w') :
    ∃ μ, x w.memory = .ok a μ ∧ w' = { w with memory := μ } := by
  change ofAction x w = .ok a w' at h
  rw [ofAction] at h
  cases hx : x w.memory with
  | ok b μ =>
      rw [hx] at h
      obtain ⟨rfl, rfl⟩ := EStateM.Result.ok.inj h
      exact ⟨μ, rfl, rfl⟩
  | error f μ => rw [hx] at h; cases h

theorem liftAction_ok {x : Action H α} {a : α} {μ : Memory H} (h : x w.memory = .ok a μ) :
    (liftM x : Eval H α) w = .ok a { w with memory := μ } := by
  change ofAction x w = _
  rw [ofAction, h]

theorem ok_of_except_bind {x : Except Fault α} {f : α → Eval H β} {b : β}
    (h : (liftM x >>= f) w = .ok b w') : ∃ a, x = .ok a ∧ f a w = .ok b w' := by
  obtain ⟨a, w₁, hx, h⟩ := ok_of_run_bind h
  have hok := ok_of_liftM hx
  rw [hok] at hx
  obtain ⟨-, rfl⟩ := EStateM.Result.ok.inj hx
  exact ⟨a, hok, h⟩

theorem ok_of_action_bind {x : Action H α} {f : α → Eval H β} {b : β}
    (h : (liftM x >>= f) w = .ok b w') :
    ∃ a μ, x w.memory = .ok a μ ∧ f a { w with memory := μ } = .ok b w' := by
  obtain ⟨a, w₁, hx, h⟩ := ok_of_run_bind h
  obtain ⟨μ, hμ, rfl⟩ := ok_of_liftAction hx
  exact ⟨a, μ, hμ, h⟩

theorem ok_of_load (h : load r name w = .ok y w') :
    ∃ x μ, w.bindings.find? name = some x ∧ r.directory.Admits x.get ∧
      r.copyOnLoad x.get w.memory = .ok y μ ∧ w' = { w with memory := μ } := by
  cases hx : w.bindings.find? name with
  | none =>
      rw [load, run_bind_of_error (lookup_of_find?_none hx)] at h
      cases h
  | some x =>
      rw [load, run_bind_of_ok (lookup_of_find? hx)] at h
      obtain ⟨_, hadmits, hcopy⟩ := ok_of_except_bind h
      obtain ⟨μ, hμ, rfl⟩ := ok_of_liftAction hcopy
      exact ⟨x, μ, rfl, hadmits, hμ, rfl⟩

theorem load_ok {x : Variable} {μ : Memory H} (hx : w.bindings.find? name = some x)
    (hadmits : r.directory.Admits x.get) (hcopy : r.copyOnLoad x.get w.memory = .ok y μ) :
    load r name w = .ok y { w with memory := μ } := by
  rw [load, run_bind_of_ok (lookup_of_find? hx), hadmits, liftM_ok, pure_bind, liftAction_ok hcopy]

theorem findMember_congr (htag : o.typeTag = v.typeTag) (hroot : o.isTypeRoot = v.isTypeRoot) :
    findMember r o name = findMember r v name := by
  rw [findMember, findMember, Registry.typeOf, Registry.typeOf, htag, hroot]

theorem findMember_object {o o' : ObjectRef} (h : o.typeName = o'.typeName) (name : String) :
    findMember r (.object o) name = findMember r (.object o') name :=
  findMember_congr (congrArg TypeTag.object h) rfl

/-- What a member of an object reads as, whether or not the read has any effects. -/
theorem readMember_iff {o : ObjectRef} {t : HostType H} {m : Member H}
    (hm : findMember r (.object o) name = .ok (t, m)) {d : Datum H} :
    (∃ y w', readMember r (.object o) name w = .ok y w' ∧ w'.memory.datum r.directory y = d) ↔
      m.Yields r.directory o w.memory d := by
  have hread : readMember r (.object o) name = liftM (m.get (.object o) t.tag.name) := by
    rw [readMember, hm, liftM_ok, pure_bind]
  rw [hread]
  constructor
  · rintro ⟨y, w', h, rfl⟩
    obtain ⟨μ, hget, rfl⟩ := ok_of_liftAction h
    obtain ⟨get, hg, hget⟩ := Member.getter?_of_get_ok hget
    exact ⟨get, y, μ, hg, hget, rfl⟩
  · rintro ⟨get, y, μ, hg, hget, rfl⟩
    refine ⟨y, { w with memory := μ }, liftAction_ok ?_, rfl⟩
    rw [Member.get_of_getter? hg, hget]

theorem ok_of_writeMember {name : String} (h : writeMember r o name v w = .ok () w') :
    ∃ t m μ, findMember r o name = .ok (t, m) ∧ m.set o v t.tag.name w.memory = .ok () μ ∧
      w' = { w with memory := μ } := by
  obtain ⟨⟨t, m⟩, hfound, h⟩ := ok_of_except_bind h
  obtain ⟨μ, hset, rfl⟩ := ok_of_liftAction h
  exact ⟨t, m, μ, hfound, hset, rfl⟩

theorem ok_of_located {span : Span} {x : Eval H α} {a : α} (h : x.located span w = .ok a w') :
    x w = .ok a w' := by
  rw [located] at h
  cases hx : x w with
  | ok b w₁ => rw [hx] at h; exact h
  | error e w₁ => rw [hx] at h; cases h

theorem located_ok {span : Span} {x : Eval H α} {a : α} (h : x w = .ok a w') :
    x.located span w = .ok a w' := by
  rw [located, h]

theorem readMember_of_access (h : access r o name w = .ok y w') :
    readMember r o name w = .ok y w' ∧ r.directory.Admits y := by
  obtain ⟨_, w₁, hreceiver, h⟩ := ok_of_run_bind h
  rw [checkReceiver] at hreceiver
  split at hreceiver
  · cases hreceiver
  · obtain ⟨-, rfl⟩ := EStateM.Result.ok.inj hreceiver
    obtain ⟨v, w₂, hread, h⟩ := ok_of_run_bind h
    obtain ⟨_, hadmits, h⟩ := ok_of_except_bind h
    obtain ⟨rfl, rfl⟩ := EStateM.Result.ok.inj h
    exact ⟨hread, hadmits⟩

theorem access_of_readMember (ho : o.isNull = false) (h : readMember r o name w = .ok y w')
    (hy : r.directory.Admits y) : access r o name w = .ok y w' := by
  have hreceiver : checkReceiver o name w = .ok () w := by simp [checkReceiver, ho, pure, EStateM.pure]
  rw [access, run_bind_of_ok hreceiver, run_bind_of_ok h, hy, liftM_ok, pure_bind]
  rfl

/-- What has been done when a member that can be read has been updated. -/
theorem ok_of_updateMember {t : HostType H} {m : Member H} {new : Value}
    (hm : findMember r o name = .ok (t, m)) (hreadable : m.isReadable = true)
    (h : updateMember r o name v w = .ok new w') :
    ∃ current μ μ', m.get o t.tag.name w.memory = .ok current μ ∧
      v.convert r.directory μ current.typeTag = .ok new ∧ r.directory.Admits new ∧
      m.set o new t.tag.name μ = .ok () μ' ∧ w' = { w with memory := μ' } := by
  rw [updateMember, hm, liftM_ok, pure_bind] at h
  simp only [hreadable, if_true] at h
  split at h
  · cases h
  · obtain ⟨current, μ, hget, h⟩ := ok_of_action_bind h
    obtain ⟨_, _, hmemory, h⟩ := ok_of_run_bind h
    obtain ⟨rfl, rfl⟩ := EStateM.Result.ok.inj hmemory
    obtain ⟨new', hconvert, h⟩ := ok_of_except_bind h
    obtain ⟨_, hadmits, h⟩ := ok_of_except_bind h
    obtain ⟨_, μ', hset, h⟩ := ok_of_action_bind h
    obtain ⟨rfl, rfl⟩ := EStateM.Result.ok.inj h
    exact ⟨current, μ, μ', hget, hconvert, hadmits, hset, rfl⟩

end Eval

/-- Whether a value is refused for its type depends on no more than its structure. -/
theorem Directory.admits_of_datum_eq {types : Directory} {m m' : Memory H} {v v' : Value}
    (h : m.datum types v = m'.datum types v') (hv : types.Admits v) : types.Admits v' := by
  cases hvalue : types.holdsValueType v' with
  | false =>
      rw [Memory.datum_of_shared hvalue] at h
      exact Memory.eq_of_datum_eq_shared h ▸ hv
  | true =>
      obtain ⟨o', rfl⟩ := Directory.object_of_holdsValueType hvalue
      rw [Memory.datum_of_valueType hvalue] at h
      obtain ⟨o, rfl, ho, -⟩ := Memory.object_of_datum_eq_record h
      rw [Admits, checkAllowed] at hv ⊢
      rwa [← ho]

namespace Place

/-- The value in the place has the structure `d`. -/
def Reads (r : Registry H) (w : World H) (place : Place) (d : Datum H) : Prop :=
  ∃ y w', place.read r w = .ok y w' ∧ w'.memory.datum r.directory y = d

/-- There is an object of the type with these contents in the place, or a copy of one. -/
def HoldsObject (r : Registry H) (w : World H) (place : Place) (typeName : String) (c : Content H) :
    Prop :=
  ∃ o w', place.read r w = .ok (.object o) w' ∧ o.typeName = typeName ∧ w'.memory.get? o = some c

/-- The object is in the place and shared by all who hold it. -/
def Shares (r : Registry H) (w : World H) (place : Place) (o : ObjectRef) : Prop :=
  r.directory.holdsValueType (.object o) = false ∧ ∃ w', place.read r w = .ok (.object o) w'

/-- The owners along a chain, the last one first. -/
def owners : Place → List Place
  | .member owner _ _ => owner :: owner.owners
  | _ => []

/-- A chain of members of a variable, each a record field of the object that it is reached through. -/
inductive IsFieldChain (r : Registry H) (w : World H) : Place → Prop
  | var (name : String) : IsFieldChain r w (.var name)
  | member {owner : Place} {name : String} (span : Span) : owner.IsFieldChain r w →
      (∀ q w', owner.read r w = .ok q w' → ∃ o t m, q = .object o ∧
        Eval.findMember r (.object o) name = .ok (t, m) ∧ m.IsRecordField r o.typeName) →
      IsFieldChain r w (.member owner name span)

/-- Two worlds in which a chain is the same: the variable that it begins at, and the contents of the
objects on the way, unless they are copied from there. -/
structure Agrees (r : Registry H) (w w' : World H) (place : Place) : Prop where
  root : ∀ {name}, place.root? = some name → w'.bindings.find? name = w.bindings.find? name
  rootObject : ∀ {name x o}, place.root? = some name → w.bindings.find? name = some x →
    x.get = .object o → r.directory.holdsValueType (.object o) = true →
    w'.memory.get? o = w.memory.get? o
  owner : ∀ {owner o}, owner ∈ place.owners → owner.Shares r w o →
    ∃ c, w.memory.get? o = some c ∧ w'.memory.get? o = some c

variable {r : Registry H} {w w' w₁ : World H} {place owner : Place} {name typeName : String}
  {span : Span} {c : Content H} {d : Datum H} {t : HostType H} {m : Member H}

theorem Agrees.ofMember (h : (Place.member owner name span).Agrees r w w') : owner.Agrees r w w' :=
  ⟨h.root, h.rootObject, fun ho => h.owner (List.mem_cons_of_mem _ ho)⟩

/-- Reading a member of an object in a place, by what the object is. -/
theorem reads_member_iff (h : owner.HoldsObject r w typeName c)
    (hm : ∀ o : ObjectRef, o.typeName = typeName → Eval.findMember r (.object o) name = .ok (t, m))
    (hlocal : m.IsLocal r.directory typeName) :
    (Place.member owner name span).Reads r w d ↔ m.Gives r.directory typeName c d := by
  obtain ⟨o, w₁, hread, ho, hc⟩ := h
  have hrun : (Place.member owner name span).read r w = Eval.readMember r (.object o) name w₁ := by
    rw [read, run_bind_of_ok hread]
  rw [Reads, hrun, Eval.readMember_iff (hm o ho)]
  exact ⟨fun hd => ⟨o, w₁.memory, ho, hc, hd⟩, fun hd => hd.yields hlocal ho hc⟩

/-- What is read on the way is left as it was, and copied if it is of a value type. -/
theorem read_intact (hr : r.CopiesValues) (hchain : place.IsFieldChain r w) {y : Value}
    (h : place.read r w = .ok y w₁) : w.Intact w₁ ∧ y.IsNew r.directory w.memory := by
  induction hchain generalizing y w₁ with
  | var name =>
      rw [read] at h
      obtain ⟨x, μ, -, -, hcopy, rfl⟩ := Eval.ok_of_load h
      obtain ⟨hμ, hnew, -⟩ := (hr.adds x.get w.memory).ok hcopy
      exact ⟨⟨rfl, hμ⟩, hnew⟩
  | member span _ hmember ih =>
      rw [read] at h
      obtain ⟨q, w₂, hq, h⟩ := ok_of_run_bind h
      obtain ⟨o, t, m, rfl, hm, hfield⟩ := hmember q w₂ hq
      obtain ⟨hw, -⟩ := ih hq
      rw [Eval.readMember, hm, Eval.liftM_ok, pure_bind] at h
      obtain ⟨μ, hget, rfl⟩ := Eval.ok_of_liftAction h
      obtain ⟨get, hg, hget⟩ := Member.getter?_of_get_ok hget
      obtain ⟨hμ, hnew⟩ := (hfield.get_adds hg rfl _).ok hget
      exact ⟨⟨hw.bindings, hw.memory.trans hμ⟩, hnew.of_intact hw.memory⟩

/-- What has been read through an owner is there as a field of an object. -/
theorem IsFieldChain.holdsObject (hchain : (Place.member owner name span).IsFieldChain r w)
    (h : (Place.member owner name span).Reads r w d) :
    ∃ typeName c t m, owner.HoldsObject r w typeName c ∧
      (∀ o : ObjectRef, o.typeName = typeName →
        Eval.findMember r (.object o) name = .ok (t, m)) ∧
      m.IsRecordField r typeName ∧ m.Gives r.directory typeName c d := by
  obtain ⟨y, w₁, hread, rfl⟩ := h
  rw [read] at hread
  obtain ⟨q, w₂, hq, hmember⟩ := ok_of_run_bind hread
  cases hchain with
  | member _ _ hfields =>
    obtain ⟨o, t, m, rfl, hm, hfield⟩ := hfields q w₂ hq
    have hd := (Eval.readMember_iff hm).mp ⟨y, w₁, hmember, rfl⟩
    obtain ⟨c, hc⟩ := hfield.exists_of_get rfl hd
    exact ⟨o.typeName, c, t, m, ⟨o, w₂, hq, rfl, hc⟩,
      fun p hp => (Eval.findMember_object hp name).trans hm, hfield, o, w₂.memory, rfl, hc, hd⟩

/-- The object in a place is the same where the same is read, if its contents are unless it is
copied. -/
theorem HoldsObject.of_reads (hr : r.CopiesValues) (hchain : place.IsFieldChain r w)
    (hchain' : place.IsFieldChain r w') (hreads : ∀ d, place.Reads r w d → place.Reads r w' d)
    (hshared : ∀ o, place.Shares r w o → ∃ c, w.memory.get? o = some c ∧ w'.memory.get? o = some c)
    (h : place.HoldsObject r w typeName c) : place.HoldsObject r w' typeName c := by
  obtain ⟨o, w₁, hread, rfl, hc⟩ := h
  obtain ⟨y, w₁', hread', hd⟩ := hreads _ ⟨_, w₁, hread, rfl⟩
  cases hv : r.directory.holdsValueType (.object o) with
  | true =>
      rw [Memory.datum_of_valueType hv, hc] at hd
      obtain ⟨o', rfl, ho', hc'⟩ := Memory.object_of_datum_eq_record hd
      exact ⟨o', w₁', hread', ho', hc'⟩
  | false =>
      rw [Memory.datum_of_shared hv] at hd
      obtain rfl := Memory.eq_of_datum_eq_shared hd
      obtain ⟨c', hw, hw'⟩ := hshared o ⟨hv, w₁, hread⟩
      obtain rfl := Option.some.inj (((read_intact hr hchain hread).1.memory.get? hw).symm.trans hc)
      exact ⟨o, w₁', hread', rfl, (read_intact hr hchain' hread').1.memory.get? hw'⟩

/-- The variable at the beginning of a chain. -/
theorem reads_var_of_agrees (hr : r.CopiesValues) (ha : (Place.var name).Agrees r w w')
    (hd : (Place.var name).Reads r w d) : (Place.var name).Reads r w' d := by
  obtain ⟨y, w₁, hread, rfl⟩ := hd
  rw [read] at hread
  obtain ⟨x, μ, hx, hadmits, hcopy, rfl⟩ := Eval.ok_of_load hread
  have hx' : w'.bindings.find? name = some x := (ha.root rfl).trans hx
  suffices h : ∃ y' μ', r.copyOnLoad x.get w'.memory = .ok y' μ' ∧
      μ'.datum r.directory y' = μ.datum r.directory y by
    obtain ⟨y', μ', hcopy', hd⟩ := h
    exact ⟨y', _, by rw [read, Eval.load_ok hx' hadmits hcopy'], hd⟩
  cases hv : r.directory.holdsValueType x.get with
  | false =>
      rw [hr.shared hv] at hcopy ⊢
      obtain ⟨rfl, rfl⟩ := EStateM.Result.ok.inj hcopy
      exact ⟨x.get, w'.memory, rfl, by rw [Memory.datum_of_shared hv, Memory.datum_of_shared hv]⟩
  | true =>
      obtain ⟨o, ho⟩ := Directory.object_of_holdsValueType hv
      rw [ho] at hv hcopy ⊢
      have hget := ha.rootObject rfl hx ho hv
      obtain ⟨y', μ', hcopy'⟩ := hr.congr rfl hget.symm hcopy
      refine ⟨y', μ', hcopy', ?_⟩
      rw [((hr.adds _ _).ok hcopy').2.2, ((hr.adds _ _).ok hcopy).2.2,
        Memory.datum_of_valueType hv, Memory.datum_of_valueType hv, hget]

theorem reads_of_agrees (hr : r.CopiesValues) (hchain : place.IsFieldChain r w)
    (ha : place.Agrees r w w') (hd : place.Reads r w d) :
    place.IsFieldChain r w' ∧ place.Reads r w' d := by
  induction hchain generalizing d with
  | var name => exact ⟨.var name, reads_var_of_agrees hr ha hd⟩
  | @member owner name span howner hfields ih =>
      obtain ⟨typeName, c, t, m, hobject, hm, hfield, hgives⟩ :=
        (IsFieldChain.member span howner hfields).holdsObject hd
      obtain ⟨o, w₁, hread, ho, hc⟩ := id hobject
      have howner' := (ih ha.ofMember ⟨_, w₁, hread, rfl⟩).1
      have hobject' := hobject.of_reads hr howner howner' (fun d hd => (ih ha.ofMember hd).2)
        fun p hp => ha.owner (List.mem_cons_self ..) hp
      refine ⟨.member span howner' fun q w₂ hq => ?_, ?_⟩
      · obtain ⟨o', w₁', hread', ho', -⟩ := hobject'
        obtain ⟨rfl, -⟩ := EStateM.Result.ok.inj (hread'.symm.trans hq)
        exact ⟨o', t, m, rfl, hm o' ho', ho' ▸ hfield⟩
      · exact (reads_member_iff hobject' hm hfield.isLocal).mpr hgives

/-- An owner that a chain passes, and the name of the member that it goes on with. -/
inductive Passes : Place → Place → String → Prop
  | last {owner : Place} {name : String} {span : Span} : Passes (.member owner name span) owner name
  | owner {owner place : Place} {name other : String} {span : Span} : owner.Passes place other →
      Passes (.member owner name span) place other

theorem IsFieldChain.of_passes (hchain : place.IsFieldChain r w) (h : place.Passes owner name) :
    owner.IsFieldChain r w ∧ ∀ q w', owner.read r w = .ok q w' → ∃ o t m, q = .object o ∧
      Eval.findMember r (.object o) name = .ok (t, m) ∧ m.IsRecordField r o.typeName := by
  induction h with
  | last =>
      cases hchain with
      | member _ howner hfields => exact ⟨howner, hfields⟩
  | owner _ ih =>
      cases hchain with
      | member _ howner _ => exact ih howner

/-- Where nothing changes, the owners that a chain passes are the same objects. -/
theorem holdsObject_of_passes (hr : r.CopiesValues) (hchain : place.IsFieldChain r w)
    (ha : place.Agrees r w w') (hd : place.Reads r w d) (hpasses : place.Passes owner name) :
    ∃ typeName c, owner.HoldsObject r w typeName c ∧ owner.HoldsObject r w' typeName c := by
  induction hchain generalizing d with
  | var => cases hpasses
  | @member last _ span hlast hfields ih =>
      obtain ⟨typeName, c, t, m, hobject, -⟩ :=
        (IsFieldChain.member span hlast hfields).holdsObject hd
      obtain ⟨o, w₁, hread, ho, hc⟩ := id hobject
      cases hpasses with
      | last =>
          have hlast' := (reads_of_agrees hr hlast ha.ofMember ⟨_, w₁, hread, rfl⟩).1
          exact ⟨typeName, c, hobject, hobject.of_reads hr hlast hlast'
            (fun d hd => (reads_of_agrees hr hlast ha.ofMember hd).2)
            fun p hp => ha.owner (List.mem_cons_self ..) hp⟩
      | owner hpasses => exact ih ha.ofMember ⟨_, w₁, hread, rfl⟩ hpasses

end Place

/-- The programs that read a place as an expression. -/
inductive Program.Loads : Program → Place → Prop
  | var (name : String) (span : Span) : Loads [.load span name] (.var name)
  | member {p : Program} {owner : Place} (name : String) (span span' : Span) : Loads p owner →
      Loads (p ++ [.get span name]) (.member owner name span')

/-- An expression that stands for a member of a variable compiles to a program that loads it. -/
theorem Program.loads_ofExpr {scope : Scope} (e : Expr) {place : Place} {name : String}
    (h : Place.ofTarget scope e = .ok place) (hroot : place.root? = some name) :
    ∃ p, Program.ofExpr scope e = .ok p ∧ p.Loads place := by
  cases e with
  | ident span name =>
      simp only [Place.ofTarget, Scope.variableOr] at h
      split at h
      · next hvariable =>
        obtain rfl := Except.ok.inj h
        exact ⟨_, by rw [Program.ofExpr, Scope.variableOr, if_pos hvariable], .var name span⟩
      · cases h
  | member span receiver member =>
      rw [Place.ofTarget, bind_eq_ok] at h
      obtain ⟨owner, howner, h⟩ := h
      obtain rfl := Except.ok.inj h
      rw [Place.ofOwner] at howner
      cases hs : scope.static? receiver with
      | some static =>
          simp only [hs] at howner
          obtain ⟨tag, -, h⟩ := bind_eq_ok.mp howner
          obtain rfl := Except.ok.inj h
          cases hroot
      | none =>
          simp only [hs] at howner
          split at howner
          · obtain ⟨p, hp, hloads⟩ := Program.loads_ofExpr receiver howner hroot
            exact ⟨_, by rw [Program.ofExpr, Program.ofReceiver, hs]; simp only [hp]; rfl,
              hloads.member member span span⟩
          · obtain ⟨p, -, h⟩ := bind_eq_ok.mp howner
            obtain rfl := Except.ok.inj h
            cases hroot
  | literal | binary | assign | ternary | call => simp [Place.ofTarget] at h
termination_by sizeOf e

namespace Program

variable {r : Registry H} {w w' : World H} {place : Place} {p : Program} {x : Eval H Value} {y : Value}

theorem run_of_push (h : ∀ stack, Program.runFrom r stack p = (fun v => v :: stack) <$> x) :
    p.run r = x := by
  rw [Program.run, h, Program.result_of_push]

theorem runFrom_load (r : Registry H) (span : Span) (name : String) (stack : List Value) :
    Program.runFrom r stack [.load span name] =
      (fun v => v :: stack) <$> (Eval.load r name).located span := by
  rw [Program.runFrom_singleton, ← Eval.located_map]
  rfl

theorem runFrom_get (h : ∀ stack, Program.runFrom r stack p = (fun v => v :: stack) <$> x)
    (span : Span) (name : String) (stack : List Value) :
    Program.runFrom r stack (p ++ [.get span name]) =
      (fun v => v :: stack) <$> (do let o ← x; (Eval.access r o name).located span) := by
  rw [Program.runFrom_append, h]
  simp only [map_eq_pure_bind, bind_assoc, pure_bind]
  congr 1
  funext o
  rw [Program.runFrom_singleton, Instr.step, ← map_eq_pure_bind, ← map_eq_pure_bind, Eval.located_map]
  rfl

theorem Loads.runFrom (h : p.Loads place) (r : Registry H) (stack : List Value) :
    Program.runFrom r stack p = (fun v => v :: stack) <$> p.run r := by
  suffices h : ∃ x, ∀ stack, Program.runFrom r stack p = (fun v => v :: stack) <$> x by
    obtain ⟨x, hx⟩ := h
    rw [hx, run_of_push hx]
  induction h with
  | var name span => exact ⟨_, runFrom_load r span name⟩
  | member name span span' _ ih =>
      obtain ⟨x, hx⟩ := ih
      exact ⟨_, runFrom_get hx span name⟩

theorem Loads.run_member (h : p.Loads place) (r : Registry H) (name : String) (span : Span) :
    Program.run r (p ++ [.get span name]) =
      (do let o ← p.run r; (Eval.access r o name).located span : Eval H Value) :=
  run_of_push (runFrom_get (h.runFrom r) span name)

/-- What a program reads is in the place. -/
theorem Loads.read_of_run (h : p.Loads place) (hrun : p.run r w = .ok y w') :
    place.read r w = .ok y w' := by
  induction h generalizing y w' with
  | var name span =>
      rw [run_of_push (runFrom_load r span name)] at hrun
      rw [Place.read]
      exact Eval.ok_of_located hrun
  | member name span span' hp ih =>
      rw [hp.run_member] at hrun
      obtain ⟨o, w₁, ho, hrun⟩ := ok_of_run_bind hrun
      rw [Place.read, run_bind_of_ok (ih ho)]
      exact (Eval.readMember_of_access (Eval.ok_of_located hrun)).1

theorem Loads.admits_of_run {owner : Place} {name : String} {span : Span}
    (h : p.Loads (.member owner name span)) (hrun : p.run r w = .ok y w') : r.directory.Admits y := by
  cases h with
  | member _ span' _ hp =>
    rw [hp.run_member] at hrun
    obtain ⟨o, w₁, -, hrun⟩ := ok_of_run_bind hrun
    exact (Eval.readMember_of_access (Eval.ok_of_located hrun)).2

/-- Programs refuse values of unregistered types, and members of null. -/
theorem Loads.run_member_of_read {owner : Place} {o : ObjectRef} {name : String} {span : Span}
    {w₁ : World H} (h : p.Loads owner) (hrun : p.run r w = .ok (.object o) w₁)
    (hread : Eval.readMember r (.object o) name w₁ = .ok y w') (hy : r.directory.Admits y) :
    Program.run r (p ++ [.get span name]) w = .ok y w' := by
  rw [h.run_member, run_bind_of_ok hrun]
  exact Eval.located_ok (Eval.access_of_readMember rfl hread hy)

theorem Loads.run_of_read (h : p.Loads place) (hchain : place.IsFieldChain r w)
    (hread : place.read r w = .ok y w') (hy : r.directory.Admits y) : p.run r w = .ok y w' := by
  induction h generalizing y w' with
  | var name span =>
      rw [Place.read] at hread
      rw [run_of_push (runFrom_load r span name), Eval.located_ok hread]
  | member name span span' hp ih =>
      rw [Place.read] at hread
      obtain ⟨q, w₁, hq, hmember⟩ := ok_of_run_bind hread
      cases hchain with
      | member _ howner hfields =>
        obtain ⟨o, t, m, rfl, hm, -⟩ := hfields q w₁ hq
        have hadmits := Registry.admits_of_find? (Eval.findMember_eq_ok hm).1
        exact hp.run_member_of_read (ih howner hq hadmits) hmember hy

/-- The other members of an object on a chain are loaded as they are read. -/
theorem Loads.run_of_reads {owner : Place} {name typeName : String} {span : Span} {c : Content H}
    {d : Datum H} {t : HostType H} {m : Member H} (h : p.Loads (.member owner name span))
    (hchain : owner.IsFieldChain r w) (hobject : owner.HoldsObject r w typeName c)
    (hm : ∀ o : ObjectRef, o.typeName = typeName → Eval.findMember r (.object o) name = .ok (t, m))
    (hlocal : m.IsLocal r.directory typeName) (hgives : m.Gives r.directory typeName c d)
    (hd : ∀ (μ : Memory H) y, μ.datum r.directory y = d → r.directory.Admits y) :
    ∃ y w', p.run r w = .ok y w' ∧ w'.memory.datum r.directory y = d := by
  cases h with
  | member _ span' _ hp =>
    obtain ⟨o, w₁, hread, ho, hc⟩ := hobject
    have hadmits := Registry.admits_of_find? (Eval.findMember_eq_ok (hm o ho)).1
    obtain ⟨y, w', hy, hdatum⟩ := (Eval.readMember_iff (hm o ho)).mpr (hgives.yields hlocal ho hc)
    have hrun := hp.run_of_read hchain hread hadmits
    exact ⟨y, w', hp.run_member_of_read hrun hy (hd _ y hdatum), hdatum⟩

end Program

end Formula
