import Formula.Proofs.Access
import Formula.Proofs.Outcomes
import Formula.Proofs.TypeTable

/-!
Registries with an alarm for values of unregistered types that are about to reach a getter, a setter or
the body of a method. The alarm may do anything that a host may do; as it never makes a difference, it
never goes off.
-/

namespace Formula

variable {H : Host}

/-- Neither an object nor an enumeration value of a type that is not registered. -/
def Directory.Admits (types : Directory) (v : Value) : Prop := types.checkAllowed v = .ok ()

instance (types : Directory) (v : Value) : Decidable (types.Admits v) :=
  inferInstanceAs (Decidable (_ = _))

/-- The alarm, unless all values are admitted. -/
def Directory.watch (types : Directory) (alarm : List Value → Action H Unit) (vs : List Value) :
    Action H Unit :=
  if ∀ v ∈ vs, types.Admits v then pure () else alarm vs

theorem Directory.watch_of_admits {types : Directory} {alarm : List Value → Action H Unit}
    {vs : List Value} (h : ∀ v ∈ vs, types.Admits v) : types.watch alarm vs = pure () := if_pos h

section

variable (types : Directory) (alarm : List Value → Action H Unit)

/-- Getters are watched for their receiver, and setters for what they store as well. -/
def Member.watched (m : Member H) : Member H where
  name := m.name
  kind := m.kind
  getter? := m.getter?.map fun get o => do
    types.watch alarm [o]
    get o
  setter? := m.setter?.map fun set o v => do
    types.watch alarm [o, v]
    set o v

/-- Bodies are watched for their receiver and arguments. -/
def Method.watched (f : Method H) : Method H where
  name := f.name
  params := f.params
  generics := f.generics
  isVoid := f.isVoid
  body c := do
    types.watch alarm (c.receiver :: c.args)
    f.body c

def HostType.watched (t : HostType H) : HostType H where
  toTypeInfo := t.toTypeInfo
  member? name := (t.member? name).map (·.watched types alarm)
  methods? name := (t.methods? name).map (·.map (·.watched types alarm))
  staticMember? name := (t.staticMember? name).map (·.watched types alarm)
  staticMethods? name := (t.staticMethods? name).map (·.map (·.watched types alarm))
  copy? := t.copy?

@[simp]
theorem HostType.tag_watched (t : HostType H) : (t.watched types alarm).tag = t.tag := rfl

end

namespace Registry

variable (r : Registry H) (alarm : List Value → Action H Unit)

def watched : Registry H := ⟨r.types.map (·.watched r.directory alarm)⟩

@[simp]
theorem find?_watched (name : String) :
    (r.watched alarm).find? name = (r.find? name).map (·.watched r.directory alarm) := by
  simp only [find?, watched, List.find?_map]
  rfl

@[simp]
theorem directory_watched : (r.watched alarm).directory = r.directory := by
  rw [directory, directory]
  congr 1
  funext name
  rw [find?_watched, Option.map_map]
  rfl

theorem typeOf_watched (v : Value) :
    (r.watched alarm).typeOf v = (r.typeOf v).map (·.watched r.directory alarm) := by
  rw [typeOf, typeOf, find?_watched]
  cases r.find? v.typeTag.name <;> rfl

theorem copyOnLoad_watched (v : Value) : (r.watched alarm).copyOnLoad v = r.copyOnLoad v := by
  cases v with
  | object o =>
      have h : ((r.watched alarm).find? o.typeName).bind (·.copy? o) =
          (r.find? o.typeName).bind (·.copy? o) := by
        rw [find?_watched, Option.bind_map]
        rfl
      rw [copyOnLoad, copyOnLoad, h]
  | null | bool | int | float | string | enum | typeRoot => rfl

variable {r}

theorem admits_of_find? {v : Value} {t : HostType H} (h : r.find? v.typeTag.name = some t) :
    r.directory.Admits v := by
  have hreg : r.directory.isRegistered v.typeTag.name = true := by
    simp [Directory.isRegistered, directory, h]
  cases v with
  | object o => exact if_pos hreg
  | enum e => exact if_pos hreg
  | null | bool | int | float | string | typeRoot => rfl

theorem admits_of_holdsValueType {v : Value} (h : r.directory.holdsValueType v = true) :
    r.directory.Admits v := by
  cases v with
  | object o =>
      cases hf : r.directory.find? o.typeName with
      | none => simp [Directory.holdsValueType, hf] at h
      | some info => simp [Directory.Admits, Directory.checkAllowed, Directory.isRegistered, hf]
  | null | bool | int | float | string | enum | typeRoot => simp [Directory.holdsValueType] at h

theorem IsTabled.admits_of_declares (hr : r.IsTabled) {name : String} {e : EnumValue}
    (h : r.directory.Declares name e) : r.directory.Admits (.enum e) := by
  obtain ⟨rfl, t, ht, -⟩ := hr.declares h
  exact admits_of_find? ht

end Registry

theorem Method.firstAccepting_map {types : Directory} {args : List Value} {typeArgs : List TypeTag}
    {g : Method H → Method H}
    (hg : ∀ f, (g f).params = f.params ∧ (g f).generics = f.generics) (fs : List (Method H))
    (fault? : Option Fault) :
    firstAccepting types args typeArgs fault? (fs.map g) =
      (firstAccepting types args typeArgs fault? fs).map (Prod.map g id) := by
  induction fs generalizing fault? with
  | nil => rfl
  | cons f fs ih =>
      have hfits : (g f).fits args typeArgs = f.fits args typeArgs := by
        rw [fits, fits, (hg f).1, (hg f).2]
      rw [List.map_cons, firstAccepting, firstAccepting, hfits, (hg f).1]
      split
      · split
        · rfl
        · exact ih _
        · exact ih _
      · exact ih _

theorem Method.select_map {types : Directory} {owner name : String}
    {overloads? : Option (List (Method H))} {args : List Value} {typeArgs : List TypeTag}
    {g : Method H → Method H} (hg : ∀ f, (g f).params = f.params ∧ (g f).generics = f.generics) :
    select types owner name (overloads?.map (·.map g)) args typeArgs =
      (select types owner name overloads? args typeArgs).map (Prod.map g id) := by
  cases overloads? with
  | none => rfl
  | some fs =>
      simp only [Option.map_some, select, firstAccepting_map hg]
      cases firstAccepting types args typeArgs none fs with
      | ok chosen => rfl
      | error fault? => cases fault? <;> rfl

namespace Eval

variable {α β : Type}

/-- Two ways to go on are the same if they are for every value that can come. -/
theorem bind_congr_of_ok {x : Eval H α} {f g : α → Eval H β}
    (h : ∀ w a w', x w = .ok a w' → f a = g a) : x >>= f = x >>= g := by
  funext w
  cases hr : x w with
  | ok a w' => rw [run_bind_of_ok hr, run_bind_of_ok hr, h w a w' hr]
  | error e w' => rw [run_bind_of_error hr, run_bind_of_error hr]

theorem ok_of_liftM {x : Except Fault α} {w w' : World H} {a : α}
    (h : (liftM x : Eval H α) w = .ok a w') : x = .ok a := by
  cases x with
  | ok b =>
      obtain ⟨rfl, -⟩ := EStateM.Result.ok.inj h
      rfl
  | error f => cases h

theorem liftM_ok (a : α) : (liftM (Except.ok a : Except Fault α) : Eval H α) = pure a := rfl

theorem liftM_map_bind (x : Except Fault α) {γ : Type} (g : α → γ) (f : γ → Eval H β) :
    (liftM (x.map g) : Eval H γ) >>= f = (liftM x : Eval H α) >>= fun a => f (g a) := by
  cases x <;> rfl

variable {r : Registry H} {alarm : List Value → Action H Unit}

theorem load_watched (name : String) : load (r.watched alarm) name = load r name := by
  simp only [load, Registry.directory_watched, Registry.copyOnLoad_watched]

theorem findMember_watched (o : Value) (name : String) :
    findMember (r.watched alarm) o name =
      (findMember r o name).map fun (t, m) =>
        (t.watched r.directory alarm, m.watched r.directory alarm) := by
  rw [findMember, findMember, Registry.typeOf_watched]
  cases r.typeOf o with
  | error f => rfl
  | ok t =>
      simp only [Except.map, bind, Except.bind, HostType.watched]
      cases o.isTypeRoot with
      | true => cases t.staticMember? name <;> rfl
      | false => cases t.member? name <;> rfl

theorem get_watched {m : Member H} {o : Value} (h : r.directory.Admits o) (owner : String) :
    (m.watched r.directory alarm).get o owner = m.get o owner := by
  have ho : ∀ v ∈ [o], r.directory.Admits v := by simpa using h
  cases hg : m.getter? <;> simp [Member.get, Member.watched, hg, Directory.watch_of_admits ho]

theorem set_watched {m : Member H} {o v : Value} (h : r.directory.Admits o)
    (hv : r.directory.Admits v) (owner : String) :
    (m.watched r.directory alarm).set o v owner = m.set o v owner := by
  have ho : ∀ w ∈ [o, v], r.directory.Admits w := by simpa using ⟨h, hv⟩
  cases hs : m.setter? <;> simp [Member.set, Member.watched, hs, Directory.watch_of_admits ho]

/-- To go on with a member of a watched type is to go on with the member itself, as the owner is of a
registered type. -/
theorem findMember_bind_watched {o : Value} {name : String}
    {f g : HostType H × Member H → Eval H α}
    (h : ∀ t m, r.directory.Admits o →
      f (t.watched r.directory alarm, m.watched r.directory alarm) = g (t, m)) :
    (liftM (findMember (r.watched alarm) o name) : Eval H _) >>= f =
      (liftM (findMember r o name) : Eval H _) >>= g := by
  rw [findMember_watched]
  cases hm : findMember r o name with
  | error fault => rfl
  | ok found => exact h found.1 found.2 (Registry.admits_of_find? (findMember_eq_ok hm).1)

theorem readMember_watched (o : Value) (name : String) :
    readMember (r.watched alarm) o name = readMember r o name := by
  refine findMember_bind_watched fun t m ho => ?_
  simp only [get_watched ho]
  rfl

theorem writeMember_watched {o v : Value} (name : String) (hv : r.directory.Admits v) :
    writeMember (r.watched alarm) o name v = writeMember r o name v := by
  refine findMember_bind_watched fun t m ho => ?_
  simp only [set_watched ho hv]
  rfl

/-- What stands before a step is only reached by admitted values. -/
theorem checkAllowed_bind {v : Value} {x y : Eval H α} (h : r.directory.Admits v → x = y) :
    (liftM (r.directory.checkAllowed v) : Eval H Unit) >>= (fun _ => x) =
      (liftM (r.directory.checkAllowed v) : Eval H Unit) >>= fun _ => y :=
  bind_congr_of_ok fun _ _ _ hv => h (ok_of_liftM hv)

theorem updateMember_watched (o : Value) (name : String) (v : Value) :
    updateMember (r.watched alarm) o name v = updateMember r o name v := by
  refine findMember_bind_watched fun t m ho => ?_
  have hw : (m.watched r.directory alarm).isWritable = m.isWritable := by
    simp [Member.isWritable, Member.watched]
  have hr : (m.watched r.directory alarm).isReadable = m.isReadable := by
    simp [Member.isReadable, Member.watched]
  have hstore (new : Value) :
      (do
        r.directory.checkAllowed new
        (m.watched r.directory alarm).set o new t.tag.name
        return new : Eval H Value) = (do
        r.directory.checkAllowed new
        m.set o new t.tag.name
        return new) :=
    checkAllowed_bind fun hnew => by rw [set_watched ho hnew]
  simp only [hw, hr, get_watched ho, HostType.tag_watched, Registry.directory_watched, hstore]

theorem access_watched (o : Value) (name : String) :
    access (r.watched alarm) o name = access r o name := by
  simp only [access, readMember_watched, Registry.directory_watched]

/-- The overload that is chosen gets admitted values, if it is called with such. -/
theorem invoke_watched (hr : r.IsTabled) (o : Value) (name : String) (typeArgs : List TypeTag)
    {args : List Value} (hargs : ∀ v ∈ args, r.directory.Admits v) :
    invoke (r.watched alarm) o name typeArgs args = invoke r o name typeArgs args := by
  rw [invoke, invoke, Registry.typeOf_watched]
  cases ht : r.typeOf o with
  | error f => rfl
  | ok t =>
      have ho := Registry.admits_of_find? (Registry.find?_of_typeOf ht)
      have hoverloads :
          (if o.isTypeRoot = true then (t.watched r.directory alarm).staticMethods? name
            else (t.watched r.directory alarm).methods? name) =
          (if o.isTypeRoot = true then t.staticMethods? name else t.methods? name).map
            (·.map (·.watched r.directory alarm)) := by
        cases o.isTypeRoot <;> rfl
      simp only [liftM_ok, pure_bind, hoverloads, HostType.tag_watched,
        Registry.directory_watched, Method.select_map (g := Method.watched r.directory alarm)
          fun f => ⟨rfl, rfl⟩, liftM_map_bind]
      refine bind_congr_of_ok fun w (f, ws) w' hsel => ?_
      have hfits := (Method.select_yields ..).of_ok (ok_of_liftM hsel)
      have hws : ∀ v ∈ o :: ws, r.directory.Admits v := by
        refine List.forall_mem_cons.mpr ⟨ho, fun v hv => ?_⟩
        rcases hfits.2.2.mem hv with hv | ⟨enumName, e, rfl, he⟩
        · exact hargs v hv
        · exact hr.admits_of_declares he
      simp only [Prod.map, id, Method.watched, Directory.watch_of_admits hws, pure_bind]
      rfl

end Eval

section

variable {r : Registry H}

/-- Arguments are admitted before they come to a call. -/
theorem Program.admits_of_runAll {ps : List (List Instr)} {w w' : World H} {vs : List Value}
    (h : Program.runAll r ps w = .ok vs w') : ∀ v ∈ vs, r.directory.Admits v := by
  induction ps generalizing w w' vs with
  | nil =>
      rw [Program.runAll] at h
      obtain ⟨rfl, -⟩ := EStateM.Result.ok.inj h
      simp
  | cons p ps ih =>
      rw [Program.runAll] at h
      obtain ⟨stack, w₁, -, h⟩ := ok_of_run_bind h
      obtain ⟨v, w₂, -, h⟩ := ok_of_run_bind h
      obtain ⟨_, w₃, hv, h⟩ := ok_of_run_bind h
      obtain ⟨us, w₄, hus, h⟩ := ok_of_run_bind h
      obtain ⟨rfl, -⟩ := EStateM.Result.ok.inj h
      exact List.forall_mem_cons.mpr ⟨Eval.ok_of_liftM hv, ih hus⟩

variable (alarm : List Value → Action H Unit)

mutual

theorem Instr.step_watched (hr : r.IsTabled) (i : Instr) (stack : List Value) :
    i.step (r.watched alarm) stack = i.step r stack := by
  cases i with
  | push span c => simp only [Instr.step]
  | load span name => simp only [Instr.step, Eval.load_watched]
  | loadType span tag => simp only [Instr.step]
  | binary span op =>
      cases stack with
      | nil => simp only [Instr.step]
      | cons b stack => cases stack <;> simp only [Instr.step]
  | get span name =>
      cases stack with
      | nil => simp only [Instr.step]
      | cons o stack => simp only [Instr.step, Eval.access_watched]
  | call span name typeArgs args =>
      cases stack with
      | nil => simp only [Instr.step]
      | cons o stack =>
          simp only [Instr.step, Program.runAll_watched hr args, Registry.typeOf_watched,
            Eval.liftM_map_bind]
          congr 1
          funext _
          congr 1
          funext _
          refine Eval.bind_congr_of_ok fun w vs w' hvs => ?_
          rw [Eval.invoke_watched hr o name typeArgs (Program.admits_of_runAll hvs)]
  | ternary span cond yes no =>
      simp only [Instr.step, Program.runFrom_watched hr cond, Program.runFrom_watched hr yes,
        Program.runFrom_watched hr no]
  | assign span place value =>
      simp only [Instr.step, Program.runFrom_watched hr value, Place.assign_watched hr place]

theorem Program.runFrom_watched (hr : r.IsTabled) (p : List Instr) (stack : List Value) :
    Program.runFrom (r.watched alarm) stack p = Program.runFrom r stack p := by
  cases p with
  | nil => simp only [Program.runFrom]
  | cons i is =>
      simp only [Program.runFrom, Instr.step_watched hr i, Program.runFrom_watched hr is]

theorem Program.runAll_watched (hr : r.IsTabled) (ps : List (List Instr)) :
    Program.runAll (r.watched alarm) ps = Program.runAll r ps := by
  cases ps with
  | nil => simp only [Program.runAll]
  | cons p ps =>
      simp only [Program.runAll, Program.runFrom_watched hr p, Program.runAll_watched hr ps,
        Registry.directory_watched]

theorem Place.read_watched (hr : r.IsTabled) (place : Place) : place.read (r.watched alarm) = place.read r := by
  cases place with
  | var name => simp only [Place.read, Eval.load_watched]
  | member owner name span =>
      simp only [Place.read, Place.read_watched hr owner, Eval.readMember_watched]
  | static tag => simp only [Place.read]
  | computed program => simp only [Place.read, Program.runFrom_watched hr program]

theorem Place.writeBack_watched (hr : r.IsTabled) (place : Place) (v : Value) :
    place.writeBack (r.watched alarm) v = place.writeBack r v := by
  cases place with
  | var name => simp only [Place.writeBack, Registry.directory_watched]
  | member owner name span =>
      simp only [Place.writeBack, Registry.directory_watched, Place.read_watched hr owner,
        Place.writeBack_watched hr owner]
      split
      · next hv =>
        simp only [Eval.writeMember_watched name (Registry.admits_of_holdsValueType hv)]
      · rfl
  | static tag => simp only [Place.writeBack]
  | computed program => simp only [Place.writeBack]

theorem Place.assign_watched (hr : r.IsTabled) (place : Place) (v : Value) :
    place.assign (r.watched alarm) v = place.assign r v := by
  cases place with
  | var name => simp only [Place.assign, Eval.updateVariable, Registry.directory_watched]
  | member owner name span =>
      simp only [Place.assign, Place.read_watched hr owner, Eval.updateMember_watched,
        Place.writeBack_watched hr owner]
  | static tag => simp only [Place.assign]
  | computed program => simp only [Place.assign]

end

/-- No alarm makes a difference to any program. -/
theorem Program.run_watched (hr : r.IsTabled) (p : Program) : p.run (r.watched alarm) = p.run r := by
  rw [Program.run, Program.run, Program.runFrom_watched alarm hr]

end

end Formula
