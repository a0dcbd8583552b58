import Formula.Proofs.BuiltinTypes
import Formula.Proofs.Session
import Formula.Sample

/-!
With the builtin types and enumerations alone, no formula leads to an internal error.
-/

namespace Formula

open Contract

variable {H : Host}

namespace Registry

/-- A registry whose types have the members of honest ones, and that finds its own type for each plain
value. -/
structure Honest (r : Registry H) : Prop where
  tabled : r.IsTabled
  types {name t} : r.find? name = some t → ∃ d : TypeDef H, d.Honest r ∧ d.tag = t.tag ∧
    t = { d.toHostType with variant? := t.variant?, variantAt? := t.variantAt? }
  tags {lists} {v : Value} {t} : v.Plain r lists → r.find? v.typeTag.name = some t →
    v.typeTag = t.tag

theorem find?_registerAll {r : Registry H} {ts : List (HostType H)} {name : String} {t : HostType H}
    (h : (registerAll r ts).find? name = some t) :
    t ∈ ts ∧ t.tag.name = name ∨ r.find? name = some t := by
  induction ts generalizing r with
  | nil => exact .inr h
  | cons u ts ih =>
      rcases ih h with ⟨hmem, hname⟩ | h
      · exact .inl ⟨List.mem_cons_of_mem _ hmem, hname⟩
      · by_cases hu : u.tag.name = name
        · subst hu
          rw [find?_register_self] at h
          obtain rfl := Option.some.inj h
          exact .inl ⟨List.mem_cons_self .., rfl⟩
        · rw [find?_register_of_ne r hu] at h
          exact .inr h

/-- The builtin types, and enumerations besides. -/
def withEnums (H : Host) (es : List Enumeration) : Registry H :=
  registerAll builtins (es.map (·.toHostType))

/-- Enumerations under names that are neither those of builtin types nor that of null. -/
def Fresh (H : Host) (es : List Enumeration) : Prop :=
  ∀ e ∈ es, e.name ≠ "null" ∧ (builtins : Registry H).find? e.name = none

variable {es : List Enumeration} {t : HostType H}

theorem isTabled_withEnums : (withEnums H es).IsTabled := by
  refine isTabled_builtins.registerAll fun t ht => ?_
  obtain ⟨e, -, rfl⟩ := List.mem_map.mp ht
  exact .enumeration e

theorem find?_withEnums {name : String} (h : (withEnums H es).find? name = some t) :
    (∃ e ∈ es, e.name = name ∧ t = e.toHostType) ∨ builtins.find? name = some t := by
  rcases find?_registerAll h with ⟨ht, hname⟩ | h
  · obtain ⟨e, he, rfl⟩ := List.mem_map.mp ht
    rw [e.tag_toHostType] at hname
    exact .inl ⟨e, he, hname, rfl⟩
  · exact .inr h

theorem honest_of_builtin {r : Registry H} (hr : r.IsTabled) {name : String}
    (h : builtins.find? name = some t) : ∃ d : TypeDef H, d.Honest r ∧ t = d.toHostType := by
  have hall : ∀ d ∈ [Builtin.Strings.typeDef, Builtin.Primitive.int, Builtin.Primitive.float,
      Builtin.Primitive.bool, Builtin.Sequence.typeDef, Builtin.Math.typeDef,
      Builtin.Convert.typeDef], TypeDef.Honest r (d : TypeDef H) := by
    simp only [List.forall_mem_cons]
    exact ⟨Builtin.Strings.honest_typeDef, Builtin.Primitive.honest_int,
      Builtin.Primitive.honest_float, Builtin.Primitive.honest_bool, Builtin.Sequence.honest_typeDef,
      Builtin.Math.honest_typeDef, Builtin.Convert.honest_typeDef hr, by simp⟩
  rcases find?_registerAll h with ⟨ht, -⟩ | h
  · obtain ⟨d, hd, rfl⟩ := List.mem_map.mp ht
    exact ⟨d, hall d hd, rfl⟩
  · simp [empty, find?] at h

/-- The name of a builtin type stands for this type alone. -/
theorem find?_of_builtin (hes : Fresh H es) {name : String} {u : HostType H}
    (hb : (builtins : Registry H).find? name = some u)
    (h : (withEnums H es).find? name = some t) : t = u := by
  rcases find?_withEnums h with ⟨e, he, rfl, -⟩ | h
  · rw [(hes e he).2] at hb
    cases hb
  · rw [hb] at h
    exact (Option.some.inj h).symm

/-- The type that is found for a plain value is its own. -/
theorem tag_of_find? (hes : Fresh H es) {lists : Set Nat} {v : Value}
    (hv : v.Plain (withEnums H es) lists)
    (h : (withEnums H es).find? v.typeTag.name = some t) : v.typeTag = t.tag := by
  cases v with
  | null =>
      rcases find?_withEnums h with ⟨e, he, hname, -⟩ | hb
      · exact absurd hname (hes e he).1
      · cases hb
  | bool => rw [find?_of_builtin hes rfl h]; rfl
  | int => rw [find?_of_builtin hes rfl h]; rfl
  | float => rw [find?_of_builtin hes rfl h]; rfl
  | string => rw [find?_of_builtin hes rfl h]; rfl
  | enum e =>
      obtain ⟨u, hu, htag⟩ := hv
      obtain rfl := Option.some.inj (h.symm.trans hu)
      exact htag.symm
  | object o =>
      obtain ⟨id, typeName⟩ := o
      obtain ⟨rfl, -⟩ := hv
      rw [find?_of_builtin hes rfl h]
      rfl
  | typeRoot => exact hv.elim

theorem honest_withEnums (hes : Fresh H es) : (withEnums H es).Honest where
  tabled := isTabled_withEnums
  types h := by
    rcases find?_withEnums h with ⟨e, he, rfl, rfl⟩ | hb
    · exact ⟨e.typeDef, e.honest_typeDef h e.tag_toHostType, rfl, rfl⟩
    · have htab : (withEnums H es).IsTabled := isTabled_withEnums
      obtain ⟨d, hd, rfl⟩ := honest_of_builtin htab hb
      exact ⟨d, hd, rfl, rfl⟩
  tags hv h := tag_of_find? hes hv h

end Registry

/-- A slot that holds a plain value, and gives back plain values only if the host keeps it. -/
def Slot.Plain (r : Registry H) (lists : Set Nat) : Slot → Prop
  | .owned v => v.Plain r lists
  | .backed held keep => held.Plain r lists ∧ ∀ lists', lists ⊆ lists' → ∀ old new : Value,
      old.Plain r lists' → new.Plain r lists' → (keep old new).Plain r lists'

namespace Slot.Plain

variable {r : Registry H} {lists lists' : Set Nat} {s : Slot}

theorem get (h : s.Plain r lists) : s.get.Plain r lists := by
  cases s with
  | owned v => exact h
  | backed held keep => exact h.1

theorem mono (h : s.Plain r lists) (hl : lists ⊆ lists') : s.Plain r lists' := by
  cases s with
  | owned v => exact Value.Plain.mono h hl
  | backed held keep => exact ⟨h.1.mono hl, fun lists'' hl' => h.2 lists'' (hl.trans hl')⟩

theorem set (h : s.Plain r lists) {v : Value} (hv : v.Plain r lists) : (s.set v).Plain r lists := by
  cases s with
  | owned => exact hv
  | backed held keep => exact ⟨h.2 lists subset_rfl held v h.1 hv, h.2⟩

end Slot.Plain

def Bindings.Plain (r : Registry H) (lists : Set Nat) (b : Bindings) : Prop :=
  ∀ x ∈ b.vars, x.slot.Plain r lists

theorem Bindings.Plain.store {r : Registry H} {lists : Set Nat} {b : Bindings}
    (h : b.Plain r lists) {v : Value} (hv : v.Plain r lists) (name : String) :
    (b.store name v).Plain r lists := by
  intro x hx
  obtain ⟨y, hy, rfl⟩ := List.mem_map.mp hx
  split
  · exact (h y hy).set hv
  · exact h y hy

/-- Variables hold plain values, and so do the lists among them. -/
def World.Plain (r : Registry H) (lists : Set Nat) (w : World H) : Prop :=
  (listContract r).state lists w.memory ∧ w.bindings.Plain r lists

namespace NoInternalError

def contract (r : Registry H) : Contract (Set Nat) EvalError (World H) where
  state lists w := w.Plain r lists
  error e := ¬e.fault.IsInternal

variable {r : Registry H} {lists : Set Nat}

theorem keeps_of_memory {α : Type} {x : Action H α} {Q : Set Nat → α → Prop}
    (h : (listContract r).Keeps lists x Q) : (contract r).Keeps lists (liftM x : Eval H α) Q := by
  refine .ofAction fun b lists' hl m hm => ?_
  have hx := h lists' hl m hm.1
  have hb (lists'' : Set Nat) (hl' : lists' ⊆ lists'') : b.Plain r lists'' :=
    fun x hx => (hm.2 x hx).mono hl'
  cases hr : x m with
  | ok a m' =>
      rw [hr] at hx
      obtain ⟨lists'', hl', hm', ha⟩ := hx
      exact ⟨lists'', hl', ⟨hm', hb lists'' hl'⟩, ha⟩
  | error f m' =>
      rw [hr] at hx
      obtain ⟨hf, lists'', hl', hm'⟩ := hx
      exact ⟨hf, lists'', hl', hm', hb lists'' hl'⟩

/-- The overload that is chosen gets what it declares. -/
theorem suits_of_acceptsAll (hr : r.IsTabled) {ps : List ParamType} {vs ws : List Value}
    (h : ParamType.AcceptsAll r.directory ps vs ws) (hws : ∀ w ∈ ws, w.Plain r lists) :
    List.Forall₂ (fun p v => v.Plain r lists ∧ (p = .any ∨ p = .exact v.typeTag)) ps ws := by
  induction h with
  | nil => exact .nil
  | cons hp _ ih =>
      rw [List.forall_mem_cons] at hws
      refine .cons ⟨hws.1, ?_⟩ (ih hws.2)
      rcases hp with ⟨rfl, hp⟩ | ⟨name, e, rfl, rfl, he⟩
      · exact hp
      · obtain ⟨rfl, -⟩ := hr.declares he
        exact .inr rfl

variable (hr : r.Honest)

include hr

theorem member_keeps {o : Value} {name : String} {t : HostType H} {m : Member H}
    (ho : Owner (fun lists v => v.Plain r lists) lists o)
    (hfind : Eval.findMember r o name = .ok (t, m)) :
    m.setter? = none ∧ ∀ get, m.getter? = some get →
      (listContract r).Keeps lists (get o) fun lists' v => v.Plain r lists' := by
  obtain ⟨ht, hm⟩ := Eval.findMember_eq_ok hfind
  obtain ⟨d, hd, htag, heq⟩ := hr.types ht
  rw [HostType.HasMember, heq] at hm
  split at hm
  · have hmem := hd.staticMembers m (List.mem_of_find?_eq_some hm)
    exact ⟨hmem.1, fun get hg => hmem.2 get hg lists o trivial⟩
  · next hroot =>
    have hplain := ho.resolve_right hroot
    have hmem := hd.members m (TypeDef.mem_of_member? hm)
    have hof : o.PlainOf r d.tag lists := ⟨hplain, (hr.tags hplain ht).trans htag.symm⟩
    exact ⟨hmem.1, fun get hg => hmem.2 get hg lists o hof⟩

/-- A void method yields its receiver, which is plain as it is no type. -/
theorem body_keeps {o : Value} {name : String} {t : HostType H} {fs : List (Method H)} {f : Method H}
    {args ws : List Value} {typeArgs : List TypeTag}
    (ho : Owner (fun lists v => v.Plain r lists) lists o) (ht : r.typeOf o = .ok t)
    (hfs : (if o.isTypeRoot then t.staticMethods? name else t.methods? name) = some fs) (hf : f ∈ fs)
    (hfits : f.Fits r.directory args typeArgs ws) (hws : ∀ w ∈ ws, w.Plain r lists) :
    (listContract r).Keeps lists (f.body ⟨o, ws, typeArgs, r.directory⟩)
      fun lists' v => (if f.isVoid then o else v).Plain r lists' := by
  have ht := Registry.find?_of_typeOf ht
  obtain ⟨d, hd, htag, heq⟩ := hr.types ht
  have hsuits : Call.Suits r lists f.params f.generics ⟨o, ws, typeArgs, r.directory⟩ :=
    ⟨rfl, hfits.1.symm, suits_of_acceptsAll hr.tabled hfits.2 hws⟩
  rw [heq] at hfs
  split at hfs
  · obtain ⟨hvoid, hbody⟩ := hd.staticMethods f (TypeDef.mem_of_overloads? hfs hf)
    refine (hbody lists _ trivial hsuits).imp fun lists' v _ hv => ?_
    rw [hvoid]
    exact hv hvoid
  · next hroot =>
    have hplain := ho.resolve_right hroot
    have hof : o.PlainOf r d.tag lists := ⟨hplain, (hr.tags hplain ht).trans htag.symm⟩
    have hbody := hd.methods f (TypeDef.mem_of_overloads? hfs hf)
    refine (hbody lists _ hof hsuits).imp fun lists' v hl hv => ?_
    cases hvoid : f.isVoid with
    | true => exact hplain.mono hl
    | false => exact hv hvoid

theorem shared_of_find? {name : String} {t : HostType H} (ht : r.find? name = some t) :
    t.isValueType = false ∧ ∀ o, t.copy? o = none := by
  obtain ⟨d, hd, -, heq⟩ := hr.types ht
  rw [heq]
  simp [TypeDef.toHostType, hd.copy]

theorem holdsValueType_eq_false (v : Value) : r.directory.holdsValueType v = false := by
  cases v with
  | object o =>
      rw [Directory.holdsValueType, Registry.directory]
      cases ht : r.find? o.typeName with
      | none => simp [ht]
      | some t => simp [ht, (shared_of_find? hr ht).1]
  | null | bool | int | float | string | enum | typeRoot => rfl

theorem load_keeps (name : String) :
    (contract r).Keeps lists (Eval.load r name)
      fun lists' v => v.Plain r lists' := by
  refine .load (fun _ hf => hf) fun lists' w x _ hw hx _ => ?_
  have hplain := (hw.2 x (List.mem_of_find?_eq_some hx)).get
  rcases r.copyOnLoad_cases x.get with hc | ⟨o, t, copy, -, ht, hcopy, -⟩
  · rw [hc]
    exact keeps_of_memory (.pure fun _ hl => hplain.mono hl)
  · rw [(shared_of_find? hr ht).2 o] at hcopy
    cases hcopy

def discipline : Discipline r (Set Nat) where
  toContract := contract r
  sound lists v := v.Plain r lists
  value lists v := v.Plain r lists
  held _ _ _ := True
  sound_mono hl h := h.mono hl
  value_mono hl h := h.mono hl
  held_mono _ h := h
  error_of_plain h := h
  error_congr he h hf := h (by rwa [he])
  sound_of_value h := h
  value_of_sound h _ := h
  value_of_scalar h := Value.plain_of_scalar h
  value_of_declares h := hr.tabled.plain_of_declares h
  load lists name := (load_keeps hr name).imp fun _ _ _ hv => ⟨hv, trivial⟩
  update name hv := .updateVariable (fun _ hf => hf) fun lists' w x new hl hw hx hnew =>
    have hn := (Value.convert_plain hr.tabled (hv.mono hl) w.memory x.type).of_ok hnew
    ⟨⟨hw.1, hw.2.store hn name⟩, hn⟩
  store _ hv := by
    rw [holdsValueType_eq_false hr] at hv
    cases hv
  getter ho hm hg := keeps_of_memory ((member_keeps hr ho hm).2 _ hg)
  setter ho hm hs _ := by
    rw [(member_keeps hr ho hm).1] at hs
    cases hs
  body ho ht hfs hf hfits hws := keeps_of_memory (body_keeps hr ho ht hfs hf hfits hws)

end NoInternalError

/-- With the builtin types and enumerations, and variables that hold plain values, no request is
answered with an internal error, and none is reported on the way. -/
theorem Engine.serveAll_no_internal {es : List Enumeration} (hes : Registry.Fresh H es)
    (config : Config) (qs : List Request) (s : Session H) (hc : s.cache.Sound) {lists : Set Nat}
    (hs : s.world.Plain (Registry.withEnums H es) lists) :
    let replies := (Engine.serveAll ⟨Registry.withEnums H es, config⟩ qs s).1
    (∀ err, .error err ∈ replies → err.fault.code ≠ .malformedProgram) ∧
      ∀ ev, .ok (.evaluation ev) ∈ replies → ∀ d ∈ ev.diagnostics, d.code ≠ .malformedProgram := by
  let D := NoInternalError.discipline (Registry.honest_withEnums hes)
  obtain ⟨lists', -, -, hok, herror⟩ :=
    D.serveAll_keeps (e := ⟨_, config⟩) (fun op hop => .inl hop) qs s ⟨hs, hc⟩
  refine ⟨herror, ?_⟩
  intro ev hev
  obtain ⟨k, -, -, hdiagnostics⟩ := hok _ hev
  exact hdiagnostics

/-- A list that contains itself, and a variant. -/
def NoInternalError.session : Session Sample.host where
  world :=
    { memory := ⟨#[.list [.object ⟨0, "List"⟩, .int 1]], Sample.Settings.initialLevel⟩
      bindings := ⟨[.infer "xs" (.object ⟨0, "List"⟩), .infer "mode" (.enum ⟨"Mode", "Run", 1⟩)]⟩ }
  cache := .empty

theorem Engine.serveAll_no_internal_cyclic :
    let es : List Enumeration := [⟨"Mode", ["Idle", "Run"]⟩]
    let s := NoInternalError.session
    let replies := (Engine.serveAll ⟨Registry.withEnums Sample.host es, .default⟩
      [.evaluate "f" "xs.Add(mode); xs.Insert(9, xs)", .evaluate "g" "mode = xs.Count; xs.Length"] s).1
    Registry.Fresh Sample.host es ∧ s.cache.Sound ∧
      s.world.Plain (Registry.withEnums Sample.host es) {0} ∧
      (∀ err, .error err ∈ replies → err.fault.code ≠ .malformedProgram) ∧
      ∀ ev, .ok (.evaluation ev) ∈ replies → ∀ d ∈ ev.diagnostics, d.code ≠ .malformedProgram := by
  intro es s replies
  have hes : Registry.Fresh Sample.host es := by
    intro e he
    obtain rfl := List.mem_singleton.mp he
    exact ⟨by decide, rfl⟩
  have hxs : (Value.object ⟨0, "List"⟩).Plain (Registry.withEnums Sample.host es) {0} := ⟨rfl, rfl⟩
  have hs : s.world.Plain (Registry.withEnums Sample.host es) {0} := by
    constructor
    · rintro _ rfl
      exact ⟨_, rfl, by simp [Value.Plain]⟩
    · refine List.forall_mem_cons.mpr ⟨hxs, List.forall_mem_singleton.mpr ?_⟩
      exact ⟨Enumeration.toHostType ⟨"Mode", ["Idle", "Run"]⟩, rfl, Enumeration.tag_toHostType _⟩
  have hc : s.cache.Sound := Cache.sound_empty
  exact ⟨hes, hc, hs, Engine.serveAll_no_internal hes .default _ s hc hs⟩

end Formula
