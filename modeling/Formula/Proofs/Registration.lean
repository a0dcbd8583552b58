import Formula.Proofs.Composition
import Formula.Proofs.Reading
import Mathlib

/-!
The type that serves a value. Types are found by name alone, so a type that takes over a name serves all
values that the name had before, of whatever kind they are.
-/

namespace Formula

variable {H : Host}

namespace Registry

theorem registerAll_concat (r : Registry H) (ts : List (HostType H)) (t : HostType H) :
    registerAll r (ts ++ [t]) = (registerAll r ts).register t := List.foldl_concat ..

/-- The last of the types with a name is the one that is found. -/
theorem find?_registerAll_eq (r : Registry H) (ts : List (HostType H)) (name : String) :
    (registerAll r ts).find? name = (ts.reverse.find? (·.tag.name == name)).or (r.find? name) := by
  induction ts using List.reverseRecOn with
  | nil => rfl
  | append_singleton ts t ih =>
      rw [registerAll_concat, List.reverse_concat, List.find?_cons]
      by_cases ht : t.tag.name = name
      · subst ht
        simp [find?_register_self]
      · have hne : (t.tag.name == name) = false := by simpa using ht
        rw [find?_register_of_ne _ ht, ih, hne]

theorem find?_registerAll_empty {ts : List (HostType H)} {name : String} {t : HostType H} :
    (registerAll empty ts).find? name = some t ↔ ∃ earlier later, ts = earlier ++ t :: later ∧
      t.tag.name = name ∧ ∀ u ∈ later, u.tag.name ≠ name := by
  have hempty : (empty : Registry H).find? name = none := rfl
  rw [find?_registerAll_eq, hempty, Option.or_none, List.find?_eq_some_iff_append]
  constructor
  · rintro ⟨hname, later, earlier, hts, hlater⟩
    refine ⟨earlier.reverse, later.reverse, ?_, by simpa using hname, by simpa using hlater⟩
    rw [← List.reverse_reverse ts, hts]
    simp
  · rintro ⟨earlier, later, rfl, hname, hlater⟩
    exact ⟨by simpa using hname, later.reverse, earlier.reverse, by simp, by simpa using hlater⟩

theorem typeOf_eq_ok {r : Registry H} {v : Value} {t : HostType H} :
    r.typeOf v = .ok t ↔ r.find? v.typeTag.name = some t := by
  rw [typeOf]
  cases r.find? v.typeTag.name <;> simp

/-- A value is served by the last type that was registered under its name. That is a type of the value's
own kind only if no other kind has taken over the name. -/
theorem typeOf_registerAll_iff (ts : List (HostType H)) (v : Value) (t : HostType H) :
    ((registerAll empty ts).typeOf v = .ok t ↔ ∃ earlier later, ts = earlier ++ t :: later ∧
        t.tag.name = v.typeTag.name ∧ ∀ u ∈ later, u.tag.name ≠ v.typeTag.name) ∧
      ((registerAll empty ts).typeOf v = .ok t ∧ t.tag = v.typeTag ↔ ∃ earlier later,
        ts = earlier ++ t :: later ∧ t.tag = v.typeTag ∧
          ∀ u ∈ later, u.tag.name ≠ v.typeTag.name) := by
  rw [typeOf_eq_ok, find?_registerAll_empty]
  refine ⟨.rfl, ?_, ?_⟩
  · rintro ⟨⟨earlier, later, hts, -, hlater⟩, htag⟩
    exact ⟨earlier, later, hts, htag, hlater⟩
  · rintro ⟨earlier, later, hts, htag, hlater⟩
    exact ⟨⟨earlier, later, hts, by rw [htag], hlater⟩, htag⟩

end Registry

namespace Enumeration

/-- What the getters of an enumeration say of a value that is none of its variants. -/
def notEnum : Fault := .internal "enum member read on a non-enum"

theorem property_of_not_enum {get : EnumValue → Value} {v : Value} (hv : ∀ e, v ≠ .enum e)
    (m : Memory H) : property get v m = .error notEnum m := by
  cases v with
  | enum e => exact absurd rfl (hv e)
  | null | bool | int | float | string | object | typeRoot => rfl

/-- What all enumerations have besides their variants. -/
theorem member?_toHostType (e : Enumeration) {name : String} (hname : name = "Name" ∨ name = "Ordinal") :
    ∃ get, (e.toHostType : HostType H).member? name =
      some ⟨name, .property, some (property get), none⟩ := by
  rcases hname with rfl | rfl
  all_goals
    rw [toHostType, TypeDef.toHostType, typeDef_eq]
    exact ⟨_, rfl⟩

end Enumeration

namespace Eval

variable {v : Value} {name : String} {t : HostType H} {m : Member H}

/-- The fault of a getter is that of the access. -/
theorem access_register_error {f : Fault} (r : Registry H) (w : World H)
    (htag : t.tag.name = v.typeTag.name) (hroot : v.isTypeRoot = false) (hnull : v.isNull = false)
    (hm : t.member? name = some m) (hget : m.get v t.tag.name w.memory = .error f w.memory) :
    access (r.register t) v name w = .error (.of f) w := by
  have ht : (r.register t).typeOf v = .ok t := by
    rw [Registry.typeOf_eq_ok, ← htag, Registry.find?_register_self]
  have hfind : findMember (r.register t) v name = .ok (t, m) := by
    simp [findMember, ht, hroot, hm, bind, Except.bind]
  have hread : readMember (r.register t) v name w = .error (.of f) w := by
    rw [readMember, hfind, liftM_ok, pure_bind]
    change ofAction (m.get v t.tag.name) w = _
    rw [ofAction, hget]
  rw [access, checkReceiver, if_neg (by simp [hnull]), pure_bind]
  exact run_bind_of_error hread

/-- An enumeration that takes over a name meets values that are no variants. -/
theorem access_registerEnum (r : Registry H) (variants : List String) (w : World H)
    (hname : name = "Name" ∨ name = "Ordinal") (hroot : v.isTypeRoot = false) (hnull : v.isNull = false)
    (henum : ∀ e, v ≠ .enum e) :
    access (r.registerEnum v.typeTag.name variants) v name w = .error (.of Enumeration.notEnum) w := by
  obtain ⟨get, hm⟩ :=
    Enumeration.member?_toHostType (H := H) ⟨v.typeTag.name, variants⟩ hname
  refine access_register_error r w ?_ hroot hnull hm (Enumeration.property_of_not_enum henum _)
  rw [Enumeration.tag_toHostType]
  rfl

/-- A type of objects that takes over a name meets variants, which are no objects. -/
theorem access_register_enum {T F : Type} {facet : Facet H T} {code : Coding H F} {get : T → F}
    (r : Registry H) (d : TypeDef H) (w : World H) {e : EnumValue} (htag : d.tag.name = e.typeName)
    (hm : d.member? name = some m) (hget : m.getter? = some (Member.getterOf facet code get)) :
    access (r.register d.toHostType) (.enum e) name w =
      .error (.of (.internal "member read on a non-object")) w := by
  refine access_register_error r w htag rfl rfl hm ?_
  rw [Member.get, hget]
  rfl

end Eval

/-- A list under the name of an enumeration. -/
def Sample.shadowedList : Session Sample.host where
  world :=
    { memory := ⟨#[.list []], Sample.Settings.initialLevel⟩
      bindings := ⟨[.infer "lst" (.object ⟨0, "List"⟩)]⟩ }
  cache := .empty

/-- The getters of the enumeration are run on the list. -/
theorem Engine.effect_shadowed :
    let e : Engine Sample.host := ⟨Sample.shadowing, .default⟩
    let v : Value := .object ⟨0, "List"⟩
    ¬(∀ t, Sample.shadowing.typeOf v = .ok t → t.tag = v.typeTag) ∧
      (e.effect "f" "lst.Name" Sample.shadowedList).1 =
        .error ⟨Enumeration.notEnum, some ⟨0, 8⟩, some "lst.Name"⟩ := by
  intro e v
  constructor
  · intro h
    have htag := h (Enumeration.toHostType ⟨"List", ["One", "Two"]⟩) rfl
    rw [Enumeration.tag_toHostType] at htag
    cases htag
  · have hcompiled := e.compileFor_single Sample.shadowedList.world.bindings
      "lst.Name" ⟨0, 8⟩ [.load ⟨0, 3⟩ "lst", .get ⟨0, 8⟩ "Name"]
      (by decide +kernel) (by cbv) (by cbv) (by simp only [Program.ofExpr, Program.ofReceiver]; rfl)
    rw [effect_of_coherent Cache.coherent_empty, hcompiled]
    rfl

end Formula
