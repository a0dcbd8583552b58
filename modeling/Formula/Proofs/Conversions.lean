import Formula.Proofs.WellTyped

/-!
What a conversion yields. Values that have the type already are left alone, and no value is changed
twice.
-/

namespace Formula

variable {H : Host}

namespace Enumeration

variable {e : Enumeration} {x : EnumValue}

/-- A variant of the enumeration under a position at which its name stands. -/
def IsVariant (e : Enumeration) (x : EnumValue) : Prop :=
  x.typeName = e.name ∧ ∃ i : Nat, e.variants[i]? = some x.variant ∧ x.ordinal.toInt = i

theorem isVariant_of_valueAt? {i : Nat} (h : e.valueAt? i = some x) : e.IsVariant x := by
  obtain ⟨hi, variant, hv, rfl⟩ := valueAt?_eq_some.mp h
  exact ⟨rfl, i, hv, Number.toInt_ofNat hi⟩

theorem isVariant_of_variant? {name : String} (h : e.variant? name = some x) : e.IsVariant x := by
  obtain ⟨i, -, hx⟩ := Option.bind_eq_some_iff.mp h
  exact isVariant_of_valueAt? hx

theorem isVariant_of_variantAt? {n : Int64} (h : e.variantAt? n = some x) : e.IsVariant x := by
  rw [variantAt?] at h
  split at h
  · exact isVariant_of_valueAt? h
  · cases h

end Enumeration

/-- What a table of members declares is nothing, and an enumeration declares its variants. -/
theorem HostType.IsTabled.isVariant {t : HostType H} (ht : t.IsTabled) {x : EnumValue}
    (h : (∃ variant, t.variant? variant = some x) ∨ ∃ ordinal, t.variantAt? ordinal = some x) :
    ∃ e : Enumeration, t = e.toHostType ∧ e.IsVariant x := by
  cases ht with
  | typeDef d hd => simp [TypeDef.toHostType] at h
  | enumeration e =>
      refine ⟨e, rfl, ?_⟩
      rcases h with ⟨variant, h⟩ | ⟨ordinal, h⟩
      · exact Enumeration.isVariant_of_variant? h
      · exact Enumeration.isVariant_of_variantAt? h

theorem Registry.IsTabled.isVariant_of_declares {r : Registry H} (hr : r.IsTabled) {name : String}
    {x : EnumValue} (h : r.directory.Declares name x) :
    ∃ e : Enumeration, r.find? name = some e.toHostType ∧ e.name = name ∧ e.IsVariant x := by
  obtain ⟨info, hi, hx⟩ := h
  obtain ⟨t, ht, rfl⟩ := find?_directory hi
  obtain ⟨hmem, hname⟩ := mem_of_find? ht
  obtain ⟨e, rfl, he⟩ := (hr t hmem).isVariant hx
  rw [Enumeration.tag_toHostType] at hname
  exact ⟨e, ht, hname, he⟩

namespace Value

variable {types : Directory} {m : Memory H} {v w : Value} {tag : TypeTag}

theorem guard_iff_holds : (v.isNull || tag == .null || v.typeTag == tag) = true ↔ tag.Holds v := by
  simp only [TypeTag.Holds, Bool.or_eq_true, beq_iff_eq, or_assoc]
  cases v <;> simp [isNull]

theorem convert_of_holds (h : tag.Holds v) : v.convert types m tag = .ok v := by
  rw [convert, if_pos (guard_iff_holds.mpr h)]

theorem convert_of_not_holds (h : ¬tag.Holds v) :
    v.convert types m tag = v.convertOther types m tag := by
  rw [convert, if_neg (by rwa [guard_iff_holds])]

theorem IsScalar.typeTag_ne (h : w.IsScalar) (name : String) : w.typeTag ≠ .enum name := by
  cases w with
  | enum | object | typeRoot => exact h.elim
  | null | bool | int | float | string => nofun

/-- A value that has the type stays what it is, and any other becomes one of the type, for an
enumeration one of its variants. What came of a conversion has the type from then on. -/
theorem convert_sound {r : Registry H} (hr : r.IsTabled) (h : v.convert r.directory m tag = .ok w) :
    (tag.Holds v → w = v) ∧
      (¬tag.Holds v →
        w.typeTag = tag ∧ ∀ name, tag = .enum name →
          ∃ e : Enumeration, r.find? name = some e.toHostType ∧ e.name = name ∧
            ∃ x, w = .enum x ∧ e.IsVariant x) ∧
      ∀ m' : Memory H, w.convert r.directory m' tag = .ok w := by
  have hw : tag.Holds w := TypeTag.holds_convert hr h
  refine ⟨fun hv => ?_, fun hv => ?_, fun m' => convert_of_holds hw⟩
  · rw [convert_of_holds hv] at h
    exact (Except.ok.inj h).symm
  · rw [convert_of_not_holds hv] at h
    rcases (v.convertOther_yields r.directory m tag).of_ok h with ⟨hs, ht⟩ | ⟨name, x, rfl, rfl, hx⟩
    · refine ⟨ht, fun name hname => ?_⟩
      exact absurd (ht.trans hname) (hs.typeTag_ne name)
    · obtain ⟨e, he, rfl, hvariant⟩ := hr.isVariant_of_declares hx
      refine ⟨congrArg TypeTag.enum hvariant.1, ?_⟩
      rintro name ⟨⟩
      exact ⟨e, he, rfl, x, rfl, hvariant⟩

/-- The name of a variant between blanks. -/
theorem convert_sound_axis :
    let v : Value := .string " Y "
    let y : EnumValue := ⟨"Axis", "Y", 1⟩
    Sample.registry.IsTabled ∧ ¬(TypeTag.enum "Axis").Holds v ∧
      v.convert Sample.registry.directory Sample.memory (.enum "Axis") = .ok (.enum y) ∧
      (∃ e : Enumeration, Sample.registry.find? "Axis" = some e.toHostType ∧ e.name = "Axis" ∧
        ∃ x, Value.enum y = .enum x ∧ e.IsVariant x) ∧
      ∀ m' : Memory Sample.host,
        (Value.enum y).convert Sample.registry.directory m' (.enum "Axis") = .ok (.enum y) := by
  intro v y
  have hv : ¬(TypeTag.enum "Axis").Holds v := by simp [TypeTag.Holds, v, typeTag]
  have h : v.convert Sample.registry.directory Sample.memory (.enum "Axis") = .ok (.enum y) := by
    rfl
  obtain ⟨-, hother, hagain⟩ := convert_sound Sample.isTabled_registry h
  exact ⟨Sample.isTabled_registry, hv, h, (hother hv).2 "Axis" rfl, hagain⟩

end Value

end Formula
