import Formula.Proofs.Conversions
import Formula.Proofs.Layout
import Formula.Proofs.Reading

/-!
Values that are what they were after a conversion to another type and back to their own.
-/

namespace Formula

variable {H : Host}

namespace Text

theorem trim_eq_self_of_forall {cs : List Char} (h : ∀ c ∈ cs, isBlank c = false) : trim cs = cs :=
  trim_eq_self_iff.mpr ⟨fun c hc => h c (List.mem_of_mem_head? hc),
    fun c hc => h c (List.mem_of_getLast? hc)⟩

theorem not_isBlank_of_isDigit {c : Char} (h : c.isDigit = true) : isBlank c = false := by
  have hc : 48 ≤ c.toNat ∧ c.toNat ≤ 57 := by simpa [Char.isDigit, UInt32.le_iff_toNat_le] using h
  simp [isBlank]
  omega

theorem trim_digits (n : Int) : trim (toString n).toList = (toString n).toList := by
  refine trim_eq_self_of_forall fun c hc => ?_
  rcases Number.forall_mem_toString n c hc with rfl | hdigit
  · decide
  · exact not_isBlank_of_isDigit hdigit

end Text

theorem Number.ofNat_inj {i j : Nat} (hi : inInt64 i) (hj : inInt64 j)
    (h : Int64.ofNat i = Int64.ofNat j) : i = j := by
  have hint := congrArg Int64.toInt h
  rw [toInt_ofNat hi, toInt_ofNat hj] at hint
  omega

namespace Enumeration

variable {e : Enumeration} {name : String}

theorem idxOf?_append_eq_iff {before after : List String} :
    (before ++ name :: after).idxOf? name = some before.length ↔ name ∉ before := by
  rw [List.idxOf?_eq_some_iff]
  constructor
  · rintro ⟨_, _, hbefore⟩ hmem
    obtain ⟨j, hj, heq⟩ := List.mem_iff_getElem.mp hmem
    exact hbefore j hj ((List.getElem_append_left hj).trans heq)
  · intro hname
    refine ⟨by simp, by simp, fun j hj heq => hname ?_⟩
    rw [List.getElem_append_left hj] at heq
    exact heq ▸ List.getElem_mem hj

theorem staticMember?_toHostType (e : Enumeration) (name : String) :
    (e.toHostType : HostType H).staticMember? name =
      (e.variants.zipIdx.map fun v => e.constant v.1 v.2).reverse.find? (·.name == name) := by
  rw [toHostType, TypeDef.toHostType, typeDef_eq]

/-- Of several variants with one name the last is the static member. -/
theorem exists_of_staticMember? {m : Member H}
    (h : (e.toHostType : HostType H).staticMember? name = some m) :
    ∃ before after, e.variants = before ++ name :: after ∧ name ∉ after ∧
      m = e.constant name before.length := by
  rw [staticMember?_toHostType] at h
  obtain ⟨hm, later, earlier, hsplit, hlater⟩ := List.find?_eq_some_iff_append.mp h
  have hmap := congrArg List.reverse hsplit
  rw [List.reverse_reverse, List.reverse_append, List.reverse_cons, List.append_assoc,
    List.singleton_append, List.map_eq_append_iff] at hmap
  obtain ⟨_, _, hzip, -, htail⟩ := hmap
  obtain ⟨before, rest, hvariants, -, rfl⟩ := List.zipIdx_eq_append_iff.mp hzip
  obtain ⟨_, _, hrest, rfl, hafter⟩ := List.map_eq_cons_iff.mp htail
  obtain ⟨variant, after, rfl, rfl, rfl⟩ := List.zipIdx_eq_cons_iff.mp hrest
  obtain rfl : variant = name := by simpa [constant] using hm
  refine ⟨before, after, hvariants, fun hmem => ?_, by simp⟩
  have hnames : after = later.reverse.map (·.name) := by
    rw [← hafter, List.map_map]
    exact (List.zipIdx_map_fst _ after).symm
  rw [hnames, List.mem_map] at hmem
  obtain ⟨m, hm, heq⟩ := hmem
  simpa [heq] using hlater m (List.mem_reverse.mp hm)

theorem count_eq_one_iff {before after : List String} (hafter : name ∉ after) :
    (before ++ name :: after).count name = 1 ↔ name ∉ before := by
  have hcount : (before ++ name :: after).count name = before.count name + 1 := by
    rw [List.count_append, List.count_cons_self, List.count_eq_zero.mpr hafter]
  rw [hcount, ← List.count_eq_zero]
  omega

theorem variantAt?_ofNat {i : Nat} (hi : Number.inInt64 i) :
    e.variantAt? (Int64.ofNat i) = e.valueAt? i := by
  have hnonneg : 0 ≤ Int64.ofNat i := by
    rw [Int64.le_iff_toInt_le, Number.toInt_ofNat hi]
    exact Int.natCast_nonneg i
  rw [variantAt?, if_pos hnonneg, Number.toInt_ofNat hi, Int.toNat_natCast]

variable {before after : List String} (hvariants : e.variants = before ++ name :: after)
  (hlength : e.variants.length ≤ 2 ^ 63)

include hvariants hlength

theorem inInt64_position : Number.inInt64 before.length := by
  have hlt : before.length < e.variants.length := by simp [hvariants]
  rw [Number.inInt64_iff, Number.minInt64, Number.maxInt64]
  omega

theorem valueAt?_position : e.valueAt? before.length = some (e.value name before.length) :=
  valueAt?_eq_some.mpr ⟨inInt64_position hvariants hlength, name, by simp [hvariants], rfl⟩

/-- A variant is found by its name if none in front of it has that name. -/
theorem variant?_eq_value_iff {s : String} :
    e.variant? s = some (e.value name before.length) ↔ s = name ∧ name ∉ before := by
  rw [variant?, Option.bind_eq_some_iff]
  constructor
  · rintro ⟨i, hi, hvalue⟩
    obtain ⟨hin, variant, hv, heq⟩ := valueAt?_eq_some.mp hvalue
    obtain ⟨-, rfl, hordinal⟩ := EnumValue.mk.inj heq
    obtain rfl := Number.ofNat_inj hin (inInt64_position hvariants hlength) hordinal
    obtain rfl : s = variant := by
      obtain ⟨_, hs, -⟩ := List.idxOf?_eq_some_iff.mp hi
      exact hs.symm.trans ((List.getElem?_eq_some_iff.mp hv).2)
    rw [hvariants] at hi
    exact ⟨rfl, idxOf?_append_eq_iff.mp hi⟩
  · rintro ⟨rfl, hbefore⟩
    refine ⟨before.length, ?_, valueAt?_position hvariants hlength⟩
    rw [hvariants]
    exact idxOf?_append_eq_iff.mpr hbefore

end Enumeration

/-- A static member of an enumeration is its last variant of that name. -/
theorem Eval.exists_of_access {r : Registry H} {e : Enumeration} (he : r.find? e.name = some e.toHostType)
    {tag : TypeTag} (htag : tag.name = e.name) {name : String} {v : Value} {w w' : World H}
    (h : Eval.access r (.typeRoot tag) name w = .ok v w') :
    ∃ before after, e.variants = before ++ name :: after ∧ name ∉ after ∧
      v = .enum (e.value name before.length) := by
  obtain ⟨⟨t, m⟩, hm, hget⟩ := ok_of_except_bind (readMember_of_access h).1
  obtain ⟨ht, hmember⟩ := findMember_eq_ok hm
  obtain rfl : t = e.toHostType := by
    rw [Value.typeTag, htag, he] at ht
    exact (Option.some.inj ht).symm
  obtain ⟨before, after, hvariants, hafter, rfl⟩ := Enumeration.exists_of_staticMember? hmember
  obtain ⟨_, hvalue, -⟩ := ok_of_liftAction hget
  exact ⟨before, after, hvariants, hafter, (EStateM.Result.ok.inj hvalue).1.symm⟩

theorem Registry.variant_eq_ok_iff {r : Registry H} {e : Enumeration}
    (he : r.find? e.name = some e.toHostType) {s : String} {x : EnumValue} :
    r.directory.variant e.name s = .ok x ↔ e.variant? s = some x := by
  have hfind : r.directory.find? e.name = some (e.toHostType : HostType H).toTypeInfo :=
    congrArg (Option.map HostType.toTypeInfo) he
  have hlookup : (e.toHostType : HostType H).variant? = e.variant? := rfl
  rw [Directory.variant, hfind]
  simp only [hlookup]
  cases e.variant? s <;> simp

namespace Value

/-- What a value is converted to becomes the value again when it is converted back. -/
def Survives (types : Directory) (m : Memory H) (v : Value) (via : TypeTag) : Prop :=
  ∃ w, v.convert types m via = .ok w ∧ w.convert types m v.typeTag = .ok v

variable {types : Directory} {m : Memory H}

theorem survives_int (n : Int64) : (int n).Survives types m .string := by
  have hread : (string (m.text (int n))).toInt? = some n := by
    change Number.readInt64? (Text.trim (toString n.toInt).toList) = some n
    rw [Text.trim_digits, Number.readInt64?_toString]
  refine ⟨string (m.text (int n)), rfl, ?_⟩
  rw [convert_of_not_holds (by simp [TypeTag.Holds, typeTag]), typeTag, convertOther, hread]
  rfl

theorem survives_bool (b : Bool) : (bool b).Survives types m .string := by
  have hread : (string (m.text (bool b))).toBool? = some b := by
    cases b
    · change readBool? "false" = some false
      decide +kernel
    · change readBool? "true" = some true
      decide +kernel
  refine ⟨string (m.text (bool b)), rfl, ?_⟩
  rw [convert_of_not_holds (by simp [TypeTag.Holds, typeTag]), typeTag, convertOther, hread]
  rfl

section

variable {r : Registry H} {e : Enumeration} (he : r.find? e.name = some e.toHostType)

include he

/-- A text becomes the variant that the enumeration has of this name, blanks at the ends apart. -/
theorem convert_name_iff {s : String} {x : EnumValue} :
    (string s).convert r.directory m (.enum e.name) = .ok (enum x) ↔
      e.variant? (Text.trimmed s) = some x := by
  rw [convert_of_not_holds (by simp [TypeTag.Holds, typeTag]), convertOther,
    ← Registry.variant_eq_ok_iff he]
  cases r.directory.variant e.name (Text.trimmed s) <;> simp [Except.map]

/-- An int becomes the variant at this position. -/
theorem convert_position_iff {n : Int64} {x : EnumValue} :
    (int n).convert r.directory m (.enum e.name) = .ok (enum x) ↔ e.variantAt? n = some x := by
  have hfind : r.directory.find? e.name = some (e.toHostType : HostType H).toTypeInfo :=
    congrArg (Option.map HostType.toTypeInfo) he
  have hlookup : (e.toHostType : HostType H).variantAt? = e.variantAt? := rfl
  rw [convert_of_not_holds (by simp [TypeTag.Holds, typeTag]), convertOther]
  simp only [Directory.typeOf, TypeTag.name, hfind, bind, Except.bind, hlookup]
  cases e.variantAt? n <;> simp

variable {name : String} {before after : List String} (hvariants : e.variants = before ++ name :: after)
  (hlength : e.variants.length ≤ 2 ^ 63)

include hvariants hlength

theorem survives_position : (enum (e.value name before.length)).Survives r.directory m .int := by
  refine ⟨int (Int64.ofNat before.length), rfl, (convert_position_iff he).mpr ?_⟩
  rw [Enumeration.variantAt?_ofNat (Enumeration.inInt64_position hvariants hlength),
    Enumeration.valueAt?_position hvariants hlength]

theorem survives_name_iff : (enum (e.value name before.length)).Survives r.directory m .string ↔
    Text.trimmed name = name ∧ name ∉ before := by
  rw [← Enumeration.variant?_eq_value_iff hvariants hlength, ← convert_name_iff he (m := m)]
  constructor
  · rintro ⟨w, hw, hback⟩
    obtain rfl := Except.ok.inj hw
    exact hback
  · intro h
    exact ⟨string name, rfl, h⟩

end

/-- Ints and booleans survive as text. The variant that a name stands for as a static member survives
as an int, and as text if the name has no blanks at its ends and no other variant has it. -/
theorem survives_text (types : Directory) (m : Memory H) :
    (∀ n : Int64, (int n).Survives types m .string) ∧ (∀ b, (bool b).Survives types m .string) ∧
      ∀ (r : Registry H) (e : Enumeration), r.find? e.name = some e.toHostType →
        e.variants.length ≤ 2 ^ 63 → ∀ (tag : TypeTag) (name : String) (v : Value) (w w' : World H),
          tag.name = e.name → Eval.access r (.typeRoot tag) name w = .ok v w' →
            v.Survives r.directory m .int ∧
              (v.Survives r.directory m .string ↔
                Text.trimmed name = name ∧ e.variants.count name = 1) := by
  refine ⟨survives_int, survives_bool, fun r e he hlength tag name v w w' htag h => ?_⟩
  obtain ⟨before, after, hvariants, hafter, rfl⟩ := Eval.exists_of_access he htag h
  refine ⟨survives_position he hvariants hlength, ?_⟩
  rw [survives_name_iff he hvariants hlength, hvariants, Enumeration.count_eq_one_iff hafter]

theorem survives_text_axis :
    let e : Enumeration := ⟨"Axis", ["X", "Y", "Z"]⟩
    let y : Value := .enum ⟨"Axis", "Y", 1⟩
    let w : World Sample.host := ⟨Sample.memory, ⟨[]⟩⟩
    Sample.registry.find? e.name = some e.toHostType ∧ e.variants.length ≤ 2 ^ 63 ∧
      (TypeTag.enum "Axis").name = e.name ∧
      Eval.access Sample.registry (.typeRoot (.enum "Axis")) "Y" w = .ok y w ∧
      y.Survives Sample.registry.directory Sample.memory .int ∧
      (y.Survives Sample.registry.directory Sample.memory .string ↔
        Text.trimmed "Y" = "Y" ∧ e.variants.count "Y" = 1) := by
  intro e y w
  have he : Sample.registry.find? e.name = some e.toHostType := rfl
  have hlength : e.variants.length ≤ 2 ^ 63 := by decide
  have hy : Eval.access Sample.registry (.typeRoot (.enum "Axis")) "Y" w = .ok y w := rfl
  exact ⟨he, hlength, rfl, hy, (survives_text Sample.registry.directory Sample.memory).2.2
    Sample.registry e he hlength (.enum "Axis") "Y" y w w rfl hy⟩

/-- The static member is the second of two variants with one name, and the text becomes the first. -/
theorem not_survives_twin :
    let r : Registry Sample.host := Registry.builtins.registerEnum "Side" ["Left", "Left"]
    let v : Value := .enum ⟨"Side", "Left", 1⟩
    let w : World Sample.host := ⟨Sample.memory, ⟨[]⟩⟩
    Eval.access r (.typeRoot (.enum "Side")) "Left" w = .ok v w ∧
      ¬v.Survives r.directory Sample.memory .string := by
  intro r v w
  let e : Enumeration := ⟨"Side", ["Left", "Left"]⟩
  have he : r.find? e.name = some e.toHostType := Registry.find?_register_self _ _
  have hvariants : e.variants = ["Left"] ++ "Left" :: [] := rfl
  refine ⟨rfl, fun hsurvives => ?_⟩
  have hname := ((survives_name_iff he hvariants (by decide)).mp hsurvives).2
  exact absurd (List.mem_cons_self ..) hname

end Value

end Formula
