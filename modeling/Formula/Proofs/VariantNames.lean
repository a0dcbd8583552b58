import Formula.Proofs.OverloadChoice
import Formula.Proofs.TextForm

/-!
Texts that name variants: where a value is converted to an enumeration, where it is an argument and where
it is compared. Only a conversion overlooks blanks at the ends.
-/

namespace Formula

variable {H : Host}

theorem Enumeration.variant_of_variant? {e : Enumeration} {s : String} {x : EnumValue}
    (h : e.variant? s = some x) : x.variant = s := by
  obtain ⟨i, hi, hx⟩ := Option.bind_eq_some_iff.mp h
  obtain ⟨-, variant, hvariant, rfl⟩ := valueAt?_eq_some.mp hx
  obtain ⟨hlt, hs, -⟩ := List.idxOf?_eq_some_iff.mp hi
  rw [List.getElem?_eq_getElem hlt, hs] at hvariant
  exact (Option.some.inj hvariant).symm

namespace ParamType

variable {types : Directory} {p : ParamType} {ps qs : List ParamType} {v w : Value}
  {us vs us' vs' : List Value}

theorem takes_name_iff {enumName s : String} {x : EnumValue} :
    (exact (.enum enumName)).Takes types (.string s) (.enum x) ↔ types.variant enumName s = .ok x := by
  rw [← accept_eq_some_iff, accept_of_named]
  cases types.variant enumName s <;> simp [Except.map]

/-- Whether the parameters take the arguments comes down to one of them, if the others take theirs. -/
theorem TakesAll.append_cons_iff (hps : TakesAll types ps us us') (hqs : TakesAll types qs vs vs') :
    TakesAll types (ps ++ p :: qs) (us ++ v :: vs) (us' ++ w :: vs') ↔ p.Takes types v w := by
  induction hps with
  | nil =>
      constructor
      · rintro (_ | ⟨hv, -⟩)
        exact hv
      · exact fun hv => .cons hv hqs
  | cons hu _ ih =>
      constructor
      · rintro (_ | ⟨-, hrest⟩)
        exact ih.mp hrest
      · exact fun hv => .cons hu (ih.mpr hv)

end ParamType

namespace Method

variable {types : Directory} {f : Method H} {before after : List (Method H)} {args ws : List Value}
  {typeArgs : List TypeTag}

/-- An overload is chosen if it takes the arguments and those in front of it do not. -/
theorem select_eq_ok_iff_of_first (hbefore : ∀ g ∈ before, ∀ us, ¬g.Takes types args typeArgs us)
    (owner name : String) :
    select types owner name (some (before ++ f :: after)) args typeArgs = .ok (f, ws) ↔
      f.Takes types args typeArgs ws := by
  rw [select_some_eq_ok_iff]
  constructor
  · rintro ⟨_, _, -, -, hf⟩
    exact hf
  · exact fun hf => ⟨before, after, rfl, hbefore, hf⟩

end Method

namespace Enumeration

variable {r : Registry H} {e : Enumeration} {f : Method H} {before : List (Method H)}
  {ps qs : List ParamType} {us vs us' vs' : List Value} {typeArgs : List TypeTag}

/-- A text is converted to a variant exactly if a parameter takes the text without the blanks at its ends
for that variant. What a parameter takes for a variant equals it, and what is converted to a variant
equals it exactly if it has no blanks at its ends. -/
theorem convert_iff_select (he : r.find? e.name = some e.toHostType)
    (hparams : f.params = ps ++ .exact (.enum e.name) :: qs) (hgenerics : f.generics = typeArgs.length)
    (hus : ParamType.TakesAll r.directory ps us us') (hvs : ParamType.TakesAll r.directory qs vs vs')
    (hbefore : ∀ g ∈ before, ∀ s ws, ¬g.Takes r.directory (us ++ .string s :: vs) typeArgs ws)
    (after : List (Method H)) (m : Memory H) (owner name s : String) (x : EnumValue) :
    let accepts (s : String) := Method.select r.directory owner name (some (before ++ f :: after))
      (us ++ .string s :: vs) typeArgs = .ok (f, us' ++ .enum x :: vs')
    let becomes := (Value.string s).convert r.directory m (.enum e.name) = .ok (.enum x)
    (becomes ↔ accepts (Text.trimmed s)) ∧ (Text.trimmed s = s → (becomes ↔ accepts s)) ∧
      (accepts s → (Value.enum x).equal (.string s) ∧ (Value.string s).equal (.enum x)) ∧
      (becomes → ((Value.enum x).equal (.string s) ↔ Text.trimmed s = s)) := by
  intro accepts becomes
  have haccepts (s : String) : accepts s ↔ e.variant? s = some x := by
    simp only [accepts]
    rw [Method.select_eq_ok_iff_of_first fun g hg => hbefore g hg s, ← Registry.variant_eq_ok_iff he,
      ← ParamType.takes_name_iff, ← hus.append_cons_iff hvs, ← hparams]
    exact ⟨Method.Takes.params, .mk hgenerics⟩
  have hbecomes : becomes ↔ accepts (Text.trimmed s) := by
    rw [haccepts]
    exact Value.convert_name_iff he
  refine ⟨hbecomes, fun htrimmed => ?_, fun h => ?_, fun h => ?_⟩
  · rw [hbecomes, htrimmed]
  · have hx : x.variant = s := variant_of_variant? ((haccepts s).mp h)
    simp [Value.equal, hx]
  · have hx : x.variant = Text.trimmed s := variant_of_variant? ((haccepts _).mp (hbecomes.mp h))
    simp [Value.equal, hx]

/-- The overload for ints stands in front of the one for axes. -/
theorem convert_iff_select_axis :
    let r := Sample.registry
    let e : Enumeration := ⟨"Axis", ["X", "Y", "Z"]⟩
    let y : EnumValue := ⟨"Axis", "Y", 1⟩
    let pick (p : ParamType) : Method Sample.host := ⟨"Pick", [p], 0, false, fun c => c.arg 0⟩
    let overloads := [pick (.exact .int)] ++ pick (.exact (.enum e.name)) :: [pick .any]
    let accepts (s : String) := Method.select r.directory "Counter" "Pick" (some overloads) [.string s] [] =
      .ok (pick (.exact (.enum e.name)), [.enum y])
    r.find? e.name = some e.toHostType ∧ accepts "Y" ∧
      (Value.string " Y ").convert r.directory Sample.memory (.enum e.name) = .ok (.enum y) ∧
      (Value.enum y).equal (.string "Y") := by
  intro r e y pick overloads accepts
  have he : r.find? e.name = some e.toHostType := rfl
  have hbefore : ∀ g ∈ [pick (.exact .int)], ∀ s ws,
      ¬g.Takes r.directory ([] ++ .string s :: []) [] ws := by
    rintro g hg s ws ⟨-, hparams⟩
    obtain rfl := List.mem_singleton.mp hg
    obtain _ | ⟨htakes, -⟩ := hparams
    cases ParamType.accept_eq_some_iff.mpr htakes
  have hparams : (pick (.exact (.enum e.name))).params = [] ++ .exact (.enum e.name) :: [] := rfl
  have halike (s : String) := convert_iff_select he hparams rfl .nil .nil hbefore [pick .any] Sample.memory
    "Counter" "Pick" s y
  have haccepts : accepts "Y" := rfl
  have htrimmed : Text.trimmed " Y " = "Y" := by decide
  exact ⟨he, haccepts, (halike " Y ").1.mpr (htrimmed ▸ haccepts), ((halike "Y").2.2.1 haccepts).1⟩

/-- With blanks at its ends a name can be converted, but not passed for the variant. -/
theorem not_accepts_of_padded :
    let types := Sample.registry.directory
    let y : Value := .enum ⟨"Axis", "Y", 1⟩
    let overloads? := Sample.Point.typeDef.toHostType.methods? "Component"
    (Value.string " Y ").convert types Sample.memory (.enum "Axis") = .ok y ∧
      Method.select types "Point" "Component" overloads? [.string " Y "] [] =
        .error (.unknownVariant "Axis" " Y ") ∧
      y.equal (.string " Y ") = false := by
  intro types y overloads?
  exact ⟨rfl, rfl, by decide⟩

end Enumeration

end Formula
