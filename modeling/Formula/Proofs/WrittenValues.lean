import Formula.Proofs.BindingNames

/-!
Values as they are written behind the name of a binding. What is written is read back, except that a list
is cut at every comma, also at one in quotes.
-/

namespace Formula

namespace Text

theorem length_fields (sep : Char) (cs : List Char) : (fields sep cs).length = cs.count sep + 1 := by
  induction cs with
  | nil => rfl
  | cons c cs ih =>
      rw [fields]
      split
      · next hc => rw [List.length_cons, ih, hc, List.count_cons_self]
      · next hc =>
        rw [List.count_cons_of_ne hc, ← ih]
        cases hfields : fields sep cs with
        | nil => simp [hfields] at ih
        | cons f fs => rfl

theorem fields_ne_nil (sep : Char) (cs : List Char) : fields sep cs ≠ [] := by
  rw [← List.length_pos_iff, length_fields]
  exact Nat.succ_pos _

theorem fields_append (sep : Char) (a b : List Char) :
    fields sep (a ++ sep :: b) = fields sep a ++ fields sep b := by
  induction a with
  | nil => simp [fields]
  | cons c cs ih =>
      rw [List.cons_append, fields, fields, ih]
      split
      · rfl
      · obtain ⟨f, fs, hfields⟩ := List.exists_cons_of_ne_nil (fields_ne_nil sep cs)
        rw [hfields]
        rfl

theorem fields_of_not_mem {sep : Char} {cs : List Char} (h : sep ∉ cs) : fields sep cs = [cs] := by
  induction cs with
  | nil => rfl
  | cons c cs ih =>
      obtain ⟨hc, hcs⟩ : sep ≠ c ∧ sep ∉ cs := by simpa using h
      rw [fields, if_neg hc.symm, ih hcs]

theorem fields_intercalate {sep : Char} {parts : List (List Char)} (h : parts ≠ []) :
    fields sep ([sep].intercalate parts) = parts.flatMap (fields sep) := by
  induction parts with
  | nil => exact absurd rfl h
  | cons part parts ih =>
      cases parts with
      | nil => simp
      | cons next parts =>
          rw [List.intercalate_cons_cons, List.append_assoc, List.singleton_append, fields_append,
            ih (List.cons_ne_nil _ _)]
          rfl

theorem splitFirst?_eq_none {sep : Char} {cs : List Char} (h : sep ∉ cs) : splitFirst? sep cs = none := by
  induction cs with
  | nil => rfl
  | cons c cs ih =>
      obtain ⟨hc, hcs⟩ : sep ≠ c ∧ sep ∉ cs := by simpa using h
      rw [splitFirst?, if_neg hc.symm, ih hcs, Option.map_none]

theorem enclosed?_append (first last : Char) (body : List Char) :
    enclosed? first last (first :: (body ++ [last])) = some body := by
  simp [enclosed?]

theorem enclosed?_eq_none {first last c : Char} {cs : List Char} (h : c ≠ first) :
    enclosed? first last (c :: cs) = none := by
  simp [enclosed?, h]

theorem trim_ne_nil {c : Char} {cs : List Char} (h : isBlank c = false) : trim (c :: cs) ≠ [] := by
  have hleft : trimLeft (c :: cs) = c :: cs := List.dropWhile_cons_of_neg (by simp [h])
  intro htrim
  obtain ⟨blanks, hcs, hblanks⟩ := trimRight_append_trimmed (c :: cs)
  rw [trim, hleft] at htrim
  rw [htrim, List.nil_append] at hcs
  have hc := hblanks c (hcs ▸ List.mem_cons_self ..)
  rw [h] at hc
  cases hc

theorem trim_enclosed {first last : Char} (hfirst : isBlank first = false) (hlast : isBlank last = false)
    (body : List Char) : trim (first :: (body ++ [last])) = first :: (body ++ [last]) := by
  rw [trim_eq_self_iff, ← List.cons_append, List.getLast?_concat]
  exact ⟨fun c hc => Option.some.inj hc ▸ hfirst, fun c hc => Option.some.inj hc ▸ hlast⟩

end Text

namespace Cli

/-- A value that is no list. -/
inductive Scalar where
  | null
  | bool (b : Bool)
  | int (n : Int64)
  | string (s : String)
deriving DecidableEq

namespace Scalar

def value : Scalar → Value
  | null => .null
  | bool b => .bool b
  | int n => .int n
  | string s => .string s

def datum : Scalar → Datum
  | null => .null
  | bool b => .bool b
  | int n => .int n
  | string s => .string s

/-- A string stands in quotes. -/
def text : Scalar → String
  | null => "null"
  | bool b => if b then "true" else "false"
  | int n => toString n.toInt
  | string s => "\"" ++ s ++ "\""

/-- Something that a list would be cut at. -/
def HasComma : Scalar → Prop
  | string s => ',' ∈ s.toList
  | _ => False

instance (x : Scalar) : Decidable x.HasComma :=
  match x with
  | string s => inferInstanceAs (Decidable (',' ∈ s.toList))
  | null | bool _ | int _ => inferInstanceAs (Decidable False)

theorem toList_text_string (s : String) : (string s).text.toList = '"' :: (s.toList ++ ['"']) := by
  simp [text]

theorem exists_cons_text_int (n : Int64) :
    ∃ c cs, (int n).text.toList = c :: cs ∧ ∀ d, d ≠ '-' → d.isDigit = false → c ≠ d := by
  obtain ⟨c, cs, hcs⟩ := List.exists_cons_of_ne_nil (Number.toString_ne_nil n.toInt)
  refine ⟨c, cs, hcs, ?_⟩
  rintro d hminus hdigit rfl
  rcases Number.forall_mem_toString n.toInt c (hcs ▸ List.mem_cons_self ..) with h | h
  · exact hminus h
  · rw [hdigit] at h
    cases h

theorem mem_text_iff (x : Scalar) : ',' ∈ x.text.toList ↔ x.HasComma := by
  cases x with
  | null => decide
  | bool b => cases b <;> decide
  | int n =>
      refine iff_of_false (fun hmem => ?_) id
      rcases Number.forall_mem_toString n.toInt _ hmem with h | h
      · cases h
      · exact absurd h (by decide)
  | string s => simp [toList_text_string, HasComma]

theorem trim_text (x : Scalar) : Text.trim x.text.toList = x.text.toList := by
  cases x with
  | null => decide
  | bool b => cases b <;> decide
  | int n => exact Text.trim_digits n.toInt
  | string s =>
      rw [toList_text_string, Text.trim_enclosed (by decide) (by decide)]

/-- What begins with a bracket is a list. -/
theorem exists_cons_text (x : Scalar) :
    ∃ c cs, x.text.toList = c :: cs ∧ Text.isBlank c = false ∧ c ≠ '[' := by
  obtain ⟨c, cs, htext, hc⟩ : ∃ c cs, x.text.toList = c :: cs ∧ c ≠ '[' := by
    cases x with
    | null => exact ⟨'n', ['u', 'l', 'l'], by decide⟩
    | bool b =>
        cases b with
        | false => exact ⟨'f', ['a', 'l', 's', 'e'], by decide⟩
        | true => exact ⟨'t', ['r', 'u', 'e'], by decide⟩
    | int n =>
        obtain ⟨c, cs, htext, hne⟩ := exists_cons_text_int n
        exact ⟨c, cs, htext, hne '[' (by decide) (by decide)⟩
    | string s => exact ⟨'"', _, toList_text_string s, by decide⟩
  refine ⟨c, cs, htext, (Text.trim_eq_self_iff.mp x.trim_text).1 c ?_, hc⟩
  rw [htext, List.head?_cons]

end Scalar

namespace Datum

theorem scalar_of_not_word {cs : List Char} (hnull : cs ≠ "null".toList) (htrue : cs ≠ "true".toList)
    (hfalse : cs ≠ "false".toList) : scalar cs = match unquoted? cs with
      | some inner => string (String.ofList inner)
      | none => (number? cs).getD (string (String.ofList cs)) := by
  have hne {w : String} (hw : cs ≠ w.toList) : String.ofList cs ≠ w := by
    rintro rfl
    exact hw (String.toList_ofList).symm
  rw [scalar]
  split
  · next h => exact absurd h (hne hnull)
  · next h => exact absurd h (hne htrue)
  · next h => exact absurd h (hne hfalse)
  · rfl

theorem number?_text (n : Int64) : number? (Scalar.int n).text.toList = some (int n) := by
  have hnumeric : looksNumeric (Scalar.int n).text.toList = true := by
    obtain ⟨c, cs, hcs, hdigits, -⟩ := Number.digits_of_int n.toInt
    have hc := hdigits c (List.mem_cons_self ..)
    rw [Scalar.text, hcs]
    have hsign : (c == '-' || c == '+') = false := by
      rw [Bool.eq_false_iff]
      intro h
      simp only [Bool.or_eq_true, beq_iff_eq] at h
      rcases h with rfl | rfl <;> cases hc
    split <;> simp [looksNumeric, hsign, hc]
  have hread := Number.readInt64?_toString n
  rw [number?, if_pos hnumeric, Scalar.text, hread]
  rfl

theorem scalar_text (x : Scalar) : scalar x.text.toList = x.datum := by
  cases x with
  | null => rfl
  | bool b => cases b <;> rfl
  | int n =>
      obtain ⟨c, cs, htext, hne⟩ := Scalar.exists_cons_text_int n
      have hunquoted : unquoted? (Scalar.int n).text.toList = none := by
        rw [htext, unquoted?, Text.enclosed?_eq_none (hne '"' (by decide) (by decide)),
          Text.enclosed?_eq_none (hne '\'' (by decide) (by decide))]
        rfl
      have hword (d : Char) (ds : List Char) (hminus : d ≠ '-') (hdigit : d.isDigit = false) :
          (Scalar.int n).text.toList ≠ d :: ds := by
        rw [htext]
        exact fun h => hne d hminus hdigit (List.cons.inj h).1
      rw [scalar_of_not_word (hword 'n' _ (by decide) (by decide))
        (hword 't' _ (by decide) (by decide)) (hword 'f' _ (by decide) (by decide)), hunquoted,
        number?_text]
      rfl
  | string s =>
      rw [Scalar.toList_text_string, scalar_of_not_word (by simp) (by simp) (by simp), unquoted?,
        Text.enclosed?_append]
      exact congrArg string String.ofList_toList

theorem read_text (x : Scalar) : read x.text.toList = x.datum := by
  obtain ⟨c, cs, htext, -, hc⟩ := x.exists_cons_text
  have henclosed : Text.enclosed? '[' ']' x.text.toList = none := by
    rw [htext, Text.enclosed?_eq_none hc]
  rw [read]
  split
  · rw [x.trim_text, scalar_text]
  · next inner h =>
    rw [x.trim_text, henclosed] at h
    cases h

end Datum

/-- A value that has a written form. -/
inductive Written where
  | scalar (x : Scalar)
  | list (items : List Scalar)

namespace Written

/-- In memory, a list is an object that has the items as its contents. -/
def IsValue {H : Host} (m : Memory H) : Written → Value → Prop
  | scalar x, u => u = x.value
  | list items, u => ∃ o, u = .object o ∧ o.typeName = "List" ∧ m.items? o = some (items.map (·.value))

def datum : Written → Datum
  | scalar x => x.datum
  | list items => .list (items.map (·.datum))

/-- Items stand between brackets and are joined by commas. -/
def text : Written → String
  | scalar x => x.text
  | list items => "[" ++ ",".intercalate (items.map (·.text)) ++ "]"

def items : Written → List Scalar
  | scalar _ => []
  | list items => items

end Written

namespace Datum

theorem read_of_enclosed {text inner : List Char}
    (h : Text.enclosed? '[' ']' (Text.trim text) = some inner) :
    read text = if (Text.trim inner).isEmpty then list [] else list ((Text.fields ',' inner).map read) := by
  rw [read]
  split
  · next hnone =>
    rw [h] at hnone
    cases hnone
  · next inner' h' =>
    obtain rfl := Option.some.inj (h.symm.trans h')
    rw [List.map_attach_eq_pmap, List.pmap_eq_map]

/-- A list is cut at every comma in the text of its items. -/
theorem read_text_list (items : List Scalar) : read (Written.list items).text.toList =
    list ((items.flatMap fun x => Text.fields ',' x.text.toList).map read) := by
  let inner := [','].intercalate (items.map (·.text.toList))
  have htext : (Written.list items).text.toList = '[' :: (inner ++ [']']) := by
    simp [Written.text, inner, String.toList_intercalate, Function.comp_def]
  have henclosed : Text.enclosed? '[' ']' (Text.trim ('[' :: (inner ++ [']']))) = some inner := by
    rw [Text.trim_enclosed (by decide) (by decide), Text.enclosed?_append]
  rw [htext, read_of_enclosed henclosed]
  cases items with
  | nil => rfl
  | cons x xs =>
      obtain ⟨c, cs, hx, hc, -⟩ := x.exists_cons_text
      have hinner : ∃ ds, inner = c :: ds := by
        cases xs with
        | nil => exact ⟨cs, by simp [inner, hx]⟩
        | cons y ys => exact ⟨_, by simp [inner, hx]; rfl⟩
      obtain ⟨ds, hds⟩ := hinner
      have hblank : (Text.trim inner).isEmpty = false := by
        rw [hds, List.isEmpty_eq_false_iff]
        exact Text.trim_ne_nil hc
      have hfields : Text.fields ',' inner = (x :: xs).flatMap fun x => Text.fields ',' x.text.toList := by
        rw [Text.fields_intercalate (by simp), List.flatMap_map]
      rw [hblank, hfields]
      rfl

theorem length_cut (items : List Scalar) :
    (items.flatMap fun x => Text.fields ',' x.text.toList).length =
      (items.map fun x => x.text.toList.count ',').sum + items.length := by
  induction items with
  | nil => rfl
  | cons x xs ih =>
      rw [List.flatMap_cons, List.length_append, Text.length_fields, ih, List.map_cons, List.sum_cons,
        List.length_cons]
      omega

/-- What is written is read back exactly if no item of a list has a comma in it. -/
theorem read_text_iff (v : Written) :
    read v.text.toList = v.datum ↔ ∀ x ∈ v.items, ¬x.HasComma := by
  cases v with
  | scalar x => exact iff_of_true (read_text x) (by simp [Written.items])
  | list items =>
      rw [read_text_list, Written.datum, list.injEq]
      constructor
      · intro h x hx hcomma
        -- Each comma in an item makes the list longer.
        have hlength := congrArg List.length h
        rw [List.length_map, List.length_map, length_cut, Nat.add_eq_right, List.sum_eq_zero_iff] at hlength
        have hcount := hlength _ (List.mem_map_of_mem hx)
        exact List.count_eq_zero.mp hcount (x.mem_text_iff.mpr hcomma)
      · intro h
        have hfields : ∀ x ∈ items, Text.fields ',' x.text.toList = [x.text.toList] := fun x hx =>
          Text.fields_of_not_mem (x.mem_text_iff.not.mpr (h x hx))
        rw [List.flatMap_congr hfields, ← List.map_eq_flatMap, List.map_map]
        exact List.map_congr_left fun x _ => read_text x

end Datum

/-! ### Values in memory -/

section Memory

variable {H : Host}

theorem Scalar.build_datum (x : Scalar) (m : Memory H) : x.datum.build m = .ok x.value m := by
  cases x <;> rfl

theorem Datum.buildAll_scalars (items : List Scalar) (m : Memory H) :
    buildAll (items.map (·.datum)) m = .ok (items.map (·.value)) m := by
  induction items with
  | nil => rfl
  | cons x xs ih =>
      rw [List.map_cons, buildAll, run_bind_of_ok (x.build_datum m), run_bind_of_ok ih]
      rfl

theorem Written.build_datum (v : Written) (m : Memory H) :
    ∃ u m', v.datum.build m = .ok u m' ∧ v.IsValue m' u := by
  cases v with
  | scalar x => exact ⟨x.value, m, x.build_datum m, rfl⟩
  | list items =>
      let allocated := m.alloc "List" (.list (items.map (·.value)))
      refine ⟨.object allocated.1, allocated.2, ?_, allocated.1, rfl, rfl, ?_⟩
      · rw [Written.datum, Datum.build, run_bind_of_ok (Datum.buildAll_scalars items m)]
        rfl
      · rw [Memory.items?, Memory.get?_alloc]

end Memory

namespace BindingArg

/-- What stands behind the first equals sign after a name is the value, whatever it looks like. -/
theorem parse_of_isName {name : String} (h : isName name.toList = true) (value : String) :
    parse (name ++ "=" ++ value) = .ok ⟨name, none, .read value.toList⟩ := by
  have hword : IsWord name := by rwa [isName_iff, String.ofList_toList] at h
  have hequals := Text.splitFirst?_append (hword.not_mem (c := '=') (by decide)) value.toList
  have hcolon := Text.splitFirst?_eq_none (hword.not_mem (c := ':') (by decide))
  have htext : (name ++ "=" ++ value).toList = name.toList ++ '=' :: value.toList := by simp
  rw [parse, htext, hequals]
  simp only [hcolon, hword.trim_eq, h, if_true, String.ofList_toList]

/-- A binding carries the value that is written behind its name if that is a scalar or a list without
commas in its strings. Any list is cut at every comma between its brackets. -/
theorem parse_written {H : Host} {name : String} (hname : isName name.toList = true) (v : Written) :
    ∃ d, parse (name ++ "=" ++ v.text) = .ok ⟨name, none, d⟩ ∧
      (d = v.datum ↔ ∀ x ∈ v.items, ¬x.HasComma) ∧
      ((∀ x ∈ v.items, ¬x.HasComma) →
        ∀ m : Memory H, ∃ u m', d.build m = .ok u m' ∧ v.IsValue m' u) ∧
      ∀ items, v = .list items →
        d = .list ((items.flatMap fun x => Text.fields ',' x.text.toList).map .read) := by
  have hread := Datum.read_text_iff v
  refine ⟨_, parse_of_isName hname v.text, hread, fun hcomma m => ?_, ?_⟩
  · rw [hread.mpr hcomma]
    exact v.build_datum m
  · rintro items rfl
    exact Datum.read_text_list items

/-- The least int, and a string with all that has a meaning elsewhere in a binding but a comma. -/
theorem parse_written_mixed :
    let v : Written := .list [.null, .bool true, .int Int64.minValue, .string "k=v: '[1]' \"2\""]
    isName "größe".toList = true ∧
      v.text = "[null,true,-9223372036854775808,\"k=v: '[1]' \"2\"\"]" ∧
      (∀ x ∈ v.items, ¬x.HasComma) ∧
      ∃ d, parse ("größe" ++ "=" ++ v.text) = .ok ⟨"größe", none, d⟩ ∧ d = v.datum ∧
        ∀ m : Memory Cli.host, ∃ u m', d.build m = .ok u m' ∧ v.IsValue m' u := by
  intro v
  have hname : isName "größe".toList = true := by decide +kernel
  have hcomma : ∀ x ∈ v.items, ¬x.HasComma := by decide
  obtain ⟨d, hd, hdatum, hbuild, -⟩ := parse_written hname v
  exact ⟨hname, by decide +kernel, hcomma, d, hd, hdatum.mpr hcomma, hbuild hcomma⟩

/-- One string with a comma becomes two that each keep a quote. -/
theorem not_parse_written_comma :
    let v : Written := .list [.string "a,b"]
    let d : Datum := .list [.string "\"a", .string "b\""]
    isName "xs".toList = true ∧ "xs" ++ "=" ++ v.text = "xs=[\"a,b\"]" ∧
      parse "xs=[\"a,b\"]" = .ok ⟨"xs", none, d⟩ ∧ d ≠ v.datum := by
  intro v d
  have hparse : parse "xs=[\"a,b\"]" = .ok ⟨"xs", none, d⟩ := by cbv
  refine ⟨by decide, by decide +kernel, hparse, fun h => ?_⟩
  have hlength := congrArg List.length (Datum.list.inj h)
  cases hlength

end BindingArg

end Cli

end Formula
