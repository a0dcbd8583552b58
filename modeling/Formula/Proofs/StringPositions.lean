import Formula.Proofs.ByteSearch
import Formula.Proofs.Concatenation
import Formula.Proofs.ListOperations

/-!
Positions in a string, as its members count them: parts are cut out, found and put together again at
the same positions.
-/

namespace Formula.Builtin.Strings

variable {H : Host}

/-! ### Parts -/

theorem substring_rest (s : String) (i : Int64) :
    substring s i none = if 0 ≤ i.toInt ∧ i.toInt ≤ s.toList.length
      then .ok (String.ofList (s.toList.drop i.toInt.toNat))
      else .error (.indexOutOfRange i.toInt s.toList.length) := by
  rw [substring, cut_eq]
  split <;> rfl

/-- The part of `n` characters from the position `i` on. -/
theorem substring_part {s : String} {i n : Int64} (hi : 0 ≤ i.toInt) (hn : 0 ≤ n.toInt)
    (h : i.toInt + n.toInt ≤ s.toList.length) : substring s i (some n) =
      .ok (String.ofList ((s.toList.drop i.toInt.toNat).take n.toInt.toNat)) := by
  have hcut : 0 ≤ i.toInt ∧ i.toInt ≤ s.toList.length := ⟨hi, by omega⟩
  have hrest : 0 ≤ n.toInt ∧ n.toInt ≤ (s.toList.drop i.toInt.toNat).length := by
    rw [List.length_drop]
    omega
  rw [substring, cut_eq, if_pos hcut]
  simp only [bind, Except.bind, upTo?_eq, if_pos hrest]

theorem substring_part_outside {s : String} {i n : Int64}
    (h : ¬(0 ≤ i.toInt ∧ 0 ≤ n.toInt ∧ i.toInt + n.toInt ≤ s.toList.length)) :
    ∃ message, substring s i (some n) = .error (.hostFailure message) := by
  rw [substring, cut_eq]
  by_cases hcut : 0 ≤ i.toInt ∧ i.toInt ≤ s.toList.length
  · have hrest : ¬(0 ≤ n.toInt ∧ n.toInt ≤ (s.toList.drop i.toInt.toNat).length) := by
      rw [List.length_drop]
      omega
    simp only [if_pos hcut, bind, Except.bind, upTo?_eq, if_neg hrest]
    exact ⟨_, rfl⟩
  · rw [if_neg hcut]
    exact ⟨_, rfl⟩

/-! ### Calls -/

section

variable {r : Registry H} (hr : r.find? "string" = some typeDef.toHostType)

include hr

/-- A call on a string does nothing but to compute its result from the string and the arguments. -/
theorem invoke_eq {α : Type} {x : Except Fault α} (wrap : α → Value) {f : Method H} {s name : String}
    {args : List Value} (hselect : Method.select r.directory "string" name
      ((typeDef.toHostType : HostType H).methods? name) args [] = .ok (f, args))
    (hvoid : f.isVoid = false)
    (hbody : f.body ⟨.string s, args, [], r.directory⟩ = do return wrap (← x))
    (hadmits : ∀ a, r.directory.Admits (wrap a)) :
    Eval.invoke r (.string s) name [] args = do return wrap (← x) := by
  have ht : r.typeOf (.string s) = .ok typeDef.toHostType := Registry.typeOf_eq_ok.mpr hr
  have hperform := Eval.perform_eq_of_select ht rfl hselect
  rw [hbody, hvoid] at hperform
  funext w
  cases x with
  | ok a => exact Eval.invoke_of_perform (congrFun hperform w) (hadmits a)
  | error fault => exact Eval.invoke_of_perform_error (congrFun hperform w)

theorem invoke_part (s : String) (i n : Int64) :
    Eval.invoke r (.string s) "Substring" [] [.int i, .int n] =
      do return .string (← substring s i (some n)) :=
  invoke_eq hr .string rfl rfl rfl fun _ => rfl

theorem invoke_rest (s : String) (i : Int64) :
    Eval.invoke r (.string s) "Substring" [] [.int i] = do return .string (← substring s i none) :=
  invoke_eq hr .string rfl rfl rfl fun _ => rfl

theorem invoke_indexOf (s t : String) :
    Eval.invoke r (.string s) "IndexOf" [] [.string t] = pure (.int (indexOf s t)) :=
  invoke_eq hr (x := .ok (indexOf s t)) .int rfl rfl rfl fun _ => rfl

theorem invoke_contains (s t : String) :
    Eval.invoke r (.string s) "Contains" [] [.string t] = pure (.bool (contains s t)) :=
  invoke_eq hr (x := .ok (contains s t)) .bool rfl rfl rfl fun _ => rfl

theorem invoke_startsWith (s t : String) :
    Eval.invoke r (.string s) "StartsWith" [] [.string t] = pure (.bool (startsWith s t)) :=
  invoke_eq hr (x := .ok (startsWith s t)) .bool rfl rfl rfl fun _ => rfl

theorem access_length (s : String) (w : World H) :
    Eval.access r (.string s) "Length" w = .ok (.int (length s)) w := by
  have hmember : Eval.findMember r (.string s) "Length" = .ok (typeDef.toHostType,
      ⟨"Length", .property, some readLength, none⟩) := by
    rw [Eval.findMember, Registry.typeOf_eq_ok.mpr hr]
    rfl
  have hread : Eval.readMember r (.string s) "Length" w = .ok (.int (length s)) w := by
    rw [Eval.readMember, hmember, Eval.liftM_ok, pure_bind]
    exact Eval.liftAction_ok rfl
  exact Eval.access_of_readMember rfl hread rfl

theorem invoke_part_inside {s : String} {i n : Int64} (hi : 0 ≤ i.toInt) (hn : 0 ≤ n.toInt)
    (h : i.toInt + n.toInt ≤ s.toList.length) (w : World H) :
    Eval.invoke r (.string s) "Substring" [] [.int i, .int n] w =
      .ok (.string (String.ofList ((s.toList.drop i.toInt.toNat).take n.toInt.toNat))) w := by
  rw [invoke_part hr, substring_part hi hn h]
  rfl

theorem invoke_part_outside {s : String} {i n : Int64}
    (h : ¬(0 ≤ i.toInt ∧ 0 ≤ n.toInt ∧ i.toInt + n.toInt ≤ s.toList.length)) (w : World H) :
    Eval.OutOfRange (Eval.invoke r (.string s) "Substring" [] [.int i, .int n]) w := by
  obtain ⟨message, hfault⟩ := substring_part_outside h
  rw [invoke_part hr, hfault]
  exact ⟨_, rfl, rfl⟩

theorem invoke_rest_inside {s : String} {i : Int64} (hi : 0 ≤ i.toInt ∧ i.toInt ≤ s.toList.length)
    (w : World H) : Eval.invoke r (.string s) "Substring" [] [.int i] w =
      .ok (.string (String.ofList (s.toList.drop i.toInt.toNat))) w := by
  rw [invoke_rest hr, substring_rest, if_pos hi]
  rfl

theorem invoke_rest_outside {s : String} {i : Int64} (hi : ¬(0 ≤ i.toInt ∧ i.toInt ≤ s.toList.length))
    (w : World H) : Eval.OutOfRange (Eval.invoke r (.string s) "Substring" [] [.int i]) w := by
  rw [invoke_rest hr, substring_rest, if_neg hi]
  exact ⟨_, rfl, rfl⟩

end

/-! ### Searches -/

/-- The positions at which calls find the part of `s` that is as long as `t` to be `t`. -/
def places (r : Registry H) (w : World H) (s t : String) : Set Int :=
  {k | ∃ i n : Int64, i.toInt = k ∧ Eval.access r (.string t) "Length" w = .ok (.int n) w ∧
    Eval.invoke r (.string s) "Substring" [] [.int i, .int n] w = .ok (.string t) w}

section

variable {r : Registry H} (hr : r.find? "string" = some typeDef.toHostType) {s : String}
  (hs : (s.toList.length : Int) ≤ Number.maxInt64)

include hr hs

theorem places_eq (w : World H) (t : String) :
    places r w s t = Nat.cast '' Text.occurrences t.toList s.toList := by
  ext k
  constructor
  · rintro ⟨i, n, rfl, hlength, hpart⟩
    by_cases h : 0 ≤ i.toInt ∧ 0 ≤ n.toInt ∧ i.toInt + n.toInt ≤ s.toList.length
    · rw [invoke_part_inside hr h.1 h.2.1 h.2.2] at hpart
      injection hpart with hpart
      injection hpart with hpart
      refine ⟨i.toInt.toNat, ⟨by omega, ?_⟩, Int.toNat_of_nonneg h.1⟩
      rw [← hpart, String.toList_ofList]
      exact List.take_prefix _ _
    · obtain ⟨e, he, -⟩ := invoke_part_outside hr h w
      rw [he] at hpart
      cases hpart
  · rintro ⟨k, ⟨hk, hprefix⟩, rfl⟩
    have hle := hprefix.length_le
    rw [List.length_drop] at hle
    have hi : (count k).toInt = k := toInt_count_of_le (by omega)
    have hn : (count t.toList.length).toInt = t.toList.length := toInt_count_of_le (by omega)
    refine ⟨count k, count t.toList.length, hi, access_length hr t w, ?_⟩
    rw [invoke_part_inside hr (by omega) (by omega) (by omega), hi, hn, Int.toNat_natCast,
      Int.toNat_natCast, ← List.prefix_iff_eq_take.mp hprefix, String.ofList_toList]

theorem indexOf_spec (w : World H) (t : String) :
    IsLeast (places r w s t) (indexOf s t).toInt ∧
        IsLeast (Text.byteOccurrences t.toList s.toList)
          (Text.bytes (s.toList.take (indexOf s t).toInt.toNat)) ∨
      indexOf s t = -1 ∧ places r w s t = ∅ ∧ Text.byteOccurrences t.toList s.toList = ∅ := by
  have hspec := Text.indexOf?_spec t.toList s.toList
  rw [places_eq hr hs, indexOf]
  cases hindex : Text.indexOf? t.toList s.toList with
  | some k =>
      rw [hindex] at hspec
      have hk : k ≤ s.toList.length := hspec.1.1
      have hcount : (count k).toInt = k := toInt_count_of_le (by omega)
      refine .inl ⟨?_, ?_⟩
      · simp only [hcount]
        exact Nat.mono_cast.map_isLeast hspec
      · simp only [hcount, Int.toNat_natCast]
        exact Text.isLeast_byteOccurrences hspec
  | none =>
      rw [hindex] at hspec
      exact .inr ⟨rfl, by rw [hspec, Set.image_empty], Text.byteOccurrences_eq_empty hspec⟩

end

theorem contains_iff (s t : String) : contains s t = true ↔ indexOf s t ≠ -1 := by
  rw [contains, Text.contains, indexOf]
  cases Text.indexOf? t.toList s.toList with
  | some k => simpa using count_ne_neg_one k
  | none => simp

theorem startsWith_iff (s t : String) : startsWith s t = true ↔ indexOf s t = 0 := by
  have hspec := Text.indexOf?_spec t.toList s.toList
  rw [startsWith, List.isPrefixOf_iff_prefix, ← Text.zero_mem_occurrences, indexOf]
  cases hindex : Text.indexOf? t.toList s.toList with
  | some k =>
      rw [hindex] at hspec
      constructor
      · intro hzero
        rw [Nat.le_zero.mp (hspec.2 hzero)]
        rfl
      · intro hcount
        have hk : (count k).toInt = 0 := congrArg Int64.toInt hcount
        rw [toInt_count, Number.maxInt64] at hk
        obtain rfl : k = 0 := by omega
        exact hspec.1
  | none =>
      rw [hindex] at hspec
      have hne : (-1 : Int64) ≠ 0 := by decide
      simp [hspec, hne]

/-- Calls on the string `s` agree on its positions, which are those of its characters. -/
structure HasPositions (r : Registry H) (w : World H) (s : String) : Prop where
  length : ∃ n : Int64, n.toInt = s.toList.length ∧
    Eval.access r (.string s) "Length" w = .ok (.int n) w
  part (i n : Int64) : 0 ≤ i.toInt → 0 ≤ n.toInt → i.toInt + n.toInt ≤ s.toList.length →
    Eval.invoke r (.string s) "Substring" [] [.int i, .int n] w =
      .ok (.string (String.ofList ((s.toList.drop i.toInt.toNat).take n.toInt.toNat))) w
  part_outside (i n : Int64) : ¬(0 ≤ i.toInt ∧ 0 ≤ n.toInt ∧ i.toInt + n.toInt ≤ s.toList.length) →
    Eval.OutOfRange (Eval.invoke r (.string s) "Substring" [] [.int i, .int n]) w
  /-- A cut at a position, and the two parts put together again. -/
  cut (i : Int64) : 0 ≤ i.toInt → i.toInt ≤ s.toList.length →
    let first := String.ofList (s.toList.take i.toInt.toNat)
    let rest := String.ofList (s.toList.drop i.toInt.toNat)
    Eval.invoke r (.string s) "Substring" [] [.int 0, .int i] w = .ok (.string first) w ∧
      Eval.invoke r (.string s) "Substring" [] [.int i] w = .ok (.string rest) w ∧
      (Value.string first).binary w.memory .add (.string rest) = .ok (.string s)
  cut_outside (i : Int64) : ¬(0 ≤ i.toInt ∧ i.toInt ≤ s.toList.length) →
    Eval.OutOfRange (Eval.invoke r (.string s) "Substring" [] [.int i]) w
  /-- The first of all places, also among the bytes of the two texts, or none. -/
  search (t : String) : ∃ i : Int64,
    Eval.invoke r (.string s) "IndexOf" [] [.string t] w = .ok (.int i) w ∧
      (IsLeast (places r w s t) i.toInt ∧
          IsLeast (Text.byteOccurrences t.toList s.toList) (Text.bytes (s.toList.take i.toInt.toNat)) ∨
        i = -1 ∧ places r w s t = ∅ ∧ Text.byteOccurrences t.toList s.toList = ∅)
  contains_iff (t : String) : ∃ b i,
    Eval.invoke r (.string s) "Contains" [] [.string t] w = .ok (.bool b) w ∧
      Eval.invoke r (.string s) "IndexOf" [] [.string t] w = .ok (.int i) w ∧ (b = true ↔ i ≠ -1)
  startsWith_iff (t : String) : ∃ b i,
    Eval.invoke r (.string s) "StartsWith" [] [.string t] w = .ok (.bool b) w ∧
      Eval.invoke r (.string s) "IndexOf" [] [.string t] w = .ok (.int i) w ∧ (b = true ↔ i = 0)

/-- A string that an int can count the characters of, as it can for any that there is room for. -/
theorem hasPositions {r : Registry H} (hr : r.find? "string" = some typeDef.toHostType) (w : World H)
    {s : String} (hs : (s.toList.length : Int) ≤ Number.maxInt64) : HasPositions r w s where
  length := ⟨length s, toInt_count_of_le hs, access_length hr s w⟩
  part _ _ hi hn h := invoke_part_inside hr hi hn h w
  part_outside _ _ h := invoke_part_outside hr h w
  cut i hi hle := by
    have hzero : (0 : Int64).toInt = 0 := rfl
    have hfirst := invoke_part_inside hr (i := 0) (n := i) (s := s) (by omega) hi (by omega) w
    refine ⟨hfirst, invoke_rest_inside hr ⟨hi, hle⟩ w, ?_⟩
    rw [Value.binary_string_add]
    change Except.ok (Value.string (String.ofList _ ++ String.ofList _)) = _
    rw [← String.ofList_append, List.take_append_drop, String.ofList_toList]
  cut_outside _ h := invoke_rest_outside hr h w
  search t := ⟨indexOf s t, congrFun (invoke_indexOf hr s t) w, indexOf_spec hr hs w t⟩
  contains_iff t := ⟨contains s t, indexOf s t, congrFun (invoke_contains hr s t) w,
    congrFun (invoke_indexOf hr s t) w, contains_iff s t⟩
  startsWith_iff t := ⟨startsWith s t, indexOf s t, congrFun (invoke_startsWith hr s t) w,
    congrFun (invoke_indexOf hr s t) w, startsWith_iff s t⟩

open Sample in
/-- The `ü` has two bytes, so that the `ß` is the fourth character and begins at the fifth byte. -/
theorem hasPositions_umlaut :
    let r := registry
    let w := looped.world
    let s := "Grüße"
    r.find? "string" = some typeDef.toHostType ∧ (s.toList.length : Int) ≤ Number.maxInt64 ∧
      Eval.invoke r (.string s) "Substring" [] [.int 2, .int 3] w = .ok (.string "üße") w ∧
      Eval.OutOfRange (Eval.invoke r (.string s) "Substring" [] [.int 3, .int 3]) w ∧
      Eval.OutOfRange (Eval.invoke r (.string s) "Substring" [] [.int 2, .int Int64.maxValue]) w ∧
      Eval.invoke r (.string s) "Substring" [] [.int 5] w = .ok (.string "") w ∧
      Eval.OutOfRange (Eval.invoke r (.string s) "Substring" [] [.int 6]) w ∧
      IsLeast (places r w s "ß") 3 ∧ IsLeast (Text.byteOccurrences "ß".toList s.toList) 4 := by
  intro r w s
  have hr : r.find? "string" = some typeDef.toHostType := rfl
  have hs : (s.toList.length : Int) ≤ Number.maxInt64 := by decide
  have h : HasPositions r w s := hasPositions hr w hs
  have hpart := h.part 2 3 (by decide) (by decide) (by decide)
  have hend := (h.cut 5 (by decide) (by decide)).2.1
  have hfound : Eval.invoke r (.string s) "IndexOf" [] [.string "ß"] w = .ok (.int 3) w := by
    rw [invoke_indexOf hr]
    cbv
  obtain ⟨i, hi, hsearch⟩ := h.search "ß"
  obtain rfl : i = 3 := by simpa using hi.symm.trans hfound
  obtain ⟨hplace, hbyte⟩ := hsearch.resolve_right (by decide)
  have hbytes : Text.bytes (s.toList.take 3) = 4 := by decide
  have htext : String.ofList ((s.toList.drop 2).take 3) = "üße" := by cbv
  have hempty : String.ofList (s.toList.drop 5) = "" := by cbv
  exact ⟨hr, hs, htext ▸ hpart, h.part_outside 3 3 (by decide),
    h.part_outside 2 Int64.maxValue (by decide), hempty ▸ hend, h.cut_outside 6 (by decide), hplace,
    hbytes ▸ hbyte⟩

end Formula.Builtin.Strings
