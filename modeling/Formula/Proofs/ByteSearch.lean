import Formula.Text.Offset
import Formula.Text.Search
import Mathlib.Order.Bounds.Basic

/-!
A text stands in another at the same places whether one looks at the characters or at the bytes of
their UTF-8 forms: the first byte of a character is no later byte of any other.
-/

namespace Formula.Text

/-! ### Among the characters -/

/-- The positions at which a text stands in another. -/
def occurrences (needle hay : List Char) : Set Nat := {k | k ≤ hay.length ∧ needle <+: hay.drop k}

variable {needle hay : List Char} {c : Char} {k : Nat}

theorem zero_mem_occurrences : 0 ∈ occurrences needle hay ↔ needle <+: hay := by
  simp [occurrences]

theorem succ_mem_occurrences : k + 1 ∈ occurrences needle (c :: hay) ↔ k ∈ occurrences needle hay := by
  simp [occurrences]

theorem indexOf?_spec (needle hay : List Char) :
    match indexOf? needle hay with
    | some k => IsLeast (occurrences needle hay) k
    | none => occurrences needle hay = ∅ := by
  induction hay with
  | nil =>
      cases needle with
      | nil => exact ⟨zero_mem_occurrences.mpr List.nil_prefix, fun k _ => Nat.zero_le k⟩
      | cons c needle => simp [indexOf?, occurrences]
  | cons c hay ih =>
      rw [indexOf?]
      by_cases hprefix : needle <+: c :: hay
      · rw [if_pos (List.isPrefixOf_iff_prefix.mpr hprefix)]
        exact ⟨zero_mem_occurrences.mpr hprefix, fun k _ => Nat.zero_le k⟩
      · rw [if_neg (mt List.isPrefixOf_iff_prefix.mp hprefix)]
        cases hindex : indexOf? needle hay with
        | some k =>
            rw [hindex] at ih
            refine ⟨succ_mem_occurrences.mpr ih.1, ?_⟩
            rintro (_ | j) hj
            · exact absurd (zero_mem_occurrences.mp hj) hprefix
            · exact Nat.succ_le_succ (ih.2 (succ_mem_occurrences.mp hj))
        | none =>
            rw [hindex] at ih
            refine Set.eq_empty_of_forall_notMem ?_
            rintro (_ | j) hj
            · exact hprefix (zero_mem_occurrences.mp hj)
            · exact Set.eq_empty_iff_forall_notMem.mp ih j (succ_mem_occurrences.mp hj)

/-! ### Among the bytes -/

def utf8 (cs : List Char) : List UInt8 := cs.flatMap String.utf8EncodeChar

@[simp] theorem utf8_nil : utf8 [] = [] := rfl

@[simp] theorem utf8_cons (c : Char) (cs : List Char) :
    utf8 (c :: cs) = String.utf8EncodeChar c ++ utf8 cs := List.flatMap_cons

@[simp] theorem utf8_append (a b : List Char) : utf8 (a ++ b) = utf8 a ++ utf8 b :=
  List.flatMap_append

theorem length_utf8 (cs : List Char) : (utf8 cs).length = bytes cs := by
  induction cs with
  | nil => rfl
  | cons c cs ih => rw [utf8_cons, List.length_append, String.length_utf8EncodeChar, ih, bytes_cons]

/-- The offsets at which the bytes of a text stand in those of another. -/
def byteOccurrences (needle hay : List Char) : Set Nat :=
  {b | b ≤ bytes hay ∧ utf8 needle <+: (utf8 hay).drop b}

theorem utf8EncodeChar_append_inj {c d : Char} {x y : List UInt8}
    (h : String.utf8EncodeChar c ++ x = String.utf8EncodeChar d ++ y) : c = d := by
  have hbytes := congrArg (fun l => l.toByteArray.utf8DecodeChar? 0) h
  simpa only [List.toByteArray_append, ByteArray.utf8DecodeChar?_utf8EncodeChar_append,
    Option.some.injEq] using hbytes

theorem utf8_prefix_iff {a b : List Char} : utf8 a <+: utf8 b ↔ a <+: b := by
  constructor
  · intro h
    induction a generalizing b with
    | nil => exact List.nil_prefix
    | cons c a ih =>
        cases b with
        | nil => simp at h
        | cons d b =>
            obtain ⟨rest, hrest⟩ := h
            rw [utf8_cons, utf8_cons, List.append_assoc] at hrest
            obtain rfl := utf8EncodeChar_append_inj hrest
            exact List.cons_prefix_cons.mpr ⟨rfl, ih ⟨rest, List.append_cancel_left hrest⟩⟩
  · rintro ⟨rest, rfl⟩
    exact ⟨utf8 rest, (utf8_append a rest).symm⟩

/-- The bytes of a character stand at no place inside another character. -/
theorem not_utf8_prefix_inside {d : Char} {b : Nat} (hpos : 0 < b) (hlt : b < d.utf8Size) :
    ¬utf8 (c :: needle) <+: (utf8 (d :: hay)).drop b := by
  rintro ⟨rest, hrest⟩
  have hc : 0 < (String.utf8EncodeChar c).length := by
    rw [String.length_utf8EncodeChar]
    exact c.utf8Size_pos
  have hd : b < (String.utf8EncodeChar d).length := by rwa [String.length_utf8EncodeChar]
  have hbyte : (String.utf8EncodeChar c)[0] = (String.utf8EncodeChar d)[b] := by
    have hget := congrArg (·[0]?) hrest
    rwa [utf8_cons, utf8_cons, List.append_assoc, List.getElem?_append_left hc, List.getElem?_drop,
      Nat.add_zero, List.getElem?_append_left hd, List.getElem?_eq_getElem hc,
      List.getElem?_eq_getElem hd, Option.some.injEq] at hget
  have hfirst : (String.utf8EncodeChar c)[0].IsUTF8FirstByte :=
    UInt8.isUTF8FirstByte_getElem_utf8EncodeChar.mpr rfl
  rw [hbyte] at hfirst
  exact hpos.ne' (UInt8.isUTF8FirstByte_getElem_utf8EncodeChar.mp hfirst)

/-- Where the bytes of a text that is not empty stand, its characters stand. -/
theorem exists_of_utf8_prefix {b : Nat} (h : utf8 (c :: needle) <+: (utf8 hay).drop b) :
    ∃ k ∈ occurrences (c :: needle) hay, bytes (hay.take k) = b := by
  induction hay generalizing b with
  | nil =>
      have hlength := h.length_le
      have hpos := c.utf8Size_pos
      rw [length_utf8, bytes_cons, utf8_nil, List.drop_nil, List.length_nil] at hlength
      omega
  | cons d hay ih =>
      rcases Nat.eq_zero_or_pos b with rfl | hpos
      · exact ⟨0, zero_mem_occurrences.mpr (utf8_prefix_iff.mp h), rfl⟩
      · rcases Nat.lt_or_ge b d.utf8Size with hlt | hge
        · exact absurd h (not_utf8_prefix_inside hpos hlt)
        · have hrest : (utf8 (d :: hay)).drop b = (utf8 hay).drop (b - d.utf8Size) := by
            have hd : (String.utf8EncodeChar d).length ≤ b := by rwa [String.length_utf8EncodeChar]
            rw [utf8_cons, List.drop_append, List.drop_eq_nil_of_le hd, List.nil_append,
              String.length_utf8EncodeChar]
          rw [hrest] at h
          obtain ⟨k, hk, hbytes⟩ := ih h
          refine ⟨k + 1, succ_mem_occurrences.mpr hk, ?_⟩
          rw [List.take_succ_cons, bytes_cons, hbytes]
          omega

theorem bytes_take_mem_byteOccurrences (h : k ∈ occurrences needle hay) :
    bytes (hay.take k) ∈ byteOccurrences needle hay := by
  have hbytes : bytes (hay.take k) + bytes (hay.drop k) = bytes hay := by
    rw [← bytes_append, List.take_append_drop]
  have hdrop : (utf8 hay).drop (bytes (hay.take k)) = utf8 (hay.drop k) :=
    calc (utf8 hay).drop (bytes (hay.take k))
        = (utf8 (hay.take k) ++ utf8 (hay.drop k)).drop (utf8 (hay.take k)).length := by
          rw [← utf8_append, List.take_append_drop, length_utf8]
      _ = utf8 (hay.drop k) := List.drop_left
  exact ⟨by omega, hdrop ▸ utf8_prefix_iff.mpr h.2⟩

theorem bytes_take_le {j : Nat} (h : j ≤ k) : bytes (hay.take j) ≤ bytes (hay.take k) := by
  obtain ⟨rest, hrest⟩ := List.take_prefix_take_left h (l := hay)
  rw [← hrest, bytes_append]
  exact Nat.le_add_right _ _

/-- The first place among the bytes is the one that the first place among the characters has there. -/
theorem isLeast_byteOccurrences (h : IsLeast (occurrences needle hay) k) :
    IsLeast (byteOccurrences needle hay) (bytes (hay.take k)) := by
  refine ⟨bytes_take_mem_byteOccurrences h.1, fun b hb => ?_⟩
  cases needle with
  | nil =>
      have hk : k ≤ 0 := h.2 (zero_mem_occurrences.mpr List.nil_prefix)
      rw [Nat.le_zero.mp hk]
      exact Nat.zero_le b
  | cons c needle =>
      obtain ⟨j, hj, rfl⟩ := exists_of_utf8_prefix hb.2
      exact bytes_take_le (h.2 hj)

theorem byteOccurrences_eq_empty (h : occurrences needle hay = ∅) : byteOccurrences needle hay = ∅ := by
  refine Set.eq_empty_of_forall_notMem fun b hb => ?_
  have hnone := Set.eq_empty_iff_forall_notMem.mp h
  cases needle with
  | nil => exact hnone 0 (zero_mem_occurrences.mpr List.nil_prefix)
  | cons c needle =>
      obtain ⟨k, hk, -⟩ := exists_of_utf8_prefix hb.2
      exact hnone k hk

end Formula.Text
