/-!
Texts divided at separators.
-/

namespace Formula.Text

/-- What stands before, between and after the separators. -/
def fields (sep : Char) : List Char → List (List Char)
  | [] => [[]]
  | c :: cs =>
    if c = sep then [] :: fields sep cs
    else
      match fields sep cs with
      | [] => [[c]]
      | f :: fs => (c :: f) :: fs

def splitFirst? (sep : Char) : List Char → Option (List Char × List Char)
  | [] => none
  | c :: cs =>
    if c = sep then some ([], cs) else (splitFirst? sep cs).map fun (a, b) => (c :: a, b)

/-- The text between two characters that enclose it. -/
def enclosed? (first last : Char) : List Char → Option (List Char)
  | [] => none
  | c :: cs => if c = first ∧ cs.getLast? = some last then some cs.dropLast else none

theorem length_le_of_mem_fields {sep : Char} {cs f : List Char} (h : f ∈ fields sep cs) :
    f.length ≤ cs.length := by
  induction cs generalizing f with
  | nil => simp_all [fields]
  | cons c cs ih =>
    simp only [fields] at h
    split at h
    · rcases List.mem_cons.mp h with rfl | h
      · simp
      · exact Nat.le_succ_of_le (ih h)
    · split at h
      · simp_all
      · next g gs hg =>
        rcases List.mem_cons.mp h with rfl | h
        · exact Nat.succ_le_succ (ih (hg ▸ List.mem_cons_self ..))
        · exact Nat.le_succ_of_le (ih (hg ▸ List.mem_cons_of_mem _ h))

theorem splitFirst?_append {sep : Char} {a : List Char} (h : sep ∉ a) (b : List Char) :
    splitFirst? sep (a ++ sep :: b) = some (a, b) := by
  induction a with
  | nil => simp [splitFirst?]
  | cons c cs ih =>
    simp only [List.mem_cons, not_or] at h
    simp [splitFirst?, Ne.symm h.1, ih h.2]

theorem length_lt_of_enclosed? {first last : Char} {cs inner : List Char}
    (h : enclosed? first last cs = some inner) : inner.length < cs.length := by
  cases cs with
  | nil => simp [enclosed?] at h
  | cons c cs =>
    simp only [enclosed?] at h
    split at h
    · cases h
      simp only [List.length_dropLast, List.length_cons]
      omega
    · cases h

end Formula.Text
