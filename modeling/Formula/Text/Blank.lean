/-!
Blank characters and texts without blank ends.
-/

namespace Formula.Text

def isBlank (c : Char) : Bool :=
  let n := c.toNat
  (9 ≤ n && n ≤ 13) || n == 0x20 || n == 0x85 || n == 0xA0 || n == 0x1680 ||
    (0x2000 ≤ n && n ≤ 0x200A) || n == 0x2028 || n == 0x2029 || n == 0x202F || n == 0x205F ||
    n == 0x3000

def trimLeft (cs : List Char) : List Char := cs.dropWhile isBlank

def trimRight (cs : List Char) : List Char := (cs.reverse.dropWhile isBlank).reverse

def trim (cs : List Char) : List Char := trimRight (trimLeft cs)

def trimmed (s : String) : String := String.ofList (trim s.toList)

theorem trimRight_nil : trimRight [] = [] := rfl

theorem trimRight_append_trimmed (cs : List Char) :
    ∃ blanks, cs = trimRight cs ++ blanks ∧ ∀ c ∈ blanks, isBlank c := by
  refine ⟨(cs.reverse.takeWhile isBlank).reverse, ?_, ?_⟩
  · rw [trimRight, ← List.reverse_append, List.takeWhile_append_dropWhile, List.reverse_reverse]
  · intro c hc
    rw [List.mem_reverse] at hc
    exact List.all_eq_true.mp List.all_takeWhile c hc

theorem length_trim_le (cs : List Char) : (trim cs).length ≤ cs.length := by
  have hr : (trim cs).length ≤ (trimLeft cs).length := by
    simpa [trim, trimRight] using (List.dropWhile_suffix (l := (trimLeft cs).reverse) isBlank).length_le
  have hl : (trimLeft cs).length ≤ cs.length := (List.dropWhile_suffix isBlank).length_le
  exact Nat.le_trans hr hl

end Formula.Text
