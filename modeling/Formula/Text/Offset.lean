/-!
Offsets into a text count the bytes of its UTF-8 form, so they fall between characters or inside one.
-/

namespace Formula.Text

def bytes : List Char → Nat
  | [] => 0
  | c :: cs => c.utf8Size + bytes cs

@[simp] theorem bytes_nil : bytes [] = 0 := rfl

@[simp] theorem bytes_cons (c : Char) (cs : List Char) : bytes (c :: cs) = c.utf8Size + bytes cs := rfl

@[simp] theorem bytes_append (a b : List Char) : bytes (a ++ b) = bytes a + bytes b := by
  induction a with
  | nil => simp
  | cons c cs ih => simp [ih, Nat.add_assoc]

/-- The text from offset `n` on, if that falls between characters. -/
def dropBytes? : Nat → List Char → Option (List Char)
  | 0, cs => some cs
  | _ + 1, [] => none
  | n + 1, c :: cs => if c.utf8Size ≤ n + 1 then dropBytes? (n + 1 - c.utf8Size) cs else none

/-- The text before offset `n`, if that falls between characters. -/
def takeBytes? : Nat → List Char → Option (List Char)
  | 0, _ => some []
  | _ + 1, [] => none
  | n + 1, c :: cs =>
    if c.utf8Size ≤ n + 1 then (takeBytes? (n + 1 - c.utf8Size) cs).map (c :: ·) else none

/-- The text between two offsets, if both fall between characters and stand in this order. -/
def slice? (cs : List Char) (start stop : Nat) : Option (List Char) :=
  if start ≤ stop then (dropBytes? start cs).bind (takeBytes? (stop - start)) else none

theorem takeBytes?_append (a b : List Char) : takeBytes? (bytes a) (a ++ b) = some a := by
  induction a with
  | nil => simp [takeBytes?]
  | cons c cs ih =>
    obtain ⟨k, hk⟩ : ∃ k, c.utf8Size + bytes cs = k + 1 :=
      ⟨c.utf8Size + bytes cs - 1, by have := c.utf8Size_pos; omega⟩
    have hsub : k + 1 - c.utf8Size = bytes cs := by omega
    rw [bytes_cons, List.cons_append, hk, takeBytes?, if_pos (by omega), hsub, ih]
    rfl

theorem dropBytes?_append (a b : List Char) : dropBytes? (bytes a) (a ++ b) = some b := by
  induction a with
  | nil => simp [dropBytes?]
  | cons c cs ih =>
    obtain ⟨k, hk⟩ : ∃ k, c.utf8Size + bytes cs = k + 1 :=
      ⟨c.utf8Size + bytes cs - 1, by have := c.utf8Size_pos; omega⟩
    have hsub : k + 1 - c.utf8Size = bytes cs := by omega
    rw [bytes_cons, List.cons_append, hk, dropBytes?, if_pos (by omega), hsub, ih]

/-- What stands between two cuts of a text is the slice between their offsets. -/
theorem slice?_middle (a b c : List Char) :
    slice? (a ++ b ++ c) (bytes a) (bytes a + bytes b) = some b := by
  rw [slice?, if_pos (by omega), List.append_assoc, dropBytes?_append, Option.bind_some,
    Nat.add_sub_cancel_left, takeBytes?_append]

end Formula.Text
