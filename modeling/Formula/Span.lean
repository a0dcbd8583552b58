import Formula.Text.Offset

/-!
Stretches of the source text, by the byte offsets of their ends.
-/

namespace Formula

structure Span where
  start : Nat
  stop : Nat
deriving DecidableEq, Repr, Inhabited

namespace Span

def point (offset : Nat) : Span := ⟨offset, offset⟩

def length (s : Span) : Nat := s.stop - s.start

def isEmpty (s : Span) : Bool := s.start == s.stop

def merge (s t : Span) : Span := ⟨min s.start t.start, max s.stop t.stop⟩

def shift (n : Nat) (s : Span) : Span := ⟨s.start + n, s.stop + n⟩

/-- The text a span covers, empty when it does not lie between characters of the source. -/
def slice (s : Span) (source : String) : String :=
  match Text.slice? source.toList s.start s.stop with
  | some cs => String.ofList cs
  | none => ""

def text (s : Span) : String := toString s.start ++ ".." ++ toString s.stop

theorem merge_comm (s t : Span) : s.merge t = t.merge s := by
  simp [merge, Nat.min_comm, Nat.max_comm]

theorem merge_assoc (s t u : Span) : (s.merge t).merge u = s.merge (t.merge u) := by
  simp [merge, Nat.min_assoc, Nat.max_assoc]

theorem shift_merge (n : Nat) (s t : Span) : (s.merge t).shift n = (s.shift n).merge (t.shift n) := by
  simp only [merge, shift, Span.mk.injEq]
  omega

end Span

end Formula
