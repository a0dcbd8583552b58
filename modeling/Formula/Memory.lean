import Formula.Value

/-!
The objects that handles hold. An object contains a list, or something that belongs to the host.
-/

namespace Formula

/-- What a host brings along. -/
structure Host where
  /-- The contents of its objects. -/
  Object : Type
  /-- What its static members read and write. -/
  State : Type

inductive Content (H : Host) where
  | list (items : List Value)
  | host (object : H.Object)

structure Memory (H : Host) where
  cells : Array (Content H)
  state : H.State

namespace Memory

variable {H : Host}

def empty (state : H.State) : Memory H := ⟨#[], state⟩

def get? (m : Memory H) (o : ObjectRef) : Option (Content H) := m.cells[o.id]?

def set (m : Memory H) (o : ObjectRef) (c : Content H) : Memory H :=
  { m with cells := m.cells.setIfInBounds o.id c }

def alloc (m : Memory H) (typeName : String) (c : Content H) : ObjectRef × Memory H :=
  (⟨m.cells.size, typeName⟩, { m with cells := m.cells.push c })

def items? (m : Memory H) (o : ObjectRef) : Option (List Value) :=
  match m.get? o with
  | some (.list items) => some items
  | _ => none

theorem get?_alloc (m : Memory H) (typeName : String) (c : Content H) :
    (m.alloc typeName c).2.get? (m.alloc typeName c).1 = some c := by
  simp [alloc, get?]

theorem get?_alloc_of_ne {m : Memory H} {typeName : String} {c : Content H} {o : ObjectRef}
    (h : o.id ≠ m.cells.size) : (m.alloc typeName c).2.get? o = m.get? o := by
  simp [alloc, get?, Array.getElem?_push, h]

theorem get?_set {m : Memory H} {o : ObjectRef} {c : Content H} (h : o.id < m.cells.size) :
    (m.set o c).get? o = some c := by
  simp [set, get?, h]

theorem get?_set_of_ne {m : Memory H} {o p : ObjectRef} {c : Content H} (h : o.id ≠ p.id) :
    (m.set o c).get? p = m.get? p := by
  simp [set, get?, h]

theorem lt_size_of_items? {m : Memory H} {o : ObjectRef} {items : List Value}
    (h : m.items? o = some items) : o.id < m.cells.size := by
  rcases Nat.lt_or_ge o.id m.cells.size with hlt | hge
  · exact hlt
  · simp [items?, get?, Array.getElem?_eq_none hge] at h

/-- How many objects are not among those being shown. -/
def unshown (m : Memory H) (within : List Nat) : Nat :=
  (List.range m.cells.size).countP (· ∉ within)

theorem countP_lt_countP {α : Type} {p q : α → Bool} {l : List α} {a : α} (ha : a ∈ l)
    (hpq : ∀ x, p x → q x) (hq : q a) (hp : ¬p a) : l.countP p < l.countP q := by
  induction l with
  | nil => simp at ha
  | cons b l ih =>
    have hle : l.countP p ≤ l.countP q := List.countP_mono_left fun x _ => hpq x
    rcases List.mem_cons.mp ha with rfl | hmem
    · simp only [List.countP_cons, hq, hp]
      simp only [if_true, Bool.false_eq_true, if_false]
      omega
    · have := ih hmem
      simp only [List.countP_cons]
      have : (if p b then 1 else 0) ≤ if q b then 1 else 0 := by
        by_cases hb : p b
        · simp [hb, hpq b hb]
        · simp [hb]
      omega

theorem unshown_lt {m : Memory H} {within : List Nat} {o : ObjectRef} {items : List Value}
    (h : m.items? o = some items) (hn : o.id ∉ within) :
    m.unshown (o.id :: within) < m.unshown within := by
  refine countP_lt_countP (List.mem_range.mpr (lt_size_of_items? h)) ?_ (by simpa using hn) (by simp)
  intro x hx
  simp only [List.mem_cons, not_or, decide_eq_true_eq] at hx
  simpa using hx.2

mutual

/-- The text of an object that stands inside the lists `within`: a list shows its items, unless it is
one of those, and any other object shows its type. -/
def objectText (m : Memory H) (within : List Nat) (o : ObjectRef) : String :=
  if _hn : o.id ∈ within then "[...]"
  else
    match _hi : m.items? o with
    | none => o.typeName
    | some items => "[" ++ ", ".intercalate (itemTexts m (o.id :: within) items) ++ "]"
termination_by (m.unshown within, 0)
decreasing_by exact Prod.Lex.left _ _ (unshown_lt _hi _hn)

def itemTexts (m : Memory H) (within : List Nat) (vs : List Value) : List String :=
  match vs with
  | [] => []
  | .object o :: vs => objectText m within o :: itemTexts m within vs
  | v :: vs => v.plainText :: itemTexts m within vs
termination_by (m.unshown within, vs.length)
decreasing_by
  · exact Prod.Lex.right _ (by simp)
  · exact Prod.Lex.right _ (by simp)
  · exact Prod.Lex.right _ (by simp)

end

def text (m : Memory H) : Value → String
  | .object o => m.objectText [] o
  | v => v.plainText

/-- What messages call a value: a string in quotes, or its text with its type. -/
def describe (m : Memory H) : Value → String
  | .string s => "\"" ++ s ++ "\""
  | v => m.text v ++ " (" ++ v.typeName ++ ")"

end Memory

end Formula
