import Formula.Arena
import Formula.Proofs.NameResolution
import Formula.Proofs.Rendering
import Mathlib.Data.List.GetD
import Mathlib.Data.List.Induction

/-!
The trees that the ids of an arena stand for. Each node has its tree from those of the nodes before it,
so that nodes which are added later change none. In an arena in which the parts of every node come before
it, an id is shown and compiled as its tree is.
-/

namespace Formula

theorem Expr.allProper_map {ids : List Nat} {of : Nat → Expr} (h : ∀ id ∈ ids, (of id).Proper) :
    AllProper (ids.map of) := by
  induction ids with
  | nil => trivial
  | cons id ids ih =>
      obtain ⟨hid, hids⟩ := List.forall_mem_cons.mp h
      exact ⟨hid, ih hids⟩

namespace Arena

namespace Form

/-- The ids in a form. -/
def children : Form → List Nat
  | literal _ | ident _ => []
  | binary _ left right => [left, right]
  | assign target value => [target, value]
  | ternary cond yes no => [cond, yes, no]
  | member receiver _ => [receiver]
  | call receiver _ _ args => receiver :: args

/-- The tree of a node with this form, given those that the ids in it stand for. -/
def tree (form : Form) (span : Span) (of : Nat → Expr) : Expr :=
  match form with
  | literal value => .literal span value
  | ident name => .ident span name
  | binary op left right => .binary span op (of left) (of right)
  | assign target value => .assign span (of target) (of value)
  | ternary cond yes no => .ternary span (of cond) (of yes) (of no)
  | member receiver name => .member span (of receiver) name
  | call receiver method typeArgs args => .call span (of receiver) method typeArgs (args.map of)

variable {form : Form} {span : Span} {of of' : Nat → Expr}

theorem tree_congr (h : ∀ id ∈ form.children, of id = of' id) : form.tree span of = form.tree span of' := by
  cases form with
  | literal | ident => rfl
  | binary | assign | ternary | member => simp_all [children, tree]
  | call receiver method typeArgs args =>
      obtain ⟨hreceiver, hargs⟩ := List.forall_mem_cons.mp h
      rw [tree, tree, hreceiver, List.map_congr_left hargs]

@[simp]
theorem span_tree : (form.tree span of).span = span := by cases form <;> rfl

@[simp]
theorem isPlace_tree : (form.tree span of).isPlace = form.isPlace := by cases form <;> rfl

end Form

variable {a b c : Arena} {id : Nat} {node : Node}

@[simp]
theorem size_push (a : Arena) (node : Node) : (a.push node).size = a.size + 1 := Array.size_push ..

@[simp]
theorem get?_push_size (a : Arena) (node : Node) : (a.push node).get? a.size = some node :=
  Array.getElem?_push_size

theorem get?_push_of_lt (node : Node) (h : id < a.size) : (a.push node).get? id = a.get? id := by
  have hne : id ≠ a.nodes.size := Nat.ne_of_lt h
  rw [get?, get?, push, Array.getElem?_push, if_neg hne]

theorem lt_size_of_get? (h : a.get? id = some node) : id < a.size :=
  (Array.getElem?_eq_some_iff.mp h).1

theorem exists_get? (h : id < a.size) : ∃ node, a.get? id = some node :=
  ⟨a.nodes[id], Array.getElem?_eq_getElem h⟩

/-- Every arena comes about by pushing nodes one after the other. -/
theorem pushInduction {P : Arena → Prop} (empty : P .empty) (push : ∀ a node, P a → P (a.push node))
    (a : Arena) : P a := by
  obtain ⟨⟨nodes⟩⟩ := a
  induction nodes using List.reverseRecOn with
  | nil => exact empty
  | append_singleton nodes node ih => simpa [Arena.push] using push ⟨⟨nodes⟩⟩ node ih

/-! ### Trees -/

/-- The tree of one more node, behind those of the nodes before it. -/
def Node.addTree (es : List Expr) (node : Node) : List Expr :=
  es ++ [node.form.tree node.span (es.getD · default)]

/-- The trees of the nodes, in order. -/
def trees (a : Arena) : List Expr := a.nodes.toList.foldl Node.addTree []

/-- The tree that the id stands for. -/
def tree (a : Arena) (id : Nat) : Expr := a.trees.getD id default

theorem trees_push (a : Arena) (node : Node) :
    (a.push node).trees = a.trees ++ [node.form.tree node.span a.tree] := by
  rw [trees, push, Array.toList_push, List.foldl_append]
  rfl

theorem length_trees (a : Arena) : a.trees.length = a.size := by
  induction a using pushInduction with
  | empty => rfl
  | push a node ih => rw [trees_push, List.length_append, ih, size_push, List.length_singleton]

theorem tree_push_of_lt (node : Node) (h : id < a.size) : (a.push node).tree id = a.tree id := by
  rw [tree, trees_push, List.getD_append _ _ _ _ (by rwa [length_trees]), tree]

@[simp]
theorem tree_push_size (a : Arena) (node : Node) :
    (a.push node).tree a.size = node.form.tree node.span a.tree := by
  rw [tree, trees_push, List.getD_append_right _ _ _ _ (Nat.le_of_eq (length_trees a)), length_trees,
    Nat.sub_self, List.getD_cons_zero]

/-- The tree of a node, from those of the nodes before it. -/
theorem exists_tree_eq (h : a.get? id = some node) :
    ∃ of, (∀ i < id, of i = a.tree i) ∧ a.tree id = node.form.tree node.span of := by
  induction a using pushInduction with
  | empty => simp [get?, empty] at h
  | push a last ih =>
      have hlt := lt_size_of_get? h
      rw [size_push] at hlt
      rcases Nat.lt_succ_iff_lt_or_eq.mp hlt with hid | rfl
      · rw [get?_push_of_lt last hid] at h
        obtain ⟨of, hof, htree⟩ := ih h
        refine ⟨of, fun i hi => ?_, (tree_push_of_lt last hid).trans htree⟩
        rw [hof i hi, tree_push_of_lt last (Nat.lt_trans hi hid)]
      · rw [get?_push_size] at h
        obtain rfl := Option.some.inj h
        exact ⟨a.tree, fun i hi => (tree_push_of_lt last hi).symm, tree_push_size a last⟩

theorem span_tree (h : a.get? id = some node) : (a.tree id).span = node.span := by
  obtain ⟨of, -, htree⟩ := exists_tree_eq h
  rw [htree, Form.span_tree]

theorem isPlace_tree (h : a.get? id = some node) : (a.tree id).isPlace = node.form.isPlace := by
  obtain ⟨of, -, htree⟩ := exists_tree_eq h
  rw [htree, Form.isPlace_tree]

/-- Nodes have been added. -/
def Extends (b a : Arena) : Prop := a.nodes.toList <+: b.nodes.toList

theorem Extends.refl (a : Arena) : a.Extends a := List.prefix_refl _

theorem Extends.trans (h : b.Extends a) (h' : c.Extends b) : c.Extends a := List.IsPrefix.trans h h'

theorem extends_push (a : Arena) (node : Node) : (a.push node).Extends a := by
  rw [Extends, push, Array.toList_push]
  exact List.prefix_append _ _

theorem Extends.size_le (h : b.Extends a) : a.size ≤ b.size := by
  have hlength := h.length_le
  rwa [Array.length_toList, Array.length_toList] at hlength

theorem Extends.trees_prefix (h : b.Extends a) : a.trees <+: b.trees := by
  obtain ⟨added, hadded⟩ := h
  rw [trees, trees, ← hadded, List.foldl_append]
  clear hadded
  generalize a.nodes.toList.foldl _ _ = es
  induction added generalizing es with
  | nil => exact List.prefix_refl es
  | cons node added ih => exact (List.prefix_append es _).trans (ih (node.addTree es))

theorem Extends.tree_eq (h : b.Extends a) (hid : id < a.size) : b.tree id = a.tree id := by
  obtain ⟨added, hadded⟩ := h.trees_prefix
  rw [tree, tree, ← hadded, List.getD_append _ _ _ _ (by rwa [length_trees])]

/-! ### Arenas in which the parts of a node come before it -/

/-- What may stand in a node with this id. -/
structure Fits (a : Arena) (id : Nat) (form : Form) : Prop where
  children_lt : ∀ child ∈ form.children, child < id
  isBinary : ∀ op left right, form = .binary op left right → op.isBinary = true
  isPlace : ∀ target value, form = .assign target value →
    ∃ node, a.get? target = some node ∧ node.form.isPlace = true

def WellFormed (a : Arena) : Prop := ∀ id node, a.get? id = some node → a.Fits id node.form

theorem Fits.push {form : Form} (h : a.Fits id form) (node : Node) :
    (a.push node).Fits id form where
  children_lt := h.children_lt
  isBinary := h.isBinary
  isPlace target value hform := by
    obtain ⟨place, hplace, hisPlace⟩ := h.isPlace target value hform
    exact ⟨place, (get?_push_of_lt node (lt_size_of_get? hplace)).trans hplace, hisPlace⟩

theorem wellFormed_empty : empty.WellFormed := by
  intro id node h
  simp [get?, empty] at h

theorem WellFormed.push (h : a.WellFormed) (hnode : a.Fits a.size node.form) :
    (a.push node).WellFormed := by
  intro id node' hget
  have hlt := lt_size_of_get? hget
  rw [size_push] at hlt
  rcases Nat.lt_succ_iff_lt_or_eq.mp hlt with hid | rfl
  · rw [get?_push_of_lt node hid] at hget
    exact (h id node' hget).push node
  · rw [get?_push_size] at hget
    obtain rfl := Option.some.inj hget
    exact hnode.push node

theorem mapM_text {depth : Nat} {ids : List Nat}
    (h : ∀ id ∈ ids, a.text depth id = some (a.tree id).text) :
    ids.mapM (a.text depth) = some ((ids.map a.tree).map (·.text)) := by
  induction ids with
  | nil => rfl
  | cons id ids ih =>
      obtain ⟨hid, hids⟩ := List.forall_mem_cons.mp h
      rw [List.mapM_cons, hid, ih hids]
      rfl

section

variable (h : a.WellFormed)

include h

theorem WellFormed.tree_eq (hget : a.get? id = some node) :
    a.tree id = node.form.tree node.span a.tree := by
  obtain ⟨of, hof, htree⟩ := exists_tree_eq hget
  rw [htree]
  exact Form.tree_congr fun child hchild => hof child ((h id node hget).children_lt child hchild)

/-- What passes from the parts of a node to the node is true of every node. -/
@[elab_as_elim]
theorem WellFormed.induction {P : Nat → Prop}
    (step : ∀ id node, a.get? id = some node → (∀ child ∈ node.form.children, P child) → P id)
    (hid : id < a.size) : P id := by
  induction id using Nat.strongRecOn with
  | ind id ih =>
      obtain ⟨node, hget⟩ := exists_get? hid
      refine step id node hget fun child hchild => ?_
      have hlt := (h id node hget).children_lt child hchild
      exact ih child hlt (Nat.lt_trans hlt hid)

/-- Every operation has an operator of two operands, and whatever is assigned to is a place. -/
theorem WellFormed.proper_tree (hid : id < a.size) : (a.tree id).Proper := by
  refine h.induction (fun id node hget ih => ?_) hid
  have hfits := h id node hget
  rw [h.tree_eq hget]
  cases hform : node.form with
  | literal | ident => trivial
  | binary op left right =>
      simp only [hform, Form.children, List.forall_mem_cons] at ih
      exact ⟨hfits.isBinary op left right hform, ih.1, ih.2.1⟩
  | assign target value =>
      simp only [hform, Form.children, List.forall_mem_cons] at ih
      obtain ⟨place, hplace, hisPlace⟩ := hfits.isPlace target value hform
      exact ⟨(isPlace_tree hplace).trans hisPlace, ih.1, ih.2.1⟩
  | ternary =>
      simp only [hform, Form.children, List.forall_mem_cons] at ih
      exact ⟨ih.1, ih.2.1, ih.2.2.1⟩
  | member =>
      simp only [hform, Form.children, List.forall_mem_cons] at ih
      exact ih.1
  | call receiver method typeArgs args =>
      obtain ⟨hreceiver, hargs⟩ := List.forall_mem_cons.mp (hform ▸ ih)
      exact ⟨hreceiver, Expr.allProper_map hargs⟩

/-- No node is nested deeper than its id tells. -/
theorem WellFormed.text_eq (hid : id < a.size) {depth : Nat} (hdepth : id < depth) :
    a.text depth id = some (a.tree id).text := by
  induction depth generalizing id with
  | zero => exact absurd hdepth (Nat.not_lt_zero id)
  | succ depth ih =>
      obtain ⟨node, hget⟩ := exists_get? hid
      have ih : ∀ child ∈ node.form.children, a.text depth child = some (a.tree child).text := by
        intro child hchild
        have hlt := (h id node hget).children_lt child hchild
        exact ih (Nat.lt_trans hlt hid) (Nat.lt_of_lt_of_le hlt (Nat.le_of_lt_succ hdepth))
      rw [text, hget, h.tree_eq hget]
      cases hform : node.form with
      | literal | ident => simp [hform, Form.tree, Expr.text]
      | binary | assign | ternary | member =>
          simp only [hform, Form.children, List.forall_mem_cons] at ih
          simp [hform, Form.tree, Expr.text, ih]
      | call receiver method typeArgs args =>
          obtain ⟨hreceiver, hargs⟩ := List.forall_mem_cons.mp (hform ▸ ih)
          simp [hform, Form.tree, Expr.text, Expr.texts_eq_map, hreceiver, mapM_text hargs]

end

/-! ### Programs -/

namespace Lowering

variable {α β : Type}

/-- The outcome of something that comes to an end. -/
def of (x : Except ParseError α) : Lowering α := some x

theorem of_bind (x : Except ParseError α) (f : α → Except ParseError β) :
    (of x >>= fun y => of (f y)) = of (x >>= f) := by
  cases x <;> rfl

theorem liftM_some_bind (y : α) (f : α → Lowering β) : (liftM (some y) : Lowering α) >>= f = f y := rfl

end Lowering

section

variable {scope : Scope}

theorem mapM_program {depth : Nat} {ids : List Nat}
    (h : ∀ id ∈ ids, a.program scope depth id = .of (Program.ofExpr scope (a.tree id))) :
    ids.mapM (a.program scope depth) = .of (Program.ofArguments scope (ids.map a.tree)) := by
  induction ids with
  | nil =>
      rw [List.map_nil, Program.ofArguments]
      rfl
  | cons id ids ih =>
      obtain ⟨hid, hids⟩ := List.forall_mem_cons.mp h
      rw [List.mapM_cons, hid, ih hids, List.map_cons, Program.ofArguments, ← Lowering.of_bind]
      refine congrArg (_ >>= ·) (funext fun p => ?_)
      exact Lowering.of_bind _ _

variable (h : a.WellFormed)

include h

theorem static?_tree (hget : a.get? id = some node) :
    scope.static? (a.tree id) = (node.static? scope).map (node.span, ·) := by
  rw [h.tree_eq hget, Node.static?]
  cases node.form with
  | ident name =>
      simp only [Form.tree, Scope.static?]
      split <;> rfl
  | literal | binary | assign | ternary | member | call => rfl

variable {depth : Nat}

theorem receiverProgram_eq (hget : a.get? id = some node)
    (hprogram : a.program scope depth id = .of (Program.ofExpr scope (a.tree id))) :
    a.receiverProgram scope (depth + 1) id = .of (Program.ofReceiver scope (a.tree id)) := by
  rw [receiverProgram, Program.ofReceiver, hget, Lowering.liftM_some_bind, static?_tree h hget]
  cases node.static? scope with
  | none => exact hprogram
  | some tag => exact Lowering.of_bind tag _

theorem owner_eq (hget : a.get? id = some node)
    (hprogram : a.program scope depth id = .of (Program.ofExpr scope (a.tree id)))
    (hplace : a.place scope depth id = .of (Place.ofTarget scope (a.tree id))) :
    a.owner scope (depth + 1) id = .of (Place.ofOwner scope (a.tree id)) := by
  rw [owner, Place.ofOwner, hget, Lowering.liftM_some_bind, static?_tree h hget, isPlace_tree hget]
  cases node.static? scope with
  | some tag => exact Lowering.of_bind tag _
  | none =>
      dsimp only [Option.map_none]
      split
      · exact hplace
      · rw [hprogram]
        exact Lowering.of_bind _ _

/-- The parts of a node are compiled as their trees are, with calls nested to the depth. -/
structure PartsCompile (a : Arena) (scope : Scope) (depth : Nat) (form : Form) : Prop where
  program : ∀ id ∈ form.children,
    a.program scope depth id = .of (Program.ofExpr scope (a.tree id))
  receiver : ∀ id ∈ form.children,
    a.receiverProgram scope depth id = .of (Program.ofReceiver scope (a.tree id))
  place : ∀ id ∈ form.children, a.place scope depth id = .of (Place.ofTarget scope (a.tree id))
  owner : ∀ id ∈ form.children, a.owner scope depth id = .of (Place.ofOwner scope (a.tree id))

theorem place_eq (hget : a.get? id = some node) (hparts : a.PartsCompile scope depth node.form) :
    a.place scope (depth + 1) id = .of (Place.ofTarget scope (a.tree id)) := by
  rw [place, hget, Lowering.liftM_some_bind, h.tree_eq hget]
  cases hform : node.form with
  | ident name =>
      rw [Form.tree, Place.ofTarget]
      rfl
  | member receiver name =>
      have howner := hparts.owner receiver (by simp [hform, Form.children])
      simp only [Form.tree, Place.ofTarget, howner, ← Lowering.of_bind]
      rfl
  | literal | binary | assign | ternary | call =>
      simp only [Form.tree, Place.ofTarget]
      rfl

theorem program_eq (hget : a.get? id = some node) (hparts : a.PartsCompile scope depth node.form) :
    a.program scope (depth + 1) id = .of (Program.ofExpr scope (a.tree id)) := by
  obtain ⟨hprogram, hreceiver, hplace, -⟩ := hparts
  rw [program, hget, Lowering.liftM_some_bind, h.tree_eq hget]
  cases hform : node.form with
  | literal value | ident name =>
      rw [Form.tree, Program.ofExpr]
      rfl
  | binary op left right =>
      simp only [hform, Form.children, List.forall_mem_cons] at hprogram
      simp only [Form.tree, Program.ofExpr, hprogram, ← Lowering.of_bind]
      rfl
  | assign target value =>
      simp only [hform, Form.children, List.forall_mem_cons] at hprogram hplace
      simp only [Form.tree, Program.ofExpr, hprogram, hplace, ← Lowering.of_bind]
      rfl
  | ternary cond yes no =>
      simp only [hform, Form.children, List.forall_mem_cons] at hprogram
      simp only [Form.tree, Program.ofExpr, hprogram, ← Lowering.of_bind]
      rfl
  | member receiver name =>
      simp only [hform, Form.children, List.forall_mem_cons] at hreceiver
      simp only [Form.tree, Program.ofExpr, hreceiver, ← Lowering.of_bind]
      rfl
  | call receiver method typeArgs args =>
      rw [hform] at hprogram hreceiver
      have hargs := mapM_program fun id hid => hprogram id (List.mem_cons_of_mem _ hid)
      simp only [Form.tree, Program.ofExpr, hreceiver receiver (List.mem_cons_self ..), hargs,
        ← Lowering.of_bind]
      rfl

/-- From a node to one of its parts there are at most two calls, so that twice the id tells how deep they
are nested. -/
theorem WellFormed.compiles (hid : id < a.size) :
    (2 * id < depth → a.program scope depth id = .of (Program.ofExpr scope (a.tree id)) ∧
      a.place scope depth id = .of (Place.ofTarget scope (a.tree id))) ∧
    (2 * id + 1 < depth →
      a.receiverProgram scope depth id = .of (Program.ofReceiver scope (a.tree id)) ∧
      a.owner scope depth id = .of (Place.ofOwner scope (a.tree id))) := by
  induction depth generalizing id with
  | zero => exact ⟨(absurd · (Nat.not_lt_zero _)), (absurd · (Nat.not_lt_zero _))⟩
  | succ depth ih =>
      obtain ⟨node, hget⟩ := exists_get? hid
      refine ⟨fun hdepth => ?_, fun hdepth => ?_⟩
      · have hpart (child) (hchild : child ∈ node.form.children) :
            child < a.size ∧ 2 * child + 1 < depth := by
          have hlt := (h id node hget).children_lt child hchild
          omega
        have hparts : a.PartsCompile scope depth node.form := by
          refine ⟨fun child hchild => ?_, fun child hchild => ?_, fun child hchild => ?_,
            fun child hchild => ?_⟩
          all_goals
            obtain ⟨hsize, hlt⟩ := hpart child hchild
            obtain ⟨hprograms, howners⟩ := ih hsize
          · exact (hprograms (Nat.lt_of_succ_lt hlt)).1
          · exact (howners hlt).1
          · exact (hprograms (Nat.lt_of_succ_lt hlt)).2
          · exact (howners hlt).2
        exact ⟨program_eq h hget hparts, place_eq h hget hparts⟩
      · obtain ⟨hprogram, hplace⟩ := (ih hid).1 (Nat.lt_of_succ_lt_succ hdepth)
        exact ⟨receiverProgram_eq h hget hprogram, owner_eq h hget hprogram hplace⟩

end

end Arena

end Formula
