import Formula.Proofs.Contract
import Formula.Proofs.Evaluation
import Formula.Proofs.Outcomes
import Formula.Proofs.ParsedTree

/-!
Contracts that evaluation keeps. They are checked for what the host does with the values that reach it
and for reads and writes of variables; all that expressions make of these is then covered.
-/

namespace Formula

variable {H : Host} {ι : Type}

/-- What can stand before a `.`: a sound value, or a type. -/
def Owner (sound : ι → Value → Prop) (i : ι) (v : Value) : Prop := sound i v ∨ v.isTypeRoot = true

structure Discipline (r : Registry H) (ι : Type) [Preorder ι] extends
    Contract ι EvalError (World H) where
  /-- What hosts hand out. -/
  sound : ι → Value → Prop
  /-- The values of expressions. -/
  value : ι → Value → Prop
  /-- What has been read from a variable. -/
  held : ι → String → Value → Prop
  sound_mono {i j v} : i ≤ j → sound i v → sound j v
  value_mono {i j v} : i ≤ j → value i v → value j v
  held_mono {i j name v} : i ≤ j → held i name v → held j name v
  error_of_plain {e} : ¬e.fault.IsInternal → error e
  error_congr {e e'} : e.fault = e'.fault → error e → error e'
  sound_of_value {i v} : value i v → sound i v
  value_of_sound {i v} : sound i v → r.directory.checkAllowed v = .ok () → value i v
  value_of_scalar {i v} : v.IsScalar → value i v
  value_of_declares {i name e} : r.directory.Declares name e → value i (.enum e)
  load i name : toContract.Keeps i (Eval.load r name) fun j v => value j v ∧ held j name v
  update {i v} name : value i v → toContract.Keeps i (Eval.updateVariable r name v) value
  store {i name v} : held i name v → r.directory.holdsValueType v = true →
    toContract.Keeps i (do let _ ← Eval.lookup name; Eval.store name v : Eval H Unit) fun _ _ => True
  getter {i o name t m get} : Owner sound i o → Eval.findMember r o name = .ok (t, m) →
    m.getter? = some get → toContract.Keeps i (liftM (get o) : Eval H Value) sound
  setter {i o name t m set v} : Owner sound i o → Eval.findMember r o name = .ok (t, m) →
    m.setter? = some set → value i v →
    toContract.Keeps i (liftM (set o v) : Eval H Unit) fun _ _ => True
  body {i o t name fs f args typeArgs ws} : Owner sound i o → r.typeOf o = .ok t →
    (if o.isTypeRoot then t.staticMethods? name else t.methods? name) = some fs → f ∈ fs →
    f.Fits r.directory args typeArgs ws → (∀ w ∈ ws, value i w) →
    toContract.Keeps i (liftM (f.body ⟨o, ws, typeArgs, r.directory⟩) : Eval H Value)
      fun j v => sound j (if f.isVoid then o else v)

namespace Discipline

open Contract

variable [Preorder ι] {r : Registry H} (D : Discipline r ι) {i : ι}

def owner (i : ι) (v : Value) : Prop := Owner D.sound i v

theorem owner_mono {j : ι} {v : Value} (hij : i ≤ j) (h : D.owner i v) : D.owner j v :=
  h.imp_left (D.sound_mono hij)

theorem owner_of_value {v : Value} (h : D.value i v) : D.owner i v := .inl (D.sound_of_value h)

/-- Faults that are not internal are always allowed. -/
theorem keeps_of_yields {α : Type} {x : Except Fault α} {P : α → Prop} {Q : ι → α → Prop}
    (hx : Yields x P) (hQ : ∀ a, x = .ok a → P a → ∀ j, i ≤ j → Q j a) :
    D.Keeps i (liftM x : Eval H α) Q := by
  refine .ofExcept (fun a ha j hij => hQ a ha (hx.of_ok ha) j hij) fun f hf => ?_
  subst hf
  exact D.error_of_plain hx

theorem fail_keeps {α : Type} {f : Fault} (h : f.code ≠ .malformedProgram) {Q : ι → α → Prop} :
    D.Keeps i (Eval.fail f : Eval H α) Q := .throw (D.error_of_plain h)

/-- A discipline looks at the fault of an error, never at its place. -/
theorem located_keeps {α : Type} {x : Eval H α} {Q : ι → α → Prop} (span : Span)
    (h : D.Keeps i x Q) : D.Keeps i (x.located span) Q :=
  h.located (fun _ _ => D.error_congr rfl) span

theorem typeOf_yields (v : Value) : Yields (r.typeOf v) fun _ => True := by
  rw [Registry.typeOf]
  split
  · trivial
  · exact .error (by simp [Fault.code])

theorem findMember_yields (o : Value) (name : String) :
    Yields (Eval.findMember r o name) fun _ => True := by
  refine (typeOf_yields o).bind fun t _ => ?_
  split
  · trivial
  · exact .error (by simp [Fault.code])

theorem checkAllowed_keeps (v : Value) :
    D.Keeps i (liftM (r.directory.checkAllowed v) : Eval H Unit)
      fun _ _ => r.directory.checkAllowed v = .ok () :=
  D.keeps_of_yields (r.directory.checkAllowed_yields v) fun _ ha _ _ _ => ha

theorem checkReceiver_keeps (o : Value) (name : String) :
    D.Keeps i (Eval.checkReceiver o name : Eval H Unit) fun _ _ => True := by
  rw [Eval.checkReceiver]
  split
  · exact D.fail_keeps (by simp [Fault.code])
  · exact .pure fun _ _ => trivial

theorem choose_keeps {v : Value} {yes no : Eval H Value} {Q : ι → Value → Prop}
    (hyes : D.Keeps i yes Q) (hno : D.Keeps i no Q) : D.Keeps i (Eval.choose v yes no) Q := by
  rw [Eval.choose.eq_def]
  split
  · exact hyes
  · exact hno
  · exact D.fail_keeps (by simp [Fault.code])

theorem get_keeps {o : Value} {name : String} {t : HostType H} {m : Member H}
    (ho : D.owner i o) (hm : Eval.findMember r o name = .ok (t, m)) (owner : String) :
    D.Keeps i (liftM (m.get o owner) : Eval H Value) D.sound := by
  rw [Member.get.eq_def]
  split
  · next get hg => exact D.getter ho hm hg
  · exact D.fail_keeps (by simp [Fault.code])

theorem set_keeps {o v : Value} {name : String} {t : HostType H} {m : Member H}
    (ho : D.owner i o) (hm : Eval.findMember r o name = .ok (t, m)) (hv : D.value i v)
    (owner : String) : D.Keeps i (liftM (m.set o v owner) : Eval H Unit) fun _ _ => True := by
  rw [Member.set.eq_def]
  split
  · next set hs => exact D.setter ho hm hs hv
  · exact D.fail_keeps (by simp [Fault.code])

theorem findMember_keeps (o : Value) (name : String) :
    D.Keeps i (liftM (Eval.findMember r o name) : Eval H (HostType H × Member H))
      fun _ (t, m) => Eval.findMember r o name = .ok (t, m) :=
  D.keeps_of_yields (findMember_yields o name) fun _ h _ _ _ => h

theorem readMember_keeps {o : Value} (name : String) (ho : D.owner i o) :
    D.Keeps i (Eval.readMember r o name) D.sound :=
  (D.findMember_keeps o name).bind fun _ _ hij hm => D.get_keeps (D.owner_mono hij ho) hm _

theorem writeMember_keeps {o v : Value} (name : String) (ho : D.owner i o) (hv : D.value i v) :
    D.Keeps i (Eval.writeMember r o name v) fun _ _ => True :=
  (D.findMember_keeps o name).bind fun _ _ hij hm =>
    D.set_keeps (D.owner_mono hij ho) hm (D.value_mono hij hv) _

theorem convert_keeps {v : Value} (m : Memory H) (target : TypeTag) (hv : D.value i v) :
    D.Keeps i (liftM (v.convert r.directory m target) : Eval H Value) D.value := by
  refine D.keeps_of_yields (Value.convert_yields r.directory m v target) fun w _ hw j hij => ?_
  rcases hw with ⟨rfl, -⟩ | ⟨hw, -⟩ | ⟨name, e, -, rfl, he⟩
  · exact D.value_mono hij hv
  · exact D.value_of_scalar hw
  · exact D.value_of_declares he

theorem updateMember_keeps {o v : Value} (name : String) (ho : D.owner i o) (hv : D.value i v) :
    D.Keeps i (Eval.updateMember r o name v) D.value := by
  refine (D.findMember_keeps o name).bind fun j (t, m) hij hm => ?_
  have hoj := D.owner_mono hij ho
  have hvj := D.value_mono hij hv
  dsimp only at hm ⊢
  split
  · exact (D.fail_keeps (Q := fun _ _ => False) (by simp [Fault.code])).bind fun _ _ _ h => h.elim
  · have store (k : ι) (hjk : j ≤ k) (w : Value) (hw : D.value k w) :
        D.Keeps k (do
          r.directory.checkAllowed w
          m.set o w t.tag.name
          return w : Eval H Value) D.value := by
      refine (D.checkAllowed_keeps w).bind fun l _ hkl _ => ?_
      refine (D.set_keeps (D.owner_mono (hjk.trans hkl) hoj) hm (D.value_mono hkl hw) _).bind
        fun l' _ hl _ => ?_
      exact .pure fun _ hl' => D.value_mono (hkl.trans (hl.trans hl')) hw
    split
    · refine (D.get_keeps hoj hm _).bind fun k current hjk _ => ?_
      refine Keeps.get.bind fun l w hkl _ => ?_
      exact (D.convert_keeps w.memory current.typeTag (D.value_mono (hjk.trans hkl) hvj)).bind
        fun l' w' hl hw' => store l' (hjk.trans (hkl.trans hl)) w' hw'
    · exact store j le_rfl v hvj

theorem access_keeps {o : Value} (name : String) (ho : D.owner i o) :
    D.Keeps i (Eval.access r o name) D.value := by
  refine (D.checkReceiver_keeps o name).bind fun j _ hij _ => ?_
  refine (D.readMember_keeps name (D.owner_mono hij ho)).bind fun k v _ hv => ?_
  refine (D.checkAllowed_keeps v).bind fun l _ hkl hallowed => ?_
  exact .pure fun _ hl => D.value_mono (hkl.trans hl) (D.value_of_sound hv hallowed)

theorem invoke_keeps {o : Value} (name : String) (typeArgs : List TypeTag) {args : List Value}
    (ho : D.owner i o) (hargs : ∀ v ∈ args, D.value i v) :
    D.Keeps i (Eval.invoke r o name typeArgs args) D.value := by
  refine (D.keeps_of_yields (typeOf_yields o) fun _ ht _ _ _ => ht).bind fun j t hij ht => ?_
  refine (D.keeps_of_yields (Method.select_yields ..) fun _ _ hf _ _ => hf).bind
    fun k (f, ws) hjk hf => ?_
  obtain ⟨⟨fs, hfs, hmem⟩, hfits⟩ := hf
  have hik := hij.trans hjk
  have hws : ∀ w ∈ ws, D.value k w := by
    intro w hw
    rcases hfits.2.mem hw with hw | ⟨name, e, rfl, he⟩
    · exact D.value_mono hik (hargs w hw)
    · exact D.value_of_declares he
  refine (D.body (D.owner_mono hik ho) ht hfs hmem hfits hws).bind fun l v _ hv => ?_
  refine (D.checkAllowed_keeps _).bind fun l' _ hl hallowed => ?_
  exact .pure fun _ hl' => D.value_mono (hl.trans hl') (D.value_of_sound hv hallowed)

/-- An operator stands between two operands, or else the fault of it is allowed. -/
def Applies (op : Operator) : Prop := op.isBinary = true ∨ D.error (.of (Value.notBinary op))

theorem binary_keeps {op : Operator} (m : Memory H) (left right : Value) (h : D.Applies op) :
    D.Keeps i (liftM (left.binary m op right) : Eval H Value) D.value := by
  rcases Value.binary_yields m op left right with hy | ⟨hop, herr⟩
  · exact D.keeps_of_yields hy fun _ _ hv _ _ => D.value_of_scalar hv
  · rw [herr]
    exact .throw (h.resolve_left (by simp [hop]))

/-- What is known of the owner of a member that is written to. -/
def Gives (scope : Scope) (e : Expr) (i : ι) (v : Value) : Prop :=
  D.owner i v ∧ ∀ span name, e = .ident span name → scope.typeRoot? e = none → D.held i name v

/-- An object of a value type is one of a registered type. -/
theorem value_of_holdsValueType {v : Value} (ho : D.owner i v)
    (hv : r.directory.holdsValueType v = true) : D.value i v := by
  cases v with
  | object o =>
      refine D.value_of_sound (ho.resolve_right (by simp [Value.isTypeRoot])) ?_
      simp only [Directory.holdsValueType] at hv
      cases hf : r.directory.find? o.typeName with
      | none => simp [hf] at hv
      | some info => simp [Directory.checkAllowed, Directory.isRegistered, hf]
  | null | bool | int | float | string | enum | typeRoot => simp [Directory.holdsValueType] at hv

section

variable (scope : Scope)

-- The recursion is the evaluator's: on the expression, with `evalOwner` and `evalReceiver` one step
-- above `eval` on the same one.
mutual

/-- Evaluation keeps to a discipline, whatever the expression. -/
theorem eval_keeps (e : Expr) (i : ι) (h : ∀ op ∈ e.operators, D.Applies op) :
    D.Keeps i (e.eval r scope) D.value := by
  cases e with
  | literal span value =>
      rw [Expr.eval]
      exact .pure fun _ _ => D.value_of_scalar (by cases value <;> trivial)
  | ident span name =>
      rw [Expr.eval]
      exact D.located_keeps span ((D.load i name).imp fun _ _ _ hv => hv.1)
  | binary span op left right =>
      simp only [Expr.operators, List.mem_cons, List.mem_append] at h
      rw [Expr.eval]
      refine (eval_keeps left i fun o ho => h o (.inr (.inl ho))).bind fun j a _ _ => ?_
      refine (eval_keeps right j fun o ho => h o (.inr (.inr ho))).bind fun k b _ _ => ?_
      refine D.located_keeps span (Keeps.get.bind fun l w _ _ => ?_)
      exact D.binary_keeps w.memory a b (h op (.inl rfl))
  | assign span target value =>
      simp only [Expr.operators, List.mem_append] at h
      rw [Expr.eval]
      apply D.located_keeps span
      refine (eval_keeps value i fun o ho => h o (.inr ho)).bind fun j v _ hv => ?_
      exact assignTo_keeps target j (fun o ho => h o (.inl ho)) hv
  | ternary span cond yes no =>
      simp only [Expr.operators, List.mem_append] at h
      rw [Expr.eval]
      apply D.located_keeps span
      refine (eval_keeps cond i fun o ho => h o (.inl ho)).bind fun j c _ _ => ?_
      exact D.choose_keeps (eval_keeps yes j fun o ho => h o (.inr (.inl ho)))
        (eval_keeps no j fun o ho => h o (.inr (.inr ho)))
  | member span receiver name =>
      simp only [Expr.operators] at h
      rw [Expr.eval]
      refine (evalReceiver_keeps receiver i h).bind fun j o _ ho => ?_
      exact D.located_keeps span (D.access_keeps name ho)
  | call span receiver method typeArgs args =>
      simp only [Expr.operators, List.mem_append] at h
      rw [Expr.eval]
      refine (evalReceiver_keeps receiver i fun o ho => h o (.inl ho)).bind fun j o _ ho => ?_
      apply D.located_keeps span
      refine (D.checkReceiver_keeps o method).bind fun k _ hjk _ => ?_
      refine (D.keeps_of_yields (typeOf_yields o) fun _ _ _ _ _ => trivial).bind
        fun l t hkl (_ : True) => ?_
      refine (evalArgs_keeps args l fun o ho => h o (.inr ho)).bind fun l' vs hl hvs => ?_
      exact D.invoke_keeps method _ (D.owner_mono (hjk.trans (hkl.trans hl)) ho) hvs
termination_by (sizeOf e, 0)

theorem evalReceiver_keeps (e : Expr) (i : ι) (h : ∀ op ∈ e.operators, D.Applies op) :
    D.Keeps i (e.evalReceiver r scope) D.owner := by
  rw [Expr.evalReceiver]
  split
  · exact .pure fun _ _ => .inr rfl
  · exact (eval_keeps e i h).imp fun _ _ _ => D.owner_of_value
termination_by (sizeOf e, 1)

theorem evalArgs_keeps (es : List Expr) (i : ι) (h : ∀ op ∈ Expr.allOperators es, D.Applies op) :
    D.Keeps i (Expr.evalArgs r scope es) fun j vs => ∀ v ∈ vs, D.value j v := by
  cases es with
  | nil =>
      rw [Expr.evalArgs]
      exact .pure fun _ _ v hv => by simp at hv
  | cons e es =>
      simp only [Expr.allOperators, List.mem_append] at h
      rw [Expr.evalArgs]
      refine (eval_keeps e i fun o ho => h o (.inl ho)).bind fun j v _ hv => ?_
      refine (D.checkAllowed_keeps v).bind fun k _ hjk _ => ?_
      refine (evalArgs_keeps es k fun o ho => h o (.inr ho)).bind fun l vs hkl hvs => ?_
      refine .pure fun l' hl => List.forall_mem_cons.mpr ⟨?_, fun w hw => ?_⟩
      · exact D.value_mono (hjk.trans (hkl.trans hl)) hv
      · exact D.value_mono hl (hvs w hw)
termination_by (sizeOf es, 0)

theorem evalOwner_keeps (e : Expr) (i : ι) (h : ∀ op ∈ e.operators, D.Applies op) :
    D.Keeps i (e.evalOwner r scope) (D.Gives scope e) := by
  cases ht : scope.typeRoot? e with
  | some tag =>
      rw [Expr.evalOwner_of_typeRoot r ht]
      exact .pure fun _ _ => ⟨.inr rfl, fun _ _ _ hn => by simp [ht] at hn⟩
  | none =>
      have computed (hp : e.isPlace = false) : D.Keeps i (e.evalOwner r scope) (D.Gives scope e) := by
        rw [Expr.evalOwner_of_not_place r hp]
        refine (eval_keeps e i h).imp fun _ _ _ hv => ⟨D.owner_of_value hv, fun _ _ he => ?_⟩
        simp [he, Expr.isPlace] at hp
      cases e with
      | ident span name =>
          rw [Expr.evalOwner, ht]
          refine (D.load i name).imp fun j v _ hv => ⟨D.owner_of_value hv.1, ?_⟩
          rintro _ _ ⟨⟩ -
          exact hv.2
      | member span owner name =>
          simp only [Expr.operators] at h
          rw [Expr.evalOwner, ht]
          refine (evalOwner_keeps owner i h).bind fun j o _ ho => ?_
          refine (D.readMember_keeps name ho.1).imp fun k v _ hv => ⟨.inl hv, ?_⟩
          rintro _ _ ⟨⟩
      | literal | binary | assign | ternary | call => exact computed rfl
termination_by (sizeOf e, 1)

theorem giveBack_keeps (e : Expr) (i : ι) (h : ∀ op ∈ e.operators, D.Applies op) {v : Value}
    (hv : D.Gives scope e i v) : D.Keeps i (e.giveBack r scope v) fun _ _ => True := by
  cases e with
  | ident span name =>
      rw [Expr.giveBack]
      split
      · next hc =>
        rw [Bool.and_eq_true, Option.isNone_iff_eq_none] at hc
        exact D.store (hv.2 span name rfl hc.1) hc.2
      · exact .pure fun _ _ => trivial
  | member span owner name =>
      simp only [Expr.operators] at h
      rw [Expr.giveBack]
      split
      · next hc =>
        rw [Bool.and_eq_true] at hc
        refine (evalOwner_keeps owner i h).bind fun j o hij ho => ?_
        have hvj := D.value_mono hij (D.value_of_holdsValueType hv.1 hc.2)
        refine (D.writeMember_keeps name ho.1 hvj).bind fun k _ hjk _ => ?_
        refine giveBack_keeps owner k h ⟨D.owner_mono hjk ho.1, fun span name he ht => ?_⟩
        exact D.held_mono hjk (ho.2 span name he ht)
      · exact .pure fun _ _ => trivial
  | literal | binary | assign | ternary | call =>
      rw [Expr.giveBack_of_not_place r rfl]
      exact .pure fun _ _ => trivial
termination_by (sizeOf e, 0)

theorem assignTo_keeps (e : Expr) (i : ι) (h : ∀ op ∈ e.operators, D.Applies op) {v : Value}
    (hv : D.value i v) : D.Keeps i (e.assignTo r scope v) D.value := by
  cases e with
  | ident span name =>
      rw [Expr.assignTo]
      exact D.update name hv
  | member span owner name =>
      simp only [Expr.operators] at h
      rw [Expr.assignTo]
      apply D.located_keeps span
      refine (evalOwner_keeps owner i h).bind fun j o hij ho => ?_
      refine (D.updateMember_keeps name ho.1 (D.value_mono hij hv)).bind fun k new hjk hnew => ?_
      have hok : D.Gives scope owner k o :=
        ⟨D.owner_mono hjk ho.1, fun span name he ht => D.held_mono hjk (ho.2 span name he ht)⟩
      refine (giveBack_keeps owner k h hok).bind fun l _ hkl _ => ?_
      exact .pure fun _ hl => D.value_mono (hkl.trans hl) hnew
  | literal | binary | assign | ternary | call =>
      rw [Expr.assignTo]
      · exact .pure fun _ hj => D.value_mono hj hv
      all_goals simp
termination_by (sizeOf e, 0)

end

end

end Discipline

end Formula
