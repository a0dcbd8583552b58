import Formula.Cli.Args
import Formula.Proofs.Outcomes
import Mathlib

/-!
Options may stand anywhere in a command line: an invocation depends on the order of the positional
arguments and on that of the options, and not on how the two are mixed.
-/

namespace Formula.Cli.Invocation

/-- An option with the value that it takes, whatever the value looks like. -/
inductive OptionGroup where
  | noCache
  | uid (value : String)
  | maxHops (value : String)

namespace OptionGroup

def args : OptionGroup → List String
  | noCache => ["--no-cache"]
  | uid value => ["--uid", value]
  | maxHops value => ["--max-hops", value]

def apply (g : OptionGroup) (p : Draft) : Except UsageError Draft :=
  match g with
  | noCache => .ok { p with config := { p.config with isCached := false } }
  | uid value => .ok { p with uid := value }
  | maxHops value => p.withHops value

end OptionGroup

/-- Positional arguments and options in one command line, either of them in their own order. -/
inductive Interleaves : List String → List OptionGroup → List String → Prop
  | nil : Interleaves [] [] []
  | positional {positionals : List String} {groups : List OptionGroup} {args : List String}
      (arg : String) (h : Interleaves positionals groups args) :
      Interleaves (arg :: positionals) groups (arg :: args)
  | option {positionals : List String} {groups : List OptionGroup} {args : List String}
      (g : OptionGroup) (h : Interleaves positionals groups args) :
      Interleaves positionals (g :: groups) (g.args ++ args)

/-- No positional argument looks like an option. -/
def IsPlain (arg : String) : Prop := ¬['-', '-'] <+: arg.toList

instance : DecidablePred IsPlain := fun arg => inferInstanceAs (Decidable (¬['-', '-'] <+: arg.toList))

/-! ### A step of the reading -/

theorem parseFrom_option (p : Draft) (g : OptionGroup) (args : List String) :
    parseFrom p (g.args ++ args) = g.apply p >>= (parseFrom · args) := by
  cases g <;> rfl

theorem parseFrom_positional {arg : String} (h : IsPlain arg) (p : Draft) (args : List String) :
    parseFrom p (arg :: args) = p.positional arg >>= (parseFrom · args) := by
  have hne (name : String) (hname : ['-', '-'] <+: name.toList) : arg ≠ name := fun heq =>
    h (heq ▸ hname)
  have hcache := hne "--no-cache" (by decide)
  have huid := hne "--uid" (by decide)
  have hhops := hne "--max-hops" (by decide)
  have hplain : ¬['-', '-'].isPrefixOf arg.toList := mt List.isPrefixOf_iff_prefix.mp h
  rw [parseFrom.eq_7 p arg args hcache (fun heq => absurd heq huid) (fun _ _ heq => absurd heq huid)
    (fun heq => absurd heq hhops) (fun _ _ heq => absurd heq hhops), if_neg hplain]

/-! ### Positional arguments and options do not disturb each other -/

namespace Draft

def addAll (p : Draft) (args : List String) : Except UsageError Draft := args.foldlM positional p

def applyAll (p : Draft) (groups : List OptionGroup) : Except UsageError Draft :=
  groups.foldlM (fun p g => g.apply p) p

theorem addAll_cons (p : Draft) (arg : String) (args : List String) :
    p.addAll (arg :: args) = p.positional arg >>= (·.addAll args) := List.foldlM_cons

theorem applyAll_cons (p : Draft) (g : OptionGroup) (groups : List OptionGroup) :
    p.applyAll (g :: groups) = g.apply p >>= (·.applyAll groups) := List.foldlM_cons

/-- What the first positional argument changes, and what any other changes. -/
theorem positional_eq (p : Draft) (arg : String) :
    p.positional arg = if p.formula?.isNone then .ok { p with formula? := some arg }
      else (BindingArg.parse arg).map fun a => { p with bindings := p.bindings ++ [a] } := by
  rw [positional]
  cases p.formula? with
  | none => rfl
  | some formula => cases BindingArg.parse arg <;> rfl

/-- What an option changes does not matter to a positional argument, nor the other way round. -/
theorem apply_positional_iff (p q : Draft) (g : OptionGroup) (arg : String) :
    g.apply p >>= (·.positional arg) = .ok q ↔ p.positional arg >>= g.apply = .ok q := by
  obtain ⟨formula?, uid, bindings, config⟩ := p
  simp only [bind_eq_ok, positional_eq]
  cases g with
  | noCache | uid value =>
      cases formula? <;> cases BindingArg.parse arg <;> simp [OptionGroup.apply, Except.map]
  | maxHops value =>
      cases hn : readNumber? value <;> cases formula? <;> cases BindingArg.parse arg <;>
        simp [OptionGroup.apply, withHops, hn, Except.map]

theorem apply_addAll_iff (p q : Draft) (g : OptionGroup) (args : List String) :
    g.apply p >>= (·.addAll args) = .ok q ↔ p.addAll args >>= g.apply = .ok q := by
  induction args generalizing p with
  | nil =>
      cases hg : g.apply p <;> simp [addAll, hg]
  | cons arg args ih =>
      calc g.apply p >>= (·.addAll (arg :: args)) = .ok q
        _ ↔ g.apply p >>= (·.positional arg) >>= (·.addAll args) = .ok q := by
          simp only [addAll_cons, bind_assoc]
        _ ↔ p.positional arg >>= g.apply >>= (·.addAll args) = .ok q := by
          simp only [bind_eq_ok (f := (addAll · args)), apply_positional_iff]
        _ ↔ p.positional arg >>= (·.addAll args >>= g.apply) = .ok q := by
          rw [bind_assoc, bind_eq_ok, bind_eq_ok]
          simp only [ih]
        _ ↔ p.addAll (arg :: args) >>= g.apply = .ok q := by
          rw [addAll_cons, bind_assoc]

/-- Once there is a formula, all positional arguments are bindings. -/
theorem addAll_of_formula (formula uid : String) (bindings : List BindingArg) (config : Config)
    (args : List String) : addAll ⟨some formula, uid, bindings, config⟩ args =
      (args.mapM BindingArg.parse).map fun as => ⟨some formula, uid, bindings ++ as, config⟩ := by
  induction args generalizing bindings with
  | nil => simp [addAll, Except.map, pure, Except.pure]
  | cons arg args ih =>
      rw [addAll_cons, positional_eq, List.mapM_cons]
      cases BindingArg.parse arg with
      | error err => rfl
      | ok a =>
          change addAll ⟨some formula, uid, bindings ++ [a], config⟩ args = _
          rw [ih]
          cases args.mapM BindingArg.parse with
          | error err => rfl
          | ok as => exact congrArg Except.ok (by simp)

theorem apply_keeps {p q : Draft} {g : OptionGroup} (h : g.apply p = .ok q) :
    q.formula? = p.formula? ∧ q.bindings = p.bindings := by
  cases g with
  | noCache | uid value =>
      obtain rfl := Except.ok.inj h
      exact ⟨rfl, rfl⟩
  | maxHops value =>
      rw [OptionGroup.apply, withHops] at h
      split at h
      · obtain rfl := Except.ok.inj h
        exact ⟨rfl, rfl⟩
      · cases h

theorem applyAll_keeps {p q : Draft} {groups : List OptionGroup} (h : p.applyAll groups = .ok q) :
    q.formula? = p.formula? ∧ q.bindings = p.bindings := by
  induction groups generalizing p with
  | nil =>
      obtain rfl := Except.ok.inj h
      exact ⟨rfl, rfl⟩
  | cons g groups ih =>
      rw [applyAll_cons, bind_eq_ok] at h
      obtain ⟨p', hp', h⟩ := h
      obtain ⟨hformula, hbindings⟩ := ih h
      obtain ⟨hformula', hbindings'⟩ := apply_keeps hp'
      exact ⟨hformula.trans hformula', hbindings.trans hbindings'⟩

end Draft

/-! ### The whole of a command line -/

/-- The positional arguments may be read first, and the options after them. -/
theorem Interleaves.parseFrom_iff {positionals args : List String} {groups : List OptionGroup}
    (h : Interleaves positionals groups args) (hplain : ∀ a ∈ positionals, IsPlain a) (p q : Draft) :
    parseFrom p args = .ok q ↔ p.addAll positionals >>= (·.applyAll groups) = .ok q := by
  induction h generalizing p with
  | nil => rfl
  | @positional positionals groups args arg h ih =>
      obtain ⟨harg, hrest⟩ := List.forall_mem_cons.mp hplain
      rw [parseFrom_positional harg, Draft.addAll_cons, bind_assoc, bind_eq_ok, bind_eq_ok]
      simp only [ih hrest]
  | @option positionals groups args g h ih =>
      -- The option comes first and is taken past all the positional arguments that follow it.
      calc parseFrom p (g.args ++ args) = .ok q
        _ ↔ g.apply p >>= (·.addAll positionals) >>= (·.applyAll groups) = .ok q := by
          rw [parseFrom_option, bind_assoc, bind_eq_ok, bind_eq_ok]
          simp only [ih hplain]
        _ ↔ p.addAll positionals >>= g.apply >>= (·.applyAll groups) = .ok q := by
          simp only [bind_eq_ok (f := (Draft.applyAll · groups)), Draft.apply_addAll_iff]
        _ ↔ p.addAll positionals >>= (·.applyAll (g :: groups)) = .ok q := by
          simp only [Draft.applyAll_cons, bind_assoc]

theorem parse_eq_ok_iff {args : List String} {i : Invocation} :
    parse args = .ok i ↔
      parseFrom .initial args = .ok ⟨some i.formula, i.uid, i.bindings, i.config⟩ := by
  rw [parse, bind_eq_ok]
  constructor
  · rintro ⟨⟨_ | formula, uid, bindings, config⟩, hp, h⟩
    · cases h
    · obtain rfl := Except.ok.inj h
      exact hp
  · intro h
    exact ⟨_, h, rfl⟩

/-- A command line that is accepted is accepted in the same way however its positional arguments and its
options are mixed. The first positional argument is the formula, and the others are the bindings. -/
theorem parse_interleaved {positionals args args' : List String} {groups : List OptionGroup}
    (hplain : ∀ a ∈ positionals, IsPlain a) (h : Interleaves positionals groups args)
    (h' : Interleaves positionals groups args') {i : Invocation} (hi : parse args = .ok i) :
    parse args' = .ok i ∧
      ∃ bindings, positionals = i.formula :: bindings ∧
        bindings.mapM BindingArg.parse = .ok i.bindings := by
  rw [parse_eq_ok_iff, h.parseFrom_iff hplain] at hi
  refine ⟨parse_eq_ok_iff.mpr ((h'.parseFrom_iff hplain _ _).mpr hi), ?_⟩
  obtain ⟨p, hp, hgroups⟩ := bind_eq_ok.mp hi
  obtain ⟨hformula, hbindings⟩ := Draft.applyAll_keeps hgroups
  cases positionals with
  | nil =>
      obtain rfl := Except.ok.inj hp
      cases hformula
  | cons formula bindings =>
      change Draft.addAll ⟨some formula, "cli", [], .default⟩ bindings = .ok p at hp
      rw [Draft.addAll_of_formula] at hp
      cases has : bindings.mapM BindingArg.parse with
      | error err =>
          rw [has] at hp
          cases hp
      | ok as =>
          rw [has] at hp
          obtain rfl := Except.ok.inj hp
          obtain rfl := Option.some.inj hformula
          exact ⟨bindings, rfl, has.trans (congrArg Except.ok hbindings.symm)⟩

/-- The value of an option looks like an option, and that of another like a formula. -/
theorem parse_interleaved_uid :
    let positionals := ["x + y", "x=a"]
    let groups : List OptionGroup := [.uid "--no-cache", .maxHops "7", .noCache, .uid "x - y"]
    let args := ["--uid", "--no-cache", "--max-hops", "7", "x + y", "--no-cache", "--uid", "x - y", "x=a"]
    let args' := ["x + y", "--uid", "--no-cache", "x=a", "--max-hops", "7", "--no-cache", "--uid", "x - y"]
    let i : Invocation := ⟨"x + y", "x - y", [⟨"x", none, .string "a"⟩], ⟨7, 1000, false⟩⟩
    (∀ a ∈ positionals, IsPlain a) ∧ Interleaves positionals groups args ∧
      Interleaves positionals groups args' ∧ parse args = .ok i ∧ parse args' = .ok i ∧
      ∃ bindings, positionals = i.formula :: bindings ∧
        bindings.mapM BindingArg.parse = .ok i.bindings := by
  intro positionals groups args args' i
  have hplain : ∀ a ∈ positionals, IsPlain a := by decide
  have h : Interleaves positionals groups args :=
    .option (.uid "--no-cache") (.option (.maxHops "7") (.positional "x + y" (.option .noCache
      (.option (.uid "x - y") (.positional "x=a" .nil)))))
  have h' : Interleaves positionals groups args' :=
    .positional "x + y" (.option (.uid "--no-cache") (.positional "x=a" (.option (.maxHops "7")
      (.option .noCache (.option (.uid "x - y") .nil)))))
  have hi : parse args = .ok i := by cbv
  obtain ⟨hi', hbindings⟩ := parse_interleaved hplain h h' hi
  exact ⟨hplain, h, h', hi, hi', hbindings⟩

end Formula.Cli.Invocation
