import Formula.Proofs.Arithmetic
import Formula.Proofs.Conversions
import Formula.Proofs.Determinism

/-!
Sums with a text. They append the text that the other operand is converted to, except that booleans count
as numbers in every sum.
-/

namespace Formula

variable {H : Host}

theorem Memory.text_of_items? {m : Memory H} {o : ObjectRef} {vs : List Value}
    (h : m.items? o = some vs) :
    m.text (.object o) = "[" ++ ", ".intercalate (m.itemTexts [o.id] vs) ++ "]" := by
  rw [text, objectText, dif_neg List.not_mem_nil]
  split
  · next hnone =>
    rw [h] at hnone
    cases hnone
  · next us hus =>
    rw [h] at hus
    rw [Option.some.inj hus]

namespace Value

variable {types : Directory} {m : Memory H} {v : Value} {text : String}

/-- The text that a conversion to string gives. A null stays null, and is shown. -/
def HasText (types : Directory) (m : Memory H) (v : Value) (text : String) : Prop :=
  v.convert types m .string = .ok (.string text) ∨
    v.convert types m .string = .ok .null ∧ text = m.text .null

theorem convert_string (hnull : v.isNull = false) (hroot : v.isTypeRoot = false) :
    v.convert types m .string = .ok (string (m.text v)) := by
  cases v with
  | null => cases hnull
  | bool | int | float | string | enum | object => rfl
  | typeRoot => cases hroot

theorem hasText_iff (hroot : v.isTypeRoot = false) : v.HasText types m text ↔ text = m.text v := by
  have hconvert : (null : Value).convert types m .string = .ok null := rfl
  rw [HasText]
  cases hnull : v.isNull with
  | false => simp [convert_string hnull hroot, eq_comm]
  | true =>
      cases v with
      | null => simp [hconvert]
      | bool | int | float | string | enum | object | typeRoot => cases hnull

theorem isTypeRoot_coerced (v : Value) : v.coerced.isTypeRoot = v.isTypeRoot := by
  cases v with
  | null | bool | int | float | string | enum | object | typeRoot => rfl

/-- Only booleans are shown otherwise than sums show them. -/
theorem text_coerced_eq_iff (m : Memory H) (v : Value) :
    m.text v.coerced = m.text v ↔ ∀ b, v ≠ .bool b := by
  cases v with
  | bool b =>
      have hne : m.text (bool b).coerced ≠ m.text (bool b) := by
        cases b
        · exact (by decide : "0" ≠ "false")
        · exact (by decide : "1" ≠ "true")
      simpa using hne
  | null | int | float | string | enum | object | typeRoot => simp [coerced]

theorem hasText_text_coerced_iff (hroot : v.isTypeRoot = false) :
    v.HasText types m (m.text v.coerced) ↔ ∀ b, v ≠ .bool b := by
  rw [hasText_iff hroot, text_coerced_eq_iff]

theorem binary_string_add (m : Memory H) (s : String) (v : Value) :
    (string s).binary m .add v = .ok (.string (s ++ m.text v.coerced)) := rfl

theorem binary_add_string (m : Memory H) (v : Value) (s : String) :
    v.binary m .add (string s) = .ok (.string (m.text v.coerced ++ s)) := by
  cases v with
  | null | bool | int | float | string | enum | object | typeRoot => rfl

end Value

namespace Expr

variable {r : Registry H} {scope : Scope} {a b : Expr} {u v : Value} {w w₁ w₂ : World H}

theorem eval_binary {op : Operator} {x : Value} (ha : a.eval r scope w = .ok u w₁)
    (hb : b.eval r scope w₁ = .ok v w₂) (h : u.binary w₂.memory op v = .ok x) (span : Span) :
    (binary span op a b).eval r scope w = .ok x w₂ := by
  rw [eval, run_bind_of_ok ha, run_bind_of_ok hb, Arithmetic.located_binary_of_ok h]

/-- A sum of a text and another value, on either side, is the text with that behind or in front of it that
the value is converted to, a boolean taken for a number. Without that it would be another text for
booleans, and only for these. The value is shown as it is once both operands are evaluated. -/
theorem eval_add_text (span : Span) {s : String} (hv : v.isTypeRoot = false) :
    (a.eval r scope w = .ok (.string s) w₁ → b.eval r scope w₁ = .ok v w₂ →
      ∃ text, v.coerced.HasText r.directory w₂.memory text ∧
        (v.HasText r.directory w₂.memory text ↔ ∀ c, v ≠ .bool c) ∧
        (binary span .add a b).eval r scope w = .ok (.string (s ++ text)) w₂) ∧
    (a.eval r scope w = .ok v w₁ → b.eval r scope w₁ = .ok (.string s) w₂ →
      ∃ text, v.coerced.HasText r.directory w₂.memory text ∧
        (v.HasText r.directory w₂.memory text ↔ ∀ c, v ≠ .bool c) ∧
        (binary span .add a b).eval r scope w = .ok (.string (text ++ s)) w₂) := by
  have hcoerced : v.coerced.HasText r.directory w₂.memory (w₂.memory.text v.coerced) :=
    (Value.hasText_iff ((Value.isTypeRoot_coerced v).trans hv)).mpr rfl
  have hplain : v.HasText r.directory w₂.memory (w₂.memory.text v.coerced) ↔ ∀ c, v ≠ .bool c :=
    Value.hasText_text_coerced_iff hv
  constructor
  · intro ha hb
    exact ⟨_, hcoerced, hplain, eval_binary ha hb (Value.binary_string_add _ s v) span⟩
  · intro ha hb
    exact ⟨_, hcoerced, hplain, eval_binary ha hb (Value.binary_add_string _ v s) span⟩

open Sample in
/-- A list that is its own first item. -/
theorem eval_add_text_cyclic :
    let scope := Scope.of registry.directory looped.world.bindings
    let xs : Expr := .ident ⟨0, 2⟩ "xs"
    let mark : Expr := .literal ⟨5, 8⟩ (.string "!")
    let v : Value := .object ⟨0, "List"⟩
    v.isTypeRoot = false ∧ xs.eval registry scope looped.world = .ok v looped.world ∧
      mark.eval registry scope looped.world = .ok (.string "!") looped.world ∧
      v.HasText registry.directory looped.world.memory "[[...], 1]" ∧
      (binary ⟨0, 8⟩ .add xs mark).eval registry scope looped.world =
        .ok (.string "[[...], 1]!") looped.world := by
  intro scope xs mark v
  have hv : v.isTypeRoot = false := rfl
  have hxs : xs.eval registry scope looped.world = .ok v looped.world := by
    rw [eval]
    rfl
  have hend : mark.eval registry scope looped.world = .ok (.string "!") looped.world := by
    rw [eval]
    rfl
  obtain ⟨text, hcoerced, hplain, hsum⟩ := (eval_add_text ⟨0, 8⟩ hv).2 hxs hend
  have hitems : looped.world.memory.items? ⟨0, "List"⟩ = some [v, .int 1] := rfl
  have hshown : text = looped.world.memory.text v := (Value.hasText_iff hv).mp hcoerced
  have htext : text = "[[...], 1]" := by
    rw [hshown, Memory.text_of_items? hitems, Memory.itemTexts, Memory.itemTexts, Memory.itemTexts,
      Memory.objectText, dif_pos (List.mem_singleton_self 0)]
    · decide
    · nofun
  subst htext
  exact ⟨hv, hxs, hend, hplain.mpr nofun, hsum⟩

end Expr

/-- A sum makes a digit of a boolean, a conversion a word. -/
theorem Engine.effect_add_bool :
    let e : Engine Sample.host := ⟨Sample.registry, .default⟩
    let m := Sample.corner.world.memory
    let converted (v : Value) := v.convert Sample.registry.directory m .string
    (e.effect "f" "'n=' + true" Sample.corner).1 = .ok ⟨[.string "n=1"], []⟩ ∧
      converted (.bool true) = .ok (.string "true") ∧ "n=1" ≠ "n=" ++ "true" ∧
      converted .null = .ok .null := by
  intro e m converted
  have hs : Sample.corner.cache.Coherent e := Cache.coherent_empty
  have hsplit : Statement.split "'n=' + true" = [⟨0, 11⟩] := by decide +kernel
  have hscan : TokenList.scan "'n=' + true" ⟨0, 11⟩ =
      .ok ⟨[⟨.string "n=", ⟨0, 4⟩⟩, ⟨.op .add, ⟨5, 6⟩⟩, ⟨.bool true, ⟨7, 11⟩⟩], 11⟩ := by cbv
  have hparse : Expr.ofTokens e.config.maxHops
      ⟨[⟨.string "n=", ⟨0, 4⟩⟩, ⟨.op .add, ⟨5, 6⟩⟩, ⟨.bool true, ⟨7, 11⟩⟩], 11⟩ =
      .ok (.binary ⟨0, 11⟩ .add (.literal ⟨0, 4⟩ (.string "n=")) (.literal ⟨7, 11⟩ (.bool true))) := by
    cbv
  have hsum : m.text (Value.string "n=").coerced ++ m.text (Value.bool true).coerced = "n=1" := by decide
  refine ⟨?_, rfl, by decide, rfl⟩
  rw [effect_single_of_ok hs hsplit hscan hparse (by simp only [Program.ofExpr]; rfl)
    (by simp only [Expr.eval]; rfl)]
  exact congrArg (fun text => Except.ok (Evaluation.mk [.string text] [])) hsum

end Formula
