import Formula.Proofs.RelocatedParse
import Formula.Proofs.Splitting

/-!
A statement compiles to what its text alone compiles to, at the place of the statement.
-/

namespace Formula

/-- The tokens of a text do not depend on what stands before it, apart from their places. -/
theorem Token.scanFrom_shift (n pos : Nat) (cs : List Char) :
    scanFrom (pos + n) cs =
      ((scanFrom pos cs).map (List.map (·.relocate (.shift n)))).mapError
        (·.relocate (.shift n)) := by
  fun_induction scanFrom pos cs with
  | case1 => rw [scanFrom]; rfl
  | case2 pos c cs hgap ih => rw [scanFrom, if_pos hgap, Nat.add_right_comm, ih]
  | case3 pos c cs hgap taken stop fault hfault =>
      rw [scanFrom, if_neg hgap]
      simp only [hfault, Nat.add_right_comm pos n]
      rfl
  | case4 pos c cs hgap taken stop kind hkind e he ih =>
      rw [he] at ih
      rw [scanFrom, if_neg hgap]
      simp only [hkind, Nat.add_right_comm pos n]
      rw [ih]
      rfl
  | case5 pos c cs hgap taken stop kind hkind ts hts ih =>
      rw [hts] at ih
      rw [scanFrom, if_neg hgap]
      simp only [hkind, Nat.add_right_comm pos n]
      rw [ih]
      rfl

section

variable {source source' : String} {before before' body : List Char} {n : Nat}

theorem Span.behind_shift (hn : Text.bytes before' = Text.bytes before + n) :
    behind before' body = (behind before body).shift n := by
  simp only [behind, shift, mk.injEq]
  omega

theorem Span.slice_behind (h : before ++ body <+: source.toList) :
    (behind before body).slice source = String.ofList body := by
  obtain ⟨after, hafter⟩ := h
  rw [slice, behind, ← hafter, Text.slice?_middle]

theorem TokenList.scan_behind (h : before ++ body <+: source.toList) :
    scan source (.behind before body) =
      (Token.scanFrom (Text.bytes before) body).map (⟨·, Text.bytes before + Text.bytes body⟩) := by
  obtain ⟨after, hafter⟩ := h
  have hstop : min (Text.bytes before + Text.bytes body) (Text.bytes (before ++ body ++ after)) =
      Text.bytes before + Text.bytes body := by
    simp only [Text.bytes_append]
    omega
  have hstart : min (Text.bytes before) (Text.bytes before + Text.bytes body) = Text.bytes before := by
    omega
  rw [scan, ← hafter]
  simp only [Span.behind, hstop, hstart, Text.slice?_middle, Option.getD_some]
  cases Token.scanFrom (Text.bytes before) body <;> rfl

variable (h : before ++ body <+: source.toList) (h' : before' ++ body <+: source'.toList)
  (hn : Text.bytes before' = Text.bytes before + n)

include h h' hn

/-! The same text stands in two sources, in the second one `n` bytes further on. -/

theorem TokenList.scan_moved :
    scan source' (.behind before' body) =
      ((scan source (.behind before body)).map (·.relocate (.shift n))).mapError
        (·.relocate (.shift n)) := by
  rw [scan_behind h', scan_behind h, hn, Token.scanFrom_shift, Nat.add_right_comm]
  cases Token.scanFrom (Text.bytes before) body <;> rfl

theorem Expr.ofSource_moved (maxHops : Nat) :
    ofSource maxHops source' (.behind before' body) =
      ((ofSource maxHops source (.behind before body)).map (·.relocate (.shift n))).mapError
        (·.relocate (.shift n)) := by
  rw [ofSource, ofSource, TokenList.scan_moved h h' hn]
  cases TokenList.scan source (.behind before body) with
  | error e => exact congrArg Except.error (ScanError.diagnostic_relocate _ e)
  | ok ts =>
      simp only [Except.map, Except.mapError, ofTokens_relocate]
      cases ofTokens maxHops ts with
      | error e => exact congrArg Except.error (ParseError.diagnostic_relocate _ e)
      | ok e => rfl

theorem Program.ofSource_moved (maxHops : Nat) (scope : Scope) :
    ofSource maxHops scope source' (.behind before' body) =
      ((ofSource maxHops scope source (.behind before body)).map
        (Program.relocate (.shift n))).mapError (·.relocate (.shift n)) := by
  rw [ofSource, ofSource, Expr.ofSource_moved h h' hn maxHops]
  cases Expr.ofSource maxHops source (.behind before body) with
  | error d => rfl
  | ok e =>
      simp only [Except.map, Except.mapError, Program.ofExpr_relocate]
      cases Program.ofExpr scope e with
      | error e => exact congrArg Except.error (ParseError.diagnostic_relocate _ e)
      | ok p => rfl

theorem CompiledStatement.compile_moved (maxHops : Nat) (scope : Scope) :
    compile maxHops scope source' (.behind before' body) =
      (compile maxHops scope source (.behind before body)).relocate (.shift n) := by
  rw [compile, compile, Program.ofSource_moved h h' hn maxHops scope, Span.slice_behind h',
    Span.slice_behind h]
  simp only [relocate, mk.injEq, true_and]
  constructor
  · exact Span.behind_shift hn
  · cases Program.ofSource maxHops scope source (.behind before body) <;> rfl

end

/-- A statement compiles to the same wherever its text stands, apart from its place. -/
theorem CompiledStatement.compile_alone (maxHops : Nat) (scope : Scope) {source : String}
    {before body : List Char} (h : before ++ body <+: source.toList) :
    compile maxHops scope source (.behind before body) =
      (compile maxHops scope (String.ofList body) (.behind [] body)).relocate
        (.shift (Text.bytes before)) := by
  have halone : [] ++ body <+: (String.ofList body).toList := by simp
  exact compile_moved halone h (by simp) maxHops scope

/-- There is one compiled statement for each span of the split, and each is what its text compiles to
as a formula of its own, moved to the place of the statement. -/
theorem CompiledFormula.compile_isolated (maxHops : Nat) (scope : Scope) (source : String) :
    (compile maxHops scope source).statements.map (·.span) = Statement.split source ∧
      ∀ s ∈ (compile maxHops scope source).statements,
        s.text = s.span.slice source ∧
          (compile maxHops scope s.text).statements.map (·.relocate (.shift s.span.start)) = [s] := by
  constructor
  · simp [compile, CompiledStatement.compile, Function.comp_def]
  · intro s hs
    obtain ⟨span, hspan, rfl⟩ := List.mem_map.mp hs
    obtain ⟨before, body, hprefix, hbody, rfl⟩ := Statement.exists_of_mem_split hspan
    refine ⟨rfl, ?_⟩
    have htext : (CompiledStatement.compile maxHops scope source (.behind before body)).text =
        String.ofList body := Span.slice_behind hprefix
    rw [htext, compile, Statement.split_of_isWhole hbody,
      CompiledStatement.compile_alone maxHops scope hprefix]
    simp [CompiledStatement.relocate, CompiledStatement.compile, Relocation.shift, Span.shift,
      Span.behind]

end Formula
