import Formula.Proofs.Acceptance
import Formula.Proofs.Arithmetic
import Formula.Proofs.TextForm

/-!
Ints are written as they are shown. The least one is the exception: its sign is no part of the literal,
and without it the number is too large.
-/

namespace Formula

namespace Token

variable {n : Int64}

theorem Scans.digits (h : 0 ≤ n.toInt) : Scans (toString n.toInt).toList [.int n] := by
  obtain ⟨c, cs, hcs, hdigits, hread⟩ := Number.digits_of_nonneg h
  rw [hcs, ← List.append_nil (c :: cs)]
  exact .number hdigits hread rfl .nil

theorem Scans.minus_digits (h : 0 ≤ n.toInt) :
    Scans ('-' :: (toString n.toInt).toList) [.op .sub, .int n] := by
  obtain ⟨c, cs, hcs, hdigits, -⟩ := Number.digits_of_nonneg h
  have hscans := Scans.digits h
  have hc : c ∉ Operator.chars := fun hmem => by
    simpa [(only_operator_of_mem_chars hmem).2.2.1] using hdigits c
  rw [hcs] at hscans ⊢
  exact .operator .sub hc hscans

end Token

theorem Statement.isWhole_int (n : Int) : IsWhole (toString n).toList := by
  refine ⟨(Token.isClosed_of_forall fun c hc => ?_).1, Text.trim_digits n, Number.toString_ne_nil n⟩
  rcases Number.forall_mem_toString n c hc with rfl | hdigit
  · decide
  · constructor
    · rintro rfl
      exact absurd hdigit (by decide)
    · rw [Bool.eq_false_iff]
      intro hquote
      simp [(Token.not_isNameStart_of_isQuote hquote).2] at hdigit

/-- A statement that makes up tokens of these kinds is scanned to such tokens. -/
theorem Statement.exists_of_scans {formula : String} {ks : List Token.Kind}
    (hwhole : IsWhole formula.toList) (h : Token.Scans formula.toList ks) :
    ∃ span ts, split formula = [span] ∧ TokenList.scan formula span = .ok ts ∧
      ts.tokens.map (·.kind) = ks := by
  obtain ⟨ts, hts, hkinds⟩ := h 0
  have hsplit := split_of_isWhole hwhole
  have hscan := @TokenList.scan_behind formula [] formula.toList (List.prefix_refl _)
  rw [Text.bytes_nil, hts] at hscan
  rw [String.ofList_toList] at hsplit
  exact ⟨_, _, hsplit, hscan, hkinds⟩

namespace Expr

variable {t u : Token} {n : Int64} (maxHops stop : Nat)

theorem Parse.unary_of_literal {value : Literal} (ht : t.kind.literal? = some value) :
    plain (unary stop maxHops [t]) = .ok (.literal t.span value, []) :=
  Grammar.unary_of_primary (.inl (by rw [ht]; rfl)) (primary_of_literal ht [])
    endsAssignment_nil.toEndsUnary

theorem ofTokens_literal {value : Literal} (ht : t.kind.literal? = some value) :
    ofTokens maxHops ⟨[t], stop⟩ = .ok (.literal t.span value) :=
  ofTokens_eq_ok_iff.mpr (Parse.assignment_of_unary (Parse.unary_of_literal maxHops stop ht)
    Parse.endsAssignment_nil)

theorem ofTokens_neg_int (ht : t.kind = .op .sub) (hu : u.kind = .int n) :
    ofTokens maxHops ⟨[t, u], stop⟩ = .ok (.ofUnary .sub t.span (.literal u.span (.int n))) :=
  ofTokens_eq_ok_iff.mpr (Parse.assignment_of_unary
    (Parse.unary_of_sign ht (.inl rfl) (Parse.unary_of_literal maxHops stop (by rw [hu]; rfl)))
    Parse.endsAssignment_nil)

end Expr

/-- A negative int that is not the least one is the negation of an int. -/
theorem Number.exists_neg_of_neg {n : Int64} (h : n.toInt < 0) (hmin : n ≠ Int64.minValue) :
    ∃ m : Int64, 0 ≤ m.toInt ∧ n.toInt = -m.toInt := by
  have hlow := Int64.le_toInt n
  have hne : n.toInt ≠ -2 ^ 63 := fun heq => hmin (Int64.toInt_inj.mp heq)
  have hin : inInt64 (-n.toInt) := by
    rw [inInt64_iff, minInt64, maxInt64]
    omega
  refine ⟨.ofInt (-n.toInt), ?_, ?_⟩ <;> rw [toInt_ofInt hin] <;> omega

namespace Engine

variable {H : Host}

section

variable {e : Engine H} {s : Session H} (hs : s.cache.Coherent e) (uid : String) {n : Int64}

include hs

theorem effect_digits (h : 0 ≤ n.toInt) :
    e.effect uid (toString n.toInt) s = (.ok ⟨[.int n], []⟩, s.world) := by
  obtain ⟨span, ⟨ts, stop⟩, hsplit, hscan, hkinds⟩ :=
    Statement.exists_of_scans (Statement.isWhole_int n.toInt) (Token.Scans.digits h)
  obtain ⟨t, rfl, ht⟩ := List.map_eq_singleton_iff.mp hkinds
  have hparse : Expr.ofTokens e.config.maxHops ⟨[t], stop⟩ = .ok (.literal t.span (.int n)) :=
    Expr.ofTokens_literal e.config.maxHops stop (by rw [ht]; rfl)
  exact effect_single_of_ok hs hsplit hscan hparse (by rw [Program.ofExpr]) (by rw [Expr.eval]; rfl) uid

/-- The minus is an operator, and negates an int that is shown with the same digits. -/
theorem effect_minus_digits (hneg : n.toInt < 0) (hmin : n ≠ Int64.minValue) :
    e.effect uid (toString n.toInt) s = (.ok ⟨[.int n], []⟩, s.world) := by
  obtain ⟨m, hnonneg, hm⟩ := Number.exists_neg_of_neg hneg hmin
  have htext : (toString n.toInt).toList = '-' :: (toString m.toInt).toList := by
    have habs : (n.toInt.natAbs : Int) = m.toInt := by omega
    rw [Number.toString_of_neg hneg, ← habs]
    rfl
  have hscans : Token.Scans (toString n.toInt).toList [.op .sub, .int m] := by
    rw [htext]
    exact .minus_digits hnonneg
  obtain ⟨span, ⟨ts, stop⟩, hsplit, hscan, hkinds⟩ :=
    Statement.exists_of_scans (Statement.isWhole_int n.toInt) hscans
  obtain ⟨t, _, rfl, ht, hrest⟩ := List.map_eq_cons_iff.mp hkinds
  obtain ⟨u, rfl, hu⟩ := List.map_eq_singleton_iff.mp hrest
  let a : Arithmetic := .neg (.int m)
  let ρ : String → Int := fun _ => 0
  have hreads : a.Reads s.world.bindings ρ := fun _ hname => absurd hname List.not_mem_nil
  have hin : Number.inInt64 (-m.toInt) := hm ▸ Number.inInt64_toInt n
  have hexact : a.IsExact ρ := ⟨trivial, hin⟩
  have hparse := Expr.ofTokens_neg_int e.config.maxHops stop ht hu
  obtain ⟨i, hi, heffect⟩ := effect_of_isExact hs hsplit hscan hparse (.neg _ (.int m _)) hreads uid
    trivial hexact
  rw [heffect, Int64.toInt_inj.mp (hi.trans hm.symm)]

/-- The digits of the least int are scanned as a number, and that is too large. -/
theorem effect_least : ∃ d : Diagnostic, d.code.text = "E0003" ∧
    e.effect uid (s.world.memory.text (.int Int64.minValue)) s = (.ok ⟨[.null], [d]⟩, s.world) := by
  have hsplit : Statement.split "-9223372036854775808" = [⟨0, 20⟩] := by decide +kernel
  have hscan : TokenList.scan "-9223372036854775808" ⟨0, 20⟩ =
      .error ⟨⟨1, 20⟩, .integerTooLarge⟩ := by cbv
  exact ⟨_, rfl, effect_single_of_scanError hs hsplit hscan uid⟩

end

/-- Every int but the least one can be written as it is shown, and is then the one result. The text of
the least int yields a null and a diagnostic. -/
theorem effect_int_text (e : Engine H) (s : Session H) (hs : s.cache.Coherent e) (uid : String)
    (n : Int64) :
    (n ≠ Int64.minValue →
      e.effect uid (s.world.memory.text (.int n)) s = (.ok ⟨[.int n], []⟩, s.world)) ∧
    (n = Int64.minValue → ∃ d : Diagnostic, d.code.text = "E0003" ∧
      e.effect uid (s.world.memory.text (.int n)) s = (.ok ⟨[.null], [d]⟩, s.world)) := by
  constructor
  · intro hmin
    by_cases h : 0 ≤ n.toInt
    · exact effect_digits hs uid h
    · exact effect_minus_digits hs uid (by omega) hmin
  · rintro rfl
    exact effect_least hs uid

/-- The two least ints. -/
theorem effect_int_text_corner :
    let e : Engine Sample.host := ⟨Sample.registry, .default⟩
    let s := Sample.corner
    let n : Int64 := -9223372036854775807
    s.cache.Coherent e ∧ n ≠ Int64.minValue ∧
      e.effect "f" "-9223372036854775807" s = (.ok ⟨[.int n], []⟩, s.world) ∧
      ∃ d : Diagnostic, d.code.text = "E0003" ∧
        e.effect "f" "-9223372036854775808" s = (.ok ⟨[.null], [d]⟩, s.world) := by
  intro e s n
  have hs : s.cache.Coherent e := Cache.coherent_empty
  have hn : n ≠ Int64.minValue := by decide
  exact ⟨hs, hn, (effect_int_text e s hs "f" n).1 hn, (effect_int_text e s hs "f" Int64.minValue).2 rfl⟩

theorem not_effect_least_text :
    let e : Engine Sample.host := ⟨Sample.registry, .default⟩
    let s := Sample.corner
    let n := Int64.minValue
    s.cache.Coherent e ∧ s.world.memory.text (.int n) = "-9223372036854775808" ∧
      (e.effect "f" "-9223372036854775808" s).1 ≠ .ok ⟨[.int n], []⟩ := by
  intro e s n
  have hs : s.cache.Coherent e := Cache.coherent_empty
  obtain ⟨d, -, heffect⟩ := effect_least hs "f"
  refine ⟨hs, rfl, fun h => ?_⟩
  change e.effect "f" "-9223372036854775808" s = _ at heffect
  rw [heffect] at h
  cases h

end Engine

end Formula
