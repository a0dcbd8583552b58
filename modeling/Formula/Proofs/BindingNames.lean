import Formula.Cli.Command
import Formula.Proofs.IntTexts
import Formula.Proofs.Rendering

/-!
The names of bindings on a command line are words of the language: each is a single token. Three of them
are keywords, and what is bound to a keyword cannot be read.
-/

namespace Formula

namespace Text

def blankNumbers : List Nat :=
  [0x09, 0x0A, 0x0B, 0x0C, 0x0D, 0x20, 0x85, 0xA0, 0x1680] ++ List.range' 0x2000 11 ++
    [0x2028, 0x2029, 0x202F, 0x205F, 0x3000]

theorem mem_blankNumbers {c : Char} (h : isBlank c = true) : c.toNat ∈ blankNumbers := by
  simp only [isBlank, Bool.or_eq_true, Bool.and_eq_true, decide_eq_true_eq, beq_iff_eq] at h
  simp only [blankNumbers, List.mem_append, List.mem_cons, List.not_mem_nil, List.mem_range'_1]
  omega

theorem not_isBlank_of_isNameChar {c : Char} (h : isNameChar c = true) : isBlank c = false := by
  have hall : ∀ n ∈ blankNumbers, isNameChar (Char.ofNat n) = false := by decide +kernel
  rw [Bool.eq_false_iff]
  intro hblank
  have hc := hall c.toNat (mem_blankNumbers hblank)
  rw [Char.ofNat_toNat, h] at hc
  cases hc

end Text

namespace IsWord

variable {w : String}

theorem forall_isNameChar (h : IsWord w) : ∀ c ∈ w.toList, Text.isNameChar c = true := by
  obtain ⟨c, cs, hcs, hc, hd⟩ := h
  rw [hcs]
  exact List.forall_mem_cons.mpr ⟨Text.isNameChar_of_isNameStart hc, hd⟩

theorem not_mem (h : IsWord w) {c : Char} (hc : Text.isNameChar c = false) : c ∉ w.toList := by
  intro hmem
  rw [h.forall_isNameChar c hmem] at hc
  cases hc

theorem trim_eq (h : IsWord w) : Text.trim w.toList = w.toList :=
  Text.trim_eq_self_of_forall fun c hc => Text.not_isBlank_of_isNameChar (h.forall_isNameChar c hc)

theorem isWhole (h : IsWord w) : Statement.IsWhole w.toList := by
  refine ⟨(Token.isClosed_of_forall fun c hc => ?_).1, h.trim_eq, ?_⟩
  · have hseparator : c ≠ ';' := fun heq => h.not_mem (by decide) (heq ▸ hc)
    refine ⟨hseparator, Bool.eq_false_iff.mpr fun hquote => ?_⟩
    simp only [Token.isQuote, Bool.or_eq_true, beq_iff_eq] at hquote
    rcases hquote with rfl | rfl
    · exact h.not_mem (by decide) hc
    · exact h.not_mem (by decide) hc
  · obtain ⟨c, cs, hcs, -⟩ := h
    rw [hcs]
    exact List.cons_ne_nil c cs

end IsWord

namespace Cli.BindingArg

theorem isName_iff {name : List Char} : isName name = true ↔ IsWord (String.ofList name) := by
  cases name with
  | nil => simp [isName, IsWord]
  | cons c cs => simp [isName, IsWord]

theorem isWord_of_parse {text : String} {a : BindingArg} (h : parse text = .ok a) : IsWord a.name := by
  rw [parse] at h
  split at h
  · cases h
  · next left right _ =>
    cases hcolon : Text.splitFirst? ':' left <;> simp only [hcolon] at h <;> split at h
    case none.isTrue hname | some.isTrue hname =>
      obtain rfl := Except.ok.inj h
      exact isName_iff.mp hname
    case none.isFalse | some.isFalse => cases h

end Cli.BindingArg

/-! ### A word as a formula -/

namespace Token

/-- The words that are no identifiers. -/
def keywords : List String := ["true", "false", "null"]

theorem Kind.ofWord_of_not_keyword {w : String} (h : w ∉ keywords) : Kind.ofWord w = .ident w := by
  rw [ofWord.eq_def]
  split
  · exact absurd (by decide) h
  · exact absurd (by decide) h
  · exact absurd (by decide) h
  · rfl

theorem Kind.literal?_of_keyword {w : String} (h : w ∈ keywords) :
    ∃ value, (Kind.ofWord w).literal? = some value := by
  simp only [keywords, List.mem_cons, List.not_mem_nil, or_false] at h
  rcases h with rfl | rfl | rfl
  · exact ⟨.bool true, rfl⟩
  · exact ⟨.bool false, rfl⟩
  · exact ⟨.null, rfl⟩

end Token

theorem Expr.ofTokens_ident {t : Token} {name : String} (maxHops stop : Nat)
    (ht : t.kind = .ident name) : ofTokens maxHops ⟨[t], stop⟩ = .ok (.ident t.span name) := by
  have hends := Parse.endsAssignment_nil
  refine ofTokens_eq_ok_iff.mpr (Parse.assignment_of_unary ?_ hends)
  exact Grammar.unary_of_primary (.inr (.inl ⟨name, ht⟩)) (Parse.primary_of_ident ht [])
    hends.toEndsUnary

/-- A word is a single statement and a single token. -/
theorem IsWord.exists_token {w : String} (h : IsWord w) :
    ∃ span t stop, Statement.split w = [span] ∧ TokenList.scan w span = .ok ⟨[t], stop⟩ ∧
      t.kind = .ofWord w := by
  have hscans := Token.Scans.wordText h endsWord_nil Token.Scans.nil
  rw [List.append_nil] at hscans
  obtain ⟨span, ⟨ts, stop⟩, hsplit, hscan, hkinds⟩ := Statement.exists_of_scans h.isWhole hscans
  obtain ⟨t, rfl, ht⟩ := List.map_eq_singleton_iff.mp hkinds
  exact ⟨span, t, stop, hsplit, hscan, ht⟩

namespace Cli.BindingArg

variable {H : Host}

/-- The name of a binding is a single token. It is an identifier, and by itself loads the variable, unless
it is a keyword: that stands for its value whatever is bound to it. -/
theorem loads_of_parse {text : String} {a : BindingArg} (h : parse text = .ok a) :
    ∃ span t stop, Statement.split a.name = [span] ∧
      TokenList.scan a.name span = .ok ⟨[t], stop⟩ ∧
      (a.name ∉ Token.keywords → t.kind = .ident a.name ∧
        ∀ (e : Engine H) (b : Bindings), b.contains a.name = true →
          e.compileFor b a.name =
            ⟨a.name, [⟨span, span.slice a.name, .ok [.load t.span a.name]⟩]⟩) ∧
      (a.name ∈ Token.keywords → ∃ value, t.kind.literal? = some value ∧
        ∀ (e : Engine H) (b : Bindings), e.compileFor b a.name =
          ⟨a.name, [⟨span, span.slice a.name, .ok [.push t.span value]⟩]⟩) := by
  obtain ⟨span, t, stop, hsplit, hscan, ht⟩ := (isWord_of_parse h).exists_token
  refine ⟨span, t, stop, hsplit, hscan, fun hname => ?identifier, fun hname => ?keyword⟩
  case identifier =>
    have hkind := ht.trans (Token.Kind.ofWord_of_not_keyword hname)
    refine ⟨hkind, fun e b hb => ?_⟩
    have hparse := Expr.ofTokens_ident e.config.maxHops stop hkind
    refine e.compileFor_single b a.name span _ hsplit hscan hparse ?_
    rw [Program.ofExpr, Scope.variableOr, Scope.of, if_pos hb]
  case keyword =>
    obtain ⟨value, hvalue⟩ := Token.Kind.literal?_of_keyword hname
    rw [← ht] at hvalue
    refine ⟨value, hvalue, fun e b => ?_⟩
    have hparse := Expr.ofTokens_literal e.config.maxHops stop hvalue
    exact e.compileFor_single b a.name span _ hsplit hscan hparse (by rw [Program.ofExpr])

/-- A name with letters beyond ASCII. -/
theorem loads_of_parse_umlaut :
    let a : BindingArg := ⟨"größe", some "string", .string "no"⟩
    parse " größe : string = no" = .ok a ∧
      ∃ span t stop, Statement.split a.name = [span] ∧
        TokenList.scan a.name span = .ok ⟨[t], stop⟩ ∧ t.kind = .ident a.name ∧
        ∀ (e : Engine Cli.host) (b : Bindings), b.contains a.name = true →
          e.compileFor b a.name =
            ⟨a.name, [⟨span, span.slice a.name, .ok [.load t.span a.name]⟩]⟩ := by
  intro a
  have hequals : Text.splitFirst? '=' " größe : string = no".toList =
      some (" größe : string ".toList, " no".toList) := by decide
  have hcolon : Text.splitFirst? ':' " größe : string ".toList =
      some (" größe ".toList, " string ".toList) := by decide
  have hname : isName (Text.trim " größe ".toList) = true := by decide +kernel
  have hdatum : Datum.read " no".toList = .string "no" := by cbv
  have h : parse " größe : string = no" = .ok a := by
    rw [parse, hequals]
    simp only [hcolon, hname, if_true, hdatum]
    rfl
  obtain ⟨span, t, stop, hsplit, hscan, hident, -⟩ := loads_of_parse h
  exact ⟨h, span, t, stop, hsplit, hscan, hident (by decide)⟩

/-- A keyword is bound, and its name alone does not load what is bound to it. -/
theorem not_loads_keyword :
    let a : BindingArg := ⟨"true", none, .string "no"⟩
    let e : Engine Cli.host := ⟨.builtins, .default⟩
    let b : Bindings := .ofList [⟨a.name, .string, .owned (.string "no")⟩]
    parse "true=no" = .ok a ∧ b.contains a.name = true ∧
      TokenList.scan a.name ⟨0, 4⟩ = .ok ⟨[⟨.bool true, ⟨0, 4⟩⟩], 4⟩ ∧
      e.compileFor b a.name = ⟨a.name, [⟨⟨0, 4⟩, a.name, .ok [.push ⟨0, 4⟩ (.bool true)]⟩]⟩ := by
  intro a e b
  have hparse : parse "true=no" = .ok a := by cbv
  have hscan : TokenList.scan a.name ⟨0, 4⟩ = .ok ⟨[⟨.bool true, ⟨0, 4⟩⟩], 4⟩ := by cbv
  have hslice : Span.slice ⟨0, 4⟩ a.name = a.name := by decide +kernel
  have hcompiled := e.compileFor_single b a.name ⟨0, 4⟩ [.push ⟨0, 4⟩ (.bool true)]
    (by decide +kernel) hscan (Expr.ofTokens_literal 100 4 rfl) (by rw [Program.ofExpr])
  rw [hslice] at hcompiled
  exact ⟨hparse, by decide, hscan, hcompiled⟩

end Cli.BindingArg

end Formula
