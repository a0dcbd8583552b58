import Formula.Token.Scan

/-!
What the token at the front of a text is. A token ends where the next character does not carry it on.
-/

namespace Formula

namespace Operator

/-- The characters that operators are spelled with. -/
def chars : List Char := ['+', '-', '*', '/', '%', '=', '!', '>', '<', '&', '|', '~', '^']

theorem mem_chars_of_mem_symbol (op : Operator) {c : Char} (h : c ∈ op.symbol.toList) : c ∈ chars := by
  have hall : op.symbol.toList.all (chars.contains ·) = true := by cases op <;> decide
  simpa using List.all_eq_true.mp hall c h

theorem ofSymbol?_eq_none {cs : List Char} {c : Char} (hc : c ∈ cs) (h : c ∉ chars) :
    ofSymbol? (String.ofList cs) = none := by
  cases ho : ofSymbol? (String.ofList cs) with
  | none => rfl
  | some op =>
      have hs := symbol_eq_of_ofSymbol? ho
      refine absurd (mem_chars_of_mem_symbol op ?_) h
      rwa [hs, String.toList_ofList]

/-- The longest operator in front of a character that operators are not spelled with. -/
theorem longestAt?_append (op : Operator) {c : Char} (h : c ∉ chars) (rest : List Char) :
    longestAt? (op.symbol.toList ++ c :: rest) = some op := by
  have hlength : op.symbol.toList.length = 1 ∨ op.symbol.toList.length = 2 ∨
      op.symbol.toList.length = 3 := by
    cases op <;> decide
  have hshort : ofSymbol? (String.ofList ((op.symbol.toList ++ c :: rest).take
      op.symbol.toList.length)) = some op := by
    rw [List.take_left, String.ofList_toList, ofSymbol?_symbol]
  have hlong (k : Nat) : ofSymbol? (String.ofList ((op.symbol.toList ++ c :: rest).take
      (op.symbol.toList.length + (k + 1)))) = none := by
    refine ofSymbol?_eq_none (c := c) ?_ h
    rw [List.take_length_add_append]
    simp
  rcases hlength with hn | hn | hn
  · rw [hn] at hshort hlong
    simp only [longestAt?, List.findSome?, hlong 1, hlong 0, hshort]
  · rw [hn] at hshort hlong
    simp only [longestAt?, List.findSome?, hlong 0, hshort]
  · rw [hn] at hshort
    simp only [longestAt?, List.findSome?, hshort]

end Operator

namespace Number

theorem splitSign_of_isDigit {c : Char} (hc : c.isDigit = true) (cs : List Char) :
    splitSign (c :: cs) = (false, c :: cs) := by
  rw [splitSign.eq_def]
  split
  · next heq =>
    obtain ⟨rfl, -⟩ := List.cons.inj heq
    exact absurd hc (by decide)
  · next heq =>
    obtain ⟨rfl, -⟩ := List.cons.inj heq
    exact absurd hc (by decide)
  · rfl

/-- The decimal digits of a number read as this number. -/
theorem digits_of_nat (k : Nat) :
    ∃ c cs, (toString k).toList = c :: cs ∧ (∀ d ∈ c :: cs, d.isDigit = true) ∧
      readNat? (c :: cs) = some k := by
  have hrepr : (toString k).toList = Nat.toDigits 10 k := Nat.toList_repr
  obtain ⟨c, cs, hcs⟩ := List.exists_cons_of_ne_nil (Nat.toDigits_ne_nil (n := k) (b := 10))
  have hdigits : ∀ d ∈ c :: cs, d.isDigit = true := fun d hd =>
    Nat.isDigit_of_mem_toDigits (by decide) (by decide) (hcs ▸ hd)
  have hvalue : digitsValue 0 (c :: cs) = k := by
    rw [← hcs]
    exact Nat.ofDigitChars_toDigits (by decide) (by decide)
  refine ⟨c, cs, hrepr.trans hcs, hdigits, ?_⟩
  rw [readNat?, List.all_eq_true.mpr hdigits, hvalue]
  rfl

/-- A negative number is shown with a minus before the digits. -/
theorem toString_of_neg {n : Int} (h : n < 0) :
    (toString n).toList = '-' :: (toString n.natAbs).toList := by
  obtain ⟨k, rfl⟩ := Int.eq_negSucc_of_lt_zero h
  exact String.toList_append

/-- What is shown of an integer is the digits of its magnitude, with a minus if it is negative. -/
theorem digits_of_int (n : Int) :
    ∃ c cs, (toString n).toList = (if n < 0 then '-' :: c :: cs else c :: cs) ∧
      (∀ d ∈ c :: cs, d.isDigit = true) ∧ readNat? (c :: cs) = some n.natAbs := by
  obtain ⟨c, cs, hcs, hdigits, hread⟩ := digits_of_nat n.natAbs
  refine ⟨c, cs, ?_, hdigits, hread⟩
  by_cases h : n < 0
  · rw [if_pos h, toString_of_neg h, hcs]
  · obtain ⟨k, rfl⟩ := Int.eq_ofNat_of_zero_le (Int.not_lt.mp h)
    rw [if_neg h]
    exact hcs

/-- The decimal digits of a number that is not negative read as this number. -/
theorem digits_of_nonneg {n : Int64} (h : 0 ≤ n.toInt) :
    ∃ c cs, (toString n.toInt).toList = c :: cs ∧ (∀ d ∈ c :: cs, d.isDigit = true) ∧
      readInt64? (c :: cs) = some n := by
  obtain ⟨c, cs, hcs, hdigits, hread⟩ := digits_of_int n.toInt
  rw [if_neg (Int.not_lt.mpr h)] at hcs
  refine ⟨c, cs, hcs, hdigits, ?_⟩
  have habs : (n.toInt.natAbs : Int) = n.toInt := Int.natAbs_of_nonneg h
  rw [readInt64?, splitSign_of_isDigit (hdigits c (List.mem_cons_self ..))]
  simp only [hread, Option.bind_some, signed, Bool.false_eq_true, if_false, habs, inInt64_toInt, if_true,
    Int64.ofInt_toInt]

theorem forall_mem_toString (n : Int) : ∀ d ∈ (toString n).toList, d = '-' ∨ d.isDigit = true := by
  obtain ⟨c, cs, hcs, hdigits, -⟩ := digits_of_int n
  intro d hd
  rw [hcs] at hd
  split at hd
  · exact (List.mem_cons.mp hd).imp_right (hdigits d)
  · exact .inr (hdigits d hd)

theorem toString_ne_nil (n : Int) : (toString n).toList ≠ [] := by
  obtain ⟨c, cs, hcs, -⟩ := digits_of_int n
  rw [hcs]
  split <;> exact List.cons_ne_nil _ _

/-- What is shown of an integer reads as this integer. -/
theorem readInt64?_toString (n : Int64) : readInt64? (toString n.toInt).toList = some n := by
  by_cases h : 0 ≤ n.toInt
  · obtain ⟨c, cs, hcs, -, hread⟩ := digits_of_nonneg h
    rw [hcs, hread]
  · obtain ⟨c, cs, hcs, -, hread⟩ := digits_of_int n.toInt
    have habs : -(n.toInt.natAbs : Int) = n.toInt := by omega
    rw [hcs, if_pos (Int.not_le.mp h), readInt64?, splitSign]
    simp only [hread, Option.bind_some, signed, if_true, habs, inInt64_toInt, Int64.ofInt_toInt]

end Number

namespace Token

theorem ofChar?_char (m : Mark) : Mark.ofChar? m.char = some m := by
  cases m <;> decide

theorem not_isNameStart_of_isDigit {c : Char} (h : c.isDigit = true) : Text.isNameStart c = false := by
  have hc : 48 ≤ c.toNat ∧ c.toNat ≤ 57 := by simpa [Char.isDigit, UInt32.le_iff_toNat_le] using h
  have hne : c ≠ '_' := by
    rintro rfl
    simp at hc
  have halpha : c.isAlpha = false := by
    change (decide ('A'.val ≤ c.val ∧ c.val ≤ 'Z'.val) ||
      (decide ('a'.val ≤ c.val) && decide (c.val ≤ 'z'.val))) = false
    simp [UInt32.le_iff_toNat_le]
    omega
  have hlt : c.toNat < 128 := by omega
  simp [Text.isNameStart, Text.isAlphabetic, hlt, halpha, hne]

theorem not_isGap {c : Char} (h : Text.isNameStart c = true ∨ c.isDigit = true) : isGap c = false := by
  rw [Bool.eq_false_iff]
  intro hgap
  simp only [isGap, Bool.or_eq_true, beq_iff_eq] at hgap
  rcases hgap with ((rfl | rfl) | rfl) | rfl <;> exact absurd h (by decide)

/-- A character that operators are spelled with starts no other token. -/
theorem only_operator_of_mem_chars {c : Char} (h : c ∈ Operator.chars) :
    isGap c = false ∧ Text.isNameStart c = false ∧ c.isDigit = false ∧ isQuote c = false ∧
      Mark.ofChar? c = none := by
  have hall : Operator.chars.all (fun c => !isGap c && !Text.isNameStart c && !c.isDigit &&
      !isQuote c && (Mark.ofChar? c).isNone) = true := rfl
  simpa [and_assoc] using List.all_eq_true.mp hall c h

theorem not_isNameStart_of_isQuote {c : Char} (h : isQuote c = true) :
    Text.isNameStart c = false ∧ c.isDigit = false := by
  simp only [isQuote, Bool.or_eq_true, beq_iff_eq] at h
  rcases h with rfl | rfl <;> decide

theorem takeWhile_quoted {q : Char} {body : List Char} (hbody : q ∉ body) (rest : List Char) :
    (body ++ q :: rest).takeWhile (· != q) = body := by
  rw [List.takeWhile_append_of_pos]
  · simp
  · intro c hc
    rw [bne_iff_ne]
    rintro rfl
    exact hbody hc

/-- What kind of token the text `c :: a` is in front of `rest`. -/
inductive Spells (c : Char) (a rest : List Char) : Kind → Prop
  | word (hc : Text.isNameStart c = true)
      (hrun : (c :: a ++ rest).takeWhile Text.isNameChar = c :: a) :
      Spells c a rest (.ofWord (String.ofList (c :: a)))
  | number {k : Kind} (hc : c.isDigit = true) (hrun : numberRun (c :: a ++ rest) = c :: a)
      (hk : Kind.ofNumber (c :: a) = .ok k) : Spells c a rest k
  | string {body : List Char} (hc : isQuote c = true) (ha : a = body ++ [c]) (hbody : c ∉ body) :
      Spells c a rest (.string (String.ofList body))
  | mark {m : Mark} (hc : m.char = c) (ha : a = []) : Spells c a rest (.mark m)
  | operator {o : Operator} (hsymbol : o.symbol.toList = c :: a)
      (hlongest : Operator.longestAt? (c :: a ++ rest) = some o) : Spells c a rest (.op o)

theorem lexeme_of_spells {c : Char} {a rest : List Char} {k : Kind} (h : Spells c a rest k) :
    lexeme c (a ++ rest) = ⟨.ok k, (c :: a).length⟩ := by
  cases h with
  | word hc hrun =>
      rw [lexeme, if_pos hc]
      simp only [← List.cons_append, hrun]
  | number hc hrun hk =>
      rw [lexeme, if_neg (by simp [not_isNameStart_of_isDigit hc]), if_pos hc]
      simp only [← List.cons_append, hrun, hk]
  | string hc ha hbody =>
      obtain ⟨hname, hdigit⟩ := not_isNameStart_of_isQuote hc
      simp [lexeme, hname, hdigit, hc, ha, takeWhile_quoted hbody rest]
  | @mark m hc ha =>
      subst hc ha
      have hname : Text.isNameStart m.char = false := by cases m <;> decide
      have hdigit : m.char.isDigit = false := by cases m <;> decide
      have hquote : isQuote m.char = false := by cases m <;> decide
      simp [lexeme, hname, hdigit, hquote, ofChar?_char]
  | @operator o hsymbol hlongest =>
      obtain ⟨-, hname, hdigit, hquote, hmark⟩ :=
        only_operator_of_mem_chars (Operator.mem_chars_of_mem_symbol o (c := c) (by simp [hsymbol]))
      have hlength : o.symbol.length = (c :: a).length := by rw [← String.length_toList, hsymbol]
      rw [lexeme, if_neg (by simp [hname]), if_neg (by simp [hdigit]), if_neg (by simp [hquote])]
      simp only [hmark, ← List.cons_append, hlongest, hlength]

/-- From any offset on, the text makes up tokens of these kinds. -/
def Scans (cs : List Char) (ks : List Kind) : Prop :=
  ∀ pos, ∃ ts, scanFrom pos cs = .ok ts ∧ ts.map (·.kind) = ks

namespace Scans

variable {cs rest : List Char} {ks : List Kind}

theorem nil : Scans [] [] := fun pos => ⟨[], by rw [scanFrom], rfl⟩

theorem gap {c : Char} (hc : isGap c = true) (h : Scans cs ks) : Scans (c :: cs) ks := by
  intro pos
  obtain ⟨ts, hts, hks⟩ := h (pos + c.utf8Size)
  refine ⟨ts, ?_, hks⟩
  rw [scanFrom, if_pos hc, hts]

theorem lexeme {c : Char} {k : Kind} (hc : isGap c = false)
    (hk : lexeme c (cs ++ rest) = ⟨.ok k, (c :: cs).length⟩) (h : Scans rest ks) :
    Scans (c :: cs ++ rest) (k :: ks) := by
  intro pos
  obtain ⟨ts, hts, hks⟩ := h (pos + Text.bytes (c :: cs))
  refine ⟨⟨k, ⟨pos, pos + Text.bytes (c :: cs)⟩⟩ :: ts, ?_, by rw [List.map_cons, hks]⟩
  rw [List.cons_append, scanFrom, if_neg (by simp [hc])]
  simp only [hk, ← List.cons_append, List.take_left, List.drop_left, hts]

theorem mark (m : Mark) (h : Scans rest ks) : Scans (m.char :: rest) (.mark m :: ks) := by
  have hgap : isGap m.char = false := by cases m <;> decide
  have hlex : Token.lexeme m.char ([] ++ rest) = ⟨.ok (.mark m), [m.char].length⟩ :=
    lexeme_of_spells (.mark rfl rfl)
  exact lexeme hgap hlex h

theorem operator (op : Operator) {c : Char} (hc : c ∉ Operator.chars) (h : Scans (c :: rest) ks) :
    Scans (op.symbol.toList ++ c :: rest) (.op op :: ks) := by
  have hlongest := Operator.longestAt?_append op hc rest
  cases hs : op.symbol.toList with
  | nil =>
      have := symbol_length_pos op
      simp [← String.length_toList, hs] at this
  | cons o os =>
      obtain ⟨hgap, -⟩ :=
        only_operator_of_mem_chars (Operator.mem_chars_of_mem_symbol op (c := o) (by simp [hs]))
      rw [hs] at hlongest
      exact lexeme hgap (lexeme_of_spells (.operator hs hlongest)) h

/-- A word ends in front of a character that no name goes on with. -/
theorem word {c : Char} (hc : Text.isNameStart c = true) (hcs : ∀ d ∈ cs, Text.isNameChar d = true)
    (hrest : rest.takeWhile Text.isNameChar = []) (h : Scans rest ks) :
    Scans (c :: cs ++ rest) (.ofWord (String.ofList (c :: cs)) :: ks) := by
  have hword : (c :: cs ++ rest).takeWhile Text.isNameChar = c :: cs := by
    rw [List.takeWhile_append_of_pos, hrest, List.append_nil]
    exact List.forall_mem_cons.mpr ⟨Text.isNameChar_of_isNameStart hc, hcs⟩
  exact lexeme (not_isGap (.inl hc)) (lexeme_of_spells (.word hc hword)) h

theorem numberRun_append {cs : List Char} (h : ∀ d ∈ cs, d.isDigit = true) (rest : List Char) :
    numberRun (cs ++ rest) = cs ++ numberRun rest := by
  induction cs with
  | nil => rfl
  | cons c cs ih =>
      obtain ⟨hc, hcs⟩ := List.forall_mem_cons.mp h
      simp [numberRun, hc, ih hcs]

theorem number {c : Char} {n : Int64} (hcs : ∀ d ∈ c :: cs, d.isDigit = true)
    (hn : Number.readInt64? (c :: cs) = some n) (hrest : numberRun rest = []) (h : Scans rest ks) :
    Scans (c :: cs ++ rest) (.int n :: ks) := by
  have hc : c.isDigit = true := hcs c (List.mem_cons_self ..)
  have hrun : numberRun (c :: cs ++ rest) = c :: cs := by
    rw [numberRun_append hcs, hrest, List.append_nil]
  have hpoint : (c :: cs).count '.' = 0 :=
    List.count_eq_zero.mpr fun hmem => absurd (hcs _ hmem) (by decide)
  have hkind : Kind.ofNumber (c :: cs) = .ok (.int n) := by simp only [Kind.ofNumber, hpoint, hn]
  exact lexeme (not_isGap (.inr hc)) (lexeme_of_spells (.number hc hrun hkind)) h

theorem string {s : String} (hs : '"' ∉ s.toList) (h : Scans rest ks) :
    Scans ('"' :: (s.toList ++ '"' :: rest)) (.string s :: ks) := by
  have hspells : Spells '"' (s.toList ++ ['"']) rest (.string (String.ofList s.toList)) :=
    .string (by decide) rfl hs
  simpa using lexeme (by decide) (lexeme_of_spells hspells) h

end Scans

end Token

end Formula
