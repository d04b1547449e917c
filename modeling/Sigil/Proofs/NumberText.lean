import Sigil.Proofs.FormatTemplate
import Sigil.Proofs.IntegerOperands
import Sigil.Proofs.Numeral
import Sigil.Proofs.TemplatePieces

/-!
# Numbers as text

A value that coerces to an integer coerces to the same integer after it was turned into text, with
any blanks around it. Such a text is no expression, so it stands for itself wherever it is an
operand, and numbers can pass through text: as operands inside of a text, through templates, and as
texts that an operator gets for its operands (`toInt_writtenAs`).
-/

namespace Sigil

/-! ## Blanks at the ends -/

namespace Text

variable {before after : List Char}

theorem trim_blanks (hbefore : ∀ c ∈ before, isBlank c = true)
    (hafter : ∀ c ∈ after, isBlank c = true) (cs : List Char) :
    trim (before ++ (cs ++ after)) = trim cs := by
  have hreverse : ∀ c ∈ after.reverse, isBlank c = true := fun c hc =>
    hafter c (List.mem_reverse.1 hc)
  rw [trim, trim, List.dropWhile_append_of_pos hbefore, List.dropWhile_append]
  split
  · rename_i hempty
    have hnone : after.dropWhile isBlank = [] := List.dropWhile_eq_nil_iff.2 hafter
    rw [List.isEmpty_iff.1 hempty, hnone]
  · rw [List.reverse_append, List.dropWhile_append_of_pos hreverse]

/-- Trimming takes blanks away and nothing else. -/
theorem exists_eq_blanks (cs : List Char) : ∃ before after : List Char,
    (∀ c ∈ before, isBlank c = true) ∧ (∀ c ∈ after, isBlank c = true) ∧
      cs = before ++ (trim cs ++ after) := by
  refine ⟨cs.takeWhile isBlank, ((cs.dropWhile isBlank).reverse.takeWhile isBlank).reverse,
    fun c hc => List.mem_takeWhile_imp hc,
    fun c hc => List.mem_takeWhile_imp (List.mem_reverse.1 hc), ?_⟩
  rw [trim, ← List.reverse_append, List.takeWhile_append_dropWhile, List.reverse_reverse,
    List.takeWhile_append_dropWhile]

/-- A character between two spaces is a word of its own. -/
theorem eq_singleton_of_spaces {word left right : List Char} {c : Char}
    (hbefore : ∀ d ∈ before, isBlank d = true) (hafter : ∀ d ∈ after, isBlank d = true)
    (hword : ∀ d ∈ word, isBlank d = false) (hc : isBlank c = false)
    (heq : before ++ (word ++ after) = left ++ [' '] ++ (c :: ' ' :: right)) : word = [c] := by
  have hspace : ' ' ∉ word := by
    intro hmem
    cases hword ' ' hmem
  have hnot {cs : List Char} (hcs : ∀ d ∈ cs, isBlank d = true) : c ∉ cs := by
    intro hmem
    rw [hcs c hmem] at hc
    cases hc
  -- The space in front of the character is the last of the blanks before the word.
  have hrest : c :: ' ' :: right = word ++ after := by
    rcases List.append_eq_append_iff.1 heq with ⟨inner, hinner, hrest⟩ | ⟨inner, rfl, hrest⟩
    · rcases List.eq_nil_or_concat inner with rfl | ⟨inner, d, rfl⟩
      · exact hrest.symm
      · obtain rfl : ' ' = d := by simpa using congrArg List.getLast? hinner
        rcases List.append_eq_append_iff.1 hrest with ⟨more, -, rfl⟩ | ⟨more, rfl, -⟩
        · exact absurd (by simp) (hnot hafter)
        · simp at hspace
    · cases inner with
      | nil => exact hrest
      | cons d inner =>
        obtain ⟨rfl, -⟩ := List.cons.inj hrest
        exact absurd (by simp) (hnot hbefore)
  cases word with
  | nil =>
    rw [List.nil_append] at hrest
    exact absurd (hrest ▸ List.mem_cons_self) (hnot hafter)
  | cons d word =>
    obtain ⟨rfl, htail⟩ := List.cons.inj hrest
    cases word with
    | nil => rfl
    | cons e word =>
      obtain rfl : ' ' = e := (List.cons.inj htail).1
      simp at hspace

end Text

/-! ## The characters of numerals -/

namespace Number

/-- The characters of decimals. -/
def isDecimalChar (c : Char) : Bool := isNumeralChar c || c = 'E'

theorem isDecimalChar_of_isDigit {c : Char} (hc : c.isDigit = true) : isDecimalChar c = true := by
  simp [isDecimalChar, isNumeralChar, hc]

theorem isBlank_of_isDecimalChar {c : Char} (hc : isDecimalChar c = true) :
    Text.isBlank c = false := by
  simp only [isDecimalChar, isNumeralChar, Bool.or_eq_true, decide_eq_true_eq] at hc
  rcases hc with ((((hdigit | rfl) | rfl) | rfl) | rfl) | rfl
  · exact Json.isBlank_of_isDigit hdigit
  all_goals decide

/-- The text has the characters of a decimal, with a digit among them. -/
structure Figures (cs : List Char) : Prop where
  chars : ∀ c ∈ cs, isDecimalChar c = true
  digit : ∃ c ∈ cs, c.isDigit = true

namespace Figures

variable {cs : List Char}

theorem cons (hcs : Figures cs) {c : Char} (hc : isDecimalChar c = true) : Figures (c :: cs) := by
  obtain ⟨d, hd, hdigit⟩ := hcs.digit
  exact ⟨List.forall_mem_cons.2 ⟨hc, hcs.chars⟩, d, List.mem_cons_of_mem c hd, hdigit⟩

theorem of_splitSign (hcs : Figures (splitSign cs).2) : Figures cs := by
  unfold splitSign at hcs
  split at hcs
  · exact hcs.cons (by decide)
  · exact hcs.cons (by decide)
  · exact hcs

theorem of_readNat? {n : Nat} (hn : readNat? cs = some n) : Figures cs := by
  unfold readNat? at hn
  split at hn
  · cases hn
  · rename_i hdigits
    simp only [Bool.or_eq_true, not_or, List.isEmpty_iff, List.any_eq_true, Bool.not_eq_true',
      not_exists, not_and, Bool.not_eq_false] at hdigits
    obtain ⟨hne, hall⟩ := hdigits
    obtain ⟨c, hc⟩ := List.exists_mem_of_ne_nil cs hne
    exact ⟨fun d hd => isDecimalChar_of_isDigit (hall d hd), c, hc, hall c hc⟩

theorem of_readInt? {n : Int} (hn : readInt? cs = some n) : Figures cs := by
  obtain ⟨m, hm, -⟩ := Option.map_eq_some_iff.1 hn
  obtain ⟨k, hk, -⟩ := Option.bind_eq_some_iff.1 hm
  exact of_splitSign (of_readNat? hk)

/-- Digits before and after a point, of which there are some, and what follows them. -/
theorem of_parts {whole tail : List Char} (point fraction : List Char)
    (hwhole : ∀ c ∈ whole, c.isDigit = true) (hpoint : ∀ c ∈ point, isDecimalChar c = true)
    (hfraction : ∀ c ∈ fraction, c.isDigit = true) (htail : ∀ c ∈ tail, isDecimalChar c = true)
    (hne : ¬(whole.isEmpty && fraction.isEmpty) = true) :
    Figures (whole ++ (point ++ (fraction ++ tail))) := by
  constructor
  · intro c hc
    simp only [List.mem_append] at hc
    rcases hc with hc | hc | hc | hc
    · exact isDecimalChar_of_isDigit (hwhole c hc)
    · exact hpoint c hc
    · exact isDecimalChar_of_isDigit (hfraction c hc)
    · exact htail c hc
  · have hsome : whole ≠ [] ∨ fraction ≠ [] := by
      simpa [List.isEmpty_iff, imp_iff_not_or] using hne
    rcases hsome with hsome | hsome <;> obtain ⟨c, hc⟩ := List.exists_mem_of_ne_nil _ hsome
    · exact ⟨c, by simp [hc], hwhole c hc⟩
    · exact ⟨c, by simp [hc], hfraction c hc⟩

end Figures

theorem isDecimalChar_of_readExponent? {cs : List Char} {e : Int}
    (he : Decimal.readExponent? cs = some e) : ∀ c ∈ cs, isDecimalChar c = true := by
  cases cs with
  | nil => simp
  | cons c cs =>
    simp only [Decimal.readExponent?] at he
    split at he
    · rename_i hc
      refine List.forall_mem_cons.2 ⟨?_, (Figures.of_readInt? he).chars⟩
      rcases hc with rfl | rfl <;> decide
    · cases he

theorem Figures.of_read? {cs : List Char} {d : Decimal} (hd : Decimal.read? cs = some d) :
    Figures cs := by
  simp only [Decimal.read?, List.span_eq_takeWhile_dropWhile] at hd
  apply of_splitSign
  generalize (splitSign cs).2 = cs at hd
  have hdigits (cs : List Char) : ∀ c ∈ cs.takeWhile Char.isDigit, c.isDigit = true :=
    fun c hc => List.mem_takeWhile_imp hc
  rw [← List.takeWhile_append_dropWhile (p := Char.isDigit) (l := cs)]
  generalize cs.dropWhile Char.isDigit = rest at hd
  split at hd
  · rename_i rest
    have hpoint : ∀ c ∈ ['.'], isDecimalChar c = true := List.forall_mem_singleton.2 (by decide)
    obtain ⟨hne, hd⟩ := Option.ite_none_left_eq_some.1 hd
    obtain ⟨e, he, -⟩ := Option.map_eq_some_iff.1 hd
    rw [← List.takeWhile_append_dropWhile (p := Char.isDigit) (l := rest)]
    exact of_parts ['.'] _ (hdigits cs) hpoint (hdigits rest)
      (isDecimalChar_of_readExponent? he) hne
  · obtain ⟨hne, hd⟩ := Option.ite_none_left_eq_some.1 hd
    obtain ⟨e, he, -⟩ := Option.map_eq_some_iff.1 hd
    exact of_parts [] [] (hdigits cs) (by simp) (by simp) (isDecimalChar_of_readExponent? he) hne

end Number

/-! ## Coercion of text -/

namespace Value

variable {h : Heap} {v : Value} {n : Int64} {text : String}

/-- The text is that of the value, between blanks. -/
def WrittenAs (h : Heap) (v : Value) (text : String) : Prop :=
  ∃ before after : List Char, (∀ c ∈ before, Text.isBlank c = true) ∧
    (∀ c ∈ after, Text.isBlank c = true) ∧ text.toList = before ++ ((v.toText h).toList ++ after)

theorem toInt_string_eq_ok : (Value.string text).toInt h = .ok n ↔ intOfText? text = some n := by
  rw [toInt]
  cases intOfText? text <;> simp

/-- Numerals of integers are read as integers, and not as doubles. -/
theorem intOfText?_toText (hv : v.toInt h = .ok n) : intOfText? (v.toText h) = some n := by
  cases v with
  | int m =>
    obtain rfl : m = n := Except.ok.inj hv
    exact intOfText?_intText m
  | float x =>
    rw [toInt] at hv
    split at hv
    · rename_i hfinite
      obtain rfl := Except.ok.inj hv
      rw [toText, if_pos hfinite]
      exact intOfText?_intText _
    · cases hv
  | string s => exact toInt_string_eq_ok.1 hv
  | _ => cases hv

theorem WrittenAs.intOfText?_eq (htext : v.WrittenAs h text) :
    intOfText? text = intOfText? (v.toText h) := by
  obtain ⟨before, after, hbefore, hafter, heq⟩ := htext
  rw [intOfText?, intOfText?, heq, Text.trim_blanks hbefore hafter]

theorem toText_int (h : Heap) (n : Int64) : toText h (.int n) = toString n.toInt := by
  rw [toText, Json.intText]
  cases n.toInt with
  | ofNat m =>
    have hnonneg : ¬ Int.ofNat m < 0 := Int.not_lt.2 (Int.natCast_nonneg m)
    rw [if_neg hnonneg]
    rfl
  | negSucc m =>
    rw [if_pos (Int.negSucc_lt_zero m), String.ofList_cons]
    rfl

theorem figures_of_intOfText? (hn : intOfText? text = some n) :
    Number.Figures (Text.trim text.toList) := by
  rw [intOfText?] at hn
  cases hint : Number.readInt64? (Text.trim text.toList) with
  | some m =>
    obtain ⟨k, hk, -⟩ := Option.bind_eq_some_iff.1 hint
    exact .of_readInt? hk
  | none =>
    rw [hint] at hn
    obtain ⟨x, hx, -⟩ := Option.map_eq_some_iff.1 hn
    obtain ⟨d, hd, -⟩ := Option.bind_eq_some_iff.1 hx
    exact .of_read? hd

/-- A text that coerces to an integer has blanks and the characters of decimals only. -/
theorem not_mem_of_intOfText? (hn : intOfText? text = some n) {c : Char}
    (hblank : Text.isBlank c = false) (hdecimal : Number.isDecimalChar c = false) :
    c ∉ text.toList := by
  obtain ⟨before, after, hbefore, hafter, heq⟩ := Text.exists_eq_blanks text.toList
  have hchars := (figures_of_intOfText? hn).chars
  rw [heq]
  simp only [List.mem_append, not_or]
  refine ⟨fun hc => ?_, fun hc => ?_, fun hc => ?_⟩
  · simp [hbefore c hc] at hblank
  · simp [hchars c hc] at hdecimal
  · simp [hafter c hc] at hblank

end Value

/-! ## Numerals as operands -/

namespace Shorthand

variable {text : String} {n : Int64}

/-- A numeral is no arithmetic: a sign with spaces on both sides is no numeral. -/
theorem arithmetic?_of_intOfText? (hn : Value.intOfText? text = some n) :
    arithmetic? text.toList = none := by
  refine Option.eq_none_iff_forall_ne_some.2 fun b hb => ?_
  obtain ⟨m, k, hcomputes⟩ := computes_of_arithmetic? hb
  obtain ⟨m, rfl⟩ := Nat.exists_eq_add_one_of_ne_zero (Nat.ne_of_gt hcomputes.before_pos)
  obtain ⟨k, rfl⟩ := Nat.exists_eq_add_one_of_ne_zero (Nat.ne_of_gt hcomputes.after_pos)
  have hfigures := Value.figures_of_intOfText? hn
  obtain ⟨before, after, hbefore, hafter, heq⟩ := Text.exists_eq_blanks text.toList
  have hspaces : before ++ (Text.trim text.toList ++ after) =
      (b.left ++ List.replicate m ' ') ++ [' '] ++
        (b.op.symbol :: ' ' :: (List.replicate k ' ' ++ b.right)) := by
    rw [← heq, hcomputes.text_eq, List.replicate_succ', List.replicate_succ]
    simp
  have hsymbol : Text.isBlank b.op.symbol = false := by cases b.op <;> decide
  have hword := Text.eq_singleton_of_spaces hbefore hafter
    (fun c hc => Number.isBlank_of_isDecimalChar (hfigures.chars c hc)) hsymbol hspaces
  obtain ⟨c, hc, hdigit⟩ := hfigures.digit
  rw [hword, List.mem_singleton] at hc
  subst hc
  revert hdigit
  cases b.op <;> decide

end Shorthand

namespace Registry

variable {reg : Registry} {text left right : String} {a b n : Int64}

/-- A text that coerces to an integer stands for itself, unless the host bound a value to it. -/
theorem isNumeral_string (hn : Value.intOfText? text = some n)
    (hunbound : reg.values.get? text = none) : reg.IsNumeral (.string text) n where
  plain := by
    refine .string ⟨?_, ?_, Shorthand.arithmetic?_of_intOfText? hn, hunbound⟩
    · intro hhead
      exact Value.not_mem_of_intOfText? hn (by decide) (by decide) (List.mem_of_head? hhead)
    · exact Shorthand.comparison?_eq_none (Value.not_mem_of_intOfText? hn (by decide) (by decide))
        (Value.not_mem_of_intOfText? hn (by decide) (by decide))
  scalar := rfl
  toInt_eq _ := Value.toInt_string_eq_ok.2 hn

/-- An operation on integers gets them from numerals. -/
theorem IsNumeral.run_texts {depth : Nat} {env : MapRef} {run : Operand → Operand → EvalM Value}
    {result : Int64 → Int64 → Except EvalError Value}
    (hrun : (reg.scope (·.evaluate (depth + 1)) env).TakesInts run result)
    (hleft : reg.IsNumeral (.string left) a) (hright : reg.IsNumeral (.string right) b)
    (s : State) :
    run (.ofText left.toList) (.ofText right.toList) s = .ended ⟨result a b, s⟩ := by
  rw [Operand.ofText, Operand.ofText, String.ofList_toList, String.ofList_toList]
  exact hrun.of_ints (hleft.eval_eq depth.succ_pos env s) (hright.eval_eq depth.succ_pos env s)
    (hleft.toInt_eq s.heap) (hright.toInt_eq s.heap)

section Inline

variable (hreg : reg.HasBuiltin) (hleft : Value.intOfText? left = some a)
  (hright : Value.intOfText? right = some b) (hunboundLeft : reg.values.get? left = none)
  (hunboundRight : reg.values.get? right = none) (depth : Nat) (env : MapRef) (s : State)

include hreg hleft hright hunboundLeft hunboundRight

theorem evaluate_arithmetic_text {op : Arith}
    (hread : Shorthand.arithmetic? text.toList = some ⟨op, left.toList, right.toList⟩) :
    reg.evaluate (depth + 2) env (.string text) s = .ended ⟨op.result a b, s⟩ := by
  have hnone : Shorthand.comparison? text.toList = none := by
    obtain ⟨m, k, hcomputes⟩ := Shorthand.computes_of_arithmetic? hread
    have hnot {c : Char} (hblank : Text.isBlank c = false)
        (hdecimal : Number.isDecimalChar c = false) (hop : (Arith.ofChar? c).isNone = true) :
        c ∉ text.toList := by
      have hspace : c ≠ ' ' := by
        rintro rfl
        cases hblank
      have hsymbol : c ≠ op.symbol := by
        rintro rfl
        rw [Arith.ofChar?_symbol] at hop
        cases hop
      simp [hcomputes.text_eq, Value.not_mem_of_intOfText? hleft hblank hdecimal,
        Value.not_mem_of_intOfText? hright hblank hdecimal, hspace, hsymbol]
    exact Shorthand.comparison?_eq_none (hnot (by decide) (by decide) (by decide))
      (hnot (by decide) (by decide) (by decide))
  rw [evaluate, step, evalText_of_arithmetic? hreg _ env hnone hread]
  exact IsNumeral.run_texts (Scope.takesInts_run _ op) (isNumeral_string hleft hunboundLeft)
    (isNumeral_string hright hunboundRight) s

theorem evaluate_comparison_text {r : Relation}
    (hread : Shorthand.comparison? text.toList = some ⟨r, left.toList, right.toList⟩) :
    reg.evaluate (depth + 2) env (.string text) s =
      .ended ⟨.ok (.bool (r.test a.toInt b.toInt)), s⟩ := by
  rw [evaluate, step, evalText_of_comparison? hreg _ env hread]
  exact IsNumeral.run_texts (Scope.takesInts_compare _ r) (isNumeral_string hleft hunboundLeft)
    (isNumeral_string hright hunboundRight) s

end Inline

end Registry

/-! ## Numerals through templates -/

namespace Operators

/-- No mark begins with a blank. -/
theorem Unmarked.of_blanks {text : List Char} (htext : ∀ c ∈ text, Text.isBlank c = true)
    (rest : List Char) : Unmarked text rest := by
  intro n hn hmark
  obtain ⟨rest', heq⟩ := mark_prefix_iff.1 hmark
  rw [List.drop_append_of_le_length hn.le, List.drop_eq_getElem_cons hn] at heq
  have hpercent : text[n] = '%' := (List.cons.inj heq).1
  have hblank := htext _ (List.getElem_mem hn)
  rw [hpercent] at hblank
  cases hblank

/-- A template with blanks around its mark. -/
theorem writtenAs_formatTemplate {before after : List Char}
    (hbefore : ∀ c ∈ before, Text.isBlank c = true) (hafter : ∀ c ∈ after, Text.isBlank c = true)
    (h : Heap) (v : Value) (vs : List Value) :
    v.WrittenAs h
      (formatTemplate h (String.ofList (before ++ '%' :: 's' :: after)) (v :: vs)) := by
  refine ⟨before, after, hbefore, hafter, ?_⟩
  rw [formatTemplate, String.toList_ofList, String.toList_ofList,
    fill_unmarked (.of_blanks hbefore _), List.map_cons, fill,
    fill_of_unmarked (.of_blanks hafter [])]

end Operators

theorem Value.WrittenAs.toInt_eq {h : Heap} {v : Value} {n : Int64} {text : String}
    (htext : v.WrittenAs h text) (hv : v.toInt h = .ok n) (h' : Heap) :
    (Value.string text).toInt h' = .ok n := by
  rw [toInt_string_eq_ok, htext.intOfText?_eq]
  exact intOfText?_toText hv

theorem Value.Ints.of_texts {h : Heap} {vs : List Value} {ns : List Int64} {texts : List String}
    (hints : Ints h vs ns) (htexts : List.Forall₂ (WrittenAs h) vs texts) (h' : Heap) :
    Ints h' (texts.map .string) ns := by
  induction htexts generalizing ns with
  | nil =>
    cases hints
    exact .nil
  | cons htext _ ih =>
    cases hints with
    | cons hv hints => exact .cons (htext.toInt_eq hv h') (ih hints)

theorem Registry.evaluate_format_blanks {reg : Registry} (hreg : reg.HasBuiltin) {depth : Nat}
    {env : MapRef} {s t : State} {forms : List Json} {v : Value} {vs : List Value}
    {before after : List Char} (hbefore : ∀ c ∈ before, Text.isBlank c = true)
    (hafter : ∀ c ∈ after, Text.isBlank c = true)
    (hforms : (reg.scope (·.evaluate depth) env).evalAll (forms.map .ofForm) s =
      .ended ⟨.ok (v :: vs), t⟩) :
    ∃ text, reg.evaluate (depth + 1) env
        (formatForm (String.ofList (before ++ '%' :: 's' :: after)) forms) s =
          .ended ⟨.ok (.string text), t⟩ ∧ v.WrittenAs t.heap text := by
  have hnormal : normalizePath (before ++ '%' :: 's' :: after) = before ++ '%' :: 's' :: after := by
    refine normalizePath_eq_self fun c rest heq => ?_
    cases before with
    | nil => cases heq
    | cons d before =>
      obtain ⟨rfl, -⟩ := List.cons.inj heq
      cases hbefore sigil List.mem_cons_self
  refine ⟨_, ?_, Operators.writtenAs_formatTemplate hbefore hafter t.heap v vs⟩
  rw [evaluate_formatForm hreg hforms, String.toList_ofList, hnormal]

/-- A value that coerces to an integer coerces to the same integer when it is text, with any blanks
around it; so does every integer of 64 bits in decimal. Numbers thus pass through text: as operands
of arithmetic or a comparison inside of a text, unless the host bound a value to the numeral;
through a template; and as texts that the operands of an operation evaluate to, from wherever they
come. -/
theorem toInt_writtenAs (h : Heap) :
    (∀ (v : Value) (n : Int64) (text : String), v.toInt h = .ok n → v.WrittenAs h text →
      ∀ h', (Value.string text).toInt h' = .ok n) ∧
    (∀ n : Int64, (Value.int n).toText h = toString n.toInt ∧
      ∀ h', (Value.string (toString n.toInt)).toInt h' = .ok n) ∧
    ∀ reg : Registry, reg.HasBuiltin →
      (∀ (v w : Value) (m n : Int64) (left right : String), v.toInt h = .ok m → w.toInt h = .ok n →
        v.WrittenAs h left → w.WrittenAs h right →
        reg.values.get? left = none → reg.values.get? right = none →
        ∀ (text : String) (depth : Nat) (env : MapRef) (s : State),
          (∀ op, Shorthand.arithmetic? text.toList = some ⟨op, left.toList, right.toList⟩ →
            reg.evaluate (depth + 2) env (.string text) s = .ended ⟨op.result m n, s⟩) ∧
          ∀ r, Shorthand.comparison? text.toList = some ⟨r, left.toList, right.toList⟩ →
            reg.evaluate (depth + 2) env (.string text) s =
              .ended ⟨.ok (.bool (r.test m.toInt n.toInt)), s⟩) ∧
      (∀ depth env s t forms v vs n before after,
        (reg.scope (·.evaluate depth) env).evalAll (forms.map .ofForm) s =
          .ended ⟨.ok (v :: vs), t⟩ → v.toInt t.heap = .ok n →
        (∀ c ∈ before, Text.isBlank c = true) → (∀ c ∈ after, Text.isBlank c = true) →
        ∃ text, reg.evaluate (depth + 1) env
            (formatForm (String.ofList (before ++ '%' :: 's' :: after)) forms) s =
              .ended ⟨.ok (.string text), t⟩ ∧
          ∀ h', (Value.string text).toInt h' = .ok n) ∧
      ∀ op key depth env operand s t vs ns texts, key ∈ Arith.names op → Value.Ints h vs ns →
        List.Forall₂ (Value.WrittenAs h) vs texts → op.least ≤ ns.length →
        (reg.scope (·.evaluate depth) env).Evaluates (Registry.operandsOf operand) s
          (texts.map .string) t →
        reg.evaluate (depth + 1) env (.object [(key, operand)]) s = .ended ⟨op.outcome ns, t⟩ := by
  refine ⟨?_, ?_, fun reg hreg => ⟨?_, ?_, ?_⟩⟩
  · intro v n text hv htext
    exact htext.toInt_eq hv
  · intro n
    refine ⟨Value.toText_int h n, fun h' => ?_⟩
    rw [← Value.toText_int h n, Value.toInt_string_eq_ok]
    exact Value.intOfText?_toText rfl
  · intro v w m n left right hv hw hleft hright hunboundLeft hunboundRight text depth env s
    have hm := Value.toInt_string_eq_ok.1 (hleft.toInt_eq hv h)
    have hn := Value.toInt_string_eq_ok.1 (hright.toInt_eq hw h)
    constructor
    · intro op
      exact Registry.evaluate_arithmetic_text hreg hm hn hunboundLeft hunboundRight depth env s
    · intro r
      exact Registry.evaluate_comparison_text hreg hm hn hunboundLeft hunboundRight depth env s
  · intro depth env s t forms v vs n before after hforms hv hbefore hafter
    obtain ⟨text, hformat, htext⟩ := Registry.evaluate_format_blanks hreg hbefore hafter hforms
    exact ⟨text, hformat, htext.toInt_eq hv⟩
  · intro op key depth env operand s t vs ns texts hkey hints htexts hlength hargs
    exact Registry.evaluate_arith_of_ints hreg hkey hargs (hints.of_texts htexts t.heap) hlength

namespace Passing

/-- An environment with the least integer as text. -/
def start : State := { heap := { maps := #[.ofList [("n", .string "\t-9223372036854775808 ")]] } }

/-- A field, a template and a text. -/
def operand : Json :=
  .array [.string "$.n", formatForm " %s" [.int 5], .string "7 "]

theorem writtenAs_least :
    (Value.int Int64.minValue).WrittenAs {} "\t-9223372036854775808 " :=
  ⟨['\t'], [' '], by simp [Text.isBlank], by simp [Text.isBlank], by decide⟩

theorem evaluates_operand :
    (Registry.builtin.scope (·.evaluate 4) ⟨0⟩).Evaluates
      (Registry.operandsOf operand) start
      (["\t-9223372036854775808 ", " 5", "7 "].map .string) start :=
  .cons rfl (.cons rfl (.cons rfl .nil))

theorem toInt_writtenAs_least :
    (Value.string "\t-9223372036854775808 ").toInt {} = .ok Int64.minValue ∧
    (Value.string "2\t").toInt {} = .ok 2 ∧
    Registry.builtin.evaluate 2 ⟨0⟩ (.string "-9223372036854775808 - 2\t") start =
      .ended ⟨.ok (.int 9223372036854775806), start⟩ ∧
    Registry.builtin.evaluate 2 ⟨0⟩ (.string "-9223372036854775808<2\t") start =
      .ended ⟨.ok (.bool true), start⟩ ∧
    (∃ text, Registry.builtin.evaluate 2 ⟨0⟩
        (formatForm "\n%s" [.int (-9223372036854775808)]) start =
          .ended ⟨.ok (.string text), start⟩ ∧
      ∀ h', (Value.string text).toInt h' = .ok Int64.minValue) ∧
    Registry.builtin.evaluate 5 ⟨0⟩ (.object [("+", operand)]) start =
      .ended ⟨.ok (.int (-9223372036854775796)), start⟩ := by
  have htwo : (Value.float 2.5).toInt {} = .ok 2 := rfl
  have htwoText : (Value.float 2.5).WrittenAs {} "2\t" :=
    ⟨[], ['\t'], by simp, by simp [Text.isBlank], by decide⟩
  have hleast : (Value.int Int64.minValue).WrittenAs {} "-9223372036854775808" :=
    ⟨[], [], by simp, by simp, by decide⟩
  have hfive : (Value.int 5).WrittenAs {} " 5" :=
    ⟨[' '], [], by simp [Text.isBlank], by simp, by decide⟩
  have hseven : (Value.string "7").WrittenAs {} "7 " :=
    ⟨[], [' '], by simp, by simp [Text.isBlank], by decide⟩
  obtain ⟨hlaw, -, hreg⟩ := toInt_writtenAs {}
  obtain ⟨hinline, hformat, hoperands⟩ := hreg .builtin (fun _ _ h => h)
  have hinline := hinline _ _ _ _ _ _ rfl htwo hleast htwoText rfl rfl
  refine ⟨hlaw _ _ _ rfl writtenAs_least {}, hlaw _ _ _ htwo htwoText {}, ?_, ?_, ?_, ?_⟩
  · exact (hinline _ 0 ⟨0⟩ start).1 .minus (by decide)
  · exact (hinline _ 0 ⟨0⟩ start).2 .lt (by decide)
  · exact hformat 1 ⟨0⟩ start start [.int (-9223372036854775808)] _ [] _ ['\n'] [] rfl rfl
      (by simp [Text.isBlank]) (by simp)
  · exact hoperands .plus "+" 4 ⟨0⟩ operand start start _ [Int64.minValue, 5, 7] _ (by decide)
      (.cons rfl (.cons rfl (.cons rfl .nil)))
      (.cons writtenAs_least (.cons hfive (.cons hseven .nil))) (by decide) evaluates_operand

end Passing

end Sigil
