import Sigil.Proofs.ComparisonShape

/-!
# The shape of arithmetic

A text is arithmetic if it splits into a left operand, spaces, the symbol of an operation, spaces
and a right operand, without brackets. The left operand ends at the first space, and a right operand
begins with no space unless it is a single one. So there is at most one such split, and the text is
read by it (`arithmetic?_iff_computes`).
-/

namespace Sigil

theorem drop_takeWhile (p : Char → Bool) (text : List Char) :
    text.drop (text.takeWhile p).length = text.dropWhile p := by
  have htake := List.prefix_iff_eq_append.1 (List.takeWhile_prefix p (l := text))
  exact List.append_cancel_left (htake.trans List.takeWhile_append_dropWhile.symm)

namespace Arith

/-- The character that stands for the operation. -/
def symbol : Arith → Char
  | .plus => '+'
  | .minus => '-'
  | .multiply => '*'
  | .divide => '/'
  | .mod => '%'

theorem ofChar?_symbol (op : Arith) : ofChar? op.symbol = some op := by cases op <;> rfl

theorem eq_symbol_of_ofChar? {c : Char} {op : Arith} (h : ofChar? c = some op) :
    c = op.symbol := by
  unfold ofChar? at h
  split at h <;> cases h <;> rfl

theorem symbol_ne_space (op : Arith) : op.symbol ≠ ' ' := by cases op <;> decide

theorem symbol_ne_bracket (op : Arith) : op.symbol ≠ '[' ∧ op.symbol ≠ ']' := by
  cases op <;> decide

end Arith

namespace Shorthand

/-! ## Right operands -/

theorem solid_dropSpaces (cs : List Char) : Solid (dropSpaces cs) := by
  intro hhead
  have hnot := List.head?_dropWhile_not (· = ' ') cs
  rw [show List.dropWhile (· = ' ') cs = dropSpaces cs from rfl, hhead] at hnot
  simp at hnot

/-- What may stand to the right of an operation and the spaces after it. -/
def IsArithmeticRight (cs : List Char) : Prop := cs ≠ [] ∧ (Solid cs ∨ cs = [' '])

theorem exists_of_arithmeticRight? {after right : List Char}
    (h : arithmeticRight? after = some right) :
    ∃ n, 0 < n ∧ after = List.replicate n ' ' ++ right ∧ IsArithmeticRight right := by
  unfold arithmeticRight? at h
  split at h
  · rename_i hhead
    obtain ⟨n, hn⟩ := exists_eq_spaces_append after
    split at h
    · -- Nothing but spaces: the last one is the operand.
      rename_i hnil
      rw [hnil, List.append_nil] at hn
      split at h
      · cases h
      · rename_i hlen
        obtain rfl := Option.some.inj h
        rw [hn, List.length_replicate] at hlen
        refine ⟨n - 1, by omega, ?_, by simp, .inr rfl⟩
        rw [hn, ← List.replicate_succ', Nat.sub_add_cancel (by omega)]
    · rename_i hne
      obtain rfl := Option.some.inj h
      refine ⟨n, Nat.pos_of_ne_zero ?_, hn, hne, .inl (solid_dropSpaces after)⟩
      rintro rfl
      apply solid_dropSpaces after
      rw [← hhead, hn]
      simp [dropSpaces_of_solid (solid_dropSpaces after)]
  · cases h

theorem arithmeticRight?_spaces {n : Nat} {right : List Char} (hn : 0 < n)
    (hright : IsArithmeticRight right) :
    arithmeticRight? (List.replicate n ' ' ++ right) = some right := by
  obtain ⟨n, rfl⟩ := Nat.exists_eq_add_one_of_ne_zero (Nat.ne_of_gt hn)
  have hhead : (List.replicate (n + 1) ' ' ++ right).head? = some ' ' := by
    simp [List.replicate_succ]
  unfold arithmeticRight?
  rw [if_pos hhead]
  rcases hright with ⟨hne, hsolid | rfl⟩
  · rw [dropSpaces_spaces hsolid]
    split
    · exact absurd rfl hne
    · rfl
  · have hdrop : dropSpaces (List.replicate (n + 1) ' ' ++ [' ']) = [] := by
      rw [← List.replicate_succ', ← List.append_nil (List.replicate _ ' ')]
      exact dropSpaces_spaces (by simp [Solid]) _
    simp [hdrop]

/-! ## Splits -/

def NoBracket (cs : List Char) : Prop := '[' ∉ cs ∧ ']' ∉ cs

/-- The text is the left operand, spaces, the symbol, spaces and the right operand. -/
structure Computes (text : List Char) (b : Binary Arith) (before after : Nat) : Prop where
  text_eq : text = b.left ++ (List.replicate before ' ' ++
    (b.op.symbol :: (List.replicate after ' ' ++ b.right)))
  before_pos : 0 < before
  after_pos : 0 < after
  left_ne_nil : b.left ≠ []
  left_noSpace : ' ' ∉ b.left
  left_noBracket : NoBracket b.left
  right_ne_nil : b.right ≠ []
  right_noBracket : NoBracket b.right
  right_start : b.right.head? ≠ some ' ' ∨ b.right = [' ']

theorem any_bracket_iff {cs : List Char} :
    cs.any (fun c => c = '[' || c = ']') = true ↔ ¬ NoBracket cs := by
  simp only [List.any_eq_true, Bool.or_eq_true, decide_eq_true_eq, NoBracket]
  grind

theorem Computes.noBracket {text : List Char} {b : Binary Arith} {m n : Nat}
    (h : Computes text b m n) : NoBracket text := by
  have hleft := h.left_noBracket
  have hright := h.right_noBracket
  have hsymbol := b.op.symbol_ne_bracket
  rw [h.text_eq]
  simp only [NoBracket, List.mem_append, List.mem_cons, List.mem_replicate] at *
  grind

/-- The left operand ends where the first space is. -/
theorem Computes.takeWhile {text : List Char} {b : Binary Arith} {m n : Nat}
    (h : Computes text b m n) : text.takeWhile (· ≠ ' ') = b.left := by
  obtain ⟨m, rfl⟩ := Nat.exists_eq_add_one_of_ne_zero (Nat.ne_of_gt h.before_pos)
  have hleft : ∀ c ∈ b.left, decide (c ≠ ' ') = true := by
    intro c hc
    simp only [decide_eq_true_eq]
    rintro rfl
    exact h.left_noSpace hc
  rw [h.text_eq, List.takeWhile_append_of_pos hleft]
  simp [List.replicate_succ]

theorem arithmetic?_of_computes {text : List Char} {b : Binary Arith} {m n : Nat}
    (h : Computes text b m n) : arithmetic? text = some b := by
  have hbracket : ¬ text.any (fun c => c = '[' || c = ']') = true :=
    fun hany => any_bracket_iff.1 hany h.noBracket
  have hleft := h.takeWhile
  have hrest : dropSpaces (text.drop b.left.length) =
      b.op.symbol :: (List.replicate n ' ' ++ b.right) := by
    rw [h.text_eq, List.drop_left]
    exact dropSpaces_spaces (by simpa [Solid] using b.op.symbol_ne_space) m
  have hright := arithmeticRight?_spaces h.after_pos ⟨h.right_ne_nil, h.right_start⟩
  have hop := b.op.ofChar?_symbol
  unfold arithmetic?
  rw [if_neg hbracket, hleft]
  dsimp only
  rw [hrest]
  obtain ⟨op, left, right⟩ := b
  cases left with
  | nil => exact absurd rfl h.left_ne_nil
  | cons c left => simp only [hop, Option.bind_some, hright, Option.map_some]

theorem computes_of_arithmetic? {text : List Char} {b : Binary Arith}
    (h : arithmetic? text = some b) : ∃ m n, Computes text b m n := by
  unfold arithmetic? at h
  split_ifs at h with hany
  dsimp only at h
  rw [drop_takeWhile] at h
  split at h
  · rename_i c₀ left c after hleft hafter
    obtain ⟨op, hop, h⟩ := Option.bind_eq_some_iff.1 h
    obtain ⟨right, hright, rfl⟩ := Option.map_eq_some_iff.1 h
    obtain ⟨n, hn, rfl, hne, hstart⟩ := exists_of_arithmeticRight? hright
    obtain rfl := Arith.eq_symbol_of_ofChar? hop
    obtain ⟨m, hm⟩ := exists_eq_spaces_append (text.dropWhile (· ≠ ' '))
    rw [hafter] at hm
    have htext : text = text.takeWhile (· ≠ ' ') ++ (List.replicate m ' ' ++
        (op.symbol :: (List.replicate n ' ' ++ right))) := by
      rw [← hm, List.takeWhile_append_dropWhile]
    have hbracket : NoBracket text := by
      by_contra hnot
      exact hany (any_bracket_iff.2 hnot)
    -- The left operand stops at a space, which the symbol is not.
    have hm_pos : 0 < m := by
      apply Nat.pos_of_ne_zero
      rintro rfl
      have hnot := List.head?_dropWhile_not (· ≠ ' ') text
      rw [hm] at hnot
      simp [op.symbol_ne_space] at hnot
    refine ⟨m, n, htext, hm_pos, hn, ?_, ?_, ?_, hne, ?_, hstart⟩
    · exact hleft ▸ List.cons_ne_nil _ _
    · intro hspace
      simpa using List.mem_takeWhile_imp hspace
    · have hsub := (List.takeWhile_prefix (· ≠ ' ') (l := text)).subset
      exact ⟨fun hc => hbracket.1 (hsub hc), fun hc => hbracket.2 (hsub hc)⟩
    · rw [htext] at hbracket
      simp only [NoBracket, List.mem_append, List.mem_cons, not_or] at hbracket
      exact ⟨hbracket.1.2.2.2.2, hbracket.2.2.2.2.2⟩
  · cases h

theorem arithmetic?_eq_none {text : List Char} (hspace : ' ' ∉ text) : arithmetic? text = none := by
  rw [Option.eq_none_iff_forall_ne_some]
  intro b hb
  obtain ⟨m, n, h⟩ := computes_of_arithmetic? hb
  apply hspace
  rw [h.text_eq]
  simp [Nat.ne_of_gt h.before_pos]

/-- Once the operands are known, the runs of spaces are. -/
theorem Computes.spaces_eq {text : List Char} {b : Binary Arith} {m n m' n' : Nat}
    (h : Computes text b m n) (h' : Computes text b m' n') : m = m' ∧ n = n' := by
  have hsolid (cs : List Char) : Solid (b.op.symbol :: cs) := by
    simpa [Solid] using b.op.symbol_ne_space
  have hrest := List.append_cancel_left (h.text_eq.symm.trans h'.text_eq)
  obtain ⟨hm, hrest⟩ := spaces_append_inj (hsolid _) (hsolid _) hrest
  have hlen := congrArg List.length (List.cons.inj hrest).2
  simp only [List.length_append, List.length_replicate] at hlen
  exact ⟨hm, by omega⟩

/-- A text is read as arithmetic exactly by its split. There is at most one split, and a text that
is not read has none. -/
theorem arithmetic?_iff_computes (text : List Char) :
    (∀ b, arithmetic? text = some b ↔ ∃ m n, Computes text b m n) ∧
    (∀ b b' m n m' n', Computes text b m n → Computes text b' m' n' →
      b = b' ∧ m = m' ∧ n = n') ∧
    (arithmetic? text = none ↔ ¬ ∃ b m n, Computes text b m n) := by
  have hiff (b : Binary Arith) : arithmetic? text = some b ↔ ∃ m n, Computes text b m n := by
    constructor
    · exact computes_of_arithmetic?
    · rintro ⟨m, n, h⟩
      exact arithmetic?_of_computes h
  refine ⟨hiff, ?_, ?_⟩
  · intro b b' m n m' n' h h'
    have hread := (arithmetic?_of_computes h).symm.trans (arithmetic?_of_computes h')
    obtain rfl := Option.some.inj hread
    exact ⟨rfl, h.spaces_eq h'⟩
  · rw [Option.eq_none_iff_forall_ne_some]
    constructor
    · rintro hnone ⟨b, hb⟩
      exact hnone b ((hiff b).2 hb)
    · intro hnone b hb
      exact hnone ⟨b, (hiff b).1 hb⟩

/-- Only spaces follow the symbol: all but the last belong to the gap. -/
example : arithmetic? "a -   ".toList = some ⟨.minus, "a".toList, " ".toList⟩ := by decide

end Shorthand

end Sigil
