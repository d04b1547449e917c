import Mathlib.Data.List.TakeWhile
import Mathlib.Tactic.SplitIfs
import Sigil.Shorthand

/-!
# The shape of comparisons

A text is a comparison if it splits into a left operand, spaces, the symbol of a relation, spaces
and a right operand. Once the left operand is known there is only one such split
(`Splits.eq_of_length_left`), and the text is read by the one with the shortest left operand
(`comparison?_iff_shortest`).
-/

namespace Sigil.Shorthand

/-! ## Runs of spaces -/

/-- No space comes first. -/
def Solid (cs : List Char) : Prop := cs.head? ≠ some ' '

theorem dropSpaces_of_solid {cs : List Char} (hcs : Solid cs) : dropSpaces cs = cs := by
  cases cs with
  | nil => rfl
  | cons c cs =>
    have hc : c ≠ ' ' := by simpa [Solid] using hcs
    simp [dropSpaces, hc]

theorem dropSpaces_spaces {cs : List Char} (hcs : Solid cs) (n : Nat) :
    dropSpaces (List.replicate n ' ' ++ cs) = cs := by
  induction n with
  | zero => exact dropSpaces_of_solid hcs
  | succ n ih => simpa [dropSpaces, List.replicate_succ] using ih

/-- A text is a run of spaces and what is left when they are dropped. -/
theorem exists_eq_spaces_append (cs : List Char) :
    ∃ n, cs = List.replicate n ' ' ++ dropSpaces cs := by
  have hspaces : cs.takeWhile (· = ' ') =
      List.replicate (cs.takeWhile (· = ' ')).length ' ' := by
    refine List.eq_replicate_iff.2 ⟨rfl, fun c hc => ?_⟩
    simpa using List.mem_takeWhile_imp hc
  refine ⟨(cs.takeWhile (· = ' ')).length, ?_⟩
  rw [← hspaces, dropSpaces, List.takeWhile_append_dropWhile]

theorem spaces_append_inj {m n : Nat} {cs ds : List Char} (hcs : Solid cs) (hds : Solid ds)
    (h : List.replicate m ' ' ++ cs = List.replicate n ' ' ++ ds) : m = n ∧ cs = ds := by
  have hrest : cs = ds := by rw [← dropSpaces_spaces hcs m, h, dropSpaces_spaces hds n]
  subst hrest
  have hlen := congrArg List.length h
  simp only [List.length_append, List.length_replicate] at hlen
  exact ⟨by omega, rfl⟩

/-! ## Splits -/

/-- A text that begins with `-`, `$`, `~` or a digit. -/
def StartsOperand (cs : List Char) : Prop :=
  ∃ c rest, cs = c :: rest ∧ (c = '-' ∨ c = '$' ∨ c = '~' ∨ '0' ≤ c ∧ c ≤ '9')

/-- The text is the left operand, spaces, the symbol, spaces and the right operand. The beginning of
the left operand is not looked at. -/
structure Splits (text : List Char) (b : Binary Relation) (before after : Nat) : Prop where
  text_eq : text = b.left ++ (List.replicate before ' ' ++
    (b.op.symbol ++ (List.replicate after ' ' ++ b.right)))
  left_noSpace : ' ' ∉ b.left
  right_starts : StartsOperand b.right
  right_oneLine : '\n' ∉ b.right

/-- A split into two operands. -/
structure Compares (text : List Char) (b : Binary Relation) (before after : Nat) : Prop extends
    Splits text b before after where
  left_starts : StartsOperand b.left

theorem isOperandStart_iff {c : Char} :
    isOperandStart c = true ↔ c = '-' ∨ c = '$' ∨ c = '~' ∨ '0' ≤ c ∧ c ≤ '9' := by
  have hdigit : c.isDigit = true ↔ '0' ≤ c ∧ c ≤ '9' := by
    simp [Char.isDigit, Char.le_def]
  simp [isOperandStart, hdigit, or_assoc]

theorem startsOperand_cons {c : Char} {cs : List Char} :
    StartsOperand (c :: cs) ↔ isOperandStart c = true := by
  rw [isOperandStart_iff]
  constructor
  · rintro ⟨_, _, heq, hc⟩
    obtain ⟨rfl, -⟩ := List.cons.inj heq
    exact hc
  · exact fun hc => ⟨c, cs, rfl, hc⟩

theorem not_startsOperand_nil : ¬ StartsOperand [] := by
  rintro ⟨_, _, heq, -⟩
  cases heq

theorem isRightOperand_iff {cs : List Char} :
    isRightOperand cs = true ↔ StartsOperand cs ∧ '\n' ∉ cs := by
  cases cs with
  | nil => simp [isRightOperand, not_startsOperand_nil]
  | cons c cs => simp [isRightOperand, startsOperand_cons]

theorem ne_space_of_isOperandStart {c : Char} (hc : isOperandStart c = true) : c ≠ ' ' := by
  rintro rfl
  exact absurd hc (by decide)

theorem StartsOperand.solid {cs : List Char} (hcs : StartsOperand cs) : Solid cs := by
  cases cs with
  | nil => exact absurd hcs not_startsOperand_nil
  | cons c cs => simpa [Solid] using ne_space_of_isOperandStart (startsOperand_cons.1 hcs)

theorem StartsOperand.ne_nil {cs : List Char} (hcs : StartsOperand cs) : cs ≠ [] := by
  rintro rfl
  exact not_startsOperand_nil hcs

theorem StartsOperand.append {cs : List Char} (hcs : StartsOperand cs) (ds : List Char) :
    StartsOperand (cs ++ ds) := by
  obtain ⟨c, rest, rfl, hc⟩ := hcs
  exact ⟨c, rest ++ ds, rfl, hc⟩

theorem solid_symbol_append (r : Relation) (cs : List Char) : Solid (r.symbol ++ cs) := by
  cases r <;> simp [Solid, Relation.symbol]

/-- `=` is neither a space nor the beginning of an operand, so a shorter symbol is never read in the
place of a longer one. -/
theorem spaces_append_ne_equals {n : Nat} {cs ds : List Char} (hcs : StartsOperand cs) :
    List.replicate n ' ' ++ cs ≠ '=' :: ds := by
  intro h
  cases n with
  | zero =>
    obtain rfl : cs = '=' :: ds := h
    exact absurd (startsOperand_cons.1 hcs) (by decide)
  | succ n => simp [List.replicate_succ] at h

theorem symbol_append_inj {r r' : Relation} {m n : Nat} {cs ds : List Char}
    (hcs : StartsOperand cs) (hds : StartsOperand ds)
    (h : r.symbol ++ (List.replicate m ' ' ++ cs) = r'.symbol ++ (List.replicate n ' ' ++ ds)) :
    r = r' ∧ m = n ∧ cs = ds := by
  have hsymbol : r = r' := by
    cases r <;> cases r' <;> simp [Relation.symbol] at h ⊢
    -- What is left is `<` against `<=` and `>` against `>=`, either way round.
    · exact spaces_append_ne_equals hds h.symm
    · exact spaces_append_ne_equals hds h.symm
    · exact spaces_append_ne_equals hcs h
    · exact spaces_append_ne_equals hcs h
  subst hsymbol
  exact ⟨rfl, spaces_append_inj hcs.solid hds.solid (List.append_cancel_left h)⟩

/-- A left operand of a given length leaves no choice for the rest. -/
theorem Splits.eq_of_length_left {text : List Char} {b b' : Binary Relation} {m n m' n' : Nat}
    (h : Splits text b m n) (h' : Splits text b' m' n')
    (hlen : b.left.length = b'.left.length) : b = b' ∧ m = m' ∧ n = n' := by
  obtain ⟨hleft, hrest⟩ := List.append_inj (h.text_eq.symm.trans h'.text_eq) hlen
  obtain ⟨hbefore, hrest⟩ :=
    spaces_append_inj (solid_symbol_append _ _) (solid_symbol_append _ _) hrest
  obtain ⟨hop, hafter, hright⟩ := symbol_append_inj h.right_starts h'.right_starts hrest
  cases b
  cases b'
  cases hleft
  cases hop
  cases hright
  exact ⟨rfl, hbefore, hafter⟩

/-! ## The search for the left operand -/

theorem splits_of_relationAndRight? {cs right : List Char} {r : Relation}
    (h : relationAndRight? cs = some (r, right)) : ∃ m n, Splits cs ⟨r, [], right⟩ m n := by
  obtain ⟨r', -, hr⟩ := List.exists_of_findSome?_eq_some h
  dsimp only at hr
  split_ifs at hr with hsymbol hright
  obtain ⟨rfl, rfl⟩ := Prod.mk.inj (Option.some.inj hr)
  obtain ⟨hstarts, hline⟩ := isRightOperand_iff.1 hright
  obtain ⟨tail, htail⟩ := List.isPrefixOf_iff_prefix.1 hsymbol
  obtain ⟨m, hm⟩ := exists_eq_spaces_append cs
  obtain ⟨n, hn⟩ := exists_eq_spaces_append tail
  have hdrop : (dropSpaces cs).drop r'.symbol.length = tail := by rw [← htail, List.drop_left]
  rw [hdrop] at hstarts hline ⊢
  refine ⟨m, n, ?_, List.not_mem_nil, hstarts, hline⟩
  rw [List.nil_append, ← hn, htail, ← hm]

theorem relationAndRight?_ne_none {cs right : List Char} {r : Relation} {m n : Nat}
    (h : Splits cs ⟨r, [], right⟩ m n) : relationAndRight? cs ≠ none := by
  intro hnone
  have hr := List.findSome?_eq_none_iff.1 hnone r (by cases r <;> simp [Relation.all])
  have htext : dropSpaces cs = r.symbol ++ (List.replicate n ' ' ++ right) := by
    rw [h.text_eq, List.nil_append, dropSpaces_spaces (solid_symbol_append _ _)]
  have hright : isRightOperand right = true :=
    isRightOperand_iff.2 ⟨h.right_starts, h.right_oneLine⟩
  have hdrop : dropSpaces (List.replicate n ' ' ++ right) = right :=
    dropSpaces_spaces h.right_starts.solid n
  simp [htext, hdrop, hright] at hr

/-- With an empty left operand there is nothing to search for. -/
theorem relationAndRight?_of_splits {cs right : List Char} {r : Relation} {m n : Nat}
    (h : Splits cs ⟨r, [], right⟩ m n) : relationAndRight? cs = some (r, right) := by
  obtain ⟨⟨r', right'⟩, hfound⟩ := Option.ne_none_iff_exists'.1 (relationAndRight?_ne_none h)
  obtain ⟨m', n', h'⟩ := splits_of_relationAndRight? hfound
  obtain ⟨heq, -⟩ := h.eq_of_length_left h' rfl
  cases heq
  exact hfound

/-- A character that is no space and begins no symbol belongs to the left operand. -/
theorem relationAndRight?_cons {c : Char} (hspace : c ≠ ' ') (hlt : c ≠ '<') (hgt : c ≠ '>')
    (cs : List Char) : relationAndRight? (c :: cs) = none := by
  have hsolid : Solid (c :: cs) := by simpa [Solid] using hspace
  have hsymbol (r : Relation) : r.symbol.isPrefixOf (c :: cs) = false := by
    cases r <;> simp [Relation.symbol, List.isPrefixOf, Ne.symm hlt, Ne.symm hgt]
  simp [relationAndRight?, dropSpaces_of_solid hsolid, hsymbol]

theorem splitRelation?_cons {c : Char} (hspace : c ≠ ' ') (hlt : c ≠ '<') (hgt : c ≠ '>')
    (cs : List Char) :
    splitRelation? (c :: cs) = (splitRelation? cs).map fun b => { b with left := c :: b.left } := by
  rw [splitRelation?, relationAndRight?_cons hspace hlt hgt]
  simp [hspace]

theorem splits_cons {c c' : Char} {cs left right : List Char} {r : Relation} {m n : Nat} :
    Splits (c :: cs) ⟨r, c' :: left, right⟩ m n ↔
      c = c' ∧ c ≠ ' ' ∧ Splits cs ⟨r, left, right⟩ m n := by
  constructor
  · rintro ⟨htext, hleft, hstarts, hline⟩
    obtain ⟨rfl, htext⟩ := List.cons.inj htext
    simp only [List.mem_cons, not_or] at hleft
    exact ⟨rfl, Ne.symm hleft.1, htext, hleft.2, hstarts, hline⟩
  · rintro ⟨rfl, hc, htext, hleft, hstarts, hline⟩
    refine ⟨congrArg (c :: ·) htext, ?_, hstarts, hline⟩
    simp only [List.mem_cons, not_or]
    exact ⟨Ne.symm hc, hleft⟩

theorem compares_cons {c c' : Char} {cs left right : List Char} {r : Relation} {m n : Nat} :
    Compares (c :: cs) ⟨r, c' :: left, right⟩ m n ↔
      c = c' ∧ isOperandStart c = true ∧ Splits cs ⟨r, left, right⟩ m n := by
  constructor
  · rintro ⟨hsplits, hstarts⟩
    obtain ⟨rfl, -, hsplits⟩ := splits_cons.1 hsplits
    exact ⟨rfl, startsOperand_cons.1 hstarts, hsplits⟩
  · rintro ⟨rfl, hc, hsplits⟩
    exact ⟨splits_cons.2 ⟨rfl, ne_space_of_isOperandStart hc, hsplits⟩, startsOperand_cons.2 hc⟩

/-- What the search finds is a split, and it passes over none with a shorter left operand. -/
theorem shortest_of_splitRelation? {cs : List Char} {b : Binary Relation}
    (h : splitRelation? cs = some b) :
    (∃ m n, Splits cs b m n) ∧ ∀ b' m n, Splits cs b' m n → b.left.length ≤ b'.left.length := by
  induction cs generalizing b with
  | nil => cases h
  | cons c cs ih =>
    rw [splitRelation?] at h
    split at h
    · rename_i r right hfound
      obtain rfl := Option.some.inj h
      exact ⟨splits_of_relationAndRight? hfound, fun _ _ _ _ => Nat.zero_le _⟩
    · rename_i hnone
      split_ifs at h with hc
      obtain ⟨b, hb, rfl⟩ := Option.map_eq_some_iff.1 h
      obtain ⟨⟨m, n, hsplits⟩, hshortest⟩ := ih hb
      refine ⟨⟨m, n, splits_cons.2 ⟨rfl, hc, hsplits⟩⟩, ?_⟩
      rintro ⟨r', left', right'⟩ m' n' h'
      -- With an empty left operand the search would have ended here.
      cases left' with
      | nil => exact absurd hnone (relationAndRight?_ne_none h')
      | cons c' left' =>
        obtain ⟨-, -, h'⟩ := splits_cons.1 h'
        exact Nat.succ_le_succ (hshortest _ _ _ h')

theorem splitRelation?_ne_none {cs : List Char} {b : Binary Relation} {m n : Nat}
    (h : Splits cs b m n) : splitRelation? cs ≠ none := by
  obtain ⟨r, left, right⟩ := b
  induction cs generalizing left with
  | nil =>
    have htext := h.text_eq
    cases r <;> simp [Relation.symbol] at htext
  | cons c cs ih =>
    rw [splitRelation?]
    split
    · simp
    · rename_i hnone
      cases left with
      | nil => exact absurd hnone (relationAndRight?_ne_none h)
      | cons c' left =>
        obtain ⟨-, hc, h⟩ := splits_cons.1 h
        simpa [hc] using ih left h

/-! ## Comparisons -/

theorem shortest_of_comparison? {text : List Char} {b : Binary Relation}
    (h : comparison? text = some b) :
    (∃ m n, Compares text b m n) ∧
      ∀ b' m n, Compares text b' m n → b.left.length ≤ b'.left.length := by
  cases text with
  | nil => cases h
  | cons c cs =>
    rw [comparison?] at h
    split_ifs at h with hc
    obtain ⟨b, hb, rfl⟩ := Option.map_eq_some_iff.1 h
    obtain ⟨⟨m, n, hsplits⟩, hshortest⟩ := shortest_of_splitRelation? hb
    refine ⟨⟨m, n, compares_cons.2 ⟨rfl, hc, hsplits⟩⟩, ?_⟩
    rintro ⟨r', left', right'⟩ m' n' h'
    cases left' with
    | nil => exact absurd h'.left_starts not_startsOperand_nil
    | cons c' left' =>
      obtain ⟨-, -, h'⟩ := compares_cons.1 h'
      exact Nat.succ_le_succ (hshortest _ _ _ h')

theorem comparison?_ne_none {text : List Char} {b : Binary Relation} {m n : Nat}
    (h : Compares text b m n) : comparison? text ≠ none := by
  obtain ⟨r, left, right⟩ := b
  cases left with
  | nil => exact absurd h.left_starts not_startsOperand_nil
  | cons c' left =>
    cases text with
    | nil => cases h.text_eq
    | cons c cs =>
      obtain ⟨-, hc, h⟩ := compares_cons.1 h
      simpa [comparison?, hc] using splitRelation?_ne_none h

/-- A left operand without spaces and symbols is the shortest one. -/
theorem splitRelation?_append {left rest right : List Char} {r : Relation} {m n : Nat}
    (hleft : ∀ c ∈ left, c ≠ ' ' ∧ c ≠ '<' ∧ c ≠ '>') (h : Splits rest ⟨r, [], right⟩ m n) :
    splitRelation? (left ++ rest) = some ⟨r, left, right⟩ := by
  induction left with
  | nil =>
    cases rest with
    | nil =>
      have htext := h.text_eq
      cases r <;> simp [Relation.symbol] at htext
    | cons c cs => rw [List.nil_append, splitRelation?, relationAndRight?_of_splits h]
  | cons c left ih =>
    rw [List.forall_mem_cons] at hleft
    rw [List.cons_append, splitRelation?_cons hleft.1.1 hleft.1.2.1 hleft.1.2.2, ih hleft.2]
    rfl

theorem comparison?_append {left rest right : List Char} {r : Relation} {m n : Nat}
    (hstarts : StartsOperand left) (hleft : ∀ c ∈ left, c ≠ ' ' ∧ c ≠ '<' ∧ c ≠ '>')
    (h : Splits rest ⟨r, [], right⟩ m n) :
    comparison? (left ++ rest) = some ⟨r, left, right⟩ := by
  cases left with
  | nil => exact absurd hstarts not_startsOperand_nil
  | cons c left =>
    rw [List.forall_mem_cons] at hleft
    rw [List.cons_append, comparison?, if_pos (startsOperand_cons.1 hstarts),
      splitRelation?_append hleft.2 h]
    rfl

theorem comparison?_eq_none {text : List Char} (hlt : '<' ∉ text) (hgt : '>' ∉ text) :
    comparison? text = none := by
  rw [Option.eq_none_iff_forall_ne_some]
  intro b hb
  obtain ⟨⟨m, n, h⟩, -⟩ := shortest_of_comparison? hb
  have hsymbol : ∀ c ∈ b.op.symbol, c ∈ text := by
    intro c hc
    rw [h.text_eq]
    simp [hc]
  cases hop : b.op <;> rw [hop] at hsymbol <;> simp_all [Relation.symbol]

/-- A text is read as a comparison by its split with the shortest left operand. There is at most one
split for each length of the left operand, and a text that is not read has none. -/
theorem comparison?_iff_shortest (text : List Char) :
    (∀ b, comparison? text = some b ↔ (∃ m n, Compares text b m n) ∧
      ∀ b' m n, Compares text b' m n → b.left.length ≤ b'.left.length) ∧
    (∀ b b' m n m' n', Compares text b m n → Compares text b' m' n' →
      b.left.length = b'.left.length → b = b' ∧ m = m' ∧ n = n') ∧
    (comparison? text = none ↔ ¬ ∃ b m n, Compares text b m n) := by
  have hunique (b b' : Binary Relation) (m n m' n' : Nat) (h : Compares text b m n)
      (h' : Compares text b' m' n') (hlen : b.left.length = b'.left.length) :
      b = b' ∧ m = m' ∧ n = n' := h.toSplits.eq_of_length_left h'.toSplits hlen
  refine ⟨fun b => ⟨shortest_of_comparison?, ?_⟩, hunique, ?_⟩
  · rintro ⟨⟨m, n, h⟩, hshortest⟩
    obtain ⟨b', hb'⟩ := Option.ne_none_iff_exists'.1 (comparison?_ne_none h)
    obtain ⟨⟨m', n', h'⟩, hshortest'⟩ := shortest_of_comparison? hb'
    have hlen := Nat.le_antisymm (hshortest b' m' n' h') (hshortest' b m n h)
    rw [hb', (hunique b b' m n m' n' h h' hlen).1]
  · constructor
    · rintro hnone ⟨b, m, n, h⟩
      exact comparison?_ne_none h hnone
    · intro hnone
      refine Option.eq_none_iff_forall_ne_some.2 fun b hb => ?_
      obtain ⟨⟨m, n, h⟩, -⟩ := shortest_of_comparison? hb
      exact hnone ⟨b, m, n, h⟩

/-- The first relation is passed over, since no operand follows it. -/
example : comparison? "1<x >= -2".toList = some ⟨.ge, "1<x".toList, "-2".toList⟩ := by decide

end Sigil.Shorthand
