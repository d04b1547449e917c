import Sigil.Operators.Template

/-!
# Templates in pieces

The leftmost marks of a template that do not overlap cut it into pieces in exactly one way
(`IsCut.unique`, `isCut_cut`). Formatting joins the pieces with the texts of the values, each as it
is, and with the marks themselves where the values run out; so two templates can be formatted one
after the other, unless a mark lies across their border (`formatTemplate_pieces`).
-/

namespace Sigil.Operators

/-- The mark that is replaced by a value. -/
def mark : List Char := ['%', 's']

/-- No mark begins within the text, if the other text follows. -/
def Unmarked (text rest : List Char) : Prop :=
  ∀ n < text.length, ¬ mark <+: (text ++ rest).drop n

/-- The leftmost marks of a text, from left to right, leave a first piece and one after each. -/
inductive IsCut : List Char → List Char → List (List Char) → Prop
  | whole {text : List Char} : Unmarked text [] → IsCut text text []
  | cut {piece rest next : List Char} {pieces : List (List Char)} :
      Unmarked piece (mark ++ rest) → IsCut rest next pieces →
      IsCut (piece ++ (mark ++ rest)) piece (next :: pieces)

/-! ## Where marks begin -/

theorem mark_prefix_iff {text : List Char} :
    mark <+: text ↔ ∃ rest, text = '%' :: 's' :: rest := by
  constructor
  · rintro ⟨rest, rfl⟩
    exact ⟨rest, rfl⟩
  · rintro ⟨rest, rfl⟩
    exact ⟨rest, rfl⟩

theorem fill_cons_of_not_prefix {c : Char} {rest : List Char} (hc : ¬ mark <+: c :: rest)
    (texts : List (List Char)) : fill (c :: rest) texts = c :: fill rest texts := by
  have hne (rest' : List Char) (hpercent : c = '%') : rest ≠ 's' :: rest' := by
    rintro rfl
    exact hc (mark_prefix_iff.2 ⟨rest', by rw [hpercent]⟩)
  rw [fill]
  · exact fun rest' _ _ _ hpercent => hne rest' hpercent
  · exact fun rest' _ hpercent => hne rest' hpercent

namespace Unmarked

variable {text rest : List Char}

theorem nil (rest : List Char) : Unmarked [] rest := by
  intro n hn
  cases hn

theorem cons {c : Char} (hc : ¬ mark <+: c :: (text ++ rest)) (htext : Unmarked text rest) :
    Unmarked (c :: text) rest := by
  intro n hn
  cases n with
  | zero => exact hc
  | succ n => exact htext n (Nat.lt_of_succ_lt_succ hn)

theorem head {c : Char} (htext : Unmarked (c :: text) rest) : ¬ mark <+: c :: (text ++ rest) :=
  htext 0 (Nat.succ_pos _)

theorem tail {c : Char} (htext : Unmarked (c :: text) rest) : Unmarked text rest := by
  intro n hn
  exact htext (n + 1) (Nat.succ_lt_succ hn)

/-- A mark that begins in the text ends before the end of the mark that follows. -/
theorem append_mark (htext : Unmarked text (mark ++ rest)) (more : List Char) :
    Unmarked text (mark ++ (rest ++ more)) := by
  intro n hn hmark
  apply htext n hn
  rw [List.drop_append_of_le_length (Nat.le_of_lt hn)] at hmark ⊢
  refine List.prefix_of_prefix_length_le hmark ⟨more, by simp⟩ ?_
  simp only [mark, List.length_append, List.length_cons, List.length_nil]
  omega

/-- A mark across the border of two texts has one character on each side. -/
theorem append (htext : Unmarked text []) {more : List Char}
    (hborder : text.getLast? ≠ some '%' ∨ more.head? ≠ some 's') : Unmarked text more := by
  induction text with
  | nil => exact .nil more
  | cons c text ih =>
    cases text with
    | nil =>
      refine .cons ?_ (.nil more)
      rw [List.nil_append, mark_prefix_iff]
      rintro ⟨rest, heq⟩
      simp only [List.cons.injEq] at heq
      simp [heq] at hborder
    | cons d text =>
      refine .cons ?_ (ih htext.tail (by simpa using hborder))
      have hhead := htext.head
      rw [mark_prefix_iff] at hhead ⊢
      rintro ⟨rest, heq⟩
      exact hhead ⟨text, by simp_all⟩

/-- A text in which no mark begins does not reach beyond a mark. -/
theorem length_le {piece more : List Char} (htext : Unmarked text more)
    (heq : piece ++ (mark ++ rest) = text ++ more) : text.length ≤ piece.length := by
  refine Nat.le_of_not_lt fun hlonger => htext piece.length hlonger ?_
  rw [← heq, List.drop_left]
  exact List.prefix_append mark rest

end Unmarked

/-! ## Cutting a text -/

/-- Cuts a text at its marks. -/
def cut : List Char → List Char × List (List Char)
  | [] => ([], [])
  | '%' :: 's' :: rest => ([], (cut rest).1 :: (cut rest).2)
  | c :: rest => (c :: (cut rest).1, (cut rest).2)

namespace IsCut

variable {text piece piece' : List Char} {pieces pieces' : List (List Char)}

theorem cons {c : Char} (hc : ¬ mark <+: c :: text) (htext : IsCut text piece pieces) :
    IsCut (c :: text) (c :: piece) pieces := by
  cases htext with
  | whole htext => exact .whole (.cons (by rwa [List.append_nil]) htext)
  | cut hpiece hrest => exact .cut (.cons hc hpiece) hrest

/-- There is one way to cut a text. -/
theorem unique (hcut : IsCut text piece pieces) (hcut' : IsCut text piece' pieces') :
    piece' = piece ∧ pieces' = pieces := by
  induction hcut generalizing piece' pieces' with
  | whole htext =>
    cases hcut' with
    | whole => exact ⟨rfl, rfl⟩
    | @cut _ rest =>
      have hle := htext.length_le (List.append_nil (piece' ++ (mark ++ rest))).symm
      simp only [mark, List.length_append, List.length_cons] at hle
      omega
  | @cut piece rest next pieces hpiece hrest ih =>
    generalize htext : piece ++ (mark ++ rest) = text at hcut'
    cases hcut' with
    | whole htext' =>
      have hle := htext'.length_le (htext.trans (List.append_nil piece').symm)
      simp only [← htext, mark, List.length_append, List.length_cons] at hle
      omega
    | cut hpiece' hrest' =>
      -- Neither first piece reaches beyond the mark behind the other one.
      have hle := hpiece.length_le htext.symm
      have hge := hpiece'.length_le htext
      obtain ⟨rfl, hrests⟩ := List.append_inj htext (Nat.le_antisymm hle hge)
      obtain rfl := List.append_cancel_left hrests
      obtain ⟨rfl, rfl⟩ := ih hrest'
      exact ⟨rfl, rfl⟩

end IsCut

theorem isCut_cut (text : List Char) : IsCut text (cut text).1 (cut text).2 := by
  fun_induction cut text with
  | case1 => exact .whole (.nil [])
  | case2 rest ih => exact .cut (.nil _) ih
  | case3 c rest hc ih =>
    refine ih.cons ?_
    rw [mark_prefix_iff]
    rintro ⟨rest', heq⟩
    simp only [List.cons.injEq] at heq
    exact hc rest' heq.1 heq.2

/-! ## Filling the marks -/

/-- Up to the first mark a text is copied. -/
theorem fill_unmarked {text rest : List Char} (htext : Unmarked text rest)
    (texts : List (List Char)) : fill (text ++ rest) texts = text ++ fill rest texts := by
  induction text with
  | nil => rfl
  | cons c text ih =>
    rw [List.cons_append, fill_cons_of_not_prefix htext.head, ih htext.tail, List.cons_append]

theorem fill_of_unmarked {text : List Char} (htext : Unmarked text [])
    (texts : List (List Char)) : fill text texts = text := by
  have hcopy := fill_unmarked htext texts
  rwa [List.append_nil, fill, List.append_nil] at hcopy

/-- A mark takes the next text, or stays. -/
theorem fill_mark (rest : List Char) (texts : List (List Char)) :
    fill (mark ++ rest) texts = texts.head?.getD mark ++ fill rest texts.tail := by
  cases texts <;> rfl

namespace IsCut

variable {text piece : List Char} {pieces : List (List Char)}

/-- The pieces are copied, with a text in front of each but the first. -/
theorem fill_eq (hcut : IsCut text piece pieces) (texts : List (List Char)) :
    fill text texts =
      piece ++ (pieces.mapIdx fun i piece => texts[i]?.getD mark ++ piece).flatten := by
  induction hcut generalizing texts with
  | whole htext => simp [fill_of_unmarked htext]
  | cut hpiece hrest ih =>
    rw [fill_unmarked hpiece, fill_mark, ih, List.mapIdx_cons, List.flatten_cons]
    simp [List.head?_eq_getElem?]

/-- Texts without a mark are dropped. -/
theorem fill_take (hcut : IsCut text piece pieces) (texts : List (List Char)) :
    fill text (texts.take pieces.length) = fill text texts := by
  induction hcut generalizing texts with
  | whole htext => rw [fill_of_unmarked htext, fill_of_unmarked htext]
  | cut hpiece hrest ih =>
    rw [fill_unmarked hpiece, fill_unmarked hpiece, fill_mark, fill_mark, ← ih texts.tail]
    cases texts <;> simp

/-- Behind the cut text the texts that its marks left are filled in. -/
theorem fill_append (hcut : IsCut text piece pieces) {more : List Char}
    (hborder : text.getLast? ≠ some '%' ∨ more.head? ≠ some 's') (texts : List (List Char)) :
    fill (text ++ more) texts = fill text texts ++ fill more (texts.drop pieces.length) := by
  induction hcut generalizing texts with
  | whole htext =>
    rw [fill_unmarked (htext.append hborder), fill_of_unmarked htext]
    rfl
  | @cut piece rest next pieces hpiece hrest ih =>
    have hborder' : rest.getLast? ≠ some '%' ∨ more.head? ≠ some 's' := by
      refine hborder.imp_left fun hlast hrest => hlast ?_
      simp [List.getLast?_append, hrest]
    calc fill (piece ++ (mark ++ rest) ++ more) texts
      _ = fill (piece ++ (mark ++ (rest ++ more))) texts := by simp only [List.append_assoc]
      _ = piece ++ (texts.head?.getD mark ++ fill (rest ++ more) texts.tail) := by
        rw [fill_unmarked (hpiece.append_mark more), fill_mark]
      _ = piece ++ (texts.head?.getD mark ++ fill rest texts.tail) ++
          fill more (texts.drop (pieces.length + 1)) := by
        rw [ih hborder', List.drop_tail]
        simp only [List.append_assoc]
      _ = fill (piece ++ (mark ++ rest)) texts ++ fill more (texts.drop (pieces.length + 1)) := by
        rw [fill_unmarked hpiece, fill_mark]

end IsCut

/-- Formatting a template. It has one cut at its leftmost marks, and the result is the first piece
and then, for every other piece, the text of the value of that place, or the mark if there is none,
and the piece; no more values are looked at than there are marks. What follows is formatted with the
values that are left, unless a mark lies across the border. -/
theorem formatTemplate_pieces (h : Heap) (template : String) (values : List Value) :
    ∃ first pieces,
      (∀ piece pieces', IsCut template.toList piece pieces' ↔ piece = first ∧ pieces' = pieces) ∧
      (formatTemplate h template values).toList = first ++ (pieces.mapIdx fun i piece =>
        (values[i]?.map fun v => (v.toText h).toList).getD mark ++ piece).flatten ∧
      formatTemplate h template values = formatTemplate h template (values.take pieces.length) ∧
      ∀ more : String, template.toList.getLast? ≠ some '%' ∨ more.toList.head? ≠ some 's' →
        formatTemplate h (template ++ more) values =
          formatTemplate h template values ++
            formatTemplate h more (values.drop pieces.length) := by
  obtain ⟨first, pieces, hcut⟩ : ∃ first pieces, IsCut template.toList first pieces :=
    ⟨_, _, isCut_cut template.toList⟩
  refine ⟨first, pieces, ?_, ?_, ?_, ?_⟩
  · intro piece pieces'
    refine ⟨hcut.unique, ?_⟩
    rintro ⟨rfl, rfl⟩
    exact hcut
  · rw [formatTemplate, String.toList_ofList, hcut.fill_eq]
    simp only [List.getElem?_map]
  · rw [formatTemplate, ← hcut.fill_take, ← List.map_take, ← formatTemplate]
  · intro more hborder
    rw [formatTemplate, String.toList_append, hcut.fill_append hborder, ← List.map_drop,
      String.ofList_append]
    rfl

/-- A mark after a percent sign and one before it, and a value that reads like a mark. -/
theorem formatTemplate_pieces_percent :
    let values : List Value := [.string "%s", .int 7, .int 8]
    ("%%s %".toList.getLast? ≠ some '%' ∨ "%s".toList.head? ≠ some 's') ∧
      formatTemplate {} ("%%s %" ++ "%s") values =
        formatTemplate {} "%%s %" values ++ formatTemplate {} "%s" [.int 7, .int 8] ∧
      formatTemplate {} "%%s %" values = "%%s %" ∧
      formatTemplate {} "%s" [.int 7, .int 8] = "7" := by
  intro values
  obtain ⟨first, pieces, hcut, -, -, happend⟩ := formatTemplate_pieces {} "%%s %" values
  have hpieces : pieces.length = 1 := by
    rw [← ((hcut _ _).1 (isCut_cut _)).2]
    decide
  have hborder : "%%s %".toList.getLast? ≠ some '%' ∨ "%s".toList.head? ≠ some 's' := by decide
  refine ⟨hborder, ?_, by decide, by decide⟩
  rw [happend "%s" hborder, hpieces]
  rfl

end Sigil.Operators
