import Mathlib.Data.List.Forall2
import Mathlib.Tactic.SplitIfs
import Sigil.Json.Reader
import Sigil.Proofs.Numeral

/-!
# Document texts read back

A quoted string is read back as it was. The text of a document is found again in any longer text, so
two documents have one text only if they are the same word, array or object, part by part:
`chars_array_inj` and `chars_object_inj` say so one level deep.
-/

namespace Sigil.Json

open Sigil.Number

/-! ## Quoted strings -/

theorem hexUnit?_control : ∀ n < 0x20,
    hexUnit? '0' '0' (hexDigit (n / 16)) (hexDigit (n % 16)) = some n := by
  decide

theorem readString?_unit {a b c d : Char} {unit : Nat} (hu : hexUnit? a b c d = some unit)
    (hunit : unit < 0xD800) (cs : List Char) :
    readString? ('\\' :: 'u' :: a :: b :: c :: d :: cs) =
      (readString? cs).map fun p => (Char.ofNat unit :: p.1, p.2) := by
  have hhigh : isHighSurrogate unit = false := by
    simp only [isHighSurrogate, Bool.and_eq_false_iff, decide_eq_false_iff_not]
    omega
  have hlow : isLowSurrogate unit = false := by
    simp only [isLowSurrogate, Bool.and_eq_false_iff, decide_eq_false_iff_not]
    omega
  -- What follows may look like the second half of a surrogate pair.
  by_cases hpair : ∃ a' b' c' d' rest, cs = '\\' :: 'u' :: a' :: b' :: c' :: d' :: rest
  · obtain ⟨a', b', c', d', rest, rfl⟩ := hpair
    rw [readString?.eq_3]
    simp [hu, hhigh, hlow, Option.map_eq_bind]
  · rw [readString?.eq_4 _ _ _ _ _ fun a' b' c' d' rest h => hpair ⟨a', b', c', d', rest, h⟩]
    simp [hu, hhigh, hlow, Option.map_eq_bind]

theorem readString?_short {c e : Char} (he : shortEscape? e = some c) (cs : List Char) :
    readString? ('\\' :: e :: cs) = (readString? cs).map fun p => (c :: p.1, p.2) := by
  have hu : e ≠ 'u' := by
    rintro rfl
    cases he
  rw [readString?.eq_5 _ _ (fun _ _ _ _ _ _ _ _ _ h => absurd h hu) fun _ _ _ _ _ h => absurd h hu]
  simp [he, Option.map_eq_bind]

theorem readString?_plain {c : Char} (hq : c ≠ '"') (hb : c ≠ '\\') (hc : ¬c.toNat < 0x20)
    (cs : List Char) :
    readString? (c :: cs) = (readString? cs).map fun p => (c :: p.1, p.2) := by
  rw [readString?.eq_6 _ _ hq (fun _ _ _ _ _ _ _ _ _ h => absurd h hb)
    (fun _ _ _ _ _ h => absurd h hb) (fun _ _ h => absurd h hb)]
  simp [hb, hc, Option.map_eq_bind]

theorem readString?_escape (c : Char) (cs : List Char) :
    readString? (escape c ++ cs) = (readString? cs).map fun p => (c :: p.1, p.2) := by
  unfold escape
  split_ifs with hq hb hn hr ht hbs hff hctl
  all_goals simp only [List.cons_append, List.nil_append]
  · exact readString?_short (by rw [hq]; rfl) cs
  · exact readString?_short (by rw [hb]; rfl) cs
  · exact readString?_short (hn ▸ rfl) cs
  · exact readString?_short (hr ▸ rfl) cs
  · exact readString?_short (ht ▸ rfl) cs
  · exact readString?_short (hbs ▸ rfl) cs
  · exact readString?_short (hff ▸ rfl) cs
  · rw [readString?_unit (hexUnit?_control _ hctl) (by omega), Char.ofNat_toNat]
  · exact readString?_plain hq hb hctl cs

/-- A quoted string reads back, whatever follows it. -/
theorem readString?_quoted (s cs : List Char) :
    readString? (s.flatMap escape ++ '"' :: cs) = some (s, cs) := by
  induction s with
  | nil => simp [readString?]
  | cons c s ih =>
    rw [List.flatMap_cons, List.append_assoc, readString?_escape, ih, Option.map_some]

theorem quote_append_inj {k l : String} {s t : List Char} (h : quote k ++ s = quote l ++ t) :
    k = l ∧ s = t := by
  simp only [quote, List.cons_append, List.append_assoc, List.nil_append, List.cons.injEq,
    true_and] at h
  have hread := readString?_quoted k.toList s
  rw [h, readString?_quoted, Option.some.injEq, Prod.mk.injEq, String.toList_inj] at hread
  exact ⟨hread.1.symm, hread.2.symm⟩

/-! ## Words -/

/-- The characters of words and numerals. -/
def isWordChar (c : Char) : Bool := c.isAlphanum || c = '-' || c = '+' || c = '.'

/-- A text of one or more word characters. -/
def Word (cs : List Char) : Prop := cs ≠ [] ∧ ∀ c ∈ cs, isWordChar c = true

/-- A text that no word goes on into. -/
def Ends (cs : List Char) : Prop := ∀ c ∈ cs.head?, isWordChar c = false

theorem isWordChar_of_isNumeralChar {c : Char} (hc : isNumeralChar c = true) :
    isWordChar c = true := by
  simp only [isNumeralChar, isWordChar, Char.isAlphanum, Bool.or_eq_true, decide_eq_true_eq] at hc ⊢
  rcases hc with (((hc | rfl) | rfl) | rfl) | rfl
  · simp [hc]
  all_goals decide

theorem word_append_inj {cs ds s t : List Char} (hc : ∀ c ∈ cs, isWordChar c = true)
    (hd : ∀ c ∈ ds, isWordChar c = true) (hs : Ends s) (ht : Ends t) (h : cs ++ s = ds ++ t) :
    cs = ds ∧ s = t := by
  induction cs generalizing ds with
  | nil =>
    cases ds with
    | nil => exact ⟨rfl, h⟩
    | cons d ds =>
      obtain rfl : s = d :: (ds ++ t) := h
      simp [Ends, hd] at hs
  | cons c cs ih =>
    cases ds with
    | nil =>
      obtain rfl : c :: (cs ++ s) = t := h
      simp [Ends, hc] at ht
    | cons d ds =>
      obtain ⟨rfl, htail⟩ := List.cons.inj h
      obtain ⟨rfl, rfl⟩ := ih (fun c hx => hc c (List.mem_cons_of_mem _ hx))
        (fun d hx => hd d (List.mem_cons_of_mem _ hx)) htail
      exact ⟨rfl, rfl⟩

theorem word_intText (n : Int) : Word (intText n) := by
  refine ⟨?_, fun c hc => ?_⟩
  · unfold intText
    split
    · exact List.cons_ne_nil _ _
    · exact Nat.toDigits_ne_nil
  · rcases mem_intText hc with rfl | hc
    · decide
    · simp [isWordChar, Char.isAlphanum, hc]

theorem word_floatText (x : Float) : Word (floatText x) := by
  unfold floatText
  split
  · rename_i hx
    refine ⟨fun hnil => ?_, fun c hc =>
      isWordChar_of_isNumeralChar (Style.isNumeralChar_write _ hx c hc)⟩
    have hmark := Style.exists_mark_mem_write floatStyle rfl hx
    rw [hnil] at hmark
    simp at hmark
  · exact ⟨List.cons_ne_nil _ _, List.all_eq_true.1 rfl⟩

/-- The first character of a text tells words, strings, arrays and objects apart. -/
def leads (c : Char) : Json → Bool
  | .string _ => c == '"'
  | .array _ => c == '['
  | .object _ => c == '{'
  | _ => isWordChar c

/-- A text that is neither quoted nor in brackets. -/
def IsWord : Json → Prop
  | .string _ | .array _ | .object _ => False
  | _ => True

theorem word_chars {j : Json} (hj : IsWord j) : Word (chars j) := by
  cases j with
  | null => exact ⟨List.cons_ne_nil _ _, List.all_eq_true.1 rfl⟩
  | bool b => cases b <;> exact ⟨List.cons_ne_nil _ _, List.all_eq_true.1 rfl⟩
  | int n => exact word_intText n
  | float x => exact word_floatText x
  | string => exact hj.elim
  | array => exact hj.elim
  | object => exact hj.elim

theorem leads_of_cons {j : Json} {c : Char} {s t : List Char} (h : chars j ++ t = c :: s) :
    leads c j = true := by
  have hword (hj : IsWord j) : isWordChar c = true := by
    obtain ⟨hne, hall⟩ := word_chars hj
    obtain ⟨d, ds, hcs⟩ := List.exists_cons_of_ne_nil hne
    rw [hcs] at h hall
    obtain rfl : d = c := (List.cons.inj h).1
    exact hall d List.mem_cons_self
  cases j with
  | string k => exact beq_iff_eq.2 (List.cons.inj h).1.symm
  | array items => cases items <;> exact beq_iff_eq.2 (List.cons.inj h).1.symm
  | object fields => cases fields <;> exact beq_iff_eq.2 (List.cons.inj h).1.symm
  | _ => exact hword trivial

theorem exists_string_of_leads {j : Json} (h : leads '"' j = true) : ∃ k, j = .string k := by
  cases j with
  | string k => exact ⟨k, rfl⟩
  | _ => cases h

theorem exists_array_of_leads {j : Json} (h : leads '[' j = true) : ∃ items, j = .array items := by
  cases j with
  | array items => exact ⟨items, rfl⟩
  | _ => cases h

theorem exists_object_of_leads {j : Json} (h : leads '{' j = true) :
    ∃ fields, j = .object fields := by
  cases j with
  | object fields => exact ⟨fields, rfl⟩
  | _ => cases h

theorem isWord_of_leads {j : Json} {c : Char} (hc : isWordChar c = true) (h : leads c j = true) :
    IsWord j := by
  cases j with
  | string | array | object =>
    obtain rfl := beq_iff_eq.1 h
    cases hc
  | _ => trivial

theorem not_leads_bracket (j : Json) : leads ']' j = false := by
  cases j <;> rfl

/-! ## Unique reading -/

theorem ends_cons {c : Char} (hc : isWordChar c = false) (cs : List Char) : Ends (c :: cs) := by
  rintro d ⟨⟩
  exact hc

theorem ends_charsItems (items : List Json) (s : List Char) : Ends (charsItems items ++ s) := by
  cases items with
  | nil => exact ends_cons rfl _
  | cons => exact ends_cons rfl _

theorem ends_charsFields (fields : List (String × Json)) (s : List Char) :
    Ends (charsFields fields ++ s) := by
  cases fields with
  | nil => exact ends_cons rfl _
  | cons => exact ends_cons rfl _

theorem rest_eq_of_isWord {i j : Json} (hi : IsWord i) {s t : List Char} (hs : Ends s) (ht : Ends t)
    (h : chars i ++ s = chars j ++ t) : s = t := by
  obtain ⟨hne, hall⟩ := word_chars hi
  obtain ⟨c, cs, hcs⟩ := List.exists_cons_of_ne_nil hne
  have hj : IsWord j := by
    refine isWord_of_leads (hall c (hcs ▸ List.mem_cons_self))
      (leads_of_cons (s := cs ++ s) (t := t) ?_)
    rw [← h, hcs, List.cons_append]
  exact (word_append_inj hall (word_chars hj).2 hs ht h).2

mutual

/-- What follows a text is the same however the text is read. Induction on the first reading; the
first character of what is left decides between the cases of the second one. -/
theorem rest_eq_of_chars (i j : Json) {s t : List Char} (hs : Ends s) (ht : Ends t)
    (h : chars i ++ s = chars j ++ t) : s = t := by
  match i with
  | .string k =>
    obtain ⟨l, rfl⟩ := exists_string_of_leads (leads_of_cons h.symm)
    exact (quote_append_inj h).2
  | .array [] =>
    obtain ⟨ys, rfl⟩ := exists_array_of_leads (leads_of_cons h.symm)
    cases ys with
    | nil => simpa [chars] using h
    | cons y ys =>
      simp only [chars, List.cons_append, List.append_assoc, List.cons.injEq, true_and] at h
      cases (not_leads_bracket y).symm.trans (leads_of_cons h.symm)
  | .array (x :: xs) =>
    obtain ⟨ys, rfl⟩ := exists_array_of_leads (leads_of_cons h.symm)
    cases ys with
    | nil =>
      simp only [chars, List.cons_append, List.append_assoc, List.cons.injEq, true_and] at h
      cases (not_leads_bracket x).symm.trans (leads_of_cons h)
    | cons y ys =>
      simp only [chars, List.cons_append, List.append_assoc, List.cons.injEq, true_and] at h
      exact rest_eq_of_charsItems xs ys
        (rest_eq_of_chars x y (ends_charsItems xs s) (ends_charsItems ys t) h)
  | .object [] =>
    obtain ⟨ys, rfl⟩ := exists_object_of_leads (leads_of_cons h.symm)
    cases ys with
    | nil => simpa [chars] using h
    | cons y ys => simp [chars, quote] at h
  | .object ((k, x) :: xs) =>
    obtain ⟨ys, rfl⟩ := exists_object_of_leads (leads_of_cons h.symm)
    cases ys with
    | nil => simp [chars, quote] at h
    | cons y ys =>
      simp only [chars, List.cons_append, List.append_assoc, List.cons.injEq, true_and] at h
      obtain ⟨-, h⟩ := quote_append_inj h
      exact rest_eq_of_charsFields xs ys
        (rest_eq_of_chars x y.2 (ends_charsFields xs s) (ends_charsFields ys t) (List.cons.inj h).2)
  | .null => exact rest_eq_of_isWord (i := .null) trivial hs ht h
  | .bool b => exact rest_eq_of_isWord (i := .bool b) trivial hs ht h
  | .int n => exact rest_eq_of_isWord (i := .int n) trivial hs ht h
  | .float x => exact rest_eq_of_isWord (i := .float x) trivial hs ht h

theorem rest_eq_of_charsItems (xs ys : List Json) {s t : List Char}
    (h : charsItems xs ++ s = charsItems ys ++ t) : s = t := by
  match xs, ys with
  | [], [] => exact (List.cons.inj h).2
  | [], _ :: _ => simp [charsItems] at h
  | _ :: _, [] => simp [charsItems] at h
  | x :: xs, y :: ys =>
    simp only [charsItems, List.cons_append, List.append_assoc, List.cons.injEq, true_and] at h
    exact rest_eq_of_charsItems xs ys
      (rest_eq_of_chars x y (ends_charsItems xs s) (ends_charsItems ys t) h)

theorem rest_eq_of_charsFields (xs ys : List (String × Json)) {s t : List Char}
    (h : charsFields xs ++ s = charsFields ys ++ t) : s = t := by
  match xs, ys with
  | [], [] => exact (List.cons.inj h).2
  | [], _ :: _ => simp [charsFields] at h
  | _ :: _, [] => simp [charsFields] at h
  | (k, x) :: xs, (l, y) :: ys =>
    simp only [charsFields, List.cons_append, List.append_assoc, List.cons.injEq, true_and] at h
    obtain ⟨-, h⟩ := quote_append_inj h
    exact rest_eq_of_charsFields xs ys
      (rest_eq_of_chars x y (ends_charsFields xs s) (ends_charsFields ys t) (List.cons.inj h).2)

end

theorem chars_append_inj {i j : Json} {s t : List Char} (hs : Ends s) (ht : Ends t) :
    chars i ++ s = chars j ++ t ↔ chars i = chars j ∧ s = t := by
  constructor
  · intro h
    obtain rfl := rest_eq_of_chars i j hs ht h
    exact ⟨List.append_cancel_right h, rfl⟩
  · rintro ⟨hij, rfl⟩
    rw [hij]

theorem quote_colon_inj {k l : String} {s t : List Char} :
    quote k ++ ':' :: s = quote l ++ ':' :: t ↔ k = l ∧ s = t := by
  constructor
  · intro h
    obtain ⟨hkl, hrest⟩ := quote_append_inj h
    exact ⟨hkl, (List.cons.inj hrest).2⟩
  · rintro ⟨rfl, rfl⟩
    rfl

theorem ends_items (items : List Json) : Ends (charsItems items) := by
  simpa using ends_charsItems items []

theorem ends_fields (fields : List (String × Json)) : Ends (charsFields fields) := by
  simpa using ends_charsFields fields []

theorem charsItems_inj {xs ys : List Json} :
    charsItems xs = charsItems ys ↔ List.Forall₂ (fun x y => chars x = chars y) xs ys := by
  induction xs generalizing ys with
  | nil => cases ys <;> simp [charsItems]
  | cons x xs ih =>
    cases ys with
    | nil => simp [charsItems]
    | cons y ys =>
      rw [List.forall₂_cons, ← ih, ← chars_append_inj (ends_items xs) (ends_items ys)]
      simp [charsItems]

theorem charsFields_inj {xs ys : List (String × Json)} :
    charsFields xs = charsFields ys ↔
      List.Forall₂ (fun x y => x.1 = y.1 ∧ chars x.2 = chars y.2) xs ys := by
  induction xs generalizing ys with
  | nil => cases ys <;> simp [charsFields]
  | cons x xs ih =>
    cases ys with
    | nil => simp [charsFields]
    | cons y ys =>
      rw [List.forall₂_cons, ← ih, and_assoc, ← chars_append_inj (ends_fields xs) (ends_fields ys),
        ← quote_colon_inj]
      simp [charsFields]

/-- Arrays have one text exactly if their items have, one by one. -/
theorem chars_array_inj {xs ys : List Json} :
    chars (.array xs) = chars (.array ys) ↔
      List.Forall₂ (fun x y => chars x = chars y) xs ys := by
  have hfirst (j : Json) (s : List Char) : chars j ++ s ≠ [']'] := fun h => by
    cases (not_leads_bracket j).symm.trans (leads_of_cons h)
  rw [← charsItems_inj]
  cases xs <;> cases ys <;> simp [chars, charsItems, hfirst, (hfirst _ _).symm]

/-- Objects have one text exactly if their fields have, one by one in order. -/
theorem chars_object_inj {xs ys : List (String × Json)} :
    chars (.object xs) = chars (.object ys) ↔
      List.Forall₂ (fun x y => x.1 = y.1 ∧ chars x.2 = chars y.2) xs ys := by
  rw [← charsFields_inj]
  cases xs <;> cases ys <;> simp [chars, charsFields, quote]

end Sigil.Json
