import LispLexer.Proofs.Lookahead
import Mathlib.Algebra.Ring.Parity

/-!
# Where a string ends

A string ends at the first quote before which an even number of backslashes stands in a row. In such
a row the backslashes pair off from the left: the first of each pair begins an escape and the second
is what is escaped. So the parity of the row tells whether a character is escaped, and nothing of
the text before the row does.

* `backslashes`, `Escapes`, `resolve`, `ClosesAt`: the end of a string and what the characters
  before it stand for, said by the parity of rows of backslashes.
* `Steady.of_body`: a body pairs its backslashes off, and stands for what is resolved by parity.
* `Body.closesAt`, `OpenBody.not_closesAt`: the quotes that close.
* `Lexer.read_of_opening_quote`: the read of a string at the beginning of a text.
-/

namespace LispLexer

open Text

namespace Grammar

/-! ## Rows of backslashes -/

/-- The number of backslashes in a row at the end of some characters. -/
def backslashes (us : List Char) : ℕ := (us.reverse.takeWhile (· = '\\')).length

@[simp] theorem backslashes_nil : backslashes [] = 0 := rfl

@[simp] theorem backslashes_append_backslash (us : List Char) :
    backslashes (us ++ ['\\']) = backslashes us + 1 := by
  simp [backslashes]

theorem backslashes_append_other {c : Char} (hc : c ≠ '\\') (us : List Char) :
    backslashes (us ++ [c]) = 0 := by
  simp [backslashes, hc]

/-- The last of these characters is a backslash that begins an escape: an even number of backslashes
    stands in a row before it. -/
def Escapes (us : List Char) : Prop := us.getLast? = some '\\' ∧ Even (backslashes us.dropLast)

instance : DecidablePred Escapes := fun us =>
  inferInstanceAs (Decidable (us.getLast? = some '\\' ∧ Even (backslashes us.dropLast)))

theorem escapes_append {us : List Char} {c : Char} :
    Escapes (us ++ [c]) ↔ c = '\\' ∧ Even (backslashes us) := by
  simp [Escapes]

/-- The escaped characters are those behind an odd number of backslashes. -/
theorem escapes_iff_odd {us : List Char} : Escapes us ↔ Odd (backslashes us) := by
  rcases List.eq_nil_or_concat us with rfl | ⟨us, c, rfl⟩
  · simp [Escapes]
  · by_cases hc : c = '\\'
    · subst hc
      simp [escapes_append, Nat.odd_add_one]
    · simp [escapes_append, backslashes_append_other hc, hc]

/-! ## Resolved by parity -/

/-- What some characters of a string stand for when the characters `us` stand before them: a
    backslash that begins an escape stands for nothing, an `n` and a `t` after one stand for a line
    feed and a tab, and any other character stands for itself. -/
def resolve (us : List Char) : List Char → List Char
  | [] => []
  | c :: cs =>
    (if Escapes (us ++ [c]) then []
      else if Escapes us then [if c = 'n' then '\n' else if c = 't' then '\t' else c]
      else [c]) ++ resolve (us ++ [c]) cs

/-- The quote at the offset is not escaped. -/
def ClosesAt (w : List Char) (i : ℕ) : Prop := w[i]? = some '"' ∧ Even (backslashes (w.take i))

instance (w : List Char) : DecidablePred (ClosesAt w) := fun i =>
  inferInstanceAs (Decidable (w[i]? = some '"' ∧ Even (backslashes (w.take i))))

theorem ClosesAt.lt {w : List Char} {i : ℕ} (h : ClosesAt w i) : i < w.length :=
  (List.getElem?_eq_some_iff.1 h.1).1

/-- After the characters `us`, all escapes in `raw` are complete, `raw` stands for `cs`, and every
    quote in it is escaped. -/
structure Steady (us raw cs : List Char) : Prop where
  even : Even (backslashes (us ++ raw))
  resolve : resolve us raw = cs
  quote : ∀ vs r, raw = vs ++ '"' :: r → Odd (backslashes (us ++ vs))

namespace Steady

variable {us raw cs : List Char} {c : Char}

theorem nil (hu : Even (backslashes us)) : Steady us [] [] where
  even := by rwa [List.append_nil]
  resolve := rfl
  quote := by simp

/-- A plain character breaks a row of backslashes. -/
theorem plain (hu : Even (backslashes us)) (hq : c ≠ '"') (hb : c ≠ '\\')
    (h : Steady (us ++ [c]) raw cs) : Steady us (c :: raw) (c :: cs) where
  even := by
    have he := h.even
    rwa [List.append_assoc] at he
  resolve := by
    have hn : ¬ Escapes us := by rwa [escapes_iff_odd, Nat.not_odd_iff_even]
    have hc : ¬ Escapes (us ++ [c]) := fun hc => hb (escapes_append.1 hc).1
    rw [Grammar.resolve, if_neg hc, if_neg hn, h.resolve]
    rfl
  quote := by
    intro vs r hr
    cases vs with
    | nil => exact absurd (List.cons.inj hr).1 hq
    | cons v vs =>
      obtain ⟨rfl, htail⟩ := List.cons.inj hr
      have ho := h.quote vs r htail
      rwa [List.append_assoc] at ho

/-- A pair of a backslash and what it escapes leaves the parity of the row as it was, or breaks the
    row. -/
theorem even_append_escape (hu : Even (backslashes us)) (c : Char) :
    Even (backslashes (us ++ ['\\'] ++ [c])) := by
  by_cases hc : c = '\\'
  · subst hc
    rw [backslashes_append_backslash, backslashes_append_backslash]
    exact hu.add_one.add_one
  · rw [backslashes_append_other hc]
    exact .zero

theorem escape (hu : Even (backslashes us)) (h : Steady (us ++ ['\\'] ++ [c]) raw cs) :
    Steady us ('\\' :: c :: raw)
      ((if c = 'n' then '\n' else if c = 't' then '\t' else c) :: cs) where
  even := by
    have he := h.even
    rwa [List.append_assoc, List.append_assoc] at he
  resolve := by
    have hb : Escapes (us ++ ['\\']) := escapes_append.2 ⟨rfl, hu⟩
    have hc : ¬ Escapes (us ++ ['\\'] ++ [c]) := by
      rw [escapes_iff_odd, Nat.not_odd_iff_even]
      exact even_append_escape hu c
    rw [Grammar.resolve, if_pos hb, Grammar.resolve, if_neg hc, if_pos hb, h.resolve]
    rfl
  quote := by
    intro vs r hr
    rcases vs with _ | ⟨v, _ | ⟨v', vs⟩⟩
    · exact absurd (List.cons.inj hr).1 (by decide)
    · -- the quote that the backslash escapes
      obtain ⟨rfl, -⟩ := List.cons.inj hr
      rw [backslashes_append_backslash]
      exact hu.add_one
    · simp only [List.cons_append, List.cons.injEq] at hr
      obtain ⟨rfl, rfl, htail⟩ := hr
      have ho := h.quote vs r htail
      rwa [List.append_assoc, List.append_assoc] at ho

/-- A body keeps the parity with which it began. -/
theorem of_body (h : Body raw cs) (hu : Even (backslashes us)) : Steady us raw cs := by
  induction h generalizing us with
  | nil => exact .nil hu
  | plain hq hb _ ih => exact .plain hu hq hb (ih (by simp [backslashes_append_other hb]))
  | newline _ ih => exact .escape hu (ih (even_append_escape hu 'n'))
  | tab _ ih => exact .escape hu (ih (even_append_escape hu 't'))
  | @escape c _ _ hn ht _ ih =>
    have he := escape hu (ih (even_append_escape hu c))
    rwa [if_neg hn, if_neg ht] at he

end Steady

theorem Body.steady {raw cs : List Char} (h : Body raw cs) : Steady [] raw cs := .of_body h .zero

/-! ## The closing quote -/

variable {raw cs body r w : List Char} {i j : ℕ}

theorem Body.not_closesAt (h : Body raw cs) (hj : j < raw.length) (r : List Char) :
    ¬ ClosesAt (raw ++ r) j := by
  rintro ⟨hq, he⟩
  rw [List.getElem?_append_left hj, List.getElem?_eq_some_iff] at hq
  obtain ⟨hj, hq⟩ := hq
  have hsplit : raw = raw.take j ++ '"' :: raw.drop (j + 1) := by
    rw [← hq, ← List.drop_eq_getElem_cons, List.take_append_drop]
  have ho := h.steady.quote _ _ hsplit
  rw [List.take_append_of_le_length (Nat.le_of_lt hj)] at he
  exact Nat.not_even_iff_odd.2 ho he

/-- A body is closed by the quote after it, and by none before. -/
theorem Body.closesAt (h : Body raw cs) (r : List Char) :
    ClosesAt (raw ++ '"' :: r) raw.length := by
  have he := h.steady.even
  exact ⟨by simp, by rwa [List.take_left]⟩

theorem OpenBody.not_closesAt (h : OpenBody body) (i : ℕ) : ¬ ClosesAt body i := by
  intro hc
  cases h with
  | whole hb =>
    have hn := hb.not_closesAt hc.lt []
    rw [List.append_nil] at hn
    exact hn hc
  | @dangling raw cs hb =>
    have hi := hc.lt
    rw [List.length_append, List.length_singleton] at hi
    rcases Nat.lt_succ_iff_lt_or_eq.1 hi with hlt | rfl
    · exact hb.not_closesAt hlt _ hc
    · have hq := hc.1
      rw [List.getElem?_concat_length] at hq
      cases hq

/-- The first quote that closes is the end of the body. -/
theorem Body.eq_length_of_first (h : Body raw cs) (hc : ClosesAt (raw ++ '"' :: r) i)
    (hfirst : ∀ j < i, ¬ ClosesAt (raw ++ '"' :: r) j) : i = raw.length := by
  rcases Nat.lt_trichotomy i raw.length with hlt | heq | hgt
  · exact absurd hc (h.not_closesAt hlt _)
  · exact heq
  · exact absurd (h.closesAt r) (hfirst _ hgt)

end Grammar

/-! ## Reading a string -/

namespace Lexer

open Grammar

variable {φ : Type*} [Feed φ] {l : Lexer (Counted φ)} {s : φ} {raw cs body r : List Char}
  {z : Option FeedError}

/-- A lexer on the text that has a quote and then the characters `w`, with a count of its pulls. -/
def openingQuote (w : List Char) : Lexer (Counted TextFeed) :=
  counting (TextFeed.ofString (String.ofList ('"' :: w)))

theorem stands_openingQuote (w : List Char) :
    (openingQuote w).cursor.Stands
      (Counted.mk (TextFeed.ofString (String.ofList ('"' :: w))) 0) [] ('"' :: w) none := by
  have hs := stands_counting_text (String.ofList ('"' :: w))
  rwa [String.toList_ofList] at hs

/-- A string takes its characters and one more. -/
theorem read_of_string (hb : Body raw cs)
    (h : l.cursor.Stands (Counted.mk s 0) [] ('"' :: (raw ++ '"' :: r)) z) :
    l.read.value = .token (.string (String.ofList ('"' :: (cs ++ ['"'])))) ∧
      l.read.after.feed.pulled = raw.length + 3 := by
  have htext : '"' :: (raw ++ '"' :: r) = [] ++ (('"' :: (raw ++ ['"'])) ++ r) := by simp
  rw [htext] at h
  obtain ⟨hreads, hstands⟩ := reads_of_pieces (.cons .nil (.string hb) trivial .nil) h
  refine ⟨(List.cons.inj hreads).1, ?_⟩
  rw [show l.read.after.feed.pulled = _ from pulled_of_stands rfl hstands]
  simp

/-- A string without an end takes all characters and the end of the text. -/
theorem read_of_openString (hb : OpenBody body)
    (h : l.cursor.Stands (Counted.mk s 0) [] ('"' :: body) none) :
    l.read.value = .failed (.unterminated {}) ∧ l.read.after.feed.pulled = body.length + 2 := by
  obtain ⟨hv, ha⟩ := read_of_openBody .nil hb h.faces
  rw [← List.append_nil ('"' :: body)] at h
  have hstands : l.read.after.cursor.Stands (Counted.mk s 0) ('"' :: body) [] none := by
    rw [ha]
    exact h.iterate.close
  exact ⟨hv, pulled_of_stands rfl hstands⟩

/-- The first read on a text of a quote and the characters `w`. The first quote in `w` with an even
    number of backslashes in a row before it ends the string. The contents are the characters before
    it, resolved by parity, and one pull has been made for the opening quote, one for each of these
    characters, one for the closing quote and one for what follows, whatever it is. If there is no
    such quote, the read fails at the opening quote when all of the text has been pulled. -/
theorem read_of_opening_quote (w : List Char) :
    (∀ i, ClosesAt w i → (∀ j < i, ¬ ClosesAt w j) →
      (openingQuote w).read.value
          = .token (.string (String.ofList ('"' :: (resolve [] (w.take i) ++ ['"'])))) ∧
        (openingQuote w).read.after.feed.pulled = i + 3) ∧
    ((∀ i, ¬ ClosesAt w i) →
      (openingQuote w).read.value = .failed (.unterminated ⟨1, 1⟩) ∧
        (openingQuote w).read.after.feed.pulled = w.length + 2) ∧
    (Failure.unterminated ⟨1, 1⟩).report
      = .incomplete "unterminated string starting at line 1 column 1" := by
  refine ⟨?_, ?_, by decide⟩
  · intro i hc hfirst
    rcases exists_body w with ho | ⟨raw, cs, r, rfl, hb⟩
    · exact absurd hc (ho.not_closesAt i)
    · obtain rfl := hb.eq_length_of_first hc hfirst
      rw [List.take_left, hb.steady.resolve]
      exact read_of_string hb (stands_openingQuote _)
  · intro hn
    rcases exists_body w with ho | ⟨raw, cs, r, rfl, hb⟩
    · exact read_of_openString ho (stands_openingQuote w)
    · exact absurd (hb.closesAt r) (hn raw.length)

/-- The first two quotes after `a` are escaped and the third is not, for there are two backslashes
    before it. The text `"a\"\` has no closing quote. -/
theorem read_of_opening_quote_with_escapes :
    let w := "a\\\"\\n\\\\\"x".toList
    let l := openingQuote w
    let w' := "a\\\"\\".toList
    let l' := openingQuote w'
    (ClosesAt w 7 ∧ ∀ j < 7, ¬ ClosesAt w j) ∧ l.read.value = .token (.string "\"a\"\n\\\"") ∧
      l.read.after.feed.pulled = 10 ∧
      (∀ i, ¬ ClosesAt w' i) ∧ l'.read.value = .failed (.unterminated ⟨1, 1⟩) ∧
        l'.read.after.feed.pulled = 6 := by
  intro w l w' l'
  have hc : ClosesAt w 7 := by decide
  have hfirst : ∀ j < 7, ¬ ClosesAt w j := by decide
  have hnone : ∀ i, ¬ ClosesAt w' i := by
    intro i hi
    have hall : ∀ j < w'.length, ¬ ClosesAt w' j := by decide
    exact hall i hi.lt hi
  obtain ⟨hv, hpulled⟩ := (read_of_opening_quote w).1 7 hc hfirst
  obtain ⟨hv', hpulled'⟩ := (read_of_opening_quote w').2.1 hnone
  refine ⟨⟨hc, hfirst⟩, ?_, hpulled, hnone, hv', hpulled'⟩
  rw [hv]
  decide

end Lexer

end LispLexer
