import LispLexer.Cursor
import LispLexer.Text.CharClass

/-!
# Gaps

Between two lexemes there may be blanks and comments. A comment begins at a `;` and takes in
everything up to and including the next line feed, or up to the end of the input.

* `Cursor.skipGap_of_comment`, `Cursor.skipGap_of_blank`, `Cursor.skipGap_of_char`,
  `Cursor.skipGap_of_ended`: a gap is skipped comment by comment and blank by blank.
* `Cursor.weight_skipGap_le`: skipping never moves a cursor back.
-/

namespace LispLexer

open Text

universe u

namespace Cursor

variable {φ : Type u} [Feed φ]

/-! ## Comments -/

/-- `skip_comment` (lines 291–301): moves past the rest of a line, its line feed included. -/
def skipLine (k : Cursor φ) : Cursor φ :=
  match _h : k.lookahead with
  | .ended _ => k
  | .char c _ => if c = '\n' then k.advance else skipLine k.advance
termination_by k.weight
decreasing_by exact weight_advance_lt _h

theorem skipLine_of_ended {k : Cursor φ} {pending : Option FeedFailure}
    (h : k.lookahead = .ended pending) : k.skipLine = k := by
  rw [skipLine]
  split <;> simp_all

theorem skipLine_of_char {k : Cursor φ} {c : Char} {p : Position} (h : k.lookahead = .char c p) :
    k.skipLine = if c = '\n' then k.advance else k.advance.skipLine := by
  rw [skipLine]
  split <;> simp_all

theorem weight_skipLine_le (k : Cursor φ) : k.skipLine.weight ≤ k.weight := by
  fun_induction skipLine k with
  | case1 => exact Nat.le_refl _
  | case2 k => exact k.weight_advance_le
  | case3 k _ _ _ _ ih => exact Nat.le_trans ih k.weight_advance_le

theorem weight_skipLine_lt {k : Cursor φ} {c : Char} {p : Position}
    (h : k.lookahead = .char c p) : k.skipLine.weight < k.weight := by
  have ha := weight_advance_lt h
  unfold skipLine
  split
  case h_1 h' => rw [h] at h'; cases h'
  case h_2 =>
    split
    · exact ha
    · exact Nat.lt_of_le_of_lt k.advance.weight_skipLine_le ha

/-! ## Blanks and comments -/

/-- The loop of `scan_token` (lines 256–267): moves past blanks and comments, and gives the
    positions of the comments after those in `seen`, which holds the last one first. -/
def skipGapFrom (k : Cursor φ) (seen : List Position) : List Position × Cursor φ :=
  match _h : k.lookahead with
  | .ended _ => (seen.reverse, k)
  | .char c p =>
    if c = ';' then skipGapFrom k.skipLine (p :: seen)
    else if isBlank c = true then skipGapFrom k.advance seen
    else (seen.reverse, k)
termination_by k.weight
decreasing_by
  · exact weight_skipLine_lt _h
  · exact weight_advance_lt _h

theorem skipGapFrom_of_ended {k : Cursor φ} {pending : Option FeedFailure}
    (h : k.lookahead = .ended pending) (seen : List Position) :
    k.skipGapFrom seen = (seen.reverse, k) := by
  rw [skipGapFrom]
  split <;> simp_all

theorem skipGapFrom_of_comment {k : Cursor φ} {p : Position} (h : k.lookahead = .char ';' p)
    (seen : List Position) : k.skipGapFrom seen = k.skipLine.skipGapFrom (p :: seen) := by
  rw [skipGapFrom]
  split <;> simp_all

theorem skipGapFrom_of_blank {k : Cursor φ} {c : Char} {p : Position}
    (h : k.lookahead = .char c p) (hb : isBlank c = true) (seen : List Position) :
    k.skipGapFrom seen = k.advance.skipGapFrom seen := by
  have hc : c ≠ ';' := by rintro rfl; exact absurd hb (by decide)
  rw [skipGapFrom]
  split <;> simp_all

theorem skipGapFrom_of_char {k : Cursor φ} {c : Char} {p : Position}
    (h : k.lookahead = .char c p) (hc : c ≠ ';') (hb : isBlank c = false) (seen : List Position) :
    k.skipGapFrom seen = (seen.reverse, k) := by
  rw [skipGapFrom]
  split <;> simp_all

/-- Moves past a gap, and gives the positions of its comments in order. -/
def skipGap (k : Cursor φ) : List Position × Cursor φ := k.skipGapFrom []

theorem skipGapFrom_append (k : Cursor φ) (seen before : List Position) :
    k.skipGapFrom (seen ++ before)
      = (before.reverse ++ (k.skipGapFrom seen).1, (k.skipGapFrom seen).2) := by
  fun_induction skipGapFrom k seen with
  | case1 k seen _ h => simp [skipGapFrom_of_ended h]
  | case2 k seen p h ih => rw [skipGapFrom_of_comment h, ← ih, List.cons_append]
  | case3 k seen c p h _ hb ih => rw [skipGapFrom_of_blank h hb, ih]
  | case4 k seen c p h hc hb => simp [skipGapFrom_of_char h hc (Bool.eq_false_iff.2 hb)]

theorem skipGap_of_ended {k : Cursor φ} {pending : Option FeedFailure}
    (h : k.lookahead = .ended pending) : k.skipGap = ([], k) :=
  skipGapFrom_of_ended h []

theorem skipGap_of_comment {k : Cursor φ} {p : Position} (h : k.lookahead = .char ';' p) :
    k.skipGap = (p :: k.skipLine.skipGap.1, k.skipLine.skipGap.2) := by
  rw [skipGap, skipGapFrom_of_comment h]
  exact skipGapFrom_append k.skipLine [] [p]

theorem skipGap_of_blank {k : Cursor φ} {c : Char} {p : Position} (h : k.lookahead = .char c p)
    (hb : isBlank c = true) : k.skipGap = k.advance.skipGap :=
  skipGapFrom_of_blank h hb []

theorem skipGap_of_char {k : Cursor φ} {c : Char} {p : Position} (h : k.lookahead = .char c p)
    (hc : c ≠ ';') (hb : isBlank c = false) : k.skipGap = ([], k) :=
  skipGapFrom_of_char h hc hb []

theorem weight_skipGap_le (k : Cursor φ) : k.skipGap.2.weight ≤ k.weight := by
  unfold skipGap
  generalize ([] : List Position) = seen
  fun_induction skipGapFrom k seen with
  | case1 => exact Nat.le_refl _
  | case2 k _ _ _ ih => exact Nat.le_trans ih k.weight_skipLine_le
  | case3 k _ _ _ _ _ _ ih => exact Nat.le_trans ih k.weight_advance_le
  | case4 => exact Nat.le_refl _

end Cursor

end LispLexer
