/-!
# Character classes

Three kinds of character matter to a Lisp lexer: blanks, which only separate; the three
punctuation marks `(`, `)` and `'`, each a token of its own; and all others, the constituents, of
which symbols are made. `;` and `"` are constituents: they open a comment or a string only where a
lexeme may begin.

* `isBlank_iff`: the blanks are the code points of the ranges of the table, 25 in all
  (`count_blankRanges`).
* `isBlank_of_isWhitespace`: what is a blank in ASCII text is one here.
-/

namespace LispLexer.Text

/-! ## Ranges of code points -/

/-- Whether the code point of a character lies in one of some closed ranges. -/
def inRanges (rs : List (Nat × Nat)) (c : Char) : Bool :=
  rs.any fun r => decide (r.1 ≤ c.toNat ∧ c.toNat ≤ r.2)

theorem inRanges_iff {rs : List (Nat × Nat)} {c : Char} :
    inRanges rs c = true ↔ ∃ r ∈ rs, r.1 ≤ c.toNat ∧ c.toNat ≤ r.2 := by
  simp [inRanges]

/-! ## Blanks -/

/-- The code points with the Unicode property `White_Space`, as closed ranges in ascending
    order. -/
def blankRanges : List (Nat × Nat) :=
  [(0x09, 0x0D), (0x20, 0x20), (0x85, 0x85), (0xA0, 0xA0), (0x1680, 0x1680), (0x2000, 0x200A),
    (0x2028, 0x2029), (0x202F, 0x202F), (0x205F, 0x205F), (0x3000, 0x3000)]

theorem count_blankRanges : blankRanges.foldr (fun r n => r.2 + 1 - r.1 + n) 0 = 25 := rfl

/-- A character that separates tokens and is nothing else. -/
def isBlank (c : Char) : Bool := inRanges blankRanges c

theorem isBlank_iff {c : Char} :
    isBlank c = true ↔ ∃ r ∈ blankRanges, r.1 ≤ c.toNat ∧ c.toNat ≤ r.2 :=
  inRanges_iff

theorem isBlank_of_isWhitespace {c : Char} (h : c.isWhitespace = true) : isBlank c = true := by
  simp only [Char.isWhitespace, Bool.or_eq_true, decide_eq_true_eq] at h
  rcases h with ((h | h) | h) | h <;> subst h <;> decide

/-! ## Constituents -/

/-- `is_symbol_char` (lines 104–107): a character that may stand in a symbol, neither a blank nor
    one of `(`, `)` and `'`. -/
def isConstituent (c : Char) : Bool :=
  !isBlank c && c != '(' && c != ')' && c != '\''

theorem isConstituent_iff {c : Char} :
    isConstituent c = true ↔ isBlank c = false ∧ c ≠ '(' ∧ c ≠ ')' ∧ c ≠ '\'' := by
  simp [isConstituent, and_assoc]

/-- The code points from `first` to `last` that are characters and not constituents, ascending. -/
def nonConstituents (first last : Nat) : List Nat :=
  (List.range' first (last + 1 - first)).filter fun n =>
    decide n.isValidChar && !isConstituent (Char.ofNat n)

end LispLexer.Text
