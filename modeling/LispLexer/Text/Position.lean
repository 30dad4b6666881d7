/-!
# Positions in a text

A position names a character by its line and its column, both counted from 1 and both counted in
characters. Only the line feed ends a line.

* `Position.past_append`: the position past two pieces of text is reached piece by piece.
-/

namespace LispLexer.Text

/-- The line and the column of a character; a text begins at line 1, column 1. Positions are
    ordered by line and then by column. Both counters are taken not to overflow: no text has more
    lines or longer lines than a machine word counts. -/
structure Position where
  line : Nat := 1
  column : Nat := 1
  deriving DecidableEq, Ord

namespace Position

/-- The position of the character that follows `c`, when `c` stands at `p`. -/
def after (p : Position) (c : Char) : Position :=
  if c = '\n' then ⟨p.line + 1, 1⟩ else ⟨p.line, p.column + 1⟩

/-- The position that follows the characters `cs`, when the first of them stands at `p`. -/
def past (p : Position) (cs : List Char) : Position := cs.foldl after p

@[simp] theorem past_nil (p : Position) : p.past [] = p := rfl

@[simp] theorem past_cons (p : Position) (c : Char) (cs : List Char) :
    p.past (c :: cs) = (p.after c).past cs := rfl

theorem past_append (p : Position) (cs ds : List Char) :
    p.past (cs ++ ds) = (p.past cs).past ds := List.foldl_append

/-- The position in words. -/
def text (p : Position) : String := s!"line {p.line} column {p.column}"

end Position

end LispLexer.Text
