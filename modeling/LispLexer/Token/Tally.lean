import LispLexer.Token.Basic

/-!
# Tallies

A tally sums up a list of tokens: how many there are of each kind, and how long their texts are.

* `Tally.ofTokens_append`: the tally of a longer list continues that of its first part.
-/

namespace LispLexer

/-- The number of tokens of each kind, the length of their texts together, and the length of the
    longest of these texts, in characters. -/
structure Tally where
  lparens : Nat := 0
  rparens : Nat := 0
  quotes : Nat := 0
  strings : Nat := 0
  symbols : Nat := 0
  chars : Nat := 0
  longest : Nat := 0
  deriving DecidableEq

namespace Tally

/-- Counts a token under its kind. -/
def count (s : Tally) : Token → Tally
  | .lparen => { s with lparens := s.lparens + 1 }
  | .rparen => { s with rparens := s.rparens + 1 }
  | .quote => { s with quotes := s.quotes + 1 }
  | .string _ => { s with strings := s.strings + 1 }
  | .symbol _ => { s with symbols := s.symbols + 1 }

/-- Adds the length of a text. -/
def measure (s : Tally) (text : String) : Tally :=
  { s with chars := s.chars + text.length, longest := max s.longest text.length }

/-- Adds a token to a tally. -/
def add (s : Tally) (t : Token) : Tally := (s.count t).measure t.text

/-- The tally of a list of tokens. -/
def ofTokens (ts : List Token) : Tally := ts.foldl add {}

theorem ofTokens_append (ts us : List Token) :
    ofTokens (ts ++ us) = us.foldl add (ofTokens ts) := List.foldl_append

end Tally

end LispLexer
