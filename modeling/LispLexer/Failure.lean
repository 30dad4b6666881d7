import LispLexer.ReadError
import LispLexer.Text.Position
import LispLexer.Text.Quoted

/-!
# Failures

There are two ways to fail while tokens are read: the input ends inside a string, or the feed
fails. Two more causes are named so that each dispatch on a character has an answer for every
character; no input leads to them.

* `Failure.isIncomplete_report`: exactly the end inside a string is reported as incomplete input.
-/

namespace LispLexer

open Text

/-- An error of the feed, at the position that the character asked for would have had. -/
structure FeedFailure where
  position : Position
  cause : FeedError
  deriving DecidableEq

/-- Why no token could be read. -/
inductive Failure where
  /-- The input ends inside the string whose opening quote stands at `start`. -/
  | unterminated (start : Position)
  /-- The feed failed. -/
  | feed (f : FeedFailure)
  /-- No lexeme begins with the character `c`, which stands at `position`. -/
  | unexpected (c : Char) (position : Position)
  /-- A symbol was begun and the input ended before its first character. -/
  | noSymbol (position : Position)
  deriving DecidableEq

namespace Failure

/-- The report of a failure. -/
def report : Failure → ReadError
  | unterminated start => .incomplete ("unterminated string starting at " ++ start.text)
  | feed f =>
    .failed ("failed to read input at " ++ f.position.text ++ ": " ++ f.cause.message)
  | unexpected c p => .failed ("unexpected character " ++ Quoted.encodeChar c ++ " at " ++ p.text)
  | noSymbol p => .failed ("expected a symbol at " ++ p.text ++ ", found end of input")

theorem isIncomplete_report (f : Failure) :
    f.report.isIncomplete = true ↔ ∃ start, f = unterminated start := by
  cases f <;> simp [report, ReadError.isIncomplete]

end Failure

end LispLexer
