import LispLexer.Feed.Text
import LispLexer.Lexer.Run

/-!
# The tokens of a text

Lexing a text held in memory, in a strict and in a lenient way, and lexing once more what the
tokens spell.

* `tokensOf_eq_run_tokens`: the tokens kept are those that come before a failure.
-/

namespace LispLexer

/-- A lexer at the start of a text. -/
def Lexer.ofString (s : String) : Lexer TextFeed := { feed := TextFeed.ofString s }

/-- `tokenize_strict` (lines 20–23): the tokens of a text, or the failure that it runs into. -/
def lex (s : String) : Except Failure (List Token) := (Lexer.ofString s).collect.value

/-- `tokenize` (lines 12–18): the tokens of a text before any failure. -/
def tokensOf (s : String) : List Token := (Lexer.ofString s).all.value

theorem tokensOf_eq_run_tokens (s : String) : tokensOf s = (Lexer.ofString s).run.tokens := rfl

/-! ## Lexing the spelling of tokens -/

/-- The texts of the tokens of `s`, joined by single spaces. -/
def respell (s : String) : String := Token.joinTexts (tokensOf s)

/-- Whether the joined texts of the tokens of `s` are lexed to the same tokens. -/
def survivesRespelling (s : String) : Bool :=
  match lex (respell s) with
  | .ok ts => decide (ts = tokensOf s)
  | .error _ => false

theorem survivesRespelling_iff (s : String) :
    survivesRespelling s = true ↔ lex (respell s) = .ok (tokensOf s) := by
  unfold survivesRespelling
  split <;> simp_all

end LispLexer
