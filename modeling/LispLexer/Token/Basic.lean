import LispLexer.Text.Quoted

/-!
# Tokens

The five kinds of token of a Lisp text. Numbers are symbols here, and no token knows where it
stood.

* `Token.contents?_string`: the contents of a string token whose text stands between quotes.
* `Token.toList_joinTexts`: the texts of a list of tokens, with one space between neighbours.
-/

namespace LispLexer

open Text

/-- A token. A string holds its text with both quotes and with its escapes resolved; a symbol
    holds the run of constituents that spells it. Tokens are ordered by kind, in the order of the
    constructors, and then by text. -/
inductive Token where
  | lparen
  | rparen
  | quote
  | string (text : String)
  | symbol (text : String)
  deriving DecidableEq, Ord

namespace Token

/-- `as_str` (lines 29–37): the text of a token. -/
def text : Token → String
  | lparen => "("
  | rparen => ")"
  | quote => "'"
  | string s => s
  | symbol s => s

/-- `string_contents` (lines 39–45): the text between the quotes of a string token. There is none
    for other tokens, nor for a text that does not stand between two distinct quotes. -/
def contents? : Token → Option String
  | string s =>
    match s.toList with
    | '"' :: cs => if cs.getLast? = some '"' then some (String.ofList cs.dropLast) else none
    | _ => none
  | _ => none

theorem contents?_string (cs : List Char) :
    (string (String.ofList ('"' :: (cs ++ ['"'])))).contents? = some (String.ofList cs) := by
  simp [contents?]

/-- The texts of the tokens, joined by single spaces. -/
def joinTexts (ts : List Token) : String := " ".intercalate (ts.map text)

theorem toList_joinTexts (ts : List Token) :
    (joinTexts ts).toList = [' '].intercalate (ts.map fun t => t.text.toList) := by
  simp [joinTexts, String.toList_intercalate, Function.comp_def]

/-- A token as a log names it: its kind, and the quoted text where the kind does not fix it. -/
def label : Token → String
  | lparen => "LParen"
  | rparen => "RParen"
  | quote => "Quote"
  | string s => "String(" ++ Quoted.encode s ++ ")"
  | symbol s => "Symbol(" ++ Quoted.encode s ++ ")"

end Token

end LispLexer
