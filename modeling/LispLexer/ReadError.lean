import LispLexer.Feed.Error

/-!
# Read errors

The report of a read that did not complete. It tells an input that ends inside a token, which one
who types at a prompt may go on with, from every other failure.

* `ReadError.message_annotate`, `ReadError.isIncomplete_annotate`: an annotation adds to the
  message and keeps the kind.
-/

namespace LispLexer

/-- A report with its message. -/
inductive ReadError where
  /-- The read failed. -/
  | failed (message : String)
  /-- The input ends inside a token; it may be that more of it completes the read. -/
  | incomplete (message : String)
  deriving DecidableEq

namespace ReadError

/-- The message without the kind. -/
def message : ReadError → String
  | failed m => m
  | incomplete m => m

/-- Whether the input ends inside a token. -/
def isIncomplete : ReadError → Bool
  | failed _ => false
  | incomplete _ => true

/-- Puts a context in front of the message. -/
def annotate (context : String) : ReadError → ReadError
  | failed m => failed (context ++ ": " ++ m)
  | incomplete m => incomplete (context ++ ": " ++ m)

theorem message_annotate (context : String) (e : ReadError) :
    (e.annotate context).message = context ++ ": " ++ e.message := by
  cases e <;> rfl

theorem isIncomplete_annotate (context : String) (e : ReadError) :
    (e.annotate context).isIncomplete = e.isIncomplete := by
  cases e <;> rfl

/-- The report in words. -/
def text : ReadError → String
  | failed m => "error in input: " ++ m
  | incomplete m => "incomplete input: " ++ m

/-- The report as an error of an input: an end that comes too early, or input that is not
    valid. -/
def toFault : ReadError → Fault
  | failed m => ⟨.invalidInput, m⟩
  | incomplete m => ⟨.unexpectedEof, m⟩

end ReadError

end LispLexer
