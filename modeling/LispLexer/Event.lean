import LispLexer.Failure
import LispLexer.Token.Basic

/-!
# Events

What a lexer tells a log while it works: each token that it gives out, each comment that it has
passed, and the failure that stops it. A log takes the events up to a level of detail of its own.

* `Event.upTo_trace`: at the most detailed level nothing is left out.
-/

namespace LispLexer

open Text

/-- Levels of detail, the least detailed first. At `off` a log takes nothing; it is the level of no
    event. -/
inductive Level where
  | off
  | error
  | warn
  | info
  | debug
  | trace
  deriving DecidableEq

namespace Level

/-- How detailed a level is. -/
def detail : Level → Nat
  | off => 0
  | error => 1
  | warn => 2
  | info => 3
  | debug => 4
  | trace => 5

theorem detail_le_trace (v : Level) : v.detail ≤ trace.detail := by
  cases v <;> decide

end Level

/-- Something that a log may record. -/
inductive Event where
  /-- A token has been read. -/
  | token (t : Token)
  /-- The comment whose `;` stands at `start` has been passed. -/
  | comment (start : Position)
  /-- A read has failed. -/
  | stopped (f : Failure)
  deriving DecidableEq

namespace Event

/-- The level of an event: a failure matters more than the course of the work. -/
def level : Event → Level
  | token _ => .trace
  | comment _ => .trace
  | stopped _ => .debug

/-- An event in words. -/
def text : Event → String
  | token t => "token " ++ t.label
  | comment start => "skipped comment at " ++ start.text
  | stopped f => "tokenizing stopped: " ++ f.report.text

/-- The events that a log takes when its level is `limit`. -/
def upTo (limit : Level) (es : List Event) : List Event :=
  es.filter fun e => decide (e.level.detail ≤ limit.detail)

theorem upTo_trace (es : List Event) : upTo .trace es = es := by
  simp [upTo, Level.detail_le_trace]

end Event

end LispLexer
