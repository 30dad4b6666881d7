import LispLexer.Event
import LispLexer.Gap
import LispLexer.Lexeme

/-!
# Lexers

A lexer reads tokens from a feed, one at a time and only as far as it is asked to. It keeps one
character of lookahead, which it first takes at the first read. Each operation gives a value, the
events that it caused in their order, and the lexer as it stands afterwards.

* `Lexer.weight_read_lt`: a read that gives a token brings the end nearer.
* `Lexer.last_after_read`: the last token is that of the last read, if that read gave one.
-/

namespace LispLexer

open Text

universe u v

/-- `Tokenizer` (lines 109–124): a lexer on a feed. -/
structure Lexer (φ : Type u) where
  /-- The input behind the lookahead. -/
  feed : φ
  /-- What has been taken ahead. Nothing has been taken before the first read. -/
  lookahead : Option Lookahead := none
  /-- The token of the last read, if that read gave one. -/
  last : Option Token := none

/-- What an operation on a lexer gives. -/
structure Reply (φ : Type u) (α : Type v) where
  value : α
  /-- What the operation tells a log, in order. -/
  events : List Event
  /-- The lexer as it stands after the operation. -/
  after : Lexer φ

namespace Reply

variable {φ : Type u} {α β : Type v}

/-- The reply with another value. -/
def map (f : α → β) (r : Reply φ α) : Reply φ β := ⟨f r.value, r.events, r.after⟩

end Reply

/-- The event that an outcome causes. -/
def Outcome.events : Outcome → List Event
  | token t => [.token t]
  | finished => []
  | failed f => [.stopped f]

/-- The outcome as an element of a sequence: a token or a failure, and nothing at the end. -/
def Outcome.element : Outcome → Option (Except Failure Token)
  | token t => some (.ok t)
  | finished => none
  | failed f => some (.error f)

namespace Lexer

variable {φ : Type u} [Feed φ]

/-! ## State -/

/-- `position` (lines 165–171): the position of the lookahead, if it is a character. -/
def position (l : Lexer φ) : Option Position :=
  match l.lookahead with
  | some (.char _ p) => some p
  | _ => none

/-- `is_exhausted` (lines 173–176): whether the lexer has seen the end of its input or a failure. -/
def isExhausted (l : Lexer φ) : Bool :=
  match l.lookahead with
  | some (.ended _) => true
  | _ => false

/-- The cursor from which the next read sets out. Before the first read this takes the first
    character, which stands at line 1, column 1. -/
def cursor (l : Lexer φ) : Cursor φ :=
  match l.lookahead with
  | none => Cursor.pull l.feed {}
  | some a => ⟨l.feed, a⟩

/-- A bound on the number of characters still to be passed. -/
def weight (l : Lexer φ) : Nat :=
  match l.lookahead with
  | none => Feed.ahead l.feed + 1
  | some a => (Cursor.mk l.feed a).weight

theorem weight_cursor_le (l : Lexer φ) : l.cursor.weight ≤ l.weight := by
  unfold cursor weight
  split
  · exact Nat.le_succ_of_le (Cursor.weight_pull_le _ _)
  · exact Nat.le_refl _

/-! ## Reading -/

/-- `read_token` (lines 191–211): passes a gap and reads the lexeme after it. -/
def read (l : Lexer φ) : Reply φ Outcome :=
  let gap := l.cursor.skipGap
  let result := gap.2.lexeme
  { value := result.1
    events := gap.1.map .comment ++ result.1.events
    after := ⟨result.2.feed, some result.2.lookahead, result.1.token?⟩ }

theorem weight_read_lt {l : Lexer φ} {t : Token} (h : l.read.value = .token t) :
    l.read.after.weight < l.weight :=
  Nat.lt_of_lt_of_le (Cursor.weight_lexeme_lt h)
    (Nat.le_trans (Cursor.weight_skipGap_le _) l.weight_cursor_le)

theorem last_after_read (l : Lexer φ) : l.read.after.last = l.read.value.token? := rfl

/-- `next_token` (lines 183–189): reads a token, and makes no difference between the end of the
    input and a failure. -/
def next (l : Lexer φ) : Reply φ (Option Token) := l.read.map Outcome.token?

/-- `next` (lines 372–374): reads the next element of the sequence of tokens. -/
def element (l : Lexer φ) : Reply φ (Option (Except Failure Token)) :=
  l.read.map Outcome.element

end Lexer

end LispLexer
