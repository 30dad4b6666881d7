import LispLexer.Lexer.Run

/-!
# Sessions

A session drives one lexer step by step and notes, after each step, what it gave and how the lexer
stands. Besides the operations of the lexer there are three steps that take its feed away from it
and go on with a new lexer on that feed: the character taken ahead is lost and positions begin
anew, while the feed goes on where it is.
-/

namespace LispLexer

open Text

universe u v

/-! ## Calls -/

/-- An operation on a lexer. -/
inductive Call where
  /-- Nothing is done; the lexer is only looked at. -/
  | look
  | read
  | next
  | element
  | all
  | collect
  deriving DecidableEq

/-- What an operation answers. -/
inductive Answer where
  | nothing
  | outcome (o : Outcome)
  | token (t : Option Token)
  | element (e : Option (Except Failure Token))
  | tokens (ts : List Token)
  | collected (r : Except Failure (List Token))

/-- The answer of a lexer to an operation. -/
def Call.run {φ : Type u} [Feed φ] (l : Lexer φ) : Call → Reply φ Answer
  | look => ⟨.nothing, [], l⟩
  | read => l.read.map .outcome
  | next => l.next.map .token
  | element => l.element.map .element
  | all => l.all.map .tokens
  | collect => l.collect.map .collected

/-! ## Entries -/

/-- A value, and how a lexer stood when it gave it. -/
structure Entry (α : Type v) where
  value : α
  position : Option Position
  exhausted : Bool
  last : Option Token
  used : Nat

/-- The entry of a value that left the lexer `l`. -/
def Lexer.entry {φ : Type u} {α : Type v} [Metered φ] (l : Lexer φ) (value : α) : Entry α :=
  ⟨value, l.position, l.isExhausted, l.last, Metered.used l.feed⟩

/-! ## Steps -/

/-- A step of a session. -/
inductive Step where
  | call (c : Call)
  /-- A new lexer on the same feed. -/
  | restart
  /-- Pulls from the feed itself, and then a new lexer on it. -/
  | pull (n : Nat)
  /-- Reads of another lexer on the feed, and then a new lexer on it. -/
  | lend (n : Nat)
  deriving DecidableEq

/-- What a step gives. -/
inductive StepResult where
  | answer (a : Answer)
  | pulled (ps : List (Pull Char))
  | lent (es : List (Entry Answer))

variable {φ : Type u} [Feed φ] [Metered φ]

/-- The entries of `n` reads, and the feed after them. -/
def Lexer.readEntries : Nat → Lexer φ → List (Entry Answer) × φ
  | 0, l => ([], l.feed)
  | n + 1, l =>
    let r := Call.run l .read
    let rest := readEntries n r.after
    (r.after.entry r.value :: rest.1, rest.2)

/-- Takes one step. -/
def Step.run (l : Lexer φ) : Step → StepResult × Lexer φ
  | call c =>
    let r := c.run l
    (.answer r.value, r.after)
  | restart => (.answer .nothing, { feed := l.feed })
  | pull n => (.pulled ((Feed.pulls n l.feed).map Prod.fst), { feed := Feed.skip n l.feed })
  | lend n =>
    let r := Lexer.readEntries n { feed := l.feed }
    (.lent r.1, { feed := r.2 })

/-- The entries of the steps of a session. -/
def session (l : Lexer φ) : List Step → List (Entry StepResult)
  | [] => []
  | s :: ss =>
    let r := s.run l
    r.2.entry r.1 :: session r.2 ss

end LispLexer
