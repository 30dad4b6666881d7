import LispLexer.Failure
import LispLexer.Feed.Basic

/-!
# Cursors

A cursor is a feed from which one character has been taken ahead. That character is the first of
the input that belongs to no token yet. Once the feed has come to an end or has failed, the cursor
stays there and pulls no more; a failure waits there until it is reported.

* `Cursor.weight_advance_lt`: each advance over a character brings the end nearer.
-/

namespace LispLexer

open Text

universe u

/-- `Lookahead` (lines 96–102) without its first case, and with the failure that waits at the end:
    what a cursor stands on. -/
inductive Lookahead where
  /-- The character `c`, which stands at `position`. -/
  | char (c : Char) (position : Position)
  /-- The end of the input, or a failure of the feed that has not been reported. -/
  | ended (pending : Option FeedFailure)
  deriving DecidableEq

/-- A feed with the character taken ahead from it. -/
structure Cursor (φ : Type u) where
  feed : φ
  lookahead : Lookahead

namespace Cursor

variable {φ : Type u} [Feed φ]

/-- The call of `next_char` in `advance` (lines 224–243): takes the character that stands at `p`
    from the feed. -/
def pull (s : φ) (p : Position) : Cursor φ :=
  match Feed.pull s with
  | (.item c, s') => ⟨s', .char c p⟩
  | (.ended, s') => ⟨s', .ended none⟩
  | (.failed e, s') => ⟨s', .ended (some ⟨p, e⟩)⟩

/-- `advance` (lines 220–244): moves to the next character; at the end it stays. -/
def advance (k : Cursor φ) : Cursor φ :=
  match k.lookahead with
  | .char c p => pull k.feed (p.after c)
  | .ended _ => k

/-- The cursor at the end of the input, with nothing left to report. -/
def close (k : Cursor φ) : Cursor φ := ⟨k.feed, .ended none⟩

/-! ## Progress -/

/-- A bound on the number of characters that the cursor has still to pass. -/
def weight (k : Cursor φ) : Nat :=
  match k.lookahead with
  | .char _ _ => Feed.ahead k.feed + 1
  | .ended _ => 0

theorem weight_pull_le (s : φ) (p : Position) : (pull s p).weight ≤ Feed.ahead s := by
  unfold pull
  split
  case h_1 h => exact Feed.ahead_lt h
  case h_2 => exact Nat.zero_le _
  case h_3 => exact Nat.zero_le _

theorem weight_advance_lt {k : Cursor φ} {c : Char} {p : Position}
    (h : k.lookahead = .char c p) : k.advance.weight < k.weight := by
  have hw : k.weight = Feed.ahead k.feed + 1 := by simp only [weight, h]
  have ha : k.advance = pull k.feed (p.after c) := by simp only [advance, h]
  rw [hw, ha]
  exact Nat.lt_succ_of_le (weight_pull_le _ _)

theorem weight_advance_le (k : Cursor φ) : k.advance.weight ≤ k.weight := by
  cases h : k.lookahead with
  | char c p => exact Nat.le_of_lt (weight_advance_lt h)
  | ended pending => simp only [advance, h, Nat.le_refl]

end Cursor

end LispLexer
