import LispLexer.Feed.Error

/-!
# Character feeds

A feed hands out an input one character at a time. Each pull gives a character, the end of the
input or an error, and the feed as it stands afterwards. Neither an end nor an error is final: the
next pull may give characters again. What ends is every run of characters, and the feed says how
long the run before it can still be.

* `used_pull`: a counted feed counts every pull, whatever it gives.
-/

namespace LispLexer

universe u

/-! ## Pulls -/

/-- What one pull from an input gives. -/
inductive Pull (α : Type u) where
  | item (a : α)
  | ended
  | failed (e : FeedError)
  deriving DecidableEq

/-- A source of characters. -/
class Feed (φ : Type u) where
  /-- Takes the next character, and gives the feed as it stands afterwards. -/
  pull : φ → Pull Char × φ
  /-- A bound on the number of characters before the next end or error. -/
  ahead : φ → Nat
  ahead_lt : ∀ {s s' : φ} {c : Char}, pull s = (.item c, s') → ahead s' < ahead s

namespace Feed

variable {φ : Type u} [Feed φ]

/-- The results of `n` pulls in a row, each with the feed as it stands after it. -/
def pulls : Nat → φ → List (Pull Char × φ)
  | 0, _ => []
  | n + 1, s =>
    let r := pull s
    r :: pulls n r.2

/-- The feed after `n` pulls. -/
def skip : Nat → φ → φ
  | 0, s => s
  | n + 1, s => skip n (pull s).2

end Feed

/-! ## Meters -/

/-- A feed that keeps account of what has been taken from it. -/
class Metered (φ : Type u) where
  used : φ → Nat

/-- A feed with a count of the pulls made on it. -/
structure Counted (φ : Type u) where
  inner : φ
  pulled : Nat := 0

namespace Counted

variable {φ : Type u} [Feed φ]

instance : Feed (Counted φ) where
  pull s := ((Feed.pull s.inner).1, ⟨(Feed.pull s.inner).2, s.pulled + 1⟩)
  ahead s := Feed.ahead s.inner
  ahead_lt h := by
    obtain ⟨h1, rfl⟩ := Prod.mk.inj h
    exact Feed.ahead_lt (Prod.ext h1 rfl)

instance : Metered (Counted φ) where
  used s := s.pulled

theorem used_pull (s : Counted φ) : Metered.used (Feed.pull s).2 = Metered.used s + 1 := rfl

end Counted

end LispLexer
