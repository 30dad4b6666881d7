import LispLexer.Feed.Basic

/-!
# Text as a feed

The characters of a text, in order, and then the end, as often as it is asked for.

* `TextFeed.pull_cons`, `TextFeed.pull_nil`: the two kinds of pull.
-/

namespace LispLexer

/-- A text held in memory, from its next character on. -/
structure TextFeed where
  rest : List Char
  deriving DecidableEq

namespace TextFeed

/-- The feed of all characters of a text. -/
def ofString (s : String) : TextFeed := ⟨s.toList⟩

/-- `next_char` (lines 40–42): takes the next character. -/
def pull : TextFeed → Pull Char × TextFeed
  | ⟨[]⟩ => (.ended, ⟨[]⟩)
  | ⟨c :: cs⟩ => (.item c, ⟨cs⟩)

instance : Feed TextFeed where
  pull := pull
  ahead s := s.rest.length
  ahead_lt {s _ _} h := by
    obtain ⟨_ | ⟨c, cs⟩⟩ := s <;> cases h
    exact Nat.lt_succ_self cs.length

@[simp] theorem pull_nil : Feed.pull (⟨[]⟩ : TextFeed) = (.ended, ⟨[]⟩) := rfl

@[simp] theorem pull_cons (c : Char) (cs : List Char) :
    Feed.pull (⟨c :: cs⟩ : TextFeed) = (.item c, ⟨cs⟩) := rfl

end TextFeed

end LispLexer
