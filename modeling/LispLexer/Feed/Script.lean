import LispLexer.Feed.Basic

/-!
# Scripted feeds

A feed that gives a fixed list of results, one per pull, and the end ever after. Every feed looks
like one as far as it is pulled, so a script can show how a lexer treats ends and errors that are
followed by more input.

* `ScriptFeed.pull_cons`, `ScriptFeed.pull_nil`: the two kinds of pull.
-/

namespace LispLexer

/-- The results that are still to be given. -/
structure ScriptFeed where
  steps : List (Pull Char)
  deriving DecidableEq

namespace ScriptFeed

/-- Gives the next result. -/
def pull : ScriptFeed → Pull Char × ScriptFeed
  | ⟨[]⟩ => (.ended, ⟨[]⟩)
  | ⟨p :: ps⟩ => (p, ⟨ps⟩)

instance : Feed ScriptFeed where
  pull := pull
  ahead s := s.steps.length
  ahead_lt {s _ _} h := by
    obtain ⟨_ | ⟨p, ps⟩⟩ := s <;> cases h
    exact Nat.lt_succ_self ps.length

@[simp] theorem pull_nil : Feed.pull (⟨[]⟩ : ScriptFeed) = (.ended, ⟨[]⟩) := rfl

@[simp] theorem pull_cons (p : Pull Char) (ps : List (Pull Char)) :
    Feed.pull (⟨p :: ps⟩ : ScriptFeed) = (p, ⟨ps⟩) := rfl

end ScriptFeed

end LispLexer
