import LispLexer.Proofs.Laziness

/-!
# The life of a lexer

What holds of a lexer after any operations, on a source that may give whatever it likes, also more
characters after an end or an error. The source is called up to its first end or error and not
again. If that was an error it waits in the lexer, behind a token, until the next read reports it;
after a report there is only the end.

* `Feed.Gives.pull_skip`: the calls that a source has answered.
* `Lexer.LifeCycle`: what holds after some reads, by the outcomes of these reads.
* `Lexer.lifeCycle_afterCalls`: it holds after any operations.
-/

namespace LispLexer

open Text

universe u

/-! ## Calls of the source -/

namespace Feed.Gives

variable {φ : Type u} [Feed φ] {s : φ} {cs : List Char} {stop : Pull Char}

theorem pull_skip (h : Gives s cs stop) {i : ℕ} (hi : i < cs.length) :
    (pull (skip i s)).1 = .item cs[i] := by
  induction cs generalizing s i with
  | nil => cases hi
  | cons c cs ih =>
    obtain ⟨hc, hcs⟩ := gives_cons.1 h
    cases i with
    | zero => exact hc
    | succ i => exact ih hcs (Nat.lt_of_succ_lt_succ hi)

theorem pull_skip_length (h : Gives s cs stop) : (pull (skip cs.length s)).1 = stop := by
  induction cs generalizing s with
  | nil => exact gives_nil.1 h
  | cons c cs ih => exact ih (gives_cons.1 h).2

end Feed.Gives

namespace Lexer

/-! ## What can be seen -/

/-- The failure of the source that waits to be reported. -/
def pending {φ : Type u} (l : Lexer φ) : Option FeedFailure :=
  match l.lookahead with
  | some (.ended f) => f
  | _ => none

theorem lookahead_of_pending {φ : Type u} {l : Lexer φ} {f : FeedFailure}
    (h : l.pending = some f) : l.lookahead = some (.ended (some f)) := by
  unfold pending at h
  split at h <;> simp_all

/-- A lexer that has been read from has either a character ahead or come to the end. -/
theorem position_isSome_iff {φ : Type u} {l : Lexer φ} (h : l.lookahead ≠ none) :
    l.position.isSome = true ↔ l.isExhausted = false := by
  unfold position isExhausted
  cases ha : l.lookahead with
  | none => exact absurd ha h
  | some a => cases a <;> simp

variable {φ : Type u} [Feed φ]

/-- A failure waits only behind a token: another read would have reported it. -/
theorem last_ne_none_of_pending {l : Lexer φ} {f : FeedFailure}
    (h : l.read.after.pending = some f) : l.read.after.last ≠ none := by
  have hl : l.read.after.cursor.lookahead = .ended (some f) :=
    Option.some.inj (lookahead_of_pending h)
  rcases l.read_cases with ⟨t, ht⟩ | ⟨he, -⟩
  · rw [last_after_read, ht]
    exact Option.some_ne_none t
  · rw [he] at hl
    cases hl

/-! ## The life cycle -/

/-- How a lexer stands that was set on the source `s` and whose reads so far, alone or as parts of
    other operations, had the outcomes `os`. -/
structure LifeCycle (s : φ) (os : List Outcome) (l : Lexer (Counted φ)) : Prop where
  /-- A failure of the source waits only where the input has ended and the last read gave a token.
      It is what the source answered to the last call. -/
  pending : ∀ f, l.pending = some f → l.isExhausted = true ∧ l.last ≠ none ∧
    ∃ i, l.feed.pulled = i + 1 ∧ (Feed.pull (Feed.skip i s)).1 = .failed f.cause
  /-- Of the calls made on the source, each but the last gave a character. -/
  calls : l.feed.inner = Feed.skip l.feed.pulled s ∧
    ∀ i, i + 1 < l.feed.pulled → ∃ c, (Feed.pull (Feed.skip i s)).1 = .item c
  /-- The reads have reported at most one failure. -/
  failures : (os.filterMap Outcome.failure?).length ≤ 1
  /-- After a read that reported a failure or the end, every read reports the end and changes
      nothing, the calls made on the source included. -/
  closed : (∃ o ∈ os, o.token? = none) →
    l.position = none ∧ l.isExhausted = true ∧ l.last = none ∧
      ∀ calls, (∀ o ∈ l.outcomes calls, o = .finished) ∧ l.afterCalls calls = l
  /-- The last token is that of the last read, if that read gave one. -/
  last : l.last = os.getLast?.bind Outcome.token?
  /-- Before the first read there is no lookahead, and no end has been seen. -/
  unread : os = [] → l.position = none ∧ l.isExhausted = false
  /-- After a read there is either a character ahead or the end. -/
  ahead : os ≠ [] → (l.position.isSome = true ↔ l.isExhausted = false)

/-- The life cycle of a lexer that has only made reads. -/
theorem lifeCycle_afterReads (s : φ) (n : ℕ) :
    LifeCycle s ((counting s).reads n) ((counting s).afterReads n) := by
  obtain ⟨cs, z, hg⟩ := Feed.exists_gives s
  have hstep := ((InStep.counting hg hg).reads n).2
  constructor
  case pending =>
    intro f hf
    have hl := lookahead_of_pending hf
    obtain ⟨hfeed, hz⟩ := hstep.ended hl
    obtain rfl := hz f rfl
    refine ⟨?_, ?_, cs.length, ?_, hg.pull_skip_length⟩
    · simp only [isExhausted, hl]
    · cases n with
      | zero => cases hf
      | succ n =>
        rw [afterReads_succ] at hf ⊢
        exact last_ne_none_of_pending hf
    · rw [hfeed, Counted.skip_eq, Nat.zero_add]
  case calls =>
    obtain ⟨i, hi, hfeed, -⟩ := hstep.exists_skip
    rw [hfeed, Counted.skip_eq, Nat.zero_add]
    refine ⟨rfl, ?_⟩
    intro j hj
    have hji : j + 1 < i := hj
    have hlt : j < cs.length := by omega
    exact ⟨cs[j], hg.pull_skip hlt⟩
  case failures =>
    rw [failures_reads]
    split
    · exact Option.length_toList_le
    · exact Nat.zero_le _
  case closed =>
    intro h
    rw [exists_reads_token?_eq_none_iff] at h
    have hc := isClosed_afterReads h
    refine ⟨?_, ?_, hc.last, ?_⟩
    · simp only [position, hc.lookahead]
    · simp only [isExhausted, hc.lookahead]
    · intro calls
      exact hc.calls calls
  case last => exact last_afterReads rfl n
  case unread =>
    intro h
    have hn := congrArg List.length h
    rw [length_reads] at hn
    obtain rfl : n = 0 := hn
    exact ⟨rfl, rfl⟩
  case ahead =>
    intro h
    cases n with
    | zero => exact absurd rfl h
    | succ n =>
      rw [afterReads_succ]
      exact position_isSome_iff (Option.some_ne_none _)

/-- The life cycle of a lexer, whatever operations are called on it and whatever its source gives.
    A source that promises no end is a feed for a number of calls, and operations that make no more
    calls than that are the same for any greater number. -/
theorem lifeCycle_afterCalls (calls : List Call) :
    (∀ (φ : Type u) [Feed φ] (s : φ),
      LifeCycle s ((counting s).outcomes calls) ((counting s).afterCalls calls)) ∧
    ∀ (σ : Type u) (next : σ → Pull Char × σ) (s : σ) (n m : ℕ),
      ((counting (Unbounded.mk next s n)).afterCalls calls).feed.pulled ≤ n →
        (counting (Unbounded.mk next s n)).answers calls
            = (counting (Unbounded.mk next s (n + m))).answers calls ∧
          Alike ((counting (Unbounded.mk next s n)).afterCalls calls)
            ((counting (Unbounded.mk next s (n + m))).afterCalls calls) := by
  constructor
  · intro φ _ s
    rw [afterCalls_eq_afterReads, outcomes_eq_reads]
    have h := lifeCycle_afterReads s ((counting s).outcomes calls).length
    rwa [length_reads]
  · intro σ next s n m h
    exact Unbounded.calls_congr h m

/-- The endless source is called four times by these operations, the last time when it fails. It may
    as well be taken for a feed of a thousand calls. -/
theorem lifeCycle_of_endless_source :
    let calls : List Call := [.read, .next, .element, .all]
    let l := counting (Unbounded.mk endlessSource 0 4)
    let l' := counting (Unbounded.mk endlessSource 0 1000)
    (l.afterCalls calls).feed.pulled ≤ 4 ∧ l.answers calls = l'.answers calls ∧
      Alike (l.afterCalls calls) (l'.afterCalls calls) := by
  intro calls l l'
  have hcalls : (l.afterCalls calls).feed.pulled ≤ 4 := by decide +kernel
  exact ⟨hcalls, (lifeCycle_afterCalls calls).2 ℕ endlessSource 0 4 996 hcalls⟩

end Lexer

end LispLexer
