import LispLexer.Proofs.Reading

/-!
# Feeds that fail

A feed that gives some characters and then fails is read as these characters are: the same tokens
come first, then the failure is reported once, and then there is only the end. It does not matter
what was being read when the feed failed, nor what it would have given afterwards, which may well
be characters without end.

* `Unbounded.gives`: a source of any kind is a feed, as far as it is called.
* `reads_of_failing_source`: the reads of a lexer on a feed or source that fails.
-/

namespace LispLexer

open Text

universe u

/-! ## Sources of any kind -/

/-- A source that promises nothing and may give characters for ever: `next` is one call of it in a
    state. It is used as a feed for `budget` calls, and is at its end after them. -/
structure Unbounded (σ : Type u) where
  next : σ → Pull Char × σ
  state : σ
  budget : ℕ

namespace Unbounded

variable {σ : Type u}

/-- One call, if the budget allows it. -/
def pull (s : Unbounded σ) : Pull Char × Unbounded σ :=
  match s.budget with
  | 0 => (.ended, s)
  | n + 1 => ((s.next s.state).1, ⟨s.next, (s.next s.state).2, n⟩)

instance : Feed (Unbounded σ) where
  pull := pull
  ahead s := s.budget
  ahead_lt {s s' c} h := by
    obtain ⟨next, state, budget⟩ := s
    cases budget with
    | zero => cases h
    | succ n =>
      obtain ⟨-, rfl⟩ := Prod.mk.inj h
      exact Nat.lt_succ_self n

/-- The answers of a source to `n` calls in a row. -/
def answers (next : σ → Pull Char × σ) : ℕ → σ → List (Pull Char)
  | 0, _ => []
  | n + 1, s => (next s).1 :: answers next n (next s).2

/-- As long as the budget lasts, the feed gives what the source answers. -/
theorem gives {next : σ → Pull Char × σ} {s : σ} {cs : List Char} {stop : Pull Char} {budget : ℕ}
    (h : answers next (cs.length + 1) s = cs.map .item ++ [stop]) (hb : cs.length < budget) :
    Feed.Gives (⟨next, s, budget⟩ : Unbounded σ) cs stop := by
  induction cs generalizing s budget with
  | nil =>
    obtain ⟨n, rfl⟩ := Nat.exists_eq_add_one.2 hb
    rw [Feed.gives_nil]
    exact (List.cons.inj h).1
  | cons c cs ih =>
    obtain ⟨n, rfl⟩ := Nat.exists_eq_add_one.2 (Nat.zero_lt_of_lt hb)
    obtain ⟨hc, hcs⟩ := List.cons.inj h
    rw [List.length_cons] at hb
    rw [Feed.gives_cons]
    refine ⟨hc, ?_⟩
    apply ih hcs
    omega

end Unbounded

/-! ## Reading on to the failure and past it -/

/-- The outcomes of reads on an input that fails with `e` after the characters `cs`: the tokens of
    the characters, the failure, and `n` times the end. The failure stands where the next character
    would have stood. -/
def failingOutcomes (cs : List Char) (e : FeedError) (n : ℕ) : List Outcome :=
  (tokensOf (String.ofList cs)).map .token ++
    .failed (.feed ⟨⟨1 + cs.count '\n', 1 + (cs.reverse.takeWhile (· ≠ '\n')).length⟩, e⟩) ::
      List.replicate n .finished

theorem length_failingOutcomes (cs : List Char) (e : FeedError) (n : ℕ) :
    (failingOutcomes cs e n).length = (tokensOf (String.ofList cs)).length + 1 + n := by
  simp only [failingOutcomes, List.length_append, List.length_map, List.length_cons,
    List.length_replicate]
  omega

variable {φ : Type u} [Feed φ]

theorem Lexer.reads_of_gives_failed {s : φ} {cs : List Char} {e : FeedError}
    (h : Feed.Gives s cs (.failed e)) (n : ℕ) :
    Lexer.reads (failingOutcomes cs e n).length { feed := s } = failingOutcomes cs e n := by
  have hf : ({ feed := s } : Lexer φ).cursor.Faces {} cs (some e) :=
    Cursor.faces_pull (z := some e) h {}
  have hr := reads_run { feed := s } n
  rw [tokens_run_eq_tokensOf hf, failure_run_of_error hf, Position.past_start] at hr
  rw [length_failingOutcomes]
  exact hr

/-- On every feed, and on every source of any kind, that gives the characters `cs` and then fails
    with `e`, reading gives the tokens of `cs`, the failure, and nothing more. The failure is never
    reported as incomplete input. No feed leads to one of the two causes that are only guarded
    against. -/
theorem reads_of_failing_source (cs : List Char) (e : FeedError) (n : ℕ) :
    (∀ (φ : Type u) [Feed φ] (s : φ), Feed.Gives s cs (.failed e) →
      Lexer.reads (failingOutcomes cs e n).length { feed := s } = failingOutcomes cs e n) ∧
    (∀ (σ : Type u) (next : σ → Pull Char × σ) (s : σ) (budget : ℕ),
      Unbounded.answers next (cs.length + 1) s = cs.map .item ++ [.failed e] →
      cs.length < budget →
      Lexer.reads (failingOutcomes cs e n).length { feed := Unbounded.mk next s budget }
        = failingOutcomes cs e n) ∧
    (∀ p : Position, (Failure.feed ⟨p, e⟩).report = .failed
      s!"failed to read input at line {p.line} column {p.column}: {e.message}") ∧
    ∀ (φ : Type u) [Feed φ] (l : Lexer φ),
      (∀ c q, l.read.value ≠ .failed (.unexpected c q)) ∧
      ∀ q, l.read.value ≠ .failed (.noSymbol q) := by
  refine ⟨?_, ?_, ?_, ?_⟩
  · intro φ _ s h
    exact Lexer.reads_of_gives_failed h n
  · intro σ next s budget h hb
    exact Lexer.reads_of_gives_failed (Unbounded.gives h hb) n
  · intro p
    have hlit : "failed to read input at line " = "failed to read input at " ++ "line " := rfl
    rw [hlit]
    simp only [Failure.report, Position.text, toString, String.append_assoc]
  · intro φ _ l
    have hc := l.read_cases
    constructor
    · intro c q hv
      rw [hv] at hc
      simp at hc
    · intro q hv
      rw [hv] at hc
      simp at hc

/-- A source that gives `(ab`, fails once, and then gives `x` for ever. -/
def endlessSource (i : ℕ) : Pull Char × ℕ :=
  (if i = 3 then .failed (.fault ⟨.other, "disk on fire"⟩)
    else .item (['(', 'a', 'b'].getD i 'x'), i + 1)

/-- The endless source is read as `(ab` and a failure at line 1, column 4. -/
theorem reads_of_endless_source :
    Lexer.reads 5 { feed := Unbounded.mk endlessSource 0 1000 }
      = [.token .lparen, .token (.symbol "ab"),
        .failed (.feed ⟨⟨1, 4⟩, .fault ⟨.other, "disk on fire"⟩⟩), .finished, .finished] := by
  have hr := (reads_of_failing_source ['(', 'a', 'b'] (.fault ⟨.other, "disk on fire"⟩) 2).2.1 ℕ
    endlessSource 0 1000 (by decide) (by decide)
  have ho : failingOutcomes ['(', 'a', 'b'] (.fault ⟨.other, "disk on fire"⟩) 2
      = [.token .lparen, .token (.symbol "ab"),
        .failed (.feed ⟨⟨1, 4⟩, .fault ⟨.other, "disk on fire"⟩⟩), .finished, .finished] := by
    decide +kernel
  rw [ho] at hr
  exact hr

end LispLexer
