import LispLexer.Proofs.Reading
import LispLexer.Session

/-!
# Calls as reads

Every operation on a lexer is a row of reads: none, one, or all reads up to the first that gives no
token. What the operation answers is made from the outcomes of these reads, and it leaves the lexer
where they leave it. So what holds of reads in a row holds of operations in any order.

* `Lexer.reads_add`, `Lexer.afterReads_add`: a row of reads is cut at any point.
* `Lexer.IsClosed.reads`: after the end nothing is read and nothing changes.
* `Lexer.tokens_reads`, `Lexer.failures_reads`: what the outcomes of reads hold.
* `Call.value_run`, `Call.after_run`, `Call.events_run`: an operation is a row of reads.
* `Lexer.outcomes_eq_reads`, `Lexer.afterCalls_eq_afterReads`, `Lexer.log_eq_readEvents`: so are
  operations in a row.
-/

namespace LispLexer

universe u

/-- The failure reported, if there is one. -/
def Outcome.failure? : Outcome → Option Failure
  | failed f => some f
  | _ => none

namespace Lexer

variable {φ : Type u} [Feed φ]

/-! ## Reads in a row -/

/-- The lexer after `n` reads. -/
def afterReads : ℕ → Lexer φ → Lexer φ
  | 0, l => l
  | n + 1, l => afterReads n l.read.after

theorem afterReads_add (l : Lexer φ) (m n : ℕ) :
    l.afterReads (m + n) = (l.afterReads m).afterReads n := by
  induction m generalizing l with
  | zero => rw [Nat.zero_add]; rfl
  | succ m ih => rw [Nat.succ_add, afterReads, afterReads, ih]

theorem afterReads_succ (l : Lexer φ) (n : ℕ) :
    l.afterReads (n + 1) = (l.afterReads n).read.after :=
  l.afterReads_add n 1

theorem exists_lookahead_afterReads (l : Lexer φ) {n : ℕ} (h : 1 ≤ n) :
    ∃ a, (l.afterReads n).lookahead = some a := by
  obtain ⟨m, rfl⟩ := Nat.exists_eq_add_of_le' h
  rw [afterReads_succ]
  exact ⟨_, rfl⟩

theorem reads_add (l : Lexer φ) (m n : ℕ) :
    l.reads (m + n) = l.reads m ++ (l.afterReads m).reads n := by
  induction m generalizing l with
  | zero => rw [Nat.zero_add]; rfl
  | succ m ih => rw [Nat.succ_add, reads, ih, reads, afterReads, List.cons_append]

theorem reads_succ (l : Lexer φ) (n : ℕ) :
    l.reads (n + 1) = l.reads n ++ [(l.afterReads n).read.value] :=
  l.reads_add n 1

theorem length_reads (l : Lexer φ) (n : ℕ) : (l.reads n).length = n := by
  induction n generalizing l with
  | zero => rfl
  | succ n ih => rw [reads, List.length_cons, ih]

/-- What `n` reads in a row tell a log. -/
def readEvents : ℕ → Lexer φ → List Event
  | 0, _ => []
  | n + 1, l => l.read.events ++ readEvents n l.read.after

theorem readEvents_add (l : Lexer φ) (m n : ℕ) :
    l.readEvents (m + n) = l.readEvents m ++ (l.afterReads m).readEvents n := by
  induction m generalizing l with
  | zero => rw [Nat.zero_add]; rfl
  | succ m ih => rw [Nat.succ_add, readEvents, ih, readEvents, afterReads, List.append_assoc]

/-- The last token is that of the last read, if that read gave one. -/
theorem last_afterReads {l : Lexer φ} (h : l.last = none) (n : ℕ) :
    (l.afterReads n).last = (l.reads n).getLast?.bind Outcome.token? := by
  cases n with
  | zero => exact h
  | succ n =>
    rw [afterReads_succ, reads_succ, last_after_read, List.getLast?_concat]
    rfl

theorem after_run (l : Lexer φ) : l.run.after = l.afterReads (l.run.tokens.length + 1) := by
  induction l using readInduction with
  | token l t hv ih =>
    rw [(run_of_first_token hv).1, List.length_cons, afterReads, ← ih, run_of_token hv]
    rfl
  | stop l hne =>
    rw [(run_of_no_token hne).1]
    cases hv : l.read.value with
    | token t => exact absurd hv (hne t)
    | finished => rw [run_of_finished hv]; rfl
    | failed f => rw [run_of_failed hv]; rfl

theorem events_run (l : Lexer φ) : l.run.events = l.readEvents (l.run.tokens.length + 1) := by
  induction l using readInduction with
  | token l t hv ih =>
    rw [(run_of_first_token hv).1, List.length_cons, readEvents, ← ih, run_of_token hv]
    rfl
  | stop l hne =>
    rw [(run_of_no_token hne).1, List.length_nil, readEvents, readEvents, List.append_nil]
    cases hv : l.read.value with
    | token t => exact absurd hv (hne t)
    | finished => rw [run_of_finished hv]
    | failed f => rw [run_of_failed hv]

/-! ## The end -/

/-- The lexer has reported the end of its input or the failure that ended it. -/
structure IsClosed (l : Lexer φ) : Prop where
  lookahead : l.lookahead = some (.ended none)
  last : l.last = none

theorem isClosed_of_no_token {l : Lexer φ} (h : ∀ t, l.read.value ≠ .token t) :
    l.read.after.IsClosed := by
  refine ⟨congrArg some (l.ended_of_no_token h), ?_⟩
  rw [last_after_read]
  cases hv : l.read.value with
  | token t => exact absurd hv (h t)
  | finished => rfl
  | failed f => rfl

theorem isClosed_after_run (l : Lexer φ) : l.run.after.IsClosed := by
  induction l using readInduction with
  | token l t hv ih =>
    rw [run_of_token hv]
    exact ih
  | stop l hne =>
    rw [after_run, (run_of_no_token hne).1]
    exact isClosed_of_no_token hne

/-- A closed lexer finds nothing to read, and a read does not change it. -/
theorem IsClosed.read {l : Lexer φ} (h : l.IsClosed) :
    l.read.value = .finished ∧ l.read.after = l := by
  obtain ⟨s, a, t⟩ := l
  obtain ⟨rfl, rfl⟩ := h
  have hgap : (Cursor.mk s (.ended none)).skipGap = ([], ⟨s, .ended none⟩) :=
    Cursor.skipGap_of_ended rfl
  simp only [Lexer.read, cursor, hgap]
  exact ⟨rfl, rfl⟩

theorem IsClosed.reads {l : Lexer φ} (h : l.IsClosed) (n : ℕ) :
    l.reads n = List.replicate n .finished ∧ l.afterReads n = l := by
  obtain ⟨hv, ha⟩ := h.read
  induction n with
  | zero => exact ⟨rfl, rfl⟩
  | succ n ih =>
    rw [Lexer.reads, afterReads, hv, ha, ih.1, ih.2]
    exact ⟨rfl, rfl⟩

/-! ## The outcomes of reads -/

/-- As many reads as a run has tokens give tokens. -/
theorem reads_of_le {l : Lexer φ} {n : ℕ} (h : n ≤ l.run.tokens.length) :
    l.reads n = (l.run.tokens.take n).map .token := by
  induction l using readInduction generalizing n with
  | token l t hv ih =>
    cases n with
    | zero => rfl
    | succ n =>
      rw [(run_of_first_token hv).1] at h ⊢
      rw [reads, hv, ih (Nat.le_of_succ_le_succ h), List.take_succ_cons, List.map_cons]
  | stop l hne =>
    rw [(run_of_no_token hne).1] at h
    obtain rfl : n = 0 := Nat.le_zero.1 h
    rfl

/-- The tokens of `n` reads are the first `n` tokens of the run. -/
theorem tokens_reads (l : Lexer φ) (n : ℕ) :
    (l.reads n).filterMap Outcome.token? = l.run.tokens.take n := by
  have tokens_map (ts : List Token) : (ts.map Outcome.token).filterMap Outcome.token? = ts := by
    rw [List.filterMap_map]
    exact List.filterMap_some
  rcases Nat.lt_or_ge l.run.tokens.length n with h | h
  · obtain ⟨m, rfl⟩ := Nat.exists_eq_add_of_le h
    have hend : (l.run.failure.elim Outcome.finished .failed).token? = none := by
      cases l.run.failure <;> rfl
    rw [reads_run, List.filterMap_append, tokens_map, List.filterMap_cons_none hend,
      List.take_of_length_le (Nat.le_of_lt h)]
    simp [Outcome.token?]
  · rw [reads_of_le h, tokens_map]

/-- The failures that `n` reads report: that of the run, if they come to its end. -/
theorem failures_reads (l : Lexer φ) (n : ℕ) :
    (l.reads n).filterMap Outcome.failure?
      = if l.run.tokens.length < n then l.run.failure.toList else [] := by
  have failures_map (ts : List Token) : (ts.map Outcome.token).filterMap Outcome.failure? = [] := by
    simp [Outcome.failure?]
  split
  · next h =>
    obtain ⟨m, rfl⟩ := Nat.exists_eq_add_of_le h
    rw [reads_run, List.filterMap_append, failures_map]
    cases l.run.failure <;> simp [Outcome.failure?]
  · next h => rw [reads_of_le (Nat.not_lt.1 h), failures_map]

/-- A failure that reads report is that of the run, and they come to its end. -/
theorem failure_of_mem_reads {l : Lexer φ} {n : ℕ} {f : Failure} (h : .failed f ∈ l.reads n) :
    l.run.tokens.length < n ∧ l.run.failure = some f := by
  have hf : f ∈ (l.reads n).filterMap Outcome.failure? := List.mem_filterMap.2 ⟨_, h, rfl⟩
  rw [failures_reads] at hf
  split at hf
  · next hlt => exact ⟨hlt, Option.mem_toList.1 hf⟩
  · cases hf

/-- The log of reads tells of the failures that they report. -/
theorem stopped_mem_readEvents (l : Lexer φ) (n : ℕ) (f : Failure) :
    .stopped f ∈ l.readEvents n ↔ .failed f ∈ l.reads n := by
  have hread (l : Lexer φ) : .stopped f ∈ l.read.events ↔ .failed f = l.read.value := by
    rw [value_read]
    simp only [read, List.mem_append, List.mem_map]
    cases l.cursor.skipGap.2.lexeme.1 <;> simp [Outcome.events]
  induction n generalizing l with
  | zero => exact ⟨nofun, nofun⟩
  | succ n ih =>
    rw [readEvents, reads, List.mem_append, List.mem_cons, hread]
    exact or_congr_right (ih _)

/-- Some of `n` reads gives no token if there are more reads than tokens. -/
theorem exists_reads_token?_eq_none_iff (l : Lexer φ) (n : ℕ) :
    (∃ o ∈ l.reads n, o.token? = none) ↔ l.run.tokens.length < n := by
  constructor
  · rintro ⟨o, ho, hn⟩
    by_contra h
    rw [reads_of_le (Nat.not_lt.1 h)] at ho
    obtain ⟨t, -, rfl⟩ := List.mem_map.1 ho
    cases hn
  · intro h
    obtain ⟨m, rfl⟩ := Nat.exists_eq_add_of_le h
    refine ⟨l.run.failure.elim .finished .failed, ?_, ?_⟩
    · rw [reads_run]
      simp
    · cases l.run.failure <;> rfl

/-- Reads past the end leave a closed lexer. -/
theorem isClosed_afterReads {l : Lexer φ} {n : ℕ} (h : l.run.tokens.length < n) :
    (l.afterReads n).IsClosed := by
  obtain ⟨m, rfl⟩ := Nat.exists_eq_add_of_le h
  have hc := l.isClosed_after_run
  rw [after_run] at hc
  rw [afterReads_add, (hc.reads m).2]
  exact hc

end Lexer

/-! ## One operation -/

namespace Call

variable {φ : Type u} [Feed φ]

/-- The number of reads that an operation makes. -/
def reads (l : Lexer φ) : Call → ℕ
  | look => 0
  | read => 1
  | next => 1
  | element => 1
  | all => l.run.tokens.length + 1
  | collect => l.run.tokens.length + 1

/-- What an operation answers when its reads have these outcomes. -/
def answer : Call → List Outcome → Answer
  | look, _ => .nothing
  | read, os => .outcome (os.headD .finished)
  | next, os => .token (os.headD .finished).token?
  | element, os => .element (os.headD .finished).element
  | all, os => .tokens (os.filterMap Outcome.token?)
  | collect, os => .collected ((os.findSome? Outcome.failure?).elim
      (.ok (os.filterMap Outcome.token?)) .error)

/-- The answer of an operation is made from the outcomes of its reads. -/
theorem value_run (l : Lexer φ) (c : Call) :
    (c.run l).value = c.answer (l.reads (c.reads l)) := by
  cases c with
  | all =>
    rw [reads, answer, l.tokens_reads, List.take_of_length_le (Nat.le_succ _)]
    rfl
  | collect =>
    have hf : (l.reads (l.run.tokens.length + 1)).findSome? Outcome.failure? = l.run.failure := by
      rw [← List.head?_filterMap, l.failures_reads, if_pos (Nat.lt_succ_self _),
        Option.head?_toList]
    rw [reads, answer, hf, l.tokens_reads, List.take_of_length_le (Nat.le_succ _),
      ← l.collect_value]
    rfl
  | _ => rfl

/-- An operation leaves the lexer where its reads leave it. -/
theorem after_run (l : Lexer φ) (c : Call) : (c.run l).after = l.afterReads (c.reads l) := by
  cases c with
  | all => exact l.after_run
  | collect => exact l.after_collect.trans l.after_run
  | _ => rfl

/-- An operation tells a log what its reads tell it. -/
theorem events_run (l : Lexer φ) (c : Call) : (c.run l).events = l.readEvents (c.reads l) := by
  cases c with
  | look => rfl
  | all => exact l.events_run
  | collect => exact (congrArg Reply.events l.collect_eq_run).trans l.events_run
  | _ => exact (List.append_nil _).symm

end Call

/-! ## Operations in a row -/

namespace Lexer

variable {φ : Type u} [Feed φ]

/-- The lexer after some operations. -/
def afterCalls (l : Lexer φ) (cs : List Call) : Lexer φ :=
  cs.foldl (fun l c => (c.run l).after) l

/-- The answers of some operations in a row. -/
def answers : Lexer φ → List Call → List Answer
  | _, [] => []
  | l, c :: cs => (c.run l).value :: (c.run l).after.answers cs

/-- The outcomes of all reads that some operations in a row make. -/
def outcomes : Lexer φ → List Call → List Outcome
  | _, [] => []
  | l, c :: cs => l.reads (c.reads l) ++ (c.run l).after.outcomes cs

/-- What some operations in a row tell a log. -/
def log : Lexer φ → List Call → List Event
  | _, [] => []
  | l, c :: cs => (c.run l).events ++ (c.run l).after.log cs

theorem afterCalls_cons (l : Lexer φ) (c : Call) (cs : List Call) :
    l.afterCalls (c :: cs) = (c.run l).after.afterCalls cs := rfl

/-- Operations in a row are reads in a row. -/
theorem outcomes_eq_reads (l : Lexer φ) (cs : List Call) :
    l.outcomes cs = l.reads (l.outcomes cs).length := by
  induction cs generalizing l with
  | nil => rfl
  | cons c cs ih =>
    rw [outcomes, List.length_append, length_reads, reads_add, ← Call.after_run, ← ih]

theorem afterCalls_eq_afterReads (l : Lexer φ) (cs : List Call) :
    l.afterCalls cs = l.afterReads (l.outcomes cs).length := by
  induction cs generalizing l with
  | nil => rfl
  | cons c cs ih =>
    rw [outcomes, List.length_append, length_reads, afterReads_add, ← Call.after_run,
      afterCalls_cons, ih]

theorem log_eq_readEvents (l : Lexer φ) (cs : List Call) :
    l.log cs = l.readEvents (l.outcomes cs).length := by
  induction cs generalizing l with
  | nil => rfl
  | cons c cs ih =>
    rw [outcomes, List.length_append, length_reads, readEvents_add, ← Call.after_run, log, ih,
      Call.events_run]

/-- Whatever is called on a closed lexer, its reads find nothing and it stays as it is. -/
theorem IsClosed.calls {l : Lexer φ} (h : l.IsClosed) (cs : List Call) :
    (∀ o ∈ l.outcomes cs, o = .finished) ∧ l.afterCalls cs = l := by
  obtain ⟨hr, ha⟩ := h.reads (l.outcomes cs).length
  rw [afterCalls_eq_afterReads, ha, outcomes_eq_reads, hr]
  exact ⟨fun o ho => List.eq_of_mem_replicate ho, rfl⟩

end Lexer

end LispLexer
