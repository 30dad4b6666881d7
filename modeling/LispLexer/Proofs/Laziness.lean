import LispLexer.Proofs.FailingFeed
import LispLexer.Proofs.InStep
import LispLexer.Proofs.Lookahead

/-!
# What is not pulled does not matter

What a lexer answers, and how it stands, depends only on the pulls that it has made. On another feed
that gives the same at these pulls it would have answered the same and made no other pulls. So a
source without end can be taken for a feed of any length that has not been used up.

* `Lexer.afterReads_congr`: reads that stop within the characters that two feeds share.
* `Lexer.answers_congr`: outcomes of reads that are all tokens determine the answers.
* `Lexer.calls_congr`: operations on two feeds that agree on the pulls made.
* `Unbounded.calls_congr`: how long a source without end is taken to be.
-/

namespace LispLexer

open Text Grammar

universe u

/-! ## Feeds that agree -/

namespace Feed

variable {φ ψ : Type u} [Feed φ] [Feed ψ] {s : φ} {s' : ψ} {n : ℕ}

/-- Two feeds give the same at the first `n` pulls. -/
def Agree (n : ℕ) (s : φ) (s' : ψ) : Prop :=
  ∀ i < n, (pull (skip i s)).1 = (pull (skip i s')).1

theorem Agree.tail (h : Agree (n + 1) s s') :
    (pull s).1 = (pull s').1 ∧ Agree n (pull s).2 (pull s').2 :=
  ⟨h 0 (Nat.succ_pos n), fun i hi => h (i + 1) (Nat.succ_lt_succ hi)⟩

theorem Gives.of_agree {cs : List Char} {stop : Pull Char} (h : Gives s cs stop)
    (ha : Agree (cs.length + 1) s s') : Gives s' cs stop := by
  induction cs generalizing s s' with
  | nil =>
    rw [gives_nil] at h ⊢
    rw [← ha.tail.1, h]
  | cons c cs ih =>
    rw [gives_cons] at h ⊢
    obtain ⟨hp, hn⟩ := ha.tail
    exact ⟨hp ▸ h.1, ih h.2 hn⟩

theorem Gives.exists_append {ps ys : List Char} {stop : Pull Char} (h : Gives s (ps ++ ys) stop)
    (ha : Agree ps.length s s') : ∃ ys' z', Gives s' (ps ++ ys') (.stop z') := by
  induction ps generalizing s s' with
  | nil => exact exists_gives s'
  | cons c ps ih =>
    rw [List.cons_append, gives_cons] at h
    obtain ⟨hp, hn⟩ := ha.tail
    obtain ⟨ys', z', hg⟩ := ih h.2 hn
    exact ⟨ys', z', gives_cons.2 ⟨hp ▸ h.1, hg⟩⟩

end Feed

namespace Lexer

variable {φ ψ : Type u} [Feed φ] [Feed ψ] {s : φ} {s' : ψ}

/-! ## Reads -/

/-- The lexers look the same and have made as many pulls. -/
structure Alike (l : Lexer (Counted φ)) (l' : Lexer (Counted ψ)) : Prop where
  lookahead : l.lookahead = l'.lookahead
  last : l.last = l'.last
  pulled : l.feed.pulled = l'.feed.pulled

theorem InStep.counting {cs : List Char} {z : Option FeedError} (h : Feed.Gives s cs (.stop z))
    (h' : Feed.Gives s' cs (.stop z)) :
    InStep (Counted.mk s 0) (Counted.mk s' 0) cs z (counting s) (counting s') :=
  .start (Counted.gives h 0) (Counted.gives h' 0)

theorem InStep.alike {cs : List Char} {z : Option FeedError} {l : Lexer (Counted φ)}
    {l' : Lexer (Counted ψ)} (h : InStep (Counted.mk s 0) (Counted.mk s' 0) cs z l l') :
    Alike l l' := by
  obtain ⟨i, -, hl, hl'⟩ := h.exists_skip
  refine ⟨h.lookahead, h.last, ?_⟩
  rw [hl, hl', Counted.skip_eq, Counted.skip_eq]

/-- Reads that give more than tokens pull all characters of their feed, and the stop. -/
theorem pulled_afterReads {cs : List Char} {z : Option FeedError} (hg : Feed.Gives s cs (.stop z))
    {n : ℕ} (hn : (counting s).run.tokens.length < n) :
    ((counting s).afterReads n).feed.pulled = cs.length + 1 := by
  have hstep := ((InStep.counting hg hg).reads n).2
  rw [(hstep.ended (isClosed_afterReads hn).lookahead).1, Counted.skip_eq, Nat.zero_add]

/-- Reads that pull nothing but characters that two feeds share are the same on both. -/
theorem afterReads_congr {ps ys ys' : List Char} {z z' : Option FeedError}
    (hg : Feed.Gives s (ps ++ ys) (.stop z)) (hg' : Feed.Gives s' (ps ++ ys') (.stop z')) {n : ℕ}
    (hn : ((counting s).afterReads n).feed.pulled ≤ ps.length) :
    (counting s).reads n = (counting s').reads n ∧
      Alike ((counting s).afterReads n) ((counting s').afterReads n) := by
  rcases Nat.eq_zero_or_pos n with rfl | hpos
  · exact ⟨rfl, rfl, rfl, rfl⟩
  have hle : n ≤ (counting s).run.tokens.length := by
    by_contra hlt
    have hpulled := pulled_afterReads hg (Nat.lt_of_not_le hlt)
    rw [List.length_append] at hpulled
    omega
  -- the reads are those of the first pieces, which end before the shared characters do
  have hs := stands_counting hg
  obtain ⟨r, qs, hq, rfl⟩ := exists_first_pieces hs.faces hle
  obtain ⟨hreads, hstands⟩ := reads_of_pieces hq hs
  obtain ⟨a, ha⟩ := (counting s).exists_lookahead_afterReads hpos
  rw [pulled_of_stands ha hstands] at hn
  obtain ⟨c, p, rfl, rfl⟩ := exists_cons_of_append_eq hq.eq_spelling_append hn
  have hq' : Pieces (c :: p ++ ys') _ qs := hq.with_rest_of_head? rfl
  rw [← List.append_assoc] at hq'
  obtain ⟨hreads', hstands'⟩ := reads_of_pieces hq' (stands_counting hg')
  obtain ⟨a', ha'⟩ := (counting s').exists_lookahead_afterReads hpos
  have heq : (counting s).reads qs.length = (counting s').reads qs.length :=
    hreads.trans hreads'.symm
  refine ⟨heq, ?_, ?_, ?_⟩
  · rw [lookahead_of_stands ha hstands, lookahead_of_stands ha' hstands']
  · rw [last_afterReads rfl, last_afterReads rfl, heq]
  · rw [pulled_of_stands ha hstands, pulled_of_stands ha' hstands']

/-! ## Operations -/

/-- An operation whose reads all give tokens makes as many reads on any lexer. -/
theorem callReads_congr {l : Lexer φ} {c : Call} (h : ∀ o ∈ l.reads (c.reads l), o.token? ≠ none)
    (l' : Lexer ψ) : c.reads l = c.reads l' := by
  have reads_end : ¬∀ o ∈ l.reads (l.run.tokens.length + 1), o.token? ≠ none := by
    intro hall
    obtain ⟨o, ho, hn⟩ := (l.exists_reads_token?_eq_none_iff _).2 (Nat.lt_succ_self _)
    exact hall o ho hn
  cases c with
  | all => exact absurd h reads_end
  | collect => exact absurd h reads_end
  | _ => rfl

/-- Operations whose reads all give tokens are the same on a lexer that gives these tokens, too. -/
theorem answers_congr {l : Lexer φ} {l' : Lexer ψ} {calls : List Call}
    (ht : ∀ o ∈ l.outcomes calls, o.token? ≠ none)
    (h : l'.reads (l.outcomes calls).length = l.outcomes calls) :
    l.outcomes calls = l'.outcomes calls ∧ l.answers calls = l'.answers calls := by
  induction calls generalizing l l' with
  | nil => exact ⟨rfl, rfl⟩
  | cons c calls ih =>
    have hcount : c.reads l = c.reads l' :=
      callReads_congr (fun o ho => ht o (List.mem_append_left _ ho)) l'
    rw [outcomes, List.length_append, length_reads, reads_add] at h
    have hlen : (l'.reads (c.reads l)).length = (l.reads (c.reads l)).length := by
      rw [length_reads, length_reads]
    obtain ⟨hfirst, hrest⟩ := List.append_inj h hlen
    rw [hcount, ← Call.after_run] at hrest
    obtain ⟨ho, ha⟩ := ih (fun o ho => ht o (List.mem_append_right _ ho)) hrest
    rw [outcomes, outcomes, answers, answers, Call.value_run, Call.value_run, ← hcount, hfirst, ho,
      ha]
    exact ⟨rfl, rfl⟩

/-- On a feed that agrees with the first at the pulls made, operations answer the same and leave a
    lexer that looks the same and has made as many pulls. -/
theorem calls_congr (calls : List Call)
    (h : Feed.Agree ((counting s).afterCalls calls).feed.pulled s s') :
    (counting s).answers calls = (counting s').answers calls ∧
      Alike ((counting s).afterCalls calls) ((counting s').afterCalls calls) := by
  obtain ⟨cs, z, hg⟩ := Feed.exists_gives s
  -- either the stop has been pulled, and the feeds give the same to the end, or all pulls gave
  -- characters, and what comes after them may differ
  rcases Nat.lt_or_ge cs.length ((counting s).afterCalls calls).feed.pulled with hlt | hle
  · have hg' := hg.of_agree fun i hi => h i (by omega)
    have hstart := InStep.counting hg hg'
    exact ⟨hstart.answers calls, (hstart.afterCalls calls).alike⟩
  · rw [afterCalls_eq_afterReads] at h hle ⊢
    rw [← cs.take_append_drop ((counting s).afterReads _).feed.pulled] at hg
    have hlen := List.length_take_of_le hle
    obtain ⟨ys', z', hg'⟩ := hg.exists_append (hlen ▸ h)
    obtain ⟨hreads, halike⟩ := afterReads_congr hg hg' (Nat.le_of_eq hlen.symm)
    have htokens : ∀ o ∈ (counting s).outcomes calls, o.token? ≠ none := by
      intro o ho hn
      rw [outcomes_eq_reads] at ho
      have hend := ((counting s).exists_reads_token?_eq_none_iff _).1 ⟨o, ho, hn⟩
      rw [List.take_append_drop] at hg
      have hpulled := pulled_afterReads hg hend
      omega
    rw [← outcomes_eq_reads] at hreads
    obtain ⟨ho, ha⟩ := answers_congr htokens hreads.symm
    rw [afterCalls_eq_afterReads, ← ho]
    exact ⟨ha, halike⟩

end Lexer

/-! ## Sources of any kind -/

namespace Unbounded

variable {σ : Type u} {next : σ → Pull Char × σ} {s : σ} {n : ℕ}

theorem agree (m : ℕ) : Feed.Agree n (mk next s n) (mk next s (n + m)) := by
  intro i hi
  induction n generalizing s i with
  | zero => exact absurd hi (Nat.not_lt_zero i)
  | succ n ih =>
    rw [Nat.succ_add]
    cases i with
    | zero => rfl
    | succ i => exact ih i (Nat.lt_of_succ_lt_succ hi)

/-- How many calls a source is good for does not matter to operations that make no more. -/
theorem calls_congr {calls : List Call}
    (h : ((Lexer.counting (mk next s n)).afterCalls calls).feed.pulled ≤ n) (m : ℕ) :
    (Lexer.counting (mk next s n)).answers calls
        = (Lexer.counting (mk next s (n + m))).answers calls ∧
      Lexer.Alike ((Lexer.counting (mk next s n)).afterCalls calls)
        ((Lexer.counting (mk next s (n + m))).afterCalls calls) :=
  Lexer.calls_congr calls fun i hi => agree m i (Nat.lt_of_lt_of_le hi h)

end Unbounded

end LispLexer
