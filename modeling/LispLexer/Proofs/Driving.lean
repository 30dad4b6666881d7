import LispLexer.Proofs.Laziness

/-!
# Ways of driving a lexer

It makes no difference by which operations a lexer is driven. Single reads, steps of the sequence
and bulk operations hand out the same tokens in the same order, and only what they say about the end
differs. Collecting and taking all tokens do the same to a lexer and differ in the answer alone. All
this holds on every feed. A source without end is a feed for a number of calls, and it does not
matter for how many, as long as no more are made.

* `Call.given_run`, `Call.final_run`: what one operation hands out and whether it comes to the end.
* `Lexer.given_answers`: what operations in a row hand out.
* `Lexer.ways_agree`: the ways of driving compared.
-/

namespace LispLexer

universe u

namespace Answer

/-- The tokens that an answer hands out. -/
def given : Answer → List Token
  | nothing => []
  | outcome o => o.token?.toList
  | token t => t.toList
  | element (some (.ok t)) => [t]
  | element _ => []
  | tokens ts => ts
  | collected (.ok ts) => ts
  | collected (.error _) => []

/-- Whether an answer is the last to hand out tokens: it reports the end or a failure, or it hands
    out all tokens that there are. -/
def final : Answer → Bool
  | nothing => false
  | outcome o => o.token?.isNone
  | token t => t.isNone
  | element (some (.ok _)) => false
  | element _ => true
  | tokens _ => true
  | collected _ => true

end Answer

/-- An outcome hands out the same token as an element of the sequence. -/
theorem Outcome.given_element (o : Outcome) :
    (Answer.element o.element).given = o.token?.toList := by
  cases o <;> rfl

theorem Outcome.final_element (o : Outcome) :
    (Answer.element o.element).final = o.token?.isNone := by
  cases o <;> rfl

/-! ## One operation -/

namespace Call

variable {φ : Type u} [Feed φ]

/-- An operation hands out the tokens of its reads. Only collecting may keep them back. -/
theorem given_run (l : Lexer φ) {c : Call} (hc : c ≠ .collect) :
    (c.run l).value.given = (l.reads (c.reads l)).filterMap Outcome.token? := by
  have given_read (o : Outcome) : [o].filterMap Outcome.token? = o.token?.toList := by
    cases o <;> rfl
  rw [value_run]
  cases c with
  | look => rfl
  | read => exact (given_read l.read.value).symm
  | next => exact (given_read l.read.value).symm
  | element => exact l.read.value.given_element.trans (given_read l.read.value).symm
  | all => rfl
  | collect => exact absurd rfl hc

/-- A last answer comes of a read that gave no token. -/
theorem final_run (l : Lexer φ) {c : Call} (h : (c.run l).value.final = true) :
    ∃ o ∈ l.reads (c.reads l), o.token? = none := by
  have of_read (hn : l.read.value.token?.isNone = true) : ∃ o ∈ l.reads 1, o.token? = none :=
    ⟨l.read.value, List.mem_singleton_self _, Option.isNone_iff_eq_none.1 hn⟩
  have of_end : ∃ o ∈ l.reads (l.run.tokens.length + 1), o.token? = none :=
    (l.exists_reads_token?_eq_none_iff _).2 (Nat.lt_succ_self _)
  cases c with
  | look => cases h
  | read => exact of_read h
  | next => exact of_read h
  | element => exact of_read (l.read.value.final_element.symm.trans h)
  | all => exact of_end
  | collect => exact of_end

end Call

/-! ## Operations in a row -/

namespace Lexer

variable {φ : Type u} [Feed φ]

/-- Operations that do not collect hand out the tokens of their reads. -/
theorem given_answers (l : Lexer φ) {calls : List Call} (hc : .collect ∉ calls) :
    (l.answers calls).flatMap Answer.given = (l.outcomes calls).filterMap Outcome.token? := by
  induction calls generalizing l with
  | nil => rfl
  | cons c calls ih =>
    obtain ⟨hne, hc⟩ := not_or.1 (mt List.mem_cons.2 hc)
    rw [answers, outcomes, List.flatMap_cons, List.filterMap_append, ih _ hc,
      Call.given_run l (Ne.symm hne)]

theorem final_answers (l : Lexer φ) {calls : List Call}
    (h : ∃ a ∈ l.answers calls, a.final = true) :
    ∃ o ∈ l.outcomes calls, o.token? = none := by
  induction calls generalizing l with
  | nil =>
    obtain ⟨a, ha, -⟩ := h
    cases ha
  | cons c calls ih =>
    obtain ⟨a, ha, hf⟩ := h
    rcases List.mem_cons.1 ha with rfl | ha
    · obtain ⟨o, ho, hn⟩ := Call.final_run l hf
      exact ⟨o, List.mem_append_left _ ho, hn⟩
    · obtain ⟨o, ho, hn⟩ := ih _ ⟨a, ha, hf⟩
      exact ⟨o, List.mem_append_right _ ho, hn⟩

/-- Once an answer was the last, all tokens have been handed out. -/
theorem given_of_final (l : Lexer φ) {calls : List Call} (hc : .collect ∉ calls)
    (h : ∃ a ∈ l.answers calls, a.final = true) :
    (l.answers calls).flatMap Answer.given = l.run.tokens := by
  have hend := l.final_answers h
  rw [outcomes_eq_reads, exists_reads_token?_eq_none_iff] at hend
  rw [l.given_answers hc, outcomes_eq_reads, tokens_reads,
    List.take_of_length_le (Nat.le_of_lt hend)]

/-! ## Collecting and taking all -/

/-- Without a failure collecting gives the tokens. -/
theorem collect_of_no_failure (l : Lexer φ)
    (h : ∀ n, (l.reads n).filterMap Outcome.failure? = []) : l.collect.value = .ok l.all.value := by
  have hn := h (l.run.tokens.length + 1)
  rw [failures_reads, if_pos (Nat.lt_succ_self _)] at hn
  rw [collect_value, Option.toList_eq_nil_iff.1 hn]
  rfl

/-- Collecting gives the failure that reads come to first. -/
theorem collect_of_first_failure (l : Lexer φ) {n : ℕ} {f : Failure}
    (h : ((l.reads n).filterMap Outcome.failure?).head? = some f) :
    l.collect.value = .error f := by
  rw [failures_reads] at h
  split at h
  · rw [Option.head?_toList] at h
    rw [collect_value, h]
    rfl
  · cases h

/-- The tokens kept from a text that fails are those read before the failure. -/
theorem reads_of_lex_error {s : String} {e : Failure} (h : lex s = .error e) :
    (Lexer.ofString s).reads ((tokensOf s).length + 1)
      = (tokensOf s).map .token ++ [.failed e] := by
  rw [lex, collect_value] at h
  cases hf : (Lexer.ofString s).run.failure with
  | none =>
    rw [hf] at h
    cases h
  | some f =>
    rw [hf] at h
    cases h
    rw [tokensOf_eq_run_tokens]
    have hr := (Lexer.ofString s).reads_run 0
    rwa [hf] at hr

/-- The ways of driving a lexer compared, from any state and on any feed. Operations other than
    collecting hand out the tokens of some number of reads, and those of any number of reads once
    an answer has been the last. Collecting gives what taking all tokens gives, or the failure that
    reads come to first, and leaves the lexer as taking all tokens does, with as many pulls made on
    its feed. So a text that is lexed without a failure has the same tokens in the lenient way, and
    one that fails has those read before the failure. A source that promises no end is a feed for a
    number of calls, and operations that make no more calls than that answer the same for any
    greater number. -/
theorem ways_agree (l : Lexer φ) :
    (∀ calls : List Call, .collect ∉ calls →
      (∃ n, (l.answers calls).flatMap Answer.given = (l.reads n).filterMap Outcome.token?) ∧
      ((∃ a ∈ l.answers calls, a.final = true) →
        ∀ n, (l.reads n).filterMap Outcome.token? <+: (l.answers calls).flatMap Answer.given)) ∧
    ((∀ n, (l.reads n).filterMap Outcome.failure? = []) → l.collect.value = .ok l.all.value) ∧
    (∀ n f, ((l.reads n).filterMap Outcome.failure?).head? = some f →
      l.collect.value = .error f) ∧
    l.collect.after = l.all.after ∧
    (∀ m : Lexer (Counted φ), m.collect.after.feed.pulled = m.all.after.feed.pulled) ∧
    (∀ s ts, lex s = .ok ts → tokensOf s = ts) ∧
    (∀ s e, lex s = .error e →
      ∃ n, (Lexer.ofString s).reads (n + 1) = (tokensOf s).map .token ++ [.failed e]) ∧
    ∀ (σ : Type u) (next : σ → Pull Char × σ) (s : σ) (n m : ℕ) (calls : List Call),
      ((counting (Unbounded.mk next s n)).afterCalls calls).feed.pulled ≤ n →
        (counting (Unbounded.mk next s n)).answers calls
            = (counting (Unbounded.mk next s (n + m))).answers calls ∧
          Alike ((counting (Unbounded.mk next s n)).afterCalls calls)
            ((counting (Unbounded.mk next s (n + m))).afterCalls calls) := by
  refine ⟨?_, l.collect_of_no_failure, fun _ _ => l.collect_of_first_failure, l.after_collect,
    fun m => congrArg (fun m => m.feed.pulled) m.after_collect, ?_, ?_,
    fun _ _ _ _ m _ h => Unbounded.calls_congr h m⟩
  · intro calls hc
    refine ⟨⟨(l.outcomes calls).length, ?_⟩, ?_⟩
    · rw [l.given_answers hc, ← outcomes_eq_reads]
    · intro hfinal n
      rw [l.given_of_final hc hfinal, tokens_reads]
      exact List.take_prefix n _
  · intro s ts h
    exact (lex_eq_ok_iff.1 h).2
  · intro s e h
    exact ⟨_, reads_of_lex_error h⟩

/-- Driven in a mixed way, a lexer on a text with an open string hands out what reads hand out,
    and collecting gives the failure. A lexer on `a` collects one token. The endless source may be
    taken for a feed of four calls, or of a thousand, if two tokens are read from it. -/
theorem ways_agree_on_open_string :
    let l := Lexer.ofString "('a \"b"
    let f := Failure.unterminated ⟨1, 5⟩
    (l.reads 5).filterMap Outcome.token?
        <+: (l.answers [.next, .element, .all]).flatMap Answer.given ∧
      l.collect.value = .error f ∧
      (∃ n, l.reads (n + 1) = [.token .lparen, .token .quote, .token (.symbol "a"), .failed f]) ∧
      (Lexer.ofString "a").collect.value = .ok [.symbol "a"] ∧
      tokensOf "a" = [.symbol "a"] ∧
      (counting (Unbounded.mk endlessSource 0 4)).answers [.read, .next]
        = (counting (Unbounded.mk endlessSource 0 1000)).answers [.read, .next] := by
  intro l f
  have hreads : l.reads 5
      = [.token .lparen, .token .quote, .token (.symbol "a"), .failed f, .finished] := by
    decide +kernel
  have hany : (l.answers [.next, .element, .all]).any Answer.final = true := by decide +kernel
  have hfinal : ∃ a ∈ l.answers [.next, .element, .all], a.final = true := List.any_eq_true.1 hany
  obtain ⟨hcalls, -, herror, -, -, -, htext, hsource⟩ := l.ways_agree
  obtain ⟨-, hok, -, -, -, hkept, -⟩ := (Lexer.ofString "a").ways_agree
  have hpulled : ((counting (Unbounded.mk endlessSource 0 4)).afterCalls [.read, .next]).feed.pulled
      ≤ 4 := by
    decide +kernel
  have hcollect : l.collect.value = .error f := herror 5 f (by rw [hreads]; rfl)
  have htokens : tokensOf "('a \"b" = [.lparen, .quote, .symbol "a"] := by decide +kernel
  have hall : (Lexer.ofString "a").all.value = [.symbol "a"] := by decide +kernel
  have hone : (Lexer.ofString "a").collect.value = .ok [.symbol "a"] := by
    rw [hok, hall]
    intro n
    have hrun : (Lexer.ofString "a").run.failure = none := by decide +kernel
    rw [failures_reads, hrun]
    split <;> rfl
  refine ⟨(hcalls _ (by decide)).2 hfinal 5, hcollect, ?_, hone, hkept "a" _ hone,
    (hsource ℕ endlessSource 0 4 996 _ hpulled).1⟩
  obtain ⟨n, hn⟩ := htext _ f hcollect
  rw [htokens] at hn
  exact ⟨n, hn⟩

end Lexer

end LispLexer
