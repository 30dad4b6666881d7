import LispLexer.Proofs.Reading

/-!
# Texts line after line

A text that is lexed without a failure can be put before another, with a line feed between them.
The tokens of both come one after the other, and what is said about the second text is said about
lines further down. It does not matter how the first text ends, be it in a symbol or in a comment
that the line feed closes.

* `Position.past_down`: a text that begins further down ends further down.
* `Lexer.run_of_gap`: a run goes on after a gap as if the gap were not there.
* `Lexer.failure_run_cases`: how a run to the end of the input ends depends on the text alone.
* `lex_append_newline`: two texts with a line feed between them.
-/

namespace LispLexer

open Text Grammar

universe u

/-! ## Positions -/

namespace Text.Position

/-- The position `n` lines further down. -/
def down (p : Position) (n : ℕ) : Position := ⟨p.line + n, p.column⟩

theorem after_down (p : Position) (n : ℕ) (c : Char) : (p.down n).after c = (p.after c).down n := by
  unfold after down
  split
  · rw [Nat.add_right_comm]
  · rfl

theorem past_down (p : Position) (n : ℕ) (cs : List Char) :
    (p.down n).past cs = (p.past cs).down n := by
  induction cs generalizing p with
  | nil => rfl
  | cons c cs ih => rw [past_cons, past_cons, after_down, ih]

/-- A line feed leads to the first column of a line as far down as the text has line feeds. -/
theorem past_newline (cs : List Char) :
    ({} : Position).past (cs ++ ['\n']) = ({} : Position).down (cs.count '\n' + 1) := by
  rw [past_start, List.count_append, List.reverse_append]
  rfl

end Text.Position

/-! ## Runs -/

/-- A line feed separates every token. -/
theorem Grammar.Separated.append_newline {t : Token} {us : List Char} (h : Separated t us)
    (vs : List Char) : Separated t (us ++ '\n' :: vs) := by
  cases us with
  | nil =>
    cases t with
    | symbol => exact (by decide : isConstituent '\n' = false)
    | _ => trivial
  | cons c us => exact h.of_head? rfl

namespace Lexer

variable {φ : Type u} [Feed φ] {l : Lexer φ} {p : Position} {z : Option FeedError}

/-- A run passes the gap before it, and is then a run on what follows. -/
theorem run_of_gap {g cs : List Char} (hg : Gap g) (h : l.cursor.Faces p (g ++ cs) z) :
    ∃ l' : Lexer φ, l'.cursor.Faces (p.past g) cs z ∧ l.run.tokens = l'.run.tokens ∧
      l.run.failure = l'.run.failure := by
  let k := Cursor.advance^[g.length] l.cursor
  let l' : Lexer φ := { feed := k.feed, lookahead := some k.lookahead }
  have hskip : l.cursor.skipGap.2 = l'.cursor.skipGap.2 := Cursor.skipGap_append hg h
  have hvalue : l.read.value = l'.read.value := congrArg (fun k => k.lexeme.1) hskip
  have hafter : l.read.after = l'.read.after := by
    simp only [read]
    rw [hskip]
  refine ⟨l', h.iterate, ?_⟩
  cases hv : l.read.value with
  | token t =>
    obtain ⟨ht, hf⟩ := run_of_first_token hv
    obtain ⟨ht', hf'⟩ := run_of_first_token (hvalue ▸ hv)
    rw [ht, hf, ht', hf', hafter]
    exact ⟨rfl, rfl⟩
  | finished =>
    rw [run_of_finished hv, run_of_finished (hvalue ▸ hv)]
    exact ⟨rfl, rfl⟩
  | failed f =>
    rw [run_of_failed hv, run_of_failed (hvalue ▸ hv)]
    exact ⟨rfl, rfl⟩

/-- At the end of its input a run has no failure, or it leaves a string open. Which it is, and
    where in the text this string begins, depends on the text alone. -/
theorem failure_run_cases (cs : List Char) :
    (∀ {φ : Type u} [Feed φ] {l : Lexer φ} {p : Position}, l.cursor.Faces p cs none →
        l.run.failure = none) ∨
      ∃ us, ∀ {φ : Type u} [Feed φ] {l : Lexer φ} {p : Position}, l.cursor.Faces p cs none →
        l.run.failure = some (.unterminated (p.past us)) := by
  obtain ⟨ps, rest, hp, hf | ⟨hg, hb⟩⟩ := exists_pieces cs
  · exact .inl fun h => failure_run_of_finalGap hp hf h
  · exact .inr ⟨_, fun h => failure_run_of_openBody hp hg hb h⟩

/-- A run on an accepted text, a line feed and another text gives the tokens of the first, and goes
    on with the second. -/
theorem run_of_append_newline {as bs : List Char} {ps : List Piece} {rest : List Char}
    (hp : Pieces rest as ps) (hr : FinalGap rest) (h : l.cursor.Faces p (as ++ '\n' :: bs) z) :
    ∃ l' : Lexer φ, l'.cursor.Faces (p.past (as ++ ['\n'])) bs z ∧
      l.run.tokens = ps.map Piece.token ++ l'.run.tokens ∧ l.run.failure = l'.run.failure := by
  have hp' : Pieces (rest ++ '\n' :: bs) (as ++ '\n' :: bs) ps :=
    hp.append_right _ fun q hq => (hp.separated hq).append_newline bs
  obtain ⟨l₁, h₁, ht₁, hf₁⟩ := run_of_pieces hp' h
  -- the line feed completes the gap in which the first text ends
  rw [List.append_cons] at h₁
  obtain ⟨l₂, h₂, ht₂, hf₂⟩ := run_of_gap hr.newline h₁
  refine ⟨l₂, ?_, by rw [ht₁, ht₂], hf₁.trans hf₂⟩
  rwa [← Position.past_append, ← List.append_assoc, ← hp.eq_spelling_append] at h₂

end Lexer

/-! ## Texts -/

/-- A run on an accepted text, a line feed and a second text goes on with the second one further
    down. -/
theorem Lexer.exists_run_second {a : String} {ts : List Token} (h : lex a = .ok ts) (b : String) :
    ∃ l : Lexer TextFeed,
      l.cursor.Faces (({} : Position).down (a.toList.count '\n' + 1)) b.toList none ∧
        tokensOf (a ++ "\n" ++ b) = ts ++ l.run.tokens ∧
        (Lexer.ofString (a ++ "\n" ++ b)).run.failure = l.run.failure := by
  obtain ⟨hno, rfl⟩ := lex_eq_ok_iff.1 h
  obtain ⟨ps, rest, hp, hr⟩ := exists_pieces a.toList
  have ha := faces_ofString a
  have hrest : FinalGap rest := (failure_run_of_end hp hr ha).1 hno
  have htext := faces_ofString (a ++ "\n" ++ b)
  have hlist : (a ++ "\n" ++ b).toList = a.toList ++ '\n' :: b.toList := by simp
  rw [hlist] at htext
  obtain ⟨l, hl, ht, hf⟩ := run_of_append_newline hp hrest htext
  rw [Position.past_newline] at hl
  refine ⟨l, hl, ?_, hf⟩
  rw [tokensOf_eq_run_tokens, ht, tokensOf_eq_run_tokens, tokens_run hp hr ha]

/-- If a text is lexed without a failure, and a line feed and a second text follow it, then the
    tokens of the second follow those of the first, and a failure of the second, which is an open
    string, is reported as many lines further down as the first text and the line feed have line
    feeds. -/
theorem lex_append_newline {a b : String} {ts : List Token} (h : lex a = .ok ts) :
    tokensOf (a ++ "\n" ++ b) = ts ++ tokensOf b ∧
      (∀ us, lex b = .ok us → lex (a ++ "\n" ++ b) = .ok (ts ++ us)) ∧
      ∀ f, lex b = .error f → ∃ q : Position, f = .unterminated q ∧
        lex (a ++ "\n" ++ b)
          = .error (.unterminated ⟨q.line + (a.toList.count '\n' + 1), q.column⟩) := by
  obtain ⟨l, hl, ht, hf⟩ := Lexer.exists_run_second h b
  have hb := Lexer.faces_ofString b
  have htokens : tokensOf (a ++ "\n" ++ b) = ts ++ tokensOf b := by
    rw [ht, Lexer.tokens_run_eq_tokensOf hl, String.ofList_toList]
  refine ⟨htokens, ?_, ?_⟩
  · intro us hus
    obtain ⟨hno, rfl⟩ := lex_eq_ok_iff.1 hus
    refine lex_eq_ok_iff.2 ⟨?_, htokens⟩
    rcases Lexer.failure_run_cases b.toList with hnone | ⟨us, hopen⟩
    · exact hf.trans (hnone hl)
    · rw [hopen hb] at hno
      cases hno
  · intro f hfail
    rw [lex_eq_error_iff] at hfail
    rcases Lexer.failure_run_cases b.toList with hnone | ⟨us, hopen⟩
    · rw [hnone hb] at hfail
      cases hfail
    · rw [hopen hb] at hfail
      cases hfail
      refine ⟨_, rfl, lex_eq_error_iff.2 ?_⟩
      rw [hf, hopen hl, Position.past_down]
      rfl

/-- The first text ends in a comment, which the line feed closes. The string that the second leaves
    open on its second line is open on the fourth line of both. -/
theorem lex_append_newline_after_comment :
    lex "'a\n;b" = .ok [.quote, .symbol "a"] ∧
      lex "\n(\"c" = .error (.unterminated ⟨2, 2⟩) ∧
      lex "d\n()" = .ok [.symbol "d", .lparen, .rparen] ∧
      lex ("'a\n;b" ++ "\n" ++ "\n(\"c") = .error (.unterminated ⟨4, 2⟩) ∧
      lex ("'a\n;b" ++ "\n" ++ "d\n()")
        = .ok [.quote, .symbol "a", .symbol "d", .lparen, .rparen] := by
  have ha : lex "'a\n;b" = .ok [.quote, .symbol "a"] := by decide +kernel
  have hopen : lex "\n(\"c" = .error (.unterminated ⟨2, 2⟩) := by decide +kernel
  have hd : lex "d\n()" = .ok [.symbol "d", .lparen, .rparen] := by decide +kernel
  obtain ⟨q, hq, herror⟩ := (lex_append_newline ha).2.2 _ hopen
  cases hq
  exact ⟨ha, hopen, hd, herror, (lex_append_newline ha).2.1 _ hd⟩

end LispLexer
