import LispLexer.Lex
import LispLexer.Proofs.Pieces
import LispLexer.Proofs.Scan

/-!
# Reads and runs on the grammar

What a read makes of the next piece of a text, and a run of all its pieces. A run depends only on
what its lexer faces, so the run on a feed that fails can be compared with the run on a text.

* `Lexer.read_of_piece`, `Lexer.read_of_finalGap`, `Lexer.read_of_openBody`: one read.
* `Lexer.read_cases`: there is no other way for a read to end.
* `Lexer.readInduction`: induction along the reads of a lexer.
* `Lexer.tokens_run`: a run gives the tokens of the pieces.
* `Lexer.reads_run`: reading on and on gives the tokens of the run, what ended it, and then nothing.
* `Lexer.collect_eq_run`: collecting is a run.
-/

namespace LispLexer

open Text Grammar

universe u

/-- A lexeme and the text of its token begin with the same character, which is not part of a
    gap. -/
theorem Grammar.Lexeme.begins {t : Token} {w : List Char} (h : Lexeme t w) :
    ∃ c r cs, w = c :: r ∧ t.text.toList = c :: cs ∧ Opens c := by
  cases h with
  | lparen => exact ⟨'(', [], [], rfl, rfl, by decide, by decide⟩
  | rparen => exact ⟨')', [], [], rfl, rfl, by decide, by decide⟩
  | quote => exact ⟨'\'', [], [], rfl, rfl, by decide, by decide⟩
  | @symbol c w hs _ hw =>
    have hc := isConstituent_iff.1 (hw c List.mem_cons_self)
    exact ⟨c, w, w, rfl, String.toList_ofList, hc.1, hs⟩
  | @string raw cs _ =>
    exact ⟨'"', raw ++ ['"'], cs ++ ['"'], rfl, String.toList_ofList, by decide, by decide⟩

theorem Grammar.Lexeme.opens {t : Token} {w : List Char} (h : Lexeme t w) :
    ∃ c r, w = c :: r ∧ Opens c := by
  obtain ⟨c, r, _, hw, _, hc⟩ := h.begins
  exact ⟨c, r, hw, hc⟩

namespace Lexer

variable {φ : Type u} [Feed φ] {l : Lexer φ} {p : Position} {z : Option FeedError}

/-! ## One read -/

theorem cursor_after_read (l : Lexer φ) : l.read.after.cursor = l.cursor.skipGap.2.lexeme.2 := rfl

theorem value_read (l : Lexer φ) : l.read.value = l.cursor.skipGap.2.lexeme.1 := rfl

/-- A piece is read as its token, and the lexer goes on just after it. -/
theorem read_of_piece {g w r : List Char} {t : Token} (hg : Gap g) (hl : Lexeme t w)
    (hs : Separated t r) (h : l.cursor.Faces p (g ++ (w ++ r)) z) :
    l.read.value = .token t ∧
      l.read.after.cursor = Cursor.advance^[(g ++ w).length] l.cursor := by
  obtain ⟨c, w', rfl, hc⟩ := hl.opens
  have hgap : l.cursor.skipGap.2 = Cursor.advance^[g.length] l.cursor :=
    Cursor.skipGap_of_opens hg hc h
  have hlex := Cursor.lexeme_of_lexeme hl hs h.iterate
  rw [value_read, cursor_after_read, hgap, hlex, List.length_append, Nat.add_comm,
    Function.iterate_add_apply]
  exact ⟨rfl, rfl⟩

/-- At a final gap there is nothing to read but an error of the feed. -/
theorem read_of_finalGap {g : List Char} (hg : FinalGap g) (h : l.cursor.Faces p g z) :
    l.read.value = z.elim .finished (fun e => .failed (.feed ⟨p.past g, e⟩)) ∧
      l.read.after.cursor = (Cursor.advance^[g.length] l.cursor).close := by
  have he : (Cursor.advance^[g.length] l.cursor).Faces (p.past g) [] z :=
    Cursor.Faces.iterate (by simpa using h)
  rw [value_read, cursor_after_read, Cursor.skipGap_of_finalGap hg h, Cursor.lexeme_of_end he]
  exact ⟨rfl, rfl⟩

/-- A string without an end is reported at its opening quote, unless the feed failed. -/
theorem read_of_openBody {g body : List Char} (hg : Gap g) (hb : OpenBody body)
    (h : l.cursor.Faces p (g ++ '"' :: body) z) :
    l.read.value = .failed (z.elim (.unterminated (p.past g))
        fun e => .feed ⟨p.past (g ++ '"' :: body), e⟩) ∧
      l.read.after.cursor
        = (Cursor.advance^[(g ++ '"' :: body).length] l.cursor).close := by
  have hgap : l.cursor.skipGap.2 = Cursor.advance^[g.length] l.cursor :=
    Cursor.skipGap_of_opens hg ⟨by decide, by decide⟩ h
  have hlex := Cursor.lexeme_of_openBody hb h.iterate
  have hlen : (g ++ '"' :: body).length = body.length + 1 + g.length := by
    simp only [List.length_append, List.length_cons]
    omega
  rw [value_read, cursor_after_read, hgap, hlex, Position.past_append, hlen,
    Function.iterate_add_apply _ (body.length + 1) g.length]
  exact ⟨rfl, rfl⟩

/-- A read gives a token, or it ends the input and reports nothing but an error of the feed or a
    string without an end. -/
theorem read_cases (l : Lexer φ) :
    (∃ t, l.read.value = .token t) ∨
      (l.read.after.cursor.lookahead = .ended none ∧
        (l.read.value = .finished ∨ (∃ f, l.read.value = .failed (.feed f)) ∨
          ∃ q, l.read.value = .failed (.unterminated q))) := by
  obtain ⟨p, cs, z, h⟩ := l.cursor.exists_faces
  rcases exists_gap cs with hg | ⟨g, c, r, rfl, hg, hc⟩
  · obtain ⟨hv, ha⟩ := read_of_finalGap hg h
    refine .inr ⟨by rw [ha]; rfl, ?_⟩
    cases z with
    | none => exact .inl hv
    | some e => exact .inr (.inl ⟨_, hv⟩)
  · rcases exists_lexeme hc r with ⟨rfl, hb⟩ | ⟨t, w, r', hw, hl, hs⟩
    · obtain ⟨hv, ha⟩ := read_of_openBody hg hb h
      refine .inr ⟨by rw [ha]; rfl, .inr ?_⟩
      cases z with
      | none => exact .inr ⟨_, hv⟩
      | some e => exact .inl ⟨_, hv⟩
    · rw [hw] at h
      exact .inl ⟨t, (read_of_piece hg hl hs h).1⟩

/-- A read that gives no token leaves the lexer at the end, with nothing to report. -/
theorem ended_of_no_token (l : Lexer φ) (h : ∀ t, l.read.value ≠ .token t) :
    l.read.after.cursor.lookahead = .ended none := by
  rcases l.read_cases with ⟨t, ht⟩ | ⟨he, -⟩
  · exact absurd ht (h t)
  · exact he

/-- Induction along the reads of a lexer: a read that gives a token leads on to the next lexer,
    and any other is the last. -/
@[elab_as_elim]
theorem readInduction {motive : Lexer φ → Prop}
    (token : ∀ l t, l.read.value = .token t → motive l.read.after → motive l)
    (stop : ∀ l, (∀ t, l.read.value ≠ .token t) → motive l) (l : Lexer φ) : motive l := by
  induction h : l.weight using Nat.strongRecOn generalizing l with
  | _ w ih =>
    by_cases ht : ∃ t, l.read.value = .token t
    · obtain ⟨t, ht⟩ := ht
      have hlt : l.read.after.weight < w := h ▸ weight_read_lt ht
      exact token l t ht (ih _ hlt _ rfl)
    · exact stop l (not_exists.1 ht)

/-! ## Runs -/

theorem run_of_first_token {t : Token} (h : l.read.value = .token t) :
    l.run.tokens = t :: l.read.after.run.tokens ∧
      l.run.failure = l.read.after.run.failure := by
  rw [run_of_token h]
  exact ⟨rfl, rfl⟩

theorem run_of_no_token (h : ∀ t, l.read.value ≠ .token t) :
    l.run.tokens = [] ∧ l.read.value = l.run.failure.elim .finished .failed := by
  cases hv : l.read.value with
  | token t => exact absurd hv (h t)
  | finished => rw [run_of_finished hv]; exact ⟨rfl, rfl⟩
  | failed f => rw [run_of_failed hv]; exact ⟨rfl, rfl⟩

/-- A run on a row of pieces gives their tokens, and goes on with the rest. -/
theorem run_of_pieces {rest cs : List Char} {ps : List Piece} (hp : Pieces rest cs ps)
    (h : l.cursor.Faces p cs z) :
    ∃ l' : Lexer φ, l'.cursor.Faces (p.past (spelling ps)) rest z ∧
      l.run.tokens = ps.map Piece.token ++ l'.run.tokens ∧ l.run.failure = l'.run.failure := by
  induction hp generalizing l p with
  | nil => exact ⟨l, h, rfl, rfl⟩
  | @cons g w cs t ps hg hl hs _ ih =>
    obtain ⟨hv, ha⟩ := read_of_piece hg hl hs h
    have hnext : l.read.after.cursor.Faces (p.past (g ++ w)) cs z := by
      rw [ha]
      exact Cursor.Faces.iterate (by simpa using h)
    obtain ⟨l', hl', ht, hf⟩ := ih hnext
    obtain ⟨ht', hf'⟩ := run_of_first_token hv
    refine ⟨l', ?_, ?_, hf'.trans hf⟩
    · rwa [spelling_cons, Position.past_append]
    · rw [ht', ht]
      rfl

theorem run_of_finalGap {g : List Char} (hg : FinalGap g) (h : l.cursor.Faces p g z) :
    l.run.tokens = [] ∧ l.run.failure = z.map fun e => .feed ⟨p.past g, e⟩ := by
  have hv := (read_of_finalGap hg h).1
  cases z with
  | none => rw [run_of_finished hv]; exact ⟨rfl, rfl⟩
  | some e => rw [run_of_failed hv]; exact ⟨rfl, rfl⟩

theorem run_of_openBody {g body : List Char} (hg : Gap g) (hb : OpenBody body)
    (h : l.cursor.Faces p (g ++ '"' :: body) z) :
    l.run.tokens = [] ∧ l.run.failure = some (z.elim (.unterminated (p.past g))
      fun e => .feed ⟨p.past (g ++ '"' :: body), e⟩) := by
  rw [run_of_failed (read_of_openBody hg hb h).1]
  exact ⟨rfl, rfl⟩

/-- A run gives the tokens of the pieces at the beginning of a text, if the rest has none. -/
theorem tokens_run {rest cs : List Char} {ps : List Piece} (hp : Pieces rest cs ps)
    (hr : FinalGap rest ∨ OpenString rest) (h : l.cursor.Faces p cs z) :
    l.run.tokens = ps.map Piece.token := by
  obtain ⟨l', hl', ht, -⟩ := run_of_pieces hp h
  have hnil : l'.run.tokens = [] := by
    rcases hr with hg | ⟨hg, hb⟩
    · exact (run_of_finalGap hg hl').1
    · exact (run_of_openBody hg hb hl').1
  rw [ht, hnil, List.append_nil]

/-- A run whose rest is a gap fails only if the feed does. -/
theorem failure_run_of_finalGap {rest cs : List Char} {ps : List Piece} (hp : Pieces rest cs ps)
    (hr : FinalGap rest) (h : l.cursor.Faces p cs z) :
    l.run.failure = z.map fun e => .feed ⟨p.past cs, e⟩ := by
  obtain ⟨l', hl', -, hf⟩ := run_of_pieces hp h
  rw [hf, (run_of_finalGap hr hl').2, hp.eq_spelling_append, Position.past_append]

/-- A run whose rest has an open string fails at its opening quote, or where the feed does. -/
theorem failure_run_of_openBody {g body cs : List Char} {ps : List Piece}
    (hp : Pieces (g ++ '"' :: body) cs ps) (hg : Gap g) (hb : OpenBody body)
    (h : l.cursor.Faces p cs z) :
    l.run.failure = some (z.elim (.unterminated (p.past (spelling ps ++ g)))
      fun e => .feed ⟨p.past cs, e⟩) := by
  obtain ⟨l', hl', -, hf⟩ := run_of_pieces hp h
  rw [hf, (run_of_openBody hg hb hl').2, hp.eq_spelling_append, ← Position.past_append,
    ← Position.past_append]

/-- A run to the end of the input fails exactly if a string is left open there. -/
theorem failure_run_of_end {rest cs : List Char} {ps : List Piece} (hp : Pieces rest cs ps)
    (hr : FinalGap rest ∨ OpenString rest) (h : l.cursor.Faces p cs none) :
    l.run.failure = none ↔ FinalGap rest := by
  constructor
  · intro hn
    rcases hr with hf | ⟨hg, hb⟩
    · exact hf
    · rw [failure_run_of_openBody hp hg hb h] at hn
      cases hn
  · intro hf
    exact failure_run_of_finalGap hp hf h

/-- A run on a feed that fails ends in that failure, wherever it comes. -/
theorem failure_run_of_error {cs : List Char} {e : FeedError}
    (h : l.cursor.Faces p cs (some e)) : l.run.failure = some (.feed ⟨p.past cs, e⟩) := by
  obtain ⟨ps, rest, hp, hf | ⟨hg, hb⟩⟩ := exists_pieces cs
  · exact failure_run_of_finalGap hp hf h
  · exact failure_run_of_openBody hp hg hb h

/-! ## Repeated reads -/

/-- The outcomes of `n` reads in a row. -/
def reads : ℕ → Lexer φ → List Outcome
  | 0, _ => []
  | n + 1, l => l.read.value :: reads n l.read.after

theorem reads_of_ended (h : l.cursor.lookahead = .ended none) (n : ℕ) :
    l.reads n = List.replicate n .finished := by
  induction n generalizing l with
  | zero => rfl
  | succ n ih =>
    have he : l.cursor.Faces {} [] none := h
    obtain ⟨hv, ha⟩ := read_of_finalGap (.closed .nil) he
    rw [reads, hv, ih (by rw [ha]; rfl)]
    rfl

/-- Reading on and on gives the tokens of the run, then what ended it, then the end. -/
theorem reads_run (l : Lexer φ) (n : ℕ) :
    l.reads (l.run.tokens.length + 1 + n) = l.run.tokens.map .token ++
      l.run.failure.elim .finished .failed :: List.replicate n .finished := by
  induction l using readInduction with
  | token l t hv ih =>
    obtain ⟨ht, hf⟩ := run_of_first_token hv
    have hlen : l.run.tokens.length + 1 + n = l.read.after.run.tokens.length + 1 + n + 1 := by
      rw [ht, List.length_cons]
      omega
    rw [hlen, reads, ih, hv, ht, hf]
    rfl
  | stop l hne =>
    obtain ⟨ht, hf⟩ := run_of_no_token hne
    have hlen : l.run.tokens.length + 1 + n = n + 1 := by
      rw [ht, List.length_nil]
      omega
    rw [hlen, reads, reads_of_ended (l.ended_of_no_token hne), hf, ht]
    rfl

/-! ## Collecting -/

/-- Collecting is a run whose tokens are kept back if a failure ends it. -/
theorem collect_eq_run (l : Lexer φ) :
    l.collect
      = ⟨l.run.failure.elim (.ok l.run.tokens) .error, l.run.events, l.run.after⟩ := by
  induction l using readInduction with
  | token l t hv ih =>
    have he : l.element.value = some (.ok t) := congrArg Outcome.element hv
    have hnext : l.element.after = l.read.after := rfl
    rw [collect_of_token he, hnext, ih, run_of_token hv, Run.precededBy]
    cases hf : l.read.after.run.failure <;> rfl
  | stop l hne =>
    cases hv : l.read.value with
    | token t => exact absurd hv (hne t)
    | finished =>
      have he : l.element.value = none := congrArg Outcome.element hv
      rw [collect_of_none he, run_of_finished hv]
      rfl
    | failed f =>
      have he : l.element.value = some (.error f) := congrArg Outcome.element hv
      rw [collect_of_failure he, run_of_failed hv]
      rfl

theorem collect_value (l : Lexer φ) :
    l.collect.value = l.run.failure.elim (.ok l.run.tokens) .error := by
  rw [collect_eq_run]

/-- Collecting leaves a lexer where a run leaves it. -/
theorem after_collect (l : Lexer φ) : l.collect.after = l.run.after := by
  rw [collect_eq_run]

end Lexer

/-! ## Texts -/

theorem Lexer.faces_ofString (s : String) :
    (Lexer.ofString s).cursor.Faces {} s.toList none :=
  Cursor.faces_pull (z := none) (TextFeed.gives s.toList) {}

/-- A run gives the tokens of the characters ahead, whatever the feed and however it stops. -/
theorem Lexer.tokens_run_eq_tokensOf {φ : Type u} [Feed φ] {l : Lexer φ} {p : Position}
    {cs : List Char} {z : Option FeedError} (h : l.cursor.Faces p cs z) :
    l.run.tokens = tokensOf (String.ofList cs) := by
  obtain ⟨ps, rest, hp, hr⟩ := exists_pieces cs
  have ht := Lexer.faces_ofString (String.ofList cs)
  rw [String.toList_ofList] at ht
  rw [tokensOf_eq_run_tokens, tokens_run hp hr h, tokens_run hp hr ht]

theorem lex_eq_ok_iff {s : String} {ts : List Token} :
    lex s = .ok ts ↔ (Lexer.ofString s).run.failure = none ∧ tokensOf s = ts := by
  rw [lex, Lexer.collect_value, tokensOf_eq_run_tokens]
  cases (Lexer.ofString s).run.failure <;> simp

theorem lex_eq_error_iff {s : String} {f : Failure} :
    lex s = .error f ↔ (Lexer.ofString s).run.failure = some f := by
  rw [lex, Lexer.collect_value]
  cases (Lexer.ofString s).run.failure <;> simp

end LispLexer
