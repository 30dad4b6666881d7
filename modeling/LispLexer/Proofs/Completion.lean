import LispLexer.Proofs.Positions

/-!
# Incomplete texts

A text held in memory fails in one way only: it ends inside a string. Then it is the beginning of a
text that is accepted, and all it lacks is the end of this string. A quote ends it, unless the text
ends in a backslash that is the first half of an escape. Then the quote completes the escape, and
the next one ends the string.

* `Grammar.Body.append`: two bodies in a row are a body.
* `lex_of_string`, `lex_of_openString`: a text whose last lexeme is a string, or would be one.
* `lex_of_pieces`: the part of a text that some pieces and a gap make up is accepted.
* `lex_error_completable`: what a failure says of a text and of its completions.
-/

namespace LispLexer

open Text Grammar

/-! ## Bodies -/

theorem Grammar.Body.append {raw cs raw' cs' : List Char} (h : Body raw cs) (h' : Body raw' cs') :
    Body (raw ++ raw') (cs ++ cs') := by
  induction h with
  | nil => exact h'
  | plain hq hb _ ih => exact .plain hq hb ih
  | newline _ ih => exact .newline ih
  | tab _ ih => exact .tab ih
  | escape hn ht _ ih => exact .escape hn ht ih

/-- What is separated from a text is separated from its beginning. -/
theorem Grammar.Separated.of_append {t : Token} {us vs : List Char} (h : Separated t (us ++ vs)) :
    Separated t us := by
  cases us with
  | nil => cases t <;> trivial
  | cons c us => exact h.of_head? rfl

/-- A backslash protects the quote after it. -/
theorem Grammar.Body.append_quote {raw cs : List Char} (h : Body raw cs) :
    Body (raw ++ ['\\', '"']) (cs ++ ['"']) :=
  h.append (.escape (by decide) (by decide) .nil)

/-! ## Texts with a string at their end -/

variable {s : String} {ps : List Piece} {g body raw cs : List Char}

theorem lex_of_finalGap {rest : List Char} (hp : Pieces rest s.toList ps) (hr : FinalGap rest) :
    lex s = .ok (ps.map Piece.token) := by
  have hs := Lexer.faces_ofString s
  exact lex_eq_ok_iff.2
    ⟨Lexer.failure_run_of_finalGap hp hr hs, Lexer.tokens_run hp (.inl hr) hs⟩

theorem lex_of_openString (hp : Pieces (g ++ '"' :: body) s.toList ps) (hg : Gap g)
    (hb : OpenBody body) :
    lex s = .error (.unterminated (({} : Position).past (spelling ps ++ g))) :=
  lex_eq_error_iff.2 (Lexer.failure_run_of_openBody hp hg hb (Lexer.faces_ofString s))

theorem lex_of_string (hp : Pieces (g ++ (('"' :: (raw ++ ['"'])) ++ [])) s.toList ps) (hg : Gap g)
    (hb : Body raw cs) :
    lex s = .ok (ps.map Piece.token ++ [.string (String.ofList ('"' :: (cs ++ ['"'])))]) := by
  have hlast := hp.append (.cons hg (.string hb) trivial .nil)
  rw [lex_of_finalGap hlast (.closed .nil), List.map_append]
  rfl

/-- Pieces and the gap after them are a text by themselves, whatever followed them. -/
theorem lex_of_pieces {cs rest : List Char} (hp : Pieces (g ++ rest) cs ps) (hg : Gap g) :
    lex (String.ofList (spelling ps ++ g)) = .ok (ps.map Piece.token) := by
  have hfirst : Pieces g (spelling ps ++ g) ps :=
    hp.with_rest fun q hq => (hp.separated hq).of_append
  refine lex_of_finalGap ?_ (.closed hg)
  rwa [String.toList_ofList]

/-! ## Completions -/

/-- What follows an open string does not change the pieces before it. -/
theorem Grammar.Pieces.append_openString (hp : Pieces (g ++ '"' :: body) s.toList ps) (t : String) :
    Pieces (g ++ '"' :: (body ++ t.toList)) (s ++ t).toList ps := by
  have hne : g ++ '"' :: body ≠ [] := by simp
  have happend := hp.append_right t.toList fun q hq =>
    (hp.separated hq).of_head? (List.head?_append_of_ne_nil _ hne)
  rwa [List.append_assoc, List.cons_append, ← String.toList_append] at happend

/-- A string whose units are complete is ended by one quote, and a second one opens another. -/
theorem lex_of_whole (hp : Pieces (g ++ '"' :: raw) s.toList ps) (hg : Gap g) (hb : Body raw cs) :
    lex (s ++ "\"")
        = .ok (ps.map Piece.token ++ [.string (String.ofList ('"' :: (cs ++ ['"'])))]) ∧
      ∃ f, lex (s ++ "\"\"") = .error f := by
  have hone : Pieces (g ++ (('"' :: (raw ++ ['"'])) ++ [])) (s ++ "\"").toList ps := by
    rw [List.append_nil]
    exact hp.append_openString "\""
  have htwo : Pieces (g ++ (('"' :: (raw ++ ['"'])) ++ ['"'])) (s ++ "\"\"").toList ps := by
    have happend := hp.append_openString "\"\""
    simpa using happend
  have hsecond := htwo.append (.cons hg (.string hb) trivial .nil)
  exact ⟨lex_of_string hone hg hb, _,
    lex_of_openString (g := []) hsecond .nil (.whole .nil)⟩

/-- After a backslash the first quote is part of the string, and the second one ends it. -/
theorem lex_of_dangling (hp : Pieces (g ++ '"' :: (raw ++ ['\\'])) s.toList ps) (hg : Gap g)
    (hb : Body raw cs) :
    lex (s ++ "\"\"")
        = .ok (ps.map Piece.token ++ [.string (String.ofList ('"' :: (cs ++ ['"'] ++ ['"'])))]) ∧
      ∃ f, lex (s ++ "\"") = .error f := by
  have hone : Pieces (g ++ '"' :: (raw ++ ['\\', '"'])) (s ++ "\"").toList ps := by
    have happend := hp.append_openString "\""
    simpa using happend
  have htwo : Pieces (g ++ (('"' :: ((raw ++ ['\\', '"']) ++ ['"'])) ++ []))
      (s ++ "\"\"").toList ps := by
    have happend := hp.append_openString "\"\""
    simpa using happend
  exact ⟨lex_of_string htwo hg hb.append_quote, _,
    lex_of_openString hone hg (.whole hb.append_quote)⟩

/-- A text that fails is incomplete: it ends inside a string, whose opening quote is the one that
    the report names, and the text before this quote is accepted with the tokens of the whole. Of
    the text with one more quote and the text with two exactly one is accepted, with one more token,
    which is a string. -/
theorem lex_error_completable {s : String} {f : Failure} (h : lex s = .error f) :
    (∃ us body, s.toList = us ++ '"' :: body ∧ lex (String.ofList us) = .ok (tokensOf s) ∧
      f.report = .incomplete ("unterminated string starting at "
        ++ (Position.following us).text)) ∧
    ∃ t, (lex (s ++ "\"") = .ok (tokensOf s ++ [.string t]) ∧
        ∃ g, lex (s ++ "\"\"") = .error g) ∨
      (lex (s ++ "\"\"") = .ok (tokensOf s ++ [.string t]) ∧
        ∃ g, lex (s ++ "\"") = .error g) := by
  obtain ⟨ps, rest, hp, hr⟩ := exists_pieces s.toList
  have htokens : tokensOf s = ps.map Piece.token :=
    Lexer.tokens_run hp hr (Lexer.faces_ofString s)
  rw [htokens]
  rcases hr with hr | @⟨g, body, hg, hb⟩
  · rw [lex_of_finalGap hp hr] at h
    cases h
  · rw [lex_of_openString hp hg hb] at h
    cases h
    refine ⟨⟨spelling ps ++ g, body, ?_, lex_of_pieces hp hg, ?_⟩, ?_⟩
    · rw [List.append_assoc]
      exact hp.eq_spelling_append
    · rw [Position.past_start]
      rfl
    · cases hb with
      | whole hb => exact ⟨_, .inl (lex_of_whole hp hg hb)⟩
      | dangling hb => exact ⟨_, .inr (lex_of_dangling hp hg hb)⟩

/-- The quotes in the comment, in the symbol and in the escape open no string. The text ends in a
    backslash, so it takes two quotes to complete it. -/
theorem lex_error_completable_after_backslash :
    let s := "; \"c\n a\"b \"x\\\"\\"
    lex s = .error (.unterminated ⟨2, 6⟩) ∧
      (∃ us body, s.toList = us ++ '"' :: body ∧ lex (String.ofList us) = .ok [.symbol "a\"b"]) ∧
      ∃ t, lex (s ++ "\"\"") = .ok [.symbol "a\"b", .string t] := by
  intro s
  have hfail : lex s = .error (.unterminated ⟨2, 6⟩) := by decide +kernel
  have htokens : tokensOf s = [.symbol "a\"b"] := by decide +kernel
  have hquote : lex (s ++ "\"") = .error (.unterminated ⟨2, 6⟩) := by decide +kernel
  obtain ⟨⟨us, body, hs, hbefore, -⟩, t, ⟨hone, -⟩ | ⟨htwo, -⟩⟩ := lex_error_completable hfail
  · rw [hquote] at hone
    cases hone
  · rw [htokens] at hbefore htwo
    exact ⟨hfail, ⟨us, body, hs, hbefore⟩, t, htwo⟩

end LispLexer
