import LispLexer.Proofs.Reading

/-!
# Respelling

The tokens of a text, joined by single spaces, spell a text again. It is lexed to the same tokens
exactly if no string among them contains a quote or a backslash, for a string is respelled with its
escapes resolved. One that contains either is never read back, whatever text follows it: after the
first resolved backslash, the body that is read stays ahead of the body that is spelled, and its
lead only grows.

* `Grammar.Body.eq_of_append`: a body that spells what it stands for has no escapes.
* `Grammar.pieces_joinTexts`: tokens that spell themselves, joined by spaces, are a row of pieces.
* `Grammar.plain_of_pieces`: a row of pieces that spells its own tokens has only plain ones.
* `lex_respell_iff`: when lexing survives respelling.
-/

namespace LispLexer

open Text Grammar

/-! ## Plain tokens -/

/-- Whether a token holds neither a quote nor a backslash strictly between two delimiting quotes.
    Only a string is delimited by quotes. -/
def Token.Plain : Token → Prop
  | .string u => ∀ c ∈ u.toList.tail.dropLast, c ≠ '"' ∧ c ≠ '\\'
  | _ => True

theorem Token.plain_string {cs : List Char} :
    (Token.string (String.ofList ('"' :: (cs ++ ['"'])))).Plain
      ↔ ∀ c ∈ cs, c ≠ '"' ∧ c ≠ '\\' := by
  simp [Plain]

/-- The texts of some tokens, each after a space. -/
def Token.spaced (ts : List Token) : List Char := ts.flatMap fun t => ' ' :: t.text.toList

theorem Token.toList_joinTexts_cons (t : Token) (ts : List Token) :
    (joinTexts (t :: ts)).toList = t.text.toList ++ spaced ts := by
  rw [toList_joinTexts, intercalate_map_cons, spaced]

namespace Grammar

/-! ## Bodies -/

/-- Plain characters spell themselves. -/
theorem Body.of_plain {cs : List Char} (h : ∀ c ∈ cs, c ≠ '"' ∧ c ≠ '\\') : Body cs cs := by
  induction cs with
  | nil => exact .nil
  | cons c cs ih =>
    obtain ⟨⟨hq, hb⟩, hcs⟩ := List.forall_mem_cons.1 h
    exact .plain hq hb (ih hcs)

/-- A body that is read `k + 1` backslashes ahead of what it stands for never falls back. -/
theorem Body.ne_of_ahead {raw cs r r' : List Char} (h : Body raw cs) (k : ℕ) :
    List.replicate (k + 1) '\\' ++ (raw ++ '"' :: r') ≠ cs ++ '"' :: r := by
  induction h generalizing k with
  | nil =>
    intro he
    have hc := List.head_eq_of_cons_eq he
    exact absurd hc (by decide)
  | plain _ hb _ _ =>
    intro he
    exact hb (List.head_eq_of_cons_eq he).symm
  | newline _ _ =>
    intro he
    have hc := List.head_eq_of_cons_eq he
    exact absurd hc (by decide)
  | tab _ _ =>
    intro he
    have hc := List.head_eq_of_cons_eq he
    exact absurd hc (by decide)
  | @escape c raw cs _ _ _ ih =>
    intro he
    simp only [List.replicate_succ, List.cons_append, List.cons.injEq] at he
    obtain ⟨rfl, he⟩ := he
    -- one backslash of the lead is spelled, and the escape adds two
    apply ih (k + 1)
    rw [← he, List.replicate_succ', List.replicate_succ']
    simp

/-- A body that spells what it stands for, up to its closing quote, has no escapes. -/
theorem Body.eq_of_append {raw cs r r' : List Char} (h : Body raw cs)
    (he : raw ++ '"' :: r' = cs ++ '"' :: r) : raw = cs ∧ ∀ c ∈ cs, c ≠ '"' ∧ c ≠ '\\' := by
  induction h with
  | nil => exact ⟨rfl, by simp⟩
  | plain hq hb _ ih =>
    obtain ⟨rfl, hcs⟩ := ih (List.cons.inj he).2
    exact ⟨rfl, List.forall_mem_cons.2 ⟨⟨hq, hb⟩, hcs⟩⟩
  | newline _ _ => exact absurd (List.head_eq_of_cons_eq he) (by decide)
  | tab _ _ => exact absurd (List.head_eq_of_cons_eq he) (by decide)
  | escape _ _ hbody _ =>
    obtain ⟨rfl, he⟩ := List.cons.inj he
    exact absurd he (hbody.ne_of_ahead 0)

/-! ## Tokens that spell themselves -/

theorem Pieces.lexeme_of_mem {rest cs : List Char} {ps : List Piece} (h : Pieces rest cs ps) :
    ∀ q ∈ ps, Lexeme q.token q.lexeme := by
  induction h with
  | nil => simp
  | cons _ hl _ _ ih => exact List.forall_mem_cons.2 ⟨hl, ih⟩

/-- The text of a plain token is one of its spellings. -/
theorem Lexeme.text {t : Token} {w : List Char} (h : Lexeme t w) (hp : t.Plain) :
    Lexeme t t.text.toList := by
  cases h with
  | lparen => exact .lparen
  | rparen => exact .rparen
  | quote => exact .quote
  | symbol hs hq hw =>
    rw [Token.text, String.toList_ofList]
    exact .symbol hs hq hw
  | string _ =>
    rw [Token.text, String.toList_ofList]
    exact .string (.of_plain (Token.plain_string.1 hp))

/-- Tokens that spell themselves, joined by spaces, are a row of pieces. -/
theorem pieces_joinTexts {ts : List Token} (h : ∀ t ∈ ts, Lexeme t t.text.toList) :
    ∃ ps, Pieces [] (Token.joinTexts ts).toList ps ∧ ps.map Piece.token = ts := by
  rw [Token.toList_joinTexts]
  exact exists_pieces_intercalate (by decide) h

/-! ## Pieces that spell their own tokens -/

theorem Gap.eq_nil {g r cs : List Char} {c : Char} (hg : Gap g) (hc : Opens c)
    (he : g ++ r = c :: cs) : g = [] := by
  cases hg with
  | nil => rfl
  | blank hb _ =>
    obtain ⟨rfl, -⟩ := List.cons.inj he
    rw [hc.1] at hb
    cases hb
  | comment _ _ =>
    obtain ⟨rfl, -⟩ := List.cons.inj he
    exact absurd rfl hc.2

/-- A gap before a character that opens is the one blank that is there. -/
theorem Gap.eq_space {g r cs : List Char} {c : Char} (hg : Gap g) (hc : Opens c)
    (he : g ++ c :: r = ' ' :: c :: cs) : g = [' '] := by
  cases hg with
  | nil =>
    obtain ⟨rfl, -⟩ := List.cons.inj he
    exact absurd hc.1 (by decide)
  | blank _ hg =>
    rw [List.cons_append, List.cons.injEq] at he
    obtain ⟨rfl, he⟩ := he
    rw [hg.eq_nil hc he]
  | comment _ _ => exact absurd (List.head_eq_of_cons_eq he) (by decide)

/-- If one text begins with a spelling of a token and with the text of that token, then what follows
    is the same and the token is plain. -/
theorem Lexeme.plain_of_append {t : Token} {w r r' : List Char} (h : Lexeme t w)
    (he : w ++ r' = t.text.toList ++ r) : t.Plain ∧ r' = r := by
  cases h with
  | lparen => exact ⟨trivial, List.append_cancel_left he⟩
  | rparen => exact ⟨trivial, List.append_cancel_left he⟩
  | quote => exact ⟨trivial, List.append_cancel_left he⟩
  | symbol _ _ _ =>
    rw [Token.text, String.toList_ofList] at he
    exact ⟨trivial, List.append_cancel_left he⟩
  | @string raw cs hb =>
    rw [Token.text, String.toList_ofList] at he
    have he' : raw ++ '"' :: r' = cs ++ '"' :: r := by simpa using he
    obtain ⟨rfl, hcs⟩ := hb.eq_of_append he'
    exact ⟨Token.plain_string.2 hcs, by simpa using he'⟩

theorem plain_of_pieces_spaced {rest cs : List Char} {ps : List Piece} (h : Pieces rest cs ps)
    (he : cs = Token.spaced (ps.map Piece.token)) : ∀ t ∈ ps.map Piece.token, t.Plain := by
  induction h with
  | nil => simp
  | @cons g w cs t ps hg hl _ _ ih =>
    obtain ⟨c, w', ds, rfl, ht, hc⟩ := hl.begins
    have he' : g ++ c :: (w' ++ cs)
        = ' ' :: (t.text.toList ++ Token.spaced (ps.map Piece.token)) := he
    obtain rfl : g = [' '] := hg.eq_space hc (by rw [he', ht, List.cons_append])
    obtain ⟨hp, hcs⟩ := hl.plain_of_append (List.cons.inj he').2
    exact List.forall_mem_cons.2 ⟨hp, ih hcs⟩

/-- A row of pieces that spells its own tokens, joined by spaces, has only plain ones. -/
theorem plain_of_pieces {rest cs : List Char} {ps : List Piece} (h : Pieces rest cs ps)
    (he : cs = (Token.joinTexts (ps.map Piece.token)).toList) :
    ∀ t ∈ ps.map Piece.token, t.Plain := by
  cases h with
  | nil => simp
  | @cons g w cs t ps hg hl hs hp =>
    -- with one more space in front, every token has a space before it
    have hsp : Pieces rest (' ' :: (g ++ (w ++ cs))) (⟨' ' :: g, w, t⟩ :: ps) :=
      .cons (.blank (by decide) hg) hl hs hp
    rw [List.map_cons, Token.toList_joinTexts_cons] at he
    rw [List.map_cons]
    apply plain_of_pieces_spaced hsp
    rw [he]
    rfl

end Grammar

/-! ## Respelling -/

/-- The joined texts of the tokens of `s` are lexed to these tokens exactly if no string among them
    holds a quote or a backslash between its quotes. -/
theorem lex_respell_iff (s : String) :
    lex (respell s) = .ok (tokensOf s) ↔ ∀ t ∈ tokensOf s, t.Plain := by
  have hj := Lexer.faces_ofString (respell s)
  rw [lex_eq_ok_iff]
  constructor
  · intro hok
    obtain ⟨ps, rest, hp, hr⟩ := exists_pieces (respell s).toList
    have htok : ps.map Piece.token = tokensOf s := by
      rw [← hok.2, tokensOf_eq_run_tokens, Lexer.tokens_run hp hr hj]
    rw [← htok]
    apply plain_of_pieces hp
    rw [htok]
    rfl
  · intro hplain
    obtain ⟨ps₀, rest₀, hp₀, hr₀⟩ := exists_pieces s.toList
    have htok₀ : tokensOf s = ps₀.map Piece.token :=
      Lexer.tokens_run hp₀ hr₀ (Lexer.faces_ofString s)
    have hself : ∀ t ∈ tokensOf s, Lexeme t t.text.toList := by
      intro t ht
      have hpt := hplain t ht
      rw [htok₀] at ht
      obtain ⟨q, hq, rfl⟩ := List.mem_map.1 ht
      exact (hp₀.lexeme_of_mem q hq).text hpt
    obtain ⟨ps, hp, htok⟩ := pieces_joinTexts hself
    have hend : FinalGap [] := .closed .nil
    constructor
    · exact (Lexer.failure_run_of_end hp (.inl hend) hj).2 hend
    · rw [tokensOf_eq_run_tokens, Lexer.tokens_run hp (.inl hend) hj, htok]

end LispLexer
