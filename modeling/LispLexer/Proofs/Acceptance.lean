import LispLexer.Proofs.Reading

/-!
# The texts that a lexer accepts

A text is accepted exactly if the grammar lays it out, and then with the tokens of that layout. A
text has no more than one layout: a lexer on it passes first the gap and then the lexeme of the
first piece of each, so the pieces agree one by one.

* `Cursor.Faces.split_unique`: a text is split by the way that a cursor has gone.
* `Lexer.layout_unique`: the layouts of a text agree.
* `lex_eq_ok_iff_layout`: the lexer accepts the grammar, which is unambiguous.
-/

namespace LispLexer

open Text Grammar

universe u

/-! ## Layouts -/

/-- A text taken apart: its pieces, and the gap after the last of them. -/
structure Grammar.Layout where
  pieces : List Piece
  final : List Char

namespace Grammar.Layout

/-- The tokens of a layout. -/
def tokens (d : Layout) : List Token := d.pieces.map Piece.token

/-- The text can be laid out so. -/
structure Of (d : Layout) (cs : List Char) : Prop where
  pieces : Pieces d.final cs d.pieces
  final : FinalGap d.final

end Grammar.Layout

/-! ## One layout -/

theorem Cursor.Faces.split_unique {φ : Type u} [Feed φ] {k : Cursor φ} {p : Position}
    {z : Option FeedError} {us vs us' vs' : List Char} (h : k.Faces p (us ++ vs) z)
    (he : us ++ vs = us' ++ vs')
    (hk : Cursor.advance^[us.length] k = Cursor.advance^[us'.length] k) :
    us = us' ∧ vs = vs' := by
  have h' : k.Faces p (us' ++ vs') z := he ▸ h
  have hi := h'.iterate
  rw [← hk] at hi
  obtain ⟨rfl, -⟩ := h.iterate.unique hi
  exact ⟨List.append_cancel_right he, rfl⟩

namespace Lexer

variable {φ : Type u} [Feed φ] {l : Lexer φ} {p : Position} {z : Option FeedError}

/-- A read passes a piece, so a text does not begin with a piece if it is a final gap. -/
theorem not_finalGap_of_piece {g w r : List Char} {t : Token} (hg : Gap g) (hl : Lexeme t w)
    (hs : Separated t r) (h : l.cursor.Faces p (g ++ (w ++ r)) z) :
    ¬ FinalGap (g ++ (w ++ r)) := by
  intro hf
  have hv := (read_of_piece hg hl hs h).1
  rw [(read_of_finalGap hf h).1] at hv
  cases z <;> cases hv

/-- Two pieces at the beginning of one text agree, for a cursor passes both. -/
theorem piece_unique {g w r g' w' r' : List Char} {t t' : Token} (hg : Gap g) (hl : Lexeme t w)
    (hs : Separated t r) (hg' : Gap g') (hl' : Lexeme t' w') (hs' : Separated t' r')
    (he : g ++ (w ++ r) = g' ++ (w' ++ r')) (h : l.cursor.Faces p (g ++ (w ++ r)) z) :
    g = g' ∧ w = w' ∧ t = t' ∧ r = r' := by
  have h' : l.cursor.Faces p (g' ++ (w' ++ r')) z := he ▸ h
  obtain ⟨hv, ha⟩ := read_of_piece hg hl hs h
  obtain ⟨hv', ha'⟩ := read_of_piece hg' hl' hs' h'
  have ht : t = t' := by
    rw [hv] at hv'
    cases hv'
    rfl
  have hgap : g = g' := by
    obtain ⟨c, u, rfl, hc⟩ := hl.opens
    obtain ⟨c', u', rfl, hc'⟩ := hl'.opens
    refine (h.split_unique he ?_).1
    rw [← Cursor.skipGap_of_opens hg hc h, ← Cursor.skipGap_of_opens hg' hc' h']
  have hpiece : g ++ w = g' ++ w' ∧ r = r' := by
    have h₁ : l.cursor.Faces p ((g ++ w) ++ r) z := by simpa using h
    have he₁ : (g ++ w) ++ r = (g' ++ w') ++ r' := by simpa using he
    exact h₁.split_unique he₁ (ha.symm.trans ha')
  subst hgap
  exact ⟨rfl, List.append_cancel_left hpiece.1, ht, hpiece.2⟩

/-- Two layouts of one text agree piece by piece. -/
theorem layout_unique {rest rest' cs : List Char} {ps ps' : List Piece}
    (hp : Pieces rest cs ps) (hr : FinalGap rest) (hp' : Pieces rest' cs ps')
    (hr' : FinalGap rest') (h : l.cursor.Faces p cs z) : ps = ps' ∧ rest = rest' := by
  induction hp generalizing l p ps' with
  | nil =>
    cases hp' with
    | nil => exact ⟨rfl, rfl⟩
    | cons hg' hl' hs' _ => exact absurd hr (not_finalGap_of_piece hg' hl' hs' h)
  | @cons g w cs t ps hg hl hs _ ih =>
    -- the second layout is inverted at the text of the first, which is no variable
    generalize he : g ++ (w ++ cs) = text at hp' h
    cases hp' with
    | nil => exact absurd (he ▸ hr') (not_finalGap_of_piece hg hl hs (he ▸ h))
    | cons hg' hl' hs' hps' =>
      obtain ⟨rfl, rfl, rfl, rfl⟩ := piece_unique hg hl hs hg' hl' hs' he (he ▸ h)
      have hnext : l.read.after.cursor.Faces (p.past (g ++ w)) cs z := by
        rw [(read_of_piece hg hl hs h).2]
        exact Cursor.Faces.iterate (by simpa using h)
      obtain ⟨rfl, hrest⟩ := ih hps' hnext
      exact ⟨rfl, hrest⟩

end Lexer

/-! ## Acceptance -/

/-- A text is lexed to some tokens exactly if it has a layout with these tokens; and it has no
    two layouts. -/
theorem lex_eq_ok_iff_layout (s : String) (ts : List Token) :
    (lex s = .ok ts ↔ ∃ d : Layout, d.Of s.toList ∧ d.tokens = ts) ∧
      ∀ d d' : Layout, d.Of s.toList → d'.Of s.toList → d = d' := by
  have hs := Lexer.faces_ofString s
  constructor
  · rw [lex_eq_ok_iff]
    constructor
    · rintro ⟨hf, rfl⟩
      obtain ⟨ps, rest, hp, hr⟩ := exists_pieces s.toList
      have hrest : FinalGap rest := (Lexer.failure_run_of_end hp hr hs).1 hf
      exact ⟨⟨ps, rest⟩, ⟨hp, hrest⟩, (Lexer.tokens_run hp hr hs).symm⟩
    · rintro ⟨d, ⟨hp, hr⟩, rfl⟩
      exact ⟨(Lexer.failure_run_of_end hp (.inl hr) hs).2 hr, Lexer.tokens_run hp (.inl hr) hs⟩
  · intro d d' hd hd'
    obtain ⟨hps, hrest⟩ := Lexer.layout_unique hd.pieces hd.final hd'.pieces hd'.final hs
    obtain ⟨ps, rest⟩ := d
    obtain ⟨ps', rest'⟩ := d'
    obtain rfl : ps = ps' := hps
    obtain rfl : rest = rest' := hrest
    rfl

end LispLexer
