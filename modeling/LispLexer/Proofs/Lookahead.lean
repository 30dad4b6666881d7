import LispLexer.Proofs.Accounting
import LispLexer.Proofs.Calls
import LispLexer.Proofs.Pieces

/-!
# One character ahead

After some tokens of a text have been read, exactly one character more than their pieces has been
pulled: the character just after the last lexeme, or the end of the text. The lexer goes on as on
the rest of the text, and whoever takes the feed from it goes on one character later.

* `Lexer.reads_of_pieces`: reading some pieces of a text.
* `Lexer.exists_first_pieces`: reads that give tokens are reads of pieces.
* `Lexer.lookahead_after_tokens`: the offset of a lexer after some tokens.
-/

namespace LispLexer

open Text Grammar

universe u

namespace Lexer

/-! ## Reading pieces -/

variable {φ : Type u} [Feed φ]

/-- Reads give the tokens of the pieces before a lexer and leave it just after them. -/
theorem reads_of_pieces {l : Lexer φ} {s : φ} {us rest cs : List Char} {ps : List Piece}
    {z : Option FeedError} (hp : Pieces rest cs ps) (h : l.cursor.Stands s us cs z) :
    l.reads ps.length = ps.map (fun q => .token q.token) ∧
      (l.afterReads ps.length).cursor.Stands s (us ++ spelling ps) rest z := by
  induction hp generalizing l us with
  | nil =>
    rw [spelling, List.flatMap_nil, List.append_nil]
    exact ⟨rfl, h⟩
  | @cons g w cs t ps hg hl hs _ ih =>
    obtain ⟨hv, ha⟩ := read_of_piece hg hl hs h.faces
    rw [← List.append_assoc] at h
    have hnext : l.read.after.cursor.Stands s (us ++ (g ++ w)) cs z := ha ▸ h.iterate
    obtain ⟨hr, hn⟩ := ih hnext
    rw [List.append_assoc] at hn
    refine ⟨?_, hn⟩
    rw [List.length_cons, reads, hv, hr, List.map_cons]

/-- So many pieces as are asked for, if a run has as many tokens. -/
theorem exists_first_pieces {l : Lexer φ} {p : Position} {cs : List Char} {z : Option FeedError}
    (h : l.cursor.Faces p cs z) {k : ℕ} (hk : k ≤ l.run.tokens.length) :
    ∃ rest ps, Pieces rest cs ps ∧ ps.length = k := by
  obtain ⟨ps, rest, hp, hr⟩ := exists_pieces cs
  rw [tokens_run hp hr h, List.length_map] at hk
  obtain ⟨r, hr⟩ := hp.take k
  exact ⟨r, ps.take k, hr, List.length_take_of_le hk⟩

/-! ## Pieces and tokens of a text -/

theorem stands_counting_text (s : String) :
    (counting (TextFeed.ofString s)).cursor.Stands (Counted.mk (TextFeed.ofString s) 0) []
      s.toList none :=
  stands_counting (TextFeed.gives s.toList)

theorem tokens_run_counting (s : String) :
    (counting (TextFeed.ofString s)).run.tokens = tokensOf s := by
  have ht := tokens_run_eq_tokensOf (stands_counting_text s).faces
  rwa [String.ofList_toList] at ht

theorem tokens_of_pieces {s : String} {rest : List Char} {ps : List Piece}
    (hp : Pieces rest s.toList ps) : ps.map Piece.token = (tokensOf s).take ps.length := by
  have hreads := (reads_of_pieces hp (stands_counting_text s)).1
  have hmap := congrArg (List.filterMap Outcome.token?) hreads
  rw [← tokens_run_counting, ← tokens_reads]
  refine Eq.trans ?_ hmap.symm
  simp [Function.comp_def, Outcome.token?]

/-! ## After some tokens -/

/-- A lexer on a text that stands after `us` goes on as on the characters after them, and a new
    lexer on its feed as on those without the first. -/
theorem all_of_stands {l : Lexer (Counted TextFeed)} {a : Lookahead} {cs us vs : List Char}
    {z : Option FeedError} (ha : l.lookahead = some a) (hcs : cs = us ++ vs)
    (h : l.cursor.Stands (Counted.mk (TextFeed.mk cs) 0) us vs z) :
    l.feed.pulled = us.length + 1 ∧ l.all.value = tokensOf (String.ofList vs) ∧
      (Lexer.all { feed := l.feed }).value = tokensOf (String.ofList (vs.drop 1)) := by
  have hfeed : l.feed = ⟨⟨vs.drop 1⟩, us.length + 1⟩ := by
    rw [(stands_of_some ha h).1, Counted.skip_eq, TextFeed.skip_eq, Nat.zero_add, hcs,
      ← List.drop_drop, List.drop_left]
  have hnew : (Lexer.mk l.feed none none).cursor.Faces {} (vs.drop 1) none := by
    rw [hfeed]
    exact Cursor.faces_pull (Counted.gives (TextFeed.gives _) _) {}
  exact ⟨congrArg Counted.pulled hfeed, tokens_run_eq_tokensOf h.faces,
    tokens_run_eq_tokensOf hnew⟩

/-- After the tokens of the first pieces of a text, the lexer has made one pull more than they have
    characters; there is a character ahead exactly if they are not all of the text; and the lexer
    goes on as on what is left of the text, and a new lexer on its feed as on that without its first
    character. Every number of tokens up to that of the text is reached so. -/
theorem lookahead_after_tokens (s : String) (k : ℕ) (hk : 1 ≤ k)
    (hle : k ≤ (tokensOf s).length) :
    let l := (counting (TextFeed.ofString s)).afterReads k
    (counting (TextFeed.ofString s)).reads k = ((tokensOf s).take k).map .token ∧
      (∃ rest ps, Pieces rest s.toList ps ∧ ps.length = k) ∧
      ∀ rest ps, Pieces rest s.toList ps → ps.length = k →
        let m := (spelling ps).length
        ps.map Piece.token = (tokensOf s).take k ∧
          l.feed.pulled = m + 1 ∧
          (l.position.isSome = true ↔ m < s.length) ∧
          l.all.value = tokensOf (String.ofList (s.toList.drop m)) ∧
          (Lexer.all { feed := l.feed }).value
            = tokensOf (String.ofList (s.toList.drop (m + 1))) := by
  intro l
  have hs := stands_counting_text s
  refine ⟨?_, ?_, ?_⟩
  · rw [← tokens_run_counting] at hle ⊢
    exact reads_of_le hle
  · rw [← tokens_run_counting] at hle
    exact exists_first_pieces hs.faces hle
  · rintro rest ps hp rfl m
    obtain ⟨a, ha⟩ := (counting (TextFeed.ofString s)).exists_lookahead_afterReads hk
    have hn := (reads_of_pieces hp hs).2
    have htext : s.toList = spelling ps ++ rest := hp.eq_spelling_append
    have hlength : s.length = m + rest.length := by
      rw [← String.length_toList, htext, List.length_append]
    have hrest : s.toList.drop m = rest ∧ s.toList.drop (m + 1) = rest.drop 1 := by
      rw [← List.drop_drop, htext, List.drop_left]
      exact ⟨rfl, rfl⟩
    obtain ⟨hpulled, hall, hnew⟩ := all_of_stands ha htext hn
    rw [hrest.1, hrest.2]
    refine ⟨tokens_of_pieces hp, hpulled, ?_, hall, hnew⟩
    rw [(stands_of_some ha hn).2, hlength, ← List.length_pos_iff]
    omega

/-- After `ab` and the string in `ab "x\n")` nine characters have been pulled. The parenthesis is
    the one ahead, and it is lost to a new lexer on the feed. -/
theorem lookahead_after_two_tokens :
    let s := "ab \"x\\n\")"
    let l := (counting (TextFeed.ofString s)).afterReads 2
    2 ≤ (tokensOf s).length ∧ l.feed.pulled = 9 ∧ l.position.isSome = true ∧
      l.all.value = [.rparen] ∧ (Lexer.all { feed := l.feed }).value = [] := by
  intro s l
  have hle : 2 ≤ (tokensOf s).length := by decide +kernel
  have hsymbol : Lexeme (.symbol (String.ofList ['a', 'b'])) ['a', 'b'] :=
    .symbol (by decide) (by decide) (List.all_eq_true.1 (by decide))
  have hbody : Body ['x', '\\', 'n'] ['x', '\n'] := .plain (by decide) (by decide) (.newline .nil)
  have htail : Pieces [')'] ([' '] ++ (('"' :: (['x', '\\', 'n'] ++ ['"'])) ++ [')']))
      [⟨[' '], _, _⟩] := .cons (.blank (by decide) .nil) (.string hbody) trivial .nil
  have hblank : isConstituent ' ' = false := by decide
  have hseparated (r : List Char) :
      Separated (.symbol (String.ofList ['a', 'b'])) ([' '] ++ r) := hblank
  have hp := Pieces.cons .nil hsymbol (hseparated _) htail
  have htext : s.toList
      = [] ++ (['a', 'b'] ++ ([' '] ++ (('"' :: (['x', '\\', 'n'] ++ ['"'])) ++ [')']))) := by
    decide
  rw [← htext] at hp
  obtain ⟨-, hpulled, hposition, hall, hnew⟩ :=
    (lookahead_after_tokens s 2 (by decide) hle).2.2 [')'] _ hp rfl
  refine ⟨hle, hpulled, hposition.2 (by decide), ?_, ?_⟩
  · rw [hall]
    decide +kernel
  · rw [hnew]
    decide +kernel

end Lexer

end LispLexer
