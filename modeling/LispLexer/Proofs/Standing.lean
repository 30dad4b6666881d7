import LispLexer.Proofs.Reading

/-!
# Where a cursor stands

A cursor that was set on a feed has passed some of its characters and has the others before it. It
has then pulled once for each character passed and once more, for the character taken ahead. What a
read gives, and how far it goes, depends only on where its cursor stands and not on the feed.

* `Cursor.Stands.iterate`: passing characters moves a cursor from one standing to another.
* `Lexer.exists_read`: a read from one standing is the same on every feed.
-/

namespace LispLexer

open Text Grammar

universe u

/-! ## Feeds -/

namespace Feed

variable {φ : Type u} [Feed φ]

theorem skip_add (m n : ℕ) (s : φ) : skip (m + n) s = skip n (skip m s) := by
  induction m generalizing s with
  | zero => rw [Nat.zero_add]; rfl
  | succ m ih => rw [Nat.succ_add, skip, skip, ih]

theorem skip_succ (n : ℕ) (s : φ) : skip (n + 1) s = (pull (skip n s)).2 := skip_add n 1 s

end Feed

/-! ## Cursors -/

namespace Cursor

variable {φ : Type u} [Feed φ] {k k' : Cursor φ} {s : φ} {us vs ws : List Char}
  {z : Option FeedError}

theorem feed_pull (s : φ) (p : Position) : (pull s p).feed = (Feed.pull s).2 := by
  unfold pull
  split <;> simp_all

/-- The cursor was set on the feed `s`, has passed the characters `us` of it, and has `vs` before
    it. -/
structure Stands (k : Cursor φ) (s : φ) (us vs : List Char) (z : Option FeedError) : Prop where
  feed : k.feed = Feed.skip (us.length + 1) s
  faces : k.Faces (({} : Position).past us) vs z

namespace Stands

theorem start (h : Feed.Gives s vs (.stop z)) : (pull s {}).Stands s [] vs z :=
  ⟨feed_pull s {}, faces_pull h {}⟩

theorem advance {c : Char} (h : k.Stands s us (c :: vs) z) :
    k.advance.Stands s (us ++ [c]) vs z := by
  obtain ⟨hl, ha⟩ := faces_cons.1 h.faces
  refine ⟨?_, ?_⟩
  · rw [advance_of_char hl, feed_pull, h.feed, ← Feed.skip_succ, List.length_append]
    rfl
  · rwa [Position.past_append, Position.past_cons, Position.past_nil]

theorem iterate (h : k.Stands s us (ws ++ vs) z) :
    (Cursor.advance^[ws.length] k).Stands s (us ++ ws) vs z := by
  induction ws generalizing k us with
  | nil => rwa [List.append_nil]
  | cons c ws ih =>
    have hn := ih h.advance
    rwa [List.append_assoc] at hn

theorem close (h : k.Stands s us [] z) : k.close.Stands s us [] none := ⟨h.feed, rfl⟩

end Stands

end Cursor

theorem Cursor.Faces.lookahead_eq {φ ψ : Type u} [Feed φ] [Feed ψ] {k : Cursor φ} {k' : Cursor ψ}
    {p : Position} {cs : List Char} {z : Option FeedError} (h : k.Faces p cs z)
    (h' : k'.Faces p cs z) : k.lookahead = k'.lookahead := by
  cases cs with
  | nil => rw [faces_nil.1 h, faces_nil.1 h']
  | cons c cs => rw [h.1, h'.1]

/-! ## Reads -/

namespace Lexer

theorem cursor_of_none {φ : Type u} [Feed φ] {l : Lexer φ} (h : l.lookahead = none) :
    l.cursor = Cursor.pull l.feed {} := by
  unfold cursor
  rw [h]

theorem cursor_of_some {φ : Type u} [Feed φ] {l : Lexer φ} {a : Lookahead}
    (h : l.lookahead = some a) : l.cursor = ⟨l.feed, a⟩ := by
  unfold cursor
  rw [h]

/-- Where a lexer stands that has been read from shows in its feed and in its lookahead. -/
theorem stands_of_some {φ : Type u} [Feed φ] {l : Lexer φ} {a : Lookahead} {s : φ}
    {us vs : List Char} {z : Option FeedError} (ha : l.lookahead = some a)
    (h : l.cursor.Stands s us vs z) :
    l.feed = Feed.skip (us.length + 1) s ∧ (l.position.isSome = true ↔ vs ≠ []) := by
  rw [cursor_of_some ha] at h
  refine ⟨h.feed, ?_⟩
  have hfaces := h.faces
  unfold position
  rw [ha]
  cases vs with
  | nil =>
    cases hfaces
    simp
  | cons c vs =>
    cases hfaces.1
    simp

theorem lookahead_of_stands {φ : Type u} [Feed φ] {l : Lexer φ} {a : Lookahead} {s : φ} {c : Char}
    {us vs : List Char} {z : Option FeedError} (ha : l.lookahead = some a)
    (h : l.cursor.Stands s us (c :: vs) z) :
    l.lookahead = some (.char c (({} : Position).past us)) := by
  rw [cursor_of_some ha] at h
  exact ha.trans (congrArg some h.faces.1)

/-- What a read gives, and which characters it passes, depends on where its cursor stands and on
    nothing else. If it does not stop before the end, it leaves nothing to report there. -/
theorem exists_read (us vs : List Char) (z : Option FeedError) :
    ∃ (v : Outcome) (ws rs : List Char) (y : Option FeedError), vs = ws ++ rs ∧
      (y = z ∨ y = none) ∧ ∀ {φ : Type u} [Feed φ] {l : Lexer φ} {s : φ},
        l.cursor.Stands s us vs z →
          l.read.value = v ∧ l.read.after.cursor.Stands s (us ++ ws) rs y := by
  have whole : vs = vs ++ [] := vs.append_nil.symm
  rcases exists_gap vs with hg | ⟨g, c, r, rfl, hg, hc⟩
  · refine ⟨z.elim .finished fun e => .failed (.feed ⟨(({} : Position).past us).past vs, e⟩),
      vs, [], none, whole, .inr rfl, ?_⟩
    intro φ _ l s h
    obtain ⟨hv, ha⟩ := read_of_finalGap hg h.faces
    rw [whole] at h
    rw [ha]
    exact ⟨hv, h.iterate.close⟩
  · rcases exists_lexeme hc r with ⟨rfl, hb⟩ | ⟨t, w, r', hw, hl, hs⟩
    · refine ⟨.failed (z.elim (.unterminated ((({} : Position).past us).past g))
          fun e => .feed ⟨(({} : Position).past us).past (g ++ '"' :: r), e⟩),
        g ++ '"' :: r, [], none, whole, .inr rfl, ?_⟩
      intro φ _ l s h
      obtain ⟨hv, ha⟩ := read_of_openBody hg hb h.faces
      rw [whole] at h
      rw [ha]
      exact ⟨hv, h.iterate.close⟩
    · refine ⟨.token t, g ++ w, r', z, by rw [hw, List.append_assoc], .inl rfl, ?_⟩
      intro φ _ l s h
      rw [hw] at h
      obtain ⟨hv, ha⟩ := read_of_piece hg hl hs h.faces
      rw [← List.append_assoc] at h
      rw [ha]
      exact ⟨hv, h.iterate⟩

end Lexer

end LispLexer
