import LispLexer.Proofs.Acceptance

/-!
# Offsets in a text

A text is made of parts: blanks, comments and lexemes. An offset is a boundary if the text up to it
is a row of parts. Where the boundaries are is fixed by the text, and it makes no difference to
those before a character what comes after it. A comment begins at a boundary with a `;`.

* `Part.unique`: a text begins with one part only.
* `Boundary.add_iff`: the boundaries behind a boundary are those of the text that follows it.
* `Boundary.with_rest`: the boundaries before a character, whatever comes after it.
* `Marks.append`: the comments of a text are marked piece by piece.
-/

namespace LispLexer.Grammar

open Text

/-! ## Lists of offsets -/

/-- The offsets below `n` that have a property and those behind, which are listed from `n` on, make
    one list in increasing order. -/
theorem increasing_append {P Q : ℕ → Prop} {n m : ℕ} {os os' : List ℕ}
    (hshift : ∀ o, P (n + o) ↔ Q o) (hos : os.Pairwise (· < ·))
    (hmem : ∀ o, o ∈ os ↔ o < n ∧ P o) (hos' : os'.Pairwise (· < ·))
    (hmem' : ∀ o, o ∈ os' ↔ o < m ∧ Q o) :
    (os ++ os'.map (n + ·)).Pairwise (· < ·) ∧
      ∀ o, o ∈ os ++ os'.map (n + ·) ↔ o < n + m ∧ P o := by
  constructor
  · rw [List.pairwise_append, List.pairwise_map]
    refine ⟨hos, hos'.imp (by omega), ?_⟩
    intro o ho i hi
    obtain ⟨j, -, rfl⟩ := List.mem_map.1 hi
    have hlt := ((hmem o).1 ho).1
    omega
  · intro o
    rw [List.mem_append, hmem, List.mem_map]
    constructor
    · rintro (⟨ho, hc⟩ | ⟨i, hi, rfl⟩)
      · exact ⟨by omega, hc⟩
      · obtain ⟨hi, hc⟩ := (hmem' i).1 hi
        exact ⟨by omega, (hshift i).2 hc⟩
    · rintro ⟨ho, hc⟩
      by_cases hlt : o < n
      · exact .inl ⟨hlt, hc⟩
      · obtain ⟨i, rfl⟩ := Nat.exists_eq_add_of_le (Nat.not_lt.1 hlt)
        exact .inr ⟨i, (hmem' i).2 ⟨by omega, (hshift i).1 hc⟩, rfl⟩

/-! ## Parts -/

/-- One part of a text, before the rest of it. -/
inductive Part (rest : List Char) : List Char → Prop
  | blank {c : Char} : isBlank c = true → Part rest [c]
  | comment {body : List Char} : '\n' ∉ body → Part rest (';' :: (body ++ ['\n']))
  | lexeme {t : Token} {w : List Char} : Lexeme t w → Separated t rest → Part rest w

theorem not_opens_of_isBlank {c : Char} (h : isBlank c = true) : ¬ Opens c :=
  fun hc => Bool.false_ne_true (hc.1.symm.trans h)

namespace Part

variable {rest rest' r us vs us' vs' body : List Char} {c : Char}

theorem exists_cons (h : Part rest us) : ∃ c r, us = c :: r := by
  cases h with
  | blank => exact ⟨_, _, rfl⟩
  | comment => exact ⟨_, _, rfl⟩
  | lexeme hl _ => exact List.exists_cons_of_ne_nil hl.ne_nil

theorem of_head? (h : Part rest us) (hr : rest'.head? = rest.head?) : Part rest' us := by
  cases h with
  | blank hc => exact .blank hc
  | comment hb => exact .comment hb
  | lexeme hl hs => exact .lexeme hl (hs.of_head? hr)

/-! The first character tells what kind of part it is. -/

theorem of_blank (h : Part rest (c :: r)) (hc : isBlank c = true) : r = [] := by
  cases h with
  | blank => rfl
  | comment => exact absurd hc (by decide)
  | lexeme hl =>
    obtain ⟨d, w, he, hd⟩ := hl.opens
    cases he
    exact absurd hd (not_opens_of_isBlank hc)

theorem of_comment (h : Part rest (';' :: r)) : ∃ body, '\n' ∉ body ∧ r = body ++ ['\n'] := by
  cases h with
  | blank hc => exact absurd hc (by decide)
  | comment hb => exact ⟨_, hb, rfl⟩
  | lexeme hl =>
    obtain ⟨d, w, he, hd⟩ := hl.opens
    cases he
    exact absurd rfl hd.2

theorem of_opens (h : Part rest (c :: r)) (hc : Opens c) :
    ∃ t, Lexeme t (c :: r) ∧ Separated t rest := by
  cases h with
  | blank hb => exact absurd hc (not_opens_of_isBlank hb)
  | comment => exact absurd rfl hc.2
  | lexeme hl hs => exact ⟨_, hl, hs⟩

/-- A text begins with one part only. -/
theorem unique (h : Part vs us) (h' : Part vs' us') (he : us ++ vs = us' ++ vs') :
    us = us' ∧ vs = vs' := by
  obtain ⟨c, r', rfl⟩ := h'.exists_cons
  cases h with
  | blank hc =>
    obtain ⟨rfl, htail⟩ := List.cons.inj he
    obtain rfl := h'.of_blank hc
    exact ⟨rfl, htail⟩
  | comment hb =>
    obtain ⟨rfl, -⟩ := List.cons.inj he
    obtain ⟨body, hb', rfl⟩ := h'.of_comment
    rw [List.cons_append, List.cons_append, List.append_assoc, List.append_assoc] at he
    obtain ⟨rfl, rfl⟩ := append_cons_inj hb hb' (List.cons.inj he).2
    exact ⟨rfl, rfl⟩
  | lexeme hl hs =>
    obtain ⟨d, r, rfl, hd⟩ := hl.opens
    obtain ⟨rfl, -⟩ := List.cons.inj he
    obtain ⟨t', hl', hs'⟩ := h'.of_opens hd
    have hfaces := Lexer.faces_ofString (String.ofList (d :: r ++ vs))
    rw [String.toList_ofList] at hfaces
    obtain ⟨-, hw, -, hrest⟩ := Lexer.piece_unique .nil hl hs .nil hl' hs' he hfaces
    exact ⟨hw, hrest⟩

/-- A comment without a line feed is no part. -/
theorem append_ne_openComment (h : Part vs us) (hb : '\n' ∉ body) : us ++ vs ≠ ';' :: body := by
  intro he
  obtain ⟨c, r, rfl⟩ := h.exists_cons
  obtain ⟨rfl, rfl⟩ := List.cons.inj he
  obtain ⟨body, -, rfl⟩ := h.of_comment
  simp at hb

/-- A string without an end is no part. -/
theorem append_ne_openString (h : Part vs us) (hb : OpenBody body) : us ++ vs ≠ '"' :: body := by
  intro he
  obtain ⟨c, r, rfl⟩ := h.exists_cons
  obtain ⟨rfl, -⟩ := List.cons.inj he
  obtain ⟨t, hl, hs⟩ := h.of_opens ⟨by decide, by decide⟩
  have hfaces := Lexer.faces_ofString (String.ofList ('"' :: r ++ vs))
  rw [String.toList_ofList] at hfaces
  have htoken := (Lexer.read_of_piece .nil hl hs hfaces).1
  rw [he] at hfaces
  rw [he, (Lexer.read_of_openBody .nil hb hfaces).1] at htoken
  cases htoken

end Part

/-! ## Boundaries -/

/-- The text up to the offset is a row of parts. -/
inductive Boundary : List Char → ℕ → Prop
  | start {cs : List Char} : Boundary cs 0
  | part {us vs : List Char} {o : ℕ} : Part vs us → Boundary vs o →
      Boundary (us ++ vs) (us.length + o)

namespace Boundary

variable {us vs cs : List Char} {m o : ℕ}

/-- A boundary is the beginning, or it is a boundary behind the first part. -/
theorem cases_part (hp : Part vs us) :
    Boundary (us ++ vs) o ↔ o = 0 ∨ ∃ i, o = us.length + i ∧ Boundary vs i := by
  constructor
  · intro h
    generalize he : us ++ vs = cs at h
    cases h with
    | start => exact .inl rfl
    | part hp' hb =>
      obtain ⟨rfl, rfl⟩ := hp.unique hp' he
      exact .inr ⟨_, rfl, hb⟩
  · rintro (rfl | ⟨i, rfl, hb⟩)
    · exact .start
    · exact .part hp hb

theorem part_iff (hp : Part vs us) : Boundary (us ++ vs) (us.length + o) ↔ Boundary vs o := by
  obtain ⟨c, r, rfl⟩ := hp.exists_cons
  rw [cases_part hp]
  simp

/-- The boundaries behind a boundary are those of the text that follows it. -/
theorem add_iff (h : Boundary cs m) : Boundary cs (m + o) ↔ Boundary (cs.drop m) o := by
  induction h with
  | start => rw [Nat.zero_add, List.drop_zero]
  | part hp _ ih => rw [Nat.add_assoc, part_iff hp, ih, List.drop_length_add_append]

theorem append (h : Boundary (us ++ vs) us.length) (h' : Boundary vs o) :
    Boundary (us ++ vs) (us.length + o) := by
  rwa [h.add_iff, List.drop_left]

/-- Before its second boundary a text has no boundary but the beginning. -/
theorem eq_zero_of_lt (hp : Part vs us) (h : Boundary (us ++ vs) o) (ho : o < us.length) :
    o = 0 := by
  rcases (cases_part hp).1 h with h0 | ⟨i, rfl, -⟩
  · exact h0
  · omega

/-- A text that begins with no part has no boundary but the beginning. -/
theorem eq_zero_of_no_part (hn : ∀ us vs, Part vs us → us ++ vs ≠ cs) (h : Boundary cs o) :
    o = 0 := by
  cases h with
  | start => rfl
  | part hp _ => exact absurd rfl (hn _ _ hp)

/-- What comes after a character makes no difference to the boundaries before it. -/
theorem with_rest {xs ys : List Char} (h : Boundary (xs ++ ys) o) (ho : o < xs.length)
    (ys' : List Char) : Boundary (xs ++ ys') o := by
  generalize he : xs ++ ys = cs at h
  induction h generalizing xs with
  | start => exact .start
  | part hp _ ih =>
    obtain ⟨c, m, rfl, rfl⟩ := exists_cons_of_append_eq he (by omega)
    rw [List.length_append] at ho
    rw [List.append_assoc]
    exact .part (hp.of_head? rfl) (ih (Nat.lt_of_add_lt_add_left ho) rfl)

end Boundary

theorem Gap.boundary {g : List Char} (hg : Gap g) (r : List Char) :
    Boundary (g ++ r) g.length := by
  induction hg with
  | nil => exact .start
  | blank hc _ ih =>
    rw [List.length_cons, Nat.add_comm]
    exact .part (.blank hc) ih
  | comment hb _ ih =>
    rw [comment_append, List.append_assoc, List.length_append]
    exact .part (.comment hb) ih

theorem Pieces.boundary {rest cs : List Char} {ps : List Piece} (h : Pieces rest cs ps) :
    Boundary cs (spelling ps).length := by
  induction h with
  | nil => exact .start
  | cons hg hl hs _ ih =>
    rw [spelling_cons, List.append_assoc, List.length_append, List.length_append]
    exact (hg.boundary _).append (.part (.lexeme hl hs) ih)

/-! ## Comments -/

/-- A comment begins at the offset. -/
def CommentAt (cs : List Char) (o : ℕ) : Prop := Boundary cs o ∧ cs[o]? = some ';'

theorem CommentAt.lt {cs : List Char} {o : ℕ} (h : CommentAt cs o) : o < cs.length :=
  (List.getElem?_eq_some_iff.1 h.2).1

/-- The comments behind a boundary are those of the text that follows it, and there are none behind
    the end. -/
theorem commentAt_append_iff {us vs : List Char}
    (h : Boundary (us ++ vs) us.length ∨ vs = []) (o : ℕ) :
    CommentAt (us ++ vs) (us.length + o) ↔ CommentAt vs o := by
  rcases h with hb | rfl
  · rw [CommentAt, CommentAt, hb.add_iff, ← List.getElem?_drop, List.drop_left]
  · constructor
    · intro hc
      have hlt := hc.lt
      rw [List.append_nil] at hlt
      omega
    · intro hc
      exact absurd hc.lt (Nat.not_lt_zero o)

theorem commentAt_with_rest {xs : List Char} {o : ℕ} (ho : o < xs.length) (ys ys' : List Char) :
    CommentAt (xs ++ ys) o ↔ CommentAt (xs ++ ys') o := by
  rw [CommentAt, CommentAt, List.getElem?_append_left ho, List.getElem?_append_left ho]
  exact and_congr_left' ⟨fun h => h.with_rest ho ys', fun h => h.with_rest ho ys⟩

/-- The comments of a text, as far as they begin among its first `m` characters: `qs` are their
    positions in order, if the text begins at `p`. -/
def Marks (p : Position) (cs : List Char) (m : ℕ) (qs : List Position) : Prop :=
  ∃ offsets : List ℕ, offsets.Pairwise (· < ·) ∧ (∀ o, o ∈ offsets ↔ o < m ∧ CommentAt cs o) ∧
    qs = offsets.map fun o => p.past (cs.take o)

namespace Marks

variable {p : Position} {us vs cs : List Char} {m : ℕ} {qs qs' : List Position}

theorem zero : Marks p cs 0 [] :=
  ⟨[], .nil, fun o => ⟨nofun, fun ho => absurd ho.1 (Nat.not_lt_zero o)⟩, rfl⟩

/-- Up to its second boundary a text has no comment, if it does not begin with one. -/
theorem of_ne (hc : cs.head? ≠ some ';') (h : ∀ o < m, Boundary cs o → o = 0) :
    Marks p cs m [] := by
  refine ⟨[], .nil, ?_, rfl⟩
  intro o
  constructor
  · exact nofun
  · rintro ⟨ho, hb, ho'⟩
    rw [h o ho hb, ← List.head?_eq_getElem?] at ho'
    exact absurd ho' hc

/-- Up to its second boundary a text has no comment but that with which it begins. -/
theorem of_eq (hc : cs.head? = some ';') (hm : 0 < m) (h : ∀ o < m, Boundary cs o → o = 0) :
    Marks p cs m [p] := by
  refine ⟨[0], List.pairwise_singleton _ _, ?_, rfl⟩
  intro o
  rw [List.mem_singleton]
  constructor
  · rintro rfl
    exact ⟨hm, .start, by rw [← List.head?_eq_getElem?, hc]⟩
  · rintro ⟨ho, hb, -⟩
    exact h o ho hb

/-- A blank or a lexeme has no comment in it. -/
theorem of_part (hp : Part vs us) (hc : (us ++ vs).head? ≠ some ';') :
    Marks p (us ++ vs) us.length [] :=
  .of_ne hc fun _ ho hb => hb.eq_zero_of_lt hp ho

/-- A comment is marked where it begins. -/
theorem of_comment {body : List Char} (hb : '\n' ∉ body) (rest : List Char) :
    Marks p ((';' :: (body ++ ['\n'])) ++ rest) (';' :: (body ++ ['\n'])).length [p] :=
  .of_eq rfl (Nat.succ_pos _) fun _ ho h => h.eq_zero_of_lt (.comment hb) ho

theorem of_openComment {body : List Char} (hb : '\n' ∉ body) :
    Marks p (';' :: body) (';' :: body).length [p] :=
  .of_eq rfl (Nat.succ_pos _) fun _ _ h =>
    h.eq_zero_of_no_part fun _ _ hp => hp.append_ne_openComment hb

theorem of_openString {body : List Char} (hb : OpenBody body) :
    Marks p ('"' :: body) ('"' :: body).length [] :=
  .of_ne (by simp) fun _ _ h => h.eq_zero_of_no_part fun _ _ hp => hp.append_ne_openString hb

/-- The comments of a text are marked piece by piece. -/
theorem append (hb : Boundary (us ++ vs) us.length ∨ vs = [])
    (h : Marks p (us ++ vs) us.length qs) (h' : Marks (p.past us) vs m qs') :
    Marks p (us ++ vs) (us.length + m) (qs ++ qs') := by
  obtain ⟨os, hos, hmem, rfl⟩ := h
  obtain ⟨os', hos', hmem', rfl⟩ := h'
  obtain ⟨hsorted, hall⟩ := increasing_append (commentAt_append_iff hb) hos hmem hos' hmem'
  refine ⟨os ++ os'.map (us.length + ·), hsorted, hall, ?_⟩
  rw [List.map_append, List.map_map]
  congr 1
  refine List.map_congr_left fun o _ => ?_
  rw [Function.comp_apply, List.take_length_add_append, Position.past_append]

end Marks

end LispLexer.Grammar
