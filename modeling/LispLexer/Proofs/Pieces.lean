import LispLexer.Proofs.Grammar
import Mathlib.Data.List.Basic

/-!
# Rows of pieces

A row of pieces can be cut anywhere and put together again. Of the text that follows it only the
first character matters, and that only if the last token is a symbol, so the same pieces are found
when other text follows. A symbol at the very end of a text is the one piece that may grow.

* `Pieces.eq_spelling_append`: where some pieces of a text end.
* `Pieces.split`, `Pieces.append`: a row is cut and put together.
* `Pieces.with_rest`: the same pieces before another rest.
* `Pieces.exists_grown`: the pieces of a text when more text arrives.
* `exists_pieces_intercalate`: lexemes with one blank between neighbours are a row of pieces.
-/

namespace LispLexer.Grammar

open Text

/-! ## Lists -/

/-- Where two lists with a common beginning are cut, the first one later. -/
theorem exists_cons_of_append_eq {α : Type*} {us vs ps ys : List α} (h : ps ++ ys = us ++ vs)
    (hlt : us.length < ps.length) : ∃ a p, ps = us ++ a :: p ∧ vs = a :: p ++ ys := by
  rcases List.append_eq_append_iff.1 h with ⟨p, rfl, -⟩ | ⟨p, rfl, rfl⟩
  · rw [List.length_append] at hlt
    omega
  · cases p with
    | nil => simp at hlt
    | cons a p => exact ⟨a, p, rfl, rfl⟩

/-- A list is cut in one way only at the first place where `x` stands. -/
theorem append_cons_inj {α : Type*} {x : α} {a b s t : List α} (ha : x ∉ a) (hb : x ∉ b)
    (h : a ++ x :: s = b ++ x :: t) : a = b ∧ s = t := by
  rcases List.append_eq_append_iff.1 h with ⟨m, rfl, hm⟩ | ⟨m, rfl, hm⟩
  · cases m with
    | nil => simpa using hm
    | cons c m =>
      obtain ⟨rfl, -⟩ := List.cons.inj hm
      simp at hb
  · cases m with
    | nil => simpa using hm.symm
    | cons c m =>
      obtain ⟨rfl, -⟩ := List.cons.inj hm
      simp at ha

/-- A separator between neighbours stands before all elements but the first. -/
theorem intercalate_map_cons {α β : Type*} (b : β) (f : α → List β) (a : α) (as : List α) :
    [b].intercalate ((a :: as).map f) = f a ++ as.flatMap fun x => b :: f x := by
  induction as generalizing a with
  | nil => simp
  | cons x as ih =>
    have hx := ih x
    rw [List.map_cons] at hx
    rw [List.map_cons, List.map_cons, List.intercalate_cons_cons, hx]
    simp

/-! ## Gaps -/

theorem Gap.append {g g' : List Char} (h : Gap g) (h' : Gap g') : Gap (g ++ g') := by
  induction h with
  | nil => exact h'
  | blank hc _ ih => exact .blank hc ih
  | comment hb _ ih =>
    rw [List.cons_append, List.append_assoc, List.cons_append]
    exact .comment hb ih

/-- A gap and a line feed are a gap, also if the last comment of the gap lacked its line feed. -/
theorem FinalGap.newline {g : List Char} (h : FinalGap g) : Gap (g ++ ['\n']) := by
  cases h with
  | closed hg => exact hg.append (.blank (by decide) .nil)
  | cut hg hb =>
    rw [List.append_assoc, List.cons_append]
    exact hg.append (.comment hb .nil)

/-! ## Separation -/

theorem Separated.of_head? {t : Token} {us vs : List Char} (h : Separated t us)
    (hv : vs.head? = us.head?) : Separated t vs := by
  cases t <;> cases us <;> cases vs <;> simp_all [Separated]

theorem isConstituent_of_isBlank {c : Char} (h : isBlank c = true) : isConstituent c = false := by
  simp [isConstituent, h]

/-- A blank separates any token from what follows it. -/
theorem separated_of_isBlank {b : Char} (hb : isBlank b = true) (t : Token) {cs : List Char}
    (hc : ∀ c ∈ cs.head?, c = b) : Separated t cs := by
  cases cs with
  | nil => cases t <;> trivial
  | cons c cs =>
    obtain rfl := hc c rfl
    cases t with
    | symbol x => exact isConstituent_of_isBlank hb
    | _ => trivial

/-! ## Symbols -/

/-- A symbol may go on with further constituents. -/
theorem Lexeme.grow {x : String} {w v : List Char} (h : Lexeme (.symbol x) w)
    (hv : ∀ d ∈ v, isConstituent d = true) :
    Lexeme (.symbol (String.ofList (w ++ v))) (w ++ v) := by
  cases h with
  | symbol hc hq hw => exact .symbol hc hq (List.forall_mem_append.2 ⟨hw, hv⟩)

/-! ## Rows -/

/-- The characters of some pieces: the gaps and the lexemes. -/
def spelling (ps : List Piece) : List Char := ps.flatMap fun q => q.gap ++ q.lexeme

@[simp] theorem spelling_nil : spelling [] = [] := rfl

@[simp] theorem spelling_cons (q : Piece) (ps : List Piece) :
    spelling (q :: ps) = q.gap ++ q.lexeme ++ spelling ps := rfl

namespace Pieces

variable {rest rest' mid cs : List Char} {ps qs : List Piece}

theorem eq_spelling_append (h : Pieces rest cs ps) : cs = spelling ps ++ rest := by
  induction h with
  | nil => rfl
  | cons _ _ _ _ ih =>
    rw [spelling_cons, List.append_assoc, List.append_assoc]
    exact congrArg _ (congrArg _ ih)

theorem append (h : Pieces mid cs ps) (h' : Pieces rest mid qs) : Pieces rest cs (ps ++ qs) := by
  induction h with
  | nil => exact h'
  | cons hg hl hs _ ih => exact .cons hg hl hs ih

theorem split (h : Pieces rest cs (ps ++ qs)) : ∃ mid, Pieces mid cs ps ∧ Pieces rest mid qs := by
  induction ps generalizing cs with
  | nil => exact ⟨cs, .nil, h⟩
  | cons q ps ih =>
    cases h with
    | cons hg hl hs hp =>
      obtain ⟨mid, hps, hqs⟩ := ih hp
      exact ⟨mid, .cons hg hl hs hps, hqs⟩

/-- The first pieces of a row are a row. -/
theorem take (h : Pieces rest cs ps) (k : ℕ) : ∃ r, Pieces r cs (ps.take k) := by
  rw [← ps.take_append_drop k] at h
  obtain ⟨mid, hp, -⟩ := h.split
  exact ⟨mid, hp⟩

theorem split_last {q : Piece} (h : Pieces rest cs (qs ++ [q])) :
    Pieces (q.gap ++ (q.lexeme ++ rest)) cs qs ∧ Gap q.gap ∧ Lexeme q.token q.lexeme ∧
      Separated q.token rest := by
  obtain ⟨mid, hqs, hq⟩ := h.split
  cases hq with
  | cons hg hl hs hn =>
    cases hn
    exact ⟨hqs, hg, hl, hs⟩

theorem separated (h : Pieces rest cs ps) {q : Piece} (hq : ps.getLast? = some q) :
    Separated q.token rest := by
  obtain ⟨qs, rfl⟩ := List.getLast?_eq_some_iff.1 hq
  exact h.split_last.2.2.2

/-- The same pieces before another rest, from which the last of them is separated as well. -/
theorem with_rest (h : Pieces rest cs ps)
    (hr : ∀ q, ps.getLast? = some q → Separated q.token rest') :
    Pieces rest' (spelling ps ++ rest') ps := by
  induction h with
  | nil => exact .nil
  | @cons g w cs t ps hg hl hs hp ih =>
    rw [spelling_cons, List.append_assoc, List.append_assoc]
    cases ps with
    | nil => exact .cons hg hl (hr _ rfl) .nil
    | cons q ps =>
      -- the next piece begins the text that follows, whatever the rest
      have hne : spelling (q :: ps) ≠ [] := by
        cases hp with
        | cons _ hl' _ _ => simp [hl'.ne_nil]
      have hhead : (spelling (q :: ps) ++ rest').head? = cs.head? := by
        rw [hp.eq_spelling_append, List.head?_append_of_ne_nil _ hne,
          List.head?_append_of_ne_nil _ hne]
      exact .cons hg hl (hs.of_head? hhead) (ih hr)

/-- The first character alone of what follows some pieces tells where they end. -/
theorem with_rest_of_head? (h : Pieces rest cs ps) (hr : rest'.head? = rest.head?) :
    Pieces rest' (spelling ps ++ rest') ps :=
  h.with_rest fun _ hq => (h.separated hq).of_head? hr

/-- Text that follows a row of pieces does not change them, unless it extends the last symbol. -/
theorem append_right (h : Pieces rest cs ps) (ds : List Char)
    (hr : ∀ q, ps.getLast? = some q → Separated q.token (rest ++ ds)) :
    Pieces (rest ++ ds) (cs ++ ds) ps := by
  have hp := h.with_rest hr
  rwa [← List.append_assoc, ← h.eq_spelling_append] at hp

/-- The pieces of a text when more text arrives: they stay, or the last one is a symbol at the very
    end, and it takes more constituents in. -/
theorem exists_grown (h : Pieces rest cs ps) (ds : List Char) :
    (∃ r, Pieces r (cs ++ ds) ps) ∨
      ∃ (qs : List Piece) (g w v r : List Char),
        ps = qs ++ [⟨g, w, .symbol (String.ofList w)⟩] ∧
          Pieces r (cs ++ ds) (qs ++ [⟨g, w ++ v, .symbol (String.ofList (w ++ v))⟩]) := by
  by_cases hr : ∀ q, ps.getLast? = some q → Separated q.token (rest ++ ds)
  · exact .inl ⟨_, h.append_right ds hr⟩
  · obtain ⟨q, hq, hn⟩ : ∃ q, ps.getLast? = some q ∧ ¬ Separated q.token (rest ++ ds) := by
      simpa using hr
    obtain ⟨qs, rfl⟩ := List.getLast?_eq_some_iff.1 hq
    obtain ⟨hqs, hg, hl, hs⟩ := h.split_last
    obtain ⟨g, w, t⟩ := q
    -- only a symbol with nothing after it is separated from its rest and not from more text
    cases hl with
    | @symbol c w hc hq' hw =>
      have hrest : rest = [] := by
        cases rest with
        | nil => rfl
        | cons d rest => exact absurd hs hn
      subst hrest
      refine .inr ⟨qs, g, c :: w, ds.takeWhile isConstituent, ds.dropWhile isConstituent, rfl, ?_⟩
      have hne : g ++ (c :: w ++ []) ≠ [] := by simp
      have hfirst : Pieces (g ++ (c :: w ++ []) ++ ds) (cs ++ ds) qs :=
        hqs.append_right ds fun q hq =>
          (hqs.separated hq).of_head? (List.head?_append_of_ne_nil _ hne)
      have hgrown := (Lexeme.symbol hc hq' hw).grow fun _ => List.mem_takeWhile_imp (l := ds)
      have hlast := Pieces.cons hg hgrown (separated_dropWhile _ ds) .nil
      rw [List.append_assoc _ _ (ds.dropWhile _), List.takeWhile_append_dropWhile,
        ← List.append_assoc] at hlast
      rw [List.append_nil] at hfirst
      exact hfirst.append hlast
    | _ => exact absurd trivial hn

end Pieces

/-! ## Rows of lexemes -/

variable {b : Char} {f : Token → List Char} {ts : List Token}

/-- Lexemes with a blank before each are a row of pieces. -/
theorem pieces_flatMap (hb : isBlank b = true) (h : ∀ t ∈ ts, Lexeme t (f t)) :
    Pieces [] (ts.flatMap fun t => b :: f t) (ts.map fun t => ⟨[b], f t, t⟩) := by
  induction ts with
  | nil => exact .nil
  | cons t ts ih =>
    obtain ⟨ht, hts⟩ := List.forall_mem_cons.1 h
    have hs : Separated t (ts.flatMap fun t => b :: f t) :=
      separated_of_isBlank hb t (by cases ts <;> simp)
    exact .cons (.blank hb .nil) ht hs (ih hts)

/-- Lexemes with one blank between neighbours are a row of pieces. -/
theorem exists_pieces_intercalate (hb : isBlank b = true) (h : ∀ t ∈ ts, Lexeme t (f t)) :
    ∃ ps, Pieces [] ([b].intercalate (ts.map f)) ps ∧ ps.map Piece.token = ts := by
  rcases ts with _ | ⟨t, ts⟩
  · exact ⟨[], .nil, rfl⟩
  · obtain ⟨ht, hts⟩ := List.forall_mem_cons.1 h
    have hs : Separated t (ts.flatMap fun t => b :: f t) :=
      separated_of_isBlank hb t (by cases ts <;> simp)
    rw [intercalate_map_cons]
    refine ⟨_, .cons .nil ht hs (pieces_flatMap hb hts), ?_⟩
    simp [Function.comp_def]

end LispLexer.Grammar
