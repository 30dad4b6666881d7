import LispLexer.Cursor
import LispLexer.Feed.Text
import Mathlib.Data.List.Induction
import Mathlib.Data.Nat.Notation
import Mathlib.Logic.Function.Iterate

/-!
# What lies ahead

What a feed will still give, and what a cursor on it will still pass, as far as the next end or
error. Every scan of a cursor depends on nothing else, so the theorems about scans are stated over
what lies ahead, for every feed at once.

* `Feed.exists_gives`: every feed gives some characters and then stops.
* `Cursor.Faces.iterate`: a cursor that has passed some characters faces the others.
* `Cursor.Faces.unique`: a cursor faces only one thing.
* `Position.past_start`: the line and the column past a text, counted in the text.
-/

namespace LispLexer

open Text

universe u

/-! ## Feeds -/

/-- The pull at which a run of characters stops: the end, or an error. -/
def Pull.stop {α : Type u} : Option FeedError → Pull α
  | none => .ended
  | some e => .failed e

/-- The character that a pull gives. -/
def Pull.item? {α : Type u} : Pull α → Option α
  | item a => some a
  | _ => none

theorem Pull.filterMap_map_item {α : Type u} (as : List α) :
    (as.map Pull.item).filterMap item? = as := by
  rw [List.filterMap_map]
  exact List.filterMap_some

namespace Feed

variable {φ : Type u} [Feed φ]

/-- The feed gives the characters `cs`, one at a pull, and then `stop`. -/
def Gives (s : φ) (cs : List Char) (stop : Pull Char) : Prop :=
  (pulls (cs.length + 1) s).map Prod.fst = cs.map .item ++ [stop]

theorem gives_nil {s : φ} {stop : Pull Char} : Gives s [] stop ↔ (pull s).1 = stop := by
  simp [Gives, pulls]

theorem gives_cons {s : φ} {c : Char} {cs : List Char} {stop : Pull Char} :
    Gives s (c :: cs) stop ↔ (pull s).1 = .item c ∧ Gives (pull s).2 cs stop := by
  simp [Gives, pulls]

theorem exists_gives (s : φ) : ∃ cs z, Gives s cs (.stop z) := by
  -- the characters of one run are bounded by what the feed says is ahead
  induction h : ahead s using Nat.strongRecOn generalizing s with
  | _ n ih =>
    cases hp : (pull s).1 with
    | item c =>
      have hlt : ahead (pull s).2 < n := h ▸ ahead_lt (Prod.ext hp rfl)
      obtain ⟨cs, z, hcs⟩ := ih _ hlt _ rfl
      exact ⟨c :: cs, z, gives_cons.2 ⟨hp, hcs⟩⟩
    | ended => exact ⟨[], none, gives_nil.2 hp⟩
    | failed e => exact ⟨[], some e, gives_nil.2 hp⟩

end Feed

theorem TextFeed.gives (cs : List Char) : Feed.Gives (⟨cs⟩ : TextFeed) cs .ended := by
  induction cs with
  | nil => rfl
  | cons c cs ih => exact Feed.gives_cons.2 ⟨rfl, ih⟩

/-! ## Cursors -/

namespace Cursor

variable {φ : Type u} [Feed φ]

/-- The cursor has the characters `cs` to pass, the first of which stands at `p`, and then comes
    to the end of the input or to an error. -/
def Faces (k : Cursor φ) (p : Position) : List Char → Option FeedError → Prop
  | [], z => k.lookahead = .ended (z.map fun e => ⟨p, e⟩)
  | c :: cs, z => k.lookahead = .char c p ∧ k.advance.Faces (p.after c) cs z

theorem faces_nil {k : Cursor φ} {p : Position} {z : Option FeedError} :
    k.Faces p [] z ↔ k.lookahead = .ended (z.map fun e => ⟨p, e⟩) := Iff.rfl

theorem faces_cons {k : Cursor φ} {p : Position} {c : Char} {cs : List Char}
    {z : Option FeedError} :
    k.Faces p (c :: cs) z ↔ k.lookahead = .char c p ∧ k.advance.Faces (p.after c) cs z := Iff.rfl

theorem advance_of_char {k : Cursor φ} {p : Position} {c : Char}
    (h : k.lookahead = .char c p) : k.advance = pull k.feed (p.after c) := by
  simp only [advance, h]

theorem faces_pull {s : φ} {cs : List Char} {z : Option FeedError}
    (h : Feed.Gives s cs (.stop z)) (p : Position) : (pull s p).Faces p cs z := by
  induction cs generalizing s p with
  | nil =>
    rw [Feed.gives_nil] at h
    rw [faces_nil]
    unfold pull
    split <;> rename_i h' <;> rw [h'] at h <;> cases z <;> cases h <;> rfl
  | cons c cs ih =>
    obtain ⟨hc, hcs⟩ := Feed.gives_cons.1 h
    have hp : pull s p = ⟨(Feed.pull s).2, .char c p⟩ := by
      unfold pull
      split <;> rename_i h' <;> rw [h'] at hc <;> cases hc
      rw [h']
    rw [faces_cons, hp]
    exact ⟨rfl, ih hcs (p.after c)⟩

/-- Every cursor faces something. -/
theorem exists_faces (k : Cursor φ) : ∃ p cs z, k.Faces p cs z := by
  cases h : k.lookahead with
  | char c p =>
    obtain ⟨cs, z, hs⟩ := Feed.exists_gives k.feed
    exact ⟨p, c :: cs, z, h, advance_of_char h ▸ faces_pull hs (p.after c)⟩
  | ended pending =>
    cases pending with
    | none => exact ⟨{}, [], none, h⟩
    | some f => exact ⟨f.position, [], some f.cause, h⟩

namespace Faces

variable {k : Cursor φ} {p : Position} {z : Option FeedError}

theorem iterate {us vs : List Char} (h : k.Faces p (us ++ vs) z) :
    (advance^[us.length] k).Faces (p.past us) vs z := by
  induction us generalizing k p with
  | nil => exact h
  | cons c us ih => exact ih h.2

theorem unique {cs ds : List Char} {q : Position} {y : Option FeedError}
    (h : k.Faces p cs z) (h' : k.Faces q ds y) : cs = ds ∧ z = y := by
  induction cs generalizing k p q ds with
  | nil =>
    rw [faces_nil] at h
    cases ds with
    | nil =>
      rw [faces_nil, h] at h'
      refine ⟨rfl, ?_⟩
      cases z <;> cases y <;> cases h' <;> rfl
    | cons d ds => rw [faces_cons, h] at h'; cases h'.1
  | cons c cs ih =>
    cases ds with
    | nil => rw [faces_cons, faces_nil.1 h'] at h; cases h.1
    | cons d ds =>
      obtain ⟨rfl, rfl⟩ : c = d ∧ p = q := by
        have hl := h.1.symm.trans h'.1
        cases hl
        exact ⟨rfl, rfl⟩
      obtain ⟨rfl, hz⟩ := ih h.2 h'.2
      exact ⟨rfl, hz⟩

end Faces

end Cursor

/-- A feed gives one run of characters. -/
theorem Feed.Gives.unique {φ : Type u} [Feed φ] {s : φ} {cs ds : List Char}
    {z y : Option FeedError} (h : Gives s cs (.stop z)) (h' : Gives s ds (.stop y)) :
    cs = ds ∧ z = y :=
  (Cursor.faces_pull h {}).unique (Cursor.faces_pull h' {})

/-! ## Positions -/

/-- The position past a text that begins where texts begin: its line counts the line feeds of the
    text, and its column the characters after the last of them. -/
theorem Text.Position.past_start (cs : List Char) :
    ({} : Position).past cs
      = ⟨1 + cs.count '\n', 1 + (cs.reverse.takeWhile (· ≠ '\n')).length⟩ := by
  induction cs using List.reverseRecOn with
  | nil => rfl
  | append_singleton cs c ih =>
    rw [past_append, ih, past_cons, past_nil, after]
    by_cases hc : c = '\n'
    · subst hc
      simp [Nat.add_assoc]
    · simp [hc, List.count_append, Nat.add_comm]

end LispLexer
