import LispLexer.Proofs.Calls
import LispLexer.Proofs.Standing

/-!
# Lexers in step

Two lexers on two feeds that give the same characters, and stop in the same way, do the same at
every operation. They remain in step: what can be seen of them is the same, and each has made as
many pulls on its feed as the other, none of them past the stop.

* `Lexer.InStep.start`: two lexers set on such feeds are in step.
* `Lexer.InStep.read`: a read gives the same from both and leaves them in step.
* `Lexer.InStep.run`: so does every operation.
* `Lexer.InStep.session`: the entries of a session show the same.
* `Lexer.InStep.exists_skip`: the pulls that have been made.
-/

namespace LispLexer

open Text

universe u

namespace Lexer

variable {φ ψ : Type u} [Feed φ] [Feed ψ] {s : φ} {s' : ψ} {cs : List Char} {z : Option FeedError}
  {l : Lexer φ} {l' : Lexer ψ}

/-- The lexers were set on the feeds `s` and `s'`, which give the characters `cs` and then stop
    with `z`, and they have passed the same characters. -/
structure InStep (s : φ) (s' : ψ) (cs : List Char) (z : Option FeedError) (l : Lexer φ)
    (l' : Lexer ψ) : Prop where
  lookahead : l.lookahead = l'.lookahead
  last : l.last = l'.last
  unread : l.lookahead = none → l.feed = s ∧ l'.feed = s'
  stands : ∃ (us vs : List Char) (y : Option FeedError), us ++ vs = cs ∧ (y = z ∨ y = none) ∧
    l.cursor.Stands s us vs y ∧ l'.cursor.Stands s' us vs y

namespace InStep

theorem start (h : Feed.Gives s cs (.stop z)) (h' : Feed.Gives s' cs (.stop z)) :
    InStep s s' cs z { feed := s } { feed := s' } where
  lookahead := rfl
  last := rfl
  unread _ := ⟨rfl, rfl⟩
  stands := ⟨[], cs, z, rfl, .inl rfl, .start h, .start h'⟩

/-! ## What can be seen -/

theorem position (h : InStep s s' cs z l l') : l.position = l'.position := by
  unfold Lexer.position
  rw [h.lookahead]

theorem isExhausted (h : InStep s s' cs z l l') : l.isExhausted = l'.isExhausted := by
  unfold Lexer.isExhausted
  rw [h.lookahead]

/-- Both lexers have made the same number of pulls, and none after that which stopped. -/
theorem exists_skip (h : InStep s s' cs z l l') :
    ∃ i ≤ cs.length + 1, l.feed = Feed.skip i s ∧ l'.feed = Feed.skip i s' := by
  cases ha : l.lookahead with
  | none => exact ⟨0, Nat.zero_le _, h.unread ha⟩
  | some a =>
    obtain ⟨us, vs, y, rfl, -, hl, hl'⟩ := h.stands
    rw [cursor_of_some ha] at hl
    rw [cursor_of_some (h.lookahead ▸ ha)] at hl'
    refine ⟨us.length + 1, ?_, hl.feed, hl'.feed⟩
    rw [List.length_append]
    omega

/-- At the end all characters have been pulled, and the stop after them. A failure that waits there
    is this stop. -/
theorem ended {f : Option FeedFailure} (h : InStep s s' cs z l l')
    (hl : l.lookahead = some (.ended f)) :
    l.feed = Feed.skip (cs.length + 1) s ∧ ∀ g, f = some g → z = some g.cause := by
  obtain ⟨us, vs, y, rfl, hy, hs, -⟩ := h.stands
  rw [cursor_of_some hl] at hs
  have hfaces := hs.faces
  cases vs with
  | cons c vs => cases hfaces.1
  | nil =>
    rw [List.append_nil]
    refine ⟨hs.feed, ?_⟩
    rintro g rfl
    rw [Cursor.faces_nil] at hfaces
    cases y with
    | none => cases hfaces
    | some e =>
      cases hfaces
      exact (hy.resolve_right (Option.some_ne_none e)).symm

/-! ## Reads -/

/-- A read gives the same from both lexers and leaves them in step. -/
theorem read (h : InStep s s' cs z l l') :
    l.read.value = l'.read.value ∧ InStep s s' cs z l.read.after l'.read.after := by
  obtain ⟨us, vs, y, rfl, hy, hl, hl'⟩ := h.stands
  obtain ⟨v, ws, rs, x, rfl, hx, hread⟩ := exists_read us vs y
  obtain ⟨hv, ha⟩ := hread hl
  obtain ⟨hv', ha'⟩ := hread hl'
  have hcursor : l.read.after.cursor.lookahead = l'.read.after.cursor.lookahead :=
    ha.faces.lookahead_eq ha'.faces
  refine ⟨hv.trans hv'.symm, congrArg some hcursor, ?_, nofun, us ++ ws, rs, x, ?_, ?_, ha, ha'⟩
  · rw [last_after_read, last_after_read, hv, hv']
  · exact List.append_assoc us ws rs
  · rcases hx with rfl | rfl
    · exact hy
    · exact .inr rfl

theorem reads (h : InStep s s' cs z l l') (n : ℕ) :
    l.reads n = l'.reads n ∧ InStep s s' cs z (l.afterReads n) (l'.afterReads n) := by
  induction n generalizing l l' with
  | zero => exact ⟨rfl, h⟩
  | succ n ih =>
    obtain ⟨hv, ha⟩ := h.read
    obtain ⟨hr, hn⟩ := ih ha
    rw [Lexer.reads, Lexer.reads, hv, hr]
    exact ⟨rfl, hn⟩

/-! ## Operations -/

theorem tokens_run (h : InStep s s' cs z l l') : l.run.tokens = l'.run.tokens := by
  obtain ⟨us, vs, y, -, -, hl, hl'⟩ := h.stands
  rw [tokens_run_eq_tokensOf hl.faces, tokens_run_eq_tokensOf hl'.faces]

/-- An operation answers the same from both lexers and leaves them in step. -/
theorem run (h : InStep s s' cs z l l') (c : Call) :
    (c.run l).value = (c.run l').value ∧ InStep s s' cs z (c.run l).after (c.run l').after := by
  have hcount : c.reads l = c.reads l' := by
    cases c <;> simp only [Call.reads, h.tokens_run]
  obtain ⟨hr, ha⟩ := h.reads (c.reads l)
  rw [Call.value_run, Call.value_run, Call.after_run, Call.after_run, ← hcount, hr]
  exact ⟨rfl, ha⟩

theorem answers (h : InStep s s' cs z l l') (calls : List Call) :
    l.answers calls = l'.answers calls := by
  induction calls generalizing l l' with
  | nil => rfl
  | cons c calls ih =>
    obtain ⟨hv, ha⟩ := h.run c
    rw [Lexer.answers, Lexer.answers, hv, ih ha]

theorem afterCalls (h : InStep s s' cs z l l') (calls : List Call) :
    InStep s s' cs z (l.afterCalls calls) (l'.afterCalls calls) := by
  induction calls generalizing l l' with
  | nil => exact h
  | cons c calls ih => exact ih (h.run c).2

/-- The entries of a session are noted of lexers in step, with the same values. -/
theorem session [Metered φ] [Metered ψ] (h : InStep s s' cs z l l') (calls : List Call) :
    List.Forall₂ (fun e e' => ∃ m m' a, InStep s s' cs z m m' ∧ e = m.entry a ∧ e' = m'.entry a)
      (LispLexer.session l (calls.map .call)) (LispLexer.session l' (calls.map .call)) := by
  induction calls generalizing l l' with
  | nil => exact .nil
  | cons c calls ih =>
    obtain ⟨hv, ha⟩ := h.run c
    refine .cons ⟨(c.run l).after, (c.run l').after, .answer (c.run l).value, ha, rfl, ?_⟩ (ih ha)
    rw [hv]
    rfl

end InStep

end Lexer

end LispLexer
