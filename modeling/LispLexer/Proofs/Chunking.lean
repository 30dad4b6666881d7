import LispLexer.Proofs.Consumption
import LispLexer.Proofs.Laziness

/-!
# Chunks and interruptions

How a device cuts its bytes into chunks, and where it is interrupted, does not show. Two devices
that deliver the same bytes, ends and faults in the same order give the same characters, ends and
errors at every pull, also at those after an end or an error, and each pull takes as many bytes from
both. So no operation of a lexer tells them apart.

* `Feed.Same`: feeds that pulls do not tell apart.
* `Lexer.Twin.session`: on such feeds sessions are the same.
* `ByteFeed.Recut`: byte feeds that differ only in chunks and interruptions.
* `ByteFeed.session_of_recut`: they are the same for pulls and for sessions.
-/

namespace LispLexer

universe u

/-! ## Feeds that are the same -/

namespace Feed

variable {φ ψ : Type u} [Feed φ] [Feed ψ] [Metered φ] [Metered ψ] {s : φ} {s' : ψ}

/-- Every pull gives the same from both feeds, and after every pull as much has been used of
    both. -/
structure Same (s : φ) (s' : ψ) : Prop where
  pull : ∀ n, (Feed.pull (skip n s)).1 = (Feed.pull (skip n s')).1
  used : ∀ n, Metered.used (skip n s) = Metered.used (skip n s')

namespace Same

theorem skip (h : Same s s') (m : ℕ) : Same (Feed.skip m s) (Feed.skip m s') where
  pull n := by
    rw [← skip_add, ← skip_add]
    exact h.pull (m + n)
  used n := by
    rw [← skip_add, ← skip_add]
    exact h.used (m + n)

/-- The pulls from both feeds, with what has been used after each. -/
theorem pulls (h : Same s s') (n : ℕ) :
    (Feed.pulls n s).map (fun r => (r.1, Metered.used r.2))
      = (Feed.pulls n s').map fun r => (r.1, Metered.used r.2) := by
  induction n generalizing s s' with
  | zero => rfl
  | succ n ih =>
    have hpull := h.pull 0
    have hused := h.used 1
    simp only [Feed.skip] at hpull hused
    simp only [Feed.pulls, List.map_cons, hpull, hused]
    exact congrArg _ (ih (h.skip 1))

theorem gives (h : Same s s') {cs : List Char} {stop : Pull Char} (hg : Gives s cs stop) :
    Gives s' cs stop :=
  hg.of_agree fun i _ => h.pull i

end Same

end Feed

/-! ## Lexers on such feeds -/

namespace Lexer

variable {φ ψ : Type u} [Feed φ] [Feed ψ] [Metered φ] [Metered ψ] {l : Lexer φ} {l' : Lexer ψ}

/-- The lexers were set on two feeds that are the same, and have done the same since. -/
def Twin (l : Lexer φ) (l' : Lexer ψ) : Prop :=
  ∃ s s' cs z, Feed.Same s s' ∧ InStep s s' cs z l l'

namespace Twin

theorem start {s : φ} {s' : ψ} (h : Feed.Same s s') : Twin { feed := s } { feed := s' } := by
  obtain ⟨cs, z, hg⟩ := Feed.exists_gives s
  exact ⟨s, s', cs, z, h, .start hg (h.gives hg)⟩

theorem feed (h : Twin l l') : Feed.Same l.feed l'.feed := by
  obtain ⟨s, s', cs, z, hs, hl⟩ := h
  obtain ⟨i, -, hi, hi'⟩ := hl.exists_skip
  rw [hi, hi']
  exact hs.skip i

theorem entry (h : Twin l l') {α : Type*} (a : α) : l.entry a = l'.entry a := by
  have hused := h.feed.used 0
  obtain ⟨s, s', cs, z, -, hl⟩ := h
  simp only [Lexer.entry, hl.position, hl.isExhausted, hl.last]
  exact congrArg _ hused

/-- An operation answers the same from both lexers and leaves both the same. -/
theorem run (h : Twin l l') (c : Call) :
    (c.run l).value = (c.run l').value ∧ Twin (c.run l).after (c.run l').after := by
  obtain ⟨s, s', cs, z, hs, hl⟩ := h
  obtain ⟨hv, ha⟩ := hl.run c
  exact ⟨hv, s, s', cs, z, hs, ha⟩

theorem readEntries (h : Twin l l') (n : ℕ) :
    (l.readEntries n).1 = (l'.readEntries n).1 ∧
      Feed.Same (l.readEntries n).2 (l'.readEntries n).2 := by
  induction n generalizing l l' with
  | zero => exact ⟨rfl, h.feed⟩
  | succ n ih =>
    obtain ⟨hv, ha⟩ := h.run .read
    obtain ⟨hentries, hfeed⟩ := ih ha
    simp only [Lexer.readEntries, hv, ha.entry, hentries]
    exact ⟨trivial, hfeed⟩

/-- So does a step of a session, also one that goes on with a new lexer. -/
theorem step (h : Twin l l') (t : Step) :
    (t.run l).1 = (t.run l').1 ∧ Twin (t.run l).2 (t.run l').2 := by
  cases t with
  | call c =>
    obtain ⟨hv, ha⟩ := h.run c
    exact ⟨congrArg StepResult.answer hv, ha⟩
  | restart => exact ⟨rfl, start h.feed⟩
  | pull n =>
    have hpulls := congrArg (List.map Prod.fst) (h.feed.pulls n)
    rw [List.map_map, List.map_map] at hpulls
    exact ⟨congrArg StepResult.pulled hpulls, start (h.feed.skip n)⟩
  | lend n =>
    obtain ⟨hentries, hfeed⟩ := (start h.feed).readEntries n
    exact ⟨congrArg StepResult.lent hentries, start hfeed⟩

/-- The sessions of both lexers are the same. -/
theorem session (h : Twin l l') (steps : List Step) :
    LispLexer.session l steps = LispLexer.session l' steps := by
  induction steps generalizing l l' with
  | nil => rfl
  | cons t steps ih =>
    obtain ⟨hv, ha⟩ := h.step t
    rw [LispLexer.session, LispLexer.session, hv, ha.entry, ih ha]

end Twin

end Lexer

/-! ## Devices -/

namespace ByteFeed

/-- The feeds differ only in chunks and interruptions. -/
structure Recut (s s' : ByteFeed) : Prop where
  deliveries : byteByByte s.deliveries = byteByByte s'.deliveries
  consumed : s.consumed = s'.consumed

namespace Recut

variable {s s' : ByteFeed}

/-- A pull gives the same from both feeds and leaves them alike. -/
theorem pull (h : Recut s s') : ∃ p t t', s.pull = (p, t) ∧ s'.pull = (p, t') ∧ Recut t t' := by
  obtain ⟨k, p, us, qs, he⟩ := exists_ends_byteByByte s.deliveries
  obtain ⟨t, hs, ht⟩ := pull_of_ends ⟨rfl, rfl⟩ he
  obtain ⟨t', hs', ht'⟩ := pull_of_ends ⟨h.deliveries.symm, h.consumed.symm⟩ he
  exact ⟨p, t, t', hs, hs', ht.deliveries.trans ht'.deliveries.symm,
    ht.consumed.trans ht'.consumed.symm⟩

theorem skip (h : Recut s s') (n : ℕ) : Recut (Feed.skip n s) (Feed.skip n s') := by
  induction n generalizing s s' with
  | zero => exact h
  | succ n ih =>
    obtain ⟨p, t, t', hs, hs', ht⟩ := h.pull
    have hp : Feed.pull s = (p, t) := hs
    have hp' : Feed.pull s' = (p, t') := hs'
    rw [Feed.skip, Feed.skip, hp, hp']
    exact ih ht

theorem same (h : Recut s s') : Feed.Same s s' where
  pull n := by
    obtain ⟨p, t, t', hs, hs', -⟩ := (h.skip n).pull
    exact (congrArg Prod.fst hs).trans (congrArg Prod.fst hs').symm
  used n := (h.skip n).consumed

end Recut

/-- Two devices that deliver the same, once chunks are cut into bytes and empty chunks and
    interruptions are left out, give the same at every pull, with as many bytes taken after each;
    and a session on the one is a session on the other, with the same values and the same states
    after every step. -/
theorem session_of_recut {ds ds' : List Delivery} (h : byteByByte ds = byteByByte ds') :
    (∀ n, (Feed.pulls n (ByteFeed.mk ds 0)).map (fun r => (r.1, r.2.consumed))
        = (Feed.pulls n (ByteFeed.mk ds' 0)).map fun r => (r.1, r.2.consumed)) ∧
      ∀ steps : List Step, session { feed := ByteFeed.mk ds 0 } steps
        = session { feed := ByteFeed.mk ds' 0 } steps := by
  have hrecut : Recut ⟨ds, 0⟩ ⟨ds', 0⟩ := ⟨h, rfl⟩
  exact ⟨hrecut.same.pulls, (Lexer.Twin.start hrecut.same).session⟩

/-- `(λ)` with a cut and an interruption inside the second character, then an end, a fault, and
    another character: in other chunks, with an interruption elsewhere, it is the same. -/
theorem session_of_recut_inside_character :
    let ds : List Delivery := [.chunk [0x28, 0xCE], .fault ⟨.interrupted, "signal"⟩, .chunk [],
      .chunk [0xBB, 0x29], .ended, .fault ⟨.other, "disk on fire"⟩, .chunk [0x61]]
    let ds' : List Delivery := [.chunk [0x28], .chunk [0xCE, 0xBB], .chunk [0x29],
      .fault ⟨.interrupted, "signal"⟩, .ended, .chunk [], .fault ⟨.other, "disk on fire"⟩,
      .chunk [0x61]]
    let steps : List Step := [.call .read, .call .collect, .restart, .lend 1, .pull 2]
    byteByByte ds = byteByByte ds' ∧
      (Feed.pulls 6 (ByteFeed.mk ds' 0)).map (fun r => (r.1, r.2.consumed))
        = [(.item '(', 1), (.item 'λ', 3), (.item ')', 4), (.ended, 4),
          (.failed (.fault ⟨.other, "disk on fire"⟩), 4), (.item 'a', 5)] ∧
      session { feed := ByteFeed.mk ds 0 } steps = session { feed := ByteFeed.mk ds' 0 } steps := by
  intro ds ds' steps
  have h : byteByByte ds = byteByByte ds' := by decide +kernel
  obtain ⟨hpulls, hsession⟩ := session_of_recut h
  refine ⟨h, ?_, hsession steps⟩
  rw [← hpulls 6]
  decide +kernel

end ByteFeed

end LispLexer
