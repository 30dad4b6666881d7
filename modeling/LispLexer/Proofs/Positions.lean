import LispLexer.Proofs.LifeCycle
import LispLexer.Proofs.Offsets

/-!
# Positions

Every position that a lexer shows or reports is that of an offset in the characters that it has
pulled: of the character taken ahead, of the opening quote of a string that has no end, of the
character asked for when the feed failed, and of the `;` of each comment that it has passed. The
line and the column of an offset are counted in the characters before it.

* `Cursor.marks_gap`: the comments of a gap are marked where they begin.
* `Lexer.marks_read`, `Lexer.marks_reads`: so are those that one read passes, and any number.
* `Lexer.Placing`: what the positions of a lexer are, after some operations.
* `Lexer.placing_afterCalls`: this holds after any operations, on any feed.
-/

namespace LispLexer

open Text Grammar

universe u

/-! ## Characters pulled -/

/-- The characters that the first `n` pulls from a feed give. -/
def Feed.given {φ : Type u} [Feed φ] (n : ℕ) (s : φ) : List Char :=
  (pulls n s).filterMap fun r => r.1.item?

theorem Feed.Gives.given {φ : Type u} [Feed φ] {s : φ} {cs : List Char} {z : Option FeedError}
    (h : Gives s cs (.stop z)) {n : ℕ} (hn : n ≤ cs.length + 1) :
    Feed.given n s = cs.take n := by
  induction cs generalizing s n with
  | nil =>
    rw [gives_nil] at h
    rcases Nat.le_one_iff_eq_zero_or_eq_one.1 hn with rfl | rfl
    · rfl
    · cases z <;> simp [Feed.given, pulls, h, Pull.stop, Pull.item?]
  | cons c cs ih =>
    obtain ⟨hc, hcs⟩ := gives_cons.1 h
    cases n with
    | zero => rfl
    | succ n =>
      have hn := ih hcs (Nat.le_of_succ_le_succ hn)
      simpa [Feed.given, pulls, hc, Pull.item?] using hn

/-- The position that follows the characters `us`, which begin a text: its line counts their line
    feeds, and its column the characters after the last of these. -/
def Text.Position.following (us : List Char) : Position :=
  ⟨1 + us.count '\n', 1 + (us.reverse.takeWhile (· ≠ '\n')).length⟩

/-! ## Comments -/

/-- The position that the log of a comment gives. -/
def Event.comment? : Event → Option Position
  | comment start => some start
  | _ => none

namespace Cursor

variable {φ : Type u} [Feed φ] {k : Cursor φ} {p : Position} {z : Option FeedError}

/-- The comments of a gap are marked where they begin, before those of what follows. -/
theorem marks_gap {g r : List Char} (hg : Gap g) (h : k.Faces p (g ++ r) z) :
    ∃ qs, Marks p (g ++ r) g.length qs ∧
      k.skipGap.1 = qs ++ (advance^[g.length] k).skipGap.1 := by
  induction hg generalizing k p with
  | nil => exact ⟨[], .zero, rfl⟩
  | @blank c g hc _ ih =>
    obtain ⟨qs, hm, hs⟩ := ih h.2
    have hne : c ≠ ';' := by rintro rfl; exact absurd hc (by decide)
    have hpart : Part (g ++ r) [c] := .blank hc
    have hfirst : Marks p ([c] ++ (g ++ r)) [c].length [] := .of_part hpart (by simp [hne])
    refine ⟨qs, ?_, ?_⟩
    · have happend := hfirst.append (.inl (.part hpart .start)) hm
      rwa [Nat.add_comm] at happend
    · rw [skipGap_of_blank h.1 hc, hs]
      rfl
  | @comment body g hb _ ih =>
    rw [comment_append, List.append_assoc] at h ⊢
    obtain ⟨qs, hm, hs⟩ := ih h.iterate
    refine ⟨p :: qs, ?_, ?_⟩
    · rw [List.length_append]
      exact (Marks.of_comment hb (g ++ r)).append (.inl (.part (.comment hb) .start)) hm
    · rw [skipGap_of_comment h.1, skipLine_of_comment hb h, hs, List.length_append, Nat.add_comm,
        Function.iterate_add_apply]
      rfl

theorem marks_of_opens {g r : List Char} {c : Char} (hg : Gap g) (hc : Opens c)
    (h : k.Faces p (g ++ c :: r) z) : Marks p (g ++ c :: r) g.length k.skipGap.1 := by
  obtain ⟨qs, hm, hs⟩ := marks_gap hg h
  rw [skipGap_of_char h.iterate.1 hc.2 hc.1, List.append_nil] at hs
  rwa [hs]

theorem marks_of_finalGap {g : List Char} (hg : FinalGap g) (h : k.Faces p g z) :
    Marks p g g.length k.skipGap.1 := by
  cases hg with
  | closed hg =>
    rw [← g.append_nil] at h
    obtain ⟨qs, hm, hs⟩ := marks_gap hg h
    rw [skipGap_of_ended h.iterate, List.append_nil] at hs
    rwa [hs, ← g.append_nil, List.length_append]
  | @cut g body hg hb =>
    obtain ⟨qs, hm, hs⟩ := marks_gap hg h
    have hn : '\n' ∉ ';' :: body := by simp [hb]
    have hline := h.iterate
    have hend : (advance^[(';' :: body).length] (advance^[g.length] k)).Faces
        ((p.past g).past (';' :: body)) [] z := Faces.iterate (by simpa using hline)
    rw [skipGap_of_comment hline.1, skipLine_of_rest hn hline, skipGap_of_ended hend] at hs
    rw [hs, List.length_append]
    exact hm.append (.inl (hg.boundary _)) (.of_openComment hb)

end Cursor

namespace Lexer

variable {φ : Type u} [Feed φ] {l : Lexer φ} {s : φ} {us vs : List Char} {z : Option FeedError}

theorem comments_read (l : Lexer φ) :
    l.read.events.filterMap Event.comment? = l.cursor.skipGap.1 := by
  have hgap (qs : List Position) :
      (qs.map Event.comment).filterMap Event.comment? = qs := by
    rw [List.filterMap_map]
    exact List.filterMap_some
  have hvalue (o : Outcome) : o.events.filterMap Event.comment? = [] := by
    cases o <;> rfl
  rw [read, List.filterMap_append, hgap, hvalue, List.append_nil]

/-- The comments that a read passes are marked, and it comes to a boundary or to the end. -/
theorem marks_read (h : l.cursor.Stands s us vs z) :
    ∃ (ws rs : List Char) (y : Option FeedError), vs = ws ++ rs ∧
      (Boundary (ws ++ rs) ws.length ∨ rs = []) ∧
      Marks (({} : Position).past us) (ws ++ rs) ws.length
        (l.read.events.filterMap Event.comment?) ∧
      l.read.after.cursor.Stands s (us ++ ws) rs y := by
  have whole : vs = vs ++ [] := vs.append_nil.symm
  rw [comments_read]
  rcases exists_gap vs with hg | ⟨g, c, r, rfl, hg, hc⟩
  · refine ⟨vs, [], none, whole, .inr rfl, ?_, ?_⟩
    · rw [List.append_nil]
      exact Cursor.marks_of_finalGap hg h.faces
    · rw [(read_of_finalGap hg h.faces).2]
      rw [whole] at h
      exact h.iterate.close
  · have hgap := Cursor.marks_of_opens hg hc h.faces
    have hbound : Boundary (g ++ c :: r) g.length := hg.boundary _
    rcases exists_lexeme hc r with ⟨rfl, hb⟩ | ⟨t, w, r', hw, hl, hs⟩
    · refine ⟨g ++ '"' :: r, [], none, whole, .inr rfl, ?_, ?_⟩
      · have happend := hgap.append (.inl hbound) (.of_openString hb)
        rw [List.append_nil] at happend ⊢
        rwa [List.length_append]
      · rw [(read_of_openBody hg hb h.faces).2]
        rw [whole] at h
        exact h.iterate.close
    · have hne : (w ++ r').head? ≠ some ';' := by
        rw [← hw]
        exact fun he => hc.2 (Option.some.inj he)
      have hpart : Part r' w := .lexeme hl hs
      rw [hw] at h hgap hbound ⊢
      refine ⟨g ++ w, r', z, (List.append_assoc g w r').symm, .inl ?_, ?_, ?_⟩
      · rw [List.append_assoc, List.length_append]
        exact hbound.append (.part hpart .start)
      · have happend := hgap.append (.inl hbound) (.of_part hpart hne)
        rwa [List.append_nil, ← List.append_assoc, ← List.length_append] at happend
      · rw [(read_of_piece hg hl hs h.faces).2]
        rw [← List.append_assoc] at h
        exact h.iterate

/-- The comments that reads pass are marked. -/
theorem marks_reads (h : l.cursor.Stands s us vs z) (n : ℕ) :
    ∃ (ws rs : List Char) (y : Option FeedError), vs = ws ++ rs ∧
      (Boundary (ws ++ rs) ws.length ∨ rs = []) ∧
      Marks (({} : Position).past us) (ws ++ rs) ws.length
        ((l.readEvents n).filterMap Event.comment?) ∧
      (l.afterReads n).cursor.Stands s (us ++ ws) rs y := by
  induction n generalizing l us vs z with
  | zero => exact ⟨[], vs, z, rfl, .inl .start, .zero, us.append_nil.symm ▸ h⟩
  | succ n ih =>
    obtain ⟨ws, rs, y, rfl, hb, hm, hs⟩ := marks_read h
    obtain ⟨ws', rs', y', rfl, hb', hm', hs'⟩ := ih hs
    have hall := hm.append hb (Position.past_append _ us ws ▸ hm')
    refine ⟨ws ++ ws', rs', y', (List.append_assoc _ _ _).symm, ?_, ?_, ?_⟩
    · rcases hb with hb | hnil
      · refine hb'.imp_left fun hb' => ?_
        rw [List.append_assoc, List.length_append]
        exact hb.append hb'
      · exact .inr (List.append_eq_nil_iff.1 hnil).2
    · rw [readEvents, List.filterMap_append, List.append_assoc, List.length_append]
      exact hall
    · rw [afterReads, ← List.append_assoc]
      exact hs'

/-- Where a run fails: where its feed does, or at the quote of a string that has no end. -/
theorem failure_run_cases_of_faces {p : Position} {cs : List Char} {f : Failure}
    (h : l.cursor.Faces p cs z) (hf : l.run.failure = some f) :
    (∃ e, z = some e ∧ f = .feed ⟨p.past cs, e⟩) ∨
      ∃ us body, cs = us ++ '"' :: body ∧ Boundary cs us.length ∧ OpenBody body ∧
        f = .unterminated (p.past us) := by
  cases z with
  | some e =>
    rw [failure_run_of_error h] at hf
    exact .inl ⟨e, rfl, (Option.some.inj hf).symm⟩
  | none =>
    obtain ⟨ps, rest, hp, hr | ⟨hg, hb⟩⟩ := exists_pieces cs
    · rw [failure_run_of_finalGap hp hr h] at hf
      cases hf
    · rw [failure_run_of_openBody hp hg hb h] at hf
      refine .inr ⟨_, _, ?_, ?_, hb, (Option.some.inj hf).symm⟩
      · rw [List.append_assoc]
        exact hp.eq_spelling_append
      · have hbound := hp.boundary
        rw [hp.eq_spelling_append] at hbound ⊢
        rw [List.length_append]
        exact hbound.append (hg.boundary _)

/-! ## What positions are -/

/-- The positions of a lexer that was set on the source `s`, whose reads so far had the outcomes
    `os` and told a log the events `es`. -/
structure Placing (s : φ) (os : List Outcome) (es : List Event) (l : Lexer (Counted φ)) :
    Prop where
  /-- The position shown is that of the last character pulled, which is the one taken ahead. -/
  position : ∀ p, l.position = some p → ∃ us c, Feed.given l.feed.pulled s = us ++ [c] ∧
    l.lookahead = some (.char c p) ∧ p = .following us
  /-- A string that has no end is reported at its opening quote. -/
  unterminated : ∀ p, .failed (.unterminated p) ∈ os → ∃ us body,
    Feed.given l.feed.pulled s = us ++ '"' :: body ∧
      Boundary (Feed.given l.feed.pulled s) us.length ∧ OpenBody body ∧ p = .following us
  /-- A failure of the feed is that of the last pull, and it is reported where the character would
      have stood that this pull did not give. -/
  feed : ∀ f, .failed (.feed f) ∈ os →
    let us := Feed.given l.feed.pulled s
    l.feed.pulled = us.length + 1 ∧ (Feed.pull (Feed.skip us.length s)).1 = .failed f.cause ∧
      f.position = .following us
  /-- No other failure is reported. -/
  failures : ∀ f, .failed f ∈ os → (∃ p, f = .unterminated p) ∨ ∃ g, f = .feed g
  /-- The failures in the log are those reported. -/
  stopped : ∀ f, .stopped f ∈ es ↔ .failed f ∈ os
  /-- The comments in the log are those that begin before the last pull, in order, and each stands
      where it begins. -/
  comments : ∃ offsets : List ℕ, offsets.Pairwise (· < ·) ∧
    (∀ o, o ∈ offsets ↔
      o + 1 < l.feed.pulled ∧ CommentAt (Feed.given l.feed.pulled s) o) ∧
    es.filterMap Event.comment?
      = offsets.map fun o => .following ((Feed.given l.feed.pulled s).take o)

/-- The comments of the characters pulled are those of the whole input, as far as a pull has been
    made behind them. -/
theorem comments_of_marks {ws rs cs : List Char} {k : ℕ} {qs : List Position}
    (hk : k = ws.length + 1) (hcs : cs = (ws ++ rs).take k)
    (h : Marks {} (ws ++ rs) ws.length qs) :
    ∃ offsets : List ℕ, offsets.Pairwise (· < ·) ∧
      (∀ o, o ∈ offsets ↔ o + 1 < k ∧ CommentAt cs o) ∧
      qs = offsets.map fun o => .following (cs.take o) := by
  have happend : ws ++ rs = cs ++ (ws ++ rs).drop k := by rw [hcs, List.take_append_drop]
  have hle : ws.length ≤ cs.length := by
    rw [hcs, List.length_take, List.length_append]
    omega
  obtain ⟨offsets, hsorted, hmem, rfl⟩ := h
  refine ⟨offsets, hsorted, ?_, ?_⟩
  · intro o
    rw [hmem, hk, Nat.add_lt_add_iff_right]
    refine and_congr_right fun ho => ?_
    have hrest := commentAt_with_rest (Nat.lt_of_lt_of_le ho hle) ((ws ++ rs).drop k) []
    rwa [← happend, List.append_nil] at hrest
  · refine List.map_congr_left fun o ho => ?_
    have hlt := ((hmem o).1 ho).1
    have htake : (ws ++ rs).take o = cs.take o := by
      rw [happend, List.take_append_of_le_length (by omega)]
    rw [htake]
    exact Position.past_start _

/-- The positions of a lexer that has only made reads. -/
theorem placing_afterReads (s : φ) (n : ℕ) :
    Placing s ((counting s).reads n) ((counting s).readEvents n) ((counting s).afterReads n) := by
  cases n with
  | zero =>
    refine ⟨nofun, nofun, nofun, nofun, fun f => ⟨nofun, nofun⟩, [], .nil, ?_, rfl⟩
    exact fun o => ⟨nofun, fun h => absurd h.1 (Nat.not_lt_zero _)⟩
  | succ n =>
    obtain ⟨cs, z, hg⟩ := Feed.exists_gives s
    have hstart := stands_counting hg
    obtain ⟨ws, rs, y, rfl, -, hmarks, hstands⟩ := marks_reads hstart (n + 1)
    obtain ⟨a, ha⟩ := (counting s).exists_lookahead_afterReads (Nat.succ_pos n)
    rw [List.nil_append] at hstands
    have hpulled := pulled_of_stands ha hstands
    have hgiven : Feed.given ((counting s).afterReads (n + 1)).feed.pulled s
        = (ws ++ rs).take ((counting s).afterReads (n + 1)).feed.pulled := by
      refine hg.given ?_
      rw [hpulled, List.length_append]
      omega
    -- a failure is reported when everything has been pulled
    have hend {f : Failure} (hf : .failed f ∈ (counting s).reads (n + 1)) :
        ((counting s).afterReads (n + 1)).feed.pulled = (ws ++ rs).length + 1 ∧
          Feed.given ((counting s).afterReads (n + 1)).feed.pulled s = ws ++ rs := by
      have hall := pulled_afterReads hg (failure_of_mem_reads hf).1
      refine ⟨hall, ?_⟩
      rw [hgiven, List.take_of_length_le (by omega)]
    have hcases {f : Failure} (hf : .failed f ∈ (counting s).reads (n + 1)) :=
      failure_run_cases_of_faces hstart.faces (failure_of_mem_reads hf).2
    constructor
    case position =>
      intro p hp
      obtain ⟨c, rs, rfl⟩ : ∃ c r, rs = c :: r := by
        refine List.exists_cons_of_ne_nil ((stands_of_some ha hstands).2.1 ?_)
        rw [hp]
        rfl
      have hl := lookahead_of_stands ha hstands
      obtain rfl : p = ({} : Position).past ws := by
        simp only [Lexer.position, hl, Option.some.injEq] at hp
        exact hp.symm
      refine ⟨ws, c, ?_, hl, Position.past_start ws⟩
      rw [hgiven, hpulled, List.take_length_add_append]
      rfl
    case unterminated =>
      intro p hf
      rcases hcases hf with ⟨e, -, he⟩ | ⟨us, body, hcs, hb, ho, he⟩
      · cases he
      · cases he
        rw [(hend hf).2]
        exact ⟨us, body, hcs, hb, ho, Position.past_start us⟩
    case feed =>
      intro f hf us
      obtain ⟨hall, hus⟩ := hend hf
      rcases hcases hf with ⟨e, rfl, he⟩ | ⟨_, _, _, _, _, he⟩
      · cases he
        have hcs : us = ws ++ rs := hus
        rw [hcs]
        exact ⟨hall, hg.pull_skip_length, Position.past_start _⟩
      · cases he
    case failures =>
      intro f hf
      rcases hcases hf with ⟨e, -, rfl⟩ | ⟨_, _, _, _, _, rfl⟩
      · exact .inr ⟨_, rfl⟩
      · exact .inl ⟨_, rfl⟩
    case stopped => exact (counting s).stopped_mem_readEvents (n + 1)
    case comments => exact comments_of_marks hpulled hgiven hmarks

end Lexer

/-! ## Sources of any kind -/

/-- As long as the budget lasts, the characters that a source is used for are those it answers. -/
theorem Unbounded.given {σ : Type u} (next : σ → Pull Char × σ) (s : σ) {n k : ℕ} (h : k ≤ n) :
    Feed.given k (Unbounded.mk next s n) = (answers next k s).filterMap Pull.item? := by
  induction k generalizing s n with
  | zero => rfl
  | succ k ih =>
    cases n with
    | zero => cases h
    | succ n =>
      have hn := ih (next s).2 (Nat.le_of_succ_le_succ h)
      simp only [Feed.given, Feed.pulls, answers, List.filterMap_cons] at hn ⊢
      rw [← hn]
      rfl

/-! ## Operations -/

namespace Lexer

/-- Positions are exact, whatever operations are called on a lexer and whatever its source gives. A
    source that promises no end is a feed for a number of calls, and the characters pulled from this
    feed are those that the source has answered. What is reported and logged names the position. -/
theorem placing_afterCalls (calls : List Call) :
    (∀ (φ : Type u) [Feed φ] (s : φ), Placing s ((counting s).outcomes calls)
      ((counting s).log calls) ((counting s).afterCalls calls)) ∧
    (∀ (σ : Type u) (next : σ → Pull Char × σ) (s : σ) (n k : ℕ), k ≤ n →
      Feed.given k (Unbounded.mk next s n)
        = (Unbounded.answers next k s).filterMap Pull.item?) ∧
    ∀ (p : Position) (e : FeedError),
      p.text = s!"line {p.line} column {p.column}" ∧
        (Failure.unterminated p).report
          = .incomplete ("unterminated string starting at " ++ p.text) ∧
        (Failure.feed ⟨p, e⟩).report
          = .failed ("failed to read input at " ++ p.text ++ ": " ++ e.message) ∧
        (Event.comment p).text = "skipped comment at " ++ p.text := by
  refine ⟨?_, ?_, fun p e => ⟨rfl, rfl, rfl, rfl⟩⟩
  · intro φ _ s
    rw [afterCalls_eq_afterReads, outcomes_eq_reads, log_eq_readEvents]
    have h := placing_afterReads s ((counting s).outcomes calls).length
    rwa [length_reads]
  · intro σ next s n k h
    exact Unbounded.given next s h

/-- The comment on the first line of a text is logged where it begins, and the string that is left
    open on its third line is reported there. Four calls of the endless source give three
    characters. -/
theorem placing_of_open_string :
    let s := TextFeed.ofString "a ;b\n\n \"c\n"
    let l := (counting s).afterCalls [.read, .all]
    let es := (counting s).log [.read, .all]
    Event.stopped (.unterminated ⟨3, 2⟩) ∈ es ∧
      (∃ us body, Feed.given l.feed.pulled s = us ++ '"' :: body ∧
        (⟨3, 2⟩ : Position) = .following us) ∧
      (∃ offsets : List ℕ, [⟨1, 3⟩]
        = offsets.map fun o => Position.following ((Feed.given l.feed.pulled s).take o)) ∧
      4 ≤ 9 ∧ Feed.given 4 (Unbounded.mk endlessSource 0 9) = ['(', 'a', 'b'] := by
  intro s l es
  obtain ⟨hfeeds, hsources, -⟩ := placing_afterCalls [.read, .all]
  have h := hfeeds TextFeed s
  have hstopped : Event.stopped (.unterminated ⟨3, 2⟩) ∈ es := by decide +kernel
  have hcomments : es.filterMap Event.comment? = [⟨1, 3⟩] := by decide +kernel
  obtain ⟨us, body, hgiven, -, -, hp⟩ := h.unterminated _ ((h.stopped _).1 hstopped)
  obtain ⟨offsets, -, -, hoffsets⟩ := h.comments
  have hle : 4 ≤ 9 := by decide
  exact ⟨hstopped, ⟨us, body, hgiven, hp⟩, ⟨offsets, hcomments ▸ hoffsets⟩, hle,
    hsources ℕ endlessSource 0 9 4 hle⟩

end Lexer

end LispLexer
