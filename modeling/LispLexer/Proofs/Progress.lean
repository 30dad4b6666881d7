import LispLexer.Proofs.Laziness
import Mathlib.Algebra.Ring.Nat

/-!
# Progress

Reading comes to an end, and it costs what it gives. All characters of a source and its stop are
pulled once and no more is pulled; each token takes at least as many characters as its text has; and
one read pulls at most what is left. A source that promises nothing is called no more often than
this either, so no bound on its calls is what ends the reading. Below the characters, a device is
asked once for each byte and once more for each interruption that is waited out.

* `Grammar.Pieces.sum_text_le`: the texts of tokens are no longer than the text that they are read
  from.
* `Lexer.exhausts_of_gives`: what reading a source to its end comes to.
* `Lexer.pulled_lt_of_token`, `Lexer.pulled_read_le`: the pulls of one read.
* `ByteFeed.exists_costs_pull`, `ByteFeed.exists_costs_skip`: the requests of pulls.
* `Lexer.reading_exhausts`: all of this together.
-/

namespace LispLexer

open Text Grammar

universe u

/-! ## Tokens and their spellings -/

namespace Grammar

theorem Body.length_le {raw cs : List Char} (h : Body raw cs) : cs.length ≤ raw.length := by
  induction h with
  | nil => exact Nat.le_refl _
  | plain _ _ _ ih => exact Nat.succ_le_succ ih
  | _ => simp only [List.length_cons]; omega

theorem Lexeme.length_text_le {t : Token} {w : List Char} (h : Lexeme t w) :
    t.text.length ≤ w.length := by
  cases h with
  | lparen => exact Nat.le_refl _
  | rparen => exact Nat.le_refl _
  | quote => exact Nat.le_refl _
  | symbol _ _ _ => rw [Token.text, String.length_ofList]
  | string hb =>
    have hle := hb.length_le
    simp only [Token.text, String.length_ofList, List.length_cons, List.length_append]
    omega

theorem Lexeme.length_text_pos {t : Token} {w : List Char} (h : Lexeme t w) :
    0 < t.text.length := by
  obtain ⟨c, r, cs, -, ht, -⟩ := h.begins
  rw [← String.length_toList, ht]
  exact Nat.succ_pos _

namespace Pieces

variable {rest cs : List Char} {ps : List Piece}

theorem length_le_sum_text (h : Pieces rest cs ps) :
    ps.length ≤ ((ps.map Piece.token).map fun t => t.text.length).sum := by
  induction h with
  | nil => exact Nat.le_refl _
  | cons _ hl _ _ ih =>
    have hpos := hl.length_text_pos
    simp only [List.length_cons, List.map_cons, List.sum_cons]
    omega

/-- The texts of the tokens of some pieces have at most the characters of the pieces. -/
theorem sum_text_le (h : Pieces rest cs ps) :
    ((ps.map Piece.token).map fun t => t.text.length).sum ≤ (spelling ps).length := by
  induction h with
  | nil => exact Nat.le_refl _
  | cons _ hl _ _ ih =>
    have hle := hl.length_text_le
    simp only [List.map_cons, List.sum_cons, spelling_cons, List.length_append]
    omega

end Pieces

end Grammar

namespace Lexer

variable {φ : Type u} [Feed φ] {s : φ} {cs rs us vs : List Char} {p : Position}
  {y z : Option FeedError}

/-! ## Reading to the end -/

/-- What reading a source of `n` characters comes to. -/
structure Exhausts (s : φ) (n : ℕ) : Prop where
  /-- Reading gives all tokens, and then the end or a failure. -/
  ends : ∃ o : Outcome, o.token? = none ∧
    (counting s).reads ((counting s).all.value.length + 1)
      = (counting s).all.value.map .token ++ [o]
  /-- By then the source has been called for each of its characters and for its stop. -/
  pulled : ((counting s).afterReads ((counting s).all.value.length + 1)).feed.pulled = n + 1
  /-- There are at most as many tokens as characters. -/
  tokens : (counting s).all.value.length ≤ n
  /-- The texts of the tokens have at most as many characters as the source. -/
  characters : ((counting s).all.value.map fun t => t.text.length).sum ≤ n

/-- The tokens of a run are no more, and their texts no longer, than the characters ahead. -/
theorem sum_text_run_le {l : Lexer φ} (h : l.cursor.Faces p cs z) :
    l.run.tokens.length ≤ (l.run.tokens.map fun t => t.text.length).sum ∧
      (l.run.tokens.map fun t => t.text.length).sum ≤ cs.length := by
  obtain ⟨ps, rest, hp, hr⟩ := exists_pieces cs
  have hlength : (spelling ps).length ≤ cs.length := by
    rw [hp.eq_spelling_append, List.length_append]
    exact Nat.le_add_right _ _
  rw [tokens_run hp hr h, List.length_map]
  exact ⟨hp.length_le_sum_text, Nat.le_trans hp.sum_text_le hlength⟩

theorem exhausts_of_gives (h : Feed.Gives s cs (.stop z)) : Exhausts s cs.length := by
  obtain ⟨hcount, hsum⟩ := sum_text_run_le (stands_counting h).faces
  refine ⟨⟨(counting s).run.failure.elim .finished .failed, ?_, ?_⟩, ?_,
    Nat.le_trans hcount hsum, hsum⟩
  · cases (counting s).run.failure <;> rfl
  · exact (counting s).reads_run 0
  · exact pulled_afterReads h (Nat.lt_succ_self _)

/-! ## One read -/

theorem pulled_le_cursor (l : Lexer (Counted φ)) : l.feed.pulled ≤ l.cursor.feed.pulled := by
  cases ha : l.lookahead with
  | none =>
    rw [cursor_of_none ha, Cursor.feed_pull]
    exact Nat.le_succ _
  | some a =>
    rw [cursor_of_some ha]

/-- What a cursor has pulled and has still to pass is no more than what its lexer had pulled and
    what the feed gives then, its stop included. -/
theorem pulled_cursor_add_le {l : Lexer (Counted φ)} (h : l.cursor.Faces p vs y)
    (hg : Feed.Gives l.feed.inner rs (.stop z)) :
    l.cursor.feed.pulled + vs.length ≤ l.feed.pulled + rs.length + 1 := by
  have hfeed : Feed.Gives l.feed rs (.stop z) := Counted.gives hg l.feed.pulled
  cases ha : l.lookahead with
  | none =>
    rw [cursor_of_none ha] at h ⊢
    obtain ⟨rfl, -⟩ := h.unique (Cursor.faces_pull hfeed {})
    rw [Cursor.feed_pull, Nat.add_right_comm]
    exact Nat.le_refl _
  | some a =>
    rw [cursor_of_some ha] at h ⊢
    cases vs with
    | nil => exact Nat.le_trans (Nat.le_add_right _ _) (Nat.le_succ _)
    | cons c vs =>
      -- the character ahead has been pulled before; the feed gives those after it
      have hnext := h.2
      rw [Cursor.advance_of_char h.1] at hnext
      obtain ⟨rfl, -⟩ := hnext.unique (Cursor.faces_pull hfeed _)
      exact Nat.le_refl _

/-- A lexer stands somewhere in its feed after any operations. -/
theorem exists_stands_afterCalls (s : φ) (calls : List Call) :
    ∃ (us vs : List Char) (y : Option FeedError),
      ((counting s).afterCalls calls).cursor.Stands (Counted.mk s 0) us vs y := by
  obtain ⟨cs, z, hg⟩ := Feed.exists_gives s
  obtain ⟨us, vs, y, -, -, hs, -⟩ := ((InStep.counting hg hg).afterCalls calls).stands
  exact ⟨us, vs, y, hs⟩

section

variable {l : Lexer (Counted φ)}

theorem pulled_lt_of_token (h : l.cursor.Stands (Counted.mk s 0) us vs y) {t : Token}
    (hv : l.read.value = .token t) : l.feed.pulled < l.read.after.feed.pulled := by
  have hone : 1 ≤ l.run.tokens.length := by
    rw [(run_of_first_token hv).1]
    exact Nat.succ_pos _
  obtain ⟨rest, ps, hp, hlen⟩ := exists_first_pieces h.faces hone
  obtain ⟨q, rfl⟩ := List.length_eq_one_iff.1 hlen
  have hnext : l.read.after.cursor.Stands (Counted.mk s 0) (us ++ spelling [q]) rest y :=
    (reads_of_pieces hp h).2
  cases hp with
  | @cons g w _ _ _ _ hl _ _ =>
    have hw : 0 < w.length := List.length_pos_of_ne_nil hl.ne_nil
    have hpulled := pulled_of_stands rfl hnext
    simp only [spelling_cons, List.length_append] at hpulled
    calc l.feed.pulled ≤ l.cursor.feed.pulled := l.pulled_le_cursor
      _ = us.length + 1 := h.pulled
      _ < l.read.after.feed.pulled := by omega

theorem pulled_read_le (h : l.cursor.Stands (Counted.mk s 0) us vs y)
    (hg : Feed.Gives l.feed.inner rs (.stop z)) :
    l.read.after.feed.pulled ≤ l.feed.pulled + rs.length + 1 := by
  obtain ⟨v, ws, xs, x, rfl, -, hread⟩ := exists_read us vs y
  calc l.read.after.feed.pulled = (us ++ ws).length + 1 := pulled_of_stands rfl (hread h).2
    _ ≤ us.length + 1 + (ws ++ xs).length := by
      simp only [List.length_append]
      omega
    _ = l.cursor.feed.pulled + (ws ++ xs).length := by rw [h.pulled]
    _ ≤ l.feed.pulled + rs.length + 1 := pulled_cursor_add_le h.faces hg

end

end Lexer

/-! ## Requests to a device -/

namespace ByteFeed

/-- One request to a device, which answers it or interrupts it. Empty chunks are passed over. -/
def ask : List Delivery → Option (Pull UInt8) × List Delivery
  | [] => (some .ended, [])
  | .chunk [] :: ds => ask ds
  | .chunk (b :: bs) :: ds => (some (.item b), .chunk bs :: ds)
  | .ended :: ds => (some .ended, ds)
  | .fault f :: ds => (if f.kind = .interrupted then none else some (.failed (.fault f)), ds)

/-- The number of interruptions among some deliveries. -/
def interruptions (ds : List Delivery) : ℕ :=
  ds.countP fun
    | .fault f => f.kind = .interrupted
    | _ => false

/-- A device is asked `n` times, is interrupted each time but the last, and then answers `p`. -/
inductive Asks : ℕ → List Delivery → Pull UInt8 → List Delivery → Prop
  | answered {ds ds' : List Delivery} {p : Pull UInt8} : ask ds = (some p, ds') → Asks 1 ds p ds'
  | interrupted {n : ℕ} {ds ds₁ ds' : List Delivery} {p : Pull UInt8} : ask ds = (none, ds₁) →
      Asks n ds₁ p ds' → Asks (n + 1) ds p ds'

/-- A device is asked for `k` bytes one after the other, and `n` times for all of them. -/
inductive AsksBytes : ℕ → ℕ → List Delivery → List Delivery → Prop
  | none {ds : List Delivery} : AsksBytes 0 0 ds ds
  | byte {k m n : ℕ} {ds ds₁ ds' : List Delivery} {p : Pull UInt8} : Asks m ds p ds₁ →
      AsksBytes k n ds₁ ds' → AsksBytes (k + 1) (m + n) ds ds'

theorem AsksBytes.trans {k k' n n' : ℕ} {ds ds' ds'' : List Delivery} (h : AsksBytes k n ds ds')
    (h' : AsksBytes k' n' ds' ds'') : AsksBytes (k + k') (n + n') ds ds'' := by
  induction h with
  | none => rwa [Nat.zero_add, Nat.zero_add]
  | byte ha _ ih =>
    rw [Nat.succ_add, Nat.add_assoc]
    exact .byte ha (ih h')

theorem Asks.chunk_nil {n : ℕ} {ds ds' : List Delivery} {p : Pull UInt8} (h : Asks n ds p ds') :
    Asks n (.chunk [] :: ds) p ds' := by
  cases h with
  | answered h => exact .answered h
  | interrupted h hn => exact .interrupted h hn

/-- Waiting interruptions out costs one request for each of them, and one for the answer. -/
theorem exists_asks_request (ds : List Delivery) :
    ∃ n, Asks n ds (request ds).1 (request ds).2 ∧
      n + interruptions (request ds).2 = interruptions ds + 1 := by
  -- each turn of the loop but the last one uses up an interruption
  fun_induction request ds with
  | case1 => exact ⟨1, .answered rfl, rfl⟩
  | case2 ds ih =>
    obtain ⟨n, ha, hn⟩ := ih
    exact ⟨n, ha.chunk_nil, hn⟩
  | case3 b bs ds => exact ⟨1, .answered rfl, Nat.add_comm _ _⟩
  | case4 ds => exact ⟨1, .answered rfl, Nat.add_comm _ _⟩
  | case5 f ds hf ih =>
    obtain ⟨n, ha, hn⟩ := ih
    refine ⟨n + 1, .interrupted (by rw [ask, if_pos hf]) ha, ?_⟩
    have hone : interruptions (.fault f :: ds) = interruptions ds + 1 :=
      List.countP_cons_of_pos (by simpa using hf)
    omega
  | case6 f ds hf =>
    refine ⟨1, .answered (by rw [ask, if_neg hf]), ?_⟩
    have hnone : interruptions (.fault f :: ds) = interruptions ds :=
      List.countP_cons_of_neg (by simpa using hf)
    rw [hnone]
    exact Nat.add_comm _ _

theorem nextByte_eq (s : ByteFeed) :
    s.nextByte.1 = (request s.deliveries).1 ∧
      s.nextByte.2.deliveries = (request s.deliveries).2 := by
  unfold nextByte
  split <;> simp_all

theorem exists_asks_nextByte (s : ByteFeed) :
    ∃ n, Asks n s.deliveries s.nextByte.1 s.nextByte.2.deliveries ∧
      n + interruptions s.nextByte.2.deliveries = interruptions s.deliveries + 1 := by
  rw [s.nextByte_eq.1, s.nextByte_eq.2]
  exact exists_asks_request s.deliveries

/-- The device is asked for `k` bytes between `s` and `s'`, once for each of them and once more for
    each interruption. -/
def Costs (k : ℕ) (s s' : ByteFeed) : Prop :=
  ∃ n, AsksBytes k n s.deliveries s'.deliveries ∧
    n + interruptions s'.deliveries = interruptions s.deliveries + k

theorem Costs.none (s : ByteFeed) : Costs 0 s s := ⟨0, .none, Nat.zero_add _⟩

theorem Costs.trans {k k' : ℕ} {s s' s'' : ByteFeed} (h : Costs k s s') (h' : Costs k' s' s'') :
    Costs (k + k') s s'' := by
  obtain ⟨n, hs, hn⟩ := h
  obtain ⟨n', hs', hn'⟩ := h'
  exact ⟨n + n', hs.trans hs', by omega⟩

/-- After one byte that is asked for, the others are counted from there. -/
theorem Costs.byte {k : ℕ} {s s' : ByteFeed} (h : Costs k s.nextByte.2 s') :
    Costs (k + 1) s s' := by
  obtain ⟨n, hs, hn⟩ := h
  obtain ⟨m, ha, hm⟩ := s.exists_asks_nextByte
  exact ⟨m + n, .byte ha hs, by omega⟩

theorem exists_costs_tailBytes (n : ℕ) (s : ByteFeed) : ∃ k ≤ n, Costs k s (tailBytes n s).2 := by
  induction n generalizing s with
  | zero => exact ⟨0, Nat.le_refl 0, .none s⟩
  | succ n ih =>
    have hrest : ∃ k ≤ n, Costs k s.nextByte.2 (tailBytes (n + 1) s).2 := by
      unfold tailBytes
      split
      case h_1 h => rw [h]; exact ⟨0, Nat.zero_le n, .none _⟩
      case h_2 h => rw [h]; exact ⟨0, Nat.zero_le n, .none _⟩
      case h_3 s' h =>
        have ht := ih s'
        rw [h]
        split <;> next h' => rw [h'] at ht; exact ht
    obtain ⟨k, hk, hc⟩ := hrest
    exact ⟨k + 1, Nat.succ_le_succ hk, hc.byte⟩

theorem exists_costs_pull (s : ByteFeed) : ∃ k, 1 ≤ k ∧ k ≤ 4 ∧ Costs k s s.pull.2 := by
  have hrest : ∃ k ≤ 3, Costs k s.nextByte.2 s.pull.2 := by
    unfold pull
    split
    case h_1 h => rw [h]; exact ⟨0, Nat.zero_le 3, .none _⟩
    case h_2 h => rw [h]; exact ⟨0, Nat.zero_le 3, .none _⟩
    case h_3 lead s' h =>
      rw [h]
      split
      case h_1 => exact ⟨0, Nat.zero_le 3, .none _⟩
      case h_2 n hn =>
        obtain ⟨k, hk, hc⟩ := exists_costs_tailBytes n s'
        refine ⟨k, Nat.le_trans hk (Utf8.tailLength?_le hn), ?_⟩
        split
        case h_1 h' => rwa [h'] at hc
        case h_2 tail s'' h' =>
          rw [h'] at hc
          split <;> exact hc
  obtain ⟨k, hk, hc⟩ := hrest
  exact ⟨k + 1, Nat.succ_le_succ (Nat.zero_le k), Nat.succ_le_succ hk, hc.byte⟩

/-- Each pull of a row asks for at least one byte and for at most four. -/
theorem exists_costs_skip (m : ℕ) (s : ByteFeed) :
    ∃ k, m ≤ k ∧ k ≤ 4 * m ∧ Costs k s (Feed.skip m s) := by
  induction m generalizing s with
  | zero => exact ⟨0, Nat.le_refl 0, Nat.le_refl 0, .none s⟩
  | succ m ih =>
    obtain ⟨j, hj, hj', hpull⟩ := s.exists_costs_pull
    obtain ⟨k, hk, hk', hskip⟩ := ih s.pull.2
    exact ⟨j + k, by omega, by omega, hpull.trans hskip⟩

end ByteFeed

/-! ## Altogether -/

namespace Lexer

/-- Reading comes to an end and costs no more than it must, on every feed and also on a source that
    promises nothing, which is left before its budget runs out. After any operations, a read that
    gives a token makes at least one pull, and no read makes more than one pull beyond what the feed
    has left. A pull on a device costs one request for each byte that it asks for, of which there
    are at most four, and one for each interruption, and so does each pull of a row. -/
theorem reading_exhausts :
    (∀ (φ : Type u) [Feed φ] (s : φ) (cs : List Char) (z : Option FeedError),
      Feed.Gives s cs (.stop z) → Exhausts s cs.length) ∧
    (∀ (σ : Type u) (next : σ → Pull Char × σ) (s : σ) (cs : List Char) (z : Option FeedError)
      (budget : ℕ), Unbounded.answers next (cs.length + 1) s = cs.map .item ++ [.stop z] →
        cs.length < budget → Exhausts (Unbounded.mk next s budget) cs.length) ∧
    (∀ (φ : Type u) [Feed φ] (s : φ) (calls : List Call),
      let l := (counting s).afterCalls calls
      (∀ t, l.read.value = .token t → l.feed.pulled < l.read.after.feed.pulled) ∧
      ∀ (rs : List Char) (z : Option FeedError), Feed.Gives l.feed.inner rs (.stop z) →
        l.read.after.feed.pulled ≤ l.feed.pulled + rs.length + 1) ∧
    ∀ s : ByteFeed,
      (∃ n, ByteFeed.Asks n s.deliveries s.nextByte.1 s.nextByte.2.deliveries ∧
        n + ByteFeed.interruptions s.nextByte.2.deliveries
          = ByteFeed.interruptions s.deliveries + 1) ∧
      (∃ k, 1 ≤ k ∧ k ≤ 4 ∧ ByteFeed.Costs k s (Feed.pull s).2) ∧
      ∀ m, ∃ k, m ≤ k ∧ k ≤ 4 * m ∧ ByteFeed.Costs k s (Feed.skip m s) := by
  refine ⟨?_, ?_, ?_, ?_⟩
  · intro φ _ s cs z h
    exact exhausts_of_gives h
  · intro σ next s cs z budget h hb
    exact exhausts_of_gives (Unbounded.gives h hb)
  · intro φ _ s calls l
    obtain ⟨us, vs, y, hs⟩ := exists_stands_afterCalls s calls
    exact ⟨fun t => pulled_lt_of_token hs, fun rs z => pulled_read_le hs⟩
  · intro s
    exact ⟨s.exists_asks_nextByte, s.exists_costs_pull, fun m => s.exists_costs_skip m⟩

/-- The endless source is left at its failure, and each of its tokens has a pull of its own. -/
theorem reading_exhausts_endless_source :
    Exhausts (TextFeed.ofString "(ab") 3 ∧ Exhausts (Unbounded.mk endlessSource 0 1000) 3 ∧
      (let l := (counting (Unbounded.mk endlessSource 0 1000)).afterCalls [.next]
      l.feed.pulled < l.read.after.feed.pulled ∧
        l.read.after.feed.pulled ≤ l.feed.pulled + 1 + 1) := by
  obtain ⟨hfeed, hsource, hread, -⟩ := reading_exhausts.{0}
  have hgives : Feed.Gives
      ((counting (Unbounded.mk endlessSource 0 1000)).afterCalls [.next]).feed.inner ['b']
      (.stop (some (.fault ⟨.other, "disk on fire"⟩))) := by
    unfold Feed.Gives
    decide +kernel
  obtain ⟨htoken, hpulled⟩ := hread _ (Unbounded.mk endlessSource 0 1000) [.next]
  exact ⟨hfeed _ _ ['(', 'a', 'b'] none (TextFeed.gives _),
    hsource _ endlessSource 0 ['(', 'a', 'b'] (some (.fault ⟨.other, "disk on fire"⟩)) 1000
      (by decide) (by decide),
    htoken (.symbol "ab") (by decide +kernel), hpulled ['b'] _ hgives⟩

end Lexer

end LispLexer
