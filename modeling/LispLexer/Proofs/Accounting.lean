import LispLexer.Proofs.Decoding
import LispLexer.Proofs.Standing

/-!
# Accounts

What pulls take from a feed. A counted feed counts each pull. A feed of bytes takes exactly the
bytes of the character that it gives, and none for the end of the input.

* `Counted.gives`, `Counted.skip_eq`: counting changes nothing and counts every pull.
* `TextFeed.skip_eq`: a text is taken character by character.
* `ByteFeed.Took.of_ends`, `ByteFeed.Took.of_item`: the bytes taken by one pull.
* `ByteFeed.took_skip`: the bytes taken by the pulls on an encoded text.
-/

namespace LispLexer

open Text Utf8

universe u

/-! ## Counted feeds -/

namespace Counted

variable {φ : Type u} [Feed φ]

theorem gives {s : φ} {cs : List Char} {stop : Pull Char} (h : Feed.Gives s cs stop) (m : ℕ) :
    Feed.Gives (⟨s, m⟩ : Counted φ) cs stop := by
  induction cs generalizing s m with
  | nil => exact Feed.gives_nil.2 (Feed.gives_nil.1 h)
  | cons c cs ih =>
    obtain ⟨hc, hcs⟩ := Feed.gives_cons.1 h
    exact Feed.gives_cons.2 ⟨hc, ih hcs (m + 1)⟩

theorem skip_eq (n : ℕ) (s : φ) (m : ℕ) :
    Feed.skip n (⟨s, m⟩ : Counted φ) = ⟨Feed.skip n s, m + n⟩ := by
  induction n generalizing s m with
  | zero => rfl
  | succ n ih =>
    have hn := ih (Feed.pull s).2 (m + 1)
    rwa [Nat.add_right_comm] at hn

end Counted

/-- A lexer at the start of a feed, with a count of the pulls made on it. -/
def Lexer.counting {φ : Type u} (s : φ) : Lexer (Counted φ) := { feed := { inner := s } }

theorem Lexer.stands_counting {φ : Type u} [Feed φ] {s : φ} {cs : List Char}
    {z : Option FeedError} (h : Feed.Gives s cs (.stop z)) :
    (counting s).cursor.Stands (Counted.mk s 0) [] cs z :=
  .start (Counted.gives h 0)

/-- A cursor has pulled the characters that it has passed, and once more. -/
theorem Cursor.Stands.pulled {φ : Type u} [Feed φ] {k : Cursor (Counted φ)} {s : φ}
    {us vs : List Char} {z : Option FeedError} (h : k.Stands (Counted.mk s 0) us vs z) :
    k.feed.pulled = us.length + 1 := by
  rw [h.feed, Counted.skip_eq, Nat.zero_add]

theorem Lexer.pulled_of_stands {φ : Type u} [Feed φ] {l : Lexer (Counted φ)} {a : Lookahead} {s : φ}
    {us vs : List Char} {z : Option FeedError} (ha : l.lookahead = some a)
    (h : l.cursor.Stands (Counted.mk s 0) us vs z) : l.feed.pulled = us.length + 1 := by
  rw [cursor_of_some ha] at h
  exact h.pulled

/-! ## Texts -/

theorem TextFeed.skip_eq (n : ℕ) (cs : List Char) :
    Feed.skip n (⟨cs⟩ : TextFeed) = ⟨cs.drop n⟩ := by
  induction n generalizing cs with
  | zero => rfl
  | succ n ih =>
    cases cs with
    | nil =>
      rw [Feed.skip, pull_nil, ih, List.drop_nil, List.drop_nil]
    | cons c cs => exact ih cs

/-! ## Bytes -/

namespace ByteFeed

variable {s s' s'' : ByteFeed}

/-- The bytes `us` have been taken between `s` and `s'`. -/
structure Took (s s' : ByteFeed) (us : List UInt8) : Prop where
  rest : s.rest = us ++ s'.rest
  consumed : s'.consumed = s.consumed + us.length

namespace Took

theorem refl (s : ByteFeed) : Took s s [] := ⟨rfl, rfl⟩

theorem trans {us vs : List UInt8} (h : Took s s' us) (h' : Took s' s'' vs) :
    Took s s'' (us ++ vs) := by
  refine ⟨?_, ?_⟩
  · rw [h.rest, h'.rest, List.append_assoc]
  · rw [h'.consumed, h.consumed, List.length_append, Nat.add_assoc]

/-- What a pull takes is in front of what it leaves. -/
theorem of_ends {k : Ending} {p : Pull Char} {us : List UInt8}
    (h : Ends k (byteByByte s.deliveries) p us (byteByByte s'.deliveries))
    (hc : s'.consumed = s.consumed + us.length) : Took s s' us := by
  refine ⟨?_, hc⟩
  show bytesOf s.deliveries = us ++ bytesOf s'.deliveries
  rw [bytesOf_eq, bytesOf_eq]
  exact h.bytes

/-- A character takes the bytes of its encoding. -/
theorem of_item {c : Char} (h : s.pull = (.item c, s')) : Took s s' (String.utf8EncodeChar c) := by
  obtain ⟨k, us, he, hc⟩ := s.exists_ends_pull
  rw [h] at he hc
  exact he.of_item ▸ of_ends he hc

/-- The end of the input takes no bytes. -/
theorem of_ended (h : s.pull = (.ended, s')) : Took s s' [] := by
  obtain ⟨k, us, he, hc⟩ := s.exists_ends_pull
  rw [h] at he hc
  exact he.of_ended.1 ▸ of_ends he hc

end Took

/-- The pulls on an encoded text, up to the one that gives its end, take the encoding of as many
    characters. -/
theorem took_skip {cs : List Char} (h : Delivers s.deliveries (encode cs)) {n : ℕ}
    (hn : n ≤ cs.length + 1) : Took s (Feed.skip n s) (encode (cs.take n)) := by
  induction cs generalizing s n with
  | nil =>
    rcases Nat.le_one_iff_eq_zero_or_eq_one.1 hn with rfl | rfl
    · exact .refl s
    · exact .of_ended (Prod.ext (pull_of_nil h) rfl)
  | cons c cs ih =>
    cases n with
    | zero => exact .refl s
    | succ n =>
      obtain ⟨s', hp, hd⟩ := pull_of_encodeChar h
      have hp' : Feed.pull s = (.item c, s') := hp
      rw [Feed.skip, hp', List.take_succ_cons, encode_cons]
      exact (Took.of_item hp).trans (ih hd (Nat.le_of_succ_le_succ hn))

theorem gives_encode {cs : List Char} (h : Delivers s.deliveries (encode cs)) :
    Feed.Gives s cs .ended := by
  rw [← List.append_nil (encode cs)] at h
  exact gives_of_encode_append h fun _ => pull_of_nil

end ByteFeed

end LispLexer
