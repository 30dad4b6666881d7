import LispLexer.Proofs.Accounting
import LispLexer.Proofs.InStep
import Mathlib.Data.List.Forall2

/-!
# Reading an encoded text

A lexer on the bytes of a text in UTF-8 and a lexer on the text itself are the same machine. They
answer every operation alike and show the same state after it, and the first takes from its device
exactly the bytes of the characters that the second has pulled. The device may cut the bytes
anywhere, also inside a character, and may be interrupted.

* `Lexer.InStep.took`: the bytes taken by a lexer in step with one on the text.
* `session_of_delivers`: the sessions of the two lexers agree entry by entry.
-/

namespace LispLexer

open Text Utf8

universe v

/-- An entry noted of a lexer on the encoding of `cs` shows what an entry noted of a lexer on `cs`
    shows. The bytes used are those of the characters pulled. -/
structure Entry.Encodes {α : Type v} (cs : List Char) (e e' : Entry α) : Prop where
  value : e.value = e'.value
  position : e.position = e'.position
  exhausted : e.exhausted = e'.exhausted
  last : e.last = e'.last
  used : e.used = (encode (cs.take (min e'.used cs.length))).length

namespace Lexer

variable {ds : List Delivery} {cs : List Char} {l : Lexer ByteFeed} {l' : Lexer (Counted TextFeed)}

theorem InStep.took (hd : ByteFeed.Delivers ds (encode cs))
    (h : InStep (ByteFeed.mk ds 0) (Counted.mk (TextFeed.mk cs) 0) cs none l l') :
    ByteFeed.Took (ByteFeed.mk ds 0) l.feed
      (encode (cs.take (min l'.feed.pulled cs.length))) := by
  obtain ⟨i, hi, hl, hl'⟩ := h.exists_skip
  have hpulled : l'.feed.pulled = i := by rw [hl', Counted.skip_eq, Nat.zero_add]
  have htake : cs.take (min i cs.length) = cs.take i := by
    rw [List.take_eq_take_iff, Nat.min_assoc, Nat.min_self]
  have htook := ByteFeed.took_skip (s := ByteFeed.mk ds 0) hd hi
  rw [hpulled, htake, hl]
  exact htook

theorem InStep.encodes {α : Type v} (hd : ByteFeed.Delivers ds (encode cs))
    (h : InStep (ByteFeed.mk ds 0) (Counted.mk (TextFeed.mk cs) 0) cs none l l') (a : α) :
    Entry.Encodes cs (l.entry a) (l'.entry a) where
  value := rfl
  position := h.position
  exhausted := h.isExhausted
  last := h.last
  used := by
    have hc := (h.took hd).consumed
    rwa [Nat.zero_add] at hc

end Lexer

/-- Operations on a lexer over the bytes of a text and on a lexer over the text answer the same one
    by one and show the same states. After them, and so after each of them, the device has handed
    out the encoding of as many characters as the text has been asked for, and not more than there
    are. -/
theorem session_of_delivers (s : String) (ds : List Delivery)
    (h : ByteFeed.Delivers ds (encode s.toList)) (calls : List Call) :
    let bytes : Lexer ByteFeed := { feed := { deliveries := ds } }
    let text := Lexer.counting (TextFeed.ofString s)
    List.Forall₂ (Entry.Encodes s.toList) (session bytes (calls.map .call))
        (session text (calls.map .call)) ∧
      ByteFeed.Took bytes.feed (bytes.afterCalls calls).feed
        (encode (s.toList.take (min (text.afterCalls calls).feed.pulled s.length))) := by
  intro bytes text
  have hstart : Lexer.InStep bytes.feed text.feed s.toList none bytes text :=
    .start (ByteFeed.gives_encode h) (Counted.gives (TextFeed.gives s.toList) 0)
  constructor
  · refine (hstart.session calls).imp ?_
    rintro e e' ⟨m, m', a, hm, rfl, rfl⟩
    exact hm.encodes h a
  · rw [← String.length_toList]
    exact (hstart.afterCalls calls).took h

/-- One read of `é(`, delivered with a cut and an interruption inside its first character, takes all
    three bytes: the parenthesis is the character taken ahead. -/
theorem took_of_interrupted :
    let ds : List Delivery :=
      [.chunk [0xC3], .fault ⟨.interrupted, "signal"⟩, .chunk [0xA9, 0x28]]
    let bytes : Lexer ByteFeed := { feed := { deliveries := ds } }
    ByteFeed.Delivers ds (encode "é(".toList) ∧
      ByteFeed.Took bytes.feed (bytes.afterCalls [.read]).feed [0xC3, 0xA9, 0x28] := by
  intro ds bytes
  have h : ByteFeed.Delivers ds (encode "é(".toList) :=
    .chunk [0xC3] (.interrupted rfl (.chunk [0xA9, 0x28] .nil))
  have htook := (session_of_delivers "é(" ds h [.read]).2
  have hk : ((Lexer.counting (TextFeed.ofString "é(")).afterCalls [.read]).feed.pulled = 2 := by
    decide +kernel
  have hbytes : encode ("é(".toList.take (min 2 "é(".length)) = [0xC3, 0xA9, 0x28] := by decide
  rw [hk, hbytes] at htook
  exact ⟨h, htook⟩

end LispLexer
