import LispLexer.Feed.Basic
import LispLexer.Text.Utf8

/-!
# Bytes as a feed

A device delivers an input in pieces: chunks of bytes, ends, and faults. The feed takes bytes from
it one by one and only as they are needed, and assembles them into characters. How the bytes are
cut into chunks does not show, and an interruption is waited out. When a character cannot be
assembled, the bytes taken for it stay taken, and the next pull goes on after them.

* `ByteFeed.rest_nextByte`: a byte is taken from the front of what is left.
* `ByteFeed.consumed_nextByte`: the account of the bytes taken is exact.
* `ByteFeed.length_rest_lt_of_pull`: a character takes at least one byte.
-/

namespace LispLexer

open Text

/-- What a device delivers at one request. -/
inductive Delivery where
  | chunk (bytes : List UInt8)
  | ended
  | fault (f : Fault)
  deriving DecidableEq

/-- A device by what it has still to deliver, with the number of bytes taken so far. After the
    last delivery the input is at its end. -/
structure ByteFeed where
  deliveries : List Delivery
  consumed : Nat := 0
  deriving DecidableEq

namespace ByteFeed

/-! ## Bytes -/

/-- The loop of `next_byte` (lines 67–80): the first delivery that matters, and what is left after
    it. Empty chunks and interruptions are passed over. -/
def request : List Delivery → Pull UInt8 × List Delivery
  | [] => (.ended, [])
  | .chunk [] :: ds => request ds
  | .chunk (b :: bs) :: ds => (.item b, .chunk bs :: ds)
  | .ended :: ds => (.ended, ds)
  | .fault f :: ds => if f.kind = .interrupted then request ds else (.failed (.fault f), ds)

/-- The bytes of some deliveries. -/
def bytesOf (ds : List Delivery) : List UInt8 :=
  ds.flatMap fun
    | .chunk bs => bs
    | _ => []

/-- The bytes that are left. -/
def rest (s : ByteFeed) : List UInt8 := bytesOf s.deliveries

theorem bytesOf_request (ds : List Delivery) :
    bytesOf ds = match request ds with
      | (.item b, ds') => b :: bytesOf ds'
      | (_, ds') => bytesOf ds' := by
  fun_induction request ds <;> simp_all [bytesOf]

/-- `next_byte` (lines 67–80): takes one byte. -/
def nextByte (s : ByteFeed) : Pull UInt8 × ByteFeed :=
  match request s.deliveries with
  | (.item b, ds) => (.item b, ⟨ds, s.consumed + 1⟩)
  | (p, ds) => (p, ⟨ds, s.consumed⟩)

theorem rest_nextByte {s s' : ByteFeed} {b : UInt8} (h : s.nextByte = (.item b, s')) :
    s.rest = b :: s'.rest := by
  have hr := bytesOf_request s.deliveries
  unfold nextByte at h
  split at h
  case h_1 b' ds h' =>
    cases h
    rwa [h'] at hr
  case h_2 p ds hp _ =>
    obtain ⟨rfl, _⟩ := Prod.mk.inj h
    exact absurd rfl (hp b)

theorem consumed_nextByte {s s' : ByteFeed} {b : UInt8} (h : s.nextByte = (.item b, s')) :
    s'.consumed = s.consumed + 1 := by
  unfold nextByte at h
  split at h
  case h_1 => cases h; rfl
  case h_2 p ds hp _ =>
    obtain ⟨rfl, _⟩ := Prod.mk.inj h
    exact absurd rfl (hp b)

theorem length_rest_nextByte_le (s : ByteFeed) : s.nextByte.2.rest.length ≤ s.rest.length := by
  have hr := bytesOf_request s.deliveries
  unfold nextByte
  split <;> simp_all [rest]

/-! ## Characters -/

/-- The loop of `next_char` (lines 110–115): takes the `n` further bytes of a sequence. All of them
    are taken before any is looked at; an end or a fault among them loses those taken. -/
def tailBytes : Nat → ByteFeed → Except FeedError (List UInt8) × ByteFeed
  | 0, s => (.ok [], s)
  | n + 1, s =>
    match s.nextByte with
    | (.ended, s') => (.error .cutOff, s')
    | (.failed e, s') => (.error e, s')
    | (.item b, s') =>
      match tailBytes n s' with
      | (.error e, s'') => (.error e, s'')
      | (.ok bs, s'') => (.ok (b :: bs), s'')

/-- `next_char` (lines 103–119): takes the bytes of one character. -/
def pull (s : ByteFeed) : Pull Char × ByteFeed :=
  match s.nextByte with
  | (.ended, s') => (.ended, s')
  | (.failed e, s') => (.failed e, s')
  | (.item lead, s') =>
    match Utf8.tailLength? lead with
    | none => (.failed (.badLead lead), s')
    | some n =>
      match tailBytes n s' with
      | (.error e, s'') => (.failed e, s'')
      | (.ok tail, s'') =>
        match Utf8.decode lead tail with
        | .error n => (.failed (.badSequence n), s'')
        | .ok c => (.item c, s'')

theorem length_rest_tailBytes_le (n : Nat) (s : ByteFeed) :
    (tailBytes n s).2.rest.length ≤ s.rest.length := by
  induction n generalizing s with
  | zero => exact Nat.le_refl _
  | succ n ih =>
    have hs := s.length_rest_nextByte_le
    unfold tailBytes
    split
    case h_1 h => rwa [h] at hs
    case h_2 h => rwa [h] at hs
    case h_3 s' h =>
      rw [h] at hs
      have ht := ih s'
      split <;> next h' => rw [h'] at ht; exact Nat.le_trans ht hs

theorem length_rest_lt_of_pull {s s' : ByteFeed} {c : Char} (h : s.pull = (.item c, s')) :
    s'.rest.length < s.rest.length := by
  unfold pull at h
  split at h
  case h_1 => cases h
  case h_2 => cases h
  case h_3 lead s₁ h₁ =>
    split at h
    case h_1 => cases h
    case h_2 n _ =>
      have ht := length_rest_tailBytes_le n s₁
      split at h
      case h_1 => cases h
      case h_2 tail s₂ h₂ =>
        split at h
        case h_1 => cases h
        case h_2 =>
          cases h
          rw [h₂] at ht
          rw [rest_nextByte h₁]
          exact Nat.lt_succ_of_le ht

instance : Feed ByteFeed where
  pull := pull
  ahead s := s.rest.length
  ahead_lt := length_rest_lt_of_pull

instance : Metered ByteFeed where
  used s := s.consumed

/-- The feed of some bytes that a device delivers in one chunk. -/
def ofBytes (bs : List UInt8) : ByteFeed := { deliveries := [.chunk bs] }

end ByteFeed

end LispLexer
