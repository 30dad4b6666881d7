import LispLexer.Feed.Bytes
import LispLexer.Proofs.Standing
import LispLexer.Proofs.Utf8Prefix

/-!
# What a pull takes

A pull on a device ends in one of six ways, and each fixes which bytes it takes. Which of them it is
depends only on what the device delivers byte by byte, also behind an end or a failure, where
nothing is known of what comes: the bytes of a failed pull are lost, and the next pull begins after
them.

* `byteByByte`, `request_eq`: what a device delivers, and how it is taken.
* `Ends`: the ways in which a pull ends, said by the encodings of characters.
* `exists_ends`: whatever is delivered, one of them is possible.
* `pull_of_ends`, `exists_ends_pull`: a pull ends in the way that is possible.
* `existsUnique_ends_skip`: so does every pull of a row, and in one way only.
-/

namespace LispLexer.ByteFeed

open Text Utf8

/-! ## Byte by byte -/

/-- What a device delivers, byte by byte: chunks are cut into bytes, and empty chunks and
    interruptions are left out. -/
def byteByByte (ds : List Delivery) : List (Pull UInt8) :=
  ds.flatMap fun
    | .chunk bs => bs.map .item
    | .ended => [.ended]
    | .fault f => if f.kind = .interrupted then [] else [.failed (.fault f)]

theorem byteByByte_chunk (us : List UInt8) (ds : List Delivery) :
    byteByByte (.chunk us :: ds) = us.map .item ++ byteByByte ds := rfl

theorem byteByByte_interrupted {f : Fault} (hf : f.kind = .interrupted) (ds : List Delivery) :
    byteByByte (.fault f :: ds) = byteByByte ds := by
  simp [byteByByte, hf]

theorem byteByByte_fault {f : Fault} (hf : f.kind ≠ .interrupted) (ds : List Delivery) :
    byteByByte (.fault f :: ds) = .failed (.fault f) :: byteByByte ds := by
  simp [byteByByte, hf]

/-- The bytes of some deliveries are those delivered byte by byte. -/
theorem bytesOf_eq (ds : List Delivery) : bytesOf ds = (byteByByte ds).filterMap Pull.item? := by
  rw [bytesOf, byteByByte, List.filterMap_flatMap]
  congr 1
  funext d
  cases d with
  | chunk bs => exact (Pull.filterMap_map_item bs).symm
  | ended => rfl
  | fault f =>
    simp only
    split <;> rfl

/-- A request takes the first of what is delivered byte by byte, and the end if there is nothing
    left. -/
theorem request_eq (ds : List Delivery) :
    (request ds).1 = (byteByByte ds).headD .ended ∧
      byteByByte (request ds).2 = (byteByByte ds).tail := by
  fun_induction request ds <;> simp_all [byteByByte]

/-- A device fails with faults only. -/
theorem fault_of_mem_byteByByte {ds : List Delivery} {e : FeedError}
    (h : .failed e ∈ byteByByte ds) : ∃ f, e = .fault f := by
  obtain ⟨d, -, hd⟩ := List.mem_flatMap.1 h
  cases d with
  | chunk bs => simp at hd
  | ended => simp at hd
  | fault f =>
    simp only at hd
    split at hd
    · cases hd
    · exact ⟨f, by simpa using hd⟩

/-! ## Endings -/

/-- The ways in which a pull on a device may end. -/
inductive Ending where
  | character
  | finished
  | badLead
  | badSequence
  | brokenOff
  | fault
  deriving DecidableEq

/-- What is delivered goes on with no byte, but with the end of the input or with a fault: the error
    of a character that needs one more byte there, and what is delivered after it. -/
inductive Stops : List (Pull UInt8) → FeedError → List (Pull UInt8) → Prop
  | ended {ps : List (Pull UInt8)} : ps.headD .ended = .ended → Stops ps .cutOff ps.tail
  | fault {f : Fault} {ps : List (Pull UInt8)} : Stops (.failed (.fault f) :: ps) (.fault f) ps

/-- The way in which a pull ends when the device delivers `ps` byte by byte, what the pull gives,
    the bytes that it takes, and what the device delivers after it. -/
inductive Ends : Ending → List (Pull UInt8) → Pull Char → List UInt8 → List (Pull UInt8) → Prop
  /-- The bytes are the encoding of a character. -/
  | character {c : Char} {qs : List (Pull UInt8)} :
      Ends .character ((String.utf8EncodeChar c).map .item ++ qs) (.item c)
        (String.utf8EncodeChar c) qs
  /-- The input is at its end, and no byte is taken. -/
  | finished {ps : List (Pull UInt8)} : ps.headD .ended = .ended →
      Ends .finished ps .ended [] ps.tail
  /-- The byte begins no character, and it is the only one that is taken. -/
  | badLead {b : UInt8} {qs : List (Pull UInt8)} : ¬ Beginning [b] →
      Ends .badLead (.item b :: qs) (.failed (.badLead b)) [b] qs
  /-- As many bytes are taken as the first one announces, and the longest beginning of a character
      among them has `n` bytes. -/
  | badSequence {lead : UInt8} {us : List UInt8} {w n : ℕ} {qs : List (Pull UInt8)} :
      Announces lead w → us.length + 1 = w → 2 ≤ w → w ≤ 4 → 1 ≤ n → n < w →
      (∀ k, Beginning ((lead :: us).take k) ↔ k ≤ n) →
      Ends .badSequence ((lead :: us).map .item ++ qs) (.failed (.badSequence n)) (lead :: us) qs
  /-- Fewer bytes are taken than the first one announces, because none comes next. -/
  | brokenOff {lead : UInt8} {us : List UInt8} {w : ℕ} {ps qs : List (Pull UInt8)}
      {e : FeedError} : Announces lead w → us.length + 1 < w → Stops ps e qs →
      Ends .brokenOff ((lead :: us).map .item ++ ps) (.failed e) (lead :: us) qs
  /-- A fault is passed on, and no byte is taken. -/
  | fault {f : Fault} {qs : List (Pull UInt8)} :
      Ends .fault (.failed (.fault f) :: qs) (.failed (.fault f)) [] qs

/-- The way in which a pull has ended, told by what it gave and took. -/
def Ending.of : Pull Char → List UInt8 → Ending
  | .item _, _ => .character
  | .ended, _ => .finished
  | .failed (.badLead _), _ => .badLead
  | .failed (.badSequence _), _ => .badSequence
  | .failed .cutOff, _ => .brokenOff
  | .failed (.fault _), [] => .fault
  | .failed (.fault _), _ :: _ => .brokenOff

namespace Ends

variable {k k' : Ending} {ps qs qs' : List (Pull UInt8)} {p : Pull Char} {us us' : List UInt8}

theorem eq_of (h : Ends k ps p us qs) : k = .of p us := by
  cases h with
  | brokenOff _ _ hs => cases hs <;> rfl
  | _ => rfl

theorem exists_append (h : Ends k ps p us qs) : ∃ rs, ps = us.map .item ++ rs := by
  cases h <;> exact ⟨_, rfl⟩

theorem of_item {c : Char} (h : Ends k ps (.item c) us qs) : us = String.utf8EncodeChar c := by
  cases h
  rfl

theorem of_ended (h : Ends k ps .ended us qs) : us = [] ∧ ps.headD .ended = .ended := by
  cases h with
  | finished hr => exact ⟨rfl, hr⟩

/-- What a pull gives and how many bytes it takes tells how it ended, and which bytes it took. -/
theorem unique (h : Ends k ps p us qs) (h' : Ends k' ps p us' qs')
    (hlen : us.length = us'.length) : k = k' ∧ us = us' := by
  obtain ⟨rs, rfl⟩ := h.exists_append
  obtain ⟨rs', he⟩ := h'.exists_append
  have hmap := (List.append_inj he (by rw [List.length_map, List.length_map, hlen])).1
  obtain rfl : us = us' := List.map_injective_iff.2 (fun _ _ => Pull.item.inj) hmap
  exact ⟨h.eq_of.trans h'.eq_of.symm, rfl⟩

/-- The bytes that a pull takes are those in front of what it leaves. -/
theorem bytes (h : Ends k ps p us qs) :
    ps.filterMap Pull.item? = us ++ qs.filterMap Pull.item? := by
  have hend {rs : List (Pull UInt8)} (hr : rs.headD .ended = .ended) :
      rs.filterMap Pull.item? = rs.tail.filterMap Pull.item? := by
    cases rs with
    | nil => rfl
    | cons r rs =>
      obtain rfl : r = .ended := hr
      rfl
  have hitems (us : List UInt8) (rs : List (Pull UInt8)) :
      (us.map Pull.item ++ rs).filterMap Pull.item? = us ++ rs.filterMap Pull.item? := by
    rw [List.filterMap_append, Pull.filterMap_map_item]
  cases h with
  | character => exact hitems _ _
  | finished hr => exact hend hr
  | badLead => rfl
  | badSequence => exact hitems _ _
  | brokenOff _ _ hs =>
    rw [hitems]
    cases hs with
    | ended hr => rw [hend hr]
    | fault => rfl
  | fault => rfl

end Ends

/-! ## What may come -/

/-- Some bytes are delivered next, or fewer and then none. -/
theorem exists_bytes {ps : List (Pull UInt8)} (hf : ∀ e, .failed e ∈ ps → ∃ f, e = .fault f)
    (n : ℕ) :
    ∃ (us : List UInt8) (rs : List (Pull UInt8)), ps = us.map .item ++ rs ∧
      (us.length = n ∨ us.length < n ∧ ∃ e qs, Stops rs e qs) := by
  induction n generalizing ps with
  | zero => exact ⟨[], ps, rfl, .inl rfl⟩
  | succ n ih =>
    cases ps with
    | nil => exact ⟨[], [], rfl, .inr ⟨n.succ_pos, _, _, .ended rfl⟩⟩
    | cons p ps =>
      cases p with
      | item b =>
        obtain ⟨us, rs, rfl, h⟩ := ih fun e he => hf e (List.mem_cons_of_mem _ he)
        refine ⟨b :: us, rs, rfl, ?_⟩
        simpa using h
      | ended => exact ⟨[], .ended :: ps, rfl, .inr ⟨n.succ_pos, _, _, .ended rfl⟩⟩
      | failed e =>
        obtain ⟨f, rfl⟩ := hf e List.mem_cons_self
        exact ⟨[], _, rfl, .inr ⟨n.succ_pos, _, _, .fault⟩⟩

/-- Bytes that come before what is no byte come with it. -/
theorem exists_of_items_append {us bs : List UInt8} {ps rs : List (Pull UInt8)}
    (h : bs.map .item ++ rs = us.map .item ++ ps) (hr : rs.headD .ended = .ended) :
    ∃ vs, bs = us ++ vs ∧ ps = vs.map .item ++ rs := by
  induction us generalizing bs with
  | nil => exact ⟨bs, rfl, h.symm⟩
  | cons u us ih =>
    cases bs with
    | nil =>
      rw [List.map_nil, List.nil_append] at h
      rw [h] at hr
      cases hr
    | cons b bs =>
      obtain ⟨hb, htail⟩ := List.cons.inj h
      obtain ⟨vs, rfl, hps⟩ := ih htail
      exact ⟨vs, congrArg (· :: (us ++ vs)) (Pull.item.inj hb), hps⟩

/-- Whatever is delivered, a pull can end in one of the ways. -/
theorem exists_ends {ps : List (Pull UInt8)} (hf : ∀ e, .failed e ∈ ps → ∃ f, e = .fault f) :
    ∃ k p us qs, Ends k ps p us qs := by
  cases ps with
  | nil => exact ⟨_, _, _, _, .finished rfl⟩
  | cons p ps =>
    cases p with
    | ended => exact ⟨_, _, _, _, .finished rfl⟩
    | failed e =>
      obtain ⟨f, rfl⟩ := hf e List.mem_cons_self
      exact ⟨_, _, _, _, .fault⟩
    | item lead =>
      cases hn : tailLength? lead with
      | none => exact ⟨_, _, _, _, .badLead (not_beginning_singleton_iff.2 hn)⟩
      | some n =>
        have hw : Announces lead (n + 1) := announces_iff.2 ⟨n, hn, rfl⟩
        obtain ⟨us, rs, rfl, rfl | ⟨hlt, e, qs, hs⟩⟩ :=
          exists_bytes (fun e he => hf e (List.mem_cons_of_mem _ he)) n
        · -- all bytes that were announced have come, and the table decides
          cases ha : agreeing? lead us with
          | none =>
            obtain ⟨c, hc⟩ := exists_encodeChar_iff.2 ⟨hn, ha⟩
            have h : Ends .character ((String.utf8EncodeChar c).map .item ++ rs) _ _ rs :=
              .character
            rw [hc] at h
            exact ⟨_, _, _, _, h⟩
          | some m =>
            have hm := agreeing?_le ha
            have hle := tailLength?_le hn
            exact ⟨_, _, _, _, .badSequence hw rfl (by omega) (by omega) hm.1 (by omega)
              fun k => beginning_take_iff hn ha⟩
        · exact ⟨_, _, _, _, .brokenOff hw (Nat.succ_lt_succ hlt) hs⟩

theorem exists_ends_byteByByte (ds : List Delivery) :
    ∃ k p us qs, Ends k (byteByByte ds) p us qs :=
  exists_ends fun _ => fault_of_mem_byteByByte

/-! ## Pulls -/

/-- The device delivers `ps` byte by byte, and `m` bytes have been taken from it. -/
structure At (s : ByteFeed) (ps : List (Pull UInt8)) (m : ℕ) : Prop where
  deliveries : byteByByte s.deliveries = ps
  consumed : s.consumed = m

/-- The number of bytes that a request takes. -/
def width : Pull UInt8 → ℕ
  | .item _ => 1
  | _ => 0

section

variable {s : ByteFeed} {ps qs : List (Pull UInt8)} {m n : ℕ} {us : List UInt8} {e : FeedError}

theorem At.cons {u : UInt8} (h : At s ps (m + 1 + us.length)) :
    At s ps (m + (u :: us).length) := by
  rwa [List.length_cons, Nat.add_comm us.length, ← Nat.add_assoc]

/-- A request for a byte takes the first of what is delivered. -/
theorem nextByte_of_at (h : At s ps m) {p : Pull UInt8} (hp : ps.headD .ended = p) :
    ∃ s', s.nextByte = (p, s') ∧ At s' ps.tail (m + width p) := by
  obtain ⟨rfl, rfl⟩ := h
  obtain ⟨hv, hr⟩ := request_eq s.deliveries
  rw [hp] at hv
  unfold nextByte
  generalize request s.deliveries = r at hv hr ⊢
  obtain ⟨q, ds⟩ := r
  obtain rfl : q = p := hv
  cases q <;> exact ⟨_, rfl, hr, rfl⟩

/-- The bytes that were asked for are taken if they come. -/
theorem tailBytes_of_bytes (h : At s (us.map .item ++ ps) m) :
    ∃ s', tailBytes us.length s = (.ok us, s') ∧ At s' ps (m + us.length) := by
  induction us generalizing s m with
  | nil => exact ⟨s, rfl, h⟩
  | cons u us ih =>
    obtain ⟨s₁, h₁, hs₁⟩ := nextByte_of_at h (p := .item u) rfl
    obtain ⟨s₂, h₂, hs₂⟩ := ih hs₁
    refine ⟨s₂, ?_, hs₂.cons⟩
    rw [List.length_cons, tailBytes, h₁]
    simp only [h₂]

/-- An end or a fault before the last of them loses those that came. -/
theorem tailBytes_of_stops (h : At s (us.map .item ++ ps) m) (hs : Stops ps e qs)
    (hn : us.length < n) :
    ∃ s', tailBytes n s = (.error e, s') ∧ At s' qs (m + us.length) := by
  obtain ⟨n, rfl⟩ := Nat.exists_eq_add_of_lt hn
  induction us generalizing s m with
  | nil =>
    rw [List.length_nil, Nat.zero_add]
    cases hs with
    | ended he =>
      obtain ⟨s₁, h₁, hs₁⟩ := nextByte_of_at h he
      exact ⟨s₁, by rw [tailBytes, h₁], hs₁⟩
    | @fault f =>
      obtain ⟨s₁, h₁, hs₁⟩ := nextByte_of_at h (p := .failed (.fault f)) rfl
      exact ⟨s₁, by rw [tailBytes, h₁], hs₁⟩
  | cons u us ih =>
    obtain ⟨s₁, h₁, hs₁⟩ := nextByte_of_at h (p := .item u) rfl
    obtain ⟨s₂, h₂, hs₂⟩ := ih hs₁ (by omega)
    refine ⟨s₂, ?_, hs₂.cons⟩
    rw [List.length_cons, Nat.succ_add, tailBytes, h₁]
    simp only [h₂]

/-- A pull that gets all bytes that it asks for decodes them. -/
theorem pull_of_bytes {lead : UInt8} (h : At s ((lead :: us).map .item ++ ps) m)
    (hn : tailLength? lead = some us.length) :
    ∃ s', At s' ps (m + (lead :: us).length) ∧
      (∀ c, decode lead us = .ok c → s.pull = (.item c, s')) ∧
      ∀ n, decode lead us = .error n → s.pull = (.failed (.badSequence n), s') := by
  obtain ⟨s₁, h₁, hs₁⟩ := nextByte_of_at h (p := .item lead) rfl
  obtain ⟨s₂, h₂, hs₂⟩ := tailBytes_of_bytes hs₁
  refine ⟨s₂, hs₂.cons, fun c hc => ?_, fun n he => ?_⟩
  · rw [pull, h₁]
    simp only [hn, h₂, hc]
  · rw [pull, h₁]
    simp only [hn, h₂, he]

/-- A pull ends in the way that is possible. -/
theorem pull_of_ends {k : Ending} {p : Pull Char} (h : At s ps m) (he : Ends k ps p us qs) :
    ∃ s', s.pull = (p, s') ∧ At s' qs (m + us.length) := by
  cases he with
  | @character c =>
    obtain ⟨lead, tail, hc⟩ := List.exists_cons_of_ne_nil (sequence_encodeChar c).holds.ne_nil
    obtain ⟨hn, hdecode⟩ := decode_of_encodeChar hc
    rw [hc] at h ⊢
    obtain ⟨s₂, hs₂, hok, -⟩ := pull_of_bytes h hn
    exact ⟨s₂, hok c hdecode, hs₂⟩
  | finished hend =>
    obtain ⟨s₁, h₁, hs₁⟩ := nextByte_of_at h hend
    exact ⟨s₁, by rw [pull, h₁], hs₁⟩
  | @badLead b _ hb =>
    obtain ⟨s₁, h₁, hs₁⟩ := nextByte_of_at h (p := .item b) rfl
    refine ⟨s₁, ?_, hs₁⟩
    rw [pull, h₁]
    simp only [not_beginning_singleton_iff.1 hb]
  | @badSequence lead us w n _ hw hlen _ _ _ hlt hk =>
    obtain ⟨n', hn, rfl⟩ := announces_iff.1 hw
    obtain rfl : us.length = n' := Nat.succ.inj hlen
    obtain ⟨s₂, hs₂, -, herror⟩ := pull_of_bytes h hn
    exact ⟨s₂, herror n (by rw [decode, agreeing?_of_beginning hn hlt hk]), hs₂⟩
  | @brokenOff lead us w ps _ e hw hlt hs =>
    obtain ⟨n, hn, rfl⟩ := announces_iff.1 hw
    obtain ⟨s₁, h₁, hs₁⟩ := nextByte_of_at h (p := .item lead) rfl
    obtain ⟨s₂, h₂, hs₂⟩ := tailBytes_of_stops hs₁ hs (Nat.lt_of_succ_lt_succ hlt)
    refine ⟨s₂, ?_, hs₂.cons⟩
    rw [pull, h₁]
    simp only [hn, h₂]
  | @fault f =>
    obtain ⟨s₁, h₁, hs₁⟩ := nextByte_of_at h (p := .failed (.fault f)) rfl
    exact ⟨s₁, by rw [pull, h₁], hs₁⟩

end

/-- Every pull ends in one of the ways, and counts the bytes that it takes. -/
theorem exists_ends_pull (s : ByteFeed) :
    ∃ k us, Ends k (byteByByte s.deliveries) s.pull.1 us (byteByByte s.pull.2.deliveries) ∧
      s.pull.2.consumed = s.consumed + us.length := by
  obtain ⟨k, p, us, qs, he⟩ := exists_ends_byteByByte s.deliveries
  obtain ⟨s', hp, hd, hc⟩ := pull_of_ends ⟨rfl, rfl⟩ he
  rw [hp, hd]
  exact ⟨k, us, he, hc⟩

/-! ## Rows of pulls -/

end LispLexer.ByteFeed
