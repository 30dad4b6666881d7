import LispLexer.Proofs.Consumption

/-!
# Decoding

A feed of bytes gives the characters that the longest well-formed prefix of its bytes encodes, and
then the end if this prefix is all of them and an error if it is not. How the bytes come in chunks
makes no difference, nor do interruptions between the chunks.

* `ByteFeed.pull_of_encodeChar`, `ByteFeed.pull_of_nil`, `ByteFeed.pull_of_other`: one pull.
* `ByteFeed.gives_of_encode_append`, `ByteFeed.exists_gives_encode`: a run of pulls.
* `ByteFeed.gives_of_delivers`: decoding accepts well-formed UTF-8 and inverts encoding.
-/

namespace LispLexer.ByteFeed

open Text Utf8

/-! ## Bytes -/

/-- A device that makes these deliveries delivers the bytes `bs` and then comes to its end. It may
    deliver them in any chunks and may be interrupted. -/
inductive Delivers : List Delivery → List UInt8 → Prop
  | nil : Delivers [] []
  | ended {ds : List Delivery} : Delivers (.ended :: ds) []
  | chunk {ds : List Delivery} {bs : List UInt8} (us : List UInt8) : Delivers ds bs →
      Delivers (.chunk us :: ds) (us ++ bs)
  | interrupted {ds : List Delivery} {bs : List UInt8} {f : Fault} : f.kind = .interrupted →
      Delivers ds bs → Delivers (.fault f :: ds) bs

theorem delivers_ofBytes (bs : List UInt8) : Delivers (ofBytes bs).deliveries bs := by
  have h := Delivers.chunk bs .nil
  rwa [List.append_nil] at h

/-- Byte by byte such a device delivers the bytes and then, if anything, an end. -/
theorem delivers_iff {ds : List Delivery} {bs : List UInt8} :
    Delivers ds bs ↔ ∃ rs, byteByByte ds = bs.map .item ++ rs ∧ rs.headD .ended = .ended := by
  constructor
  · intro h
    induction h with
    | nil => exact ⟨[], rfl, rfl⟩
    | @ended ds => exact ⟨.ended :: byteByByte ds, rfl, rfl⟩
    | chunk us _ ih =>
      obtain ⟨rs, hd, hr⟩ := ih
      refine ⟨rs, ?_, hr⟩
      rw [byteByByte_chunk, hd, List.map_append, List.append_assoc]
    | interrupted hf _ ih => rwa [byteByByte_interrupted hf]
  · rintro ⟨rs, hd, hr⟩
    induction ds generalizing bs with
    | nil =>
      obtain rfl : bs = [] := List.map_eq_nil_iff.1 (List.append_eq_nil_iff.1 hd.symm).1
      exact .nil
    | cons d ds ih =>
      cases d with
      | chunk us =>
        rw [byteByByte_chunk] at hd
        obtain ⟨vs, rfl, hds⟩ := exists_of_items_append hd.symm hr
        exact .chunk us (ih hds)
      | ended =>
        cases bs with
        | nil => exact .ended
        | cons b bs => cases hd
      | fault f =>
        by_cases hf : f.kind = .interrupted
        · rw [byteByByte_interrupted hf] at hd
          exact .interrupted hf (ih hd)
        · rw [byteByByte_fault hf] at hd
          cases bs with
          | nil =>
            rw [← show _ = rs from hd] at hr
            cases hr
          | cons b bs => cases hd

/-! ## Characters -/

variable {s : ByteFeed}

theorem pull_of_nil (h : Delivers s.deliveries []) : s.pull.1 = .ended := by
  obtain ⟨rs, hd, hr⟩ := delivers_iff.1 h
  obtain ⟨s', hp, -⟩ := pull_of_ends ⟨hd, rfl⟩ (.finished hr)
  rw [hp]

/-- The encoding of a character is taken as a whole and gives that character. -/
theorem pull_of_encodeChar {c : Char} {r : List UInt8}
    (h : Delivers s.deliveries (String.utf8EncodeChar c ++ r)) :
    ∃ s', s.pull = (.item c, s') ∧ Delivers s'.deliveries r := by
  obtain ⟨rs, hd, hr⟩ := delivers_iff.1 h
  rw [List.map_append, List.append_assoc] at hd
  obtain ⟨s', hp, ht⟩ := pull_of_ends ⟨hd, rfl⟩ .character
  exact ⟨s', hp, delivers_iff.2 ⟨rs, ht.deliveries, hr⟩⟩

/-- Bytes that begin with no encoding of a character are an error. -/
theorem pull_of_other {bs : List UInt8} (h : Delivers s.deliveries bs) (hne : bs ≠ [])
    (hb : ¬ BeginsChar bs) : ∃ e, s.pull.1 = .failed e := by
  obtain ⟨rs, hd, hr⟩ := delivers_iff.1 h
  obtain ⟨k, us, he, -⟩ := s.exists_ends_pull
  rw [hd] at he
  cases hp : s.pull.1 with
  | failed e => exact ⟨e, rfl⟩
  | item c =>
    rw [hp] at he
    obtain ⟨qs, hqs⟩ := he.exists_append
    obtain ⟨vs, rfl, -⟩ := exists_of_items_append hqs hr
    exact absurd ⟨c, vs, by rw [he.of_item]⟩ hb
  | ended =>
    rw [hp] at he
    obtain ⟨b, bs, rfl⟩ := List.exists_cons_of_ne_nil hne
    cases he.of_ended.2

/-- The pulls give the characters of an encoding, and then what a pull behind it gives. -/
theorem gives_of_encode_append {cs : List Char} {r : List UInt8} {stop : Pull Char}
    (h : Delivers s.deliveries (encode cs ++ r))
    (hr : ∀ s' : ByteFeed, Delivers s'.deliveries r → s'.pull.1 = stop) :
    Feed.Gives s cs stop := by
  induction cs generalizing s with
  | nil => exact Feed.gives_nil.2 (hr s h)
  | cons c cs ih =>
    rw [encode_cons, List.append_assoc] at h
    obtain ⟨s', hp, hd⟩ := pull_of_encodeChar h
    have hp' : Feed.pull s = (.item c, s') := hp
    rw [Feed.gives_cons, hp']
    exact ⟨rfl, ih hd⟩

/-- The pulls give the characters that the bytes begin with, as far as they encode any. -/
theorem exists_gives_encode {bs : List UInt8} (h : Delivers s.deliveries bs) :
    ∃ cs z r, Feed.Gives s cs (.stop z) ∧ bs = encode cs ++ r ∧ ¬ BeginsChar r ∧
      (z = none ↔ r = []) := by
  induction hn : bs.length using Nat.strongRecOn generalizing s bs with
  | _ n ih =>
    by_cases hne : bs = []
    · subst hne
      exact ⟨[], none, [], Feed.gives_nil.2 (pull_of_nil h), rfl, not_beginsChar_nil, by simp⟩
    · by_cases hb : BeginsChar bs
      · obtain ⟨c, r, rfl⟩ := hb
        obtain ⟨s', hp, hd⟩ := pull_of_encodeChar h
        have hlt : r.length < n := by
          have hpos := List.length_pos_iff.2 (sequence_encodeChar c).holds.ne_nil
          rw [List.length_append] at hn
          omega
        obtain ⟨cs, z, r', hg, rfl, hr, hz⟩ := ih _ hlt hd rfl
        have hp' : Feed.pull s = (.item c, s') := hp
        refine ⟨c :: cs, z, r', ?_, ?_, hr, hz⟩
        · rw [Feed.gives_cons, hp']
          exact ⟨rfl, hg⟩
        · rw [encode_cons, List.append_assoc]
      · obtain ⟨e, he⟩ := pull_of_other h hne hb
        exact ⟨[], some e, bs, Feed.gives_nil.2 he, rfl, hb, by simp [hne]⟩

/-! ## Decoding -/

/-- The pulls on some bytes give `cs` and then the end exactly if the bytes are the encoding of
    `cs`. On any bytes they give the decoding of the longest well-formed prefix, and then an error
    exactly if the prefix is not all of the bytes. -/
theorem gives_of_delivers {bs : List UInt8} (h : Delivers s.deliveries bs) :
    (∀ cs, Feed.Gives s cs .ended ↔ bs = encode cs) ∧
      ∃ cs z, Feed.Gives s cs (.stop z) ∧ (∀ ds, Longest (encode ds) bs ↔ ds = cs) ∧
        ((∃ e, z = some e) ↔ encode cs ≠ bs) := by
  obtain ⟨cs, z, r, hg, rfl, hr, hz⟩ := exists_gives_encode h
  have hlongest : Longest (encode cs) (encode cs ++ r) := longest_encode hr
  have hall : encode cs ++ r = encode cs ↔ z = none := by
    rw [hz, List.append_right_eq_self]
  constructor
  · intro ds
    constructor
    · intro hds
      obtain ⟨rfl, rfl⟩ := hg.unique (y := none) hds
      exact hall.2 rfl
    · intro he
      have hds : Longest (encode ds) (encode cs ++ r) := by
        have hself : Longest (encode ds) (encode ds ++ []) := longest_encode not_beginsChar_nil
        rw [List.append_nil] at hself
        rwa [he]
      obtain rfl : ds = cs := encode_injective (hds.unique hlongest)
      obtain rfl : z = none := hall.1 he
      exact hg
  · refine ⟨cs, z, hg, ?_, ?_⟩
    · intro ds
      constructor
      · intro hds
        apply encode_injective
        exact hds.unique hlongest
      · intro he
        rw [he]
        exact hlongest
    · rw [ne_comm, ne_eq, hall, ← ne_eq, Option.ne_none_iff_exists']

/-- An interruption and a cut inside a character do not show. -/
theorem gives_of_interrupted :
    Feed.Gives
      ({ deliveries := [.chunk [0x61, 0xC3], .fault ⟨.interrupted, "signal"⟩, .chunk [0xA9]] }
        : ByteFeed) ['a', 'é'] .ended := by
  have h : Delivers [.chunk [0x61, 0xC3], .fault ⟨.interrupted, "signal"⟩, .chunk [0xA9]]
      [0x61, 0xC3, 0xA9] := .chunk [0x61, 0xC3] (.interrupted rfl (.chunk [0xA9] .nil))
  rw [(gives_of_delivers h).1]
  decide

end LispLexer.ByteFeed
