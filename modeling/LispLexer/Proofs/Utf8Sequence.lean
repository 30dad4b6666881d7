import LispLexer.Text.Utf8
import Mathlib.Data.String.Basic
import Mathlib.Tactic.SplitIfs

/-!
# Well-formed UTF-8

Which bytes are well-formed UTF-8, said without a table of leads: the bits of a number are spread
over the bytes of a sequence, no shorter sequence holds the same number, and the number is that of a
character. The table of leads and of second bytes allows exactly these sequences, and they are
exactly the encodings of the characters.

* `sequence_iff_least`: a sequence is shortest if its number needs its length.
* `exists_sequence_iff`: the sequences are those that the table allows.
* `sequence_iff_encodeChar`: the sequences are the encodings of the characters.
* `Sequence.append_inj`: no sequence begins another.
* `wellFormed_iff_encode`: what is well formed is the encoding of some characters.
-/

namespace LispLexer.Text.Utf8

/-! ## Sequences -/

/-- The byte has the form `10xxxxxx`. -/
def Follows (b : UInt8) : Prop := 0x80 ≤ b.toNat ∧ b.toNat < 0xC0

/-- The bytes hold the bits of the number: the lead has the form `0xxxxxxx`, `110xxxxx`, `1110xxxx`
    or `11110xxx`, and as many bytes follow it as it has leading ones beyond the first. -/
inductive Holds : List UInt8 → ℕ → Prop
  | one {a : UInt8} : a.toNat < 0x80 → Holds [a] a.toNat
  | two {a b : UInt8} : 0xC0 ≤ a.toNat → a.toNat < 0xE0 → Follows b →
      Holds [a, b] ((a.toNat - 0xC0) * 64 + (b.toNat - 0x80))
  | three {a b c : UInt8} : 0xE0 ≤ a.toNat → a.toNat < 0xF0 → Follows b → Follows c →
      Holds [a, b, c] (((a.toNat - 0xE0) * 64 + (b.toNat - 0x80)) * 64 + (c.toNat - 0x80))
  | four {a b c d : UInt8} : 0xF0 ≤ a.toNat → a.toNat < 0xF8 → Follows b → Follows c →
      Follows d → Holds [a, b, c, d]
        ((((a.toNat - 0xF0) * 64 + (b.toNat - 0x80)) * 64 + (c.toNat - 0x80)) * 64
          + (d.toNat - 0x80))

/-- The bytes are a well-formed sequence for the number: they are not an overlong form of it, and
    it is neither a surrogate nor above `10FFFF`. -/
structure Sequence (bs : List UInt8) (v : ℕ) : Prop where
  holds : Holds bs v
  shortest : ∀ bs', Holds bs' v → bs.length ≤ bs'.length
  scalar : v.isValidChar

/-- The least number that does not fit into fewer than `n` bytes. -/
def least : ℕ → ℕ
  | 2 => 0x80
  | 3 => 0x800
  | 4 => 0x10000
  | _ => 0

theorem holds_one_iff {a : UInt8} {v : ℕ} : Holds [a] v ↔ a.toNat < 0x80 ∧ v = a.toNat := by
  constructor
  · intro h
    cases h with
    | one ha => exact ⟨ha, rfl⟩
  · intro h
    rw [h.2]
    exact .one h.1

theorem holds_two_iff {a b : UInt8} {v : ℕ} :
    Holds [a, b] v ↔ 0xC0 ≤ a.toNat ∧ a.toNat < 0xE0 ∧ Follows b ∧
      v = (a.toNat - 0xC0) * 64 + (b.toNat - 0x80) := by
  constructor
  · intro h
    cases h with
    | two hl hr hb => exact ⟨hl, hr, hb, rfl⟩
  · intro h
    obtain ⟨hl, hr, hb, hv⟩ := h
    rw [hv]
    exact .two hl hr hb

theorem holds_three_iff {a b c : UInt8} {v : ℕ} :
    Holds [a, b, c] v ↔ 0xE0 ≤ a.toNat ∧ a.toNat < 0xF0 ∧ Follows b ∧ Follows c ∧
      v = ((a.toNat - 0xE0) * 64 + (b.toNat - 0x80)) * 64 + (c.toNat - 0x80) := by
  constructor
  · intro h
    cases h with
    | three hl hr hb hc => exact ⟨hl, hr, hb, hc, rfl⟩
  · intro h
    obtain ⟨hl, hr, hb, hc, hv⟩ := h
    rw [hv]
    exact .three hl hr hb hc

theorem holds_four_iff {a b c d : UInt8} {v : ℕ} :
    Holds [a, b, c, d] v ↔ 0xF0 ≤ a.toNat ∧ a.toNat < 0xF8 ∧ Follows b ∧ Follows c ∧ Follows d ∧
      v = (((a.toNat - 0xF0) * 64 + (b.toNat - 0x80)) * 64 + (c.toNat - 0x80)) * 64
        + (d.toNat - 0x80) := by
  constructor
  · intro h
    cases h with
    | four hl hr hb hc hd => exact ⟨hl, hr, hb, hc, hd, rfl⟩
  · intro h
    obtain ⟨hl, hr, hb, hc, hd, hv⟩ := h
    rw [hv]
    exact .four hl hr hb hc hd

theorem Holds.length_le {bs : List UInt8} {v : ℕ} (h : Holds bs v) : bs.length ≤ 4 := by
  cases h <;> simp

theorem Holds.ne_nil {bs : List UInt8} {v : ℕ} (h : Holds bs v) : bs ≠ [] := by
  cases h <;> simp

/-- A number that some bytes hold needs no more of them. -/
theorem Holds.lt_least {bs : List UInt8} {v : ℕ} (h : Holds bs v) (hl : bs.length < 4) :
    v < least (bs.length + 1) := by
  cases h with
  | one ha => exact ha
  | two _ _ hb =>
    show _ < 0x800
    unfold Follows at hb
    omega
  | three _ _ hb hc =>
    show _ < 0x10000
    unfold Follows at hb hc
    omega
  | four => simp at hl

/-- A number is spread over a given number of bytes in one way. -/
theorem Holds.eq_of_length {bs bs' : List UInt8} {v : ℕ} (h : Holds bs v) (h' : Holds bs' v)
    (hl : bs'.length = bs.length) : bs' = bs := by
  cases h with
  | one ha =>
    obtain ⟨a', rfl⟩ := List.length_eq_one_iff.1 hl
    have ha' := (holds_one_iff.1 h').2
    rw [UInt8.toNat_inj.1 ha']
  | @two a b _ _ hb =>
    obtain ⟨a', b', rfl⟩ := List.length_eq_two.1 hl
    obtain ⟨_, _, hb', hv⟩ := holds_two_iff.1 h'
    unfold Follows at hb hb'
    have ha : a'.toNat = a.toNat := by omega
    have hb : b'.toNat = b.toNat := by omega
    rw [UInt8.toNat_inj.1 ha, UInt8.toNat_inj.1 hb]
  | @three a b c _ _ hb hc =>
    obtain ⟨a', b', c', rfl⟩ := List.length_eq_three.1 hl
    obtain ⟨_, _, hb', hc', hv⟩ := holds_three_iff.1 h'
    unfold Follows at hb hb' hc hc'
    have ha : a'.toNat = a.toNat := by omega
    have hb : b'.toNat = b.toNat := by omega
    have hc : c'.toNat = c.toNat := by omega
    rw [UInt8.toNat_inj.1 ha, UInt8.toNat_inj.1 hb, UInt8.toNat_inj.1 hc]
  | @four a b c d _ _ hb hc hd =>
    obtain ⟨a', b', c', d', rfl⟩ := List.length_eq_four.1 hl
    obtain ⟨_, _, hb', hc', hd', hv⟩ := holds_four_iff.1 h'
    unfold Follows at hb hb' hc hc' hd hd'
    have ha : a'.toNat = a.toNat := by omega
    have hb : b'.toNat = b.toNat := by omega
    have hc : c'.toNat = c.toNat := by omega
    have hd : d'.toNat = d.toNat := by omega
    rw [UInt8.toNat_inj.1 ha, UInt8.toNat_inj.1 hb, UInt8.toNat_inj.1 hc, UInt8.toNat_inj.1 hd]

/-! ## Spreading a number over bytes -/

theorem toNat_ofNat {n : ℕ} (h : n < 256) : (UInt8.ofNat n).toNat = n :=
  UInt8.toNat_ofNat_of_lt h

theorem toNat_follow (n : ℕ) : (UInt8.ofNat (n % 0x40 + 0x80)).toNat = n % 0x40 + 0x80 :=
  toNat_ofNat (by omega)

theorem follows_follow (n : ℕ) : Follows (UInt8.ofNat (n % 0x40 + 0x80)) := by
  unfold Follows
  rw [toNat_follow]
  omega

theorem holds_one {v : ℕ} (h : v < 0x80) : Holds [UInt8.ofNat v] v := by
  have hv : (UInt8.ofNat v).toNat = v := toNat_ofNat (by omega)
  rw [holds_one_iff, hv]
  exact ⟨h, rfl⟩

theorem holds_two {v : ℕ} (h : v < 0x800) :
    Holds [UInt8.ofNat (v / 64 % 0x20 + 0xC0), UInt8.ofNat (v % 0x40 + 0x80)] v := by
  have ha : (UInt8.ofNat (v / 64 % 0x20 + 0xC0)).toNat = v / 64 % 0x20 + 0xC0 :=
    toNat_ofNat (by omega)
  rw [holds_two_iff, ha, toNat_follow]
  exact ⟨by omega, by omega, follows_follow _, by omega⟩

theorem holds_three {v : ℕ} (h : v < 0x10000) :
    Holds [UInt8.ofNat (v / 4096 % 0x10 + 0xE0), UInt8.ofNat (v / 64 % 0x40 + 0x80),
      UInt8.ofNat (v % 0x40 + 0x80)] v := by
  have ha : (UInt8.ofNat (v / 4096 % 0x10 + 0xE0)).toNat = v / 4096 % 0x10 + 0xE0 :=
    toNat_ofNat (by omega)
  rw [holds_three_iff, ha, toNat_follow, toNat_follow]
  exact ⟨by omega, by omega, follows_follow _, follows_follow _, by omega⟩

theorem holds_four {v : ℕ} (h : v < 0x200000) :
    Holds [UInt8.ofNat (v / 262144 % 0x08 + 0xF0), UInt8.ofNat (v / 4096 % 0x40 + 0x80),
      UInt8.ofNat (v / 64 % 0x40 + 0x80), UInt8.ofNat (v % 0x40 + 0x80)] v := by
  have ha : (UInt8.ofNat (v / 262144 % 0x08 + 0xF0)).toNat = v / 262144 % 0x08 + 0xF0 :=
    toNat_ofNat (by omega)
  rw [holds_four_iff, ha, toNat_follow, toNat_follow, toNat_follow]
  exact ⟨by omega, by omega, follows_follow _, follows_follow _, follows_follow _, by omega⟩

theorem least_le {m n : ℕ} (hm : m ≤ n) (hn : n ≤ 4) : least m ≤ least n := by
  have hall : ∀ n ≤ 4, ∀ m ≤ n, least m ≤ least n := by decide
  exact hall n hn m hm

/-- A form of a number is the shortest if the number does not fit into fewer bytes. -/
theorem sequence_iff_least {bs : List UInt8} {v : ℕ} :
    Sequence bs v ↔ Holds bs v ∧ least bs.length ≤ v ∧ v.isValidChar := by
  constructor
  · intro h
    obtain ⟨hh, hs, hv⟩ := h
    refine ⟨hh, ?_, hv⟩
    by_contra hlt
    rw [Nat.not_le] at hlt
    -- a smaller number has a form that is one byte shorter
    cases hh with
    | one _ => exact absurd hlt (Nat.not_lt_zero _)
    | two _ _ _ =>
      have hle := hs _ (holds_one hlt)
      simp at hle
    | three _ _ _ _ =>
      have hle := hs _ (holds_two hlt)
      simp at hle
    | four _ _ _ _ _ =>
      have hle := hs _ (holds_three hlt)
      simp at hle
  · intro h
    obtain ⟨hh, hl, hv⟩ := h
    refine ⟨hh, ?_, hv⟩
    intro bs' h'
    by_contra hlt
    have hbs := hh.length_le
    have hv' := h'.lt_least (by omega)
    have hle : least (bs'.length + 1) ≤ least bs.length := by
      apply least_le
      · omega
      · exact hbs
    omega

/-- The encoding of a character is a sequence. -/
theorem sequence_encodeChar (c : Char) : Sequence (String.utf8EncodeChar c) c.toNat := by
  have hv : c.toNat.isValidChar := c.valid
  have hlt : c.toNat < 0x200000 := by
    unfold Nat.isValidChar at hv
    omega
  rw [sequence_iff_least]
  fun_cases String.utf8EncodeChar c with
  | case1 v h1 => exact ⟨holds_one (by omega), Nat.zero_le _, hv⟩
  | case2 v h1 h2 => exact ⟨holds_two (by omega), Nat.not_le.1 h1, hv⟩
  | case3 v h1 h2 h3 => exact ⟨holds_three (by omega), Nat.not_le.1 h2, hv⟩
  | case4 v h1 h2 h3 => exact ⟨holds_four hlt, Nat.not_le.1 h3, hv⟩

theorem toNat_charOfNat {v : ℕ} (h : v.isValidChar) : (Char.ofNat v).toNat = v := by
  rw [Char.ofNat, dif_pos h]
  rfl

/-- The sequences are the encodings of the characters. -/
theorem sequence_iff_encodeChar {bs : List UInt8} {v : ℕ} :
    Sequence bs v ↔ v.isValidChar ∧ bs = String.utf8EncodeChar (Char.ofNat v) := by
  have hc := sequence_encodeChar (Char.ofNat v)
  constructor
  · intro h
    rw [toNat_charOfNat h.scalar] at hc
    have h1 := h.shortest _ hc.holds
    have h2 := hc.shortest _ h.holds
    exact ⟨h.scalar, hc.holds.eq_of_length h.holds (Nat.le_antisymm h1 h2)⟩
  · rintro ⟨hv, rfl⟩
    rwa [toNat_charOfNat hv] at hc

/-! ## The table -/

theorem tailLength?_eq_some_iff {lead : UInt8} {n : ℕ} :
    tailLength? lead = some n ↔ (n = 0 ∧ lead.toNat < 0x80) ∨
      (n = 1 ∧ 0xC2 ≤ lead.toNat ∧ lead.toNat < 0xE0) ∨
      (n = 2 ∧ 0xE0 ≤ lead.toNat ∧ lead.toNat < 0xF0) ∨
      (n = 3 ∧ 0xF0 ≤ lead.toNat ∧ lead.toNat < 0xF5) := by
  unfold tailLength?
  simp only [UInt8.le_iff_toNat_le, UInt8.reduceToNat]
  split_ifs <;> simp only [Option.some.injEq, false_iff] <;> omega

theorem isTail_iff {b : UInt8} : isTail b = true ↔ Follows b := by
  unfold isTail Follows
  simp only [UInt8.le_iff_toNat_le, UInt8.reduceToNat, Bool.and_eq_true, decide_eq_true_eq]
  omega

theorem isSecond_iff {lead b : UInt8} :
    isSecond lead b = true ↔ Follows b ∧ (lead.toNat = 0xE0 → 0xA0 ≤ b.toNat) ∧
      (lead.toNat = 0xED → b.toNat < 0xA0) ∧ (lead.toNat = 0xF0 → 0x90 ≤ b.toNat) ∧
      (lead.toNat = 0xF4 → b.toNat < 0x90) := by
  unfold isSecond isTail Follows
  simp only [← UInt8.toNat_inj, UInt8.le_iff_toNat_le, UInt8.reduceToNat]
  split_ifs <;> simp only [Bool.and_eq_true, decide_eq_true_eq] <;> omega

theorem agreeing?_cons_eq_none_iff {lead b : UInt8} {bs : List UInt8} :
    agreeing? lead (b :: bs) = none ↔ isSecond lead b = true ∧ ∀ d ∈ bs, Follows d := by
  rw [agreeing?]
  by_cases h : isSecond lead b = true
  · simp [h, isTail_iff]
  · simp [h]

theorem leadBits_of_one {lead : UInt8} (h : lead.toNat < 0x80) : leadBits lead = lead.toNat := by
  simp [leadBits, UInt8.lt_iff_toNat_lt, h]

theorem leadBits_of_two {lead : UInt8} (hl : 0xC0 ≤ lead.toNat) (hr : lead.toNat < 0xE0) :
    leadBits lead = lead.toNat - 0xC0 := by
  have h1 : ¬ lead.toNat < 0x80 := by omega
  simp [leadBits, UInt8.lt_iff_toNat_lt, h1, hr]

theorem leadBits_of_three {lead : UInt8} (hl : 0xE0 ≤ lead.toNat) (hr : lead.toNat < 0xF0) :
    leadBits lead = lead.toNat - 0xE0 := by
  have h1 : ¬ lead.toNat < 0x80 := by omega
  have h2 : ¬ lead.toNat < 0xE0 := by omega
  simp [leadBits, UInt8.lt_iff_toNat_lt, h1, h2, hr]

theorem leadBits_of_four {lead : UInt8} (hl : 0xF0 ≤ lead.toNat) :
    leadBits lead = lead.toNat - 0xF0 := by
  have h1 : ¬ lead.toNat < 0x80 := by omega
  have h2 : ¬ lead.toNat < 0xE0 := by omega
  have h3 : ¬ lead.toNat < 0xF0 := by omega
  simp [leadBits, UInt8.lt_iff_toNat_lt, h1, h2, h3]

/-- The number that bytes hold is their code point. -/
theorem Holds.eq_codePoint {lead : UInt8} {tail : List UInt8} {v : ℕ}
    (h : Holds (lead :: tail) v) : v = codePoint lead tail := by
  unfold codePoint
  cases h with
  | one ha => rw [leadBits_of_one ha]; rfl
  | two hl hr _ => rw [leadBits_of_two hl hr]; rfl
  | three hl hr _ _ => rw [leadBits_of_three hl hr]; rfl
  | four hl _ _ _ _ => rw [leadBits_of_four hl]; rfl

theorem sequence_one_iff {a : UInt8} {v : ℕ} : Sequence [a] v ↔ a.toNat < 0x80 ∧ v = a.toNat := by
  rw [sequence_iff_least, holds_one_iff]
  show _ ∧ 0 ≤ v ∧ (v < 0xD800 ∨ 0xDFFF < v ∧ v < 0x110000) ↔ _
  omega

theorem sequence_two_iff {a b : UInt8} {v : ℕ} :
    Sequence [a, b] v ↔ 0xC2 ≤ a.toNat ∧ a.toNat < 0xE0 ∧ Follows b ∧
      v = (a.toNat - 0xC0) * 64 + (b.toNat - 0x80) := by
  rw [sequence_iff_least, holds_two_iff]
  show _ ∧ 0x80 ≤ v ∧ (v < 0xD800 ∨ 0xDFFF < v ∧ v < 0x110000) ↔ _
  unfold Follows
  omega

/-- After `E0` a second byte below `A0` would make an overlong form, and after `ED` one from `A0` on
    would make a surrogate. -/
theorem sequence_three_iff {a b c : UInt8} {v : ℕ} :
    Sequence [a, b, c] v ↔ 0xE0 ≤ a.toNat ∧ a.toNat < 0xF0 ∧ Follows b ∧ Follows c ∧
      (a.toNat = 0xE0 → 0xA0 ≤ b.toNat) ∧ (a.toNat = 0xED → b.toNat < 0xA0) ∧
      v = ((a.toNat - 0xE0) * 64 + (b.toNat - 0x80)) * 64 + (c.toNat - 0x80) := by
  rw [sequence_iff_least, holds_three_iff]
  show _ ∧ 0x800 ≤ v ∧ (v < 0xD800 ∨ 0xDFFF < v ∧ v < 0x110000) ↔ _
  unfold Follows
  omega

/-- After `F0` a second byte below `90` would make an overlong form, and after `F4` one from `90` on
    would make a number above `10FFFF`. -/
theorem sequence_four_iff {a b c d : UInt8} {v : ℕ} :
    Sequence [a, b, c, d] v ↔ 0xF0 ≤ a.toNat ∧ a.toNat < 0xF5 ∧ Follows b ∧ Follows c ∧
      Follows d ∧ (a.toNat = 0xF0 → 0x90 ≤ b.toNat) ∧ (a.toNat = 0xF4 → b.toNat < 0x90) ∧
      v = (((a.toNat - 0xF0) * 64 + (b.toNat - 0x80)) * 64 + (c.toNat - 0x80)) * 64
        + (d.toNat - 0x80) := by
  rw [sequence_iff_least, holds_four_iff]
  show _ ∧ 0x10000 ≤ v ∧ (v < 0xD800 ∨ 0xDFFF < v ∧ v < 0x110000) ↔ _
  unfold Follows
  omega

/-- The table of leads and of second bytes allows the sequences and nothing else. -/
theorem exists_sequence_iff {lead : UInt8} {tail : List UInt8} :
    (∃ v, Sequence (lead :: tail) v) ↔
      tailLength? lead = some tail.length ∧ agreeing? lead tail = none := by
  rw [tailLength?_eq_some_iff]
  -- for each length both sides are bounds on the bytes
  match tail with
  | [] =>
    simp only [sequence_one_iff, agreeing?, exists_and_left, exists_eq, and_true, true_and,
      List.length_nil]
    omega
  | [b] =>
    simp only [sequence_two_iff, agreeing?_cons_eq_none_iff, isSecond_iff, Follows,
      exists_and_left, exists_eq, and_true, true_and, List.not_mem_nil, IsEmpty.forall_iff,
      implies_true, List.length_singleton]
    omega
  | [b, c] =>
    simp only [sequence_three_iff, agreeing?_cons_eq_none_iff, isSecond_iff, Follows,
      exists_and_left, exists_eq, and_true, true_and, List.mem_singleton, forall_eq,
      List.length_cons, List.length_nil, Nat.reduceAdd]
    omega
  | [b, c, d] =>
    simp only [sequence_four_iff, agreeing?_cons_eq_none_iff, isSecond_iff, Follows,
      exists_and_left, exists_eq, and_true, true_and, List.mem_cons, List.not_mem_nil, or_false,
      forall_eq_or_imp, forall_eq, List.length_cons, List.length_nil, Nat.reduceAdd]
    omega
  | b :: c :: d :: e :: bs =>
    constructor
    · rintro ⟨v, hv⟩
      have hle := hv.holds.length_le
      simp only [List.length_cons] at hle
      omega
    · rintro ⟨hl, -⟩
      simp only [List.length_cons] at hl
      omega

/-- The encoding of a character has the announced length, and is decoded to the character. -/
theorem decode_of_encodeChar {c : Char} {lead : UInt8} {tail : List UInt8}
    (hc : String.utf8EncodeChar c = lead :: tail) :
    tailLength? lead = some tail.length ∧ decode lead tail = .ok c := by
  have hseq : Sequence (lead :: tail) c.toNat := hc ▸ sequence_encodeChar c
  obtain ⟨hlen, hagree⟩ := exists_sequence_iff.1 ⟨_, hseq⟩
  refine ⟨hlen, ?_⟩
  rw [decode, hagree]
  simp only
  rw [← hseq.holds.eq_codePoint, Char.ofNat_toNat]

/-! ## Texts in UTF-8 -/

/-- No sequence begins another, so bytes are cut into sequences in one way. -/
theorem Sequence.append_inj {bs bs' r r' : List UInt8} {v v' : ℕ} (h : Sequence bs v)
    (h' : Sequence bs' v') (he : bs ++ r = bs' ++ r') : bs = bs' ∧ v = v' ∧ r = r' := by
  obtain ⟨lead, tail, rfl⟩ := List.exists_cons_of_ne_nil h.holds.ne_nil
  obtain ⟨lead', tail', rfl⟩ := List.exists_cons_of_ne_nil h'.holds.ne_nil
  simp only [List.cons_append, List.cons.injEq] at he
  obtain ⟨rfl, he⟩ := he
  have hl := (exists_sequence_iff.1 ⟨v, h⟩).1
  have hl' := (exists_sequence_iff.1 ⟨v', h'⟩).1
  rw [hl, Option.some.injEq] at hl'
  obtain ⟨rfl, hr⟩ := List.append_inj he hl'
  refine ⟨rfl, ?_, hr⟩
  rw [h.holds.eq_codePoint, h'.holds.eq_codePoint]

/-- The encoding of some characters. -/
def encode (cs : List Char) : List UInt8 := cs.flatMap String.utf8EncodeChar

@[simp] theorem encode_nil : encode [] = [] := rfl

@[simp] theorem encode_cons (c : Char) (cs : List Char) :
    encode (c :: cs) = String.utf8EncodeChar c ++ encode cs := rfl

theorem encode_append (cs ds : List Char) : encode (cs ++ ds) = encode cs ++ encode ds :=
  List.flatMap_append

/-- The bytes begin with the encoding of a character. -/
def BeginsChar (bs : List UInt8) : Prop := ∃ c r, bs = String.utf8EncodeChar c ++ r

theorem not_beginsChar_nil : ¬ BeginsChar [] := by
  rintro ⟨c, r, h⟩
  have hc := (sequence_encodeChar c).holds.ne_nil
  exact hc (List.append_eq_nil_iff.1 h.symm).1

theorem encodeChar_append_inj {c d : Char} {r r' : List UInt8}
    (h : String.utf8EncodeChar c ++ r = String.utf8EncodeChar d ++ r') : c = d ∧ r = r' := by
  obtain ⟨-, hv, hr⟩ := (sequence_encodeChar c).append_inj (sequence_encodeChar d) h
  refine ⟨?_, hr⟩
  rw [← Char.ofNat_toNat c, hv, Char.ofNat_toNat]

/-- An encoding at the beginning of some bytes goes no further than one after which no character
    begins. -/
theorem prefix_of_encode_append {cs ds : List Char} {r r' : List UInt8} (hr : ¬ BeginsChar r)
    (he : encode ds ++ r' = encode cs ++ r) : ds <+: cs := by
  induction ds generalizing cs with
  | nil => exact List.nil_prefix
  | cons d ds ih =>
    rw [encode_cons, List.append_assoc] at he
    cases cs with
    | nil => exact absurd ⟨d, _, he.symm⟩ hr
    | cons c cs =>
      rw [encode_cons, List.append_assoc] at he
      obtain ⟨rfl, hr'⟩ := encodeChar_append_inj he
      exact (List.prefix_cons_inj d).2 (ih hr')

/-- A text whose encoding begins with that of another begins with that other. -/
theorem exists_of_encode_eq_append {cs ds : List Char} {r : List UInt8}
    (h : encode ds = encode cs ++ r) : ∃ es, ds = cs ++ es ∧ encode es = r := by
  have he : encode cs ++ r = encode ds ++ [] := by rw [List.append_nil, h]
  obtain ⟨es, rfl⟩ := prefix_of_encode_append not_beginsChar_nil he
  rw [encode_append] at h
  exact ⟨es, rfl, List.append_cancel_left h⟩

theorem encode_injective {cs ds : List Char} (h : encode cs = encode ds) : cs = ds := by
  have he : encode cs ++ [] = encode ds ++ [] := by rw [h]
  have hcd : cs <+: ds := prefix_of_encode_append not_beginsChar_nil he
  have hdc : ds <+: cs := prefix_of_encode_append not_beginsChar_nil he.symm
  exact hcd.eq_of_length_le hdc.length_le

/-- The bytes are sequences, one after the other. -/
inductive WellFormed : List UInt8 → Prop
  | nil : WellFormed []
  | append {s bs : List UInt8} {v : ℕ} : Sequence s v → WellFormed bs → WellFormed (s ++ bs)

/-- What is well formed is the encoding of some characters. -/
theorem wellFormed_iff_encode {bs : List UInt8} : WellFormed bs ↔ ∃ cs, bs = encode cs := by
  constructor
  · intro h
    induction h with
    | nil => exact ⟨[], rfl⟩
    | @append s bs v hs _ ih =>
      obtain ⟨cs, rfl⟩ := ih
      obtain ⟨-, rfl⟩ := sequence_iff_encodeChar.1 hs
      exact ⟨Char.ofNat v :: cs, rfl⟩
  · rintro ⟨cs, rfl⟩
    induction cs with
    | nil => exact .nil
    | cons c cs ih => exact .append (sequence_encodeChar c) ih

/-- The longest well-formed prefix of some bytes. -/
structure Longest (p bs : List UInt8) : Prop where
  begins : p <+: bs
  wellFormed : WellFormed p
  greatest : ∀ q, q <+: bs → WellFormed q → q <+: p

theorem Longest.unique {p q bs : List UInt8} (h : Longest p bs) (h' : Longest q bs) : p = q := by
  have hpq := h'.greatest p h.begins h.wellFormed
  have hqp := h.greatest q h'.begins h'.wellFormed
  exact hpq.eq_of_length_le hqp.length_le

/-- An encoding after which no character begins is the longest well-formed prefix. -/
theorem longest_encode {cs : List Char} {r : List UInt8} (hr : ¬ BeginsChar r) :
    Longest (encode cs) (encode cs ++ r) := by
  refine ⟨List.prefix_append _ _, wellFormed_iff_encode.2 ⟨cs, rfl⟩, ?_⟩
  rintro q ⟨r', he⟩ hq
  obtain ⟨ds, rfl⟩ := wellFormed_iff_encode.1 hq
  obtain ⟨es, rfl⟩ := prefix_of_encode_append hr he
  rw [encode_append]
  exact List.prefix_append _ _

end LispLexer.Text.Utf8
