import LispLexer.Proofs.Utf8Sequence

/-!
# Beginnings of characters

Bytes that are not the encoding of a character may still begin one. Which bytes do so, said by the
encodings alone, is what the table of leads and of second bytes allows so far: what is allowed can
always be filled up to a whole encoding. So a sequence that goes wrong does so at the first byte
with which the bytes begin no character any more.

* `exists_encodeChar_iff`: the encodings are what the table allows.
* `exists_filled`: bytes that are allowed so far can be filled up.
* `beginning_cons_iff`: the bytes that begin a character are those that are allowed so far.
* `beginning_take_iff`, `agreeing?_of_beginning`: how many bytes of a wrong sequence begin a
  character.
* `exists_append_eq_encodeChar`: where the encoding of a text may be cut.
-/

namespace LispLexer.Text.Utf8

/-! ## What encodings say of bytes -/

/-- The encoding of a character begins with the bytes, or is the bytes. -/
def Beginning (bs : List UInt8) : Prop := ∃ c, bs <+: String.utf8EncodeChar c

/-- An encoding that begins with the byte has `w` bytes. -/
def Announces (lead : UInt8) (w : ℕ) : Prop :=
  ∃ c, (String.utf8EncodeChar c).head? = some lead ∧ (String.utf8EncodeChar c).length = w

theorem beginning_nil : Beginning [] := ⟨'a', List.nil_prefix⟩

theorem exists_encodeChar_iff {lead : UInt8} {tail : List UInt8} :
    (∃ c, String.utf8EncodeChar c = lead :: tail) ↔
      tailLength? lead = some tail.length ∧ agreeing? lead tail = none := by
  rw [← exists_sequence_iff]
  constructor
  · rintro ⟨c, hc⟩
    exact ⟨c.toNat, hc ▸ sequence_encodeChar c⟩
  · rintro ⟨v, hv⟩
    exact ⟨Char.ofNat v, (sequence_iff_encodeChar.1 hv).2.symm⟩

/-! ## Filling up -/

/-- The least byte that may stand second after `lead`. -/
def leastSecond (lead : UInt8) : UInt8 :=
  if lead = 0xE0 then 0xA0 else if lead = 0xF0 then 0x90 else 0x80

theorem isSecond_leastSecond (lead : UInt8) : isSecond lead (leastSecond lead) = true := by
  unfold leastSecond isSecond isTail
  split_ifs <;> rfl

theorem follows_of_mem_replicate {b : UInt8} {n : ℕ} (h : b ∈ List.replicate n 0x80) :
    Follows b := by
  rw [List.eq_of_mem_replicate h]
  exact ⟨by decide, by decide⟩

/-- Bytes that may follow a lead byte can be filled up to any number. -/
theorem exists_filled {lead : UInt8} {us : List UInt8} {n : ℕ} (hn : us.length ≤ n)
    (h : agreeing? lead us = none) :
    ∃ vs, (us ++ vs).length = n ∧ agreeing? lead (us ++ vs) = none := by
  cases us with
  | nil =>
    cases n with
    | zero => exact ⟨[], rfl, rfl⟩
    | succ n =>
      refine ⟨leastSecond lead :: List.replicate n 0x80, by simp, ?_⟩
      rw [List.nil_append, agreeing?_cons_eq_none_iff]
      exact ⟨isSecond_leastSecond lead, fun d hd => follows_of_mem_replicate hd⟩
  | cons b us =>
    rw [agreeing?_cons_eq_none_iff] at h
    rw [List.length_cons] at hn
    refine ⟨List.replicate (n - (us.length + 1)) 0x80, by simp; omega, ?_⟩
    rw [List.cons_append, agreeing?_cons_eq_none_iff]
    refine ⟨h.1, fun d hd => ?_⟩
    rcases List.mem_append.1 hd with hd | hd
    · exact h.2 d hd
    · exact follows_of_mem_replicate hd

theorem agreeing?_of_append {lead : UInt8} {us vs : List UInt8}
    (h : agreeing? lead (us ++ vs) = none) : agreeing? lead us = none := by
  cases us with
  | nil => rfl
  | cons b us =>
    rw [List.cons_append, agreeing?_cons_eq_none_iff] at h
    exact agreeing?_cons_eq_none_iff.2 ⟨h.1, fun d hd => h.2 d (List.mem_append_left _ hd)⟩

/-! ## Beginnings -/

/-- Some bytes begin a character exactly if the table allows them so far. -/
theorem beginning_cons_iff {lead : UInt8} {us : List UInt8} :
    Beginning (lead :: us) ↔
      ∃ n, tailLength? lead = some n ∧ us.length ≤ n ∧ agreeing? lead us = none := by
  constructor
  · rintro ⟨c, vs, hc⟩
    obtain ⟨hl, ha⟩ := exists_encodeChar_iff.1 ⟨c, hc.symm⟩
    exact ⟨_, hl, by simp, agreeing?_of_append ha⟩
  · rintro ⟨n, hl, hn, ha⟩
    obtain ⟨vs, rfl, ha'⟩ := exists_filled hn ha
    obtain ⟨c, hc⟩ := exists_encodeChar_iff.2 ⟨hl, ha'⟩
    exact ⟨c, vs, hc.symm⟩

theorem announces_iff {lead : UInt8} {w : ℕ} :
    Announces lead w ↔ ∃ n, tailLength? lead = some n ∧ w = n + 1 := by
  constructor
  · rintro ⟨c, hc, rfl⟩
    obtain ⟨tail, ht⟩ := List.head?_eq_some_iff.1 hc
    rw [ht]
    exact ⟨_, (exists_encodeChar_iff.1 ⟨c, ht⟩).1, List.length_cons⟩
  · rintro ⟨n, hl, rfl⟩
    have hnil : ([] : List UInt8).length ≤ n := n.zero_le
    obtain ⟨tail, rfl, ha⟩ := exists_filled hnil rfl
    obtain ⟨c, hc⟩ := exists_encodeChar_iff.2 ⟨hl, ha⟩
    exact ⟨c, by rw [hc]; rfl, by rw [hc]; rfl⟩

/-- A byte that begins no character is one that announces nothing. -/
theorem not_beginning_singleton_iff {b : UInt8} : ¬ Beginning [b] ↔ tailLength? b = none := by
  rw [beginning_cons_iff]
  cases tailLength? b <;> simp [agreeing?]

theorem forall_mem_take_iff {bs : List UInt8} {i k : ℕ}
    (h : (bs.findIdx? fun b => !isTail b) = some i) :
    (∀ d ∈ bs.take k, Follows d) ↔ k ≤ i := by
  obtain ⟨hi, hout, hin⟩ := List.findIdx?_eq_some_iff_getElem.1 h
  simp only [← isTail_iff]
  constructor
  · intro hall
    by_contra hlt
    have hmem : bs[i] ∈ bs.take k := List.mem_take_iff_getElem.2 ⟨i, by omega, rfl⟩
    simp [hall _ hmem] at hout
  · intro hk d hd
    obtain ⟨j, hj, rfl⟩ := List.mem_take_iff_getElem.1 hd
    have htail := hin j (by omega)
    simpa using htail

/-- The bytes before the first that is out of place are in place. -/
theorem agreeing?_take {lead : UInt8} {tail : List UInt8} {n : ℕ}
    (h : agreeing? lead tail = some n) (k : ℕ) :
    agreeing? lead (tail.take k) = none ↔ k < n := by
  cases tail with
  | nil => cases h
  | cons b bs =>
    cases k with
    | zero => exact iff_of_true rfl (agreeing?_le h).1
    | succ k =>
      rw [agreeing?] at h
      rw [List.take_succ_cons, agreeing?_cons_eq_none_iff]
      split at h
      · next hb =>
        obtain ⟨i, hi, rfl⟩ := Option.map_eq_some_iff.1 h
        rw [forall_mem_take_iff hi, and_iff_right hb]
        omega
      · next hb =>
        cases h
        simp [hb]

/-- Of a sequence that goes wrong as many bytes begin a character as are in place. -/
theorem beginning_take_iff {lead : UInt8} {tail : List UInt8} {n k : ℕ}
    (hl : tailLength? lead = some tail.length) (h : agreeing? lead tail = some n) :
    Beginning ((lead :: tail).take k) ↔ k ≤ n := by
  cases k with
  | zero => simp [beginning_nil]
  | succ k =>
    rw [List.take_succ_cons, beginning_cons_iff, Nat.succ_le_iff, ← agreeing?_take h]
    simp [hl]

/-- The longest beginning of a character tells where bytes of the announced length go wrong. -/
theorem agreeing?_of_beginning {lead : UInt8} {us : List UInt8} {n : ℕ}
    (hl : tailLength? lead = some us.length) (hn : n < us.length + 1)
    (h : ∀ k, Beginning ((lead :: us).take k) ↔ k ≤ n) : agreeing? lead us = some n := by
  cases ha : agreeing? lead us with
  | none =>
    -- the bytes would be the encoding of a character, and begin it as a whole
    have hall : Beginning ((lead :: us).take (us.length + 1)) := by
      obtain ⟨c, hc⟩ := exists_encodeChar_iff.2 ⟨hl, ha⟩
      exact ⟨c, hc ▸ List.take_prefix _ _⟩
    have hle := (h _).1 hall
    omega
  | some m =>
    have hiff (k : ℕ) : k ≤ m ↔ k ≤ n := (beginning_take_iff hl ha).symm.trans (h k)
    rw [Nat.le_antisymm ((hiff m).1 (Nat.le_refl m)) ((hiff n).2 (Nat.le_refl n))]

/-! ## Texts -/

/-- Bytes that begin with no character, but go on to a text, are a beginning of a character. -/
theorem exists_append_eq_encodeChar {r es : List UInt8} {ds : List Char} (hne : r ≠ [])
    (hr : ¬ BeginsChar r) (h : encode ds = r ++ es) :
    ∃ c vs, vs ≠ [] ∧ String.utf8EncodeChar c = r ++ vs := by
  cases ds with
  | nil => exact absurd (List.append_eq_nil_iff.1 h.symm).1 hne
  | cons c ds =>
    rw [encode_cons] at h
    rcases List.append_eq_append_iff.1 h with ⟨m, hm, -⟩ | ⟨m, hm, -⟩
    · exact absurd ⟨c, m, hm⟩ hr
    · refine ⟨c, m, ?_, hm⟩
      rintro rfl
      exact hr ⟨c, [], by rw [hm, List.append_nil, List.append_nil]⟩

end LispLexer.Text.Utf8
