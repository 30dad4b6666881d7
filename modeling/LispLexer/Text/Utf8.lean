/-!
# UTF-8 sequences

A character is written as a lead byte and up to three further bytes. The lead byte alone fixes how
many follow; whether they are allowed to follow is a second question, and the first further byte is
held to a narrower range after four of the leads, which shuts out overlong forms, surrogates and
numbers above `10FFFF`.

* `tailLength?_le`: no lead byte announces more than three further bytes.
* `agreeing?_le`: a sequence that goes wrong agrees with the table for at least the lead byte.
-/

namespace LispLexer.Text.Utf8

/-- `sequence_width` (lines 83–93) without the lead byte: the number of bytes that follow `lead`, or
    nothing if no sequence begins with it. -/
def tailLength? (lead : UInt8) : Option Nat :=
  if lead ≤ 0x7F then some 0
  else if 0xC2 ≤ lead ∧ lead ≤ 0xDF then some 1
  else if 0xE0 ≤ lead ∧ lead ≤ 0xEF then some 2
  else if 0xF0 ≤ lead ∧ lead ≤ 0xF4 then some 3
  else none

theorem tailLength?_le {lead : UInt8} {n : Nat} (h : tailLength? lead = some n) : n ≤ 3 := by
  unfold tailLength? at h
  grind

/-- A byte that carries six bits of a character begun before it. -/
def isTail (b : UInt8) : Bool := 0x80 ≤ b && b ≤ 0xBF

/-- A byte that may stand second after `lead`. -/
def isSecond (lead b : UInt8) : Bool :=
  if lead = 0xE0 then 0xA0 ≤ b && b ≤ 0xBF
  else if lead = 0xED then 0x80 ≤ b && b ≤ 0x9F
  else if lead = 0xF0 then 0x90 ≤ b && b ≤ 0xBF
  else if lead = 0xF4 then 0x80 ≤ b && b ≤ 0x8F
  else isTail b

/-- Where `tail` is not allowed to follow `lead`: the number of bytes, `lead` included, before the
    first that is out of place. Nothing if every byte is in place. -/
def agreeing? (lead : UInt8) : List UInt8 → Option Nat
  | [] => none
  | b :: bs =>
    if isSecond lead b then (bs.findIdx? fun b => !isTail b).map (· + 2) else some 1

theorem agreeing?_le {lead : UInt8} {tail : List UInt8} {n : Nat}
    (h : agreeing? lead tail = some n) : 1 ≤ n ∧ n ≤ tail.length := by
  match tail with
  | [] => simp [agreeing?] at h
  | b :: bs =>
    simp only [agreeing?] at h
    split at h
    · obtain ⟨i, hi, rfl⟩ := Option.map_eq_some_iff.1 h
      have := (List.findIdx?_eq_some_iff_findIdx_eq.1 hi).1
      simp only [List.length_cons]
      omega
    · cases h
      simp

/-- The bits of the character that the lead byte holds. -/
def leadBits (lead : UInt8) : Nat :=
  if lead < 0x80 then lead.toNat
  else if lead < 0xE0 then lead.toNat - 0xC0
  else if lead < 0xF0 then lead.toNat - 0xE0
  else lead.toNat - 0xF0

/-- The code point that a sequence stands for: each further byte appends its six low bits. -/
def codePoint (lead : UInt8) (tail : List UInt8) : Nat :=
  tail.foldl (fun v b => v * 64 + (b.toNat - 0x80)) (leadBits lead)

/-- The character of a sequence of the announced length, or else the number of its bytes before
    the first that is out of place. -/
def decode (lead : UInt8) (tail : List UInt8) : Except Nat Char :=
  match agreeing? lead tail with
  | some n => .error n
  | none => .ok (Char.ofNat (codePoint lead tail))

end LispLexer.Text.Utf8
