import LispLexer.Text.Printed

/-!
# Quoted text

The written form of a text or a character in a message: between quotes, double ones for a text and
single ones for a character, with every character spelled out that is not printed.

* `escape_of_printed`: printed characters but the quote and the backslash stand as they are.
-/

namespace LispLexer.Text.Quoted

/-- The characters that have a sign after a backslash between two of the quotes `q`, each with its
    sign. -/
def signs (q : Char) : List (Char × Char) :=
  [('\x00', '0'), ('\t', 't'), ('\r', 'r'), ('\n', 'n'), ('\\', '\\'), (q, q)]

/-- `escape_debug`: the written form of one character between two of the quotes `q`. -/
def escape (q c : Char) : List Char :=
  match (signs q).lookup c with
  | some x => ['\\', x]
  | none =>
    if isPrinted c = true then [c]
    else '\\' :: 'u' :: '\x7b' :: (Nat.toDigits 16 c.toNat ++ ['\x7d'])

theorem escape_of_printed {q c : Char} (hq : c ≠ q) (hb : c ≠ '\\') (hp : isPrinted c = true) :
    escape q c = [c] := by
  have hne {d : Char} (hd : isPrinted d = false) : c ≠ d := by
    rintro rfl
    rw [hd] at hp
    cases hp
  have hlookup : (signs q).lookup c = none := by
    simp only [List.lookup_eq_none_iff, signs, List.forall_mem_cons, bne_iff_ne]
    exact ⟨hne (by decide +kernel), hne (by decide +kernel), hne (by decide +kernel),
      hne (by decide +kernel), hb, hq, nofun⟩
  rw [escape, hlookup]
  exact if_pos hp

/-- The text between quotes, with its characters in their written form. -/
def encode (s : String) : String :=
  String.ofList ('"' :: s.toList.flatMap (escape '"') ++ ['"'])

/-- The character between quotes, in its written form. -/
def encodeChar (c : Char) : String :=
  String.ofList ('\'' :: escape '\'' c ++ ['\''])

end LispLexer.Text.Quoted
