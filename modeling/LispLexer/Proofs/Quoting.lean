import LispLexer.Event
import LispLexer.Proofs.Pieces

/-!
# Quoted text read back

The written form of a text holds printed characters only, and the text can be read back from it: no
written form of a character is the beginning of another one, and each stands for one character. So
what a log is told of a token stands on one line, and tells the token.

* `Written`, `written_escape`: the three written forms of a character.
* `Written.append_inj`: where one written form ends and what it stands for.
* `isPrinted_of_mem_encode`, `encode_injective`: the same for texts.
* `Event.token_of_text_eq`, `Event.isPrinted_of_mem_text`: what a log is told of a token.
-/

namespace LispLexer

namespace Text.Quoted

/-! ## Numbers -/

/-- The value of a hexadecimal digit. -/
def digitValue (d : Char) : ℕ := if d.toNat < 58 then d.toNat - 48 else d.toNat - 87

/-- The number that hexadecimal digits stand for, the most significant first. -/
def digitsValue (ds : List Char) : ℕ := ds.foldl (fun n d => n * 16 + digitValue d) 0

theorem digitValue_digitChar : ∀ i < 16, digitValue (Nat.digitChar i) = i := by decide

theorem digitsValue_toDigits (n : ℕ) : digitsValue (Nat.toDigits 16 n) = n := by
  induction n using Nat.strongRecOn with
  | _ n ih =>
    rw [Nat.toDigits_eq_if (by decide)]
    split
    case isTrue hn => simp [digitsValue, digitValue_digitChar n hn]
    case isFalse hn =>
      have hlead := ih (n / 16) (by omega)
      have hlast := digitValue_digitChar (n % 16) (Nat.mod_lt n (by decide))
      rw [digitsValue] at hlead ⊢
      rw [List.foldl_append, hlead, List.foldl_cons, List.foldl_nil, hlast]
      omega

theorem exists_digitChar_of_mem {n : ℕ} {d : Char} (h : d ∈ Nat.toDigits 16 n) :
    ∃ i < 16, d = Nat.digitChar i := by
  induction n using Nat.strongRecOn with
  | _ n ih =>
    rw [Nat.toDigits_eq_if (by decide)] at h
    split at h
    case isTrue hn => exact ⟨n, hn, List.mem_singleton.1 h⟩
    case isFalse hn =>
      rcases List.mem_append.1 h with h | h
      · exact ih (n / 16) (by omega) h
      · exact ⟨n % 16, Nat.mod_lt n (by decide), List.mem_singleton.1 h⟩

/-- The brace after some digits tells where they end. -/
theorem number_append_inj {m n : ℕ} {u v : List Char}
    (h : Nat.toDigits 16 m ++ '\x7d' :: u = Nat.toDigits 16 n ++ '\x7d' :: v) :
    m = n ∧ u = v := by
  have hbrace (k : ℕ) : '\x7d' ∉ Nat.toDigits 16 k := by
    intro hk
    obtain ⟨i, hi, hd⟩ := exists_digitChar_of_mem hk
    have hne : ∀ i < 16, '\x7d' ≠ Nat.digitChar i := by decide
    exact hne i hi hd
  obtain ⟨hdigits, huv⟩ := Grammar.append_cons_inj (hbrace m) (hbrace n) h
  refine ⟨?_, huv⟩
  calc m = digitsValue (Nat.toDigits 16 m) := (digitsValue_toDigits m).symm
    _ = digitsValue (Nat.toDigits 16 n) := by rw [hdigits]
    _ = n := digitsValue_toDigits n

/-! ## Characters -/

/-- The written forms of a character between two of the quotes `q`. -/
inductive Written (q : Char) : Char → List Char → Prop
  | printed {c : Char} : c ≠ q → c ≠ '\\' → isPrinted c = true → Written q c [c]
  | sign {c x : Char} : (c, x) ∈ signs q → Written q c ['\\', x]
  | number {c : Char} :
      Written q c ('\\' :: 'u' :: '\x7b' :: (Nat.toDigits 16 c.toNat ++ ['\x7d']))

theorem written_escape (q c : Char) : Written q c (escape q c) := by
  unfold escape
  split
  case h_1 x h =>
    obtain ⟨l₁, l₂, hl, -⟩ := List.lookup_eq_some_iff.1 h
    exact .sign (by simp [hl])
  case h_2 h =>
    rw [List.lookup_eq_none_iff] at h
    split
    case isTrue hp =>
      have hq := h (q, q) (by simp [signs])
      have hb := h ('\\', '\\') (by simp [signs])
      exact .printed (bne_iff_ne.1 hq) (bne_iff_ne.1 hb) hp
    case isFalse => exact .number

/-- A sign is the quote itself or one of five characters. -/
theorem eq_or_mem_of_mem_signs {q c x : Char} (h : (c, x) ∈ signs q) :
    x = q ∨ x ∈ ['0', 't', 'r', 'n', '\\'] := by
  simp only [signs, List.mem_cons, Prod.mk.injEq, List.not_mem_nil, or_false] at h ⊢
  tauto

namespace Written

variable {q c d : Char} {w w' u v : List Char}

theorem ne_nil (h : Written q c w) : w ≠ [] := by
  cases h <;> exact List.cons_ne_nil _ _

theorem isPrinted_of_mem (hq : isPrinted q = true) (h : Written q c w) (hd : d ∈ w) :
    isPrinted d = true := by
  have hmarks : ∀ e ∈ ['\\', 'u', '\x7b', '\x7d'], isPrinted e = true :=
    isPrinted_of_mem_ascii (by decide)
  cases h with
  | printed _ _ hp => rwa [List.mem_singleton.1 hd]
  | sign hx =>
    have hletters : ∀ e ∈ ['0', 't', 'r', 'n', '\\'], isPrinted e = true :=
      isPrinted_of_mem_ascii (by decide)
    rcases List.mem_pair.1 hd with rfl | rfl
    · exact hmarks _ List.mem_cons_self
    · rcases eq_or_mem_of_mem_signs hx with rfl | hletter
      · exact hq
      · exact hletters _ hletter
  | number =>
    have hdigits : ∀ i < 16, 0x20 ≤ (Nat.digitChar i).toNat ∧ (Nat.digitChar i).toNat < 0x7F := by
      decide
    have hd : d ∈ Nat.toDigits 16 c.toNat ∨ d ∈ ['\\', 'u', '\x7b', '\x7d'] := by
      simpa only [List.mem_cons, List.mem_append, List.not_mem_nil, or_false, or_left_comm] using hd
    rcases hd with hdigit | hmark
    · obtain ⟨i, hi, rfl⟩ := exists_digitChar_of_mem hdigit
      exact isPrinted_of_ascii (hdigits i hi).1 (hdigits i hi).2
    · exact hmarks _ hmark

/-- No sign stands for two characters, and none announces a number. -/
theorem sign_inj {c' x : Char} (h : (c, x) ∈ signs '"') (h' : (c', x) ∈ signs '"') :
    c = c' ∧ x ≠ 'u' := by
  simp only [signs, List.mem_cons, Prod.mk.injEq, List.not_mem_nil, or_false] at h h'
  grind

/-- Two texts that begin with written forms of characters and are the same begin with the same
    character and go on in the same way. -/
theorem append_inj {c' : Char} (h : Written '"' c w) (h' : Written '"' c' w')
    (he : w ++ u = w' ++ v) : c = c' ∧ u = v := by
  cases h with
  | printed _ hb _ =>
    cases h' with
    | printed _ _ _ => exact ⟨(List.cons.inj he).1, (List.cons.inj he).2⟩
    | sign _ => exact absurd (List.cons.inj he).1 hb
    | number => exact absurd (List.cons.inj he).1 hb
  | sign hx =>
    cases h' with
    | printed _ hb _ => exact absurd (List.cons.inj he).1.symm hb
    | sign hx' =>
      simp only [List.cons_append, List.nil_append, List.cons.injEq, true_and] at he
      obtain ⟨rfl, rfl⟩ := he
      exact ⟨(sign_inj hx hx').1, rfl⟩
    | number =>
      simp only [List.cons_append, List.nil_append, List.cons.injEq, true_and] at he
      exact absurd he.1 (sign_inj hx hx).2
  | number =>
    cases h' with
    | printed _ hb _ => exact absurd (List.cons.inj he).1.symm hb
    | sign hx =>
      simp only [List.cons_append, List.nil_append, List.cons.injEq, true_and] at he
      exact absurd he.1.symm (sign_inj hx hx).2
    | number =>
      simp only [List.cons_append, List.append_assoc, List.nil_append, List.cons.injEq,
        true_and] at he
      obtain ⟨hn, huv⟩ := number_append_inj he
      exact ⟨Char.toNat_inj.1 hn, huv⟩

end Written

/-! ## Texts -/

theorem flatMap_escape_injective :
    Function.Injective fun cs : List Char => cs.flatMap (escape '"') := by
  intro cs ds h
  induction cs generalizing ds with
  | nil =>
    cases ds with
    | nil => rfl
    | cons d ds =>
      have hnil := (List.append_eq_nil_iff.1 (List.flatMap_cons.symm.trans h.symm)).1
      exact absurd hnil (written_escape '"' d).ne_nil
  | cons c cs ih =>
    cases ds with
    | nil =>
      have hnil := (List.append_eq_nil_iff.1 (List.flatMap_cons.symm.trans h)).1
      exact absurd hnil (written_escape '"' c).ne_nil
    | cons d ds =>
      obtain ⟨rfl, hrest⟩ := (written_escape '"' c).append_inj (written_escape '"' d)
        (List.flatMap_cons.symm.trans (Eq.trans h List.flatMap_cons))
      rw [ih hrest]

theorem encode_injective : Function.Injective encode := by
  intro s t h
  have hlist := String.ofList_injective h
  have hbody := List.append_cancel_right (List.cons.inj hlist).2
  exact String.toList_injective (flatMap_escape_injective hbody)

theorem isPrinted_of_mem_encode {s : String} {d : Char} (h : d ∈ (encode s).toList) :
    isPrinted d = true := by
  have hq : isPrinted '"' = true := isPrinted_of_ascii (by decide) (by decide)
  rw [encode, String.toList_ofList, List.cons_append, List.mem_cons, List.mem_append,
    List.mem_flatMap, List.mem_singleton] at h
  rcases h with rfl | ⟨c, -, h⟩ | rfl
  · exact hq
  · exact (written_escape '"' c).isPrinted_of_mem hq h
  · exact hq

/-- A byte order mark is spelled out, and so is an accent that extends the letter before it. -/
example : encode "\uFEFFe\u0301" = "\"\\u\x7bfeff\x7de\\u\x7b301\x7d\"" := by decide +kernel

end Text.Quoted

/-! ## Events -/

open Text

namespace Token

theorem label_injective : Function.Injective label := by
  intro t t' h
  have hl := congrArg String.toList h
  -- labels of two kinds begin differently; two of one kind hold the texts in quotes
  cases t <;> cases t' <;> simp [label] at hl ⊢
  all_goals exact Quoted.encode_injective (String.toList_injective hl)

theorem isPrinted_of_mem_label {t : Token} {d : Char} (h : d ∈ t.label.toList) :
    isPrinted d = true := by
  have hquoted (x y : String) (hx : ∀ d ∈ x.toList, isPrinted d = true)
      (h : d ∈ (x ++ Quoted.encode y ++ ")").toList) : isPrinted d = true := by
    rw [String.toList_append, String.toList_append, List.mem_append, List.mem_append] at h
    rcases h with (h | h) | h
    · exact hx d h
    · exact Quoted.isPrinted_of_mem_encode h
    · exact isPrinted_of_mem_ascii (by decide) d h
  cases t with
  | lparen => exact isPrinted_of_mem_ascii (by decide) d h
  | rparen => exact isPrinted_of_mem_ascii (by decide) d h
  | quote => exact isPrinted_of_mem_ascii (by decide) d h
  | string x => exact hquoted "String(" x (isPrinted_of_mem_ascii (by decide)) h
  | symbol x => exact hquoted "Symbol(" x (isPrinted_of_mem_ascii (by decide)) h

end Token

namespace Event

theorem toList_text (t : Token) : (token t).text.toList = "token ".toList ++ t.label.toList :=
  String.toList_append

/-- What a log is told of a token tells the token. -/
theorem token_of_text_eq {t t' : Token} (h : (token t).text = (token t').text) : t = t' := by
  have hl := congrArg String.toList h
  rw [toList_text, toList_text] at hl
  exact Token.label_injective (String.toList_injective (List.append_cancel_left hl))

/-- What a log is told of a token stands on one line and can be seen. -/
theorem isPrinted_of_mem_text {t : Token} {d : Char} (h : d ∈ (token t).text.toList) :
    isPrinted d = true := by
  rw [toList_text, List.mem_append] at h
  rcases h with h | h
  · exact isPrinted_of_mem_ascii (by decide) d h
  · exact Token.isPrinted_of_mem_label h

end Event

end LispLexer
