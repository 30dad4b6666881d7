import LispLexer.Cursor
import LispLexer.Text.CharClass
import LispLexer.Token.Basic

/-!
# Lexemes

The spelling of one token. The punctuation marks spell themselves, a symbol is a longest run of
constituents, and a string runs from a quote to the next quote that no backslash protects. A cursor
that has passed a lexeme stands on the character just after it.

* `Cursor.stringBody_of_quote`, `Cursor.stringBody_of_escape`, `Cursor.stringBody_of_char`: the
  three ways in which the body of a string goes on.
* `Cursor.run_of_constituent`, `Cursor.run_of_other`, `Cursor.run_of_ended`: the same for the run
  of constituents in a symbol.
* `Cursor.weight_lexeme_lt`: a token takes at least one character.
-/

namespace LispLexer

open Text

universe u

/-- What comes of an attempt to read a token. -/
inductive Outcome where
  | token (t : Token)
  /-- The input has come to its end. -/
  | finished
  | failed (f : Failure)
  deriving DecidableEq

/-- The token read, if there is one. -/
def Outcome.token? : Outcome → Option Token
  | token t => some t
  | _ => none

@[simp] theorem Outcome.token?_eq_some {o : Outcome} {t : Token} :
    o.token? = some t ↔ o = token t := by
  cases o <;> simp [token?]

namespace Cursor

variable {φ : Type u} [Feed φ]

/-! ## Strings -/

/-- What a character stands for after a backslash. Only `n` and `t` stand for another. -/
def unescape : Char → Char
  | 'n' => '\n'
  | 't' => '\t'
  | c => c

/-- The loop of `read_string` (lines 312–331): reads the rest of a string after the characters
    `acc`, the last one first, and moves past its closing quote. There is no string if the input
    ends before the quote. -/
def stringBodyFrom (k : Cursor φ) (acc : List Char) : Option (List Char) × Cursor φ :=
  match _h : k.lookahead with
  | .ended _ => (none, k)
  | .char c _ =>
    if c = '"' then (some acc.reverse, k.advance)
    else if c = '\\' then
      match _h' : k.advance.lookahead with
      | .ended _ => (none, k.advance)
      | .char e _ => stringBodyFrom k.advance.advance (unescape e :: acc)
    else stringBodyFrom k.advance (c :: acc)
termination_by k.weight
decreasing_by
  · exact Nat.lt_trans (weight_advance_lt _h') (weight_advance_lt _h)
  · exact weight_advance_lt _h

theorem stringBodyFrom_of_ended {k : Cursor φ} {pending : Option FeedFailure}
    (h : k.lookahead = .ended pending) (acc : List Char) : k.stringBodyFrom acc = (none, k) := by
  rw [stringBodyFrom]
  split <;> simp_all

theorem stringBodyFrom_of_quote {k : Cursor φ} {p : Position} (h : k.lookahead = .char '"' p)
    (acc : List Char) : k.stringBodyFrom acc = (some acc.reverse, k.advance) := by
  rw [stringBodyFrom]
  split <;> simp_all

theorem stringBodyFrom_of_escape {k : Cursor φ} {e : Char} {p p' : Position}
    (h : k.lookahead = .char '\\' p) (h' : k.advance.lookahead = .char e p') (acc : List Char) :
    k.stringBodyFrom acc = k.advance.advance.stringBodyFrom (unescape e :: acc) := by
  have hq : '\\' ≠ '"' := by decide
  rw [stringBodyFrom]
  split
  case h_1 h₁ => rw [h] at h₁; cases h₁
  case h_2 h₁ =>
    rw [h] at h₁
    cases h₁
    rw [if_neg hq, if_pos rfl]
    split <;> simp_all

theorem stringBodyFrom_of_dangling {k : Cursor φ} {p : Position} {pending : Option FeedFailure}
    (h : k.lookahead = .char '\\' p) (h' : k.advance.lookahead = .ended pending)
    (acc : List Char) : k.stringBodyFrom acc = (none, k.advance) := by
  have hq : '\\' ≠ '"' := by decide
  rw [stringBodyFrom]
  split
  case h_1 h₁ => rw [h] at h₁; cases h₁
  case h_2 h₁ =>
    rw [h] at h₁
    cases h₁
    rw [if_neg hq, if_pos rfl]
    split <;> simp_all

theorem stringBodyFrom_of_char {k : Cursor φ} {c : Char} {p : Position}
    (h : k.lookahead = .char c p) (hq : c ≠ '"') (hb : c ≠ '\\') (acc : List Char) :
    k.stringBodyFrom acc = k.advance.stringBodyFrom (c :: acc) := by
  rw [stringBodyFrom]
  split <;> simp_all

/-- Reads the body of a string and moves past its closing quote. -/
def stringBody (k : Cursor φ) : Option (List Char) × Cursor φ := k.stringBodyFrom []

theorem stringBodyFrom_append (k : Cursor φ) (acc before : List Char) :
    k.stringBodyFrom (acc ++ before)
      = ((k.stringBodyFrom acc).1.map (before.reverse ++ ·), (k.stringBodyFrom acc).2) := by
  fun_induction stringBodyFrom k acc with
  | case1 k acc _ h => simp [stringBodyFrom_of_ended h]
  | case2 k acc p h => simp [stringBodyFrom_of_quote h]
  | case3 k acc p _ h' h => simp [stringBodyFrom_of_dangling h h']
  | case4 k acc p e _ h' h _ ih => rw [stringBodyFrom_of_escape h h', ← ih, List.cons_append]
  | case5 k acc c p h hq hb ih => rw [stringBodyFrom_of_char h hq hb, ← ih, List.cons_append]

theorem stringBody_of_ended {k : Cursor φ} {pending : Option FeedFailure}
    (h : k.lookahead = .ended pending) : k.stringBody = (none, k) :=
  stringBodyFrom_of_ended h []

theorem stringBody_of_quote {k : Cursor φ} {p : Position} (h : k.lookahead = .char '"' p) :
    k.stringBody = (some [], k.advance) :=
  stringBodyFrom_of_quote h []

theorem stringBody_of_escape {k : Cursor φ} {e : Char} {p p' : Position}
    (h : k.lookahead = .char '\\' p) (h' : k.advance.lookahead = .char e p') :
    k.stringBody
      = (k.advance.advance.stringBody.1.map (unescape e :: ·), k.advance.advance.stringBody.2) :=
  (stringBodyFrom_of_escape h h' []).trans (stringBodyFrom_append _ [] [unescape e])

theorem stringBody_of_dangling {k : Cursor φ} {p : Position} {pending : Option FeedFailure}
    (h : k.lookahead = .char '\\' p) (h' : k.advance.lookahead = .ended pending) :
    k.stringBody = (none, k.advance) :=
  stringBodyFrom_of_dangling h h' []

theorem stringBody_of_char {k : Cursor φ} {c : Char} {p : Position}
    (h : k.lookahead = .char c p) (hq : c ≠ '"') (hb : c ≠ '\\') :
    k.stringBody = (k.advance.stringBody.1.map (c :: ·), k.advance.stringBody.2) :=
  (stringBodyFrom_of_char h hq hb []).trans (stringBodyFrom_append _ [] [c])

theorem weight_stringBody_le (k : Cursor φ) : k.stringBody.2.weight ≤ k.weight := by
  unfold stringBody
  generalize ([] : List Char) = acc
  fun_induction stringBodyFrom k acc with
  | case1 => exact Nat.le_refl _
  | case2 k => exact k.weight_advance_le
  | case3 k => exact k.weight_advance_le
  | case4 k _ _ _ _ _ _ _ ih =>
    exact Nat.le_trans ih (Nat.le_trans k.advance.weight_advance_le k.weight_advance_le)
  | case5 k _ _ _ _ _ _ ih => exact Nat.le_trans ih k.weight_advance_le

/-! ## Symbols -/

/-- Reads constituents after the characters `acc`, the last one first. -/
def runFrom (k : Cursor φ) (acc : List Char) : List Char × Cursor φ :=
  match _h : k.lookahead with
  | .ended _ => (acc.reverse, k)
  | .char c _ =>
    if isConstituent c = true then runFrom k.advance (c :: acc) else (acc.reverse, k)
termination_by k.weight
decreasing_by exact weight_advance_lt _h

theorem runFrom_of_ended {k : Cursor φ} {pending : Option FeedFailure}
    (h : k.lookahead = .ended pending) (acc : List Char) : k.runFrom acc = (acc.reverse, k) := by
  rw [runFrom]
  split <;> simp_all

theorem runFrom_of_constituent {k : Cursor φ} {c : Char} {p : Position}
    (h : k.lookahead = .char c p) (hc : isConstituent c = true) (acc : List Char) :
    k.runFrom acc = k.advance.runFrom (c :: acc) := by
  rw [runFrom]
  split <;> simp_all

theorem runFrom_of_other {k : Cursor φ} {c : Char} {p : Position}
    (h : k.lookahead = .char c p) (hc : isConstituent c = false) (acc : List Char) :
    k.runFrom acc = (acc.reverse, k) := by
  rw [runFrom]
  split <;> simp_all

/-- Reads the longest run of constituents. -/
def run (k : Cursor φ) : List Char × Cursor φ := k.runFrom []

theorem runFrom_append (k : Cursor φ) (acc before : List Char) :
    k.runFrom (acc ++ before) = (before.reverse ++ (k.runFrom acc).1, (k.runFrom acc).2) := by
  fun_induction runFrom k acc with
  | case1 k acc _ h => simp [runFrom_of_ended h]
  | case2 k acc c p h hc ih => rw [runFrom_of_constituent h hc, ← ih, List.cons_append]
  | case3 k acc c p h hc => simp [runFrom_of_other h (Bool.eq_false_iff.2 hc)]

theorem run_of_ended {k : Cursor φ} {pending : Option FeedFailure}
    (h : k.lookahead = .ended pending) : k.run = ([], k) :=
  runFrom_of_ended h []

theorem run_of_constituent {k : Cursor φ} {c : Char} {p : Position}
    (h : k.lookahead = .char c p) (hc : isConstituent c = true) :
    k.run = (c :: k.advance.run.1, k.advance.run.2) :=
  (runFrom_of_constituent h hc []).trans (runFrom_append _ [] [c])

theorem run_of_other {k : Cursor φ} {c : Char} {p : Position}
    (h : k.lookahead = .char c p) (hc : isConstituent c = false) : k.run = ([], k) :=
  runFrom_of_other h hc []

theorem weight_run_le (k : Cursor φ) : k.run.2.weight ≤ k.weight := by
  unfold run
  generalize ([] : List Char) = acc
  fun_induction runFrom k acc with
  | case1 => exact Nat.le_refl _
  | case2 k _ _ _ _ _ ih => exact Nat.le_trans ih k.weight_advance_le
  | case3 => exact Nat.le_refl _

/-! ## One lexeme -/

/-- `check_source` (lines 246–252), with the failure `f` that is reported if it finds none: where
    the scan stopped, a failure of the feed may wait. -/
def failureOr (k : Cursor φ) (f : Failure) : Failure :=
  match k.lookahead with
  | .ended (some g) => .feed g
  | _ => f

/-- `read_string` (lines 303–343): reads the string whose opening quote is at the cursor and stands
    at `start`. -/
def string (k : Cursor φ) (start : Position) : Outcome × Cursor φ :=
  match k.advance.stringBody with
  | (some cs, k') => (.token (.string (String.ofList ('"' :: (cs ++ ['"'])))), k')
  | (none, k') => (.failed (k'.failureOr (.unterminated start)), k'.close)

/-- `read_symbol` (lines 345–363): reads the symbol that begins at the cursor; `next` is the
    position of the character after the lookahead. -/
def symbol (k : Cursor φ) (next : Position) : Outcome × Cursor φ :=
  match k.run with
  | ([], k') => (.failed (k'.failureOr (.noSymbol next)), k'.close)
  | (c :: cs, k') => (.token (.symbol (String.ofList (c :: cs))), k')

/-- `scan_token` after its loop (lines 258–261 and 269–288): reads the lexeme that begins at the
    cursor. At the end of the input a failure that waits there is reported, once. -/
def lexeme (k : Cursor φ) : Outcome × Cursor φ :=
  match k.lookahead with
  | .ended none => (.finished, k)
  | .ended (some f) => (.failed (.feed f), k.close)
  | .char '(' _ => (.token .lparen, k.advance)
  | .char ')' _ => (.token .rparen, k.advance)
  | .char '\'' _ => (.token .quote, k.advance)
  | .char '"' start => k.string start
  | .char c p =>
    if isConstituent c = true then k.symbol (p.after c)
    else (.failed (.unexpected c p), k.close)

theorem weight_string_lt {k : Cursor φ} {start p : Position} {c : Char} {t : Token}
    (h : k.lookahead = .char c p) (ht : (k.string start).1 = .token t) :
    (k.string start).2.weight < k.weight := by
  have hw := k.advance.weight_stringBody_le
  unfold string at ht ⊢
  split <;> simp_all
  exact Nat.lt_of_le_of_lt hw (weight_advance_lt h)

theorem weight_symbol_lt {k : Cursor φ} {next p : Position} {c : Char}
    (h : k.lookahead = .char c p) (hc : isConstituent c = true) :
    (k.symbol next).2.weight < k.weight := by
  have hw := Nat.lt_of_le_of_lt k.advance.weight_run_le (weight_advance_lt h)
  unfold symbol
  rw [run_of_constituent h hc]
  exact hw

theorem weight_lexeme_lt {k : Cursor φ} {t : Token} (h : k.lexeme.1 = .token t) :
    k.lexeme.2.weight < k.weight := by
  unfold lexeme at h ⊢
  split
  case h_1 h' => simp [h'] at h
  case h_2 h' => simp [h'] at h
  case h_3 h' => exact weight_advance_lt h'
  case h_4 h' => exact weight_advance_lt h'
  case h_5 h' => exact weight_advance_lt h'
  case h_6 h' =>
    rw [h'] at h
    exact weight_string_lt h' h
  case h_7 _ c p _ _ _ _ h' =>
    by_cases hc : isConstituent c = true
    · rw [if_pos hc]
      exact weight_symbol_lt h' hc
    · simp only [h', if_neg hc] at h
      cases h

end Cursor

end LispLexer
