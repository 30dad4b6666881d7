import LispLexer.Gap
import LispLexer.Lexeme
import LispLexer.Proofs.Ahead
import LispLexer.Proofs.Grammar

/-!
# Cursors on the grammar

What each scan of a cursor makes of a text of which the grammar knows the first part. The cursor
afterwards is always given exactly: it is the cursor before, advanced over that part.

* `Cursor.skipGap_append`: a gap is passed as a whole.
* `Cursor.stringBody_append`: a body is read as what it stands for.
* `Cursor.lexeme_of_lexeme`: a lexeme is read as its token, whatever comes after it.
* `Cursor.lexeme_of_openBody`: a string that has no end is a failure.
-/

namespace LispLexer.Cursor

open Text Grammar

universe u

variable {φ : Type u} [Feed φ] {k : Cursor φ} {p : Position} {z : Option FeedError}

/-! ## Gaps -/

theorem skipLine_of_line {body r : List Char} (hb : '\n' ∉ body)
    (h : k.Faces p (body ++ '\n' :: r) z) :
    k.skipLine = advance^[body.length + 1] k := by
  induction body generalizing k p with
  | nil => rw [skipLine_of_char h.1, if_pos rfl]; rfl
  | cons c body ih =>
    obtain ⟨hc, hb⟩ := not_or.1 (mt List.mem_cons.2 hb)
    rw [skipLine_of_char h.1, if_neg (Ne.symm hc), ih hb h.2]
    rfl

theorem skipLine_of_rest {body : List Char} (hb : '\n' ∉ body) (h : k.Faces p body z) :
    k.skipLine = advance^[body.length] k := by
  induction body generalizing k p with
  | nil => exact skipLine_of_ended h
  | cons c body ih =>
    obtain ⟨hc, hb⟩ := not_or.1 (mt List.mem_cons.2 hb)
    rw [skipLine_of_char h.1, if_neg (Ne.symm hc), ih hb h.2]
    rfl

/-- A comment is passed with its line feed. -/
theorem skipLine_of_comment {body r : List Char} (hb : '\n' ∉ body)
    (h : k.Faces p ((';' :: (body ++ ['\n'])) ++ r) z) :
    k.skipLine = advance^[(';' :: (body ++ ['\n'])).length] k := by
  have hn : '\n' ∉ ';' :: body := by simp [hb]
  have hline : k.Faces p ((';' :: body) ++ '\n' :: r) z := by simpa using h
  rw [skipLine_of_line hn hline]
  simp

/-- A cursor at a gap goes on as if the gap were not there. -/
theorem skipGap_append {g r : List Char} (hg : Gap g) (h : k.Faces p (g ++ r) z) :
    k.skipGap.2 = (advance^[g.length] k).skipGap.2 := by
  induction hg generalizing k p with
  | nil => rfl
  | blank hc _ ih => rw [skipGap_of_blank h.1 hc, ih h.2]; rfl
  | @comment body g hb _ ih =>
    rw [comment_append, List.append_assoc] at h
    rw [comment_append, List.length_append, Nat.add_comm, Function.iterate_add_apply,
      skipGap_of_comment h.1, skipLine_of_comment hb h, ih h.iterate]

theorem skipGap_of_opens {g r : List Char} {c : Char} (hg : Gap g) (hc : Opens c)
    (h : k.Faces p (g ++ c :: r) z) : k.skipGap.2 = advance^[g.length] k := by
  rw [skipGap_append hg h, skipGap_of_char h.iterate.1 hc.2 hc.1]

theorem skipGap_of_finalGap {g : List Char} (hg : FinalGap g) (h : k.Faces p g z) :
    k.skipGap.2 = advance^[g.length] k := by
  cases hg with
  | closed hg =>
    have h' : k.Faces p (g ++ []) z := by simpa using h
    rw [skipGap_append hg h', skipGap_of_ended h'.iterate]
  | @cut g body hg hb =>
    have hn : '\n' ∉ ';' :: body := by simp [hb]
    have hs := h.iterate
    have he : (advance^[(';' :: body).length] (advance^[g.length] k)).Faces
        ((p.past g).past (';' :: body)) [] z := Faces.iterate (by simpa using hs)
    rw [skipGap_append hg h, skipGap_of_comment hs.1, skipLine_of_rest hn hs,
      skipGap_of_ended he, List.length_append, Nat.add_comm, Function.iterate_add_apply]

/-! ## Strings and symbols -/

/-- A body is read as the characters that it stands for, and the string goes on after it. -/
theorem stringBody_append {raw cs r : List Char} (hb : Body raw cs)
    (h : k.Faces p (raw ++ r) z) :
    k.stringBody = ((advance^[raw.length] k).stringBody.1.map (cs ++ ·),
      (advance^[raw.length] k).stringBody.2) := by
  induction hb generalizing k p with
  | nil => simp
  | plain hq hb _ ih => rw [stringBody_of_char h.1 hq hb, ih h.2]; simp [Function.comp_def]
  | newline _ ih =>
    rw [stringBody_of_escape h.1 h.2.1, ih h.2.2]
    simp [Function.comp_def, unescape]
  | tab _ ih =>
    rw [stringBody_of_escape h.1 h.2.1, ih h.2.2]
    simp [Function.comp_def, unescape]
  | escape hn ht _ ih =>
    rw [stringBody_of_escape h.1 h.2.1, ih h.2.2]
    simp [Function.comp_def, unescape]

theorem stringBody_of_body {raw cs r : List Char} (hb : Body raw cs)
    (h : k.Faces p (raw ++ '"' :: r) z) :
    k.stringBody = (some cs, advance^[raw.length + 1] k) := by
  rw [stringBody_append hb h, stringBody_of_quote h.iterate.1, Function.iterate_succ_apply']
  simp

theorem stringBody_of_openBody {body : List Char} (hb : OpenBody body) (h : k.Faces p body z) :
    k.stringBody = (none, advance^[body.length] k) := by
  cases hb with
  | whole hr =>
    have h' : k.Faces p (body ++ []) z := by simpa using h
    rw [stringBody_append hr h', stringBody_of_ended h'.iterate]
    rfl
  | @dangling raw cs hr =>
    have hs := h.iterate
    rw [stringBody_append hr h, stringBody_of_dangling hs.1 hs.2, List.length_append,
      Nat.add_comm, Function.iterate_add_apply]
    rfl

/-- The run of constituents at a cursor is read up to the first other character. -/
theorem run_of_constituents {w r : List Char} (hw : ∀ d ∈ w, isConstituent d = true)
    (hr : ∀ c ∈ r.head?, isConstituent c = false) (h : k.Faces p (w ++ r) z) :
    k.run = (w, advance^[w.length] k) := by
  induction w generalizing k p with
  | nil =>
    cases r with
    | nil => exact run_of_ended h
    | cons c r => exact run_of_other h.1 (hr c rfl)
  | cons c w ih =>
    obtain ⟨hc, hw⟩ := List.forall_mem_cons.1 hw
    rw [run_of_constituent h.1 hc, ih hw h.2]
    rfl

/-! ## Lexemes -/

theorem lexeme_of_end (h : k.Faces p [] z) :
    k.lexeme = (z.elim .finished fun e => .failed (.feed ⟨p, e⟩), k.close) := by
  obtain ⟨s, a⟩ := k
  rw [faces_nil] at h
  cases z <;> cases h <;> rfl

theorem failureOr_of_end (h : k.Faces p [] z) (f : Failure) :
    k.failureOr f = z.elim f fun e => .feed ⟨p, e⟩ := by
  rw [faces_nil] at h
  cases z <;> simp [failureOr, h]

theorem lexeme_of_constituent {c : Char} (h : k.lookahead = .char c p)
    (hc : isConstituent c = true) (hq : c ≠ '"') : k.lexeme = k.symbol (p.after c) := by
  obtain ⟨-, hl, hr, ha⟩ := isConstituent_iff.1 hc
  unfold lexeme
  rw [h]
  split <;> simp_all

/-- A lexeme is read as its token. -/
theorem lexeme_of_lexeme {t : Token} {w r : List Char} (hl : Lexeme t w) (hs : Separated t r)
    (h : k.Faces p (w ++ r) z) : k.lexeme = (.token t, advance^[w.length] k) := by
  cases hl with
  | lparen => simp only [lexeme, h.1]; rfl
  | rparen => simp only [lexeme, h.1]; rfl
  | quote => simp only [lexeme, h.1]; rfl
  | @symbol c w _ hq hw =>
    have hr : ∀ d ∈ r.head?, isConstituent d = false := by
      intro d hd
      cases r with
      | nil => cases hd
      | cons e r => cases hd; exact hs
    have hc : isConstituent c = true := hw c List.mem_cons_self
    rw [lexeme_of_constituent h.1 hc hq, symbol, run_of_constituents hw hr h]
  | @string raw cs hb =>
    have h' : k.advance.Faces (p.after '"') (raw ++ '"' :: r) z := by simpa using h.2
    simp only [lexeme, h.1, string, stringBody_of_body hb h']
    simp [Function.iterate_succ_apply]

/-- A string without an end is a failure: that of the feed if there is one. -/
theorem lexeme_of_openBody {body : List Char} (hb : OpenBody body)
    (h : k.Faces p ('"' :: body) z) :
    k.lexeme = (.failed (z.elim (.unterminated p) fun e => .feed ⟨p.past ('"' :: body), e⟩),
      (advance^[body.length + 1] k).close) := by
  have he : (advance^[body.length] k.advance).Faces ((p.after '"').past body) [] z :=
    Faces.iterate (by simpa using h.2)
  simp only [lexeme, h.1, string, stringBody_of_openBody hb h.2, failureOr_of_end he]
  rfl

end LispLexer.Cursor
