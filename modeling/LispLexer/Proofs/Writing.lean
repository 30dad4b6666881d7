import LispLexer.Proofs.Completion
import LispLexer.Proofs.Driving
import LispLexer.Proofs.Respelling

/-!
# Writing tokens down

A lexer hands out well-formed tokens only, and every list of well-formed tokens can be written down
so that it is read back. In the written form of a string a backslash protects each quote and each
backslash, and nothing else. The text of a well-formed token tells the token, so tokens can be
compared by their texts.

* `Token.WellFormed`, `Token.written`: the tokens, and how they are written.
* `Lexer.wellFormed_of_given`: what a lexer hands out is well formed.
* `Token.ofText_text`: a well-formed token is determined by its text.
* `lex_writtenRow`: written tokens are read back.
* `Token.produced_and_written`: the tokens that lexers produce, and those that can be written down.
-/

namespace LispLexer

open Text Grammar

universe u v

namespace Token

/-! ## Well-formed tokens -/

/-- A string has its text between quotes, and a symbol is made of constituents, the first of which
    opens neither a comment nor a string. -/
def WellFormed : Token → Prop
  | .string x => ∃ cs, x.toList = '"' :: (cs ++ ['"'])
  | .symbol x => ∃ c w, x.toList = c :: w ∧ c ≠ ';' ∧ c ≠ '"' ∧
      ∀ d ∈ c :: w, isConstituent d = true
  | _ => True

/-- The token with a text, told by the first character and the length of the text. -/
def ofText (x : String) : Token :=
  match x.toList with
  | ['('] => lparen
  | [')'] => rparen
  | ['\''] => quote
  | '"' :: _ => string x
  | _ => symbol x

theorem ofText_text {t : Token} (h : t.WellFormed) : ofText t.text = t := by
  cases t with
  | lparen => rfl
  | rparen => rfl
  | quote => rfl
  | string x =>
    obtain ⟨cs, hx⟩ := h
    rw [text, ofText, hx]
    rfl
  | symbol x =>
    obtain ⟨c, w, hx, -, hq, hw⟩ := h
    have hc := isConstituent_iff.1 (hw c List.mem_cons_self)
    rw [text, ofText, hx]
    split <;> simp_all

/-- Well-formed tokens with the same text are the same. -/
theorem WellFormed.eq_of_text_eq {t t' : Token} (h : t.WellFormed) (h' : t'.WellFormed)
    (he : t.text = t'.text) : t = t' := by
  rw [← ofText_text h, he, ofText_text h']

theorem contents?_of_toList {x : String} {cs : List Char} (h : x.toList = '"' :: (cs ++ ['"'])) :
    (string x).contents? = some (String.ofList cs) := by
  rw [← String.ofList_toList (s := x), h, contents?_string]

/-! ## The written form -/

/-- A character as it is written in a string. -/
def protect (c : Char) : List Char := if c = '"' ∨ c = '\\' then ['\\', c] else [c]

/-- A token as it is written. -/
def written : Token → List Char
  | .string x => '"' :: (x.toList.tail.dropLast.flatMap protect ++ ['"'])
  | t => t.text.toList

/-- Tokens as they are written, with the character `b` between neighbours. -/
def writtenRow (b : Char) (ts : List Token) : String :=
  String.ofList ([b].intercalate (ts.map written))

end Token

/-! ## Lexemes -/

namespace Grammar

theorem Body.of_protect (cs : List Char) : Body (cs.flatMap Token.protect) cs := by
  induction cs with
  | nil => exact .nil
  | cons c cs ih =>
    rw [List.flatMap_cons, Token.protect]
    split
    · next hc =>
      have hne : c ≠ 'n' ∧ c ≠ 't' := by rcases hc with rfl | rfl <;> decide
      exact .escape hne.1 hne.2 ih
    · next hc =>
      obtain ⟨hq, hb⟩ := not_or.1 hc
      exact .plain hq hb ih

/-- What is written is a spelling of the token. -/
theorem lexeme_written {t : Token} (h : t.WellFormed) : Lexeme t t.written := by
  cases t with
  | lparen => exact .lparen
  | rparen => exact .rparen
  | quote => exact .quote
  | string x =>
    obtain ⟨cs, hx⟩ := h
    have hl := Lexeme.string (.of_protect cs)
    rw [← hx, String.ofList_toList] at hl
    simpa [Token.written, hx] using hl
  | symbol x =>
    obtain ⟨c, w, hx, hs, hq, hw⟩ := h
    have hl := Lexeme.symbol hs hq hw
    rw [← hx, String.ofList_toList] at hl
    exact hl

/-- What has a spelling is well formed. -/
theorem Lexeme.wellFormed {t : Token} {w : List Char} (h : Lexeme t w) : t.WellFormed := by
  cases h with
  | symbol hs hq hw => exact ⟨_, _, String.toList_ofList, hs, hq, hw⟩
  | string _ => exact ⟨_, String.toList_ofList⟩
  | _ => trivial

end Grammar

/-! ## Tokens handed out -/

namespace Lexer

variable {φ : Type u} [Feed φ]

theorem wellFormed_of_mem_run (l : Lexer φ) : ∀ t ∈ l.run.tokens, t.WellFormed := by
  obtain ⟨p, cs, z, h⟩ := l.cursor.exists_faces
  obtain ⟨ps, rest, hp, hr⟩ := exists_pieces cs
  rw [tokens_run hp hr h]
  intro t ht
  obtain ⟨q, hq, rfl⟩ := List.mem_map.1 ht
  exact (hp.lexeme_of_mem q hq).wellFormed

/-- An operation hands out tokens of the run. -/
theorem mem_run_of_given {l : Lexer φ} {c : Call} {t : Token} (h : t ∈ (c.run l).value.given) :
    t ∈ l.run.tokens := by
  by_cases hc : c = .collect
  · subst hc
    have hv : (Call.collect.run l).value = .collected l.collect.value := rfl
    rw [hv, collect_value] at h
    cases hf : l.run.failure with
    | none =>
      rw [hf] at h
      exact h
    | some f =>
      rw [hf] at h
      cases h
  · rw [Call.given_run l hc, tokens_reads] at h
    exact List.mem_of_mem_take h

/-- Whatever operations are called, the tokens that they hand out are well formed. -/
theorem wellFormed_of_given (l : Lexer φ) (calls : List Call) :
    ∀ t ∈ (l.answers calls).flatMap Answer.given, t.WellFormed := by
  induction calls generalizing l with
  | nil => exact fun t ht => nomatch ht
  | cons c calls ih =>
    intro t ht
    rw [answers, List.flatMap_cons, List.mem_append] at ht
    rcases ht with ht | ht
    · exact l.wellFormed_of_mem_run t (mem_run_of_given ht)
    · exact ih _ t ht

end Lexer

/-- Some lexer, on a feed of any kind and in any state, hands the token out. -/
def Token.Produced (t : Token) : Prop :=
  ∃ (φ : Type u) (_ : Feed φ) (l : Lexer φ) (calls : List Call),
    t ∈ (l.answers calls).flatMap Answer.given

theorem Token.Produced.wellFormed {t : Token} (h : Produced.{u} t) : t.WellFormed := by
  obtain ⟨φ, _, l, calls, ht⟩ := h
  exact l.wellFormed_of_given calls t ht

/-! ## Reading what was written -/

/-- Well-formed tokens, written with one blank between neighbours, are read back. -/
theorem lex_writtenRow {b : Char} {ts : List Token} (hb : isBlank b = true)
    (h : ∀ t ∈ ts, t.WellFormed) : lex (Token.writtenRow b ts) = .ok ts := by
  obtain ⟨ps, hp, rfl⟩ := exists_pieces_intercalate hb fun t ht => lexeme_written (h t ht)
  refine lex_of_finalGap ?_ (.closed .nil)
  rwa [Token.writtenRow, String.toList_ofList]

/-- Lexers produce well-formed tokens only, and every list of well-formed tokens is what the lexer
    reads from their written forms, with any one blank between neighbours. So two tokens that were
    produced with the same text are the same token, and the contents of a string that was produced
    are the characters between its quotes. A source that promises no end is a feed for a number of
    calls: as long as no more are made, the tokens that it gives are produced, and are the same for
    any greater number. -/
theorem Token.produced_and_written :
    (∀ t, Produced.{u} t → t.WellFormed) ∧
    (∀ (b : Char) (ts : List Token), isBlank b = true → (∀ t ∈ ts, t.WellFormed) →
      lex (writtenRow b ts) = .ok ts) ∧
    (∀ t t', Produced.{u} t → Produced.{v} t' → t.text = t'.text → t = t') ∧
    (∀ x, Produced.{u} (.string x) →
      ∃ cs, x.toList = '"' :: (cs ++ ['"']) ∧ (string x).contents? = some (String.ofList cs)) ∧
    ∀ (σ : Type u) (next : σ → Pull Char × σ) (s : σ) (n m : ℕ) (calls : List Call),
      ((Lexer.counting (Unbounded.mk next s n)).afterCalls calls).feed.pulled ≤ n →
        (Lexer.counting (Unbounded.mk next s n)).answers calls
            = (Lexer.counting (Unbounded.mk next s (n + m))).answers calls ∧
          ∀ t ∈ ((Lexer.counting (Unbounded.mk next s n)).answers calls).flatMap Answer.given,
            Produced.{u} t := by
  refine ⟨fun t h => h.wellFormed, fun b ts => lex_writtenRow, ?_, ?_, ?_⟩
  · intro t t' h h' he
    exact h.wellFormed.eq_of_text_eq h'.wellFormed he
  · intro x h
    obtain ⟨cs, hx⟩ := h.wellFormed
    exact ⟨cs, hx, contents?_of_toList hx⟩
  · intro σ next s n m calls h
    exact ⟨(Unbounded.calls_congr h m).1, fun t ht => ⟨_, inferInstance, _, calls, ht⟩⟩

/-- The string of the characters `\n;"`, none of which is a line feed, is written `"\\n;\""`. A text
    and a device that fails after the string both produce it. The endless source produces `ab`, be
    it a feed of four calls or of a thousand. -/
theorem Token.produced_and_written_with_escapes :
    let t := string "\"\\n;\"\""
    let ts := [t, symbol "a\"b;", quote]
    let row := "\"\\\\n;\\\"\"\na\"b;\n'"
    let l := Lexer.ofString row
    let l' : Lexer ByteFeed :=
      { feed := ⟨[.chunk [34, 92, 92, 110, 59, 92, 34, 34], .fault ⟨.other, "unplugged"⟩], 0⟩ }
    (isBlank '\n' = true ∧ (∀ u ∈ ts, u.WellFormed) ∧ lex row = .ok ts) ∧
      t ∈ (l.answers [.next]).flatMap Answer.given ∧
      t ∈ (l'.answers [.read]).flatMap Answer.given ∧ t.WellFormed ∧
      (∀ u ∈ (l'.answers [.read]).flatMap Answer.given, t.text = u.text → t = u) ∧
      (∃ cs, "\"\\n;\"\"".toList = '"' :: (cs ++ ['"']) ∧
        t.contents? = some (String.ofList cs)) ∧
      (Lexer.counting (Unbounded.mk endlessSource 0 4)).answers [.read, .next]
          = (Lexer.counting (Unbounded.mk endlessSource 0 1000)).answers [.read, .next] ∧
        Produced.{0} (symbol "ab") := by
  intro t ts row l l'
  obtain ⟨hwell, hread, hsame, hcontents, hsource⟩ := produced_and_written.{0, 0}
  have ht : t ∈ (l.answers [.next]).flatMap Answer.given := by decide +kernel
  have ht' : t ∈ (l'.answers [.read]).flatMap Answer.given := by decide +kernel
  have hp : Produced t := ⟨TextFeed, inferInstance, l, [.next], ht⟩
  have hp' : ∀ u ∈ (l'.answers [.read]).flatMap Answer.given, t.text = u.text → t = u :=
    fun u hu => hsame t u hp ⟨ByteFeed, inferInstance, l', [.read], hu⟩
  have hts : ∀ u ∈ ts, u.WellFormed := by
    have hsymbol : (symbol "a\"b;").WellFormed :=
      ⟨'a', ['"', 'b', ';'], by decide, by decide, by decide, List.all_eq_true.1 (by decide)⟩
    simp only [ts, List.forall_mem_cons]
    exact ⟨hwell t hp, hsymbol, trivial, nofun⟩
  have hrow : writtenRow '\n' ts = row := by decide
  have hok : lex row = .ok ts := hrow ▸ hread '\n' ts (by decide) hts
  have hpulled :
      ((Lexer.counting (Unbounded.mk endlessSource 0 4)).afterCalls [.read, .next]).feed.pulled
        ≤ 4 := by
    decide +kernel
  obtain ⟨hanswers, hproduced⟩ := hsource ℕ endlessSource 0 4 996 _ hpulled
  exact ⟨⟨by decide, hts, hok⟩, ht, ht', hwell t hp, hp', hcontents _ hp, hanswers,
    hproduced _ (by decide +kernel)⟩

end LispLexer
