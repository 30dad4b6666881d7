import LispLexer.Text.CharClass
import LispLexer.Token.Basic
import Mathlib.Data.List.TakeWhile

/-!
# The lexical grammar

Which texts spell which tokens, said without a lexer. A text is a row of pieces, each a gap and a
lexeme, and then a rest. It is well formed if the rest is a gap, in which the last comment may lack
its line feed. The only other rest that can be left is a gap and the beginning of a string that
never ends.

* `Gap`, `FinalGap`, `Body`, `Lexeme`: the parts of a text.
* `Pieces`: the row of pieces at the beginning of a text.
* `exists_pieces`: every text is a row of pieces and one of the two rests.
-/

namespace LispLexer.Grammar

open Text

/-! ## Gaps -/

/-- Blanks and complete comments, in any order. -/
inductive Gap : List Char → Prop
  | nil : Gap []
  | blank {c : Char} {g : List Char} : isBlank c = true → Gap g → Gap (c :: g)
  | comment {body g : List Char} : '\n' ∉ body → Gap g → Gap (';' :: (body ++ '\n' :: g))

/-- A gap that may be followed by one comment without a line feed. -/
inductive FinalGap : List Char → Prop
  | closed {g : List Char} : Gap g → FinalGap g
  | cut {g body : List Char} : Gap g → '\n' ∉ body → FinalGap (g ++ ';' :: body)

/-- A character that is neither part of a gap nor opens one. -/
def Opens (c : Char) : Prop := isBlank c = false ∧ c ≠ ';'

/-- A comment ends with its line feed. -/
theorem comment_append (body r : List Char) :
    ';' :: (body ++ '\n' :: r) = (';' :: (body ++ ['\n'])) ++ r := by
  simp

theorem FinalGap.blank {c : Char} {g : List Char} (hc : isBlank c = true) (h : FinalGap g) :
    FinalGap (c :: g) := by
  cases h with
  | closed hg => exact .closed (.blank hc hg)
  | cut hg hb => exact .cut (.blank hc hg) hb

theorem FinalGap.comment {body g : List Char} (hb : '\n' ∉ body) (h : FinalGap g) :
    FinalGap (';' :: (body ++ '\n' :: g)) := by
  cases h with
  | closed hg => exact .closed (.comment hb hg)
  | cut hg hb' =>
    have h := FinalGap.cut (.comment hb hg) hb'
    simpa using h

/-- A gap at the beginning of a text goes on to the end of the text or to the first character
    that is not part of it. -/
theorem exists_gap (cs : List Char) :
    FinalGap cs ∨ ∃ g c r, cs = g ++ c :: r ∧ Gap g ∧ Opens c := by
  induction h : cs.length using Nat.strongRecOn generalizing cs with
  | _ n ih =>
    cases cs with
    | nil => exact .inl (.closed .nil)
    | cons c cs =>
      rw [List.length_cons] at h
      by_cases hb : isBlank c = true
      · rcases ih cs.length (by omega) cs rfl with hg | ⟨g, d, r, rfl, hg, hd⟩
        · exact .inl (hg.blank hb)
        · exact .inr ⟨c :: g, d, r, rfl, .blank hb hg, hd⟩
      · by_cases hc : c = ';'
        · subst hc
          by_cases hn : '\n' ∈ cs
          · obtain ⟨body, rest, rfl, hbody⟩ := List.eq_append_cons_of_mem hn
            have hlt : rest.length < n := by simp at h; omega
            rcases ih rest.length hlt rest rfl with hg | ⟨g, d, r, rfl, hg, hd⟩
            · exact .inl (hg.comment hbody)
            · exact .inr ⟨';' :: (body ++ '\n' :: g), d, r, by simp, .comment hbody hg, hd⟩
          · exact .inl (.cut (g := []) .nil hn)
        · exact .inr ⟨[], c, cs, rfl, .nil, Bool.eq_false_iff.2 hb, hc⟩

/-! ## Lexemes -/

/-- The body of a string, between its quotes, and the characters that it stands for. It is made of
    plain characters and of escapes. -/
inductive Body : List Char → List Char → Prop
  | nil : Body [] []
  | plain {c : Char} {raw cs : List Char} : c ≠ '"' → c ≠ '\\' → Body raw cs →
      Body (c :: raw) (c :: cs)
  | newline {raw cs : List Char} : Body raw cs → Body ('\\' :: 'n' :: raw) ('\n' :: cs)
  | tab {raw cs : List Char} : Body raw cs → Body ('\\' :: 't' :: raw) ('\t' :: cs)
  | escape {c : Char} {raw cs : List Char} : c ≠ 'n' → c ≠ 't' → Body raw cs →
      Body ('\\' :: c :: raw) (c :: cs)

/-- The beginning of a body that never ends: all its units are complete, or the last one is a
    backslash with nothing after it. -/
inductive OpenBody : List Char → Prop
  | whole {raw cs : List Char} : Body raw cs → OpenBody raw
  | dangling {raw cs : List Char} : Body raw cs → OpenBody (raw ++ ['\\'])

/-- The spellings of a token. -/
inductive Lexeme : Token → List Char → Prop
  | lparen : Lexeme .lparen ['(']
  | rparen : Lexeme .rparen [')']
  | quote : Lexeme .quote ['\'']
  | symbol {c : Char} {w : List Char} : c ≠ ';' → c ≠ '"' →
      (∀ d ∈ c :: w, isConstituent d = true) → Lexeme (.symbol (String.ofList (c :: w))) (c :: w)
  | string {raw cs : List Char} : Body raw cs →
      Lexeme (.string (String.ofList ('"' :: (cs ++ ['"'])))) ('"' :: (raw ++ ['"']))

/-- A symbol may not be followed by a constituent, which would belong to it. -/
def Separated : Token → List Char → Prop
  | .symbol _, c :: _ => isConstituent c = false
  | _, _ => True

/-- An escape is a backslash and any one character. -/
theorem Body.of_escape {raw cs : List Char} (c : Char) (h : Body raw cs) :
    ∃ d, Body ('\\' :: c :: raw) (d :: cs) := by
  by_cases hn : c = 'n'
  · exact ⟨'\n', hn ▸ h.newline⟩
  · by_cases ht : c = 't'
    · exact ⟨'\t', ht ▸ h.tab⟩
    · exact ⟨c, h.escape hn ht⟩

/-- A body goes on to the first quote that no backslash protects, or has no end. -/
theorem exists_body (cs : List Char) :
    OpenBody cs ∨ ∃ raw ds r, cs = raw ++ '"' :: r ∧ Body raw ds := by
  induction h : cs.length using Nat.strongRecOn generalizing cs with
  | _ n ih =>
    cases cs with
    | nil => exact .inl (.whole .nil)
    | cons c cs =>
      rw [List.length_cons] at h
      by_cases hq : c = '"'
      · exact .inr ⟨[], [], cs, hq ▸ rfl, .nil⟩
      · by_cases hb : c = '\\'
        · subst hb
          cases cs with
          | nil => exact .inl (.dangling .nil)
          | cons e cs =>
            rw [List.length_cons] at h
            rcases ih cs.length (by omega) cs rfl with ho | ⟨raw, ds, r, rfl, hr⟩
            · cases ho with
              | whole hr =>
                obtain ⟨d, hd⟩ := hr.of_escape e
                exact .inl (.whole hd)
              | dangling hr =>
                obtain ⟨d, hd⟩ := hr.of_escape e
                exact .inl (.dangling hd)
            · obtain ⟨d, hd⟩ := hr.of_escape e
              exact .inr ⟨'\\' :: e :: raw, d :: ds, r, rfl, hd⟩
        · rcases ih cs.length (by omega) cs rfl with ho | ⟨raw, ds, r, rfl, hr⟩
          · cases ho with
            | whole hr => exact .inl (.whole (.plain hq hb hr))
            | dangling hr => exact .inl (.dangling (.plain hq hb hr))
          · exact .inr ⟨c :: raw, c :: ds, r, rfl, .plain hq hb hr⟩

/-- A symbol is separated from what follows the longest run of constituents. -/
theorem separated_dropWhile (t : Token) (cs : List Char) :
    Separated t (cs.dropWhile isConstituent) := by
  unfold Separated
  split
  · next h =>
    have hne : cs.dropWhile isConstituent ≠ [] := by simp [h]
    have hd := List.head_dropWhile_not isConstituent hne
    simpa [h] using hd
  · trivial

/-- What opens no gap begins a lexeme or a string that has no end. -/
theorem exists_lexeme {c : Char} (hc : Opens c) (cs : List Char) :
    (c = '"' ∧ OpenBody cs) ∨
      ∃ t w r, c :: cs = w ++ r ∧ Lexeme t w ∧ Separated t r := by
  by_cases hk : isConstituent c = true
  · by_cases hq : c = '"'
    · subst hq
      rcases exists_body cs with ho | ⟨raw, ds, r, rfl, hr⟩
      · exact .inl ⟨rfl, ho⟩
      · exact .inr ⟨_, _, r, by simp, .string hr, trivial⟩
    · refine .inr ⟨.symbol (String.ofList (c :: cs.takeWhile isConstituent)),
        c :: cs.takeWhile isConstituent, cs.dropWhile isConstituent, ?_, ?_, ?_⟩
      · rw [List.cons_append, List.takeWhile_append_dropWhile]
      · refine .symbol hc.2 hq ?_
        intro d hd
        rcases List.mem_cons.1 hd with rfl | hd
        · exact hk
        · exact List.mem_takeWhile_imp hd
      · exact separated_dropWhile _ cs
  · have hm : c = '(' ∨ c = ')' ∨ c = '\'' := by
      by_contra hm
      simp only [not_or] at hm
      exact hk (isConstituent_iff.2 ⟨hc.1, hm⟩)
    rcases hm with rfl | rfl | rfl
    · exact .inr ⟨.lparen, ['('], cs, rfl, .lparen, trivial⟩
    · exact .inr ⟨.rparen, [')'], cs, rfl, .rparen, trivial⟩
    · exact .inr ⟨.quote, ['\''], cs, rfl, .quote, trivial⟩

/-! ## Texts -/

/-- A token, its spelling, and the gap before it. -/
structure Piece where
  gap : List Char
  lexeme : List Char
  token : Token

/-- The text begins with these pieces, and `rest` is left. -/
inductive Pieces (rest : List Char) : List Char → List Piece → Prop
  | nil : Pieces rest rest []
  | cons {g w cs : List Char} {t : Token} {ps : List Piece} : Gap g → Lexeme t w →
      Separated t cs → Pieces rest cs ps → Pieces rest (g ++ (w ++ cs)) (⟨g, w, t⟩ :: ps)

/-- A gap, and after it the beginning of a string that has no end. -/
inductive OpenString : List Char → Prop
  | mk {g body : List Char} : Gap g → OpenBody body → OpenString (g ++ '"' :: body)

theorem Lexeme.ne_nil {t : Token} {w : List Char} (h : Lexeme t w) : w ≠ [] := by
  cases h <;> simp

/-- Every text is a row of pieces, and after it a gap or a string that has no end. -/
theorem exists_pieces (cs : List Char) :
    ∃ ps rest, Pieces rest cs ps ∧ (FinalGap rest ∨ OpenString rest) := by
  induction h : cs.length using Nat.strongRecOn generalizing cs with
  | _ n ih =>
    rcases exists_gap cs with hg | ⟨g, c, r, rfl, hg, hc⟩
    · exact ⟨[], cs, .nil, .inl hg⟩
    · rcases exists_lexeme hc r with ⟨rfl, ho⟩ | ⟨t, w, r', hw, hl, hs⟩
      · exact ⟨[], _, .nil, .inr ⟨hg, ho⟩⟩
      · have hlt : r'.length < n := by
          have hpos := List.length_pos_iff.2 hl.ne_nil
          rw [hw] at h
          simp only [List.length_append] at h
          omega
        obtain ⟨ps, rest, hps, hrest⟩ := ih r'.length hlt r' rfl
        exact ⟨⟨g, w, t⟩ :: ps, rest, hw ▸ .cons hg hl hs hps, hrest⟩

end LispLexer.Grammar
