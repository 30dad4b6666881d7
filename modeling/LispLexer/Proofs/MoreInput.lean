import LispLexer.Proofs.Accounting
import LispLexer.Proofs.Lookahead

/-!
# When more input arrives

Tokens that have been read stay when more bytes are put behind the input, however the first bytes
end: between tokens, inside a token, inside a character, or with bytes that encode nothing. Only a
symbol at the very end of the text may grow.

* `ByteFeed.exists_gives_append`: the characters of some bytes are given first when more follow.
* `goesOn_tokensOf_append`: the tokens of a text when more text follows.
* `ByteFeed.goesOn_all_append`: the tokens of some bytes when more bytes follow.
-/

namespace LispLexer

open Text Utf8 Grammar

/-! ## Texts -/

/-- The tokens `us` go on from the tokens `ts`: these are the first of them, but the last one of
    these may be a symbol that has grown. -/
structure Token.GoesOn (ts us : List Token) : Prop where
  /-- All tokens but the last stay. -/
  dropLast : ts.dropLast <+: us
  /-- The last one stays, too, if it is no symbol. -/
  last : ∀ t, ts.getLast? = some t → (∀ w, t ≠ .symbol w) → ts <+: us
  /-- A symbol in the last place stays or grows. -/
  symbol : ∀ w, ts.getLast? = some (.symbol w) →
    ∃ w', us[ts.length - 1]? = some (.symbol w') ∧ w.toList <+: w'.toList

theorem Token.GoesOn.of_begins {ts us : List Token} (h : ts <+: us) : GoesOn ts us where
  dropLast := ts.dropLast_prefix.trans h
  last _ _ _ := h
  symbol w hw := by
    obtain ⟨init, rfl⟩ := List.getLast?_eq_some_iff.1 hw
    obtain ⟨vs, rfl⟩ := h
    exact ⟨w, by simp, List.prefix_refl _⟩

theorem Token.GoesOn.of_grown {init us : List Token} {w v : List Char}
    (h : init ++ [.symbol (String.ofList (w ++ v))] <+: us) :
    GoesOn (init ++ [.symbol (String.ofList w)]) us where
  dropLast := by
    rw [List.dropLast_concat]
    exact (List.prefix_append _ _).trans h
  last t ht hne := by
    rw [List.getLast?_concat, Option.some.injEq] at ht
    exact absurd ht.symm (hne _)
  symbol x hx := by
    rw [List.getLast?_concat, Option.some.injEq, Token.symbol.injEq] at hx
    obtain ⟨vs, rfl⟩ := h
    refine ⟨String.ofList (w ++ v), by simp, ?_⟩
    rw [← hx, String.toList_ofList, String.toList_ofList]
    exact List.prefix_append w v

/-- Some pieces at the beginning of a text give its first tokens. -/
theorem tokens_prefix_of_pieces {s : String} {rest : List Char} {ps : List Piece}
    (hp : Pieces rest s.toList ps) : ps.map Piece.token <+: tokensOf s := by
  rw [Lexer.tokens_of_pieces hp]
  exact List.take_prefix _ _

/-- The tokens of a text stay when more text follows, up to a symbol at its end. -/
theorem goesOn_tokensOf_append (cs ds : List Char) :
    Token.GoesOn (tokensOf (String.ofList cs)) (tokensOf (String.ofList (cs ++ ds))) := by
  obtain ⟨ps, rest, hp, hr⟩ := exists_pieces cs
  have hs := Lexer.faces_ofString (String.ofList cs)
  rw [String.toList_ofList] at hs
  have htokens : tokensOf (String.ofList cs) = ps.map Piece.token :=
    Lexer.tokens_run hp hr hs
  rw [htokens]
  rcases hp.exists_grown ds with ⟨r, hp'⟩ | ⟨qs, g, w, v, r, rfl, hp'⟩
  · rw [← String.toList_ofList (l := cs ++ ds)] at hp'
    exact .of_begins (tokens_prefix_of_pieces hp')
  · rw [← String.toList_ofList (l := cs ++ ds)] at hp'
    have hpre := tokens_prefix_of_pieces hp'
    rw [List.map_append] at hpre ⊢
    exact .of_grown hpre

/-! ## Bytes -/

namespace ByteFeed

/-- The characters that the first bytes encode are given first, whatever bytes follow. -/
theorem exists_gives_append {s : ByteFeed} {cs : List Char} {bs : List UInt8}
    (h : Delivers s.deliveries (encode cs ++ bs)) :
    ∃ ds z, Feed.Gives s (cs ++ ds) (.stop z) := by
  induction cs generalizing s with
  | nil => exact Feed.exists_gives s
  | cons c cs ih =>
    rw [encode_cons, List.append_assoc] at h
    obtain ⟨s', hp, hd⟩ := pull_of_encodeChar h
    obtain ⟨ds, z, hg⟩ := ih hd
    have hp' : Feed.pull s = (.item c, s') := hp
    refine ⟨ds, z, ?_⟩
    rw [List.cons_append, Feed.gives_cons, hp']
    exact ⟨rfl, hg⟩

theorem all_of_gives {s : ByteFeed} {cs : List Char} {z : Option FeedError}
    (h : Feed.Gives s cs (.stop z)) :
    (Lexer.all { feed := s }).value = tokensOf (String.ofList cs) :=
  Lexer.tokens_run_eq_tokensOf (l := { feed := s }) (Cursor.faces_pull h {})

/-- The tokens read from some bytes stay when more bytes follow. The bytes may be any, and a device
    may deliver both in any chunks. -/
theorem goesOn_all_append {bs es : List UInt8} {s s' : ByteFeed} (h : Delivers s.deliveries bs)
    (h' : Delivers s'.deliveries (bs ++ es)) :
    Token.GoesOn (Lexer.all { feed := s }).value (Lexer.all { feed := s' }).value := by
  obtain ⟨cs, z, r, hg, rfl, -, -⟩ := exists_gives_encode h
  rw [List.append_assoc] at h'
  obtain ⟨ds, z', hg'⟩ := exists_gives_append h'
  rw [all_of_gives hg, all_of_gives hg']
  exact goesOn_tokensOf_append cs ds

/-- Bytes that end inside a character give a symbol that grows when the rest of it arrives, here
    in another chunk and after an interruption. -/
theorem goesOn_all_inside_character :
    let s : ByteFeed := { deliveries := [.chunk [0x28, 0x78, 0xCE]] }
    let s' : ByteFeed :=
      { deliveries := [.chunk [0x28, 0x78, 0xCE], .fault ⟨.interrupted, "signal"⟩, .chunk [0xBB]] }
    Delivers s.deliveries [0x28, 0x78, 0xCE] ∧
      Delivers s'.deliveries ([0x28, 0x78, 0xCE] ++ [0xBB]) ∧
      (Lexer.all { feed := s }).value = [.lparen, .symbol "x"] ∧
      [.lparen] <+: (Lexer.all { feed := s' }).value ∧
      ∃ w, (Lexer.all { feed := s' }).value[1]? = some (.symbol w) ∧ "x".toList <+: w.toList := by
  intro s s'
  have hs : Delivers s.deliveries [0x28, 0x78, 0xCE] := .chunk [0x28, 0x78, 0xCE] .nil
  have hs' : Delivers s'.deliveries ([0x28, 0x78, 0xCE] ++ [0xBB]) :=
    .chunk [0x28, 0x78, 0xCE] (.interrupted rfl (.chunk [0xBB] .nil))
  have hall : (Lexer.all { feed := s }).value = [.lparen, .symbol "x"] := by decide +kernel
  have hgoes := goesOn_all_append hs hs'
  rw [hall] at hgoes
  exact ⟨hs, hs', hall, hgoes.dropLast, hgoes.symbol "x" rfl⟩

end ByteFeed

end LispLexer
