import LispLexer.Proofs.Decoding
import LispLexer.Proofs.Positions
import LispLexer.Proofs.Quoting
import Mathlib.Data.List.Forall2
import Mathlib.Data.List.Sort

/-!
# The log as a record

Taking all tokens tells a log, at the most detailed level, of every token and of every comment that
begins in the text, in the order in which they begin, and of nothing else but the failure at the
end, if there is one. A less detailed log takes the failure only, or nothing. What it is told of a
token tells the token.

* `Record`: the events of what begins in a text, in order.
* `Record.unique`: a text has one record.
* `Record.append`: the record of a text is made piece by piece.
* `Lexer.exists_record_run`: a run tells the record of the text ahead.
* `ByteFeed.recording_of_delivers`: what a log is told when all tokens are taken from some bytes.
-/

namespace LispLexer

open Text Grammar

universe u

/-! ## Tokens in a text -/

namespace Grammar

/-- The token begins at the offset. -/
def TokenAt (cs : List Char) (o : ℕ) (t : Token) : Prop :=
  Boundary cs o ∧ ∃ w r, cs.drop o = w ++ r ∧ Lexeme t w ∧ Separated t r

variable {us vs cs w r : List Char} {o : ℕ} {t t' : Token}

theorem TokenAt.opens (h : TokenAt cs o t) : ∃ c, cs[o]? = some c ∧ Opens c := by
  obtain ⟨-, w, r, hw, hl, -⟩ := h
  obtain ⟨c, w, rfl, hc⟩ := hl.opens
  exact ⟨c, by rw [← List.head?_drop, hw]; rfl, hc⟩

theorem TokenAt.not_commentAt (h : TokenAt cs o t) : ¬ CommentAt cs o := by
  obtain ⟨c, ho, hc⟩ := h.opens
  rintro ⟨-, ho'⟩
  rw [ho] at ho'
  exact hc.2 (Option.some.inj ho')

/-- At an offset begins one token only. -/
theorem TokenAt.unique (h : TokenAt cs o t) (h' : TokenAt cs o t') : t = t' := by
  obtain ⟨-, w, r, hw, hl, hs⟩ := h
  obtain ⟨-, w', r', hw', hl', hs'⟩ := h'
  have hfaces := Lexer.faces_ofString (String.ofList (w ++ r))
  rw [String.toList_ofList] at hfaces
  obtain ⟨-, -, ht, -⟩ :=
    Lexer.piece_unique .nil hl hs .nil hl' hs' (hw.symm.trans hw') hfaces
  exact ht

/-- The tokens behind a boundary are those of the text that follows it, and there are none behind
    the end. -/
theorem tokenAt_append_iff (h : Boundary (us ++ vs) us.length ∨ vs = []) (o : ℕ) :
    TokenAt (us ++ vs) (us.length + o) t ↔ TokenAt vs o t := by
  rw [TokenAt, TokenAt, List.drop_length_add_append]
  rcases h with hb | rfl
  · rw [hb.add_iff, List.drop_left]
  · refine iff_of_false ?_ ?_ <;>
    · rintro ⟨-, w, r, hw, hl, -⟩
      rw [List.drop_nil] at hw
      exact hl.ne_nil (List.append_eq_nil_iff.1 hw.symm).1

/-- In a part that is no lexeme no token begins. -/
theorem Part.not_tokenAt (hp : Part vs us) (hn : ∀ t, ¬ Lexeme t us) (ho : o < us.length) :
    ¬ TokenAt (us ++ vs) o t := by
  rintro ⟨hb, w, r, hw, hl, hs⟩
  obtain rfl := hb.eq_zero_of_lt hp ho
  obtain ⟨rfl, -⟩ := hp.unique (.lexeme hl hs) hw
  exact hn t hl

/-- Neither does one in such a part and in as much of the text after it as has none. -/
theorem Part.not_tokenAt_append {m : ℕ} (hp : Part vs us) (hn : ∀ t, ¬ Lexeme t us)
    (hv : ∀ i < m, ¬ TokenAt vs i t) (ho : o < us.length + m) : ¬ TokenAt (us ++ vs) o t := by
  by_cases hlt : o < us.length
  · exact hp.not_tokenAt hn hlt
  · obtain ⟨i, rfl⟩ := Nat.exists_eq_add_of_le (Nat.not_lt.1 hlt)
    rw [tokenAt_append_iff (.inl (.part hp .start))]
    exact hv i (by omega)

/-- In a text that begins with no part no token begins. -/
theorem not_tokenAt_of_no_part (hn : ∀ us vs, Part vs us → us ++ vs ≠ cs) : ¬ TokenAt cs o t := by
  rintro ⟨hb, w, r, hw, hl, hs⟩
  obtain rfl := hb.eq_zero_of_no_part hn
  exact hn w r (.lexeme hl hs) hw.symm

theorem not_lexeme_of_not_opens {c : Char} (hc : ¬ Opens c) : ¬ Lexeme t (c :: r) := by
  intro hl
  obtain ⟨d, w, he, hd⟩ := hl.opens
  cases he
  exact hc hd

theorem Gap.not_tokenAt {g : List Char} (hg : Gap g) (r : List Char) (ho : o < g.length) :
    ¬ TokenAt (g ++ r) o t := by
  induction hg generalizing o with
  | nil => exact absurd ho (Nat.not_lt_zero o)
  | @blank c g hc _ ih =>
    have hpart : Part (g ++ r) [c] := .blank hc
    refine hpart.not_tokenAt_append ?_ (fun i => ih) (by rwa [Nat.add_comm])
    exact fun t => not_lexeme_of_not_opens (not_opens_of_isBlank hc)
  | @comment body g hb _ ih =>
    rw [comment_append, List.append_assoc]
    rw [comment_append, List.length_append] at ho
    refine (Part.comment hb).not_tokenAt_append ?_ (fun i => ih) ho
    exact fun t => not_lexeme_of_not_opens fun h => h.2 rfl

theorem FinalGap.not_tokenAt {g : List Char} (hg : FinalGap g) (ho : o < g.length) :
    ¬ TokenAt g o t := by
  cases hg with
  | closed hg =>
    have hn := hg.not_tokenAt (t := t) [] ho
    rwa [List.append_nil] at hn
  | @cut g body hg hb =>
    by_cases hlt : o < g.length
    · exact hg.not_tokenAt _ hlt
    · obtain ⟨i, rfl⟩ := Nat.exists_eq_add_of_le (Nat.not_lt.1 hlt)
      rw [tokenAt_append_iff (.inl (hg.boundary _))]
      exact not_tokenAt_of_no_part fun _ _ hp => hp.append_ne_openComment hb

end Grammar

/-! ## Records -/

/-- The event that is noted of what begins at an offset of the text `cs`, which follows `us`. -/
inductive Event.Notes (us cs : List Char) (o : ℕ) : Event → Prop
  | token {t : Token} : TokenAt cs o t → Notes us cs o (.token t)
  | comment : CommentAt cs o → Notes us cs o (.comment (.following (us ++ cs.take o)))

/-- The events `es` are noted, in order, of all that begins among the first `m` characters of the
    text `cs`, which follows `us`. -/
def Record (us cs : List Char) (m : ℕ) (es : List Event) : Prop :=
  ∃ offsets : List ℕ, offsets.Pairwise (· < ·) ∧
    (∀ o, o ∈ offsets ↔ o < m ∧ ∃ e, Event.Notes us cs o e) ∧
    List.Forall₂ (Event.Notes us cs) offsets es

/-- The token that an event tells of. -/
def Event.token? : Event → Option Token
  | token t => some t
  | _ => none

variable {us vs ws cs : List Char} {o m : ℕ} {e : Event} {es es' : List Event} {t : Token}

namespace Event.Notes

theorem boundary (h : Notes us cs o e) : Boundary cs o := by
  cases h with
  | token ht => exact ht.1
  | comment hc => exact hc.1

theorem unique {e' : Event} (h : Notes us cs o e) (h' : Notes us cs o e') : e = e' := by
  cases h with
  | token ht =>
    cases h' with
    | token ht' => rw [ht.unique ht']
    | comment hc => exact absurd hc ht.not_commentAt
  | comment hc =>
    cases h' with
    | token ht => exact absurd hc ht.not_commentAt
    | comment => rfl

theorem append_iff (h : Boundary (vs ++ ws) vs.length ∨ ws = []) :
    Notes us (vs ++ ws) (vs.length + o) e ↔ Notes (us ++ vs) ws o e := by
  have hpos : us ++ (vs ++ ws).take (vs.length + o) = us ++ vs ++ ws.take o := by
    rw [List.take_length_add_append, List.append_assoc]
  constructor
  · rintro (ht | hc)
    · exact .token ((tokenAt_append_iff h o).1 ht)
    · rw [hpos]
      exact .comment ((commentAt_append_iff h o).1 hc)
  · rintro (ht | hc)
    · exact .token ((tokenAt_append_iff h o).2 ht)
    · rw [← hpos]
      exact .comment ((commentAt_append_iff h o).2 hc)

end Event.Notes

namespace Record

/-- A text has one record. -/
theorem unique (h : Record us cs m es) (h' : Record us cs m es') : es = es' := by
  obtain ⟨os, hos, hmem, hes⟩ := h
  obtain ⟨os', hos', hmem', hes'⟩ := h'
  obtain rfl : os = os' := hos.eq_of_mem_iff hos' fun o => by rw [hmem, hmem']
  exact List.right_unique_forall₂' (fun _ _ _ h h' => h.unique h') hes hes'

/-- The record of a text is made piece by piece. -/
theorem append (hb : Boundary (vs ++ ws) vs.length ∨ ws = [])
    (h : Record us (vs ++ ws) vs.length es) (h' : Record (us ++ vs) ws m es') :
    Record us (vs ++ ws) (vs.length + m) (es ++ es') := by
  obtain ⟨os, hos, hmem, hes⟩ := h
  obtain ⟨os', hos', hmem', hes'⟩ := h'
  have hshift (o : ℕ) : (∃ e, Event.Notes us (vs ++ ws) (vs.length + o) e) ↔
      ∃ e, Event.Notes (us ++ vs) ws o e := exists_congr fun _ => Event.Notes.append_iff hb
  obtain ⟨hsorted, hall⟩ := increasing_append hshift hos hmem hos' hmem'
  refine ⟨os ++ os'.map (vs.length + ·), hsorted, hall, List.rel_append hes ?_⟩
  rw [List.forall₂_map_left_iff]
  exact hes'.imp fun _ _ => (Event.Notes.append_iff hb).2

/-- Where no token begins the comments are the record. -/
theorem of_marks {qs : List Position} (h : Marks (({} : Position).past us) cs m qs)
    (hn : ∀ o < m, ∀ t, ¬ TokenAt cs o t) : Record us cs m (qs.map .comment) := by
  obtain ⟨os, hos, hmem, rfl⟩ := h
  refine ⟨os, hos, ?_, ?_⟩
  · intro o
    rw [hmem]
    refine and_congr_right fun ho => ⟨fun hc => ⟨_, .comment hc⟩, ?_⟩
    rintro ⟨e, ht | hc⟩
    · exact absurd ht (hn o ho _)
    · exact hc
  · rw [List.map_map, List.forall₂_map_right_iff, List.forall₂_same]
    intro o ho
    rw [Function.comp_apply, ← Position.past_append, Position.past_start]
    exact .comment ((hmem o).1 ho).2

theorem of_openString {body : List Char} (hb : OpenBody body) :
    Record us ('"' :: body) ('"' :: body).length [] :=
  .of_marks (.of_openString hb) fun _ _ _ =>
    not_tokenAt_of_no_part fun _ _ hp => hp.append_ne_openString hb

/-- Of a lexeme its token is noted, and nothing that is inside of it. -/
theorem of_lexeme {w r : List Char} (hl : Lexeme t w) (hs : Separated t r) :
    Record us (w ++ r) w.length [.token t] := by
  have hfirst : Event.Notes us (w ++ r) 0 (.token t) := .token ⟨.start, w, r, rfl, hl, hs⟩
  refine ⟨[0], List.pairwise_singleton _ _, ?_, .cons hfirst .nil⟩
  intro o
  rw [List.mem_singleton]
  constructor
  · rintro rfl
    exact ⟨List.length_pos_iff.2 hl.ne_nil, _, hfirst⟩
  · rintro ⟨ho, e, he⟩
    exact he.boundary.eq_zero_of_lt (.lexeme hl hs) ho

/-- Only the most detailed log takes the events of a record. -/
theorem level (h : Record us cs m es) : ∀ e ∈ es, e.level = .trace := by
  obtain ⟨os, -, -, hes⟩ := h
  induction hes with
  | nil => exact nofun
  | cons he _ ih =>
    refine List.forall_mem_cons.2 ⟨?_, ih⟩
    cases he <;> rfl

theorem upTo_of_ne {limit : Level} (h : Record us cs m es) (hl : limit ≠ .trace) :
    Event.upTo limit es = [] := by
  refine List.filter_eq_nil_iff.2 fun e he => ?_
  rw [h.level e he]
  cases limit with
  | trace => exact absurd rfl hl
  | _ => decide

end Record

/-! ## Runs -/

namespace Lexer

variable {φ : Type u} [Feed φ] {l : Lexer φ} {z : Option FeedError} {ps : List Piece}
  {rest : List Char}

theorem events_read (l : Lexer φ) :
    l.read.events = l.cursor.skipGap.1.map .comment ++ l.read.value.events := rfl

theorem run_events_of_no_token (h : ∀ t, l.read.value ≠ .token t) :
    l.run.events = l.cursor.skipGap.1.map .comment ++ l.run.failure.toList.map .stopped := by
  cases hv : l.read.value with
  | token t => exact absurd hv (h t)
  | finished => rw [run_of_finished hv, events_read, hv]; rfl
  | failed f => rw [run_of_failed hv, events_read, hv]; rfl

theorem tokens_of_comments (qs : List Position) :
    (qs.map Event.comment).filterMap Event.token? = [] := by
  rw [List.filterMap_map]
  exact List.filterMap_eq_nil_iff.2 fun _ _ => rfl

/-- The comments of a gap before a lexeme or an open string are its record. -/
theorem record_of_opens {g r : List Char} {c : Char} (hg : Gap g) (hc : Opens c)
    (h : l.cursor.Faces (({} : Position).past us) (g ++ c :: r) z) :
    Record us (g ++ c :: r) g.length (l.cursor.skipGap.1.map .comment) :=
  .of_marks (Cursor.marks_of_opens hg hc h) fun _ ho _ => hg.not_tokenAt _ ho

/-- A run tells the record of the text ahead, and then the failure that ends it. -/
theorem exists_record_run (hp : Pieces rest cs ps) (hr : FinalGap rest ∨ OpenString rest)
    (h : l.cursor.Faces (({} : Position).past us) cs z) :
    ∃ es, Record us cs cs.length es ∧
      l.run.events = es ++ l.run.failure.toList.map .stopped ∧
      es.filterMap Event.token? = l.run.tokens := by
  induction hp generalizing l us with
  | nil =>
    have hv : ∀ t, l.read.value ≠ .token t := by
      intro t
      rcases hr with hg | ⟨hg, hb⟩
      · rw [(read_of_finalGap hg h).1]
        cases z <;> exact nofun
      · rw [(read_of_openBody hg hb h).1]
        exact nofun
    refine ⟨l.cursor.skipGap.1.map .comment, ?_, run_events_of_no_token hv, ?_⟩
    · rcases hr with hg | @⟨g, body, hg, hb⟩
      · exact .of_marks (Cursor.marks_of_finalGap hg h) fun _ ho _ => hg.not_tokenAt ho
      · have hgap := record_of_opens hg ⟨by decide, by decide⟩ h
        have hall := hgap.append (.inl (hg.boundary _)) (.of_openString hb)
        rwa [List.append_nil, ← List.length_append] at hall
    · rw [tokens_of_comments, (run_of_no_token hv).1]
  | @cons g w cs t ps hg hl hs _ ih =>
    obtain ⟨hv, ha⟩ := read_of_piece hg hl hs h
    have hnext : l.read.after.cursor.Faces (({} : Position).past (us ++ g ++ w)) cs z := by
      rw [ha, List.append_assoc, Position.past_append]
      exact Cursor.Faces.iterate (by simpa using h)
    obtain ⟨es, hrec, hevents, htokens⟩ := ih hnext
    obtain ⟨c, w', rfl, hc⟩ := hl.opens
    -- the comments of the gap, then the token, then what is told of the rest
    have hgap := record_of_opens hg hc h
    have hlexeme := (Record.of_lexeme hl hs).append (.inl (.part (.lexeme hl hs) .start)) hrec
    refine ⟨l.cursor.skipGap.1.map .comment ++ ([.token t] ++ es), ?_, ?_, ?_⟩
    · rw [List.length_append, List.length_append]
      exact hgap.append (.inl (hg.boundary _)) hlexeme
    · rw [run_of_token hv, Run.precededBy, events_read, hv, hevents]
      simp only [Outcome.events, List.append_assoc]
    · rw [List.filterMap_append, List.filterMap_append, tokens_of_comments, htokens,
        (run_of_first_token hv).1]
      rfl

/-- What a log is told when all tokens are taken from a lexer that has the text `cs` ahead: the
    events `es`, and then the failure. -/
structure Recording (l : Lexer φ) (cs : List Char) (es : List Event) (f? : Option Failure) :
    Prop where
  /-- The events are the record of the text: of each token and of each comment that begins in it,
      also of one that is cut off, in the order in which they begin. -/
  record : ∀ es', Record [] cs cs.length es' ↔ es' = es
  /-- The tokens of the record are those that are given out. -/
  tokens : es.filterMap Event.token? = l.all.value
  /-- Reading on gives these tokens and then the failure, if there is one, or else the end. -/
  ending : l.reads (l.all.value.length + 1)
    = l.all.value.map .token ++ [f?.elim .finished .failed]
  /-- The most detailed log has the record, and nothing after it but the failure. -/
  trace : Event.upTo .trace l.all.events = es ++ f?.toList.map .stopped
  /-- A less detailed log has the failure only. -/
  debug : Event.upTo .debug l.all.events = f?.toList.map .stopped
  /-- Every log that is less detailed than that has nothing. -/
  quiet : ∀ limit : Level, limit.detail < Level.debug.detail → Event.upTo limit l.all.events = []

theorem recording_of_faces (h : l.cursor.Faces {} cs z) :
    ∃ es, Recording l cs es l.run.failure := by
  obtain ⟨ps, rest, hp, hr⟩ := exists_pieces cs
  have hstart : l.cursor.Faces (({} : Position).past []) cs z := h
  obtain ⟨es, hrec, hevents, htokens⟩ := exists_record_run hp hr hstart
  have hall : l.all.events = es ++ l.run.failure.toList.map .stopped := hevents
  have hfailure (limit : Level) : Event.upTo limit (l.run.failure.toList.map .stopped)
      = if limit.detail < Level.debug.detail then [] else l.run.failure.toList.map .stopped := by
    cases l.run.failure <;> cases limit <;> rfl
  have hbelow {limit : Level} (hl : limit ≠ .trace) : Event.upTo limit l.all.events
      = if limit.detail < Level.debug.detail then [] else l.run.failure.toList.map .stopped := by
    rw [hall, ← hfailure, Event.upTo, List.filter_append]
    exact congrArg (· ++ _) (hrec.upTo_of_ne hl)
  refine ⟨es, ?_⟩
  constructor
  case record =>
    intro es'
    constructor
    · exact fun h => h.unique hrec
    · rintro rfl
      exact hrec
  case tokens => exact htokens
  case ending => exact l.reads_run 0
  case trace => rw [Event.upTo_trace, hall]
  case debug => exact hbelow (by decide)
  case quiet =>
    intro limit hlt
    have hne : limit ≠ .trace := by
      rintro rfl
      exact absurd hlt (by decide)
    rw [hbelow hne, if_pos hlt]

end Lexer

/-! ## Bytes -/

namespace ByteFeed

/-- Taking all tokens from some bytes tells a log exactly of what begins in the text that they
    encode, as far as they are well formed, and of the failure at the end, if there is one. A token
    and a comment are told of at the most detailed level, a failure at the next one. What is told of
    a token is one line of printed characters, and tells the token. -/
theorem recording_of_delivers {s : ByteFeed} {bs : List UInt8} (h : Delivers s.deliveries bs) :
    (∃ cs es f?, Utf8.Longest (Utf8.encode cs) bs ∧ Lexer.Recording { feed := s } cs es f?) ∧
      ∀ (t : Token) (p : Position) (f : Failure),
        ((Event.token t).level = .trace ∧ (Event.token t).text = "token " ++ t.label) ∧
        ((Event.comment p).level = .trace ∧
          (Event.comment p).text
            = s!"skipped comment at line {p.line} column {p.column}") ∧
        ((Event.stopped f).level = .debug ∧
          (Event.stopped f).text = "tokenizing stopped: " ++ f.report.text) ∧
        (∀ d ∈ (Event.token t).text.toList, isPrinted d = true) ∧
          ∀ t' : Token, (Event.token t).text = (Event.token t').text → t = t' := by
  refine ⟨?_, fun t p f => ⟨⟨rfl, rfl⟩, ⟨rfl, rfl⟩, ⟨rfl, rfl⟩,
    fun _ => Event.isPrinted_of_mem_text, fun _ => Event.token_of_text_eq⟩⟩
  obtain ⟨cs, z, r, hg, rfl, hr, -⟩ := exists_gives_encode h
  have hfaces : (Lexer.mk s none none).cursor.Faces {} cs z := Cursor.faces_pull hg {}
  obtain ⟨es, hes⟩ := Lexer.recording_of_faces hfaces
  exact ⟨cs, es, _, Utf8.longest_encode hr, hes⟩

/-- The `;` in the symbol and in the string are not recorded. The comment in the second line is cut
    off by a byte that begins no character, and it is recorded before the failure. -/
theorem recording_of_broken_comment :
    let bs := Utf8.encode "a;b ;c\n\"x;\" ;d".toList ++ [0xFF]
    let l : Lexer ByteFeed := { feed := ofBytes bs }
    let es : List Event := [.token (.symbol "a;b"), .comment ⟨1, 5⟩, .token (.string "\"x;\""),
      .comment ⟨2, 6⟩]
    Delivers l.feed.deliveries bs ∧
      l.all.events = es ++ [.stopped (.feed ⟨⟨2, 8⟩, .badLead 0xFF⟩)] ∧
      ∃ cs, Utf8.Longest (Utf8.encode cs) bs ∧ Record [] cs cs.length es := by
  intro bs l es
  have hd : Delivers l.feed.deliveries bs := delivers_ofBytes bs
  have hevents : l.all.events = es ++ [.stopped (.feed ⟨⟨2, 8⟩, .badLead 0xFF⟩)] := by
    decide +kernel
  obtain ⟨⟨cs, es', f?, hcs, h⟩, -⟩ := recording_of_delivers hd
  have hfailure : f?.toList.map Event.stopped
      = [.stopped (.feed ⟨⟨2, 8⟩, .badLead 0xFF⟩)] := by
    rw [← h.debug]
    exact congrArg (Event.upTo .debug) hevents
  have htrace := h.trace
  rw [Event.upTo_trace, hfailure, hevents] at htrace
  obtain rfl : es = es' := List.append_cancel_right htrace
  exact ⟨hd, hevents, cs, hcs, (h.record _).2 rfl⟩

end ByteFeed

end LispLexer
