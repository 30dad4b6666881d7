import LispLexer.Proofs.Decoding
import LispLexer.Proofs.Positions
import LispLexer.Proofs.Utf8Prefix

/-!
# What more bytes can mend

A run on bytes reports an error exactly if the bytes are not well-formed UTF-8. Bytes that follow
mend this in one case only: the input ends inside a character, whose last bytes they are. Of every
other error no further bytes get rid, and an input that ends inside a string is not reported as an
error at all.

* `ByteFeed.reportsError_iff`: which bytes are reported as an error.
* `ByteFeed.failure_run_of_lacks`: what is reported of an input that ends inside a character.
* `ByteFeed.reportsError_append_iff`: which errors are final.
-/

namespace LispLexer

open Text Utf8

universe u

/-- The run ends in a failure that is reported as an error, and not as incomplete input. -/
def Lexer.ReportsError {φ : Type u} [Feed φ] (l : Lexer φ) : Prop :=
  ∃ f m, l.run.failure = some f ∧ f.report = .failed m

/-- The bytes are the encoding of the characters `cs` and the beginning of one more, which lacks
    the bytes `vs`. -/
def Text.Utf8.Lacks (bs : List UInt8) (cs : List Char) (vs : List UInt8) : Prop :=
  ∃ c us, bs = encode cs ++ us ∧ us ≠ [] ∧ vs ≠ [] ∧ String.utf8EncodeChar c = us ++ vs

/-! ## Runs -/

/-- An error is reported exactly if the feed fails. -/
theorem Lexer.reportsError_iff_of_gives {φ : Type u} [Feed φ] {s : φ} {cs : List Char}
    {z : Option FeedError} (h : Feed.Gives s cs (.stop z)) :
    ReportsError { feed := s } ↔ z ≠ none := by
  have hf : (Lexer.mk s none none).cursor.Faces {} cs z := Cursor.faces_pull h {}
  constructor
  · rintro ⟨f, m, hrun, hm⟩ rfl
    rcases failure_run_cases_of_faces hf hrun with ⟨e, he, -⟩ | ⟨us, body, -, -, -, rfl⟩
    · cases he
    · cases hm
  · intro hz
    obtain ⟨e, rfl⟩ := Option.ne_none_iff_exists'.1 hz
    exact ⟨_, _, failure_run_of_error hf, rfl⟩

namespace ByteFeed

variable {s : ByteFeed} {bs vs : List UInt8} {cs : List Char}

/-- The bytes that are reported as an error are those that are not well formed. -/
theorem reportsError_iff (h : Delivers s.deliveries bs) :
    Lexer.ReportsError { feed := s } ↔ ¬ WellFormed bs := by
  obtain ⟨cs, z, r, hg, rfl, hr, hz⟩ := exists_gives_encode h
  rw [Lexer.reportsError_iff_of_gives hg, ne_eq, hz, wellFormed_iff_encode, not_iff_not]
  constructor
  · rintro rfl
    exact ⟨cs, List.append_nil _⟩
  · rintro ⟨ds, hds⟩
    obtain ⟨es, -, rfl⟩ := exists_of_encode_eq_append hds.symm
    cases es with
    | nil => rfl
    | cons c es => exact absurd ⟨c, _, rfl⟩ hr

/-! ## Inputs that end inside a character -/

/-- A pull asks for all bytes that the first one announces, also where no more come. -/
theorem pull_of_beginning {c : Char} {us : List UInt8} (h : Delivers s.deliveries us)
    (hc : String.utf8EncodeChar c = us ++ vs) (hus : us ≠ []) (hvs : vs ≠ []) :
    s.pull.1 = .failed .cutOff := by
  obtain ⟨lead, us, rfl⟩ := List.exists_cons_of_ne_nil hus
  obtain ⟨rs, hd, hr⟩ := delivers_iff.1 h
  have hw : Announces lead (lead :: us ++ vs).length := ⟨c, by rw [hc]; rfl, by rw [hc]⟩
  have hlt : (lead :: us).length < (lead :: us ++ vs).length := by
    rw [List.length_append]
    exact Nat.lt_add_of_pos_right (List.length_pos_iff.2 hvs)
  obtain ⟨s', hp, -⟩ := pull_of_ends ⟨hd, rfl⟩ (.brokenOff hw hlt (.ended hr))
  rw [hp]

theorem gives_of_lacks (h : Delivers s.deliveries bs) (hl : Lacks bs cs vs) :
    Feed.Gives s cs (.failed .cutOff) := by
  obtain ⟨c, us, rfl, hus, hvs, hc⟩ := hl
  exact gives_of_encode_append h fun _ hd => pull_of_beginning hd hc hus hvs

/-- An input that ends inside a character is reported as an error, where the character begins. -/
theorem failure_run_of_lacks (h : Delivers s.deliveries bs) (hl : Lacks bs cs vs) :
    (Lexer.run { feed := s }).failure = some (.feed ⟨.following cs, .cutOff⟩) := by
  have hg := gives_of_lacks h hl
  have hf : (Lexer.mk s none none).cursor.Faces {} cs (some .cutOff) :=
    Cursor.faces_pull (z := some .cutOff) hg {}
  rw [Lexer.failure_run_of_error hf, Position.past_start]
  rfl

theorem wellFormed_append_of_lacks (hl : Lacks bs cs vs) : WellFormed (bs ++ vs) := by
  obtain ⟨c, us, rfl, -, -, hc⟩ := hl
  refine wellFormed_iff_encode.2 ⟨cs ++ [c], ?_⟩
  rw [encode_append, encode_cons, encode_nil, List.append_nil, hc, List.append_assoc]

/-- Bytes that are not well formed become so only where they end inside a character. -/
theorem exists_lacks_of_append {es : List UInt8} (h : ¬ WellFormed bs)
    (h' : WellFormed (bs ++ es)) : ∃ cs vs, Lacks bs cs vs := by
  -- behind the last whole character there are bytes left, and only one character goes on with them
  obtain ⟨cs, -, us, -, rfl, hus, -⟩ := exists_gives_encode (delivers_ofBytes bs)
  obtain ⟨ds, hds⟩ := wellFormed_iff_encode.1 h'
  rw [List.append_assoc] at hds
  obtain ⟨ds, -, hes⟩ := exists_of_encode_eq_append hds.symm
  have hne : us ≠ [] := by
    rintro rfl
    exact h (wellFormed_iff_encode.2 ⟨cs, List.append_nil _⟩)
  obtain ⟨c, vs, hvs, hc⟩ := exists_append_eq_encodeChar hne hus hes
  exact ⟨cs, vs, c, us, rfl, hne, hvs, hc⟩

/-! ## Errors that are final -/

/-- An error is final, whatever bytes follow, unless the input ends inside a character. Then it is
    reported that a sequence is cut off there, and the bytes that the character lacks mend it. -/
theorem reportsError_append_iff (h : Delivers s.deliveries bs)
    (he : Lexer.ReportsError { feed := s }) :
    ((∀ (es : List UInt8) (s' : ByteFeed), Delivers s'.deliveries (bs ++ es) →
        Lexer.ReportsError { feed := s' }) ↔ ¬ ∃ cs vs, Lacks bs cs vs) ∧
      ∀ cs vs, Lacks bs cs vs →
        (Lexer.run { feed := s }).failure = some (.feed ⟨.following cs, .cutOff⟩) ∧
          ∀ s' : ByteFeed, Delivers s'.deliveries (bs ++ vs) →
            ¬ Lexer.ReportsError { feed := s' } := by
  have mended (cs : List Char) (vs : List UInt8) (hl : Lacks bs cs vs) (s' : ByteFeed)
      (h' : Delivers s'.deliveries (bs ++ vs)) : ¬ Lexer.ReportsError { feed := s' } := by
    rw [reportsError_iff h', not_not]
    exact wellFormed_append_of_lacks hl
  refine ⟨⟨?_, ?_⟩, fun cs vs hl => ⟨failure_run_of_lacks h hl, mended cs vs hl⟩⟩
  · rintro hall ⟨cs, vs, hl⟩
    exact mended cs vs hl _ (delivers_ofBytes _) (hall vs _ (delivers_ofBytes _))
  · intro hno es s' h'
    rw [reportsError_iff h']
    intro hw
    exact hno (exists_lacks_of_append ((reportsError_iff h).1 he) hw)

/-- `(` and the first two bytes of `世` are reported as an error in column 2. The byte that is
    missing mends it. -/
theorem reportsError_append_of_cut :
    let s := ofBytes [0x28, 0xE4, 0xB8]
    Lexer.ReportsError { feed := s } ∧ Lacks [0x28, 0xE4, 0xB8] ['('] [0x96] ∧
      (Lexer.run { feed := s }).failure = some (.feed ⟨⟨1, 2⟩, .cutOff⟩) ∧
      ¬ Lexer.ReportsError { feed := ofBytes [0x28, 0xE4, 0xB8, 0x96] } := by
  intro s
  have he : Lexer.ReportsError { feed := s } :=
    ⟨.feed ⟨⟨1, 2⟩, .cutOff⟩, _, by decide +kernel, rfl⟩
  have hl : Lacks [0x28, 0xE4, 0xB8] ['('] [0x96] :=
    ⟨'世', [0xE4, 0xB8], by decide, by decide, by decide, by decide⟩
  obtain ⟨hfail, hmend⟩ := (reportsError_append_iff (delivers_ofBytes _) he).2 _ _ hl
  exact ⟨he, hl, hfail, hmend _ (delivers_ofBytes _)⟩

/-- So not every error is final. -/
theorem not_forall_reportsError_append :
    ¬ ∀ bs es : List UInt8, Lexer.ReportsError { feed := ofBytes bs } →
      Lexer.ReportsError { feed := ofBytes (bs ++ es) } := by
  intro hall
  have he : Lexer.ReportsError { feed := ofBytes [0xE4, 0xB8] } :=
    ⟨.feed ⟨⟨1, 1⟩, .cutOff⟩, _, by decide +kernel, rfl⟩
  obtain ⟨f, _, hf, -⟩ := hall [0xE4, 0xB8] [0x96] he
  have hnone : (Lexer.run { feed := ofBytes ([0xE4, 0xB8] ++ [0x96]) }).failure = none := by
    decide +kernel
  rw [hnone] at hf
  cases hf

end ByteFeed

end LispLexer
