import LispLexer.Lexer.Basic

/-!
# Runs of a lexer

A run reads on until no token comes, and keeps what ended it. Two ways of use look at less: `all`
takes the tokens and is silent about a failure, and `collect` goes through the elements of the
sequence and gives the tokens only if none of the elements is a failure.

* `Lexer.run_of_token`, `Lexer.run_of_finished`, `Lexer.run_of_failed`: a run goes read by read.
* `Lexer.all_of_token`, `Lexer.all_of_none`: taking all tokens repeats `next`.
* `Lexer.collect_of_token`, `Lexer.collect_of_failure`, `Lexer.collect_of_none`: collecting goes
  element by element.
-/

namespace LispLexer

open Text

universe u

/-! ## Runs -/

/-- What a lexer gave until no token came. -/
structure Run (φ : Type u) where
  /-- The tokens, each with the position at which it left the lexer. -/
  taken : List (Token × Option Position)
  failure : Option Failure
  events : List Event
  after : Lexer φ

namespace Run

variable {φ : Type u}

/-- The tokens of a run. -/
def tokens (r : Run φ) : List Token := r.taken.map Prod.fst

/-- The position at which the last token left the lexer. -/
def rested (r : Run φ) : Option Position := r.taken.getLast?.bind Prod.snd

/-- The run that begins with some tokens and events and goes on with `r`. -/
def precededBy (ts : List (Token × Option Position)) (es : List Event) (r : Run φ) : Run φ :=
  { r with taken := ts ++ r.taken, events := es ++ r.events }

end Run

namespace Lexer

variable {φ : Type u} [Feed φ]

/-- Goes on with a run that has given the tokens `ts` and the events `es`, both with the last one
    first. -/
def runFrom (l : Lexer φ) (ts : List (Token × Option Position)) (es : List Event) : Run φ :=
  match _h : l.read with
  | ⟨.token t, es', l'⟩ => runFrom l' ((t, l'.position) :: ts) (es'.reverse ++ es)
  | ⟨.finished, es', l'⟩ => ⟨ts.reverse, none, (es'.reverse ++ es).reverse, l'⟩
  | ⟨.failed f, es', l'⟩ => ⟨ts.reverse, some f, (es'.reverse ++ es).reverse, l'⟩
termination_by l.weight
decreasing_by
  have hl := weight_read_lt (l := l) (t := t) (by rw [_h])
  rwa [_h] at hl

theorem runFrom_of_token {l : Lexer φ} {t : Token} (h : l.read.value = .token t)
    (ts : List (Token × Option Position)) (es : List Event) :
    l.runFrom ts es
      = l.read.after.runFrom ((t, l.read.after.position) :: ts) (l.read.events.reverse ++ es) := by
  rw [runFrom]
  split <;> simp_all

theorem runFrom_of_finished {l : Lexer φ} (h : l.read.value = .finished)
    (ts : List (Token × Option Position)) (es : List Event) :
    l.runFrom ts es = ⟨ts.reverse, none, es.reverse ++ l.read.events, l.read.after⟩ := by
  rw [runFrom]
  split <;> simp_all

theorem runFrom_of_failed {l : Lexer φ} {f : Failure} (h : l.read.value = .failed f)
    (ts : List (Token × Option Position)) (es : List Event) :
    l.runFrom ts es = ⟨ts.reverse, some f, es.reverse ++ l.read.events, l.read.after⟩ := by
  rw [runFrom]
  split <;> simp_all

theorem runFrom_append (l : Lexer φ) (ts us : List (Token × Option Position))
    (es fs : List Event) :
    l.runFrom (ts ++ us) (es ++ fs) = (l.runFrom ts es).precededBy us.reverse fs.reverse := by
  fun_induction runFrom l ts es with
  | case1 l ts es t es' l' h ih =>
    have hv : l.read.value = .token t := by rw [h]
    rw [runFrom_of_token hv, ← ih, h, List.cons_append, List.append_assoc]
  | case2 l ts es es' l' h =>
    have hv : l.read.value = .finished := by rw [h]
    simp [runFrom_of_finished hv, h, Run.precededBy]
  | case3 l ts es f es' l' h =>
    have hv : l.read.value = .failed f := by rw [h]
    simp [runFrom_of_failed hv, h, Run.precededBy]

/-- Reads until no token comes. -/
def run (l : Lexer φ) : Run φ := l.runFrom [] []

theorem run_of_token {l : Lexer φ} {t : Token} (h : l.read.value = .token t) :
    l.run = l.read.after.run.precededBy [(t, l.read.after.position)] l.read.events := by
  have ha := runFrom_append l.read.after [] [(t, l.read.after.position)] [] l.read.events.reverse
  rw [run, runFrom_of_token h, run]
  simpa using ha

theorem run_of_finished {l : Lexer φ} (h : l.read.value = .finished) :
    l.run = ⟨[], none, l.read.events, l.read.after⟩ :=
  runFrom_of_finished h [] []

theorem run_of_failed {l : Lexer φ} {f : Failure} (h : l.read.value = .failed f) :
    l.run = ⟨[], some f, l.read.events, l.read.after⟩ :=
  runFrom_of_failed h [] []

/-! ## All tokens -/

/-- `all_tokens` (lines 213–218): all remaining tokens, up to the end of the input or the first
    failure. -/
def all (l : Lexer φ) : Reply φ (List Token) :=
  let r := l.run
  ⟨r.tokens, r.events, r.after⟩

theorem all_of_token {l : Lexer φ} {t : Token} (h : l.next.value = some t) :
    l.all = ⟨t :: l.next.after.all.value, l.next.events ++ l.next.after.all.events,
      l.next.after.all.after⟩ := by
  have hv : l.read.value = .token t := Outcome.token?_eq_some.1 h
  simp only [all, run_of_token hv]
  rfl

theorem all_of_none {l : Lexer φ} (h : l.next.value = none) :
    l.all = ⟨[], l.next.events, l.next.after⟩ := by
  cases hv : l.read.value with
  | token t => simp [next, Reply.map, hv, Outcome.token?] at h
  | finished => simp only [all, run_of_finished hv]; rfl
  | failed f => simp only [all, run_of_failed hv]; rfl

/-! ## Collecting -/

theorem weight_element_lt {l : Lexer φ} {t : Token} (h : l.element.value = some (.ok t)) :
    l.element.after.weight < l.weight := by
  cases hv : l.read.value with
  | token u => exact weight_read_lt hv
  | finished => simp [element, Reply.map, hv, Outcome.element] at h
  | failed f => simp [element, Reply.map, hv, Outcome.element] at h

/-- Goes on collecting after the tokens `ts` and the events `es`, both with the last one first. -/
def collectFrom (l : Lexer φ) (ts : List Token) (es : List Event) :
    Reply φ (Except Failure (List Token)) :=
  match _h : l.element with
  | ⟨some (.ok t), es', l'⟩ => collectFrom l' (t :: ts) (es'.reverse ++ es)
  | ⟨some (.error f), es', l'⟩ => ⟨.error f, (es'.reverse ++ es).reverse, l'⟩
  | ⟨none, es', l'⟩ => ⟨.ok ts.reverse, (es'.reverse ++ es).reverse, l'⟩
termination_by l.weight
decreasing_by
  have hl := weight_element_lt (l := l) (t := t) (by rw [_h])
  rwa [_h] at hl

theorem collectFrom_of_token {l : Lexer φ} {t : Token} (h : l.element.value = some (.ok t))
    (ts : List Token) (es : List Event) :
    l.collectFrom ts es
      = l.element.after.collectFrom (t :: ts) (l.element.events.reverse ++ es) := by
  rw [collectFrom]
  split <;> simp_all

theorem collectFrom_of_failure {l : Lexer φ} {f : Failure}
    (h : l.element.value = some (.error f)) (ts : List Token) (es : List Event) :
    l.collectFrom ts es = ⟨.error f, es.reverse ++ l.element.events, l.element.after⟩ := by
  rw [collectFrom]
  split <;> simp_all

theorem collectFrom_of_none {l : Lexer φ} (h : l.element.value = none)
    (ts : List Token) (es : List Event) :
    l.collectFrom ts es = ⟨.ok ts.reverse, es.reverse ++ l.element.events, l.element.after⟩ := by
  rw [collectFrom]
  split <;> simp_all

theorem collectFrom_append (l : Lexer φ) (ts us : List Token) (es fs : List Event) :
    l.collectFrom (ts ++ us) (es ++ fs)
      = ⟨(l.collectFrom ts es).value.map (us.reverse ++ ·),
        fs.reverse ++ (l.collectFrom ts es).events, (l.collectFrom ts es).after⟩ := by
  fun_induction collectFrom l ts es with
  | case1 l ts es t es' l' h ih =>
    have hv : l.element.value = some (.ok t) := by rw [h]
    rw [collectFrom_of_token hv, ← ih, h, List.cons_append, List.append_assoc]
  | case2 l ts es f es' l' h =>
    have hv : l.element.value = some (.error f) := by rw [h]
    simp [collectFrom_of_failure hv, h, Except.map]
  | case3 l ts es es' l' h =>
    have hv : l.element.value = none := by rw [h]
    simp [collectFrom_of_none hv, h, Except.map]

/-- The remaining tokens if no failure ends them, and else the failure. -/
def collect (l : Lexer φ) : Reply φ (Except Failure (List Token)) := l.collectFrom [] []

theorem collect_of_token {l : Lexer φ} {t : Token} (h : l.element.value = some (.ok t)) :
    l.collect = ⟨l.element.after.collect.value.map (t :: ·),
      l.element.events ++ l.element.after.collect.events, l.element.after.collect.after⟩ := by
  have ha := collectFrom_append l.element.after [] [t] [] l.element.events.reverse
  rw [collect, collectFrom_of_token h, collect]
  simpa using ha

theorem collect_of_failure {l : Lexer φ} {f : Failure} (h : l.element.value = some (.error f)) :
    l.collect = ⟨.error f, l.element.events, l.element.after⟩ :=
  collectFrom_of_failure h [] []

theorem collect_of_none {l : Lexer φ} (h : l.element.value = none) :
    l.collect = ⟨.ok [], l.element.events, l.element.after⟩ :=
  collectFrom_of_none h [] []

end Lexer

end LispLexer
