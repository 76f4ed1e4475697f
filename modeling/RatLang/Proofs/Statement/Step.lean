import RatLang.Proofs.Outcome
import RatLang.Proofs.Statement.Phrases
import RatLang.Statement.Parse

/-!
# Parsing steps and the phrases they recognize

A reader takes a phrase from the front of the tokens. It reads a language (`Reads`) when what it takes is a
phrase of the language and it takes every phrase that the next token does not prolong. Two readers in a
row read the phrases made of two (`Reads.andThen`), so every production is proved from its parts.

A step of the parser also knows the place behind the last token, for its failures. It recognizes a language
(`Recognizes`) when it reads it and, where it fails, has read the beginning of a phrase and stands at a token
that no phrase has there (`Stops`). Again this holds of two steps in a row when it holds of each.

All this is bounded by a number of tokens, since a loop contains statements: the phrases of fewer than `n` tokens
are treated by induction on `n`.
-/
namespace RatLang.Parse

variable {ε α β : Type}

/-! ### Readers -/

/-- A function that takes something from the front of the tokens. -/
abbrev Reader (ε α : Type) := (ts : List Token) → Except ε (Parsed α ts.length)

namespace Reader

/-- One reader, and then another that may depend on what the first one took. -/
def andThen (p : Reader ε α) (q : α → Reader ε β) : Reader ε β := fun ts =>
  match p ts with
  | .error e => .error e
  | .ok r =>
    match q r.value r.rest with
    | .error e => .error e
    | .ok s => .ok (s.within (Nat.le_of_lt r.fewer))

/-- The same reader with another value. -/
def map (f : α → β) (p : Reader ε α) : Reader ε β := fun ts => (p ts).map (·.map f)

end Reader

/-- A reader took this value and left these tokens. -/
def Takes {n : Nat} (x : Except ε (Parsed α n)) (value : α) (rest : List Token) : Prop :=
  ∃ r, x = .ok r ∧ r.value = value ∧ r.rest = rest

/-- A reader is right on phrases of fewer than `n` tokens, among tokens that are `fit`. Some phrases could go on:
what follows one must satisfy `follow`. -/
structure Reads (n : Nat) (fit : Token → Prop) (p : Reader ε α) (l : Phrases α) (follow : Option Token → Prop) :
    Prop where
  sound : ∀ {ts : List Token} {r : Parsed α ts.length}, ts.length < n → (∀ t ∈ ts, fit t) → p ts = .ok r →
    ∃ read, ts = read ++ r.rest ∧ l read r.value
  complete : ∀ {read ts rest : List Token} {a : α}, read.length < n → (∀ t ∈ read, fit t) → l read a →
    ts = read ++ rest → follow rest.head? → Takes (p ts) a rest

namespace Reads

variable {n : Nat} {fit : Token → Prop} {p : Reader ε α} {l : Phrases α} {follow : Option Token → Prop}

theorem zero : Reads 0 fit p l follow where
  sound h := absurd h (Nat.not_lt_zero _)
  complete h := absurd h (Nat.not_lt_zero _)

/-- Two phrases at the front of the same tokens are one. -/
theorem unique (h : Reads n (fun _ => True) p l follow) {read read' rest rest' : List Token} {a a' : α}
    (hread : read.length < n) (hread' : read'.length < n) (hl : l read a) (hl' : l read' a')
    (heq : read ++ rest = read' ++ rest') (hrest : follow rest.head?) (hrest' : follow rest'.head?) :
    read = read' ∧ rest = rest' ∧ a = a' := by
  obtain ⟨r, hr, hvalue, hleft⟩ := h.complete hread (fun _ _ => trivial) hl rfl hrest
  obtain ⟨r', hr', hvalue', hleft'⟩ := h.complete hread' (fun _ _ => trivial) hl' heq hrest'
  obtain rfl : r = r' := by
    rw [hr] at hr'
    cases hr'
    rfl
  have hsame : rest = rest' := hleft.symm.trans hleft'
  subst hsame
  exact ⟨List.append_cancel_right heq, rfl, hvalue.symm.trans hvalue'⟩

/-- A phrase is not empty. -/
theorem length_pos (h : Reads n fit p l follow) {read rest : List Token} {a : α} (hread : read.length < n)
    (hfit : ∀ t ∈ read, fit t) (hl : l read a) (hrest : follow rest.head?) : 0 < read.length := by
  obtain ⟨r, -, -, hleft⟩ := h.complete hread hfit hl rfl hrest
  have hfewer := r.fewer
  rw [hleft, List.length_append] at hfewer
  omega

theorem congr {l' : Phrases α} (h : Reads n fit p l follow) (hl : ∀ ts a, l ts a ↔ l' ts a) :
    Reads n fit p l' follow := by
  have heq : l = l' := funext fun ts => funext fun a => propext (hl ts a)
  exact heq ▸ h

theorem map (h : Reads n fit p l follow) (f : α → β) : Reads n fit (p.map f) (l.map f) follow where
  sound := by
    intro ts r hts hfit hr
    obtain ⟨s, hs, rfl⟩ := exists_of_map_eq_ok hr
    obtain ⟨read, hsplit, hl⟩ := h.sound hts hfit hs
    exact ⟨read, hsplit, s.value, hl, rfl⟩
  complete := by
    rintro read ts rest _ hread hfit ⟨a, hl, rfl⟩ hsplit hrest
    obtain ⟨r, hr, rfl, rfl⟩ := h.complete hread hfit hl hsplit hrest
    exact ⟨r.map f, by simp [Reader.map, hr, Except.map], rfl, rfl⟩

variable {q : α → Reader ε β} {m : α → Phrases β} {follow' : Option Token → Prop}

theorem takes_andThen {ts rest rest' : List Token} {a : α} {b : β} (hp : Takes (p ts) a rest)
    (hq : ∀ r : Parsed α ts.length, r.rest = rest → Takes (q a r.rest) b rest') :
    Takes (p.andThen q ts) b rest' := by
  obtain ⟨r, hr, rfl, rfl⟩ := hp
  obtain ⟨s, hs, rfl, rfl⟩ := hq r rfl
  exact ⟨s.within (Nat.le_of_lt r.fewer), by simp [Reader.andThen, hr, hs], rfl, rfl⟩

/-- Two readers in a row read the phrases made of two. What may begin the second phrase must be allowed to follow
the first. -/
theorem andThen (hp : Reads n fit p l follow) (hq : ∀ a, Reads (n - 1) fit (q a) (m a) follow')
    (hfollow : ∀ {a back b rest}, m a back b → follow' rest.head? → follow (back ++ rest).head?) :
    Reads n fit (p.andThen q) (l.seq m) follow' where
  sound := by
    intro ts r hts hfit hr
    unfold Reader.andThen at hr
    split at hr
    · cases hr
    rename_i s hs
    split at hr
    · cases hr
    rename_i s' hs'
    cases hr
    obtain ⟨front, hfront, hl⟩ := hp.sound hts hfit hs
    have hfewer := s.fewer
    have hrest : ∀ t ∈ s.rest, fit t := by
      intro t ht
      apply hfit
      rw [hfront]
      exact List.mem_append_right _ ht
    obtain ⟨back, hback, hm⟩ := (hq s.value).sound (by omega) hrest hs'
    refine ⟨front ++ back, ?_, front, back, s.value, rfl, hl, hm⟩
    calc
      ts = front ++ s.rest := hfront
      _ = front ++ (back ++ s'.rest) := congrArg (front ++ ·) hback
      _ = front ++ back ++ s'.rest := (List.append_assoc ..).symm
  complete := by
    rintro _ ts rest b hread hfit ⟨front, back, a, rfl, hl, hm⟩ hsplit hrest
    rw [List.append_assoc] at hsplit
    rw [List.length_append] at hread
    rw [List.forall_mem_append] at hfit
    have hfront : follow (back ++ rest).head? := hfollow hm hrest
    have hpos := hp.length_pos (by omega) hfit.1 hl hfront
    refine takes_andThen (hp.complete (by omega) hfit.1 hl hsplit hfront) fun r hr => ?_
    exact (hq a).complete (by omega) hfit.2 hm hr hrest

end Reads

/-! ### Steps of the parser -/

/-- A reader that is told the place behind the last token, to report it when the tokens run out. -/
abbrev Step (α : Type) := Position → Reader SyntaxError α

namespace Step

/-- One step, and then another that may depend on what the first one took. -/
def andThen (p : Step α) (q : α → Step β) : Step β := fun eof => Reader.andThen (p eof) fun a => q a eof

/-- The same step with another value. -/
def map (f : α → β) (p : Step α) : Step β := fun eof => Reader.map f (p eof)

end Step

/-- Where a step fails: at a token behind the beginning of a phrase, and then whatever follows that token; or at
the end of the tokens, which are the beginning of a phrase. -/
inductive Stops (p : Step α) (l : Phrases α) (eof : Position) (ts : List Token) (e : SyntaxError) : Prop
  | token (read : List Token) (t : Token) (unread : List Token) (split : ts = read ++ t :: unread)
      (begun : ∃ more a, l (read ++ more) a) (found : e.found = some t) (pos : e.pos = t.pos)
      (again : ∀ eof' unread', p eof' (read ++ t :: unread') = .error e)
  | ended (begun : ∃ more a, l (ts ++ more) a) (found : e.found = none) (pos : e.pos = eof)

/-- A step reads its phrases whatever the tokens are, leaves none that could go on, and fails as early as it can. -/
structure Recognizes (n : Nat) (p : Step α) (l : Phrases α) (follow : Option Token → Prop) : Prop where
  reads : ∀ eof, Reads n (fun _ => True) (p eof) l follow
  follows : ∀ {eof : Position} {ts : List Token} {r : Parsed α ts.length}, ts.length < n → p eof ts = .ok r →
    follow r.rest.head?
  stops : ∀ {eof : Position} {ts : List Token} {e : SyntaxError}, ts.length < n → p eof ts = .error e →
    Stops p l eof ts e

/-- The failure at a token does not depend on what comes behind it. -/
theorem failure_cons (eof : Position) (expected : Expectation) (t : Token) (rest : List Token) :
    failure eof expected (t :: rest) = ⟨expected, some t, t.pos⟩ := rfl

namespace Recognizes

variable {n : Nat} {p : Step α} {l : Phrases α} {follow : Option Token → Prop}

theorem sound (h : Recognizes n p l follow) {eof : Position} {ts : List Token} {r : Parsed α ts.length}
    (hts : ts.length < n) (hr : p eof ts = .ok r) : ∃ read, ts = read ++ r.rest ∧ l read r.value :=
  (h.reads eof).sound hts (fun _ _ => trivial) hr

theorem complete (h : Recognizes n p l follow) (eof : Position) {read ts rest : List Token} {a : α}
    (hread : read.length < n) (hl : l read a) (hsplit : ts = read ++ rest) (hrest : follow rest.head?) :
    Takes (p eof ts) a rest :=
  (h.reads eof).complete hread (fun _ _ => trivial) hl hsplit hrest

theorem zero : Recognizes 0 p l follow where
  reads _ := .zero
  follows h := absurd h (Nat.not_lt_zero _)
  stops h := absurd h (Nat.not_lt_zero _)

theorem congr {l' : Phrases α} (h : Recognizes n p l follow) (hl : ∀ ts a, l ts a ↔ l' ts a) :
    Recognizes n p l' follow := by
  have heq : l = l' := funext fun ts => funext fun a => propext (hl ts a)
  exact heq ▸ h

theorem map (h : Recognizes n p l follow) (f : α → β) : Recognizes n (p.map f) (l.map f) follow where
  reads eof := (h.reads eof).map f
  follows := by
    intro eof ts r hts hr
    obtain ⟨s, hs, rfl⟩ := exists_of_map_eq_ok hr
    exact h.follows hts hs
  stops := by
    intro eof ts e hts he
    cases h.stops hts (eq_error_of_map_eq_error he) with
    | token read t unread split begun found pos again =>
      obtain ⟨more, a, hl⟩ := begun
      refine .token read t unread split ⟨more, f a, a, hl, rfl⟩ found pos fun eof' unread' => ?_
      simp [Step.map, Reader.map, again eof' unread', Except.map]
    | ended begun found pos =>
      obtain ⟨more, a, hl⟩ := begun
      exact .ended ⟨more, f a, a, hl, rfl⟩ found pos

variable {q : α → Step β} {m : α → Phrases β} {follow' : Option Token → Prop}

theorem fails_andThen {eof : Position} {ts rest : List Token} {a : α} {e : SyntaxError}
    (hp : Takes (p eof ts) a rest) (hq : q a eof rest = .error e) : p.andThen q eof ts = .error e := by
  obtain ⟨r, hr, rfl, rfl⟩ := hp
  simp [Step.andThen, Reader.andThen, hr, hq]

/-- Two steps in a row recognize the phrases made of two. What may begin the second phrase must be allowed to
follow the first, and every first phrase must have a second one. -/
theorem andThen (hp : Recognizes n p l follow) (hq : ∀ a, Recognizes (n - 1) (q a) (m a) follow')
    (hfollow : ∀ {a back b rest}, m a back b → follow' rest.head? → follow (back ++ rest).head?)
    (hsome : ∀ a, ∃ back b, m a back b) : Recognizes n (p.andThen q) (l.seq m) follow' where
  reads eof := (hp.reads eof).andThen (fun a => (hq a).reads eof) hfollow
  follows := by
    intro eof ts r hts hr
    unfold Step.andThen Reader.andThen at hr
    split at hr
    · cases hr
    rename_i s hs
    split at hr
    · cases hr
    rename_i s' hs'
    cases hr
    have hfewer := s.fewer
    have hnext : follow' s'.rest.head? := (hq s.value).follows (by omega) hs'
    exact hnext
  stops := by
    intro eof ts e hts he
    unfold Step.andThen Reader.andThen at he
    split at he
    · -- the first step fails, and any second phrase completes what it began
      rename_i e' he'
      cases he
      cases hp.stops hts he' with
      | token read t unread split begun found pos again =>
        obtain ⟨more, a, hl⟩ := begun
        obtain ⟨back, b, hm⟩ := hsome a
        refine .token read t unread split ⟨more ++ back, b, _, _, a, (List.append_assoc ..).symm, hl, hm⟩
          found pos fun eof' unread' => ?_
        simp [Step.andThen, Reader.andThen, again eof' unread']
      | ended begun found pos =>
        obtain ⟨more, a, hl⟩ := begun
        obtain ⟨back, b, hm⟩ := hsome a
        exact .ended ⟨more ++ back, b, _, _, a, (List.append_assoc ..).symm, hl, hm⟩ found pos
    · rename_i s hs
      split at he
      · rename_i e' he'
        cases he
        obtain ⟨front, hfront, hl⟩ := hp.sound hts hs
        have hrest := hp.follows hts hs
        have hfewer := s.fewer
        have hlength : front.length < n := by
          rw [hfront, List.length_append] at hts
          omega
        cases (hq s.value).stops (by omega) he' with
        | token read t unread split begun found pos again =>
          obtain ⟨more, b, hm⟩ := begun
          refine .token (front ++ read) t unread ?_ ⟨more, b, front, read ++ more, s.value, ?_, hl, hm⟩
            found pos fun eof' unread' => ?_
          · exact hfront.trans ((congrArg (front ++ ·) split).trans (List.append_assoc ..).symm)
          · rw [List.append_assoc]
          · -- the first step takes the same tokens again, since the next one has not changed
            have hnext : follow (read ++ t :: unread').head? := by
              rw [split] at hrest
              cases read with
              | nil => exact hrest
              | cons => exact hrest
            exact fails_andThen (hp.complete eof' hlength hl (List.append_assoc ..) hnext) (again eof' unread')
        | ended begun found pos =>
          obtain ⟨more, b, hm⟩ := begun
          refine .ended ⟨more, b, front, s.rest ++ more, s.value, ?_, hl, hm⟩ found pos
          exact (congrArg (· ++ more) hfront).trans (List.append_assoc ..)
      · cases he

end Recognizes

end RatLang.Parse
