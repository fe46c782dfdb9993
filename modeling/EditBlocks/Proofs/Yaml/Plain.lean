import EditBlocks.Yaml.TokenStream

/-!
# Texts that are plain scalars

A plain scalar has no sign of its own around it, so what ends it is in the
text itself: a colon before white space, a comment, the end of the line.
`Yaml.IsPlain` says of a text on one line that nothing in it does, and
`Yaml.IsPlain.readPlain_eq` that it is then read to its end, wherever on a
line it stands and whatever ends it there.

A scalar is read word by word, with the blanks between the words kept. A word
ends before a blank, and after blanks another word may come or not; that none
of the words begins like a comment is part of what is asked. Reading is by a
count of steps, one for each word, and the length of the text is enough for
that.

Places in the text are kept abstract: of the place after some text it is only
said how it comes from the one before (`Yaml.Cursor.Passes`).
-/

namespace EditBlocks.Yaml

/-! ## Places on one line

Passing text that has no line end in it moves the place on by as many columns
as there are characters. -/

/-- **A text passed on a line**, up to another place. The line and what comes
after the text are left as they are, and the column moves on. -/
structure Cursor.Passes (p : Cursor) (t : Text) (q : Cursor) : Prop where
  /-- It stands between the two places. -/
  rest : p.rest = t ++ q.rest
  /-- It has been counted. -/
  index : q.index = p.index + t.length
  /-- The line is the same. -/
  line : q.line = p.line
  /-- Its characters take a column each, but for byte order marks. -/
  column : q.column = p.column + t.countP (· ≠ '\ufeff')

namespace Cursor

variable {p q r : Cursor} {c : Char} {t u : Text}

theorem Passes.refl (p : Cursor) : p.Passes [] p := ⟨rfl, rfl, rfl, rfl⟩

theorem Passes.trans (h : p.Passes t q) (h' : q.Passes u r) : p.Passes (t ++ u) r where
  rest := by rw [h.rest, h'.rest, List.append_assoc]
  index := by rw [h'.index, h.index, List.length_append, Nat.add_assoc]
  line := h'.line.trans h.line
  column := by rw [h'.column, h.column, List.countP_append, Nat.add_assoc]

/-- What stands after the text that is passed. -/
theorem Passes.rest_eq (h : p.Passes t q) (hrest : p.rest = t ++ u) : q.rest = u :=
  List.append_cancel_left (h.rest.symm.trans hrest)

theorem passes_next (hrest : p.rest = c :: u) (hc : isBreak c = false) : p.Passes [c] p.next := by
  have hnext : p.next
      = ⟨u, p.index + 1, p.line, if c = '\ufeff' then p.column else p.column + 1⟩ := by
    rw [next, hrest]
    simp [hc]
  rw [hnext]
  refine ⟨hrest, rfl, rfl, ?_⟩
  by_cases hmark : c = '\ufeff' <;> simp [hmark]

theorem passes_skip (hrest : p.rest = t ++ u) (ht : ∀ c ∈ t, isBreak c = false) :
    p.Passes t (skip t.length p) := by
  induction t generalizing p with
  | nil => exact .refl p
  | cons c t ih =>
    obtain ⟨hc, ht⟩ := List.forall_mem_cons.1 ht
    have hfirst := passes_next hrest hc
    exact hfirst.trans (ih (hfirst.rest_eq hrest) ht)

/-- Blanks are passed up to the first character that is none. -/
theorem passes_takeWhile (hrest : p.rest = t ++ u) (ht : ∀ c ∈ t, c = ' ')
    (hu : u.head? ≠ some ' ') : ∃ q, p.takeWhile (· = ' ') = (t, q) ∧ p.Passes t q := by
  have htaken : p.rest.takeWhile (· = ' ') = t := by
    rw [hrest, List.takeWhile_append_of_pos (by simpa using ht)]
    cases u with
    | nil => simp
    | cons c u =>
      have hc : c ≠ ' ' := fun h => hu (h ▸ rfl)
      simp [hc]
  refine ⟨skip t.length p, by rw [takeWhile, htaken], passes_skip hrest fun c hc => ?_⟩
  rw [ht c hc]
  rfl

/-- There is no line break where a character stands that is none. -/
theorem lineBreak_of_not_isBreak (h : ∀ c, p.peek = some c → isBreak c = false) :
    p.lineBreak = ([], p) := by
  rw [lineBreak]
  split
  next hrest => exact absurd (h '\r' (by rw [peek, hrest]; rfl)) (by decide)
  next c u hc hrest =>
    have hnot := h c (by rw [peek, hrest]; rfl)
    have hne {d : Char} (hd : isBreak d = true) : c ≠ d := by
      rintro rfl
      rw [hnot] at hd
      cases hd
    have hline : c ≠ '\u2028' := hne (by decide)
    have hparagraph : c ≠ '\u2029' := hne (by decide)
    simp [hline, hparagraph, hnot]
  next => rfl

end Cursor

/-! ## The characters of a plain scalar

Whether the scalar goes on at a character can depend on the one after it, so
what is asked of a text is asked of its ends. -/

/-- Whether a character of a plain scalar can stand before the next, if there
is one: a blank before another character that begins no comment, a colon
before one that is not white space, and any character that is neither. -/
def staysPlain (c : Char) (next : Option Char) : Bool :=
  if c = ' ' then next ≠ none && next ≠ some '#'
  else if c = ':' then !isGap next
  else !isGap (some c)

/-- Whether nothing in a text ends a plain scalar. -/
def goesOn : Text → Bool
  | [] => true
  | c :: t => staysPlain c t.head? && goesOn t

/-- **A text that is a plain scalar**, from its first character to its
last. -/
structure IsPlain (t : Text) : Prop where
  /-- Its characters can stand in a YAML text. -/
  admitted : t.all isAdmitted = true
  /-- A plain scalar can begin as it does. -/
  starts : t.head?.any (TokenReader.start t).startsPlain = true
  /-- It is no mark, neither between documents nor of a byte order. -/
  unmarked : (Cursor.start t).seesDocumentMark = false ∧ t.head? ≠ some '\ufeff'
  /-- Nothing in it ends it. -/
  goesOn : goesOn t = true

instance (t : Text) : Decidable (IsPlain t) :=
  decidable_of_iff
    (t.all isAdmitted = true ∧ t.head?.any (TokenReader.start t).startsPlain = true
      ∧ ((Cursor.start t).seesDocumentMark = false ∧ t.head? ≠ some '\ufeff')
      ∧ Yaml.goesOn t = true)
    ⟨fun ⟨ha, hs, hu, hg⟩ => ⟨ha, hs, hu, hg⟩, fun ⟨ha, hs, hu, hg⟩ => ⟨ha, hs, hu, hg⟩⟩

variable {p q : Cursor} {c : Char} {t u tail : Text}

theorem goesOn_of_append (h : goesOn (t ++ u) = true) : goesOn u = true := by
  induction t with
  | nil => exact h
  | cons c t ih => exact ih (Bool.and_eq_true_iff.1 h).2

/-- Whether a plain scalar ends depends on what is left only. -/
theorem endsPlain_congr (inFlow : Bool) (h : p.rest = q.rest) :
    endsPlain inFlow p = endsPlain inFlow q := by
  simp only [endsPlain, Cursor.peek, Cursor.peekAt, h]

/-- A character that is no blank is no white space, and ends no line. -/
theorem not_isGap_of_staysPlain {next : Option Char} (h : staysPlain c next = true)
    (hc : c ≠ ' ') : isGap (some c) = false := by
  rw [staysPlain, if_neg hc] at h
  split at h
  next hcolon => rw [hcolon]; rfl
  · simpa using h

theorem not_isBreak_of_staysPlain {next : Option Char} (h : staysPlain c next = true) :
    isBreak c = false := by
  by_cases hc : c = ' '
  · rw [hc]
    rfl
  · have hgap := not_isGap_of_staysPlain h hc
    simp only [isGap, Bool.or_eq_false_iff] at hgap
    exact hgap.2

theorem not_isBreak_of_goesOn (h : goesOn t = true) : ∀ c ∈ t, isBreak c = false := by
  induction t with
  | nil => exact List.forall_mem_nil _
  | cons c t ih =>
    obtain ⟨hstays, hgoes⟩ := Bool.and_eq_true_iff.1 h
    exact List.forall_mem_cons.2 ⟨not_isBreak_of_staysPlain hstays, ih hgoes⟩

/-- No plain scalar ends before a character that is no blank. -/
theorem not_endsPlain (hrest : p.rest = (c :: t) ++ tail) (h : staysPlain c t.head? = true)
    (hc : c ≠ ' ') : endsPlain false p = false := by
  have hpeek : p.peek = some c := by rw [Cursor.peek, hrest]; rfl
  have hgap := not_isGap_of_staysPlain h hc
  simp only [endsPlain, hpeek, hgap, Bool.false_and, Bool.false_or, Bool.or_false]
  by_cases hcolon : c = ':'
  · -- the character after a colon is one of the scalar
    rw [staysPlain, if_neg hc, if_pos hcolon] at h
    cases t with
    | nil => cases h
    | cons d t =>
      have hnext : p.peekAt 1 = some d := by rw [Cursor.peekAt, hrest]; rfl
      simpa [hcolon, hnext] using h
  · simp [hcolon]

/-- **A word is read to its end**, which is a blank or the end of the
scalar. -/
theorem readPlainWord_eq {fuel : Nat} (hrest : p.rest = (t ++ u) ++ tail)
    (hgoes : goesOn (t ++ u) = true) (hword : ∀ c ∈ t, c ≠ ' ')
    (hend : endsPlain false (.start (u ++ tail)) = true) (hfuel : t.length ≤ fuel) :
    ∃ q, readPlainWord false fuel p = (t, q) ∧ p.Passes t q := by
  induction t generalizing p fuel with
  | nil =>
    refine ⟨p, ?_, .refl p⟩
    have hends : endsPlain false p = true := (endsPlain_congr false hrest).trans hend
    cases fuel with
    | zero => rfl
    | succ fuel => rw [readPlainWord, if_pos hends]
  | cons c t ih =>
    obtain ⟨hc, hword⟩ := List.forall_mem_cons.1 hword
    obtain ⟨hstays, hgoes⟩ := Bool.and_eq_true_iff.1 hgoes
    obtain ⟨fuel, rfl⟩ : ∃ n, fuel = n + 1 := ⟨fuel - 1, by simp at hfuel; omega⟩
    have hnext := Cursor.passes_next hrest (not_isBreak_of_staysPlain hstays)
    obtain ⟨q, hread, hpasses⟩ := ih (hnext.rest_eq hrest) hgoes hword (by simpa using hfuel)
    have hnot : endsPlain false p = false := not_endsPlain hrest hstays hc
    refine ⟨q, ?_, hnext.trans hpasses⟩
    simp only [readPlainWord, hnot, hread, hrest]
    rfl

/-- **Blanks between two words** are kept. -/
theorem readPlainSpace_blanks (hrest : p.rest = (t ++ u) ++ tail) (ht : ∀ c ∈ t, c = ' ')
    (hne : t ≠ []) (hu : u.head? ≠ some ' ') (hgoes : goesOn u = true) (hune : u ≠ []) :
    ∃ q, readPlainSpace p = (some t, false, q) ∧ p.Passes t q := by
  obtain ⟨c, u, rfl⟩ := List.exists_cons_of_ne_nil hune
  have hrest' : p.rest = t ++ ((c :: u) ++ tail) := by rw [hrest, List.append_assoc]
  obtain ⟨q, htaken, hpasses⟩ := Cursor.passes_takeWhile hrest' ht hu
  have hbreak : q.lineBreak = ([], q) := by
    refine Cursor.lineBreak_of_not_isBreak fun d hd => ?_
    rw [Cursor.peek, hpasses.rest_eq hrest'] at hd
    obtain rfl : c = d := Option.some.inj hd
    exact not_isBreak_of_staysPlain (Bool.and_eq_true_iff.1 hgoes).1
  exact ⟨q, by simp only [readPlainSpace, htaken, hbreak, if_neg hne], hpasses⟩

theorem goesOn_blanks (hgoes : goesOn (t ++ u) = true) (ht : ∀ c ∈ t, c = ' ') (hne : t ≠ []) :
    u ≠ [] ∧ u.head? ≠ some '#' := by
  induction t with
  | nil => exact absurd rfl hne
  | cons c t ih =>
    obtain ⟨rfl, ht'⟩ := List.forall_mem_cons.1 ht
    obtain ⟨hstays, hgoes⟩ := Bool.and_eq_true_iff.1 hgoes
    cases t with
    | nil =>
      have hnext : u.head? ≠ none ∧ u.head? ≠ some '#' := by simpa [staysPlain] using hstays
      exact ⟨fun hnil => hnext.1 (hnil ▸ rfl), hnext.2⟩
    | cons d t => exact ih hgoes ht' (List.cons_ne_nil d t)

/-- A text is split where a property ends that its characters have. -/
theorem exists_split (q : Char → Bool) (t : Text) :
    ∃ before after, t = before ++ after ∧ (∀ c ∈ before, q c = true)
      ∧ ∀ c, after.head? = some c → q c = false := by
  refine ⟨t.takeWhile q, t.dropWhile q, List.takeWhile_append_dropWhile.symm,
    List.all_eq_true.1 List.all_takeWhile, fun c hc => ?_⟩
  have hnot := List.head?_dropWhile_not q t
  rw [hc] at hnot
  simpa using hnot

/-- **After a word come blanks and another word**, or the end. -/
theorem goesOn_cases (hgoes : goesOn t = true) (hne : t ≠ []) (hblank : t.head? ≠ some ' ') :
    ∃ word, word ≠ [] ∧ (∀ c ∈ word, c ≠ ' ')
      ∧ (t = word
        ∨ ∃ blanks more, t = word ++ (blanks ++ more) ∧ blanks ≠ [] ∧ (∀ c ∈ blanks, c = ' ')
          ∧ more ≠ [] ∧ more.head? ≠ some ' ' ∧ more.head? ≠ some '#') := by
  obtain ⟨word, rest, rfl, hword, hrest⟩ := exists_split (· ≠ ' ') t
  obtain ⟨blanks, more, rfl, hblanks, hmore⟩ := exists_split (· = ' ') rest
  have hnot : more.head? ≠ some ' ' := fun h => by simpa using hmore ' ' h
  have hstarts {c : Char} (hc : (blanks ++ more).head? = some c) : c = ' ' := by
    simpa using hrest c hc
  refine ⟨word, ?_, by simpa using hword, ?_⟩
  · rintro rfl
    cases hfirst : (blanks ++ more).head? with
    | none => exact hne (List.head?_eq_none_iff.1 hfirst)
    | some c => exact hblank (hstarts hfirst ▸ hfirst)
  · cases blanks with
    | nil =>
      left
      cases more with
      | nil => rw [List.append_nil, List.append_nil]
      | cons c more => exact absurd (hstarts rfl ▸ rfl) hnot
    | cons c blanks =>
      have hkept : ∀ d ∈ c :: blanks, d = ' ' := by simpa using hblanks
      have hblanksNe : c :: blanks ≠ [] := List.cons_ne_nil c blanks
      obtain ⟨hmoreNe, hcomment⟩ := goesOn_blanks (goesOn_of_append hgoes) hkept hblanksNe
      exact .inr ⟨c :: blanks, more, rfl, hblanksNe, hkept, hmoreNe, hnot, hcomment⟩

/-- The first word of a plain scalar, and what comes of the white space after
it. -/
theorem readPlainFrom_word {indent : Int} {fuel : Nat} (space : Text) (hsees : p.sees '#' = false)
    (hne : t ≠ []) (hread : readPlainWord false p.rest.length p = (t, q)) :
    readPlainFrom false indent (fuel + 1) space p
      = match readPlainSpace q with
        | (none, ended, q) => (space ++ t, ended, q)
        | (some after, ended, q) =>
          if q.sees '#' || (q.column : Int) < indent then (space ++ t, ended, q)
          else
            let (more, ended', q) := readPlainFrom false indent fuel after q
            (space ++ t ++ more, if more = [] then ended else ended', q) := by
  obtain ⟨c, t, rfl⟩ := List.exists_cons_of_ne_nil hne
  rw [readPlainFrom, hsees, hread]
  rfl

/-- Where a scalar has ended no blank is kept, nor is it gone on with on
another line. -/
def StopsAt (indent : Int) (q : Cursor) : Prop :=
  (readPlainSpace q).1 = none ∨ ((readPlainSpace q).2.2.column : Int) < indent

/-- **A plain scalar is read to its end**, word by word. -/
theorem readPlainFrom_eq {indent : Int} {fuel : Nat} (space : Text) (hrest : p.rest = t ++ tail)
    (hgoes : goesOn t = true) (hne : t ≠ []) (hblank : t.head? ≠ some ' ')
    (hcomment : t.head? ≠ some '#') (hend : endsPlain false (.start tail) = true)
    (hstops : ∀ q, p.Passes t q → StopsAt indent q) (hcolumn : indent ≤ p.column)
    (hfuel : t.length < fuel) :
    ∃ q, p.Passes t q
      ∧ readPlainFrom false indent fuel space p = (space ++ t, (readPlainSpace q).2) := by
  induction fuel generalizing p t space with
  | zero => omega
  | succ fuel ih =>
    have hsees : p.sees '#' = false := by
      obtain ⟨c, t, rfl⟩ := List.exists_cons_of_ne_nil hne
      simpa [Cursor.sees, Cursor.peek, hrest] using hcomment
    obtain ⟨word, hwordNe, hword, hsplit⟩ := goesOn_cases hgoes hne hblank
    have hlength : word.length ≤ p.rest.length := by
      obtain rfl | ⟨blanks, more, rfl, -⟩ := hsplit <;> simp [hrest]
    obtain rfl | ⟨blanks, more, rfl, hblanksNe, hblanks, hmoreNe, hmore, hmoreComment⟩ := hsplit
    case inl =>
      obtain ⟨q, hread, hpasses⟩ := readPlainWord_eq (t := t) (u := [])
        (hrest.trans (by rw [List.append_nil])) (by simpa using hgoes) hword hend hlength
      refine ⟨q, hpasses, (readPlainFrom_word space hsees hne hread).trans ?_⟩
      have hstop := hstops q hpasses
      rw [StopsAt] at hstop
      generalize readPlainSpace q = found at hstop ⊢
      rcases found with ⟨_ | after, ended, q'⟩
      · rfl
      · have hcol : (q'.column : Int) < indent := hstop.resolve_left (Option.some_ne_none _)
        simp [hcol]
    case inr =>
      have hstart : endsPlain false (.start ((blanks ++ more) ++ tail)) = true := by
        obtain ⟨c, blanks, rfl⟩ := List.exists_cons_of_ne_nil hblanksNe
        obtain rfl := hblanks c List.mem_cons_self
        rfl
      obtain ⟨q, hread, hpasses⟩ := readPlainWord_eq hrest hgoes hword hstart hlength
      have hgoesMore := goesOn_of_append (goesOn_of_append hgoes)
      have hafter : q.rest = (blanks ++ more) ++ tail :=
        hpasses.rest_eq (by rw [hrest, List.append_assoc])
      obtain ⟨w, hspace, hblanksPass⟩ :=
        readPlainSpace_blanks hafter hblanks hblanksNe hmore hgoesMore hmoreNe
      -- the next word begins at `w`, with less of the scalar left
      have hpassed := hpasses.trans hblanksPass
      have hleft : w.rest = more ++ tail := hblanksPass.rest_eq (by rw [hafter, List.append_assoc])
      have hright : indent ≤ w.column := by
        have := hpassed.column
        omega
      have hless : more.length < fuel := by
        have := List.length_pos_iff.2 hblanksNe
        simp only [List.length_append] at hfuel
        omega
      have hseesMore : w.sees '#' = false := by
        obtain ⟨c, more, rfl⟩ := List.exists_cons_of_ne_nil hmoreNe
        simpa [Cursor.sees, Cursor.peek, hleft] using hmoreComment
      obtain ⟨last, hlast, hfrom⟩ := ih blanks hleft hgoesMore hmoreNe hmore hmoreComment
        (fun r hr => hstops r (by simpa using hpassed.trans hr)) hright hless
      refine ⟨last, by simpa using hpassed.trans hlast, ?_⟩
      refine (readPlainFrom_word space hsees hwordNe hread).trans ?_
      have hnot : ¬(w.column : Int) < indent := by omega
      simp [hspace, hseesMore, hnot, hfrom, hblanksNe]

/-- Whether a plain scalar can begin with a character does not depend on what
follows the scalar. -/
theorem startsPlain_append {r : TokenReader} (hflow : r.flow = 0)
    (hrest : r.place.rest = (c :: t) ++ tail)
    (h : (TokenReader.start (c :: t)).startsPlain c = true) : r.startsPlain c = true := by
  have hnext : isGap ((TokenReader.start (c :: t)).place.peekAt 1) = false →
      isGap (r.place.peekAt 1) = false := by
    cases t with
    | nil => exact fun hgap => nomatch hgap
    | cons d t =>
      have hsame : r.place.peekAt 1 = some d := by rw [Cursor.peekAt, hrest]; rfl
      exact fun hgap => hsame ▸ hgap
  have hflows : r.inFlow = false := by simp [TokenReader.inFlow, hflow]
  have hstart : (TokenReader.start (c :: t)).inFlow = false := rfl
  simp only [TokenReader.startsPlain, hflows, hstart, Bool.not_false, Bool.and_true] at h ⊢
  by_cases hdash : c = '-'
  · rw [if_pos hdash, Bool.not_eq_true'] at h ⊢
    exact hnext h
  · rw [if_neg hdash] at h ⊢
    split at h
    next hsign => rw [if_pos hsign, hnext (Bool.not_eq_true' _ ▸ h), Bool.not_false]
    next hsign => rwa [if_neg hsign]

namespace IsPlain

/-- A plain scalar is not empty, and begins neither with a blank nor as a
comment does. -/
theorem exists_cons (h : IsPlain t) :
    ∃ c u, t = c :: u ∧ (TokenReader.start t).startsPlain c = true ∧ c ≠ '#'
      ∧ isGap (some c) = false := by
  obtain ⟨c, hc, hstarts⟩ := (Option.any_eq_true _ _).1 h.starts
  obtain ⟨u, rfl⟩ := List.head?_eq_some_iff.1 hc
  refine ⟨c, u, rfl, hstarts, ?_, ?_⟩
  · rintro rfl
    cases hstarts
  · by_cases hgap : isGap (some c) = true
    · have hne {d : Char} (hd : isGap (some d) = false) : c ≠ d := by
        rintro rfl
        rw [hgap] at hd
        cases hd
      have hdash : c ≠ '-' := hne (by decide)
      have hquestion : c ≠ '?' := hne (by decide)
      have hcolon : c ≠ ':' := hne (by decide)
      simp [TokenReader.startsPlain, hdash, hquestion, hcolon, hgap] at hstarts
    · simpa using hgap

/-- **A plain scalar is read whole**, wherever it stands on a line. What
stops it there is given from outside: the end of the text, of the line, or of
the key. -/
theorem readPlain_eq (h : IsPlain t) {indent : Int} (hrest : p.rest = t ++ tail)
    (hend : endsPlain false (.start tail) = true)
    (hstops : ∀ q, p.Passes t q → StopsAt indent q) (hcolumn : indent ≤ p.column) :
    ∃ q, p.Passes t q ∧ readPlain false indent p = (t, (readPlainSpace q).2) := by
  obtain ⟨c, u, rfl, -, hcomment, hgap⟩ := h.exists_cons
  have hblank : c ≠ ' ' := by
    rintro rfl
    cases hgap
  exact readPlainFrom_eq [] hrest h.goesOn (List.cons_ne_nil c u) (by simpa using hblank)
    (by simpa using hcomment) hend hstops hcolumn (by rw [hrest, List.length_append]; omega)

end IsPlain

theorem readPlainSpace_of_peek (h : ∀ c, p.peek = some c → isGap (some c) = false) :
    readPlainSpace p = (none, false, p) := by
  have hbreak : p.lineBreak = ([], p) := by
    refine Cursor.lineBreak_of_not_isBreak fun c hc => ?_
    have hgap := h c hc
    simp only [isGap, Bool.or_eq_false_iff] at hgap
    exact hgap.2
  have htaken : p.takeWhile (· = ' ') = ([], p) := by
    cases hrest : p.rest with
    | nil => simp [Cursor.takeWhile, hrest, Cursor.skip]
    | cons c u =>
      have hc : c ≠ ' ' := by
        rintro rfl
        have hgap := h ' ' (by rw [Cursor.peek, hrest]; rfl)
        cases hgap
      simp [Cursor.takeWhile, hrest, hc, Cursor.skip]
  simp [readPlainSpace, htaken, hbreak]

/-- A line feed at the end of a text is passed after a scalar. -/
theorem readPlainSpace_lineFeed (h : p.rest = ['\n']) :
    ∃ more, readPlainSpace p = (some more, true, p.next) := by
  obtain ⟨rest, index, line, column⟩ := p
  obtain rfl : rest = ['\n'] := h
  exact ⟨_, rfl⟩

end EditBlocks.Yaml
