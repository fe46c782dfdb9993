import EditBlocks.Proofs.Success
import EditBlocks.Proofs.Yaml.Plain
import EditBlocks.Yaml.Document

/-!
# A plain scalar as a value

A plain scalar that makes up a YAML text is what the text stands for, and
behind a key and a colon it stands for the same (`Yaml.read_line`). The text
is read in at most four steps – the key, the colon, the scalar, the end – and
what is known of the reader before each is all that the step asks for: where
it stands, the indentation that is open, and the places that may be keys.

The reader is thus followed by hand, one lemma for each token, and the tokens
it gives are those of a mapping with one entry. What the mapping stands for
is looked at last, and there only the scalar can be wrong.

This is about the reader at hand. Statements about runs are about any reader,
and ask for no more than what is shown of this one here (`Yaml.ReadsPlain`).
-/

namespace EditBlocks.Yaml

namespace TokenReader

variable {r : TokenReader} {q : Cursor} {c : Char} {t u blanks tail : Text} {fuel : Nat}

/-! ## What comes before a token

Old places that may be keys are dropped, indentation is closed, and white
space is passed. In one line none of this does anything but at its end. -/

/-- Places that can no longer be keys are let go, if none of them has to be
one. -/
theorem dropStale_eq_filter (h : ∀ e ∈ r.keys, r.isStale e.2 = true → e.2.required = false) :
    r.dropStale = some { r with keys := r.keys.filter fun e => !r.isStale e.2 } := by
  refine if_neg ?_
  simp only [List.any_eq_true, Bool.and_eq_true, not_exists, not_and]
  intro e he hstale
  simp [h e he hstale]

/-- Places of keys on the line at hand, and not far back, can still be
keys. -/
theorem dropStale_eq (h : ∀ e ∈ r.keys, r.isStale e.2 = false) : r.dropStale = some r := by
  have hnone : ∀ e ∈ r.keys, r.isStale e.2 = true → e.2.required = false := fun e he hstale => by
    simp [h e he] at hstale
  rw [dropStale_eq_filter hnone, List.filter_eq_self.2 fun e he => by simp [h e he]]

/-- Nothing is closed by a column at or after the indentation. -/
theorem closed_of_le {column indent : Int} (h : indent ≤ column) (outer : List Int) :
    closed column indent outer = ([], indent, outer) := by
  cases outer with
  | nil => rfl
  | cons n rest => rw [closed, if_neg (by omega)]

theorem unwind_of_le {column : Int} (h : r.indent ≤ column) : r.unwind column = r := by
  rw [unwind]
  split
  · rfl
  · rw [closed_of_le h]
    simp

theorem skipGaps_eq (fuel : Nat) (hrest : r.place.rest = t ++ u) (ht : ∀ c ∈ t, c = ' ')
    (hu : ∀ c, u.head? = some c → isGap (some c) = false ∧ c ≠ '#') :
    ∃ q, r.place.Passes t q ∧ skipGaps (fuel + 1) r = r.moveTo q := by
  have hblank : u.head? ≠ some ' ' := fun h => by simpa [isGap] using (hu ' ' h).1
  obtain ⟨q, htaken, hpasses⟩ := Cursor.passes_takeWhile hrest ht hblank
  have hpeek : q.peek = u.head? := by rw [Cursor.peek, hpasses.rest_eq hrest]
  have hsees : q.sees '#' = false := by
    by_cases h : q.sees '#' = true
    · have : u.head? = some '#' := by simpa [Cursor.sees, hpeek] using h
      exact absurd rfl (hu '#' this).2
    · simpa using h
  have hbreak : q.lineBreak = ([], q) := by
    refine Cursor.lineBreak_of_not_isBreak fun c hc => ?_
    have hgap := (hu c (hpeek ▸ hc)).1
    simp only [isGap, Bool.or_eq_false_iff] at hgap
    exact hgap.2
  refine ⟨q, hpasses, ?_⟩
  have hskip : r.place.skipBlanks = q := by rw [Cursor.skipBlanks, htaken]
  simp [skipGaps, hskip, hsees, hbreak]

/-- **The next token is read** where it stands, after blanks. The hypotheses
are what the state has to be like for nothing else to happen first. -/
theorem readAll_succ (fuel : Nat) (hrest : r.place.rest = t ++ c :: u) (ht : ∀ c ∈ t, c = ' ')
    (hc : isGap (some c) = false) (hcomment : c ≠ '#')
    (hmark : (t ++ c :: u).head? ≠ some '\ufeff')
    (hkeys : ∀ e ∈ r.keys, e.2.place.line = r.place.line
      ∧ r.place.index + t.length ≤ e.2.place.index + maxKeyLength)
    (hindent : r.indent ≤ r.place.column) :
    ∃ q, r.place.Passes t q
      ∧ readAll (fuel + 1) r = ((r.moveTo q).readToken c).bind (readAll fuel) := by
  have hfirst : r.skipMark = r := by
    have : r.place.sees '\ufeff' = false := by simpa [Cursor.sees, Cursor.peek, hrest] using hmark
    simp [skipMark, this]
  obtain ⟨q, hpasses, hskip⟩ := skipGaps_eq r.place.rest.length hrest ht
    (by rintro d ⟨⟩; exact ⟨hc, hcomment⟩)
  have hstale : (r.moveTo q).dropStale = some (r.moveTo q) := by
    refine dropStale_eq fun e he => ?_
    obtain ⟨hline, hindex⟩ := hkeys e he
    have := hpasses.index
    have := hpasses.line
    simp [isStale, moveTo, hline, hpasses.line, hpasses.index]
    omega
  have hunwind : (r.moveTo q).unwind (r.moveTo q).column = r.moveTo q := by
    refine unwind_of_le ?_
    have := hpasses.column
    show r.indent ≤ (q.column : Int)
    omega
  have hpeek : (r.moveTo q).place.peek = some c := by
    show q.rest.head? = some c
    rw [hpasses.rest_eq hrest]
    rfl
  refine ⟨q, hpasses, ?_⟩
  simp [readAll, hfirst, hskip, hstale, hunwind, hpeek]

theorem exists_dropKey (h : ∀ e ∈ r.keys, e.2.required = false) :
    ∃ r', r.dropKey = some r' ∧ r'.tokens = r.tokens := by
  rw [dropKey]
  cases hkey : r.key? with
  | none => exact ⟨r, rfl, rfl⟩
  | some key =>
    obtain ⟨e, hfound, rfl⟩ := Option.map_eq_some_iff.1 hkey
    refine ⟨r.forgetKey, ?_, rfl⟩
    simp [h e (List.mem_of_find?_eq_some hfound)]

theorem finish_eq (hflow : r.flow = 0) (hkeys : ∀ e ∈ r.keys, e.2.required = false) :
    r.finish = some (r.tokens ++ (closed (-1) r.indent r.indents).1 ++ [.streamEnd]) := by
  have hflows : r.inFlow = false := by simp [inFlow, hflow]
  have hclosed : (r.unwind (-1)).tokens = r.tokens ++ (closed (-1) r.indent r.indents).1
      ∧ (r.unwind (-1)).keys = r.keys := by
    simp [unwind, hflows]
  obtain ⟨r', hlet, htokens⟩ := exists_dropKey (r := r.unwind (-1)) (hclosed.2 ▸ hkeys)
  simp [finish, hlet, htokens, hclosed.1]

/-- **A text ends** where nothing is left of it. -/
theorem readAll_end (hrest : r.place.rest = []) (hflow : r.flow = 0)
    (hkeys : ∀ e ∈ r.keys, e.2.required = false) (hindent : r.indent ≤ r.place.column) :
    readAll (fuel + 1) r
      = some (r.tokens ++ (closed (-1) r.indent r.indents).1 ++ [.streamEnd]) := by
  have hfirst : r.skipMark = r := by simp [skipMark, Cursor.sees, Cursor.peek, hrest]
  obtain ⟨q, hpasses, hskip⟩ := skipGaps_eq r.place.rest.length (t := []) (u := [])
    hrest (by simp) (by simp)
  -- of the places of keys some are let go
  obtain ⟨r', hdrop, hsame, hsub⟩ : ∃ r', (r.moveTo q).dropStale = some r'
      ∧ r' = { r with place := q, keys := r'.keys } ∧ ∀ e ∈ r'.keys, e ∈ r.keys :=
    ⟨_, dropStale_eq_filter fun e he _ => hkeys e he, rfl,
      fun e he => (List.mem_filter.1 he).1⟩
  have hplace : r'.place = q := by rw [hsame]
  have hunwind : r'.unwind r'.column = r' := by
    refine unwind_of_le ?_
    have := hpasses.column
    rw [column, hplace, hsame]
    show r.indent ≤ (q.column : Int)
    omega
  have hpeek : r'.place.peek = none := by rw [hplace, Cursor.peek, hpasses.rest_eq hrest]; rfl
  have hfinish := finish_eq (r := r') (by rw [hsame]; exact hflow)
    fun e he => hkeys e (hsub e he)
  have htokens : r'.tokens = r.tokens ∧ r'.indent = r.indent ∧ r'.indents = r.indents := by
    rw [hsame]
    exact ⟨rfl, rfl, rfl⟩
  rw [htokens.1, htokens.2.1, htokens.2.2] at hfinish
  simp only [readAll, hfirst, hskip, hdrop, hunwind, hpeek, hfinish, Option.bind_eq_bind,
    Option.bind_some]

/-! ## Tokens

The scalar that is to be a key is read first, and becomes one at the colon.
-/

/-- A plain scalar is what begins as one does, where no mark between
documents stands. -/
theorem readToken_plain (h : r.startsPlain c = true) (hflow : r.flow = 0)
    (hmark : r.place.column = 0 → r.place.seesDocumentMark = false) : r.readToken c = r.plain := by
  have hflows : r.inFlow = false := by simp [inFlow, hflow]
  have hmarks (mark : Text) (hmem : mark = ['-', '-', '-'] ∨ mark = ['.', '.', '.']) :
      ¬(r.place.column = 0 ∧ r.place.seesMark mark = true) := by
    rintro ⟨hcolumn, hsees⟩
    have hnone := hmark hcolumn
    rw [Cursor.seesDocumentMark, Bool.or_eq_false_iff] at hnone
    rcases hmem with rfl | rfl
    · exact absurd (hnone.1.symm.trans hsees) (by decide)
    · exact absurd (hnone.2.symm.trans hsees) (by decide)
  have hsigns : c ∉ ['%', '[', ']', '\x7b', '\x7d', ',', '*', '&', '!', '|', '>', '\'', '"'] := by
    intro hmem
    have hall : ∀ d ∈ ['%', '[', ']', '\x7b', '\x7d', ',', '*', '&', '!', '|', '>', '\'', '"'],
        r.startsPlain d = false := by
      simp [startsPlain]
    rw [hall c hmem] at h
    cases h
  -- a sign that begins a scalar stands before no white space
  have hsign {d : Char} (hd : r.startsPlain d = !isGap (r.place.peekAt 1)) :
      (c = d && isGap (r.place.peekAt 1)) = false := by
    by_cases hc : c = d
    · subst hc
      simpa [h] using hd
    · simp [hc]
  have hdash := hsign (d := '-') (by simp [startsPlain])
  have hquestion := hsign (d := '?') (by simp [startsPlain, hflows])
  have hcolon := hsign (d := ':') (by simp [startsPlain, hflows])
  simp only [List.mem_cons, List.not_mem_nil, or_false, not_or] at hsigns
  simp [readToken, hflows, hmarks, hsigns, hdash, hquestion, hcolon, h]

/-- **A plain scalar is read** with the blanks before it. Where keys are
allowed it may be one. -/
theorem readAll_plain (fuel : Nat) (blanks tail : Text) (h : IsPlain t)
    (hrest : r.place.rest = blanks ++ (t ++ tail))
    (hblanks : ∀ c ∈ blanks, c = ' ') (hflow : r.flow = 0) (hkeys : r.keys = [])
    (hindent : r.indent < r.place.column)
    (hmark : ∀ q, r.place.Passes blanks q → q.column = 0 → q.seesDocumentMark = false)
    (hend : endsPlain false (.start tail) = true)
    (hstops : ∀ q, r.place.Passes (blanks ++ t) q → StopsAt (r.indent + 1) q) :
    ∃ q q', r.place.Passes blanks q ∧ q.Passes t q'
      ∧ readAll (fuel + 1) r = readAll fuel
        { r with
          place := (readPlainSpace q').2.2
          keyAllowed := (readPlainSpace q').2.1
          keys := if r.keyAllowed then [(0, ⟨r.tokens.length, false, q⟩)] else []
          tokens := r.tokens ++ [.scalar true t] } := by
  obtain ⟨c, u, rfl, hstarts, hcomment, hgap⟩ := h.exists_cons
  have hfirst : (blanks ++ c :: (u ++ tail)).head? ≠ some '\ufeff' := by
    cases blanks with
    | nil => exact h.unmarked.2
    | cons d blanks =>
      obtain rfl := hblanks d List.mem_cons_self
      rintro ⟨⟩
  obtain ⟨q, hpasses, hread⟩ := readAll_succ fuel hrest hblanks hgap hcomment hfirst
    (by simp [hkeys]) (Int.le_of_lt hindent)
  have hplace : q.rest = (c :: u) ++ tail := hpasses.rest_eq hrest
  have hcolumn : r.indent + 1 ≤ q.column := by
    have := hpasses.column
    omega
  obtain ⟨q', hpasses', hplain⟩ := h.readPlain_eq hplace hend
    (fun q' hq' => hstops q' (hpasses.trans hq')) hcolumn
  have htoken : (r.moveTo q).readToken c = (r.moveTo q).plain :=
    readToken_plain (startsPlain_append (r := r.moveTo q) hflow hplace hstarts) hflow
      (hmark q hpasses)
  -- it is no key that has to be one
  have hsave : (r.moveTo q).saveKey = some { r with
      place := q
      keys := if r.keyAllowed then [(0, ⟨r.tokens.length, false, q⟩)] else [] } := by
    have hnot : r.indent ≠ (q.column : Int) := by omega
    cases hallowed : r.keyAllowed <;>
      simp [saveKey, moveTo, hallowed, dropKey, key?, hkeys, inFlow, hflow, column, hnot]
  have hflows : ({ r with
      place := q
      keys := if r.keyAllowed then [(0, ⟨r.tokens.length, false, q⟩)] else [] } :
        TokenReader).inFlow = false := by simp [inFlow, hflow]
  refine ⟨q, q', hpasses, hpasses', hread.trans ?_⟩
  rw [htoken, plain, hsave]
  simp only [Option.bind_eq_bind, Option.bind_some, hflows, hplain]
  rfl

/-- **A colon makes a key of the first token** and opens a mapping at its
column. -/
theorem readAll_value (fuel : Nat) (key : PossibleKey) (hrest : r.place.rest = ':' :: ' ' :: u)
    (hflow : r.flow = 0) (hkeys : r.keys = [(0, key)]) (hnumber : key.number = 0)
    (hline : key.place.line = r.place.line)
    (hindex : r.place.index ≤ key.place.index + maxKeyLength)
    (hindent : r.indent < key.place.column) (hcolumn : r.indent ≤ r.place.column) :
    ∃ q, r.place.Passes [':'] q
      ∧ readAll (fuel + 1) r = readAll fuel
        { r with
          place := q
          keyAllowed := false
          keys := []
          indent := key.place.column
          indents := r.indent :: r.indents
          tokens := .blockMappingStart :: .key :: r.tokens ++ [.value] } := by
  obtain ⟨q, hpasses, hread⟩ := readAll_succ fuel (t := []) hrest (by simp)
    (by decide) (by decide) (by simp) (by simpa [hkeys, hline] using hindex) hcolumn
  have hplace : q.rest = ':' :: ' ' :: u := hpasses.rest_eq hrest
  have htoken : (r.moveTo q).readToken ':' = (r.moveTo q).value := by
    have hgap : isGap (q.peekAt 1) = true := by rw [Cursor.peekAt, hplace]; rfl
    have hmark {d : Char} (hd : d ≠ ':') (mark : Text) : q.seesMark (d :: mark) = false := by
      simp [Cursor.seesMark, hplace, Text.startsWith, hd]
    simp [readToken, moveTo, hmark, hgap]
  have hvalue : (r.moveTo q).value = some { r with
      place := q.next
      keyAllowed := false
      keys := []
      indent := key.place.column
      indents := r.indent :: r.indents
      tokens := .blockMappingStart :: .key :: r.tokens ++ [.value] } := by
    have hkey : (r.moveTo q).key? = some key := by simp [key?, moveTo, hkeys, hflow]
    rw [value, hkey]
    simp [forgetKey, moveTo, hkeys, hflow, inFlow, hnumber, openAt, hindent, allowKey, passSign,
      emit]
  refine ⟨q.next, hpasses.trans (Cursor.passes_next hplace (by decide)), ?_⟩
  rw [hread, htoken, hvalue, Option.bind_some]

end TokenReader

open TokenReader

variable {key t tail : Text} {q : Cursor} {r : TokenReader}

theorem seesDocumentMark_congr {p q : Cursor} (h : p.rest = q.rest) :
    p.seesDocumentMark = q.seesDocumentMark := by
  simp only [Cursor.seesDocumentMark, Cursor.seesMark, Cursor.peekAt, h]

/-- A plain scalar before a colon is no mark between documents. -/
theorem IsPlain.not_seesDocumentMark (h : IsPlain key) (u : Text) :
    (Cursor.start (key ++ ':' :: u)).seesDocumentMark = false := by
  have hmark {c : Char} (hc : c ≠ ':') (hnone : (Cursor.start key).seesMark [c, c, c] = false) :
      (Cursor.start (key ++ ':' :: u)).seesMark [c, c, c] = false := by
    match key, hnone with
    | [], _ | [_], _ | [_, _], _ => simp [Cursor.seesMark, Cursor.start, Text.startsWith, hc]
    | [_, _, _], _ => simp [Cursor.seesMark, Cursor.start, Cursor.peekAt, isGap, isBreak]
    | _ :: _ :: _ :: _ :: _, hnone => exact hnone
  obtain ⟨hdashes, hdots⟩ := Bool.or_eq_false_iff.1 h.unmarked.1
  exact Bool.or_eq_false_iff.2 ⟨hmark (by decide) hdashes, hmark (by decide) hdots⟩

/-- A text ends a plain scalar, and so does a line, in a collection. -/
theorem readPlainSpace_end (htail : tail = [] ∨ tail = ['\n']) (h : q.rest = tail) :
    StopsAt 1 q ∧ (readPlainSpace q).2.2.rest = [] := by
  rcases htail with rfl | rfl
  · rw [StopsAt, readPlainSpace_of_peek (by simp [Cursor.peek, h])]
    exact ⟨.inl rfl, h⟩
  · obtain ⟨more, hspace⟩ := readPlainSpace_lineFeed h
    have hnext : q.next = ⟨[], q.index + 1, q.line + 1, 0⟩ := by
      rw [Cursor.next, h]
      rfl
    rw [StopsAt, hspace, hnext]
    exact ⟨.inr (by simp), rfl⟩

/-- **The tokens of a plain scalar.** -/
theorem tokens?_of_isPlain (h : IsPlain t) : tokens? t = some [.scalar true t, .streamEnd] := by
  have hspace {q : Cursor} (hq : (Cursor.start t).Passes ([] ++ t) q) :
      readPlainSpace q = (none, false, q) ∧ q.rest = [] := by
    have hrest : q.rest = [] := hq.rest_eq (by simp [Cursor.start])
    exact ⟨readPlainSpace_of_peek (by simp [Cursor.peek, hrest]), hrest⟩
  obtain ⟨q, q', hq, hq', hread⟩ := readAll_plain (t.length + 1) [] [] (r := start t) h
    (by simp [start, Cursor.start]) (by simp) rfl rfl (by simp [start, Cursor.start])
    (fun q hq _ => (seesDocumentMark_congr (q := .start t) (hq.rest_eq rfl)).trans h.unmarked.1)
    rfl (fun q hq => .inl (by rw [(hspace hq).1]))
  obtain ⟨hspace', hrest⟩ := hspace (hq.trans hq')
  rw [tokens?, if_pos h.admitted, hread, hspace']
  refine readAll_end hrest rfl (by simp [start]) ?_
  show (-1 : Int) ≤ q'.column
  omega

/-- **The key of a line** is read up to the colon, and may be one. The place
before it is kept for that. -/
theorem readAll_key (fuel : Nat) (hkey : IsPlain key) (u : Text) :
    ∃ p q, p.column = 0 ∧ p.Passes key q ∧ q.rest = ':' :: ' ' :: u
      ∧ readAll (fuel + 1) (start (key ++ ':' :: ' ' :: u)) = readAll fuel
        { start (key ++ ':' :: ' ' :: u) with
          place := q
          keyAllowed := false
          keys := [(0, ⟨0, false, p⟩)]
          tokens := [.scalar true key] } := by
  have hspace {q : Cursor} (hq : (Cursor.start (key ++ ':' :: ' ' :: u)).Passes ([] ++ key) q) :
      readPlainSpace q = (none, false, q) ∧ q.rest = ':' :: ' ' :: u := by
    have hrest : q.rest = ':' :: ' ' :: u := hq.rest_eq rfl
    refine ⟨readPlainSpace_of_peek ?_, hrest⟩
    rw [Cursor.peek, hrest]
    rintro c ⟨⟩
    rfl
  obtain ⟨p, q, hp, hq, hread⟩ := readAll_plain fuel [] (':' :: ' ' :: u)
    (r := start (key ++ ':' :: ' ' :: u)) hkey rfl (by simp) rfl rfl
    (by simp [start, Cursor.start])
    (fun q hq _ => (seesDocumentMark_congr (q := .start _) (hq.rest_eq rfl)).trans
      (hkey.not_seesDocumentMark _))
    rfl (fun q hq => .inl (by rw [(hspace hq).1]))
  obtain ⟨hspace', hrest⟩ := hspace (hp.trans hq)
  rw [hspace'] at hread
  exact ⟨p, q, hp.column, hq, hrest, hread⟩

/-- **The value of a line** is read up to the end of the text, which ends the
mapping. -/
theorem readAll_lineEnd (fuel : Nat) (h : IsPlain t) (htail : tail = [] ∨ tail = ['\n'])
    (hrest : r.place.rest = ' ' :: (t ++ tail)) (hflow : r.flow = 0) (hkeys : r.keys = [])
    (hallowed : r.keyAllowed = false) (hindent : r.indent = 0) (hindents : r.indents = [-1])
    (hcolumn : 0 < r.place.column) :
    readAll (fuel + 1 + 1) r = some (r.tokens ++ [.scalar true t, .blockEnd, .streamEnd]) := by
  obtain ⟨p, q, hp, hq, hread⟩ := readAll_plain (fuel + 1) [' '] tail h hrest (by simp) hflow
    hkeys (by omega)
    (fun q hq hzero => by
      have := hq.column
      omega)
    (by rcases htail with rfl | rfl <;> rfl)
    (fun q hq => by
      rw [hindent]
      exact (readPlainSpace_end htail (hq.rest_eq hrest)).1)
  have hend := (readPlainSpace_end htail ((hp.trans hq).rest_eq hrest)).2
  rw [hread]
  refine Eq.trans (readAll_end hend hflow (by simp [hallowed]) ?_) ?_
  · show r.indent ≤ (readPlainSpace q).2.2.column
    omega
  · simp [hindent, hindents, closed]

/-- **The tokens of a key with a plain scalar** as its value, on one line. -/
theorem tokens?_line (hkey : IsPlain key) (hshort : key.length ≤ maxKeyLength) (h : IsPlain t)
    (htail : tail = [] ∨ tail = ['\n']) :
    tokens? (key ++ ':' :: ' ' :: (t ++ tail))
      = some [.blockMappingStart, .key, .scalar true key, .value, .scalar true t, .blockEnd,
        .streamEnd] := by
  have hadmitted : (key ++ ':' :: ' ' :: (t ++ tail)).all isAdmitted = true := by
    have hended : tail.all isAdmitted = true := by rcases htail with rfl | rfl <;> rfl
    have hsigns : isAdmitted ':' = true ∧ isAdmitted ' ' = true := by decide
    simp only [List.all_append, List.all_cons, hkey.admitted, h.admitted, hended, hsigns,
      Bool.and_self]
  obtain ⟨n, hfuel⟩ : ∃ n, (key ++ ':' :: ' ' :: (t ++ tail)).length + 2 = n + 1 + 1 + 1 + 1 :=
    ⟨key.length + t.length + tail.length, by simp; omega⟩
  rw [tokens?, if_pos hadmitted, hfuel]
  obtain ⟨p, q, hcolumn, hq, hrest, hread⟩ := readAll_key (n + 1 + 1 + 1) hkey (t ++ tail)
  have hnear : q.index ≤ p.index + maxKeyLength := by
    rw [hq.index]
    omega
  obtain ⟨q', hq', hvalue⟩ := readAll_value (n + 1 + 1) ⟨0, false, p⟩
    (r := { start (key ++ ':' :: ' ' :: (t ++ tail)) with
      place := q
      keyAllowed := false
      keys := [(0, ⟨0, false, p⟩)]
      tokens := [.scalar true key] }) hrest rfl rfl rfl hq.line.symm hnear
    (by simp [start, hcolumn]) (by simp [start])
  have hright : 0 < q'.column := by
    have : q'.column = q.column + 1 := hq'.column
    omega
  rw [hread, hvalue]
  exact readAll_lineEnd n h htail (hq'.rest_eq hrest) rfl rfl rfl (by simp [hcolumn]) rfl hright

/-! ## Values

The value of an entry is that of its scalar, and so is what is wrong with it.
-/

namespace Node

variable {tag : Tag} {s : Scalar}

/-- The node of a key that is a text, with a scalar. -/
def entry (key : Text) (tag : Tag) (t : Text) : Node :=
  .mapping .mapping [(.scalar .text key, .scalar tag t)]

theorem fault?_scalar (tag : Tag) (t : Text) : (scalar tag t).fault? = scalarFault tag t := by
  show firstFault [(scalar tag t).faultHere, (scalar tag t).faultBelow 0] = _
  have hscalar (hhere : (scalar tag t).faultHere = scalarFault tag t)
      (hbelow : (scalar tag t).faultBelow 0 = none) :
      firstFault [(scalar tag t).faultHere, (scalar tag t).faultBelow 0] = scalarFault tag t := by
    rw [hhere, hbelow]
    cases scalarFault tag t <;> rfl
  cases tag with
  | sequence | mapping => rfl
  | _ => exact hscalar rfl rfl

/-- Nothing is wrong with a scalar that stands for something. -/
theorem faults_of_read (h : tag.read t = some (.ok s)) :
    (scalar tag t).faultHere = none ∧ (scalar tag t).faultBelow 0 = none := by
  have hnone : scalarFault tag t = none := by rw [scalarFault, h]
  cases tag with
  | sequence | mapping | merge | usualValue | unknown => cases h
  | _ => exact ⟨hnone, rfl⟩

/-- Nor with a key that has it. -/
theorem fault?_entry (key : Text) (h : tag.read t = some (.ok s)) :
    (entry key tag t).fault? = none := by
  obtain ⟨hhere, hbelow⟩ := faults_of_read h
  have hroot : (entry key tag t).faultBelow 0 = none := by
    show firstFault [none, (scalar tag t).faultHere] = none
    rw [hhere]
    rfl
  have hvalue : (entry key tag t).faultBelow 1 = none := by
    show firstFault [(scalar tag t).faultBelow 0] = none
    rw [hbelow]
    rfl
  show firstFault [none, (entry key tag t).faultBelow 0, (entry key tag t).faultBelow 1] = none
  rw [hroot, hvalue]
  rfl

end Node

variable {s : Scalar}

/-- A point in time is neither a text nor bytes. -/
theorem ne_of_readMoment (h : readMoment t = .ok s) :
    (∀ u, s ≠ .text u) ∧ ∀ bytes, s ≠ .bytes bytes := by
  rw [readMoment] at h
  split at h
  · cases h
  · split at h
    · obtain ⟨date, -, rfl⟩ := map_eq_ok_iff.1 h
      exact ⟨(fun _ h => nomatch h), fun _ h => nomatch h⟩
    · obtain ⟨offset, -, hoffset⟩ := bind_eq_ok_iff.1 h
      obtain ⟨date, -, hdate⟩ := bind_eq_ok_iff.1 hoffset
      split at hdate
      · cases hdate
      · split at hdate
        · cases hdate
        · split at hdate <;> cases hdate
          all_goals exact ⟨(fun _ h => nomatch h), fun _ h => nomatch h⟩

/-- **A scalar that stands for a text** stands for its own, and none stands
for bytes. -/
theorem eq_of_read {tag : Tag} (h : tag.read t = some (.ok s)) :
    (∀ u, s = .text u → u = t) ∧ ∀ bytes, s ≠ .bytes bytes := by
  cases tag with
  | text =>
    cases h
    exact ⟨fun _ hu => (Scalar.text.inj hu).symm, fun _ h => nomatch h⟩
  | timestamp =>
    obtain ⟨htext, hbytes⟩ := ne_of_readMoment (Option.some.inj h)
    exact ⟨fun u hu => absurd hu (htext u), hbytes⟩
  | bool | int | float =>
    obtain ⟨_, -, rfl⟩ := map_eq_ok_iff.1 (Option.some.inj h)
    exact ⟨(fun _ h => nomatch h), fun _ h => nomatch h⟩
  | null =>
    cases h
    exact ⟨(fun _ h => nomatch h), fun _ h => nomatch h⟩
  | _ => cases h

/-- **A plain scalar stands for what it looks like.** -/
theorem read_of_isPlain (h : IsPlain t) :
    read t = .ok (.scalar s) ↔ (plainTag t).read t = some (.ok s) := by
  have hnode : node? t = some (some (.scalar (plainTag t) t)) := by
    rw [node?, tokens?_of_isPlain h]
    rfl
  rw [read, hnode]
  simp only [Node.fault?_scalar, Node.scalarFault]
  cases hread : (plainTag t).read t with
  | none => simp
  | some found =>
    cases found with
    | error e => simp
    | ok s' => simp [Node.toValue, Node.keyOf, hread]

/-- **Behind a key it stands for the same**, with or without the end of the
line. -/
theorem read_line (hkey : IsPlain key) (hshort : key.length ≤ maxKeyLength)
    (htext : plainTag key = .text) (h : IsPlain t) (htail : tail = [] ∨ tail = ['\n'])
    (hread : read t = .ok (.scalar s)) :
    read (key ++ ':' :: ' ' :: (t ++ tail)) = .ok (.mapping [(.text key, .scalar s)]) := by
  have hvalue := (read_of_isPlain h).1 hread
  have hnode : node? (key ++ ':' :: ' ' :: (t ++ tail))
      = some (some (Node.entry key (plainTag t) t)) := by
    rw [node?, tokens?_line hkey hshort h htail, Node.entry, ← htext]
    rfl
  rw [read, hnode]
  simp only [Node.fault?_entry key hvalue]
  show Except.ok (Value.mapping [(.text key, .scalar (Node.scalar (plainTag t) t).keyOf)]) = _
  rw [Node.keyOf, hvalue]

end EditBlocks.Yaml
