import EditBlocks.Proofs.Block.LineEnd
import EditBlocks.Proofs.Block.Writing

/-!
# The attributes of an opening tag

An opening tag may hold other attributes beside the one that names the file,
each written as white space, a name, an equals sign and a value in quotation
marks (`Marker.Attribute`). The path is looked for in the characters of the
tag, without regard to where a value begins and ends: white space, `file=`
and a quotation mark are taken for the beginning of the value wherever they
stand. Names that only end in `file` are not found so, for no white space
stands before their end (`Marker.Attribute.endsLikeFile_lead_iff`).

The text up to a quotation mark is thus searched alike whether it is the
beginning of an attribute or its value
(`Marker.fileAttribute?_append_quote`). A value that ends in white space and
`file=` misleads the search: its closing quotation mark is taken for an
opening one, and the text from there to the next quotation mark, which is the
beginning of the next attribute, for the path (`Marker.misled?`). With that
the path is told exactly, and it is that of the first attribute with the name
`file` exactly when no value before it misleads the search to another text
(`Block.opensAsNamed_iff`).
-/

namespace EditBlocks

namespace Marker

/-- The name of the attribute that names the file. -/
def fileName : Text := "file"

/-- **An attribute of a tag**: white space, a name, and a value in quotation
marks. -/
structure Attribute where
  /-- The white space before the name. -/
  gap : Text
  /-- The name. -/
  name : Text
  /-- The value, without its quotation marks. -/
  value : Text
  /-- Some white space is there. -/
  gap_ne_nil : gap ≠ []
  /-- It is spaces and tabs. -/
  gap_plain : ∀ c ∈ gap, c = ' ' ∨ c = '\t'
  /-- There is a name. -/
  name_ne_nil : name ≠ []
  /-- It is letters, digits, hyphens and underscores. -/
  name_plain : ∀ c ∈ name, isWordChar c = true ∨ c = '-'
  /-- Nothing in the value ends the quotation, the tag or the line. -/
  value_plain : ∀ c ∈ value, c ≠ '"' ∧ c ≠ '>' ∧ isLineBreak c = false

namespace Attribute

/-- An attribute up to its value. -/
def lead (a : Attribute) : Text := a.gap ++ (a.name ++ ['='])

/-- **The text of an attribute.** -/
def text (a : Attribute) : Text := a.lead ++ '"' :: (a.value ++ ['"'])

end Attribute

/-- **An opening tag with attributes**, as it is written. Nothing stands
between the last attribute and the end of the tag. -/
def tagOf (as : List Attribute) : Text := openingStart ++ (as.flatMap Attribute.text ++ ['>'])

/-- **The file that a tag names**: the value of its first attribute with the
name `file`. -/
def fileValue? (as : List Attribute) : Option Text :=
  (as.find? fun a => a.name = fileName).map Attribute.value

/-- **A text that ends like the beginning of the attribute for the file**: in
white space, `file` and an equals sign. -/
def EndsLikeFile (t : Text) : Prop :=
  ∃ before c, isBlankChar c = true ∧ t = before ++ c :: (fileName ++ ['='])

/-- One more character in front makes such an ending only where the rest is
all of it but the white space. -/
theorem endsLikeFile_cons_iff {c : Char} {t : Text} :
    EndsLikeFile (c :: t)
      ↔ isBlankChar c = true ∧ t = fileName ++ ['='] ∨ EndsLikeFile t := by
  constructor
  · rintro ⟨before, d, hd, h⟩
    cases before with
    | nil =>
      obtain ⟨rfl, rfl⟩ := List.cons.inj h
      exact Or.inl ⟨hd, rfl⟩
    | cons b before => exact Or.inr ⟨before, d, hd, (List.cons.inj h).2⟩
  · rintro (⟨hc, rfl⟩ | ⟨before, d, hd, rfl⟩)
    · exact ⟨[], c, hc, rfl⟩
    · exact ⟨c :: before, d, hd, rfl⟩

theorem not_endsLikeFile_nil : ¬EndsLikeFile [] := by
  rintro ⟨before, c, -, h⟩
  simp at h

instance instDecidableEndsLikeFile : DecidablePred EndsLikeFile
  | [] => isFalse not_endsLikeFile_nil
  | c :: t =>
    have := instDecidableEndsLikeFile t
    decidable_of_iff (isBlankChar c = true ∧ t = fileName ++ ['='] ∨ EndsLikeFile t)
      endsLikeFile_cons_iff.symm

/-- **The text that the search is misled to**: where, before an attribute
with the name `file`, a value ends like the beginning of one, the beginning
of the attribute after it. -/
def misled? : List Attribute → Option Text
  | [] => none
  | a :: rest =>
    if a.name = fileName then none
    else if EndsLikeFile a.value then rest.head?.map Attribute.lead
    else misled? rest

/-! ## Characters of names and gaps

What stands before the value of an attribute holds neither a quotation mark
nor a `>`, and it ends as the beginning of the path does when the name is
that one and in no other case. -/

/-- The code points of white space. -/
def blankCodes : List Nat :=
  [9, 10, 11, 12, 13, 28, 29, 30, 31, 32, 0x85, 0xa0, 0x1680, 0x2000, 0x2001, 0x2002, 0x2003,
    0x2004, 0x2005, 0x2006, 0x2007, 0x2008, 0x2009, 0x200a, 0x2028, 0x2029, 0x202f, 0x205f,
    0x3000]

theorem toNat_mem_blankCodes {c : Char} (h : isBlankChar c = true) : c.toNat ∈ blankCodes := by
  unfold isBlankChar at h
  simp only [Bool.or_eq_true, Bool.and_eq_true, decide_eq_true_eq] at h
  simp only [blankCodes, List.mem_cons, List.not_mem_nil, or_false]
  omega

theorem isWordChar_of_isBlankChar {c : Char} (h : isBlankChar c = true) :
    isWordChar c = false := by
  have hall : ∀ n ∈ blankCodes, isWordChar (Char.ofNat n) = false := by decide +kernel
  have hc := hall _ (toNat_mem_blankCodes h)
  rwa [Char.ofNat_toNat] at hc

/-- No character of a name is white space, a quotation mark or the end of a
tag. -/
theorem Attribute.name_safe (a : Attribute) {c : Char} (hc : c ∈ a.name) :
    isBlankChar c = false ∧ c ≠ '"' ∧ c ≠ '>' := by
  rcases a.name_plain c hc with hword | rfl
  · refine ⟨?_, ?_, ?_⟩
    · cases hblank : isBlankChar c with
      | false => rfl
      | true =>
        rw [isWordChar_of_isBlankChar hblank] at hword
        cases hword
    · rintro rfl
      exact absurd hword (by decide)
    · rintro rfl
      exact absurd hword (by decide)
  · decide

theorem Attribute.gap_safe (a : Attribute) {c : Char} (hc : c ∈ a.gap) :
    isBlankChar c = true ∧ c ≠ '"' ∧ c ≠ '>' := by
  rcases a.gap_plain c hc with rfl | rfl <;> decide

/-- No quotation mark and no end of a tag stands before the value of an
attribute. -/
theorem Attribute.lead_safe (a : Attribute) {c : Char} (hc : c ∈ a.lead) : c ≠ '"' ∧ c ≠ '>' := by
  rw [lead, List.mem_append, List.mem_append, List.mem_singleton] at hc
  rcases hc with hc | hc | rfl
  · exact (a.gap_safe hc).2
  · exact (a.name_safe hc).2
  · decide

theorem Attribute.lead_ne_nil (a : Attribute) : a.lead ≠ [] :=
  List.append_ne_nil_of_left_ne_nil a.gap_ne_nil _

/-- **An attribute begins like the one for the file exactly when it has its
name.** -/
theorem Attribute.endsLikeFile_lead_iff (a : Attribute) :
    EndsLikeFile a.lead ↔ a.name = fileName := by
  constructor
  · rintro ⟨before, c, hc, h⟩
    have hparts : a.gap ++ a.name = before ++ c :: fileName := by
      have hlast : a.gap ++ a.name ++ ['='] = before ++ c :: fileName ++ ['='] := by
        rw [List.append_assoc, ← lead, h, List.append_assoc, List.cons_append]
      exact List.append_cancel_right hlast
    -- the white space is the end of the gap: it cannot stand in the name, nor can the gap
    -- reach into the word after it
    have hname : c ∉ a.name := fun hmem => by simp [(a.name_safe hmem).1] at hc
    rcases List.append_eq_append_iff.1 hparts with ⟨more, -, hmore⟩ | ⟨more, hgap, hmore⟩
    · exact absurd (hmore ▸ List.mem_append_right _ List.mem_cons_self) hname
    · cases more with
      | nil =>
        refine absurd ?_ hname
        rw [← List.nil_append a.name, ← hmore]
        exact List.mem_cons_self
      | cons d more =>
        obtain ⟨rfl, hword⟩ := List.cons.inj hmore
        cases more with
        | nil => exact hword.symm
        | cons d more =>
          have hd : d ∈ a.gap := hgap ▸ by simp
          obtain rfl : 'f' = d := (List.cons.inj hword).1
          exact absurd (a.gap_safe hd).1 (by decide)
  · intro hname
    refine ⟨a.gap.dropLast, a.gap.getLast a.gap_ne_nil,
      (a.gap_safe (List.getLast_mem a.gap_ne_nil)).1, ?_⟩
    have hgap := List.dropLast_concat_getLast a.gap_ne_nil
    rw [List.append_cons, hgap, lead, hname]

/-! ## Searching a tag

The search is followed from quotation mark to quotation mark. Between two of
them there is either the beginning of an attribute or a value, and what is
found there depends on how that text ends and on nothing else. -/

/-- A text and the mark that ends it, at the beginning of another text that
is ended by that mark. -/
theorem dropStart?_append_stop {stop : Char} (start : Text) {t : Text} (hstart : stop ∉ start)
    (ht : stop ∉ t) (rest : Text) :
    Text.dropStart? (start ++ [stop]) (t ++ stop :: rest)
      = if t = start then some rest else none := by
  induction start generalizing t with
  | nil =>
    cases t with
    | nil => simp [Text.dropStart?]
    | cons c t =>
      rw [List.mem_cons, not_or] at ht
      simp [Text.dropStart?, ht.1]
  | cons s start ih =>
    rw [List.mem_cons, not_or] at hstart
    cases t with
    | nil => simp [Text.dropStart?, Ne.symm hstart.1]
    | cons c t =>
      rw [List.mem_cons, not_or] at ht
      rw [List.cons_append, List.cons_append, Text.dropStart?, ih hstart.2 ht.2]
      by_cases hc : s = c <;> simp [hc, eq_comm (a := c)]

/-- **The search of a text up to a quotation mark**: where the text ends like
the beginning of the attribute for the file, the value after the mark is
taken if its end is found; otherwise the search goes on after the mark. -/
theorem fileAttribute?_append_quote {t : Text} (ht : ∀ c ∈ t, c ≠ '"') (rest : Text) :
    fileAttribute? (t ++ '"' :: rest)
      = (if EndsLikeFile t then beforeQuote? rest else none).or (fileAttribute? rest) := by
  induction t with
  | nil =>
    rw [if_neg not_endsLikeFile_nil, Option.none_or, List.nil_append, fileAttribute?,
      if_neg (by decide)]
  | cons c t ih =>
    obtain ⟨-, ht⟩ := List.forall_mem_cons.1 ht
    have hdrop : Text.dropStart? "file=\"" (t ++ '"' :: rest)
        = if t = fileName ++ ['='] then some rest else none :=
      dropStart?_append_stop (fileName ++ ['=']) (by decide)
        (fun hmem => ht _ hmem rfl) rest
    rw [List.cons_append, fileAttribute?, ih ht, hdrop]
    simp only [endsLikeFile_cons_iff]
    by_cases hblank : isBlankChar c = true
    · by_cases hfile : t = fileName ++ ['=']
      · have hends : ¬EndsLikeFile t := by
          rw [hfile]
          decide
        rw [hfile] at hends
        rw [if_pos hblank, if_pos hfile, Option.bind_some, hfile, if_neg hends, Option.none_or,
          if_pos (Or.inl ⟨hblank, rfl⟩)]
        cases beforeQuote? rest <;> rfl
      · simp [hblank, hfile]
    · simp [hblank]

/-- Where a tag goes on, the next quotation mark is that of its next
attribute. -/
theorem beforeQuote?_attributes (as : List Attribute) :
    beforeQuote? (as.flatMap Attribute.text ++ ['>']) = as.head?.map Attribute.lead := by
  cases as with
  | nil => rfl
  | cons a as =>
    rw [List.flatMap_cons, Attribute.text, List.append_assoc, List.append_assoc, List.cons_append]
    exact beforeQuote?_append (fun c hc => (a.lead_safe hc).1) _

/-- **What is searched out of the attributes of a tag**: the text that the
search is misled to, or else the file that the tag names. -/
theorem fileAttribute?_attributes (as : List Attribute) :
    fileAttribute? (as.flatMap Attribute.text ++ ['>']) = (misled? as).or (fileValue? as) := by
  induction as with
  | nil => rfl
  | cons a rest ih =>
    have hparts : (a :: rest).flatMap Attribute.text ++ ['>']
        = a.lead ++ '"' :: (a.value ++ '"' :: (rest.flatMap Attribute.text ++ ['>'])) := by
      simp [Attribute.text]
    have hvalue : ∀ c ∈ a.value, c ≠ '"' := fun c hc => (a.value_plain c hc).1
    rw [hparts, fileAttribute?_append_quote (fun c hc => (a.lead_safe hc).1),
      fileAttribute?_append_quote hvalue, beforeQuote?_append hvalue, beforeQuote?_attributes, ih]
    simp only [a.endsLikeFile_lead_iff]
    by_cases hname : a.name = fileName
    · simp [misled?, fileValue?, hname]
    · have hnext : fileValue? (a :: rest) = fileValue? rest := by simp [fileValue?, hname]
      rw [if_neg hname, Option.none_or, hnext, misled?, if_neg hname]
      by_cases hends : EndsLikeFile a.value
      · rw [if_pos hends, if_pos hends]
        -- without a next attribute the search goes on, but nothing is left to be found
        cases rest <;> rfl
      · rw [if_neg hends, if_neg hends, Option.none_or]

/-- **The path of a tag** is the text that the search is misled to, if it is
misled, and otherwise that of the first attribute with the name. Values that
come later do not matter. -/
theorem path?_tagOf (as : List Attribute) :
    path? (tagOf as) = ((misled? as).or (fileValue? as)).filter (· ≠ []) := by
  have hskip (rest : Text) : fileAttribute? (openingStart ++ rest) = fileAttribute? rest := rfl
  rw [path?, tagOf, hskip, fileAttribute?_attributes]

theorem isOpening_tagOf (as : List Attribute) : isOpening (tagOf as) = true := by
  have hsafe : ∀ c ∈ as.flatMap Attribute.text, c ≠ '>' := by
    intro c hc
    obtain ⟨a, -, hc⟩ := List.mem_flatMap.1 hc
    simp only [Attribute.text, List.mem_append, List.mem_cons, List.not_mem_nil, or_false] at hc
    rcases hc with hc | rfl | hc | rfl
    · exact (a.lead_safe hc).2
    · decide
    · exact (a.value_plain c hc).2.1
    · decide
  have hclose := closesAtEnd_append hsafe
  rw [isOpening, tagOf, Text.dropStart?_append]
  cases as with
  | nil => decide
  | cons a as =>
    obtain ⟨c, gap, hgap⟩ := List.exists_cons_of_ne_nil a.gap_ne_nil
    have hc : isWordChar c = false :=
      isWordChar_of_isBlankChar (a.gap_safe (hgap ▸ List.mem_cons_self)).1
    have hbegin : (a :: as).flatMap Attribute.text ++ ['>']
        = c :: (gap ++ (a.name ++ ['=']) ++ '"' :: (a.value ++ ['"'])
          ++ as.flatMap Attribute.text ++ ['>']) := by
      simp [Attribute.text, Attribute.lead, hgap]
    rw [hbegin] at hclose ⊢
    simp only [hc, hclose, Bool.not_false, Bool.and_true]

/-- **The line of a tag with attributes is read as an opening tag**, whatever
white space ends it. -/
theorem ofLine?_tagOf (as : List Attribute) {blanks : Text} (h : blanks.isBlank = true) :
    ofLine? (tagOf as ++ blanks) = some .opening := by
  have hne {t : Text} (ht : openingStart.isPrefixOf t = false) : tagOf as ≠ t := by
    rintro rfl
    have hp : openingStart.isPrefixOf (tagOf as) = true :=
      List.isPrefixOf_iff_prefix.2 (List.prefix_append _ _)
    rw [hp] at ht
    cases ht
  have hend : (tagOf as).trimEnd = tagOf as := by
    rw [tagOf, ← List.append_assoc]
    exact Text.trimEnd_append_singleton _ (by decide)
  rw [ignoresEnd_ofLine? _ h, ofLine?, hend]
  rw [if_neg (hne (by decide)), if_neg (hne (by decide)), if_neg (hne (by decide)),
    if_neg (hne (by decide)), if_pos (isOpening_tagOf as)]

end Marker

namespace Block

open Marker

/-- **What the scanner makes of an opening tag** with a path, if it has one
that is not empty. -/
def afterOpening (number : Nat) (line : Text) :
    Option Text → Except ParseError (State × Option Edit)
  | none => .error (.missingPath number line.trim)
  | some path =>
    if path = [] then .error (.missingPath number line.trim) else .ok (.awaiting path, none)

/-- **A tag opens the envelope of the file that it names**, or is reported
where it names none. -/
def OpensAsNamed (as : List Attribute) (blanks : Text) : Prop :=
  ofLine? (tagOf as ++ blanks) = some .opening
    ∧ ∀ number, State.outside.step number (tagOf as ++ blanks)
      = afterOpening number (tagOf as ++ blanks) (fileValue? as)

/-- **The line of a tag with attributes, read outside envelopes.** -/
theorem step_tagOf (as : List Attribute) {blanks : Text} (h : blanks.isBlank = true)
    (number : Nat) :
    State.outside.step number (tagOf as ++ blanks)
      = afterOpening number (tagOf as ++ blanks) ((misled? as).or (fileValue? as)) := by
  simp only [State.step, ofLine?_tagOf as h, ignoresEnd_path? _ h, path?_tagOf]
  cases (misled? as).or (fileValue? as) with
  | none => rfl
  | some path =>
    rw [Option.filter_some, afterOpening]
    by_cases hempty : path = [] <;> simp [hempty]

theorem ne_nil_of_misled? {as : List Attribute} {t : Text} (h : misled? as = some t) :
    t ≠ [] := by
  induction as with
  | nil => cases h
  | cons a rest ih =>
    rw [misled?] at h
    split at h
    · cases h
    · split at h
      · obtain ⟨b, -, rfl⟩ := Option.map_eq_some_iff.1 h
        exact b.lead_ne_nil
      · exact ih h

/-- **An opening tag is recognised whatever attributes it has**, and its path
is told exactly: the text that the search is misled to, or else the file that
the tag names. So it is the file that the tag names unless the search is
misled to another text. -/
theorem opensAsNamed_iff (as : List Attribute) {blanks : Text} (h : blanks.isBlank = true) :
    (ofLine? (tagOf as ++ blanks) = some .opening
      ∧ ∀ number, State.outside.step number (tagOf as ++ blanks)
        = afterOpening number (tagOf as ++ blanks) ((misled? as).or (fileValue? as)))
      ∧ (OpensAsNamed as blanks ↔ ∀ t, misled? as = some t → fileValue? as = some t) := by
  refine ⟨⟨ofLine?_tagOf as h, step_tagOf as h⟩, ?_, ?_⟩
  · rintro ⟨-, hstep⟩ t ht
    have hsame := (step_tagOf as h 1).symm.trans (hstep 1)
    rw [ht, Option.some_or, afterOpening, if_neg (ne_nil_of_misled? ht)] at hsame
    cases hvalue : fileValue? as with
    | none => simp [hvalue, afterOpening] at hsame
    | some value =>
      by_cases hempty : value = []
      · simp [hvalue, afterOpening, hempty] at hsame
      · simpa [hvalue, afterOpening, hempty, eq_comm] using hsame
  · intro hall
    refine ⟨ofLine?_tagOf as h, fun number => ?_⟩
    rw [step_tagOf as h]
    cases hmisled : misled? as with
    | none => rw [Option.none_or]
    | some t => rw [Option.some_or, hall t hmisled]

/-- Whether three texts are the parts of an attribute. -/
def isAttribute (gap name value : Text) : Bool :=
  (gap ≠ [] && gap.all fun c => c = ' ' || c = '\t')
    && (name ≠ [] && name.all fun c => isWordChar c || c = '-')
    && value.all fun c => c ≠ '"' && c ≠ '>' && !isLineBreak c

theorem of_isAttribute {gap name value : Text} (h : isAttribute gap name value = true) :
    ((gap ≠ [] ∧ ∀ c ∈ gap, c = ' ' ∨ c = '\t')
        ∧ name ≠ [] ∧ ∀ c ∈ name, isWordChar c = true ∨ c = '-')
      ∧ ∀ c ∈ value, (c ≠ '"' ∧ c ≠ '>') ∧ isLineBreak c = false := by
  simpa [isAttribute] using h

/-- The attribute of its parts. -/
def attributeOf (gap name value : Text) (h : isAttribute gap name value = true) : Attribute where
  gap := gap
  name := name
  value := value
  gap_ne_nil := (of_isAttribute h).1.1.1
  gap_plain := (of_isAttribute h).1.1.2
  name_ne_nil := (of_isAttribute h).1.2.1
  name_plain := (of_isAttribute h).1.2.2
  value_plain := fun c hc => and_assoc.1 ((of_isAttribute h).2 c hc)

/-- Attributes whose names only end in `file`, one with the words of another
in its value, and the one for the file. -/
def mixedAttributes : List Attribute :=
  [attributeOf " " "xfile" "a" (by decide +kernel),
    attributeOf "\t" "title" "the file='b' \u00a0" (by decide +kernel),
    attributeOf " " "data-file" "c" (by decide +kernel),
    attributeOf " \t " "file" "d e.py" (by decide +kernel)]

/-- An attribute whose value ends like the beginning of the attribute for the
file, and then that attribute. -/
def misleading : List Attribute :=
  [attributeOf " " "title" "the file=" (by decide +kernel),
    attributeOf " " "file" "a.py" (by decide +kernel)]

/-- The mixed attributes name their file; the others do not. -/
theorem opensAsNamed_iff_mixedAttributes :
    Text.isBlank " \r\n" = true
      ∧ OpensAsNamed mixedAttributes " \r\n"
      ∧ fileValue? mixedAttributes = some "d e.py"
      ∧ ¬OpensAsNamed misleading " \r\n"
      ∧ State.outside.step 1 (tagOf misleading ++ " \r\n") = .ok (.awaiting " file=", none) := by
  have hblank : Text.isBlank " \r\n" = true := by decide
  refine ⟨hblank, (opensAsNamed_iff mixedAttributes hblank).2.2 ?_, by decide, fun hopens => ?_, ?_⟩
  · intro t ht
    have hnone : misled? mixedAttributes = none := by decide
    rw [hnone] at ht
    cases ht
  · have hsame := (opensAsNamed_iff misleading hblank).2.1 hopens " file=" (by decide)
    exact absurd hsame (by decide)
  · exact (opensAsNamed_iff misleading hblank).1.2 1

/-- Not every tag opens the envelope of the file that it names: here the path
is the text between two attributes. -/
theorem not_always_asNamed :
    ¬∀ (as : List Attribute) (blanks : Text), blanks.isBlank = true → OpensAsNamed as blanks := by
  intro hall
  have hsame : (.ok (.awaiting " file=", none) : Except ParseError (State × Option Edit))
      = .ok (.awaiting "a.py", none) := (hall misleading ['\n'] (by decide)).2 1
  exact absurd (State.awaiting.inj (Prod.mk.inj (Except.ok.inj hsame)).1) (by decide)

end Block

end EditBlocks
