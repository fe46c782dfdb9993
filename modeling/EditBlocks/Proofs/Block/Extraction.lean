import EditBlocks.Proofs.Block.Parsing
import EditBlocks.Proofs.Block.Writing
import EditBlocks.Proofs.Text.LineEdge
import Mathlib.Data.List.Basic

/-!
# The edits that are found

What can be said of the edits of a response, whatever the response. They are
those of the document with the response's lines, each from a block of it, and
only the last block may be broken off (`Block.Document.exists_edits_eq`).

A path has stood in an opening tag on one line, so an opening tag has room
for it (`Marker.pathFits_of_path?`). The lines of a text to find stand before
a divider, and those of a text to put there before a replace marker, so each
of them is ended and none of them is a marker: the edit of a whole block can
be written into a response again (`Block.WholeIn.writable`). Where a block is
broken off, only the end of its last text is open
(`Block.BrokenIn.breakable`).

Which lines of the response a block stands in is kept track of
(`Block.WholeIn`, `Block.BrokenIn`), because some statements about edits are
about what stands around them as well.
-/

namespace EditBlocks

/-! ## The path of an opening tag

The tag is one line that holds no `>` but the last, and the path stands in it
up to a quotation mark. So neither sign is in the path, and no line boundary
is. -/

namespace Marker

theorem exists_of_beforeQuote? {t value : Text} (h : beforeQuote? t = some value) :
    ∃ after, t = value ++ '"' :: after ∧ ∀ c ∈ value, c ≠ '"' := by
  induction t generalizing value with
  | nil => cases h
  | cons c t ih =>
    rw [beforeQuote?] at h
    split at h
    next hquote =>
      cases h
      exact ⟨t, hquote ▸ rfl, List.forall_mem_nil _⟩
    next hquote =>
      obtain ⟨more, hmore, rfl⟩ := Option.map_eq_some_iff.1 h
      obtain ⟨after, rfl, hplain⟩ := ih hmore
      exact ⟨after, rfl, List.forall_mem_cons.2 ⟨hquote, hplain⟩⟩

/-- **The value of an attribute** holds no quotation mark, and one stands
after it. -/
theorem exists_of_fileAttribute? {t value : Text} (h : fileAttribute? t = some value) :
    ∃ before after, t = before ++ value ++ '"' :: after ∧ ∀ c ∈ value, c ≠ '"' := by
  induction t with
  | nil => cases h
  | cons c t ih =>
    -- the value is that of an attribute further on, or stands right here
    have hfurther : fileAttribute? t = some value →
        ∃ before after, c :: t = before ++ value ++ '"' :: after ∧ ∀ c ∈ value, c ≠ '"' := by
      intro hrest
      obtain ⟨before, after, rfl, hplain⟩ := ih hrest
      exact ⟨c :: before, after, rfl, hplain⟩
    rw [fileAttribute?] at h
    split at h
    · split at h
      next found hfound =>
        cases h
        obtain ⟨rest, hdrop, hquote⟩ := Option.bind_eq_some_iff.1 hfound
        obtain ⟨after, rfl, hplain⟩ := exists_of_beforeQuote? hquote
        refine ⟨c :: ("file=\"" : Text), after, ?_, hplain⟩
        rw [Text.eq_append_of_dropStart? hdrop, List.cons_append, List.cons_append,
          List.append_assoc]
      next => exact hfurther h
    · exact hfurther h

theorem exists_of_closesAtEnd {t : Text} (h : closesAtEnd t = true) :
    ∃ inner, t = inner ++ ['>'] ∧ ∀ c ∈ inner, c ≠ '>' := by
  fun_induction closesAtEnd t with
  | case1 => cases h
  | case2 => exact ⟨[], rfl, fun _ hc => (nomatch hc)⟩
  | case3 c t _ ih =>
    rw [Bool.and_eq_true, decide_eq_true_eq] at h
    obtain ⟨inner, rfl, hinner⟩ := ih h.2
    exact ⟨c :: inner, rfl, List.forall_mem_cons.2 ⟨h.1, hinner⟩⟩

/-- **The line of an opening tag** holds one `>`, and only white space after
it. -/
theorem exists_of_opening {line : Text} (h : ofLine? line = some .opening) :
    ∃ inner blanks, line = inner ++ '>' :: blanks ∧ (∀ c ∈ inner, c ≠ '>')
      ∧ Text.isBlank blanks = true := by
  obtain ⟨blanks, hline, hblanks⟩ := Text.exists_isBlank_of_trimEnd line
  have hopening : isOpening line.trimEnd = true := by
    by_contra hnot
    rw [ofLine?, if_neg hnot] at h
    split_ifs at h <;> cases h
  rw [isOpening] at hopening
  split at hopening
  next c rest hdrop =>
    rw [Bool.and_eq_true] at hopening
    obtain ⟨inner, hrest, hinner⟩ := exists_of_closesAtEnd hopening.2
    have hstart : '>' ∉ openingStart := by decide
    refine ⟨openingStart ++ inner, blanks, ?_, ?_, hblanks⟩
    · conv_lhs => rw [hline, Text.eq_append_of_dropStart? hdrop, hrest]
      simp only [List.append_assoc, List.cons_append, List.nil_append]
    · exact fun c hc => (List.mem_append.1 hc).elim (ne_of_mem_of_not_mem · hstart) (hinner c)
  next => cases hopening

/-- **The path that a line of a response names** can be written into an
opening tag. -/
theorem pathFits_of_path? {response line path : Text} (hline : line ∈ response.lines)
    (hopening : ofLine? line = some .opening) (hpath : path? line = some path) :
    Edit.PathFits path := by
  obtain ⟨hattribute, hne⟩ := Option.filter_eq_some_iff.1 hpath
  obtain ⟨before, after, hvalue, hquote⟩ := exists_of_fileAttribute? hattribute
  obtain ⟨inner, blanks, htag, hinner, hblanks⟩ := exists_of_opening hopening
  obtain ⟨content, ending, hparts, hcontent, hending⟩ := Text.exists_lineEnd_of_mem_lines hline
  -- the quotation mark is no white space, so it stands before the end of the tag
  obtain ⟨rest, rfl⟩ : ∃ rest, inner = before ++ path ++ '"' :: rest := by
    have hsame := hvalue.symm.trans htag
    rcases List.append_eq_append_iff.1 hsame with ⟨between, hin, hafter⟩ | ⟨between, hbefore, hout⟩
    · cases between with
      | nil => cases hafter
      | cons q rest =>
        obtain ⟨rfl, -⟩ := List.cons.inj hafter
        exact ⟨rest, hin⟩
    · have hmem : '"' ∈ '>' :: blanks := hout ▸ List.mem_append_right _ List.mem_cons_self
      rcases List.mem_cons.1 hmem with h | h
      · cases h
      · exact absurd (List.all_eq_true.1 hblanks _ h) (by decide)
  -- the end of the tag ends no line, so it stands before the boundary
  obtain ⟨rest', rfl⟩ : ∃ rest', content = before ++ path ++ '"' :: rest ++ '>' :: rest' := by
    have hsame := htag.symm.trans hparts
    rcases List.append_eq_append_iff.1 hsame with ⟨between, hin, hafter⟩ | ⟨between, hbefore, hout⟩
    · cases between with
      | nil =>
        have hmem : '>' ∈ ending := by
          rw [← List.nil_append ending, ← hafter]
          exact List.mem_cons_self
        exact absurd (Text.isLineBreak_of_mem_lineEnd hending _ hmem) (by decide)
      | cons q rest' =>
        obtain ⟨rfl, -⟩ := List.cons.inj hafter
        exact ⟨rest', hin⟩
    · have hmem : '>' ∈ ending := hout ▸ List.mem_append_right _ List.mem_cons_self
      exact absurd (Text.isLineBreak_of_mem_lineEnd hending _ hmem) (by decide)
  refine ⟨by simpa using hne, fun c hc => ⟨hquote c hc, hinner c ?_, hcontent c ?_⟩⟩
  · simp [hc]
  · simp [hc]

end Marker

/-! ## Where the edits of a response come from

A block is found among the lines of the whole response, with the opening tag
of its envelope somewhere before it. -/

namespace Block

variable {ls ms : List Text} {e : Edit} {path response : Text} {found : List Edit}

/-- **Lines of text before other lines** make a text that can stand in a
block. -/
theorem isBlockText_of_lines {t : Text} {before after : List Text} {texts : List TextLine}
    (h : t.lines = before ++ (texts.map Subtype.val ++ after)) (hafter : after ≠ []) :
    Text.IsBlockText (texts.map Subtype.val).flatten := by
  have hrest := (Text.lines_flatten_of_append h).2
  refine ⟨Text.terminated_of_append hrest hafter, fun line hline => ?_⟩
  rw [(Text.lines_flatten_of_append hrest).1] at hline
  obtain ⟨text, -, rfl⟩ := List.mem_map.1 hline
  exact text.2

theorem infix_flatMap {α β : Type} {a : α} {as : List α} (h : a ∈ as) (f : α → List β) :
    f a <:+: as.flatMap f := by
  rw [List.flatMap_def]
  exact List.infix_of_mem_flatten (List.mem_map_of_mem h)

/-- **The edit of a whole block among lines**: the opening tag of its
envelope is one of them, and its lines stand there up to the replace
marker. -/
inductive WholeIn (ls : List Text) : Edit → Prop
  /-- The tag, the body and the replace marker. -/
  | intro (opening : OpeningLine) (body : Body) (replace : MarkerLine .replace)
      (hopening : opening.1 ∈ ls) (hbody : body.lines ++ [replace.1] <:+: ls) :
      WholeIn ls (body.edit opening.path)

/-- **The edit of a block that the lines break off in**: they end with its
body. -/
inductive BrokenIn (ls : List Text) : Edit → Prop
  /-- The tag and the body. -/
  | intro (opening : OpeningLine) (body : Body) (hopening : opening.1 ∈ ls)
      (hbody : body.lines <:+ ls) : BrokenIn ls (body.editCutShort opening.path)

theorem WholeIn.of_lines (h : WholeIn ls e) (hls : ls <:+: ms) : WholeIn ms e := by
  cases h with
  | intro opening body replace hopening hbody =>
    exact .intro opening body replace (hls.mem hopening) (hbody.trans hls)

/-- A block at the end of lines is one at the end of more lines. -/
theorem BrokenIn.of_suffix (h : BrokenIn ls e) (hls : ls <:+ ms) : BrokenIn ms e := by
  cases h with
  | intro opening body hopening hbody =>
    exact .intro opening body (hls.mem hopening) (hbody.trans hls)

theorem wholeIn_of_mem_items {opening : OpeningLine} {items : List Item}
    (he : e ∈ items.flatMap (Item.edits opening.path)) :
    WholeIn (opening.1 :: items.flatMap Item.lines) e := by
  obtain ⟨item, hitem, he⟩ := List.mem_flatMap.1 he
  have hlines : item.lines <:+: opening.1 :: items.flatMap Item.lines :=
    (infix_flatMap hitem Item.lines).trans (List.suffix_cons _ _).isInfix
  cases item with
  | noise line => cases he
  | block body replace =>
    obtain rfl := List.mem_singleton.1 he
    exact .intro opening body replace List.mem_cons_self hlines

/-- **The edits of a document** are those of whole blocks, and at the end
that of a block that is broken off, if there is one. -/
theorem Document.exists_edits_eq (d : Document) :
    ∃ (whole : List Edit) (broken : Option Edit), d.edits = whole ++ broken.toList
      ∧ (∀ e ∈ whole, WholeIn d.lines e) ∧ ∀ e ∈ broken, BrokenIn d.lines e := by
  obtain ⟨parts, tail⟩ := d
  have hparts : ∀ e ∈ parts.flatMap Part.edits, WholeIn (Document.mk parts tail).lines e := by
    intro e he
    obtain ⟨part, hpart, he⟩ := List.mem_flatMap.1 he
    have hlines : part.lines <:+: (Document.mk parts tail).lines :=
      (infix_flatMap hpart Part.lines).trans (List.prefix_append _ _).isInfix
    cases part with
    | prose line => cases he
    | envelope opening items closing =>
      have hitems : opening.1 :: items.flatMap Item.lines
          <:+: (Part.envelope opening items closing).lines := ⟨[], [closing.1], rfl⟩
      exact (wholeIn_of_mem_items he).of_lines (hitems.trans hlines)
  cases tail with
  | none =>
    exact ⟨parts.flatMap Part.edits, none, rfl, hparts, fun _ he => (nomatch he)⟩
  | some tail =>
    obtain ⟨opening, items, unfinished⟩ := tail
    have htail : (Tail.mk opening items unfinished).lines
        <:+ (Document.mk parts (some ⟨opening, items, unfinished⟩)).lines := List.suffix_append _ _
    have hitems : opening.1 :: items.flatMap Item.lines
        <:+: (Tail.mk opening items unfinished).lines := (List.prefix_append _ _).isInfix
    refine ⟨parts.flatMap Part.edits ++ items.flatMap (Item.edits opening.path),
      unfinished.map (Body.editCutShort opening.path), (List.append_assoc _ _ _).symm,
      fun e he => ?_, fun e he => ?_⟩
    · rcases List.mem_append.1 he with he | he
      · exact hparts e he
      · exact (wholeIn_of_mem_items he).of_lines (hitems.trans htail.isInfix)
    · obtain ⟨body, rfl, rfl⟩ := Option.map_eq_some_iff.1 he
      have hbody : body.lines <:+ (Tail.mk opening items (some body)).lines :=
        List.suffix_append (opening.1 :: items.flatMap Item.lines) body.lines
      exact BrokenIn.of_suffix (.intro opening body List.mem_cons_self hbody) htail

/-! ## What can be said of them

Whatever the grammar says of a block is said of its edit. -/

/-- The path of an opening tag of a response can be written into one. -/
theorem OpeningLine.pathFits (opening : OpeningLine) (h : opening.1 ∈ response.lines) :
    Edit.PathFits opening.path :=
  Marker.pathFits_of_path? h opening.2.1 (Option.some_get opening.2.2).symm

/-- The text to find of a body among the lines of a response can stand in a
block. -/
theorem Body.isBlockText_sought (b : Body) (h : b.lines <:+: response.lines) :
    Text.IsBlockText (b.sought.map Subtype.val).flatten := by
  obtain ⟨before, after, hlines⟩ := h
  have hparts : response.lines = (before ++ [b.search.1]) ++ (b.sought.map Subtype.val
      ++ b.divider.1 :: (b.put.map Subtype.val ++ after)) := by
    rw [← hlines, Body.lines]
    simp only [List.append_assoc, List.cons_append, List.nil_append]
  exact isBlockText_of_lines hparts (List.cons_ne_nil _ _)

/-- **The edit of a whole block of a response can be written.** It has been
written there, so its path has fitted in a tag and its texts in a block. -/
theorem WholeIn.writable (h : WholeIn response.lines e) : e.Writable := by
  cases h with
  | intro opening body replace hopening hbody =>
    have hsought := body.isBlockText_sought ((List.prefix_append _ _).isInfix.trans hbody)
    obtain ⟨before, after, hlines⟩ := hbody
    have hparts : response.lines = (before ++ body.search.1 :: (body.sought.map Subtype.val
        ++ [body.divider.1])) ++ (body.put.map Subtype.val ++ replace.1 :: after) := by
      rw [← hlines, Body.lines]
      simp only [List.append_assoc, List.cons_append, List.nil_append]
    exact ⟨opening.pathFits hopening, hsought, isBlockText_of_lines hparts (List.cons_ne_nil _ _)⟩

/-- **An edit that a response may break off in** can be written but for the
end of its replacement: no line of it is a marker, and the last is no code
fence. -/
structure Breakable (e : Edit) : Prop where
  /-- An opening tag has room for the path. -/
  path : Edit.PathFits e.path
  /-- The text to find can stand in a block. -/
  search : e.search.IsBlockText
  /-- No line of the text to put there is a marker. -/
  noMarker : ∀ line ∈ e.replacement.lines, Marker.ofLine? line = none
  /-- The last line of it is no code fence. -/
  noFence : ∀ line ∈ e.replacement.lines.getLast?, Marker.isFence line = false

theorem BrokenIn.breakable (h : BrokenIn response.lines e) : Breakable e := by
  cases h with
  | intro opening body hopening hbody =>
    have hsought := body.isBlockText_sought hbody.isInfix
    -- the lines that are kept are followed by the code fences, if there are any
    obtain ⟨fences, hput⟩ := List.rdropWhile_prefix Marker.isFence (body.put.map Subtype.val)
    obtain ⟨before, hlines⟩ := hbody
    have hparts : response.lines = (before ++ body.search.1 :: (body.sought.map Subtype.val
        ++ [body.divider.1]))
        ++ ((body.put.map Subtype.val).rdropWhile Marker.isFence ++ fences) := by
      rw [← hlines, Body.lines, hput]
      simp only [List.append_assoc, List.cons_append, List.nil_append]
    have hkept := (Text.lines_flatten_of_append (Text.lines_flatten_of_append hparts).2).1
    refine ⟨opening.pathFits hopening, hsought, fun line hline => ?_, fun line hline => ?_⟩
    · have hmem : line ∈ body.put.map Subtype.val :=
        (List.rdropWhile_prefix Marker.isFence _).mem (hkept ▸ hline)
      obtain ⟨text, -, rfl⟩ := List.mem_map.1 hmem
      exact text.2
    · have hlast : line ∈ ((body.put.map Subtype.val).rdropWhile Marker.isFence).getLast? :=
        hkept ▸ hline
      obtain ⟨hne, rfl⟩ := List.mem_getLast?_eq_getLast hlast
      exact Bool.not_eq_true _ ▸ List.rdropWhile_last_not Marker.isFence _ hne

/-- **The document of a response that can be read.** It is the only one with
the lines of the response. -/
theorem exists_document_of_edits {response : Text} {found : List Edit}
    (h : edits response = .ok found) :
    ∃ d : Document, d.lines = response.lines ∧ d.edits = found := by
  obtain ⟨es, last, unfinished, hread, hfinish, -⟩ := edits_eq_ok_iff.1 h
  obtain ⟨d, hlines⟩ : ∃ d : Document, d.lines = response.lines := hread.completes hfinish
  rw [d.edits_eq hlines] at h
  exact ⟨d, hlines, Except.ok.inj h⟩

/-- **The text to find of an edit that is found** can stand in a block: all
its lines are ended, and none of them is a marker. -/
theorem isBlockText_search (h : edits response = .ok found) (he : e ∈ found) :
    e.search.IsBlockText := by
  obtain ⟨d, hlines, rfl⟩ := exists_document_of_edits h
  obtain ⟨whole, broken, hedits, hwhole, hbroken⟩ := d.exists_edits_eq
  rw [hlines] at hwhole hbroken
  rcases List.mem_append.1 (hedits ▸ he) with he | he
  · exact (hwhole e he).writable.search
  · exact (hbroken e (Option.mem_toList.1 he)).breakable.search

end Block

end EditBlocks
