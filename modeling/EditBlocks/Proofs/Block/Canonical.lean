import EditBlocks.Proofs.Block.Extraction

/-!
# What a response can give

Not every list of edits is that of a response. Its paths have stood in
opening tags and its texts in blocks, and this shows (`Block.Givable`): an
opening tag has room for each path, each text to find can stand in a block,
and so can each text to put there but for the last one. A response may break
off in its last block, so the last line of the last text need not be ended;
it is no code fence then, because code fences at the end of a response do not
count.

Such a list can be written back (`Block.canonical`): each edit as an envelope
of its own, and the last one broken off after its text where the last line of
that is not ended. So these are the lists that responses give, and no others,
and the edits of a response are also those of their canonical form
(`Block.edits_canonical_of_edits`).
-/

namespace EditBlocks.Block

open State Edit

variable {e : Edit} {response : Text} {found rest : List Edit}

/-- **Edits that a response can give.** All but the last come from whole
blocks. The last one may be broken off, which shows in the end of its
replacement only. -/
structure Givable (found : List Edit) : Prop where
  /-- An opening tag has room for each path. -/
  path : ∀ e ∈ found, PathFits e.path
  /-- Each text to find is ended and has no marker among its lines. -/
  search : ∀ e ∈ found, e.search.IsBlockText
  /-- Each text to put there but the last is ended. -/
  terminated : ∀ e ∈ found.dropLast, e.replacement.Terminated
  /-- None has a marker among its lines. -/
  noMarker : ∀ e ∈ found, ∀ line ∈ e.replacement.lines, Marker.ofLine? line = none
  /-- If the last line of the last one is not ended, it is no code fence. -/
  noFence : ∀ e ∈ found.getLast?, ∀ line ∈ e.replacement.lines.getLast?, ¬line.Terminated →
    Marker.isFence line = false

/-- **The canonical form of edits**: an envelope for each, and the last one
broken off after the text to put there where the last line of that is not
ended. -/
def canonical : List Edit → Text
  | [] => []
  | [e] => if e.replacement.Terminated then e.envelope else e.lead ++ e.replacement
  | e :: rest => e.envelope ++ canonical rest

/-! ## Every response gives such edits

Each edit is that of a block among the lines of the response, and a block's
lines are what the conditions ask for. -/

/-- **The edits of a response are of this kind**: those of whole blocks can
be written, and the last block may be broken off. -/
theorem givable_of_edits (h : edits response = .ok found) : Givable found := by
  obtain ⟨d, hlines, rfl⟩ := exists_document_of_edits h
  obtain ⟨whole, broken, hedits, hwhole, hbroken⟩ := d.exists_edits_eq
  rw [hlines] at hwhole hbroken
  rw [hedits]
  have hwritable : ∀ e ∈ whole, e.Writable := fun e he => (hwhole e he).writable
  cases broken with
  | none =>
    rw [Option.toList_none, List.append_nil]
    refine ⟨fun e he => (hwritable e he).path, fun e he => (hwritable e he).search,
      fun e he => (hwritable e (List.dropLast_subset _ he)).replacement.terminated,
      fun e he => (hwritable e he).replacement.noMarker, fun e he line hline hopen => ?_⟩
    -- the last line of a text that is ended is ended
    have hended := (hwritable e (List.mem_of_getLast? he)).replacement.terminated
    obtain ⟨before, hbefore⟩ := List.getLast?_eq_some_iff.1 hline
    refine absurd (fun c hc => hended c ?_) hopen
    rw [Option.mem_def, ← Text.flatten_lines e.replacement, hbefore, List.flatten_append,
      List.flatten_singleton, List.getLast?_append, hc, Option.some_or]
  | some last =>
    have hlast := (hbroken last rfl).breakable
    have hall : ∀ {P : Edit → Prop}, (∀ e ∈ whole, P e) → P last →
        ∀ e ∈ whole ++ (some last).toList, P e := by
      intro P hw hl e he
      rcases List.mem_append.1 he with he | he
      · exact hw e he
      · exact List.mem_singleton.1 he ▸ hl
    refine ⟨hall (fun e he => (hwritable e he).path) hlast.path,
      hall (fun e he => (hwritable e he).search) hlast.search, fun e he => ?_,
      hall (fun e he => (hwritable e he).replacement.noMarker) hlast.noMarker,
      fun e he line hline _ => ?_⟩
    · rw [Option.toList_some, List.dropLast_concat] at he
      exact (hwritable e he).replacement.terminated
    · rw [Option.toList_some, List.getLast?_concat] at he
      obtain rfl := Option.some.inj he
      exact hlast.noFence line hline

/-! ## Such edits can be written back

All edits but the last are written as they always are. The last one may be
broken off, and then its replacement ends the response. -/

/-- Those whose texts to put there are ended can be written. -/
theorem Givable.writable (h : Givable found) (he : e ∈ found) (hended : e.replacement.Terminated) :
    e.Writable :=
  ⟨h.path e he, h.search e he, hended, h.noMarker e he⟩

/-- An edit whose replacement is not ended is read back from an envelope that
is broken off after it. -/
theorem reads_broken (hpath : PathFits e.path) (hsearch : e.search.IsBlockText)
    (hmarker : ∀ line ∈ e.replacement.lines, Marker.ofLine? line = none) :
    Reads outside (e.lead ++ e.replacement).lines []
      (replace e.path e.search e.replacement.lines) := by
  have hput := reads_replace e.path e.search [] hmarker
  rw [List.nil_append] at hput
  rw [lines_lead hpath hsearch]
  exact reads_lead hpath hsearch hput

theorem exists_openLine_of_not_terminated {t : Text} (h : ¬t.Terminated) :
    ∃ line, t.lines.getLast? = some line ∧ ¬line.Terminated := by
  refine ⟨t.openLine, ?_, fun hended => ?_⟩
  · rw [Text.lines_of_not_terminated h, List.getLast?_concat]
  have hne : t.openLine ≠ [] := fun hnil => h (Text.openLine_eq_nil_iff.1 hnil)
  have hbreak := hended _ (List.getLast?_eq_getLast_of_ne_nil hne)
  rw [Text.isLineBreak_of_mem_openLine (List.getLast_mem hne)] at hbreak
  cases hbreak

/-- **The canonical form is read as its edits**, up to the one that its end
completes. -/
theorem exists_reads_canonical (h : Givable found) :
    ∃ es last unfinished, Reads outside (canonical found).lines es last
      ∧ (∀ count, last.finish count = .ok unfinished) ∧ es ++ unfinished.toList = found := by
  induction found using canonical.induct with
  | case1 => exact ⟨[], outside, none, .nil _, fun _ => rfl, rfl⟩
  | case2 e hended =>
    -- the last envelope is whole
    have hnil : Reads outside (Text.lines []) [] outside := .nil _
    have hread := (h.writable List.mem_cons_self hended).reads_envelope hnil
    rw [List.append_nil] at hread
    rw [canonical, if_pos hended]
    exact ⟨[e], outside, none, hread, fun _ => rfl, rfl⟩
  | case3 e hopen =>
    -- the last envelope is broken off, and ends with no code fence
    rw [canonical, if_neg hopen]
    refine ⟨[], _, some e, reads_broken (h.path e List.mem_cons_self)
      (h.search e List.mem_cons_self) (h.noMarker e List.mem_cons_self), fun _ => ?_, rfl⟩
    obtain ⟨line, hline, hlineOpen⟩ := exists_openLine_of_not_terminated hopen
    have hfence := h.noFence e rfl line hline hlineOpen
    obtain ⟨before, hbefore⟩ := List.getLast?_eq_some_iff.1 hline
    have hkept : dropFences e.replacement.lines = e.replacement.lines := by
      show e.replacement.lines.rdropWhile Marker.isFence = _
      rw [hbefore, List.rdropWhile_concat, hfence, if_neg Bool.false_ne_true]
    rw [finish, hkept, Text.flatten_lines]
  | case4 e rest hne ih =>
    obtain ⟨next, more, rfl⟩ := List.exists_cons_of_ne_nil fun hnil => hne hnil
    have hwritable := h.writable List.mem_cons_self (h.terminated e List.mem_cons_self)
    have hrest : Givable (next :: more) :=
      ⟨fun e he => h.path e (List.mem_cons_of_mem _ he),
        fun e he => h.search e (List.mem_cons_of_mem _ he),
        fun e he => h.terminated e (List.mem_cons_of_mem _ he),
        fun e he => h.noMarker e (List.mem_cons_of_mem _ he), h.noFence⟩
    obtain ⟨es, last, unfinished, hread, hfinish, hes⟩ := ih hrest
    exact ⟨e :: es, last, unfinished, hwritable.reads_envelope hread, hfinish, congrArg _ hes⟩

/-- **The edits of a response can be written back**: they are of the kind
that can be, and reading their canonical form gives them again. -/
theorem edits_canonical_of_edits (h : edits response = .ok found) :
    Givable found ∧ edits (canonical found) = .ok found := by
  have hgivable := givable_of_edits h
  obtain ⟨es, last, unfinished, hread, hfinish, hes⟩ := exists_reads_canonical hgivable
  exact ⟨hgivable, edits_eq_ok_iff.2 ⟨es, last, unfinished, hread, hfinish _, hes⟩⟩

/-- A response that breaks off after a code fence and a line that is not
ended. -/
def brokenOff : Text :=
  "<CodeChange lang=\"x\" file=\"a b\">\n\x60\x60\x60\n<<<<<<< SEARCH \r\none\r\n"
    ++ "=======\n>>>>>>> REPLACE\n"
    ++ "<<<<<<< SEARCH\n=======\n\x60\x60\x60\n  =======\n1\x0c\x60\x60\x60\n2"

/-- The edits of that response. -/
def brokenOffEdits : List Edit :=
  [⟨"a b", "one\r\n", []⟩, ⟨"a b", [], "\x60\x60\x60\n  =======\n1\x0c\x60\x60\x60\n2"⟩]

/-- They are written back with the second envelope left open. -/
theorem edits_canonical_of_edits_brokenOff :
    edits brokenOff = .ok brokenOffEdits ∧ Givable brokenOffEdits
      ∧ edits (canonical brokenOffEdits) = .ok brokenOffEdits := by
  have hedits : edits brokenOff = .ok brokenOffEdits := by decide +kernel
  exact ⟨hedits, edits_canonical_of_edits hedits⟩

end EditBlocks.Block
