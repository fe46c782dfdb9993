import EditBlocks.Host.Usual
import EditBlocks.Proofs.Resolution

/-!
# Spellings and exclusion

Whether a path is refused is asked in two ways: where it leads, which all
spellings of a file share, and whether a pattern matches it as it was
written, which they need not. So two spellings of one file are refused alike
exactly when patterns match both of them or neither
(`Disk.refuses_iff_of_spellings`).

That leaves a way around most patterns. Every path can be written from the
root of the tree, with any number of detours through `.` after the first
slash and one more at the end (`Path.respell`), and it leads where it led. So
written it begins with a slash, ends with a point and is as long as one
likes, and patterns that need another beginning, another end or a length are
not about it (`Glob.Escapable`). What such patterns exclude is not protected
by them (`Disk.not_always_excluded`).
-/

namespace EditBlocks

/-! ## Patterns that a spelling escapes

A pattern is one that a spelling escapes when it fixes the first character to
another one than a slash, the last to another one than a point, or the
length, which it does without a star. -/

namespace Glob

/-- A property of some end of a text. -/
theorem anyEnd_eq_true_iff {p : Text → Bool} {t : Text} :
    anyEnd p t = true ↔ ∃ u, u <:+ t ∧ p u = true := by
  induction t with
  | nil =>
    rw [anyEnd]
    constructor
    · exact fun h => ⟨[], List.suffix_refl _, h⟩
    · rintro ⟨u, hu, h⟩
      rwa [List.suffix_nil.1 hu] at h
  | cons c t ih =>
    rw [anyEnd, Bool.or_eq_true, ih]
    constructor
    · rintro (h | ⟨u, hu, h⟩)
      · exact ⟨c :: t, List.suffix_refl _, h⟩
      · exact ⟨u, hu.trans (List.suffix_cons c t), h⟩
    · rintro ⟨u, hu, h⟩
      rcases List.suffix_cons_iff.1 hu with rfl | hu
      · exact Or.inl h
      · exact Or.inr ⟨u, hu, h⟩

/-- A part that stands for one character takes the first. -/
theorem exists_of_matchTokens_cons {token : Token} {rest : List Token} {t : Text}
    (htoken : token ≠ .star) (h : matchTokens (token :: rest) t = true) :
    ∃ c u, t = c :: u ∧ token.accepts c = true ∧ matchTokens rest u = true := by
  cases t with
  | nil => cases token <;> simp_all [matchTokens]
  | cons c u =>
    have hparts : (token.accepts c && matchTokens rest u) = true := by
      cases token <;> simp_all [matchTokens]
    rw [Bool.and_eq_true] at hparts
    exact ⟨c, u, rfl, hparts⟩

/-- **Without a star** a pattern matches texts of one length only, which is
the number of its parts. -/
theorem length_of_matchTokens {ts : List Token} {t : Text} (hts : .star ∉ ts)
    (h : matchTokens ts t = true) : t.length = ts.length := by
  induction ts generalizing t with
  | nil => simpa [matchTokens] using h
  | cons token rest ih =>
    rw [List.mem_cons, not_or] at hts
    obtain ⟨c, u, rfl, -, hrest⟩ := exists_of_matchTokens_cons (Ne.symm hts.1) h
    rw [List.length_cons, List.length_cons, ih hts.2 hrest]

/-- **A pattern that begins with a character** matches texts that begin so. -/
theorem head?_of_matchTokens {ts : List Token} {t : Text} {c : Char}
    (hts : ts.head? = some (.only c)) (h : matchTokens ts t = true) : t.head? = some c := by
  obtain ⟨rest, rfl⟩ := List.head?_eq_some_iff.1 hts
  obtain ⟨d, u, rfl, haccepts, -⟩ := exists_of_matchTokens_cons (by simp) h
  have hc : c = d := of_decide_eq_true haccepts
  rw [List.head?_cons, hc]

/-- **A pattern that ends with a character** matches texts that end so. -/
theorem getLast?_of_matchTokens {ts : List Token} {t : Text} {c : Char}
    (hts : ts.getLast? = some (.only c)) (h : matchTokens ts t = true) :
    t.getLast? = some c := by
  induction ts generalizing t with
  | nil => cases hts
  | cons token rest ih =>
    by_cases hrest : rest = []
    · subst hrest
      obtain rfl : token = .only c := by simpa using hts
      obtain ⟨d, u, rfl, haccepts, hu⟩ := exists_of_matchTokens_cons (by simp) h
      have hc : c = d := of_decide_eq_true haccepts
      have hnil : u = [] := by simpa [matchTokens] using hu
      rw [hnil, hc]
      rfl
    · rw [List.getLast?_cons_of_ne_nil hrest] at hts
      by_cases hstar : token = .star
      · subst hstar
        obtain ⟨u, ⟨front, rfl⟩, hu⟩ := anyEnd_eq_true_iff.1 h
        rw [List.getLast?_append, ih hts hu]
        rfl
      · obtain ⟨d, u, rfl, -, hu⟩ := exists_of_matchTokens_cons hstar h
        rw [List.getLast?_cons, ih hts hu]
        rfl

/-- **A pattern that a spelling can escape.** One of three things is enough:
there is no star in it, it begins with a character that is no slash, or it
ends with one that is no point. -/
inductive Escapable (pattern : Text) : Prop
  /-- It has no star. -/
  | noStar (h : .star ∉ tokens pattern)
  /-- It begins with a character that is no slash. -/
  | beginning {c : Char} (h : (tokens pattern).head? = some (.only c)) (hc : c ≠ '/')
  /-- It ends with a character that is no point. -/
  | ending {c : Char} (h : (tokens pattern).getLast? = some (.only c)) (hc : c ≠ '.')

/-- Such a pattern does not match a text that begins with a slash, ends with
a point and is longer than the pattern has parts. -/
theorem Escapable.isMatch_eq_false {pattern t : Text} (h : Escapable pattern)
    (hhead : t.head? = some '/') (hlast : t.getLast? = some '.')
    (hlength : (tokens pattern).length < t.length) : isMatch pattern t = false := by
  by_contra hmatch
  rw [Bool.not_eq_false, isMatch] at hmatch
  cases h with
  | noStar h => exact absurd (length_of_matchTokens h hmatch) (by omega)
  | beginning h hc =>
    rw [head?_of_matchTokens h hmatch] at hhead
    exact hc (Option.some.inj hhead)
  | ending h hc =>
    rw [getLast?_of_matchTokens h hmatch] at hlast
    exact hc (Option.some.inj hlast)

end Glob

/-! ## Another spelling of a path

The detours lead nowhere, so the names are those of the path from the root
with some more that are left out when they are read. -/

namespace Path

/-- So many detours through the directory that one is in. -/
def detours (n : Nat) : Text := (List.replicate n ['.', '/']).flatten

/-- **A path from the root, spelled with detours**: so many after its first
slash, and one at its end. -/
def respell (n : Nat) (path : Text) : Text := '/' :: (detours n ++ path.tail ++ ['/', '.'])

/-- A path from the root has an empty name before its first slash. -/
theorem names_cons_root (path : Text) : names ('/' :: path) = [] :: names path := by
  show Text.splitOn '/' ([] ++ '/' :: path) = _
  rw [Text.splitOn_append]
  rfl

theorem names_detours_append (n : Nat) (path : Text) :
    names (detours n ++ path) = List.replicate n here ++ names path := by
  induction n with
  | zero => rfl
  | succ n ih =>
    have hdetours : detours (n + 1) ++ path = ['.'] ++ '/' :: (detours n ++ path) := by
      simp [detours, List.replicate_succ]
    rw [hdetours, names, Text.splitOn_append]
    show ['.'] :: names (detours n ++ path) = _
    rw [ih, List.replicate_succ, List.cons_append]
    rfl

theorem names_respell (n : Nat) (path : Text) :
    names (respell n path) = [] :: (List.replicate n here ++ (names path.tail ++ [here])) := by
  rw [respell, names_cons_root, List.append_assoc, names_detours_append]
  show _ :: (_ ++ Text.splitOn '/' (path.tail ++ '/' :: ['.'])) = _
  rw [Text.splitOn_append]
  rfl

theorem isAbsolute_respell (n : Nat) (path : Text) : isAbsolute (respell n path) = true := rfl

/-- A path spelled with detours is longer than their number. -/
theorem lt_length_respell (n : Nat) (path : Text) : n < (respell n path).length := by
  have hdetours : (detours n).length = n * 2 := by
    simp [detours]
  rw [respell, List.length_cons, List.length_append, List.length_append, hdetours]
  omega

theorem getLast?_respell (n : Nat) (path : Text) : (respell n path).getLast? = some '.' := by
  rw [respell, ← List.cons_append, List.getLast?_append]
  rfl

end Path

namespace Disk

variable {d : Disk} {root path : Text} {patterns : List Text}

section Reading

variable {descend : Seen → Trail → List Text → Resolution} {seen found : Seen}
  {trail last : Trail}

theorem readNames_replicate_here (n : Nat) (names : List Text) :
    readNames d descend seen trail (List.replicate n Path.here ++ names)
      = readNames d descend seen trail names := by
  induction n with
  | zero => rfl
  | succ n ih => rw [List.replicate_succ, List.cons_append, readNames_skip (Or.inr rfl), ih]

/-- **Names are read one after the other**: what comes after names that are
read to their end is read from there. -/
theorem readNames_append {names : List Text}
    (h : readNames d descend seen trail names = .done last found) (more : List Text) :
    readNames d descend seen trail (names ++ more) = readNames d descend found last more := by
  induction names generalizing seen trail with
  | nil =>
    cases h
    rfl
  | cons name rest ih =>
    rw [List.cons_append]
    by_cases hhere : name = [] ∨ name = Path.here
    · rw [readNames_skip hhere] at h ⊢
      exact ih h
    by_cases habove : name = Path.above
    · subst habove
      rw [readNames_up] at h ⊢
      exact ih h
    by_cases hnull : '\x00' ∈ name
    · rw [readNames, if_neg hhere, if_neg habove, if_pos hnull] at h
      cases h
    have hn : IsStep name := ⟨hhere, habove, hnull⟩
    by_cases hlink : ∃ target, d.node? ((trail.down name).location d.workingDir)
        = some (.link target)
    · obtain ⟨target, hnode⟩ := hlink
      rw [readNames_link hn hnode] at h ⊢
      cases hknown : seen.find? fun e => e.1 = trail.down name with
      | some entry =>
        obtain ⟨_, _ | known⟩ := entry
        · simp only [hknown] at h
          cases h
        · simp only [hknown] at h
          exact ih h
      | none =>
        simp only [hknown] at h
        cases hread : descend ((trail.down name, none) :: seen)
            (if Path.isAbsolute target then Trail.root else trail) (Path.names target) with
        | done middle seen' =>
          simp only [hread] at h
          exact ih h
        | stuck path =>
          simp only [hread] at h
          cases h
        | nullByte =>
          simp only [hread] at h
          cases h
        | tooDeep =>
          simp only [hread] at h
          cases h
    · rw [readNames_down hn (not_exists.1 hlink)] at h ⊢
      exact ih h

end Reading

section

variable [Nesting]

/-- **A path spelled with detours leads where it led**, if it is read
through. -/
theorem realPath_respell (habs : Path.isAbsolute path = true)
    (hread : d.isReadThrough path = true) (n : Nat) :
    d.realPath (Path.respell n path) = d.realPath path := by
  obtain ⟨t, rfl⟩ := Path.exists_of_isAbsolute habs
  unfold isReadThrough at hread
  unfold realPath
  rw [Path.isAbsolute_respell, habs, Path.names_respell, Path.names_cons_root] at *
  obtain ⟨depth, hdepth⟩ := exists_links_eq
  rw [hdepth] at hread ⊢
  simp only [if_true, readDeep, readNames_skip (Or.inl rfl), readNames_replicate_here,
    List.tail_cons] at hread ⊢
  cases hdone : readNames d (readDeep d depth) [] .root (Path.names t) with
  | done last found =>
    rw [readNames_append hdone, readNames_skip (Or.inr rfl)]
    rfl
  | stuck path =>
    rw [hdone] at hread
    cases hread
  | nullByte =>
    rw [hdone] at hread
    cases hread
  | tooDeep =>
    rw [hdone] at hread
    cases hread

/-! ## Refusals

With patterns that are texts, a path is refused for one of two reasons, and
the two do not depend on each other. -/

/-- Whether a path is refused. -/
def Refuses (d : Disk) (root path : Text) (exclude : List Value) : Prop :=
  ∃ r, d.resolve root path exclude = .error (.forbidden path r)

omit [Nesting] in
theorem isExcluded_texts (path : Text) (patterns : List Text) :
    isExcluded path (patterns.map Value.text)
      = .ok (patterns.any fun g => Glob.isMatch g path) := by
  induction patterns with
  | nil => rfl
  | cons g rest ih =>
    rw [List.map_cons, isExcluded, List.any_cons]
    cases Glob.isMatch g path with
    | true => rfl
    | false => exact ih

/-- **What patterns do to a path** that leads to a file: it is refused if one
of them matches it, and leads to the file otherwise. -/
theorem resolve_texts {full : Text} (h : d.resolve root path [] = .ok full) :
    ∃ r, d.resolve root path (patterns.map Value.text)
      = if patterns.any fun g => Glob.isMatch g path then .error (.forbidden path r)
        else .ok full := by
  obtain ⟨r, hr, hf, hb, -⟩ := resolve_eq_ok_iff.1 h
  refine ⟨r, ?_⟩
  unfold resolve
  rw [realPathFor_eq_ok_iff.2 hr]
  show (do
    let full ← d.realPathFor (Path.join r path)
    if !isBelow r full then .error (.forbidden path r)
    else if ← isExcluded path (patterns.map Value.text) then .error (.forbidden path r)
    else .ok full) = _
  rw [realPathFor_eq_ok_iff.2 hf, isExcluded_texts]
  show (if !isBelow r full then Except.error (PathError.forbidden path r)
    else if patterns.any fun g => Glob.isMatch g path then .error (.forbidden path r)
    else .ok full) = _
  rw [hb]
  rfl

/-- A path that leads to a file is refused exactly when a pattern matches
it. -/
theorem refuses_iff {full : Text} (h : d.resolve root path [] = .ok full) :
    d.Refuses root path (patterns.map Value.text)
      ↔ ∃ g ∈ patterns, Glob.isMatch g path = true := by
  have hr : ∃ r, d.resolve root path (patterns.map Value.text)
      = if patterns.any fun g => Glob.isMatch g path then .error (.forbidden path r)
        else .ok full := resolve_texts h
  obtain ⟨r, hr⟩ := hr
  unfold Refuses
  rw [hr, ← List.any_eq_true]
  split
  next hmatch => exact ⟨fun _ => hmatch, fun _ => ⟨r, rfl⟩⟩
  next hmatch => exact ⟨fun ⟨_, h⟩ => (nomatch h), fun h => absurd h hmatch⟩

/-- **A way around patterns.** What a path that is read through leads to is
reached by a spelling that no pattern of the list matches, if each can be
escaped. -/
theorem exists_resolve_of_escapable {r full : Text} (hr : d.realPath root = .ok r)
    (h : d.resolve root path [] = .ok full) (hread : d.isReadThrough (Path.join r path) = true)
    (hg : ∀ g ∈ patterns, Glob.Escapable g) :
    ∃ spelling, d.resolve root spelling (patterns.map Value.text) = .ok full := by
  obtain ⟨r', hr', hf, hb, -⟩ := resolve_eq_ok_iff.1 h
  obtain rfl : r' = r := Except.ok.inj (hr'.symm.trans hr)
  -- As many detours as all the patterns together have parts.
  let n := (patterns.map Glob.tokens).flatten.length
  let spelling := Path.respell n (Path.join r' path)
  have hjoin : Path.join r' spelling = spelling := if_pos (Path.isAbsolute_respell n _)
  have habs := Path.isAbsolute_join (isAbsolute_of_realPath hr) path
  have hleads : d.realPath (Path.join r' spelling) = .ok full := by
    rw [hjoin, realPath_respell habs hread, hf]
  have hplain : d.resolve root spelling [] = .ok full :=
    resolve_eq_ok_iff.2 ⟨r', hr, hleads, hb, rfl⟩
  have hnone : ¬(patterns.any fun g => Glob.isMatch g spelling) = true := by
    rw [List.any_eq_true]
    rintro ⟨g, hmem, hmatch⟩
    have hlength : (Glob.tokens g).length ≤ n :=
      (List.infix_of_mem_flatten (List.mem_map_of_mem hmem)).length_le
    rw [(hg g hmem).isMatch_eq_false rfl (Path.getLast?_respell n _)
      (hlength.trans_lt (Path.lt_length_respell n _))] at hmatch
    cases hmatch
  obtain ⟨_, hspelling⟩ := resolve_texts hplain
  exact ⟨spelling, hspelling.trans (if_neg hnone)⟩

/-- **Exclusion under respelling.** Two spellings of one file are refused
alike exactly when patterns match both as they are written or neither; and
patterns that can be escaped keep no file that is read through from being
edited under some spelling. -/
theorem refuses_iff_of_spellings (d : Disk) (root : Text) (patterns : List Text) :
    (∀ path spelling full, d.resolve root path [] = .ok full →
      d.resolve root spelling [] = .ok full →
        ((d.Refuses root path (patterns.map Value.text)
            ↔ d.Refuses root spelling (patterns.map Value.text))
          ↔ ((∃ g ∈ patterns, Glob.isMatch g path = true)
            ↔ ∃ g ∈ patterns, Glob.isMatch g spelling = true)))
    ∧ ∀ path full r, d.realPath root = .ok r → d.resolve root path [] = .ok full →
      d.isReadThrough (Path.join r path) = true → (∀ g ∈ patterns, Glob.Escapable g) →
        ∃ spelling, d.resolve root spelling (patterns.map Value.text) = .ok full := by
  constructor
  · intro path spelling full hpath hspelling
    rw [refuses_iff hpath, refuses_iff hspelling]
  · exact fun path full r hr h hread hg => exists_resolve_of_escapable hr h hread hg

end

/-! ## A file that is excluded in vain

One pattern and one file, under the spelling that the pattern names and under
another. -/

/-- A root with a file that no edit should touch. -/
def locked : Disk where
  nodes := .ofList [
    (["srv"], .directory),
    (["srv", "repo"], .directory),
    (["srv", "repo", "poetry.lock"], .file [])]
  workingDir := ["srv"]

/-- **A file that is excluded under one spelling can be edited under
another**: a detour at the end, and the pattern does not match. -/
theorem not_always_excluded :
    ¬∀ (d : Disk) (root path spelling full : Text) (patterns : List Text), d.IsTree →
      d.resolve root path [] = .ok full → d.resolve root spelling [] = .ok full →
        (d.Refuses root path (patterns.map Value.text)
          ↔ d.Refuses root spelling (patterns.map Value.text)) := by
  intro h
  have hrefused : locked.Refuses "repo" "poetry.lock" [.text "*.lock"] :=
    ⟨"/srv/repo", by decide +kernel⟩
  obtain ⟨r, hr⟩ := (h locked "repo" "poetry.lock" "poetry.lock/." "/srv/repo/poetry.lock"
    ["*.lock"] (by decide +kernel) (by decide +kernel) (by decide +kernel)).1 hrefused
  have hedited : locked.resolve "repo" "poetry.lock/." [.text "*.lock"]
      = .ok "/srv/repo/poetry.lock" := by decide +kernel
  rw [List.map_cons, List.map_nil, hedited] at hr
  cases hr

/-- The spellings of that file, with the pattern and without a pattern that
tells them apart. -/
theorem refuses_iff_of_spellings_locked :
    (locked.Refuses "repo" "poetry.lock" [.text "*poetry*"]
        ↔ locked.Refuses "repo" "poetry.lock/." [.text "*poetry*"])
      ∧ ∃ spelling, locked.resolve "repo" spelling [.text "*.lock"]
        = .ok "/srv/repo/poetry.lock" :=
  ⟨((refuses_iff_of_spellings locked "repo" ["*poetry*"]).1 "poetry.lock" "poetry.lock/."
      "/srv/repo/poetry.lock" (by decide +kernel) (by decide +kernel)).2 (by decide +kernel),
    (refuses_iff_of_spellings locked "repo" ["*.lock"]).2 "poetry.lock" "/srv/repo/poetry.lock"
      "/srv/repo" (by decide +kernel) (by decide +kernel) (by decide +kernel)
      (by
        intro g hg
        obtain rfl := List.mem_singleton.1 hg
        exact .ending (c := 'k') (by decide +kernel) (by decide))⟩

end Disk

end EditBlocks
