import EditBlocks.Proofs.Apply
import EditBlocks.Proofs.Encoding.RoundTrip
import EditBlocks.Proofs.Resolution

/-!
# Files read and written by a snapshot

One statement for each way in which a snapshot meets the disk. Loading finds
under a path the text of the file that the path leads to
(`Snapshot.get?_of_load`). Storing one file makes directories, and then may
empty the file and write it (`Snapshot.storeFile_cases`). Storing several
leaves in each file what was written to it last
(`Snapshot.node?_of_storeFiles`): the paths tell the files apart when they
are read and edited, but on the disk two paths can be one file.

The file that a path leads to is its destination (`Disk.destination?`), a
location. It does not change while a disk grows, so it can be asked for on
the first disk of a run and used on any later one.

Nothing is supposed of the encoding but that it reads what it writes, where a
text is read that was written before (`RunConfig.ReadsBack`).
-/

namespace EditBlocks

variable [Host]

/-- **The encoding that a setting stands for**, as it is found when a file is
opened: first the name, then the codec of that name. -/
def Encoding.ofSetting (setting : Value) : Except EncodingError Encoding :=
  nameIn setting >>= named

/-- **A configuration under which what is written is read back**, in whatever
encoding its setting stands for. -/
def RunConfig.ReadsBack (config : RunConfig) : Prop :=
  ∀ {e : Encoding}, Encoding.ofSetting config.encoding = .ok e → e.ReadsBack

/-- It is so under every encoding that is modelled. -/
theorem RunConfig.readsBack_of_isModelled {config : RunConfig} {e : Encoding}
    (he : Encoding.ofSetting config.encoding = .ok e) (h : e.isModelled = true) :
    config.ReadsBack := by
  intro e' he'
  obtain rfl : e = e' := Except.ok.inj (he.symm.trans he')
  exact Encoding.readsBack_of_isModelled h

namespace Disk

variable {d d' : Disk} {root path : Text} {exclude : List Value}

/-- **The text at a location**: that of a file if it can be read, and the
empty text where nothing is. -/
def textAt? (d : Disk) (e : Encoding) (place : Location) : Option Text :=
  match d.node? place with
  | some (.file bytes) => (e.decode bytes).toOption
  | some _ => none
  | none => some []

/-- **The location that an edit's path leads to** under a root, if it is
resolved and then leads anywhere. Two paths are of one file exactly when they
have one destination. -/
def destination? (d : Disk) (root : Text) (exclude : List Value) (path : Text) :
    Option Location :=
  match d.resolve root path exclude with
  | .ok full => d.reach? full
  | .error _ => none

theorem destination?_eq_some_iff {place : Location} :
    d.destination? root exclude path = some place
      ↔ ∃ full, d.resolve root path exclude = .ok full ∧ d.reach? full = some place := by
  unfold destination?
  cases d.resolve root path exclude <;> simp

/-- An edit's path goes on leading to the location that it leads to. -/
theorem Grows.destination? (hg : d.Grows d') {place : Location}
    (h : d.destination? root exclude path = some place) :
    d'.destination? root exclude path = some place := by
  obtain ⟨full, hf, hr⟩ := destination?_eq_some_iff.1 h
  exact destination?_eq_some_iff.2 ⟨full, (hg.resolve root path exclude).trans hf, hg.reach? hr⟩

/-- **The location that a path leads to is the one that was checked**, where
the path is read through: it lies below the root, with no link on it. -/
theorem resolve_of_destination? {r : Text} {place : Location} (hg : d.Grows d')
    (hr : d.realPath root = .ok r) (hread : d.isReadThrough (Path.join r path) = true)
    (h : d'.destination? root exclude path = some place) :
    d.resolve root path exclude = .ok (Path.ofLocation place)
      ∧ d'.reach? (Path.ofLocation place) = some place ∧ Path.IsProper place
      ∧ d.LinkFree place ∧ Path.Below (Path.toLocation r) place := by
  obtain ⟨full, hfull, hreach⟩ := destination?_eq_some_iff.1 h
  rw [hg.resolve] at hfull
  obtain ⟨checked, rfl, hp, hf, hb⟩ := resolve_of_isReadThrough hfull hr hread
  obtain rfl := eq_of_reach?_ofLocation hp (hf.of_grows hg) hreach
  exact ⟨hfull, hreach, hp, hf, hb⟩

/-- **A text is read** when the path leads to a file and its bytes can be
read. -/
theorem readText_eq_ok_iff (hd : d.IsTree) {setting : Value} {t : Text} :
    d.readText path setting = .ok t
      ↔ ∃ e place bytes, Encoding.ofSetting setting = .ok e ∧ d.reach? path = some place
        ∧ d.node? place = some (.file bytes) ∧ e.decode bytes = .ok t := by
  simp only [readText, Encoding.ofSetting, bind_eq_ok_iff, ofEncoding_eq_ok_iff,
    mapError_eq_ok_iff, read_eq_ok_iff hd]
  constructor
  · rintro ⟨name, hname, bytes, ⟨place, hr, hn⟩, e, he, ht⟩
    exact ⟨e, place, bytes, ⟨name, hname, he⟩, hr, hn, ht⟩
  · rintro ⟨e, place, bytes, ⟨name, hname, he⟩, hr, hn, ht⟩
    exact ⟨name, hname, bytes, ⟨place, hr, hn⟩, e, he, ht⟩

/-! ## Writing a text

A file is emptied, and then it has the bytes of the text or is left empty. -/

omit [Host] in
theorem Takes.of_file {place : Location} {bytes : List UInt8} (h : d.Takes place (.file bytes))
    (bytes' : List UInt8) : d.Takes place (.file bytes') where
  ne_nil := h.ne_nil
  proper := h.proper
  parent := h.parent
  no_link := fun _ h => nomatch h
  free := h.free.imp_right fun ⟨hf, _⟩ => ⟨hf, bytes', rfl⟩

omit [Host] in
theorem put_put (d : Disk) (place : Location) (node node' : Node) :
    (d.put place node).put place node' = d.put place node' := by
  unfold put
  rw [OrderedMap.insert_insert]

/-- **A text is written** where the path leads to a location that takes a
file, and the text can be encoded. The file is emptied first. -/
theorem writeText_of_takes (hd : d.IsTree) {setting : Value} {t : Text} {e : Encoding}
    {place : Location} {bytes : List UInt8} (he : Encoding.ofSetting setting = .ok e)
    (hbytes : e.encode t = .ok bytes) (hreach : d.reach? path = some place)
    (htakes : d.Takes place (.file bytes)) :
    d.writeText path setting t = (d.put place (.file bytes), none) := by
  obtain ⟨name, hname, hnamed⟩ := bind_eq_ok_iff.1 he
  have hempty := htakes.of_file []
  have hfirst : d.write path [] = .ok (d.put place (.file [])) :=
    (write_eq_ok_iff hd).2 ⟨place, hreach, hempty, rfl⟩
  have hput : (d.put place (.file [])).node? place = some (.file []) := by
    rw [node?_put d _ place htakes.ne_nil, if_pos rfl]
  have hagain : (d.put place (.file [])).write path bytes
      = .ok ((d.put place (.file [])).put place (.file bytes)) :=
    (write_eq_ok_iff (hempty.isTree hd)).2
      ⟨place, hempty.grows.reach? hreach, takes_of_file (hempty.isTree hd) hput bytes, rfl⟩
  have hbytesOf : bytesOf name t = .ok bytes :=
    bind_eq_ok_iff.2 ⟨e, ofEncoding_eq_ok_iff.2 hnamed, ofEncoding_eq_ok_iff.2 hbytes⟩
  simp only [writeText, hname, hfirst, hbytesOf, hagain, put_put]

/-- **Writing a text** does nothing, or empties the file that the path leads
to, or gives it the bytes of the text. Only in the last case does it
succeed. -/
theorem writeText_cases (hd : d.IsTree) {setting : Value} {t : Text} {failed : Option Failure}
    (h : d.writeText path setting t = (d', failed)) :
    failed ≠ none ∧ d' = d ∨ ∃ place, d.reach? path = some place
      ∧ (∀ bytes, d.Takes place (.file bytes))
      ∧ (failed ≠ none ∧ d' = d.put place (.file [])
        ∨ failed = none ∧ ∃ e bytes, Encoding.ofSetting setting = .ok e ∧ e.encode t = .ok bytes
          ∧ d' = d.put place (.file bytes)) := by
  have hwrite := h
  unfold writeText at h
  split at h
  · cases h
    exact Or.inl ⟨by simp, rfl⟩
  next name hname =>
    split at h
    · cases h
      exact Or.inl ⟨by simp, rfl⟩
    next emptied hw =>
      obtain ⟨place, hr, ht, rfl⟩ := (write_eq_ok_iff hd).1 hw
      have ht' := fun bytes => ht.of_file bytes
      refine Or.inr ⟨place, hr, ht', ?_⟩
      split at h
      · cases h
        exact Or.inl ⟨by simp, rfl⟩
      next bytes hb =>
        simp only [bytesOf, bind_eq_ok_iff, ofEncoding_eq_ok_iff] at hb
        obtain ⟨e, he, hb⟩ := hb
        have hsetting : Encoding.ofSetting setting = .ok e := bind_eq_ok_iff.2 ⟨name, hname, he⟩
        cases hwrite.symm.trans (writeText_of_takes hd hsetting hb hr (ht' bytes))
        exact Or.inr ⟨rfl, e, bytes, hsetting, hb, rfl⟩

end Disk

namespace Snapshot

open Disk

variable {d d' : Disk} {root path : Text} {config : RunConfig} {paths : List Text}

/-! ## Loading

Paths are loaded in order and each under its own name, so a path that comes
twice is loaded twice with the same result. -/

/-- Loading one more path: it must be resolved, and its file comes in if it
is one. -/
theorem loadFiles_cons_eq_ok_iff {files files' : OrderedMap Text File} :
    loadFiles d root config (path :: paths) files = .ok files'
      ↔ ∃ full, d.resolve root path config.exclude = .ok full
        ∧ if d.isFile full = true then
            ∃ t, d.readText full config.encoding = .ok t
              ∧ loadFiles d root config paths (files.insert path ⟨path, t⟩) = .ok files'
          else loadFiles d root config paths files = .ok files' := by
  rw [loadFiles, bind_eq_ok_iff]
  simp only [mapError_eq_ok_iff]
  refine exists_congr fun full => and_congr_right fun _ => ?_
  split
  · exact bind_eq_ok_iff
  · exact Iff.rfl

/-- **What a path has to do with the disk it is loaded from.** Either it
leads to a file that could be read, or it leads to none and is left out. -/
inductive Loaded (d : Disk) (root : Text) (config : RunConfig) (path : Text) : Option File → Prop
  /-- The path leads to a file, and its text is loaded. -/
  | file {full : Text} {e : Encoding} {place : Location} {bytes : List UInt8} {t : Text}
      (hfull : d.resolve root path config.exclude = .ok full)
      (he : Encoding.ofSetting config.encoding = .ok e) (hplace : d.reach? full = some place)
      (hnode : d.node? place = some (.file bytes)) (ht : e.decode bytes = .ok t) :
      Loaded d root config path (some ⟨path, t⟩)
  /-- The path is one of an edit, but leads to no file. -/
  | none {full : Text} (hfull : d.resolve root path config.exclude = .ok full)
      (hnode : ∀ place bytes, d.reach? full = some place → d.node? place ≠ some (.file bytes)) :
      Loaded d root config path none

/-- Files that were there stay, but for those loaded. -/
theorem get?_of_loadFiles (hd : d.IsTree) {files files' : OrderedMap Text File}
    (h : loadFiles d root config paths files = .ok files') (path : Text) :
    path ∉ paths ∧ files'.get? path = files.get? path
      ∨ path ∈ paths ∧ ∃ found, Loaded d root config path found
        ∧ files'.get? path = found.or (files.get? path) := by
  induction paths generalizing files with
  | nil =>
    cases h
    exact Or.inl ⟨by simp, rfl⟩
  | cons first rest ih =>
    obtain ⟨full, hfull, h⟩ := loadFiles_cons_eq_ok_iff.1 h
    split at h
    next hfile =>
      obtain ⟨t, ht, h⟩ := h
      obtain ⟨e, place, bytes, he, hplace, hnode, ht⟩ := (readText_eq_ok_iff hd).1 ht
      have hloaded : Loaded d root config first (some ⟨first, t⟩) :=
        .file hfull he hplace hnode ht
      by_cases hp : path = first
      · subst hp
        refine Or.inr ⟨List.mem_cons_self, ?_⟩
        rcases ih h with ⟨-, hget⟩ | ⟨-, found, hfound, hget⟩
        · exact ⟨_, hloaded, by rw [hget]; simp⟩
        · refine ⟨_, hloaded, ?_⟩
          rw [hget]
          cases hfound with
          | @file full' e' place' bytes' t' hfull' he' hplace' hnode' ht' =>
            -- a path that is loaded twice is read twice with the same result
            cases hfull.symm.trans hfull'
            cases he.symm.trans he'
            cases hplace.symm.trans hplace'
            cases hnode.symm.trans hnode'
            cases ht.symm.trans ht'
            rfl
          | none _ _ => simp
      · rcases ih h with ⟨hmem, hget⟩ | ⟨hmem, found, hfound, hget⟩
        · exact Or.inl ⟨by simp [hp, hmem], by rw [hget]; simp [hp]⟩
        · exact Or.inr ⟨List.mem_cons_of_mem _ hmem, found, hfound, by rw [hget]; simp [hp]⟩
    next hfile =>
      rcases ih h with ⟨hmem, hget⟩ | ⟨hmem, hloaded⟩
      · by_cases hp : path = first
        · subst hp
          refine Or.inr ⟨List.mem_cons_self, none,
            .none hfull fun place bytes hplace hnode => ?_, hget⟩
          exact hfile ((isFile_iff hd).2 ⟨place, bytes, hplace, hnode⟩)
        · exact Or.inl ⟨by simp [hp, hmem], hget⟩
      · exact Or.inr ⟨List.mem_cons_of_mem _ hmem, hloaded⟩

/-- **What a snapshot that is loaded has under a path**: the file that the
path leads to, with its text, or nothing. -/
theorem get?_of_load (hd : d.IsTree) {s : Snapshot} (h : load d root paths config = .ok s)
    (path : Text) :
    path ∉ paths ∧ s.files.get? path = none
      ∨ path ∈ paths ∧ Loaded d root config path (s.files.get? path) := by
  unfold load at h
  obtain ⟨files, hfiles, h⟩ := bind_eq_ok_iff.1 h
  obtain ⟨_, _, h⟩ := bind_eq_ok_iff.1 h
  cases h
  rcases get?_of_loadFiles hd hfiles path with ⟨hmem, hget⟩ | ⟨hmem, found, hfound, hget⟩
  · exact Or.inl ⟨hmem, hget⟩
  · have hempty : (OrderedMap.empty : OrderedMap Text File).get? path = none := rfl
    rw [hempty, Option.or_none] at hget
    exact Or.inr ⟨hmem, hget ▸ hfound⟩

omit [Host] in
/-- Of two disks that grow into each other, paths lead to the same
locations. -/
theorem reach?_congr (hg : d.Grows d') (hg' : d'.Grows d) (path : Text) :
    d'.reach? path = d.reach? path := by
  cases h : d.reach? path with
  | some place => exact hg.reach? h
  | none =>
    cases h' : d'.reach? path with
    | none => rfl
    | some place => exact absurd ((hg'.reach? h').symm.trans h) (by simp)

/-- **Loading reads the files that the paths lead to, and nothing else**: the
bytes of other files make no difference. -/
theorem load_congr (hd : d.IsTree) (hd' : d'.IsTree) (hg : d.Grows d') (hg' : d'.Grows d)
    (hsame : ∀ path ∈ paths, ∀ place, d.destination? root config.exclude path = some place →
      d'.node? place = d.node? place) :
    load d' root paths config = load d root paths config := by
  -- both disks resolve every path alike, so they part at most at a file's bytes
  have hfiles : ∀ files, loadFiles d' root config paths files
      = loadFiles d root config paths files := by
    induction paths with
    | nil => exact fun _ => rfl
    | cons path rest ih =>
      intro files
      have ih := ih fun other ho => hsame other (List.mem_cons_of_mem _ ho)
      rw [loadFiles, loadFiles, hg.resolve]
      match hfull : d.resolve root path config.exclude with
      | .error e => rfl
      | .ok full =>
        show (if d'.isFile full = true then _ else _) = (if d.isFile full = true then _ else _)
        have hnode : ∀ place, d.reach? full = some place → d'.node? place = d.node? place :=
          fun place hp => hsame path List.mem_cons_self place
            (destination?_eq_some_iff.2 ⟨full, hfull, hp⟩)
        by_cases hf : d.isFile full = true
        · obtain ⟨place, bytes, hp, hn⟩ := (isFile_iff hd).1 hf
          have hp' := (reach?_congr hg hg' full).trans hp
          have hn' := (hnode place hp).trans hn
          have hread : d.read full = .ok bytes := (read_eq_ok_iff hd).2 ⟨place, hp, hn⟩
          have hread' : d'.read full = .ok bytes := (read_eq_ok_iff hd').2 ⟨place, hp', hn'⟩
          rw [if_pos hf, if_pos ((isFile_iff hd').2 ⟨place, bytes, hp', hn'⟩), readText, readText,
            hread, hread']
          simp only [ih]
        · have hf' : ¬d'.isFile full = true := fun hf' => by
            obtain ⟨place, bytes, hp', hn'⟩ := (isFile_iff hd').1 hf'
            have hp := (reach?_congr hg hg' full).symm.trans hp'
            exact hf ((isFile_iff hd).2 ⟨place, bytes, hp, (hnode place hp).symm.trans hn'⟩)
          rw [if_neg hf, if_neg hf', ih]
  unfold load realPathFor
  rw [hfiles, hg.realPath]

/-! ## Storing

What a run of stores leaves is told for each file by the last path that leads
to it. -/

/-- **Storing a file** makes the directories above it, if its path is
resolved, and then may empty the file and write it. Only when it is written
does storing succeed. -/
theorem storeFile_cases (hd : d.IsTree) {s : Snapshot} {failed : Option Failure}
    (h : storeFile d root s config path = (d', failed)) :
    failed ≠ none ∧ ((∃ e, d.resolve root path config.exclude = .error e) ∧ d' = d
        ∨ ∃ full, d.resolve root path config.exclude = .ok full
          ∧ d' = (d.makeDirectories (Path.parent full)).1)
      ∨ ∃ full d₁ place, d.resolve root path config.exclude = .ok full
        ∧ d₁ = (d.makeDirectories (Path.parent full)).1
        ∧ d₁.reach? full = some place ∧ (∀ bytes, d₁.Takes place (.file bytes))
        ∧ (failed ≠ none ∧ d' = d₁.put place (.file [])
          ∨ failed = none ∧ ∃ e bytes, Encoding.ofSetting config.encoding = .ok e
            ∧ e.encode (s.contents path) = .ok bytes ∧ d' = d₁.put place (.file bytes)) := by
  unfold storeFile at h
  split at h
  next e hfull =>
    cases h
    exact Or.inl ⟨by simp, Or.inl ⟨⟨e, hfull⟩, rfl⟩⟩
  next full hfull =>
    split at h
    next d₁ e hmake =>
      cases h
      exact Or.inl ⟨by simp, Or.inr ⟨full, hfull, by rw [hmake]⟩⟩
    next d₁ hmake =>
      have hd₁ : d₁ = (d.makeDirectories (Path.parent full)).1 := by rw [hmake]
      have htree : d₁.IsTree := hd₁ ▸ (extends_makeDirectories hd (Path.parent full)).isTree
      rcases writeText_cases htree h with ⟨hfailed, rfl⟩ | ⟨place, hplace, htakes, hout⟩
      · exact Or.inl ⟨hfailed, Or.inr ⟨full, hfull, hd₁⟩⟩
      · exact Or.inr ⟨full, d₁, place, hfull, hd₁, hplace, htakes, hout⟩

/-- Storing a file makes the disk grow, whether or not it succeeds. -/
theorem grows_of_storeFile (hd : d.IsTree) {s : Snapshot} {failed : Option Failure}
    (h : storeFile d root s config path = (d', failed)) : d'.IsTree ∧ d.Grows d' := by
  rcases storeFile_cases hd h with ⟨-, ⟨-, rfl⟩ | ⟨full, -, rfl⟩⟩ |
    ⟨full, d₁, place, -, rfl, -, htakes, ⟨-, rfl⟩ | ⟨-, e, bytes, -, -, rfl⟩⟩
  · exact ⟨hd, Grows.refl _⟩
  · have hmake := extends_makeDirectories hd (Path.parent full)
    exact ⟨hmake.isTree, hmake.grows⟩
  all_goals
    have hmake := extends_makeDirectories hd (Path.parent full)
    exact ⟨(htakes _).isTree hmake.isTree, hmake.grows.trans (htakes _).grows⟩

/-- **What is stored in a file** that its path leads to, and what is left
elsewhere. -/
theorem node?_of_storeFile (hd : d.IsTree) {s : Snapshot}
    (h : storeFile d root s config path = (d', none)) :
    ∃ e place bytes, Encoding.ofSetting config.encoding = .ok e
      ∧ e.encode (s.contents path) = .ok bytes
      ∧ d'.destination? root config.exclude path = some place
      ∧ d'.node? place = some (.file bytes)
      ∧ ∀ other, other ≠ place → d.KeptAt d' other := by
  rcases storeFile_cases hd h with ⟨hne, -⟩ |
    ⟨full, d₁, place, hfull, rfl, hplace, htakes, ⟨hne, -⟩ | ⟨-, e, bytes, he, hbytes, rfl⟩⟩
  · exact absurd rfl hne
  · exact absurd rfl hne
  · have hmake := extends_makeDirectories hd (Path.parent full)
    have htakes := htakes bytes
    have hgrows := hmake.grows.trans htakes.grows
    refine ⟨e, place, bytes, he, hbytes, ?_, ?_, fun other ho => ?_⟩
    · exact destination?_eq_some_iff.2
        ⟨full, (hgrows.resolve _ _ _).trans hfull, htakes.grows.reach? hplace⟩
    · rw [node?_put _ _ place htakes.ne_nil, if_pos rfl]
    · rw [KeptAt, node?_put _ _ other htakes.ne_nil, if_neg ho]
      exact hmake.keptAt other

/-- Files are stored one after the other, up to the first that fails. -/
theorem storeFiles_cons_eq_iff {s : Snapshot} {failed : Option Failure} :
    storeFiles root s config d (path :: paths) = (d', failed)
      ↔ (failed ≠ none ∧ storeFile d root s config path = (d', failed))
        ∨ ∃ d₁, storeFile d root s config path = (d₁, none)
          ∧ storeFiles root s config d₁ paths = (d', failed) := by
  rw [storeFiles]
  rcases storeFile d root s config path with ⟨d₁, _ | e⟩
  · constructor
    · exact fun h => Or.inr ⟨d₁, rfl, h⟩
    · rintro (⟨hne, h⟩ | ⟨_, h, hrest⟩)
      · cases h
        exact absurd rfl hne
      · cases h
        exact hrest
  · constructor
    · intro h
      cases h
      exact Or.inl ⟨by simp, rfl⟩
    · rintro (⟨-, h⟩ | ⟨_, h, -⟩)
      · exact h
      · cases h

theorem storeFiles_cons_eq_none_iff {s : Snapshot} :
    storeFiles root s config d (path :: paths) = (d', none)
      ↔ ∃ d₁, storeFile d root s config path = (d₁, none)
        ∧ storeFiles root s config d₁ paths = (d', none) := by
  simp [storeFiles_cons_eq_iff]

/-- Storing files makes the disk grow, however far it gets. -/
theorem grows_of_storeFiles (hd : d.IsTree) {s : Snapshot} {failed : Option Failure}
    (h : storeFiles root s config d paths = (d', failed)) : d'.IsTree ∧ d.Grows d' := by
  induction paths generalizing d with
  | nil =>
    cases h
    exact ⟨hd, Grows.refl _⟩
  | cons path rest ih =>
    rcases storeFiles_cons_eq_iff.1 h with ⟨-, hstep⟩ | ⟨d₁, hstep, hrest⟩
    · exact grows_of_storeFile hd hstep
    · obtain ⟨hd₁, hg⟩ := grows_of_storeFile hd hstep
      obtain ⟨hd', hg'⟩ := ih hd₁ hrest
      exact ⟨hd', hg.trans hg'⟩

/-- Storing that fails does so at one of the paths, when the disk has only
grown. -/
theorem exists_storeFile_of_storeFiles (hd : d.IsTree) {s : Snapshot} {e : Failure}
    (h : storeFiles root s config d paths = (d', some e)) :
    ∃ path ∈ paths, ∃ d₁, d.Grows d₁ ∧ storeFile d₁ root s config path = (d', some e) := by
  induction paths generalizing d with
  | nil => cases h
  | cons path rest ih =>
    rcases storeFiles_cons_eq_iff.1 h with ⟨-, hstep⟩ | ⟨d₁, hstep, hrest⟩
    · exact ⟨path, List.mem_cons_self, d, Grows.refl _, hstep⟩
    · obtain ⟨hd₁, hg⟩ := grows_of_storeFile hd hstep
      obtain ⟨other, ho, d₂, hg', hfail⟩ := ih hd₁ hrest
      exact ⟨other, List.mem_cons_of_mem _ ho, d₂, hg.trans hg', hfail⟩

/-- Every path under which a file is stored leads to a file. -/
theorem exists_file_of_storeFiles (hd : d.IsTree) {s : Snapshot}
    (h : storeFiles root s config d paths = (d', none)) (hp : path ∈ paths) :
    ∃ place bytes, d'.destination? root config.exclude path = some place
      ∧ d'.node? place = some (.file bytes) := by
  induction paths generalizing d with
  | nil => cases hp
  | cons first rest ih =>
    obtain ⟨d₁, hstep, h⟩ := storeFiles_cons_eq_none_iff.1 h
    obtain ⟨hd₁, -⟩ := grows_of_storeFile hd hstep
    obtain ⟨-, hg⟩ := grows_of_storeFiles hd₁ h
    rcases List.mem_cons.1 hp with rfl | hp
    · obtain ⟨_, place, bytes, _, _, hdest, hfile, _⟩ := node?_of_storeFile hd hstep
      obtain ⟨bytes', hfile'⟩ := hg.file place bytes hfile
      exact ⟨place, bytes', hg.destination? hdest, hfile'⟩
    · exact ih hd₁ h hp

/-- **The last of some paths that leads to a location.** It is the one whose
text the location has when all have been stored. -/
def lastAt? (d : Disk) (root : Text) (exclude : List Value) (paths : List Text)
    (place : Location) : Option Text :=
  (paths.filter fun path => d.destination? root exclude path = some place).getLast?

/-- The last path that leads to a location, of one more path. -/
theorem lastAt?_cons (exclude : List Value) (place : Location) :
    lastAt? d root exclude (path :: paths) place
      = (lastAt? d root exclude paths place).or
          (if d.destination? root exclude path = some place then some path else none) := by
  unfold lastAt?
  split
  next h =>
    rw [List.filter_cons_of_pos (by simpa using h), List.getLast?_cons]
    cases (paths.filter fun path => d.destination? root exclude path = some place).getLast? <;> rfl
  next h =>
    rw [List.filter_cons_of_neg (by simpa using h), Option.or_none]

/-- Paths that lead somewhere already have the same last one on a disk that
has grown. -/
theorem lastAt?_of_grows (hg : d.Grows d') {exclude : List Value} {place : Location}
    (h : ∀ path ∈ paths, ∃ there, d.destination? root exclude path = some there) :
    lastAt? d' root exclude paths place = lastAt? d root exclude paths place := by
  refine congrArg List.getLast? (List.filter_congr fun path hp => ?_)
  obtain ⟨there, ht⟩ := h path hp
  rw [hg.destination? ht, ht]

/-- **Every file holds what was stored in it last.** Elsewhere what stands is
kept. -/
theorem node?_of_storeFiles (hd : d.IsTree) {s : Snapshot}
    (h : storeFiles root s config d paths = (d', none)) (place : Location) :
    match lastAt? d' root config.exclude paths place with
    | some path => ∃ e bytes, Encoding.ofSetting config.encoding = .ok e
        ∧ e.encode (s.contents path) = .ok bytes ∧ d'.node? place = some (.file bytes)
    | none => d.KeptAt d' place := by
  induction paths generalizing d with
  | nil =>
    cases h
    exact Or.inl rfl
  | cons path rest ih =>
    obtain ⟨d₁, hstep, h⟩ := storeFiles_cons_eq_none_iff.1 h
    obtain ⟨hd₁, -⟩ := grows_of_storeFile hd hstep
    obtain ⟨-, hg⟩ := grows_of_storeFiles hd₁ h
    obtain ⟨e, target, bytes, he, hbytes, hdest, hfile, helse⟩ := node?_of_storeFile hd hstep
    have ih := ih hd₁ h
    rw [lastAt?_cons, hg.destination? hdest]
    match hlast : lastAt? d' root config.exclude rest place with
    | some last =>
      rw [hlast] at ih
      exact ih
    | none =>
      rw [hlast] at ih
      by_cases ht : target = place
      · -- nothing stored later leads here, so what was stored now stays
        subst ht
        rw [if_pos rfl]
        exact ⟨e, bytes, he, hbytes, (ih.file_iff bytes).2 hfile⟩
      · rw [if_neg fun hp => ht (Option.some.inj hp)]
        exact (helse place (Ne.symm ht)).trans ih

/-- **Storing what a snapshot changes** is storing those files, and gives
their paths. -/
theorem store_eq_ok_iff {before after : Snapshot} {stored : List Text} :
    store d root before after config = (d', .ok stored)
      ↔ stored = before.changed after
        ∧ storeFiles root after config d (before.changed after) = (d', none) := by
  unfold store
  dsimp only
  rcases storeFiles root after config d (before.changed after) with ⟨d₁, _ | e⟩
  · constructor
    · intro h
      cases h
      exact ⟨rfl, rfl⟩
    · rintro ⟨rfl, h⟩
      cases h
      rfl
  · exact iff_of_false (fun h => nomatch h) fun ⟨_, h⟩ => nomatch h

/-- It fails as storing the files does. -/
theorem store_eq_error_iff {before after : Snapshot} {e : Failure} :
    store d root before after config = (d', .error e)
      ↔ storeFiles root after config d (before.changed after) = (d', some e) := by
  unfold store
  dsimp only
  rcases storeFiles root after config d (before.changed after) with ⟨d₁, _ | e'⟩
  · exact iff_of_false (fun h => nomatch h) fun h => nomatch h
  · constructor
    all_goals
      intro h
      cases h
      rfl

theorem exists_storeFiles_of_store (d : Disk) (root : Text) (before after : Snapshot)
    (config : RunConfig) :
    ∃ failed, storeFiles root after config d (before.changed after)
        = ((store d root before after config).1, failed)
      ∧ ((store d root before after config).2.map (fun _ => ()) = .ok () ↔ failed = none) := by
  cases h : store d root before after config with
  | mk d' result =>
    cases result with
    | ok stored => exact ⟨none, (store_eq_ok_iff.1 h).2, iff_of_true rfl rfl⟩
    | error e => exact ⟨some e, store_eq_error_iff.1 h, iff_of_false (fun h => nomatch h) (by simp)⟩

end Snapshot

end EditBlocks
