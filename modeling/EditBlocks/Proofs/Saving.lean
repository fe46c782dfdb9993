import EditBlocks.Proofs.Lockout

/-!
# Saving any value

A value that is to be saved may look like an option: it may be the name of
one, or begin with a hyphen, or be the sign that ends the options. Then it is
not saved. What the command line is read as otherwise is shown here for every
value (`Program.readInvocation_cases`), and so is what the settings are
afterwards, where there were none before (`Program.opens_after_saving`).

The name of the setting is taken to be an ordinary argument, which all the
names that mean something are. So what is left to look at is one argument
behind two ordinary ones, and what each grammar takes it for: the one of the
program, which hands it on with the rest, and the one of the command. The
command has no option but the one that asks for help, so an argument that
looks like an option asks for help or is a misuse.
-/

namespace EditBlocks

open Disk

namespace Arguments

variable {g : Grammar} {t key value name : Text} {o : OptionSpec} {carried : Option Text}

/-- The options that a name can mean are those of the grammar. -/
theorem mem_options_of_meant {e : OptionSpec × Text × Option Text} (h : e ∈ meant g t) :
    e.1 ∈ g.options := by
  have hnames {o : OptionSpec} {name : Text}
      (h : (o, name) ∈ g.options.flatMap fun o => o.names.map fun name => (o, name)) :
      o ∈ g.options := by
    obtain ⟨o', ho', hmap⟩ := List.mem_flatMap.1 h
    obtain ⟨name', -, hpair⟩ := List.mem_map.1 hmap
    exact (Prod.mk.inj hpair).1 ▸ ho'
  rw [meant] at h
  split at h
  · obtain ⟨⟨o, name⟩, hmem, rfl⟩ := List.mem_map.1 h
    exact hnames (List.mem_filter.1 hmem).1
  · obtain ⟨⟨o, name⟩, hmem, hfound⟩ := List.mem_filterMap.1 h
    have hsame : e.1 = o := by grind
    exact hsame ▸ hnames hmem

/-- An option that an argument is taken for is one of the grammar. -/
theorem mem_options_of_roleOf (h : roleOf g t = .ok (.option (some (o, name, carried)))) :
    o ∈ g.options := by
  simp only [roleOf] at h
  split at h
  · cases h
  · split at h
    next hwhole =>
      cases h
      exact List.mem_of_find?_eq_some hwhole
    · split at h
      · cases h
      · split at h
        next hwhole _ =>
          cases h
          exact List.mem_of_find?_eq_some hwhole
        · split at h
          next hmeant =>
            cases h
            exact mem_options_of_meant (hmeant ▸ List.mem_singleton_self _)
          · split at h <;> cases h
          · cases h

/-- **Where help is asked for no value is read**, unless the option is
misused. -/
theorem readOption_help {rest : List (Text × Role)} {fuel : Nat} (ho : o.kind = .help)
    {options : List (OptionSpec × Option Text)} {count : Nat}
    (h : readOption g rest (fuel + 1) o name carried = .ok (options, count)) :
    (options.any fun e => e.1.kind = .help) = true := by
  have hfirst {more : List (OptionSpec × Option Text)} (hmore : options = (o, none) :: more) :
      (options.any fun e => e.1.kind = .help) = true := by simp [hmore, ho]
  match carried, h with
  | none, h =>
    simp only [readOption, ho] at h
    exact hfirst (Prod.mk.inj (Except.ok.inj h)).1.symm
  | some [], h =>
    simp only [readOption, ho] at h
    cases h
  | some (letter :: letters), h =>
    simp only [readOption, ho] at h
    split at h
    · cases h
    · split at h
      · cases h
      · obtain ⟨⟨more, n⟩, -, hmore⟩ := bind_eq_ok_iff.1 h
        exact hfirst (Prod.mk.inj (Except.ok.inj hmore)).1.symm

/-- **The roles of arguments of which only the last can look like an
option.** -/
theorem rolesOf_concat {ts : List Text} (h : ∀ t ∈ ts, IsOrdinary t) (t : Text) :
    (∃ e, rolesOf g (ts ++ [t]) = .error e)
      ∨ ∃ role, rolesOf g (ts ++ [t]) = .ok (ts.map (fun t => (t, .argument)) ++ [(t, role)])
        ∧ (role = .endSign ∧ t = endSign ∨ roleOf g t = .ok role ∧ t ≠ endSign) := by
  induction ts with
  | nil =>
    rw [List.nil_append, rolesOf]
    by_cases hend : t = endSign
    · rw [if_pos hend]
      exact .inr ⟨.endSign, rfl, .inl ⟨rfl, hend⟩⟩
    · rw [if_neg hend]
      cases hrole : roleOf g t with
      | error e => exact .inl ⟨e, rfl⟩
      | ok role => exact .inr ⟨role, rfl, .inr ⟨rfl, hend⟩⟩
  | cons u ts ih =>
    obtain ⟨hu, hts⟩ := List.forall_mem_cons.1 h
    have hend : u ≠ endSign := fun he => hu (he ▸ rfl)
    have hrole : roleOf g u = .ok .argument := if_pos hu
    rw [List.cons_append, rolesOf, if_neg hend, hrole]
    obtain ⟨e, he⟩ | ⟨role, hroles, hlast⟩ := ih hts
    · rw [he]
      exact .inl ⟨e, rfl⟩
    · rw [hroles]
      exact .inr ⟨role, rfl, hlast⟩

/-- **The command of a line takes all that follows**, whatever the last of it
looks like. -/
theorem read_mainGrammar {command : Text} (hcommand : IsOrdinary command) (hkey : IsOrdinary key)
    (value : Text) :
    (∃ e, read mainGrammar [command, key, value] = .error e)
      ∨ read mainGrammar [command, key, value]
        = .ok ⟨[], [("command", [command, key, value])], []⟩ := by
  have hordinary : ∀ t ∈ [command, key], IsOrdinary t :=
    List.forall_mem_cons.2 ⟨hcommand, List.forall_mem_singleton.2 hkey⟩
  have hfrom (role : Role) : readFrom mainGrammar 8 .empty mainGrammar.positionals
      [(command, .argument), (key, .argument), (value, role)]
      = .ok ⟨[], [("command", [command, key, value])], []⟩ := by
    cases role with
    | option found => cases found <;> rfl
    | _ => rfl
  obtain ⟨e, he⟩ | ⟨role, hroles, -⟩ := rolesOf_concat (g := mainGrammar) hordinary value
  · exact .inl ⟨e, bind_error he⟩
  · exact .inr (bind_eq_ok_iff.2 ⟨_, hroles, bind_eq_ok_iff.2 ⟨_, hfrom role, rfl⟩⟩)

/-- **A key, and the value if it is none of an option's.** What looks like an
option is left over, asks for help or is misused. -/
theorem read_settingsGrammar (hkey : IsOrdinary key) (value : Text) :
    (∃ e, read settingsGrammar [key, value] = .error e)
      ∨ ∃ found, read settingsGrammar [key, value] = .ok found
        ∧ single found "key" = some key
        ∧ (single found "value" = some value ∧ found.extras = []
          ∨ single found "value" = none) := by
  have hkept : dropSign [key] = [key] :=
    dropSign_of_ordinary (List.forall_mem_singleton.2 hkey)
  have hread {role : Role} {found : Found}
      (hroles : rolesOf settingsGrammar [key, value] = .ok [(key, .argument), (value, role)])
      (hfrom : readFrom settingsGrammar 6 .empty settingsGrammar.positionals
        [(key, .argument), (value, role)] = .ok found) :
      read settingsGrammar [key, value] = .ok found :=
    bind_eq_ok_iff.2 ⟨_, hroles, bind_eq_ok_iff.2 ⟨_, hfrom, rfl⟩⟩
  obtain ⟨e, he⟩ | ⟨role, hroles, hlast⟩ :=
    rolesOf_concat (g := settingsGrammar) (List.forall_mem_singleton.2 hkey) value
  · exact .inl ⟨e, bind_error he⟩
  cases role with
  | argument =>
    have hend : value ≠ endSign := hlast.elim (fun h => nomatch h.1) (·.2)
    have hvalue : dropSign [value] = [value] :=
      List.erase_of_not_mem fun hmem => hend (List.mem_singleton.1 hmem).symm
    refine .inr ⟨_, hread hroles rfl, ?_, .inl ⟨?_, rfl⟩⟩
    · show (dropSign [key]).head? = _
      rw [hkept]
      rfl
    · show (dropSign [value]).head? = _
      rw [hvalue]
      rfl
  | endSign =>
    refine .inr ⟨_, hread hroles rfl, ?_, .inr rfl⟩
    have hne : (key == endSign) = false := by
      simpa using fun he : key = endSign => hkey (he ▸ rfl)
    show (dropSign [key, value]).head? = _
    rw [dropSign, List.erase_cons, hne]
    rfl
  | option found =>
    cases found with
    | none =>
      refine .inr ⟨_, hread hroles rfl, ?_, .inr rfl⟩
      show (dropSign [key]).head? = _
      rw [hkept]
      rfl
    | some found =>
      obtain ⟨o, name, carried⟩ := found
      left
      have hrole := hlast.elim (fun h => nomatch h.1) (·.1)
      have hhelp : o.kind = .help := by
        rw [List.mem_singleton.1 (mem_options_of_roleOf hrole)]
        rfl
      have hfrom : ∃ e, readFrom settingsGrammar 6 .empty settingsGrammar.positionals
          [(key, .argument), (value, .option (some (o, name, carried)))] = .error e := by
        show ∃ e, readFrom settingsGrammar 5 _ [] [(value, .option (some (o, name, carried)))]
          = .error e
        cases hoption : readOption settingsGrammar [] (name.length + (carried.getD []).length + 1)
          o name carried with
        | error e => exact ⟨e, bind_error hoption⟩
        | ok found =>
          refine ⟨.help, bind_ok_error hoption ?_⟩
          exact if_pos (readOption_help hhelp hoption)
      obtain ⟨e, he⟩ := hfrom
      exact ⟨e, bind_ok_error hroles (bind_error he)⟩

end Arguments

namespace Program

open Arguments

/-- **What saving a value is read as**, whatever the value is: it is saved,
or the setting is only shown, or the line is misused. -/
theorem readInvocation_cases {key : Text} (hkey : IsOrdinary key) (value : Text) :
    readInvocation (saving key value) = .ok ⟨none, .settings (some key) (some value)⟩
      ∨ readInvocation (saving key value) = .ok ⟨none, .settings (some key) none⟩
      ∨ ∃ notice, readInvocation (saving key value) = .error notice := by
  have hconfig : IsOrdinary "config" := by decide
  obtain ⟨e, he⟩ | hmain := read_mainGrammar hconfig hkey value
  · exact .inr (.inr ⟨_, bind_error (mapError_eq_error_iff.2 ⟨e, he, rfl⟩)⟩)
  have hmain' : readWith mainGrammar ["config", key, value]
      = .ok ⟨[], [("command", ["config", key, value])], []⟩ := mapError_eq_ok_iff.2 hmain
  have htask : readTask "config" [key, value]
      = readWith settingsGrammar [key, value] >>= fun found =>
        .ok (.settings (single found "key") (single found "value"), found.extras) := by
    rw [readTask, if_neg (by decide), if_neg (by decide), if_pos rfl]
  obtain ⟨e, he⟩ | ⟨found, hfound, hshown, hsaved⟩ := read_settingsGrammar hkey value
  · have hnotice : readWith settingsGrammar [key, value] = .error (noticeOf settingsGrammar e) :=
      mapError_eq_error_iff.2 ⟨e, he, rfl⟩
    exact .inr (.inr ⟨_, bind_ok_error hmain' (bind_error (htask.trans (bind_error hnotice)))⟩)
  have hdone : readTask "config" [key, value]
      = .ok (.settings (single found "key") (single found "value"), found.extras) :=
    htask.trans (bind_eq_ok_iff.2 ⟨found, mapError_eq_ok_iff.2 hfound, rfl⟩)
  have hread (hextras : found.extras = []) : readInvocation (saving key value)
      = .ok ⟨none, .settings (single found "key") (single found "value")⟩ := by
    refine bind_eq_ok_iff.2 ⟨_, hmain', bind_eq_ok_iff.2 ⟨_, hdone, ?_⟩⟩
    rw [hextras]
    rfl
  obtain ⟨hvalue, hextras⟩ | hnone := hsaved
  · left
    rw [hread hextras, hshown, hvalue]
  · right
    cases hextras : found.extras with
    | nil =>
      left
      rw [hread hextras, hshown, hnone]
    | cons t more =>
      right
      refine ⟨noticeOf mainGrammar
        (.misuse ("unrecognized arguments: " ++ Text.join " " (t :: more))), ?_⟩
      refine bind_ok_error hmain' (bind_ok_error hdone ?_)
      rw [hextras]
      rfl

/-- **A value that a command line saves**: nothing in the line is taken for
an option. -/
def Saves (key value : Text) : Prop :=
  readInvocation (saving key value) = .ok ⟨none, .settings (some key) (some value)⟩

variable [Host]

theorem makeDirectories_again {d d₁ : Disk} {home : Text}
    (hmade : d.makeDirectories (Settings.directoryOf home application) = (d₁, none))
    (hd₁ : d₁.IsTree) {found : Disk.Place}
    (hfound : d₁.locate true (settingsFile home) = .ok found) :
    d₁.makeDirectories (Settings.directoryOf home application) = (d₁, none) := by
  have hne : Settings.directoryOf home application ≠ [] := fun hnil => by
    obtain ⟨e, he⟩ := Settings.makeDirectories_nil d
    rw [hnil, he] at hmade
    cases hmade
  have hrelative : Path.isAbsolute Settings.fileName = false := by decide
  exact makeDirectories_of_isDirectory hd₁ (isDirectory_of_join hd₁ hfound hne hrelative)

/-- **What the settings are after a value was to be saved**, where they had
no file: the defaults with the value, or the defaults alone if it was not
saved. -/
theorem opens_after_saving {d d₁ : Disk} {home : Text} (hd : d.IsTree)
    (hmade : d.makeDirectories (Settings.directoryOf home application) = (d₁, none))
    {directory : Location} {name : Text}
    (habsent : d₁.locate true (settingsFile home) = .ok (.absent directory name))
    {key : Text} (hkey : IsOrdinary key) (value : Text) :
    ∃ entries d₂ log, Settings.openIn (run d home (saving key value)).disk home application
        = (d₂, .ok (settingsWith home entries, log))
      ∧ (Saves key value → entries = Settings.defaults.insert key (.text value))
      ∧ (¬Saves key value → entries = Settings.defaults) := by
  have hready := ready_of_absent hd hmade habsent
  have hlevel : Settings.defaults.get? "log_level" = some (.text "INFO") := rfl
  obtain ⟨severity, hknown⟩ := isOk_iff.1 Levels.isOk_threshold_info
  obtain hsaves | hshows | ⟨notice, hmisused⟩ := readInvocation_cases hkey value
  · obtain ⟨-, -, hsaved⟩ := hready.run_of_saving hsaves hlevel hknown
    obtain ⟨log, hopens⟩ := hsaved.opens
    exact ⟨_, _, log, hopens, fun _ => rfl, fun hnot => absurd hsaves hnot⟩
  · obtain ⟨-, hdisk, -⟩ := hready.run_of_known hshows hlevel hknown
    have hagain := makeDirectories_again hmade hready.isTree habsent
    obtain ⟨log, hopens⟩ := (ready_of_absent hready.isTree hagain habsent).opens
    refine ⟨_, d₁, log, ?_, fun hsaves => ?_, fun _ => rfl⟩
    · rw [hdisk]
      exact hopens
    · cases (Invocation.mk.inj (Except.ok.inj (hsaves.symm.trans hshows))).2
  · obtain ⟨log, hopens⟩ := hready.opens
    refine ⟨_, d₁, log, ?_, fun hsaves => ?_, fun _ => rfl⟩
    · have hdisk : (run d home (saving key value)).disk = d := by
        rw [run, hmisused]
        cases notice <;> rfl
      rw [hdisk]
      exact hopens
    · cases hsaves.symm.trans hmisused

end Program

end EditBlocks
