import EditBlocks.Proofs.Json.RoundTrip

/-!
# What is left of a value of JSON

Where a number is too long to be written, writing breaks off before it. What
is left of plain data then cannot be read (`Json.read_part`): either nothing
stands where a value should, or the text ends before a bracket that was
opened is closed.

Neither it nor the whole of what is written holds a carriage return
(`Json.writesNone_of_plain`), so it makes no difference that a file of it is
read with its newlines made one.

Both are inductions on the value with the level of nesting and the text that
follows left open, as in reading what was written as a whole.
-/

namespace EditBlocks

namespace Json

/-- **A part of a value is not read**, where writing it breaks off. It is put
for any level and with nothing after it, which is how a part ends. -/
def BreaksOff (v : Value) : Prop :=
  ∀ level part, partBefore? level v = some part → Starts part
    ∧ ∀ fuel, part.length ≤ fuel → ∃ stop, readValue fuel part = .error stop

section

variable {level fuel : Nat} {items : List Value} {lead part : Text}
  {entries : List (Text × Value)}

/-- **Nor are items of which one breaks off.** -/
theorem readItems_part (hplain : ∀ w ∈ items, w.Plain) (hbreak : ∀ w ∈ items, BreaksOff w)
    (hpart : partOfItems? level lead items = some part) :
    part = [] ∨ ∃ body, part = lead ++ body ∧ Starts body
      ∧ ∀ fuel, body.length < fuel → ∃ stop, readItems fuel body = .error stop := by
  induction items generalizing lead part with
  | nil => cases hpart
  | cons v rest ih =>
    rw [List.forall_mem_cons] at hplain hbreak
    rw [partOfItems?] at hpart
    cases hv : partBefore? level v with
    | some first =>
      rw [hv] at hpart
      obtain ⟨hstarts, herror⟩ := hbreak.1 level first hv
      have hitems : part = [] ∨ part = lead ++ first := by
        cases v with
        | scalar s => exact Or.inl (Option.some.inj hpart).symm
        | _ => exact Or.inr (Option.some.inj hpart).symm
      refine hitems.imp_right fun hlead => ⟨first, hlead, hstarts, fun fuel hfuel => ?_⟩
      obtain ⟨fuel, rfl⟩ := Nat.exists_eq_add_one.2 (Nat.zero_lt_of_lt hfuel)
      obtain ⟨stop, hstop⟩ := herror fuel (by omega)
      exact ⟨stop, readItems_error hstop⟩
    | none =>
      rw [hv] at hpart
      obtain ⟨more, hmore, rfl⟩ := Option.map_eq_some_iff.1 hpart
      refine Or.inr ⟨writeValue level v ++ more, List.append_assoc _ _ _,
        starts_writeValue hplain.1 level more, fun fuel hfuel => ?_⟩
      obtain ⟨fuel, rfl⟩ := Nat.exists_eq_add_one.2 (Nat.zero_lt_of_lt hfuel)
      rw [List.length_append] at hfuel
      have hread (hfollows : Follows more) :=
        readsBack_of_plain hplain.1 level fuel more hv hfollows (by omega)
      rcases ih hplain.2 hbreak.2 hmore with rfl | ⟨body, rfl, hstarts, herror⟩
      · exact ⟨_, readItems_end (hread follows_nil) rfl⟩
      · simp only [List.cons_append, List.length_cons, List.length_append] at hfuel
        obtain ⟨stop, hstop⟩ := herror fuel (by omega)
        refine ⟨stop, ?_⟩
        rw [List.cons_append] at hread ⊢
        rw [readItems_more (hread (follows_comma _)) rfl, skip_newLine, hstarts.skip, hstop]
        rfl

/-- **Nor are entries of which one breaks off.** -/
theorem readEntries_part (hplain : ∀ e ∈ entries, e.2.Plain)
    (hbreak : ∀ e ∈ entries, BreaksOff e.2)
    (hpart : partOfEntries? level lead (Value.named entries) = some part) :
    ∃ body, part = lead ++ body ∧ Starts body
      ∧ ∀ others fuel, body.length < fuel → ∃ stop, readEntries fuel others body = .error stop := by
  induction entries generalizing lead part with
  | nil => cases hpart
  | cons e rest ih =>
    obtain ⟨k, v⟩ := e
    rw [List.forall_mem_cons] at hplain hbreak
    rw [Value.named_cons, partOfEntries?] at hpart
    have hk := length_writeString k
    cases hv : partBefore? level v with
    | some first =>
      rw [hv] at hpart
      obtain ⟨hstarts, herror⟩ := hbreak.1 level first hv
      refine ⟨writeString k ++ (": " ++ first), ?_, starts_writeString k _,
        fun others fuel hfuel => ?_⟩
      · rw [← Option.some.inj hpart]
        simp [writeName]
      obtain ⟨fuel, rfl⟩ := Nat.exists_eq_add_one.2 (Nat.zero_lt_of_lt hfuel)
      simp only [List.length_append] at hfuel
      obtain ⟨stop, hstop⟩ := herror fuel (by omega)
      rw [← hstarts.skip] at hstop
      exact ⟨stop, readEntries_error (by omega) hstop⟩
    | none =>
      rw [hv] at hpart
      obtain ⟨more, hmore, rfl⟩ := Option.map_eq_some_iff.1 hpart
      obtain ⟨body, rfl, hstarts, herror⟩ := ih hplain.2 hbreak.2 hmore
      refine ⟨writeString k ++ (": " ++ (writeValue level v ++ (',' :: newLine level ++ body))),
        by simp [writeName], starts_writeString k _, fun others fuel hfuel => ?_⟩
      obtain ⟨fuel, rfl⟩ := Nat.exists_eq_add_one.2 (Nat.zero_lt_of_lt hfuel)
      simp only [List.cons_append, List.length_cons, List.length_append] at hfuel ⊢
      have hread := readsBack_of_plain hplain.1 level fuel (',' :: (newLine level ++ body)) hv
        (follows_comma _) (show (writeValue level v).length ≤ fuel by omega)
      rw [← (starts_writeValue hplain.1 level _).skip] at hread
      obtain ⟨stop, hstop⟩ := herror (Value.putKey (.text k) v others) fuel (by omega)
      refine ⟨stop, ?_⟩
      rw [readEntries_more (by omega) hread rfl, skip_newLine, hstarts.skip, hstop]

end

/-- **What is left of plain data is not read.** -/
theorem breaksOff_of_plain {v : Value} (h : v.Plain) : BreaksOff v := by
  induction h with
  | null => exact fun _ _ hpart => nomatch hpart
  | bool b => exact fun _ _ hpart => nomatch hpart
  | text t => exact fun _ _ hpart => nomatch hpart
  | int n =>
    intro level part hpart
    rw [partBefore?] at hpart
    split at hpart <;> cases hpart
    refine ⟨starts_nil, fun fuel _ => ?_⟩
    cases fuel <;> exact ⟨_, rfl⟩
  | @sequence items hplain ih =>
    intro level part hpart
    rw [partBefore?] at hpart
    rcases readItems_part hplain ih hpart with rfl | ⟨body, rfl, hstarts, herror⟩
    · refine ⟨starts_nil, fun fuel _ => ?_⟩
      cases fuel <;> exact ⟨_, rfl⟩
    · refine ⟨starts_cons rfl (by decide), fun fuel hfuel => ?_⟩
      simp only [List.cons_append, List.length_cons, List.length_append] at hfuel ⊢
      obtain ⟨fuel, rfl⟩ : ∃ k, fuel = k + 1 := Nat.exists_eq_add_one_of_ne_zero (by omega)
      obtain ⟨stop, hstop⟩ := herror fuel (by simp [newLine] at hfuel; omega)
      rw [readValue_square fuel (level + 1) hstarts, hstop]
      exact ⟨stop, rfl⟩
  | @mapping entries hkeys hplain ih =>
    intro level part hpart
    rw [partBefore?] at hpart
    obtain ⟨body, rfl, hstarts, herror⟩ := readEntries_part hplain ih hpart
    refine ⟨starts_cons rfl (by decide), fun fuel hfuel => ?_⟩
    simp only [List.cons_append, List.length_cons, List.length_append] at hfuel ⊢
    obtain ⟨fuel, rfl⟩ : ∃ k, fuel = k + 1 := Nat.exists_eq_add_one_of_ne_zero (by omega)
    obtain ⟨stop, hstop⟩ := herror [] fuel (by simp [newLine] at hfuel; omega)
    rw [readValue_brace fuel (level + 1) hstarts, hstop]
    exact ⟨stop, rfl⟩

/-- **What is left of it is not read** where writing it breaks off. -/
theorem read_part {v : Value} (h : v.Plain) {part : Text} (hpart : part? v = some part) :
    ∃ stop, read part = .error stop := by
  obtain ⟨hstarts, herror⟩ := breaksOff_of_plain h 0 part hpart
  obtain ⟨stop, hstop⟩ := herror (2 * part.length + 2) (by omega)
  refine ⟨stop, ?_⟩
  rw [read, if_neg hstarts.no_mark, hstarts.skip, hstop]

/-! ## No carriage returns

A carriage return inside a text is escaped, and lines end with line feeds. -/

theorem not_mem_writeString (t : Text) : '\r' ∉ writeString t := by
  simpa [writeString] using fun c _ => not_mem_escapeChar c

theorem not_mem_newLine (level : Nat) : '\r' ∉ newLine level := by simp [newLine]

theorem not_mem_ofInt (n : Int) : '\r' ∉ Text.ofInt n := by
  have hdigits (m : Nat) : '\r' ∉ Text.ofNat m := fun hmem =>
    absurd (isDigit_of_mem_ofNat hmem) (by decide)
  cases n with
  | ofNat m => exact hdigits m
  | negSucc m => simpa [Text.ofInt] using hdigits (m + 1)

/-- **No carriage return is written** of a value, or of what is left of it,
at any level of nesting. -/
def WritesNone (v : Value) : Prop :=
  ∀ level, '\r' ∉ writeValue level v ∧ ∀ part, partBefore? level v = some part → '\r' ∉ part

theorem not_mem_writeItems {items : List Value} (h : ∀ v ∈ items, WritesNone v) (level : Nat) :
    '\r' ∉ writeItems level items := by
  induction items with
  | nil => exact List.not_mem_nil
  | cons v rest ih =>
    rw [List.forall_mem_cons] at h
    simp [writeItems, not_mem_newLine, h.1 level, ih h.2]

theorem not_mem_writeEntries {entries : List (Text × Value)} (h : ∀ e ∈ entries, WritesNone e.2)
    (level : Nat) : '\r' ∉ writeEntries level (Value.named entries) := by
  induction entries with
  | nil => exact List.not_mem_nil
  | cons e rest ih =>
    obtain ⟨k, v⟩ := e
    rw [List.forall_mem_cons] at h
    simp [writeEntries, writeName, not_mem_newLine, not_mem_writeString, h.1 level, ih h.2]

theorem not_mem_partOfItems {items : List Value} (h : ∀ v ∈ items, WritesNone v) {level : Nat}
    {lead part : Text} (hlead : '\r' ∉ lead) (hpart : partOfItems? level lead items = some part) :
    '\r' ∉ part := by
  induction items generalizing lead part with
  | nil => cases hpart
  | cons v rest ih =>
    rw [List.forall_mem_cons] at h
    rw [partOfItems?] at hpart
    cases hv : partBefore? level v with
    | some first =>
      rw [hv] at hpart
      have hfirst := (h.1 level).2 first hv
      cases v <;> cases hpart <;> simp [hlead, hfirst]
    | none =>
      rw [hv] at hpart
      obtain ⟨more, hmore, rfl⟩ := Option.map_eq_some_iff.1 hpart
      have hmore := ih h.2 (by simp [not_mem_newLine]) hmore
      simp [hlead, h.1 level, hmore]

theorem not_mem_partOfEntries {entries : List (Text × Value)} (h : ∀ e ∈ entries, WritesNone e.2)
    {level : Nat} {lead part : Text} (hlead : '\r' ∉ lead)
    (hpart : partOfEntries? level lead (Value.named entries) = some part) : '\r' ∉ part := by
  induction entries generalizing lead part with
  | nil => cases hpart
  | cons e rest ih =>
    obtain ⟨k, v⟩ := e
    rw [List.forall_mem_cons] at h
    rw [Value.named_cons, partOfEntries?] at hpart
    cases hv : partBefore? level v with
    | some first =>
      rw [hv] at hpart
      cases hpart
      simp [writeName, hlead, not_mem_writeString, (h.1 level).2 first hv]
    | none =>
      rw [hv] at hpart
      obtain ⟨more, hmore, rfl⟩ := Option.map_eq_some_iff.1 hpart
      have hmore := ih h.2 (by simp [not_mem_newLine]) hmore
      simp [writeName, hlead, not_mem_writeString, h.1 level, hmore]

/-- **Plain data is written without carriage returns.** -/
theorem writesNone_of_plain {v : Value} (h : v.Plain) : WritesNone v := by
  induction h with
  | null => exact fun _ => ⟨show '\r' ∉ writeScalar .null by decide, fun _ h => nomatch h⟩
  | bool b =>
    refine fun _ => ⟨show '\r' ∉ writeScalar (.bool b) from ?_, fun _ h => nomatch h⟩
    cases b <;> decide
  | text t => exact fun _ => ⟨not_mem_writeString t, fun _ h => nomatch h⟩
  | int n =>
    refine fun level => ⟨not_mem_ofInt n, fun part h => ?_⟩
    rw [partBefore?] at h
    split at h <;> cases h
    exact List.not_mem_nil
  | @sequence items _ ih =>
    refine fun level => ⟨?_, fun part hpart => ?_⟩
    · cases items with
      | nil => exact show '\r' ∉ "[]".toList by decide
      | cons v rest =>
        rw [List.forall_mem_cons] at ih
        simp [writeValue, not_mem_newLine, ih.1 (level + 1), not_mem_writeItems ih.2]
    · rw [partBefore?] at hpart
      exact not_mem_partOfItems ih (by simp [not_mem_newLine]) hpart
  | @mapping entries _ _ ih =>
    refine fun level => ⟨?_, fun part hpart => ?_⟩
    · cases entries with
      | nil => exact show '\r' ∉ ['\x7b', '\x7d'] by decide
      | cons e rest =>
        obtain ⟨k, v⟩ := e
        rw [List.forall_mem_cons] at ih
        simp [writeValue, writeName, not_mem_newLine, not_mem_writeString, ih.1 (level + 1),
          not_mem_writeEntries ih.2]
    · rw [partBefore?] at hpart
      exact not_mem_partOfEntries ih (by simp [not_mem_newLine]) hpart

end Json

end EditBlocks
