import EditBlocks.Proofs.Json.Token

/-!
# Values of JSON read back

Plain data is read as it was written (`Json.read_write`), unless a number in
it is too long to be written at all. Plain are null, the truth values,
integers and texts, and sequences and mappings of plain data whose keys are
texts and different from each other (`Value.Plain`).

It is shown at any level of nesting and with more text to come. Reading is by
a count of steps; a step goes over a bracket or a comma at least, so the
length of what was written is enough.

The order of a mapping is part of what is read. Its keys come back in the
order in which they were written, because each is new when it is read.

What is shown of a value is put as a property of it (`Json.ReadsBack`), so
that the induction over plain data has it for all parts of a value at any
level.
-/

namespace EditBlocks

namespace Value

/-- The entries of a mapping from texts. -/
def named (entries : List (Text × Value)) : List (Scalar × Value) :=
  entries.map fun (k, v) => (.text k, v)

@[simp] theorem named_nil : named [] = [] := rfl

@[simp] theorem named_cons (k : Text) (v : Value) (rest : List (Text × Value)) :
    named ((k, v) :: rest) = (.text k, v) :: named rest := rfl

theorem putKey_named {k : Text} {entries : List (Text × Value)} (h : k ∉ entries.map Prod.fst)
    (v : Value) : putKey (.text k) v (named entries) = named (entries ++ [(k, v)]) := by
  induction entries with
  | nil => rfl
  | cons e rest ih =>
    obtain ⟨k', v'⟩ := e
    rw [List.map_cons, List.mem_cons, not_or] at h
    have hsame : Scalar.sameKey (.text k') (.text k) = false := by
      simpa [Scalar.sameKey, Scalar.number?] using Ne.symm h.1
    rw [named_cons, putKey, if_neg (by rw [hsame]; decide), ih h.2]
    rfl

/-- **Plain data**: nothing, truth values, integers and texts, sequences of
plain data, and mappings from texts to it. -/
inductive Plain : Value → Prop
  | null : Plain .null
  | bool (b : Bool) : Plain (.bool b)
  | int (n : Int) : Plain (.int n)
  | text (t : Text) : Plain (.text t)
  | sequence {items : List Value} (h : ∀ v ∈ items, Plain v) : Plain (.sequence items)
  | mapping {entries : List (Text × Value)} (hkeys : (entries.map Prod.fst).Nodup)
      (h : ∀ e ∈ entries, Plain e.2) : Plain (.mapping (named entries))

end Value

namespace Json

/-! ## Where a value begins

No blank and no closing bracket stands there, which is what a reader looks
for first. -/

/-- **Where a value can begin**, if anything does: at no blank, at no closing
bracket and at no mark of the byte order. -/
def Starts (t : Text) : Prop :=
  ∀ c rest, t = c :: rest → isSpace c = false ∧ c ≠ ']' ∧ c ≠ '\x7d' ∧ c ≠ '\ufeff'

theorem starts_nil : Starts [] := fun _ _ h => nomatch h

theorem starts_cons {c : Char} {t : Text} (hspace : isSpace c = false)
    (hother : c ≠ ']' ∧ c ≠ '\x7d' ∧ c ≠ '\ufeff') : Starts (c :: t) := by
  intro c' t' he
  obtain ⟨rfl, -⟩ := List.cons.inj he
  exact ⟨hspace, hother⟩

theorem Starts.skip {t : Text} (h : Starts t) : skip t = t := by
  cases t with
  | nil => rfl
  | cons c rest => exact List.dropWhile_cons_of_neg (by rw [(h c rest rfl).1]; decide)

/-- The end of a line and the blanks before the next are skipped. -/
theorem skip_newLine (level : Nat) (t : Text) : skip (newLine level ++ t) = skip t := by
  have hspace : ∀ c ∈ newLine level, isSpace c = true := by
    intro c hc
    rcases List.mem_cons.1 hc with rfl | hc
    · rfl
    · rw [List.eq_of_mem_replicate hc]
      rfl
  exact List.dropWhile_append_of_pos hspace

theorem follows_newLine (level : Nat) (t : Text) : Follows (newLine level ++ t) :=
  fun _ _ h => Or.inr (List.cons.inj h).1.symm

theorem follows_comma (t : Text) : Follows (',' :: t) :=
  fun _ _ h => Or.inl (List.cons.inj h).1.symm

theorem follows_nil : Follows [] := fun _ _ h => nomatch h

theorem exists_ofInt (n : Int) :
    ∃ c t, Text.ofInt n = c :: t
      ∧ (c.isDigit = true ∨ c = '-' ∧ ∃ d u, t = d :: u ∧ d.isDigit = true) := by
  have hdigits (m : Nat) : ∃ c t, Text.ofNat m = c :: t ∧ c.isDigit = true := by
    obtain ⟨c, t, h⟩ := List.exists_cons_of_ne_nil (Nat.toDigits_ne_nil : Text.ofNat m ≠ [])
    exact ⟨c, t, h, isDigit_of_mem_ofNat (h ▸ List.mem_cons_self)⟩
  cases n with
  | ofNat m =>
    obtain ⟨c, t, h, hc⟩ := hdigits m
    exact ⟨c, t, h, Or.inl hc⟩
  | negSucc m =>
    obtain ⟨d, u, h, hd⟩ := hdigits (m + 1)
    exact ⟨'-', _, rfl, Or.inr ⟨rfl, d, u, h, hd⟩⟩

/-- What is written of plain data begins as a value does. -/
theorem starts_writeValue {v : Value} (h : v.Plain) (level : Nat) (rest : Text) :
    Starts (writeValue level v ++ rest) := by
  cases h with
  | null => exact starts_cons rfl (by decide)
  | bool b => cases b <;> exact starts_cons rfl (by decide)
  | int n =>
    obtain ⟨c, t, hn, hc⟩ := exists_ofInt n
    rw [writeValue, writeScalar, hn]
    rcases hc with hc | ⟨rfl, -⟩
    · refine starts_cons (Bool.eq_false_iff.2 fun hspace => ?_) ⟨?_, ?_, ?_⟩
      · simp only [isSpace, Bool.or_eq_true, decide_eq_true_iff] at hspace
        rcases hspace with ((rfl | rfl) | rfl) | rfl <;> cases hc
      all_goals
        rintro rfl
        cases hc
    · exact starts_cons rfl (by decide)
  | text t => exact starts_cons rfl (by decide)
  | @sequence items _ => cases items <;> exact starts_cons rfl (by decide)
  | @mapping entries _ _ => cases entries <;> exact starts_cons rfl (by decide)

theorem starts_writeString (t rest : Text) : Starts (writeString t ++ rest) :=
  starts_writeValue (.text t) 0 rest

/-! ## Scalars

Words, integers and texts, each with more text after it. -/

/-- What is read of a value that is no text, sequence or mapping. -/
theorem readValue_scalar {fuel : Nat} {c : Char} {t : Text} (hquote : c ≠ '"') (hsquare : c ≠ '[')
    (hbrace : c ≠ '\x7b') :
    readValue (fuel + 1) (c :: t) = match readWord? (c :: t) with
      | some found => .ok found
      | none => readNumber (c :: t) := by
  unfold readValue
  split
  next h => exact absurd (List.cons.inj h).1 hquote
  next h => exact absurd (List.cons.inj h).1 hsquare
  next h => exact absurd (List.cons.inj h).1 hbrace
  · rfl

/-- No word begins as an integer does. -/
theorem readWord?_ofInt (n : Int) (rest : Text) : readWord? (Text.ofInt n ++ rest) = none := by
  obtain ⟨c, t, hn, hc⟩ := exists_ofInt n
  have hne {c x : Char} (hc : c.isDigit = true) (hx : x.isDigit = false) : x ≠ c := by
    rintro rfl
    rw [hc] at hx
    cases hx
  rw [hn]
  rcases hc with hc | ⟨rfl, d, u, rfl, hd⟩
  · simp [readWord?, words, Text.dropStart?, hne hc]
  · simp [readWord?, words, Text.dropStart?, hne hd]

theorem readValue_int {n : Int} (h : isTooLong (.int n) = false) {fuel : Nat} {rest : Text}
    (hrest : Follows rest) : readValue (fuel + 1) (Text.ofInt n ++ rest) = .ok (.int n, rest) := by
  have hword := readWord?_ofInt n rest
  have hnumber := readNumber_ofInt h hrest
  obtain ⟨c, t, hn, hc⟩ := exists_ofInt n
  rw [hn, List.cons_append] at hword hnumber ⊢
  have hne {x : Char} (hx : x.isDigit = false) (hsign : x ≠ '-') : c ≠ x := by
    rintro rfl
    rcases hc with hc | ⟨rfl, -⟩
    · rw [hc] at hx
      cases hx
    · exact hsign rfl
  rw [readValue_scalar (hne rfl (by decide)) (hne rfl (by decide)) (hne rfl (by decide)), hword]
  exact hnumber

theorem readString_writeString (start : Nat) {fuel : Nat} (t rest : Text) (h : t.length < fuel) :
    ∃ body, writeString t ++ rest = '"' :: body ∧ readString start fuel body = .ok (t, rest) :=
  ⟨_, by simp [writeString], readString_flatMap start t rest h⟩

theorem length_writeString (t : Text) : t.length + 2 ≤ (writeString t).length := by
  have hle : t.length ≤ (t.flatMap escapeChar).length := by
    induction t with
    | nil => exact Nat.le_refl _
    | cons c t ih =>
      have hone := List.length_pos_iff.2 (escapeChar_ne_nil c)
      rw [List.flatMap_cons, List.length_append, List.length_cons]
      omega
  simpa [writeString] using hle

theorem readValue_text {fuel : Nat} (t rest : Text) (h : t.length < fuel) :
    readValue fuel (writeString t ++ rest) = .ok (.text t, rest) := by
  obtain ⟨fuel, rfl⟩ := Nat.exists_eq_add_one.2 (Nat.zero_lt_of_lt h)
  obtain ⟨body, hbody, hread⟩ :=
    readString_writeString (writeString t ++ rest).length t rest h
  rw [hbody] at hread ⊢
  rw [readValue, hread]
  rfl

/-! ## Sequences and mappings

The readers of items and entries are followed over one item and one entry,
and the rest is induction. -/

theorem readValue_square (fuel level : Nat) {t : Text} (h : Starts t) :
    readValue (fuel + 1) ('[' :: (newLine level ++ t))
      = (readItems fuel t).map fun (items, rest) => (.sequence items, rest) := by
  rw [readValue, skip_newLine, h.skip]
  split
  next rest => exact absurd rfl (h _ _ rfl).2.1
  · cases readItems fuel t <;> rfl

theorem readValue_brace (fuel level : Nat) {t : Text} (h : Starts t) :
    readValue (fuel + 1) ('\x7b' :: (newLine level ++ t))
      = (readEntries fuel [] t).map fun (entries, rest) => (.mapping entries, rest) := by
  rw [readValue, skip_newLine, h.skip]
  split
  next rest => exact absurd rfl (h _ _ rfl).2.2.1
  · cases readEntries fuel [] t <;> rfl

section

variable {fuel : Nat} {t rest after : Text} {v : Value} {entries : List (Scalar × Value)}

theorem readItems_last (h : readValue fuel t = .ok (v, rest)) (hskip : skip rest = ']' :: after) :
    readItems (fuel + 1) t = .ok ([v], after) := by
  rw [readItems, h]
  dsimp only [bind, Except.bind]
  rw [hskip]
  rfl

theorem readItems_more (h : readValue fuel t = .ok (v, rest)) (hskip : skip rest = ',' :: after) :
    readItems (fuel + 1) t
      = (readItems fuel (skip after)).map fun (more, rest) => (v :: more, rest) := by
  rw [readItems, h]
  dsimp only [bind, Except.bind]
  rw [hskip]
  show (readItems fuel (skip after) >>= fun r => .ok (v :: r.1, r.2)) = _
  cases readItems fuel (skip after) <;> rfl

theorem readItems_end (h : readValue fuel t = .ok (v, rest)) (hskip : skip rest = []) :
    readItems (fuel + 1) t = .error ⟨.expectingComma, 0⟩ := by
  rw [readItems, h]
  dsimp only [bind, Except.bind]
  rw [hskip]
  rfl

theorem readItems_error {stop : Stop} (h : readValue fuel t = .error stop) :
    readItems (fuel + 1) t = .error stop := by
  rw [readItems, h]
  rfl

theorem readEntries_name (k : Text) (hfuel : k.length ≤ fuel) :
    readEntries (fuel + 1) entries (writeString k ++ (": " ++ t))
      = readValue fuel (skip t) >>= fun (v, rest) =>
        match skip rest with
        | '\x7d' :: rest => .ok (Value.putKey (.text k) v entries, rest)
        | ',' :: rest => readEntries fuel (Value.putKey (.text k) v entries) (skip rest)
        | rest => .error ⟨.expectingComma, rest.length⟩ := by
  obtain ⟨body, hbody, hread⟩ := readString_writeString (writeString k ++ (": " ++ t)).length k
    (": " ++ t) (Nat.lt_succ_of_le hfuel)
  rw [hbody] at hread ⊢
  rw [readEntries, hread]
  rfl

theorem readEntries_error {k : Text} (hfuel : k.length ≤ fuel) {stop : Stop}
    (h : readValue fuel (skip t) = .error stop) :
    readEntries (fuel + 1) entries (writeString k ++ (": " ++ t)) = .error stop := by
  rw [readEntries_name k hfuel, h]
  rfl

variable {k : Text} (hfuel : k.length ≤ fuel) (h : readValue fuel (skip t) = .ok (v, rest))

include hfuel h

theorem readEntries_last (hskip : skip rest = '\x7d' :: after) :
    readEntries (fuel + 1) entries (writeString k ++ (": " ++ t))
      = .ok (Value.putKey (.text k) v entries, after) := by
  rw [readEntries_name k hfuel, h]
  dsimp only [bind, Except.bind]
  rw [hskip]
  rfl

theorem readEntries_more (hskip : skip rest = ',' :: after) :
    readEntries (fuel + 1) entries (writeString k ++ (": " ++ t))
      = readEntries fuel (Value.putKey (.text k) v entries) (skip after) := by
  rw [readEntries_name k hfuel, h]
  dsimp only [bind, Except.bind]
  rw [hskip]
  rfl

end

/-- **A value is read back** where none of it is too long to be written. It
is put for any level, any text that can follow a value, and any count of
steps that is large enough. -/
def ReadsBack (v : Value) : Prop :=
  ∀ level fuel rest, partBefore? level v = none → Follows rest →
    (writeValue level v).length ≤ fuel →
    readValue fuel (writeValue level v ++ rest) = .ok (v, rest)

section

variable {level close fuel : Nat} {v : Value} {items : List Value} {lead t : Text}
  {entries : List (Text × Value)}

/-- No item is too long where a sequence is not. -/
theorem partOfItems?_eq_none_iff :
    partOfItems? level lead items = none ↔ ∀ v ∈ items, partBefore? level v = none := by
  induction items generalizing lead with
  | nil => simp [partOfItems?]
  | cons v rest ih =>
    rw [partOfItems?, List.forall_mem_cons]
    cases hpart : partBefore? level v with
    | some part => cases v <;> simp
    | none => simp [ih]

theorem partOfEntries?_eq_none_iff :
    partOfEntries? level lead (Value.named entries) = none
      ↔ ∀ e ∈ entries, partBefore? level e.2 = none := by
  induction entries generalizing lead with
  | nil => simp [partOfEntries?]
  | cons e rest ih =>
    obtain ⟨k, v⟩ := e
    rw [Value.named_cons, partOfEntries?, List.forall_mem_cons]
    cases hpart : partBefore? level v with
    | some part => simp
    | none => simp [ih]

/-- **Items are read back.** -/
theorem readItems_writeItems (hplain : ∀ w ∈ v :: items, w.Plain)
    (hback : ∀ w ∈ v :: items, ReadsBack w)
    (hpart : ∀ w ∈ v :: items, partBefore? level w = none)
    (hfuel : (writeValue level v).length + (writeItems level items).length < fuel) :
    readItems fuel (writeValue level v ++ (writeItems level items ++ (newLine close ++ ']' :: t)))
      = .ok (v :: items, t) := by
  induction items generalizing v fuel with
  | nil =>
    obtain ⟨fuel, rfl⟩ := Nat.exists_eq_add_one.2 (Nat.zero_lt_of_lt hfuel)
    have hv := hback v List.mem_cons_self level fuel (newLine close ++ ']' :: t)
      (hpart v List.mem_cons_self) (follows_newLine _ _) (by omega)
    exact readItems_last hv (skip_newLine _ _)
  | cons w rest ih =>
    obtain ⟨fuel, rfl⟩ := Nat.exists_eq_add_one.2 (Nat.zero_lt_of_lt hfuel)
    simp only [writeItems, List.cons_append, List.length_cons, List.length_append,
      List.append_assoc] at hfuel ⊢
    rw [List.forall_mem_cons] at hplain hback hpart
    rw [readItems_more (hback.1 level fuel _ hpart.1 (follows_comma _) (by omega)) rfl,
      skip_newLine, (starts_writeValue (hplain.2 w List.mem_cons_self) level _).skip,
      ih hplain.2 hback.2 hpart.2 (by omega)]
    rfl

/-- **Entries are read back**, after others. -/
theorem readEntries_writeEntries {k : Text} {others : List (Text × Value)}
    (hkeys : ((others ++ (k, v) :: entries).map Prod.fst).Nodup)
    (hplain : ∀ e ∈ (k, v) :: entries, e.2.Plain) (hback : ∀ e ∈ (k, v) :: entries, ReadsBack e.2)
    (hpart : ∀ e ∈ (k, v) :: entries, partBefore? level e.2 = none)
    (hfuel : (writeString k).length + (writeValue level v).length
      + (writeEntries level (Value.named entries)).length < fuel) :
    readEntries fuel (Value.named others) (writeString k ++ (": " ++ (writeValue level v
        ++ (writeEntries level (Value.named entries) ++ (newLine close ++ '\x7d' :: t)))))
      = .ok (Value.named (others ++ (k, v) :: entries), t) := by
  have hnot {k : Text} {v : Value} {others rest : List (Text × Value)}
      (hkeys : ((others ++ (k, v) :: rest).map Prod.fst).Nodup) : k ∉ others.map Prod.fst := by
    rw [List.map_append, List.nodup_append] at hkeys
    exact fun hmem => hkeys.2.2 k hmem k List.mem_cons_self rfl
  induction entries generalizing k v others fuel with
  | nil =>
    have hk := length_writeString k
    obtain ⟨fuel, rfl⟩ := Nat.exists_eq_add_one.2 (Nat.zero_lt_of_lt hfuel)
    have hle : (writeValue level v).length ≤ fuel := by omega
    have hv := hback (k, v) List.mem_cons_self level fuel (newLine close ++ '\x7d' :: t)
      (hpart _ List.mem_cons_self) (follows_newLine _ _) hle
    rw [← (starts_writeValue (hplain _ List.mem_cons_self) level _).skip] at hv
    rw [← Value.putKey_named (hnot hkeys)]
    exact readEntries_last (by omega) hv (skip_newLine _ _)
  | cons e rest ih =>
    obtain ⟨k', w⟩ := e
    have hk := length_writeString k
    obtain ⟨fuel, rfl⟩ := Nat.exists_eq_add_one.2 (Nat.zero_lt_of_lt hfuel)
    simp only [Value.named_cons, writeEntries, writeName, List.cons_append, List.length_cons,
      List.length_append, List.append_assoc] at hfuel ⊢
    rw [List.forall_mem_cons] at hplain hback hpart
    have hle : (writeValue level v).length ≤ fuel := by omega
    have hv := hback.1 level fuel (',' :: (newLine level ++ (writeString k' ++ (": "
      ++ (writeValue level w ++ (writeEntries level (Value.named rest)
        ++ (newLine close ++ '\x7d' :: t))))))) hpart.1 (follows_comma _) hle
    rw [← (starts_writeValue hplain.1 level _).skip] at hv
    rw [readEntries_more (by omega) hv rfl, skip_newLine, (starts_writeString k' _).skip,
      Value.putKey_named (hnot hkeys), List.append_cons others _ ((k', w) :: rest)]
    rw [List.append_cons others] at hkeys
    exact ih hkeys hplain.2 hback.2 hpart.2 (by omega)

end

/-- **Plain data is read back.** -/
theorem readsBack_of_plain {v : Value} (h : v.Plain) : ReadsBack v := by
  induction h with
  | null =>
    intro level fuel rest _ _ hfuel
    obtain ⟨fuel, rfl⟩ := Nat.exists_eq_add_of_lt hfuel
    rfl
  | bool b =>
    intro level fuel rest _ _ hfuel
    cases b <;> obtain ⟨fuel, rfl⟩ := Nat.exists_eq_add_of_lt hfuel <;> rfl
  | int n =>
    intro level fuel rest hpart hrest hfuel
    have hlong : isTooLong (.int n) = false := by simpa [partBefore?] using hpart
    obtain ⟨c, t, hn, -⟩ := exists_ofInt n
    rw [writeValue, writeScalar] at hfuel ⊢
    obtain ⟨fuel, rfl⟩ : ∃ k, fuel = k + 1 := Nat.exists_eq_add_one_of_ne_zero (by
      rintro rfl
      rw [hn] at hfuel
      cases hfuel)
    exact readValue_int hlong hrest
  | text t =>
    intro level fuel rest _ _ hfuel
    have hlength := length_writeString t
    change (writeString t).length ≤ fuel at hfuel
    exact readValue_text t rest (by omega)
  | @sequence items hplain ih =>
    intro level fuel rest hpart _ hfuel
    rw [partBefore?, partOfItems?_eq_none_iff] at hpart
    cases items with
    | nil =>
      obtain ⟨fuel, rfl⟩ := Nat.exists_eq_add_of_lt hfuel
      rfl
    | cons v items =>
      simp only [writeValue, List.cons_append, List.length_cons, List.length_append,
        List.append_assoc, List.nil_append] at hfuel ⊢
      obtain ⟨fuel, rfl⟩ : ∃ k, fuel = k + 1 := Nat.exists_eq_add_one_of_ne_zero (by omega)
      rw [readValue_square fuel (level + 1)
          (starts_writeValue (hplain v List.mem_cons_self) (level + 1) _),
        readItems_writeItems hplain ih hpart (by omega)]
      rfl
  | @mapping entries hkeys hplain ih =>
    intro level fuel rest hpart _ hfuel
    rw [partBefore?, partOfEntries?_eq_none_iff] at hpart
    cases entries with
    | nil =>
      obtain ⟨fuel, rfl⟩ := Nat.exists_eq_add_of_lt hfuel
      rfl
    | cons e entries =>
      obtain ⟨k, v⟩ := e
      simp only [Value.named_cons, writeValue, writeName, List.cons_append, List.length_cons,
        List.length_append, List.append_assoc, List.nil_append] at hfuel ⊢
      obtain ⟨fuel, rfl⟩ : ∃ k, fuel = k + 1 := Nat.exists_eq_add_one_of_ne_zero (by omega)
      have hread := @readEntries_writeEntries (level + 1) level fuel v rest entries k [] hkeys
        hplain ih hpart (by omega)
      rw [readValue_brace fuel (level + 1) (starts_writeString k _)]
      exact congrArg (Except.map _) hread

/-! ## Texts that hold one value

A settings file begins without a mark and ends with its value. -/

/-- A text in which a value begins at once has no mark before it. -/
theorem Starts.no_mark {t : Text} (h : Starts t) : ¬t.head? = some '\ufeff' := by
  cases t with
  | nil => exact fun hhead => nomatch hhead
  | cons c rest => exact fun hhead => (h c rest rfl).2.2.2 (Option.some.inj hhead)

/-- **Plain data is read as it was written**, if none of it is too long. -/
theorem read_write {v : Value} (h : v.Plain) (hpart : part? v = none) : read (write v) = .ok v := by
  have hstarts := starts_writeValue h 0 []
  have hread := readsBack_of_plain h 0 (2 * (write v).length + 2) [] hpart follows_nil
    (show (write v).length ≤ _ by omega)
  rw [List.append_nil] at hstarts hread
  change Starts (write v) at hstarts
  change readValue _ (write v) = _ at hread
  rw [read, if_neg hstarts.no_mark, hstarts.skip, hread]
  rfl

end Json

end EditBlocks
