import EditBlocks.Json.Reader
import EditBlocks.Json.Writer
import EditBlocks.Proofs.Encoding.RoundTrip
import EditBlocks.Proofs.Success

/-!
# Strings and numbers of JSON read back

What is written of a text, and what is written of an integer, are read as
that text and that integer, whatever may follow it.

A character beyond ASCII is written by its code, with four digits to a unit,
and the digits are read back as the code (`Json.fourDigits?_hex`). A unit
alone is no half of a pair, since no character has such a code; and the two
halves of a pair are read together (`Json.readString_escapeChar`). An integer
ends where no digit, point or exponent follows it (`Json.Follows`).

The reader counts its steps, so every lemma on a text has as many of them as
the text is long and any number more. What is left of the count does not
matter, only that there is enough.
-/

namespace EditBlocks

/-! ## Hexadecimal digits

A code is written with zeros in front, and read back digit by digit. -/

theorem hexDigit?_digitChar : ∀ d < 16, hexDigit? d.digitChar = some d := by decide

theorem hexNumber?_concat (digits : Text) (c : Char) :
    hexNumber? (digits ++ [c])
      = hexNumber? digits >>= fun n => (hexDigit? c).map (16 * n + ·) := by
  unfold hexNumber?
  rw [List.foldlM_append]
  refine bind_congr fun n => ?_
  rw [List.foldlM_cons]
  cases hexDigit? c <;> rfl

/-- **The digits of a number stand for it.** -/
theorem hexNumber?_toDigits (n : Nat) : hexNumber? (Nat.toDigits 16 n) = some n := by
  induction n using Nat.base_induction 16 (by decide) with
  | single m hm =>
    rw [Nat.toDigits_of_lt_base hm]
    show hexNumber? ([] ++ [m.digitChar]) = _
    rw [hexNumber?_concat, hexDigit?_digitChar m hm]
    simp [hexNumber?]
  | digit m k hk hm ih =>
    rw [← Nat.toDigits_append_toDigits (by decide) hm hk, Nat.toDigits_of_lt_base hk,
      hexNumber?_concat, ih, hexDigit?_digitChar k hk]
    rfl

theorem exists_digitChar_of_mem_toDigits {n : Nat} {c : Char} (h : c ∈ Nat.toDigits 16 n) :
    ∃ d < 16, c = d.digitChar := by
  induction n using Nat.base_induction 16 (by decide) with
  | single m hm =>
    rw [Nat.toDigits_of_lt_base hm, List.mem_singleton] at h
    exact ⟨m, hm, h⟩
  | digit m k hk hm ih =>
    rw [← Nat.toDigits_append_toDigits (by decide) hm hk, Nat.toDigits_of_lt_base hk,
      List.mem_append, List.mem_singleton] at h
    exact h.elim ih fun h => ⟨k, hk, h⟩

theorem hexNumber?_replicate_zero (k : Nat) (t : Text) :
    hexNumber? (List.replicate k '0' ++ t) = hexNumber? t := by
  induction k with
  | zero => rfl
  | succ k ih =>
    rw [List.replicate_succ]
    exact ih

namespace Json

theorem length_hex {n : Nat} (h : n < 0x10000) : (Text.hex 4 n).length = 4 := by
  have hle := (Nat.length_toDigits_le_iff (b := 16) (k := 4) (by decide) (by decide)).2 h
  simp only [Text.hex, List.length_append, List.length_replicate]
  omega

/-- **Four digits are read as their number.** -/
theorem fourDigits?_hex {n : Nat} (h : n < 0x10000) (t : Text) :
    fourDigits? (Text.hex 4 n ++ t) = some (n, t) := by
  have hlength := length_hex h
  unfold fourDigits?
  rw [if_neg (by rw [List.length_append]; omega), List.take_left' hlength,
    List.drop_left' hlength, Text.hex, hexNumber?_replicate_zero, hexNumber?_toDigits]
  rfl

/-! ## Strings

A character is written as itself, by a short escape, or by its code, and each
of the three is read back before more text. -/

theorem unitEscape_append (n : Nat) (t : Text) :
    unitEscape n ++ t = '\\' :: 'u' :: (Text.hex 4 n ++ t) := rfl

/-- A unit that is not the first half of a pair is read alone. -/
theorem readUnicode_unit {n : Nat} (h : n < 0x10000) (hn : ¬(0xd800 ≤ n ∧ n < 0xdc00)) {t : Text}
    (ht : t ≠ []) : readUnicode (Text.hex 4 n ++ t) = .ok (charOfCode n, t) := by
  have hlength : ¬(Text.hex 4 n ++ t).length < 5 := by
    have := List.length_pos_iff.2 ht
    rw [List.length_append, length_hex h]
    omega
  unfold readUnicode
  rw [if_neg hlength, fourDigits?_hex h]
  dsimp only
  rw [if_neg fun hpair => hn ⟨hpair.1, hpair.2.1⟩]

/-- **The two halves of a pair** are read together. -/
theorem readUnicode_pair {high low : Nat} (hhigh : 0xd800 ≤ high ∧ high < 0xdc00)
    (hlow : 0xdc00 ≤ low ∧ low < 0xe000) {t : Text} (ht : t ≠ []) :
    readUnicode (Text.hex 4 high ++ (unitEscape low ++ t))
      = .ok (Char.ofNat (0x10000 + (high - 0xd800) * 0x400 + (low - 0xdc00)), t) := by
  have hone := List.length_pos_iff.2 ht
  have hh : (Text.hex 4 high).length = 4 := length_hex (by omega)
  have hl : (unitEscape low).length = 6 := by
    rw [unitEscape, List.length_append, length_hex (by omega)]
    rfl
  unfold readUnicode
  rw [if_neg (by simp only [List.length_append]; omega), fourDigits?_hex (by omega)]
  dsimp only
  rw [if_pos ⟨hhigh.1, hhigh.2, by rw [List.length_append]; omega⟩, unitEscape, List.append_assoc,
    Text.dropStart?_append]
  dsimp only
  rw [fourDigits?_hex (by omega)]
  dsimp only
  rw [if_pos hlow]

/-- **How a character is written** inside a string. -/
inductive Escaped (c : Char) : Text → Prop
  /-- As it is. -/
  | plain (hquote : c ≠ '"') (hslash : c ≠ '\\') (hascii : 32 ≤ c.toNat ∧ c.toNat < 127) :
      Escaped c [c]
  /-- By a letter. -/
  | short {letter : Char} (hu : letter ≠ 'u') (h : shortEscape? letter = some c) :
      Escaped c ['\\', letter]
  /-- By its code. -/
  | unit (h : c.toNat < 0x10000) : Escaped c (unitEscape c.toNat)
  /-- By the two halves of a pair. -/
  | pair (h : 0x10000 ≤ c.toNat) :
      Escaped c (unitEscape (0xd800 + (c.toNat - 0x10000) / 0x400)
        ++ unitEscape (0xdc00 + (c.toNat - 0x10000) % 0x400))

theorem escaped_escapeChar (c : Char) : Escaped c (escapeChar c) := by
  unfold escapeChar
  split
  next h => exact h ▸ .short (by decide) rfl
  split
  next h => exact h ▸ .short (by decide) rfl
  split
  next h => exact h ▸ .short (by decide) rfl
  split
  next h => exact h ▸ .short (by decide) rfl
  split
  next h => exact h ▸ .short (by decide) rfl
  split
  next h => exact h ▸ .short (by decide) rfl
  split
  next h => exact h ▸ .short (by decide) rfl
  next hquote hslash _ _ _ _ _ =>
  split
  next h => exact .plain hquote hslash h
  split
  next h => exact .unit h
  next h => exact .pair (Nat.le_of_not_lt h)

theorem escapeChar_ne_nil (c : Char) : escapeChar c ≠ [] := by
  have hwritten := escaped_escapeChar c
  generalize escapeChar c = written at hwritten ⊢
  cases hwritten with
  | plain _ _ _ => exact List.cons_ne_nil _ _
  | short _ _ => exact List.cons_ne_nil _ _
  | unit _ => exact List.cons_ne_nil _ _
  | pair _ => exact List.append_ne_nil_of_left_ne_nil (List.cons_ne_nil _ _) _

/-- Nothing that is written of a character is a carriage return. -/
theorem not_mem_escapeChar (c : Char) : '\r' ∉ escapeChar c := by
  have hunit (n : Nat) : '\r' ∉ unitEscape n := by
    rw [unitEscape, Text.hex]
    intro hmem
    rcases List.mem_append.1 hmem with hmem | hmem
    · exact absurd hmem (by decide)
    rcases List.mem_append.1 hmem with hmem | hmem
    · exact absurd (List.eq_of_mem_replicate hmem) (by decide)
    · obtain ⟨d, hd, hc⟩ := exists_digitChar_of_mem_toDigits hmem
      exact absurd hc ((by decide : ∀ d < 16, '\r' ≠ Nat.digitChar d) d hd)
  have hwritten := escaped_escapeChar c
  generalize escapeChar c = written at hwritten ⊢
  cases hwritten with
  | plain _ _ hascii =>
    rw [List.mem_singleton]
    rintro rfl
    exact absurd hascii.1 (by decide)
  | @short letter _ h =>
    intro hmem
    rcases List.mem_cons.1 hmem with hslash | hmem
    · cases hslash
    · rw [← List.mem_singleton.1 hmem] at h
      cases h
  | unit _ => exact hunit _
  | pair _ => exact fun hmem => (List.mem_append.1 hmem).elim (hunit _) (hunit _)

/-- A character is the one of its code. -/
theorem charOfCode_toNat (c : Char) : charOfCode c.toNat = c := by
  have hbounds := toNat_bounds c
  rw [charOfCode, if_neg (by omega), Char.ofNat_toNat]

/-- A character that is written by its code. -/
theorem readString_unicode (start fuel : Nat) {c : Char} {units t : Text}
    (h : readUnicode units = .ok (c, t)) :
    readString start (fuel + 1) ('\\' :: 'u' :: units)
      = (readString start fuel t).map fun (more, rest) => (c :: more, rest) := by
  rw [readString, if_neg (by decide), if_pos rfl]
  dsimp only
  rw [h]
  dsimp only [bind, Except.bind]
  cases readString start fuel t <;> rfl

/-- **A character is read as it is written**, and then what follows it. -/
theorem readString_escapeChar (start fuel : Nat) (c : Char) {t : Text} (ht : t ≠ []) :
    readString start (fuel + 1) (escapeChar c ++ t)
      = (readString start fuel t).map fun (more, rest) => (c :: more, rest) := by
  have hwritten := escaped_escapeChar c
  generalize escapeChar c = written at hwritten ⊢
  cases hwritten with
  | plain hquote hslash hascii =>
    show readString start (fuel + 1) (c :: t) = _
    rw [readString.eq_def]
    dsimp only
    rw [if_neg hquote, if_neg hslash, if_neg (by omega)]
    cases readString start fuel t <;> rfl
  | @short letter hu h =>
    show readString start (fuel + 1) ('\\' :: letter :: t) = _
    rw [readString, if_neg (by decide), if_pos rfl]
    · dsimp only
      rw [h]
      cases readString start fuel t <;> rfl
    · exact hu
  | unit h =>
    have hbounds := toNat_bounds c
    have hunit := readUnicode_unit h (by omega) ht
    rw [charOfCode_toNat] at hunit
    rw [unitEscape_append]
    exact readString_unicode start fuel hunit
  | pair h =>
    have hbounds := toNat_bounds c
    have hpair := @readUnicode_pair (0xd800 + (c.toNat - 0x10000) / 0x400)
      (0xdc00 + (c.toNat - 0x10000) % 0x400) (by omega) (by omega) t ht
    rw [show 0x10000 + (0xd800 + (c.toNat - 0x10000) / 0x400 - 0xd800) * 0x400
        + (0xdc00 + (c.toNat - 0x10000) % 0x400 - 0xdc00) = c.toNat by omega,
      Char.ofNat_toNat] at hpair
    rw [List.append_assoc, unitEscape_append]
    exact readString_unicode start fuel hpair

/-- **A text is read as it is written**, up to the quotation mark that ends
it. The induction is on its characters, each of which takes a step. -/
theorem readString_flatMap (start : Nat) {fuel : Nat} (t rest : Text) (h : t.length < fuel) :
    readString start fuel (t.flatMap escapeChar ++ '"' :: rest) = .ok (t, rest) := by
  induction t generalizing fuel with
  | nil =>
    obtain ⟨fuel, rfl⟩ := Nat.exists_eq_add_one_of_ne_zero (Nat.ne_of_gt h)
    rfl
  | cons c t ih =>
    obtain ⟨fuel, rfl⟩ := Nat.exists_eq_add_one.2 (Nat.zero_lt_of_lt h)
    rw [List.flatMap_cons, List.append_assoc, readString_escapeChar start fuel c (by simp),
      ih (by simpa using h)]
    rfl

/-! ## Integers

The digits are those of the number in base ten, without a zero in front but
for zero itself. -/

/-- **What can follow a value**: nothing, a comma, or the end of its line.
None of them can go on a number. -/
def Follows (rest : Text) : Prop := ∀ c t, rest = c :: t → c = ',' ∨ c = '\n'

theorem Follows.not_isDigit {c : Char} {t : Text} (h : Follows (c :: t)) : c.isDigit = false := by
  rcases h c t rfl with rfl | rfl <;> rfl

theorem takeWhile_isDigit {digits rest : Text} (hdigits : ∀ c ∈ digits, c.isDigit = true)
    (hrest : Follows rest) : (digits ++ rest).takeWhile Char.isDigit = digits := by
  rw [List.takeWhile_append_of_pos hdigits]
  cases rest with
  | nil => exact List.append_nil _
  | cons c t => rw [List.takeWhile_cons_of_neg (by rw [hrest.not_isDigit]; decide), List.append_nil]

/-- No fraction follows a value that can end, and no exponent. -/
theorem readFraction_of_follows {rest : Text} (h : Follows rest) :
    readFraction rest = (none, rest) := by
  cases rest with
  | nil => rfl
  | cons c t => rcases h c t rfl with rfl | rfl <;> rfl

theorem readExponent_of_follows {rest : Text} (h : Follows rest) :
    readExponent rest = (none, rest) := by
  cases rest with
  | nil => rfl
  | cons c t => rcases h c t rfl with rfl | rfl <;> rfl

theorem ofDigits_ofNat (n : Nat) : ofDigits (Text.ofNat n) = n :=
  Nat.ofDigitChars_toDigits (by decide) (by decide)

/-- The digits of a number, and a zero only if it is the number. -/
theorem isDigit_of_mem_ofNat {n : Nat} {c : Char} (h : c ∈ Text.ofNat n) : c.isDigit = true :=
  Nat.isDigit_of_mem_toDigits (by decide) (by decide) h

theorem head?_ofNat_append (n : Nat) (t : Text) :
    (Text.ofNat n ++ t).head? = (Text.ofNat n).head? := by
  cases h : Text.ofNat n with
  | nil => exact absurd h Nat.toDigits_ne_nil
  | cons c digits => rfl

theorem eq_zero_of_head_ofNat {n : Nat} (h : (Text.ofNat n).head? = some '0') : n = 0 := by
  induction n using Nat.base_induction 10 (by decide) with
  | single m hm =>
    rw [Text.ofNat, Nat.toDigits_of_lt_base hm] at h
    exact Nat.digitChar_eq_zero.1 (Option.some.inj h)
  | digit m k hk hm ih =>
    rw [Text.ofNat, ← Nat.toDigits_append_toDigits (by decide) hm hk] at h
    change (Text.ofNat m ++ Nat.toDigits 10 k).head? = _ at h
    rw [head?_ofNat_append] at h
    exact absurd (ih h) (Nat.ne_of_gt hm)

/-- The digits that are read of a number. -/
theorem digits_ofNat (n : Nat) {rest : Text} (hrest : Follows rest) :
    (if (Text.ofNat n ++ rest).head? = some '0' then ['0']
      else (Text.ofNat n ++ rest).takeWhile Char.isDigit) = Text.ofNat n := by
  split
  next h =>
    rw [head?_ofNat_append] at h
    rw [eq_zero_of_head_ofNat h]
    rfl
  · exact takeWhile_isDigit (fun _ => isDigit_of_mem_ofNat) hrest

/-- **An integer is read as it is written.** -/
theorem readNumber_ofInt {n : Int} (h : isTooLong (.int n) = false) {rest : Text}
    (hrest : Follows rest) : readNumber (Text.ofInt n ++ rest) = .ok (.int n, rest) := by
  have hlong : ¬maxDigits < (Text.ofNat n.natAbs).length := by simpa [isTooLong] using h
  have hne (m : Nat) : Text.ofNat m ≠ [] := Nat.toDigits_ne_nil
  unfold readNumber
  cases n with
  | ofNat m =>
    have hsign : ¬(Text.ofNat m ++ rest).head? = some '-' := fun hhead => by
      rw [head?_ofNat_append] at hhead
      exact absurd (isDigit_of_mem_ofNat (List.mem_of_mem_head? hhead)) (by decide)
    rw [Text.ofInt]
    simp only [hsign, decide_false, if_false, digits_ofNat m hrest, hne m,
      List.drop_left, readFraction_of_follows hrest, readExponent_of_follows hrest]
    rw [if_neg (show ¬maxDigits < (Text.ofNat m).length from hlong), ofDigits_ofNat]
    rfl
  | negSucc m =>
    rw [Text.ofInt]
    simp only [List.cons_append, List.head?_cons, decide_true, if_true, List.drop_succ_cons,
      List.drop_zero, digits_ofNat (m + 1) hrest, hne (m + 1), if_false,
      List.drop_left, readFraction_of_follows hrest, readExponent_of_follows hrest]
    rw [if_neg (show ¬maxDigits < (Text.ofNat (m + 1)).length from hlong), ofDigits_ofNat]
    rfl

end Json

end EditBlocks
