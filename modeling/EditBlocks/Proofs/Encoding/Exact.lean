import EditBlocks.Proofs.Encoding.Repertoire
import Mathlib.Data.List.Basic

/-!
# Bytes that are read are written again

Where an encoding has no mark at the beginning, a text has one form only: the
bytes that are read as a text are those that it is written as
(`Encoding.encode_of_decode`). With a mark this is not so, since a file
without one can be read too and gets one when it is written.

Such an encoding writes a text part by part (`Encoding.encode_append`), so
the bytes of a text are cut where the text is cut, although a character can
take more bytes than one.

For UTF-8 the bytes of one character are followed through the reader. What is
owed after the first byte bounds the code from both sides, so that the code,
cut into bytes again, has the same first byte and as many that follow
(`Utf8.encodeChar_of_owed?`).
-/

namespace EditBlocks

/-- A byte is that of its number. -/
theorem ofNat_eq_of_toNat {n : Nat} {b : UInt8} (h : n = b.toNat) : UInt8.ofNat n = b := by
  rw [h, UInt8.ofNat_toNat]

namespace Utf8

/-- **Bytes that continue a character**, the first between given bounds, with
the code that is known before them and the one that is known after. -/
def Continues (code least greatest : Nat) : List UInt8 → Nat → Prop
  | [], final => final = code
  | b :: rest, final =>
    (least ≤ b.toNat ∧ b.toNat ≤ greatest)
      ∧ Continues (code * 64 + (b.toNat - 0x80)) 0x80 0xbf rest final

/-- **What is read inside a character** is the bytes that continue it, and
then others. -/
theorem exists_of_decodeFrom_inside {count : Nat} {position start code least greatest : Nat}
    {taken bytes : List UInt8} {t : Text}
    (h : decodeFrom position (.inside start taken ⟨count + 1, code, least, greatest⟩) bytes
      = .ok t) :
    ∃ more rest final next u, bytes = more ++ rest ∧ more.length = count + 1
      ∧ Continues code least greatest more final ∧ decodeFrom next .between rest = .ok u
      ∧ t = Char.ofNat final :: u := by
  induction count generalizing position taken code least greatest bytes with
  | zero =>
    cases bytes with
    | nil => cases h
    | cons b rest =>
      by_cases hb : least ≤ b.toNat ∧ b.toNat ≤ greatest
      · rw [decodeFrom_last hb.1 hb.2] at h
        obtain ⟨u, hu, ht⟩ := map_eq_ok_iff.1 h
        exact ⟨[b], rest, _, _, u, rfl, rfl, ⟨hb, rfl⟩, hu, ht.symm⟩
      · rw [decodeFrom, if_neg hb] at h
        cases h
  | succ count ih =>
    cases bytes with
    | nil => cases h
    | cons b rest =>
      by_cases hb : least ≤ b.toNat ∧ b.toNat ≤ greatest
      · rw [decodeFrom_more hb.1 hb.2] at h
        obtain ⟨more, rest, final, next, u, rfl, hlength, hmore, hu, ht⟩ := ih h
        exact ⟨b :: more, rest, final, next, u, rfl, by simp [hlength], ⟨hb, hmore⟩,
          hu, ht⟩
      · rw [decodeFrom, if_neg hb] at h
        cases h

theorem continuation_of_toNat {bits : Nat} {b : UInt8} (hl : 0x80 ≤ b.toNat)
    (hg : b.toNat ≤ 0xbf) (h : bits % 64 = b.toNat - 0x80) : continuation bits = b :=
  ofNat_eq_of_toNat (by omega)

section Characters

variable {n : Nat} {b x y z : UInt8}

theorem encodeChar_two (hb : 0xc2 ≤ b.toNat ∧ b.toNat ≤ 0xdf)
    (hx : 0x80 ≤ x.toNat ∧ x.toNat ≤ 0xbf) (hn : n = (b.toNat - 0xc0) * 64 + (x.toNat - 0x80)) :
    encodeChar (Char.ofNat n) = [b, x] := by
  have hvalid : n.isValidChar := Or.inl (by omega)
  rw [encodeChar, toNat_ofNat_of_isValidChar hvalid, if_neg (by omega), if_pos (by omega),
    ofNat_eq_of_toNat (b := b) (by omega), continuation_of_toNat hx.1 hx.2 (by omega)]

/-- The three bytes of a character: none beyond those of two, and no
surrogate. -/
theorem encodeChar_three (hb : 0xe0 ≤ b.toNat ∧ b.toNat ≤ 0xef)
    (hx : 0x80 ≤ x.toNat ∧ x.toNat ≤ 0xbf) (hy : 0x80 ≤ y.toNat ∧ y.toNat ≤ 0xbf)
    (hleast : b.toNat = 0xe0 → 0xa0 ≤ x.toNat) (hgreatest : b.toNat = 0xed → x.toNat ≤ 0x9f)
    (hn : n = ((b.toNat - 0xe0) * 64 + (x.toNat - 0x80)) * 64 + (y.toNat - 0x80)) :
    encodeChar (Char.ofNat n) = [b, x, y] := by
  have hvalid : n.isValidChar := by
    by_cases hlow : b.toNat ≤ 0xed
    · exact Or.inl (by omega)
    · exact Or.inr (by omega)
  rw [encodeChar, toNat_ofNat_of_isValidChar hvalid, if_neg (by omega), if_neg (by omega),
    if_pos (by omega), ofNat_eq_of_toNat (b := b) (by omega),
    continuation_of_toNat hx.1 hx.2 (by omega), continuation_of_toNat hy.1 hy.2 (by omega)]

/-- The four bytes of a character: none beyond those of three, and none after
the last. -/
theorem encodeChar_four (hb : 0xf0 ≤ b.toNat ∧ b.toNat ≤ 0xf4)
    (hx : 0x80 ≤ x.toNat ∧ x.toNat ≤ 0xbf) (hy : 0x80 ≤ y.toNat ∧ y.toNat ≤ 0xbf)
    (hz : 0x80 ≤ z.toNat ∧ z.toNat ≤ 0xbf)
    (hleast : b.toNat = 0xf0 → 0x90 ≤ x.toNat) (hgreatest : b.toNat = 0xf4 → x.toNat ≤ 0x8f)
    (hn : n = (((b.toNat - 0xf0) * 64 + (x.toNat - 0x80)) * 64 + (y.toNat - 0x80)) * 64
      + (z.toNat - 0x80)) :
    encodeChar (Char.ofNat n) = [b, x, y, z] := by
  have hvalid : n.isValidChar := Or.inr (by omega)
  rw [encodeChar, toNat_ofNat_of_isValidChar hvalid, if_neg (by omega), if_neg (by omega),
    if_neg (by omega), ofNat_eq_of_toNat (b := b) (by omega),
    continuation_of_toNat hx.1 hx.2 (by omega), continuation_of_toNat hy.1 hy.2 (by omega),
    continuation_of_toNat hz.1 hz.2 (by omega)]

end Characters

/-- **What a first byte asks for**, by the number of bytes that follow. Where
there are two or three the next may be confined further, so that the code is
not too small, no surrogate and not too great. -/
theorem owed?_cases {n : Nat} {owed : Owed} (h : owed? n = some owed) :
    (owed.count = 1 ∧ (0xc2 ≤ n ∧ n ≤ 0xdf) ∧ owed.code = n - 0xc0
        ∧ 0x80 ≤ owed.least ∧ owed.greatest ≤ 0xbf)
      ∨ (owed.count = 2 ∧ (0xe0 ≤ n ∧ n ≤ 0xef) ∧ owed.code = n - 0xe0
        ∧ (0x80 ≤ owed.least ∧ owed.greatest ≤ 0xbf)
        ∧ (n = 0xe0 → 0xa0 ≤ owed.least) ∧ (n = 0xed → owed.greatest ≤ 0x9f))
      ∨ (owed.count = 3 ∧ (0xf0 ≤ n ∧ n ≤ 0xf4) ∧ owed.code = n - 0xf0
        ∧ (0x80 ≤ owed.least ∧ owed.greatest ≤ 0xbf)
        ∧ (n = 0xf0 → 0x90 ≤ owed.least) ∧ (n = 0xf4 → owed.greatest ≤ 0x8f)) := by
  unfold owed? at h
  split_ifs at h
  all_goals
    obtain rfl := Option.some.inj h
    dsimp only
    omega

/-- **A character is written as the bytes that it was read from**: a first
byte, and those that it asks for. -/
theorem encodeChar_of_owed? {b : UInt8} {owed : Owed} {more : List UInt8} {final : Nat}
    (howed : owed? b.toNat = some owed) (hlength : more.length = owed.count)
    (hmore : Continues owed.code owed.least owed.greatest more final) :
    encodeChar (Char.ofNat final) = b :: more := by
  obtain ⟨hcount, hb, hcode, hbounds⟩ | ⟨hcount, hb, hcode, hbounds, hleast, hgreatest⟩
    | ⟨hcount, hb, hcode, hbounds, hleast, hgreatest⟩ := owed?_cases howed
  · obtain ⟨x, rfl⟩ := List.length_eq_one_iff.1 (hlength.trans hcount)
    obtain ⟨hx, hfinal⟩ := hmore
    rw [hcode] at hfinal
    exact encodeChar_two hb (by omega) hfinal
  · obtain ⟨x, y, rfl⟩ := List.length_eq_two.1 (hlength.trans hcount)
    obtain ⟨hx, hy, hfinal⟩ := hmore
    rw [hcode] at hfinal
    exact encodeChar_three hb (by omega) hy (by omega) (by omega) hfinal
  · obtain ⟨x, y, z, rfl⟩ := List.length_eq_three.1 (hlength.trans hcount)
    obtain ⟨hx, hy, hz, hfinal⟩ := hmore
    rw [hcode] at hfinal
    exact encodeChar_four hb (by omega) hy hz (by omega) (by omega) hfinal

/-- The number of bytes that a first byte asks for is at least one. -/
theorem exists_count_of_owed? {n : Nat} {owed : Owed} (h : owed? n = some owed) :
    ∃ count, owed.count = count + 1 :=
  Nat.exists_eq_succ_of_ne_zero (by have := owed?_cases h; omega)

/-- **The text that bytes are read as is written as those bytes.** -/
theorem encode_of_decodeFrom {position : Nat} {bytes : List UInt8} {t : Text}
    (h : decodeFrom position .between bytes = .ok t) : encode t = bytes := by
  -- by induction on the number of bytes, since a character can take several
  induction hn : bytes.length using Nat.strongRecOn generalizing position bytes t with
  | ind n ih =>
    subst hn
    cases bytes with
    | nil =>
      rw [decodeFrom] at h
      obtain rfl := Except.ok.inj h
      rfl
    | cons b rest =>
      by_cases hb : b.toNat < 0x80
      · rw [decodeFrom_ascii hb] at h
        obtain ⟨u, hu, rfl⟩ := map_eq_ok_iff.1 h
        have hc : encodeChar (Char.ofNat b.toNat) = [b] := by
          rw [encodeChar, SingleByte.toNat_ofNat, if_pos hb, UInt8.ofNat_toNat]
        rw [encode_cons, hc, ih _ (Nat.lt_succ_self _) hu rfl]
        rfl
      · cases howed : owed? b.toNat with
        | none =>
          rw [decodeFrom, if_neg hb, howed] at h
          cases h
        | some owed =>
          rw [decodeFrom_first howed hb] at h
          obtain ⟨count, hcount⟩ := exists_count_of_owed? howed
          have howed' : owed = ⟨count + 1, owed.code, owed.least, owed.greatest⟩ := by
            rw [← hcount]
          rw [howed'] at h
          obtain ⟨more, rest, final, next, u, rfl, hlength, hmore, hu, rfl⟩ :=
            exists_of_decodeFrom_inside h
          have hshorter : rest.length < (b :: (more ++ rest)).length := by
            rw [List.length_cons, List.length_append]
            omega
          have hc := encodeChar_of_owed? howed (hlength.trans hcount.symm) hmore
          rw [encode_cons, hc, ih _ hshorter hu rfl, List.cons_append]

end Utf8

namespace Utf16

/-- **The bytes of a unit** are the two that it was read from. -/
theorem bytes_unit (order : Order) (a b : UInt8) : order.bytes (order.unit a b) = [a, b] := by
  have ha := a.toNat_lt
  have hb := b.toNat_lt
  cases order with
  | little =>
    rw [Order.bytes, Order.unit, ofNat_eq_of_toNat (b := a) (by omega),
      ofNat_eq_of_toNat (b := b) (by omega)]
  | big =>
    rw [Order.bytes, Order.unit, ofNat_eq_of_toNat (b := a) (by omega),
      ofNat_eq_of_toNat (b := b) (by omega)]

theorem unit_lt (order : Order) (a b : UInt8) : order.unit a b < 0x10000 := by
  have ha := a.toNat_lt
  have hb := b.toNat_lt
  cases order <;> simp only [Order.unit] <;> omega

theorem unitsOf_ofNat {unit : Nat} (h : unit < 0x10000) (hlow : isLow unit = false)
    (hhigh : isHigh unit = false) : unitsOf (Char.ofNat unit) = [unit] := by
  simp only [isLow, isHigh, Bool.and_eq_false_iff, decide_eq_false_iff_not] at hlow hhigh
  have hvalid : unit.isValidChar := by
    by_cases hbefore : unit < 0xd800
    · exact Or.inl hbefore
    · exact Or.inr (by omega)
  rw [unitsOf, toNat_ofNat_of_isValidChar hvalid, if_pos h]

/-- Two surrogates are the units of their character. -/
theorem unitsOf_pair {high low : Nat} (hhigh : isHigh high = true) (hlow : isLow low = true) :
    unitsOf (pair high low) = [high, low] := by
  simp only [isLow, isHigh, Bool.and_eq_true, decide_eq_true_eq] at hlow hhigh
  have hvalid : (0x10000 + (high - 0xd800) * 0x400 + (low - 0xdc00)).isValidChar :=
    Or.inr (by omega)
  have hfirst : 0xd800 + (0x10000 + (high - 0xd800) * 0x400 + (low - 0xdc00) - 0x10000) / 0x400
      = high := by omega
  have hsecond : 0xdc00 + (0x10000 + (high - 0xd800) * 0x400 + (low - 0xdc00) - 0x10000) % 0x400
      = low := by omega
  rw [unitsOf, pair, toNat_ofNat_of_isValidChar hvalid, if_neg (by omega), hfirst, hsecond]

/-- **The text that bytes are read as is written as those bytes.** -/
theorem encode_of_decodeFrom {order : Order} {position : Nat} {bytes : List UInt8} {t : Text}
    (h : decodeFrom order position bytes = .ok t) : encode order t = bytes := by
  -- the cases are those of the reader: no byte, one, a unit, two units
  fun_induction decodeFrom order position bytes generalizing t
  case case1 =>
    obtain rfl := Except.ok.inj h
    rfl
  case case6 a b unit hlow hhigh c d rest hlow' ih =>
    obtain ⟨u, hu, rfl⟩ := map_eq_ok_iff.1 h
    rw [encode_cons, unitsOf_pair hhigh hlow', ih hu, List.flatMap_cons, List.flatMap_singleton,
      bytes_unit, bytes_unit]
    rfl
  case case8 a b rest unit hlow hhigh ih =>
    obtain ⟨u, hu, rfl⟩ := map_eq_ok_iff.1 h
    rw [encode_cons, unitsOf_ofNat (unit_lt order a b) (eq_false_of_ne_true hlow)
      (eq_false_of_ne_true hhigh), ih hu, List.flatMap_singleton, bytes_unit]
    rfl
  all_goals cases h

end Utf16

namespace SingleByte

variable {codec : Text} {size position : Nat} {t : Text} {bytes : List UInt8}

/-- **What a text is written as**: the codes of its characters, where all of
them are small enough. -/
theorem encode_eq_ok_iff :
    encode codec size position t = .ok bytes
      ↔ (∀ c ∈ t, c.toNat < size) ∧ bytes = t.map fun c => UInt8.ofNat c.toNat := by
  induction t generalizing position bytes with
  | nil => simp [encode, eq_comm]
  | cons c t ih =>
    rw [encode, List.forall_mem_cons]
    split_ifs with hc
    · rw [map_eq_ok_iff, and_iff_right hc, List.map_cons]
      simp only [ih]
      constructor
      · rintro ⟨rest, ⟨hsmall, rfl⟩, rfl⟩
        exact ⟨hsmall, rfl⟩
      · rintro ⟨hsmall, rfl⟩
        exact ⟨_, ⟨hsmall, rfl⟩, rfl⟩
    · refine iff_of_false ?_ fun h => hc h.1.1
      rintro ⟨⟩

/-- **The text of Latin-1 bytes is written as those bytes.** -/
theorem encode_decodeLatin1 : encode codec 256 position (decodeLatin1 bytes) = .ok bytes := by
  refine encode_eq_ok_iff.2 ⟨fun c => toNat_of_mem_decodeLatin1, ?_⟩
  rw [decodeLatin1, List.map_map]
  refine (List.map_id'' (fun b => ?_) bytes).symm
  rw [Function.comp_apply, toNat_ofNat, UInt8.ofNat_toNat]

theorem decodeAscii_eq_ok {start : Nat} (h : decodeAscii start bytes = .ok t) :
    t = decodeLatin1 bytes := by
  induction bytes generalizing start t with
  | nil => exact (Except.ok.inj h).symm
  | cons b rest ih =>
    rw [decodeAscii] at h
    split_ifs at h
    obtain ⟨u, hu, rfl⟩ := map_eq_ok_iff.1 h
    rw [ih hu]
    rfl

/-- **The text of ASCII bytes is written as those bytes.** -/
theorem encode_of_decodeAscii {start : Nat} (h : decodeAscii start bytes = .ok t) :
    encode codec 128 position t = .ok bytes := by
  have hlatin1 : encode codec 256 position t = .ok bytes :=
    decodeAscii_eq_ok h ▸ encode_decodeLatin1
  exact encode_eq_ok_iff.2 ⟨toNat_of_decodeAscii h, (encode_eq_ok_iff.1 hlatin1).2⟩

/-- **An encoding without a mark writes a text part by part.** With a mark it
does not, because the second part would get one as well. -/
theorem encode_append {s : Text} :
    encode codec size position (s ++ t) = .ok bytes
      ↔ ∃ front back, encode codec size position s = .ok front
        ∧ encode codec size position t = .ok back ∧ bytes = front ++ back := by
  simp only [encode_eq_ok_iff, List.map_append, List.forall_mem_append]
  constructor
  · rintro ⟨⟨hs, ht⟩, rfl⟩
    exact ⟨_, _, ⟨hs, rfl⟩, ⟨ht, rfl⟩, rfl⟩
  · rintro ⟨_, _, ⟨hs, rfl⟩, ⟨ht, rfl⟩, rfl⟩
    exact ⟨⟨hs, ht⟩, rfl⟩

end SingleByte

namespace Encoding

/-- **Whether an encoding writes no mark**, of those that are modelled. Of a
codec from outside it cannot be known. -/
def unmarked : Encoding → Bool
  | utf8Marked | utf16 | other _ => false
  | _ => true

/-- An encoding that is known to write no mark is one that is modelled. -/
theorem isModelled_of_unmarked {e : Encoding} (h : e.unmarked = true) : e.isModelled = true := by
  cases e with
  | other name => cases h
  | _ => rfl

variable [Codecs] {e : Encoding} {s t : Text} {bytes : List UInt8}

/-- **What is read in an encoding without a mark is written again** as the
bytes that it was read from. -/
theorem encode_of_decode (he : e.unmarked = true) (h : e.decode bytes = .ok t) :
    e.encode t = .ok bytes := by
  cases e with
  | utf8 => exact congrArg Except.ok (Utf8.encode_of_decodeFrom (mapError_eq_ok_iff.1 h))
  | utf16In order => exact congrArg Except.ok (Utf16.encode_of_decodeFrom (mapError_eq_ok_iff.1 h))
  | latin1 =>
    obtain rfl := Except.ok.inj h
    exact mapError_eq_ok_iff.2 SingleByte.encode_decodeLatin1
  | ascii => exact mapError_eq_ok_iff.2 (SingleByte.encode_of_decodeAscii (mapError_eq_ok_iff.1 h))
  | utf8Marked | utf16 | other _ => cases he

/-- With a mark the bytes can be others: a mark is read in either order, and
written in one. -/
example : utf16.decode [0xfe, 0xff, 0x00, 0x61] = .ok "a"
    ∧ utf16.encode "a" = .ok [0xff, 0xfe, 0x61, 0x00] := ⟨by rfl, by rfl⟩

/-- **An encoding without a mark writes a text part by part.** -/
theorem encode_append (he : e.unmarked = true) :
    e.encode (s ++ t) = .ok bytes
      ↔ ∃ front back, e.encode s = .ok front ∧ e.encode t = .ok back ∧ bytes = front ++ back := by
  cases e with
  | utf8 => simp [encode, Utf8.encode, eq_comm]
  | utf16In order => simp [encode, Utf16.encode, eq_comm]
  | latin1 =>
    simp only [encode, mapError_eq_ok_iff]
    exact SingleByte.encode_append
  | ascii =>
    simp only [encode, mapError_eq_ok_iff]
    exact SingleByte.encode_append
  | utf8Marked | utf16 | other _ => cases he

end Encoding

end EditBlocks
