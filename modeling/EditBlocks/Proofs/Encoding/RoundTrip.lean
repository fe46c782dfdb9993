import EditBlocks.Encoding.Basic
import Mathlib.Tactic.SplitIfs

/-!
# What is written is read back

In every encoding that is modelled, the bytes of a text are read as that text
(`Encoding.readsBack_of_isModelled`). For UTF-8 and UTF-16 this is one lemma
on the bytes of one character with more after them, and an induction over the
characters. A mark at the beginning is written and left out again.

For UTF-8 the reader is followed byte by byte, with what is owed in between.
A byte that continues a character pays for six bits of its code, whatever was
owed (`Utf8.decodeFrom_more`), and the last one gives the character
(`Utf8.decodeFrom_last`); so the four lengths of characters differ in their
first bytes only.

Of a codec that is given from outside nothing of the kind is known, and there
are some that write two texts as the same bytes. What is said of any encoding
and needs it asks for it by name (`Encoding.ReadsBack`).
-/

namespace EditBlocks

theorem toNat_ofNat_of_lt {n : Nat} (h : n < 256) : (UInt8.ofNat n).toNat = n := by
  rw [UInt8.toNat_ofNat']
  exact Nat.mod_eq_of_lt h

/-- A character's code is below that of the surrogates or above it. -/
theorem toNat_bounds (c : Char) :
    c.toNat < 0xd800 ∨ 0xdfff < c.toNat ∧ c.toNat < 0x110000 := c.valid

/-- A number that can be a character's code is that of its character. -/
theorem toNat_ofNat_of_isValidChar {n : Nat} (h : n.isValidChar) : (Char.ofNat n).toNat = n := by
  rw [Char.ofNat, dif_pos h]
  rfl

namespace Utf8

theorem toNat_continuation (bits : Nat) : (continuation bits).toNat = 0x80 + bits % 64 :=
  toNat_ofNat_of_lt (by omega)

section Reading

variable {position start least greatest count code : Nat} {taken rest : List UInt8} {b : UInt8}

theorem decodeFrom_ascii (h : b.toNat < 0x80) :
    decodeFrom position .between (b :: rest)
      = (decodeFrom (position + 1) .between rest).map (Char.ofNat b.toNat :: ·) := by
  rw [decodeFrom, if_pos h]

theorem decodeFrom_first {owed : Owed} (h : owed? b.toNat = some owed) (hb : ¬b.toNat < 0x80) :
    decodeFrom position .between (b :: rest)
      = decodeFrom (position + 1) (.inside position [b] owed) rest := by
  rw [decodeFrom, if_neg hb, h]

/-- A byte that continues a character, with more to come. -/
theorem decodeFrom_more (hl : least ≤ b.toNat) (hg : b.toNat ≤ greatest) :
    decodeFrom position (.inside start taken ⟨count + 2, code, least, greatest⟩) (b :: rest)
      = decodeFrom (position + 1)
          (.inside start (taken ++ [b]) ⟨count + 1, code * 64 + (b.toNat - 0x80), 0x80, 0xbf⟩)
          rest := by
  rw [decodeFrom, if_pos ⟨hl, hg⟩]
  exact if_neg (by simp)

theorem decodeFrom_last (hl : least ≤ b.toNat) (hg : b.toNat ≤ greatest) :
    decodeFrom position (.inside start taken ⟨1, code, least, greatest⟩) (b :: rest)
      = (decodeFrom (position + 1) .between rest).map
          (Char.ofNat (code * 64 + (b.toNat - 0x80)) :: ·) := by
  rw [decodeFrom, if_pos ⟨hl, hg⟩]
  exact if_pos (Nat.le_refl 1)

end Reading

theorem owed?_three {n : Nat} (h : 0x800 ≤ n) (h' : n < 0xd800 ∨ 0xdfff < n ∧ n < 0x10000) :
    ∃ least greatest, owed? (0xe0 + n / 4096) = some ⟨2, n / 4096, least, greatest⟩
      ∧ least ≤ 0x80 + n / 64 % 64 ∧ 0x80 + n / 64 % 64 ≤ greatest := by
  unfold owed?
  -- the least and greatest second byte keep out overlong forms and surrogates
  split_ifs with h2 he0 hed
  · omega
  · have : n / 4096 = 0 := by omega
    exact ⟨0xa0, 0xbf, by rw [this], by omega, by omega⟩
  · have : n / 4096 = 13 := by omega
    exact ⟨0x80, 0x9f, by rw [this], by omega, by omega⟩
  · exact ⟨0x80, 0xbf, by rw [Nat.add_sub_cancel_left], by omega, by omega⟩
  all_goals omega

theorem owed?_four {n : Nat} (h : 0x10000 ≤ n) (h' : n < 0x110000) :
    ∃ least greatest, owed? (0xf0 + n / 262144) = some ⟨3, n / 262144, least, greatest⟩
      ∧ least ≤ 0x80 + n / 4096 % 64 ∧ 0x80 + n / 4096 % 64 ≤ greatest := by
  unfold owed?
  split_ifs with h2 he0 hed he hf0 hf hf4
  · omega
  · omega
  · omega
  · omega
  · have : n / 262144 = 0 := by omega
    exact ⟨0x90, 0xbf, by rw [this], by omega, by omega⟩
  · exact ⟨0x80, 0xbf, by rw [Nat.add_sub_cancel_left], by omega, by omega⟩
  · have : n / 262144 = 4 := by omega
    exact ⟨0x80, 0x8f, by rw [this], by omega, by omega⟩
  · omega

/-- **The bytes of a character are read as that character**, with any bytes
after them. The four lengths are treated one by one. -/
theorem decodeFrom_encodeChar (position : Nat) (c : Char) (rest : List UInt8) :
    ∃ next, decodeFrom position .between (encodeChar c ++ rest)
      = (decodeFrom next .between rest).map (c :: ·) := by
  have hc := toNat_bounds c
  have hchar : ∀ {code : Nat}, code = c.toNat → Char.ofNat code = c := by
    rintro _ rfl
    exact Char.ofNat_toNat c
  have hcont : ∀ bits, 0x80 ≤ (continuation bits).toNat ∧ (continuation bits).toNat ≤ 0xbf := by
    intro bits
    rw [toNat_continuation]
    omega
  unfold encodeChar
  dsimp only
  -- one case for each number of bytes
  split_ifs with h1 h2 h3
  · refine ⟨position + 1, ?_⟩
    rw [List.singleton_append, decodeFrom_ascii (by rw [toNat_ofNat_of_lt (by omega)]; exact h1),
      toNat_ofNat_of_lt (by omega), hchar rfl]
  · have hb : (UInt8.ofNat (0xc0 + c.toNat / 64)).toNat = 0xc0 + c.toNat / 64 :=
      toNat_ofNat_of_lt (by omega)
    have ho : owed? (0xc0 + c.toNat / 64) = some ⟨1, c.toNat / 64, 0x80, 0xbf⟩ := by
      rw [owed?, if_pos (by omega), Nat.add_sub_cancel_left]
    refine ⟨position + 1 + 1, ?_⟩
    show decodeFrom position .between (_ :: _ :: rest) = _
    rw [decodeFrom_first (hb.symm ▸ ho) (by omega), decodeFrom_last (hcont _).1 (hcont _).2,
      toNat_continuation, hchar (by omega)]
  · have hb : (UInt8.ofNat (0xe0 + c.toNat / 4096)).toNat = 0xe0 + c.toNat / 4096 :=
      toNat_ofNat_of_lt (by omega)
    obtain ⟨least, greatest, ho, hl, hg⟩ := @owed?_three c.toNat (by omega) (by omega)
    refine ⟨position + 1 + 1 + 1, ?_⟩
    show decodeFrom position .between (_ :: _ :: _ :: rest) = _
    rw [decodeFrom_first (hb.symm ▸ ho) (by omega),
      decodeFrom_more (by rw [toNat_continuation]; exact hl) (by rw [toNat_continuation]; exact hg),
      decodeFrom_last (hcont _).1 (hcont _).2, toNat_continuation, toNat_continuation,
      hchar (by omega)]
  · have hb : (UInt8.ofNat (0xf0 + c.toNat / 262144)).toNat = 0xf0 + c.toNat / 262144 :=
      toNat_ofNat_of_lt (by omega)
    obtain ⟨least, greatest, ho, hl, hg⟩ := @owed?_four c.toNat (by omega) (by omega)
    refine ⟨position + 1 + 1 + 1 + 1, ?_⟩
    show decodeFrom position .between (_ :: _ :: _ :: _ :: rest) = _
    rw [decodeFrom_first (hb.symm ▸ ho) (by omega),
      decodeFrom_more (by rw [toNat_continuation]; exact hl) (by rw [toNat_continuation]; exact hg),
      decodeFrom_more (hcont _).1 (hcont _).2, decodeFrom_last (hcont _).1 (hcont _).2,
      toNat_continuation, toNat_continuation, toNat_continuation, hchar (by omega)]

theorem encode_cons (c : Char) (t : Text) : encode (c :: t) = encodeChar c ++ encode t :=
  List.flatMap_cons

/-- The bytes of a text are read as that text, from any position. -/
theorem decodeFrom_encode (position : Nat) (t : Text) :
    decodeFrom position .between (encode t) = .ok t := by
  induction t generalizing position with
  | nil => rfl
  | cons c t ih =>
    obtain ⟨next, hc⟩ := decodeFrom_encodeChar position c (encode t)
    rw [encode_cons, hc, ih]
    rfl

/-- **Reading UTF-8 undoes writing it.** -/
theorem decode_encode (t : Text) : decode (encode t) = .ok t := decodeFrom_encode 0 t

/-- So it does with a mark. -/
theorem decodeMarked_encodeMarked (t : Text) : decodeMarked (encodeMarked t) = .ok t := by
  have hlen : ¬(encodeMarked t).length < mark.length := by simp [encodeMarked]
  have hmark : mark.isPrefixOf (encodeMarked t) = true := by simp [encodeMarked]
  have hdrop : (encodeMarked t).drop mark.length = encode t := List.drop_left
  rw [decodeMarked, if_neg fun h => hlen h.1, if_pos hmark, hdrop, decode_encode]

end Utf8

namespace Utf16

theorem unit_bytes (order : Order) {unit : Nat} (h : unit < 0x10000) :
    ∃ a b, order.bytes unit = [a, b] ∧ order.unit a b = unit := by
  have hlow : (UInt8.ofNat (unit % 256)).toNat = unit % 256 := toNat_ofNat_of_lt (by omega)
  have hhigh : (UInt8.ofNat (unit / 256)).toNat = unit / 256 := toNat_ofNat_of_lt (by omega)
  cases order with
  | little =>
    refine ⟨_, _, rfl, ?_⟩
    rw [Order.unit, hlow, hhigh]
    omega
  | big =>
    refine ⟨_, _, rfl, ?_⟩
    rw [Order.unit, hlow, hhigh]
    omega

/-- **The units of a character are read as that character.** -/
theorem decodeFrom_unitsOf (order : Order) (position : Nat) (c : Char) (rest : List UInt8) :
    ∃ next, decodeFrom order position ((unitsOf c).flatMap order.bytes ++ rest)
      = (decodeFrom order next rest).map (c :: ·) := by
  have hc := toNat_bounds c
  unfold unitsOf
  dsimp only
  -- a character is one unit, or two surrogates
  split_ifs with h
  · obtain ⟨a, b, hbytes, hunit⟩ := unit_bytes order h
    have hlow : isLow c.toNat = false := by simp [isLow]; omega
    have hhigh : isHigh c.toNat = false := by simp [isHigh]; omega
    refine ⟨position + 2, ?_⟩
    rw [List.flatMap_singleton, hbytes]
    show decodeFrom order position (a :: b :: rest) = _
    rw [decodeFrom.eq_def]
    dsimp only
    rw [hunit, hlow, hhigh, if_neg Bool.false_ne_true, if_neg Bool.false_ne_true, Char.ofNat_toNat]
  · obtain ⟨a, b, hbytes, hunit⟩ :=
      @unit_bytes order (0xd800 + (c.toNat - 0x10000) / 0x400) (by omega)
    obtain ⟨a', b', hbytes', hunit'⟩ :=
      @unit_bytes order (0xdc00 + (c.toNat - 0x10000) % 0x400) (by omega)
    have hlow : isLow (order.unit a b) = false := by simp [isLow, hunit]; omega
    have hhigh : isHigh (order.unit a b) = true := by simp [isHigh, hunit]; omega
    have hlow' : isLow (order.unit a' b') = true := by simp [isLow, hunit']; omega
    have hpair : pair (order.unit a b) (order.unit a' b') = c := by
      rw [pair, hunit, hunit']
      have he : 0x10000 + (0xd800 + (c.toNat - 0x10000) / 0x400 - 0xd800) * 0x400
          + (0xdc00 + (c.toNat - 0x10000) % 0x400 - 0xdc00) = c.toNat := by omega
      rw [he, Char.ofNat_toNat]
    refine ⟨position + 4, ?_⟩
    rw [List.flatMap_cons, List.flatMap_singleton, hbytes, hbytes']
    show decodeFrom order position (a :: b :: a' :: b' :: rest) = _
    rw [decodeFrom.eq_def]
    dsimp only
    rw [hlow, hhigh, hlow', hpair, if_neg Bool.false_ne_true, if_pos rfl, if_pos rfl]

theorem encode_cons (order : Order) (c : Char) (t : Text) :
    encode order (c :: t) = (unitsOf c).flatMap order.bytes ++ encode order t := by
  rw [encode, List.flatMap_cons, List.flatMap_append, ← encode]

/-- The bytes of a text are read as that text, from any position. -/
theorem decodeFrom_encode (order : Order) (position : Nat) (t : Text) :
    decodeFrom order position (encode order t) = .ok t := by
  induction t generalizing position with
  | nil => rfl
  | cons c t ih =>
    obtain ⟨next, hc⟩ := decodeFrom_unitsOf order position c (encode order t)
    rw [encode_cons, hc, ih]
    rfl

/-- **Reading UTF-16 undoes writing it**, with its mark. -/
theorem decodeMarked_encodeMarked (t : Text) : decodeMarked (encodeMarked t) = .ok (some t) := by
  have hmark : encodeMarked t = 0xff :: 0xfe :: encode .little t := rfl
  rw [hmark, decodeMarked, decodeFrom_encode]
  rfl

end Utf16

namespace SingleByte

variable {codec : Text} {size position : Nat} {t : Text} {bytes : List UInt8}

/-- The first character of a text that can be written, and the rest. -/
theorem encode_cons_eq_ok {c : Char} (h : encode codec size position (c :: t) = .ok bytes) :
    c.toNat < size ∧ ∃ rest, encode codec size (position + 1) t = .ok rest
      ∧ bytes = UInt8.ofNat c.toNat :: rest := by
  rw [encode] at h
  split at h
  next hc =>
    refine ⟨hc, ?_⟩
    match hr : encode codec size (position + 1) t with
    | .ok rest =>
      rw [hr] at h
      exact ⟨rest, rfl, (Except.ok.inj h).symm⟩
    | .error e =>
      rw [hr] at h
      cases h
  · cases h

/-- **Reading Latin-1 undoes writing it.** -/
theorem decodeLatin1_of_encode (h : encode codec 256 position t = .ok bytes) :
    decodeLatin1 bytes = t := by
  induction t generalizing position bytes with
  | nil =>
    cases h
    rfl
  | cons c t ih =>
    obtain ⟨hc, rest, hr, rfl⟩ := encode_cons_eq_ok h
    rw [decodeLatin1, List.map_cons, toNat_ofNat_of_lt hc, Char.ofNat_toNat]
    exact congrArg (c :: ·) (ih hr)

/-- **Reading ASCII undoes writing it.** -/
theorem decodeAscii_of_encode {start : Nat} (h : encode codec 128 position t = .ok bytes) :
    decodeAscii start bytes = .ok t := by
  induction t generalizing position start bytes with
  | nil =>
    cases h
    rfl
  | cons c t ih =>
    obtain ⟨hc, rest, hr, rfl⟩ := encode_cons_eq_ok h
    have hb : (UInt8.ofNat c.toNat).toNat = c.toNat := toNat_ofNat_of_lt (by omega)
    rw [decodeAscii, hb, if_pos hc, ih hr, Char.ofNat_toNat]
    rfl

end SingleByte

namespace Encoding

/-- **Whether an encoding is one of the seven that are modelled to the
byte.** -/
def isModelled : Encoding → Bool
  | other _ => false
  | _ => true

variable [Codecs]

/-- **An encoding in which what is written is read back.** It may lack
characters; of a text that it cannot write nothing is asked. -/
def ReadsBack (e : Encoding) : Prop :=
  ∀ {t : Text} {bytes : List UInt8}, e.encode t = .ok bytes → e.decode bytes = .ok t

/-- **The encodings that are modelled read back what they have written**,
with a mark or without. -/
theorem readsBack_of_isModelled {e : Encoding} (he : e.isModelled = true) : e.ReadsBack := by
  intro t bytes h
  cases e with
  | utf8 =>
    cases h
    show (Utf8.decode (Utf8.encode t)).mapError _ = _
    rw [Utf8.decode_encode]
    rfl
  | utf8Marked =>
    cases h
    show (Utf8.decodeMarked (Utf8.encodeMarked t)).mapError _ = _
    rw [Utf8.decodeMarked_encodeMarked]
    rfl
  | utf16 =>
    cases h
    rw [decode, Utf16.decodeMarked_encodeMarked]
  | utf16In order =>
    cases h
    show (Utf16.decodeFrom order 0 (Utf16.encode order t)).mapError _ = _
    rw [Utf16.decodeFrom_encode]
    rfl
  | latin1 =>
    match hb : SingleByte.encode "latin-1" 256 0 t with
    | .ok bytes' =>
      rw [encode, hb] at h
      cases h
      rw [decode, SingleByte.decodeLatin1_of_encode hb]
    | .error e =>
      rw [encode, hb] at h
      cases h
  | ascii =>
    match hb : SingleByte.encode "ascii" 128 0 t with
    | .ok bytes' =>
      rw [encode, hb] at h
      cases h
      rw [decode, SingleByte.decodeAscii_of_encode hb]
      rfl
    | .error e =>
      rw [encode, hb] at h
      cases h
  | other name => cases he

end Encoding

end EditBlocks
