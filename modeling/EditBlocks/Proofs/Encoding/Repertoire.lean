import EditBlocks.Proofs.Encoding.RoundTrip
import EditBlocks.Proofs.Success

/-!
# The characters of an encoding

Of the encodings that are modelled, those of single bytes have some
characters only, and the others have all. A text can be encoded when the
encoding has each of its characters (`Encoding.exists_encode_iff`), and it
has each that it decodes. So what is put together from texts that were
decoded or encoded can be encoded again.

Which characters an encoding has is a condition on each character by itself
(`Encoding.has`). That is what makes it go through the edits, whose texts are
parts of other texts and nothing more is known of them.
-/

namespace EditBlocks

namespace SingleByte

/-- A text has bytes when its characters' codes are below the size. -/
theorem exists_encode_iff {codec : Text} {size position : Nat} {t : Text} :
    (∃ bytes, encode codec size position t = .ok bytes) ↔ ∀ c ∈ t, c.toNat < size := by
  induction t generalizing position with
  | nil => exact iff_of_true ⟨[], rfl⟩ (List.forall_mem_nil _)
  | cons c t ih =>
    rw [encode, List.forall_mem_cons]
    split
    next hc =>
      rw [← @ih (position + 1), and_iff_right hc]
      simp only [map_eq_ok_iff]
      constructor
      · rintro ⟨_, rest, hrest, _⟩
        exact ⟨rest, hrest⟩
      · rintro ⟨rest, hrest⟩
        exact ⟨_, rest, hrest, rfl⟩
    next hc =>
      refine iff_of_false ?_ fun h => hc h.1
      rintro ⟨_, h⟩
      cases h

theorem toNat_ofNat (b : UInt8) : (Char.ofNat b.toNat).toNat = b.toNat := by
  have hb := b.toNat_lt
  exact toNat_ofNat_of_isValidChar (Or.inl (by omega))

theorem toNat_of_mem_decodeLatin1 {bytes : List UInt8} {c : Char} (h : c ∈ decodeLatin1 bytes) :
    c.toNat < 256 := by
  obtain ⟨b, -, rfl⟩ := List.mem_map.1 h
  rw [toNat_ofNat]
  exact b.toNat_lt

theorem toNat_of_decodeAscii {position : Nat} {bytes : List UInt8} {t : Text}
    (h : decodeAscii position bytes = .ok t) : ∀ c ∈ t, c.toNat < 128 := by
  induction bytes generalizing position t with
  | nil =>
    cases h
    exact fun _ h => nomatch h
  | cons b rest ih =>
    rw [decodeAscii] at h
    split at h
    next hb =>
      obtain ⟨more, hmore, rfl⟩ := map_eq_ok_iff.1 h
      exact List.forall_mem_cons.2 ⟨(toNat_ofNat b).symm ▸ hb, ih hmore⟩
    · cases h

end SingleByte

namespace Encoding

/-- **Whether an encoding has a character**, if it is one that is modelled.
The encodings of Unicode have every character. -/
def has : Encoding → Char → Bool
  | latin1, c => c.toNat < 256
  | ascii, c => c.toNat < 128
  | _, _ => true

theorem has_lineFeed (e : Encoding) : e.has '\n' = true := by cases e <;> rfl

variable [Codecs]

/-- **A text can be encoded** when the encoding has its characters. -/
theorem exists_encode_iff {e : Encoding} (he : e.isModelled = true) {t : Text} :
    (∃ bytes, e.encode t = .ok bytes) ↔ ∀ c ∈ t, e.has c = true := by
  cases e with
  | latin1 =>
    simp only [encode, has, mapError_eq_ok_iff, decide_eq_true_iff]
    exact SingleByte.exists_encode_iff
  | ascii =>
    simp only [encode, has, mapError_eq_ok_iff, decide_eq_true_iff]
    exact SingleByte.exists_encode_iff
  | other name => cases he
  | _ => exact iff_of_true ⟨_, rfl⟩ fun _ _ => rfl

/-- It has the characters that it decodes. -/
theorem has_of_decode {e : Encoding} {bytes : List UInt8} {t : Text} (h : e.decode bytes = .ok t) :
    ∀ c ∈ t, e.has c = true := by
  cases e with
  | latin1 =>
    cases h
    exact fun c hc => decide_eq_true (SingleByte.toNat_of_mem_decodeLatin1 hc)
  | ascii =>
    have hdecode := mapError_eq_ok_iff.1 h
    exact fun c hc => decide_eq_true (SingleByte.toNat_of_decodeAscii hdecode c hc)
  | _ => exact fun _ _ => rfl

end Encoding

end EditBlocks
