import Workplan.SortedMap

/-! The order of texts is the order of their bytes: comparing two strings character by character gives the
same as comparing their UTF-8 encodings byte by byte (`Text.lt_iff_bytes_lt`). An encoding of more bytes has
a larger first byte, and among encodings of one length the bytes are the digits of the character in base 64,
the most significant first. -/
namespace Workplan.Text
set_option autoImplicit false

/-- The bytes of a string. -/
def bytes (s : String) : List UInt8 := s.toByteArray.data.toList

theorem bytes_eq (s : String) : bytes s = s.toList.flatMap String.utf8EncodeChar := by
  rw [bytes, ← String.utf8Encode_toList, List.utf8Encode, List.toList_data_toByteArray]

/-! ## Characters -/

variable {l r : List UInt8}

theorem byte_lt {a b : Nat} (hb : b < 256) (h : a < b) : UInt8.ofNat a < UInt8.ofNat b := by
  have ha : a < 256 := by omega
  rw [UInt8.lt_iff_toNat_lt, UInt8.toNat_ofNat_of_lt' ha, UInt8.toNat_ofNat_of_lt' hb]
  exact h

theorem cons_byte_lt {a b : Nat} (hb : b < 256) (h : a < b ∨ a = b ∧ l < r) :
    UInt8.ofNat a :: l < UInt8.ofNat b :: r := by
  rw [List.cons_lt_cons_iff]
  rcases h with h | ⟨rfl, h⟩
  · exact .inl (byte_lt hb h)
  · exact .inr ⟨rfl, h⟩

theorem cons_digit_lt {a b mark : Nat} (hb : b + mark < 256) (h : a < b ∨ a = b ∧ l < r) :
    UInt8.ofNat (a + mark) :: l < UInt8.ofNat (b + mark) :: r :=
  cons_byte_lt hb (h.imp (fun hlt => by omega) (And.imp_left fun he => by omega))

/-- The encoding of a smaller character is smaller, whatever follows. -/
theorem utf8EncodeChar_append_lt {c d : Char} (h : c < d) :
    String.utf8EncodeChar c ++ l < String.utf8EncodeChar d ++ r := by
  have hlt : c.val.toNat < d.val.toNat := h
  have hmax : d.val.toNat < 0x110000 := by
    have := d.valid
    simp only [UInt32.isValidChar, Nat.isValidChar] at this
    omega
  unfold String.utf8EncodeChar
  generalize c.val.toNat = v at hlt
  generalize d.val.toNat = w at hlt hmax
  dsimp only
  -- by the lengths of the two encodings: the second is never the shorter one
  split
  · split
    · exact cons_byte_lt (by omega) (.inl hlt)
    · split
      · exact cons_byte_lt (by omega) (.inl (by omega))
      · split <;> exact cons_byte_lt (by omega) (.inl (by omega))
  · rw [if_neg (by omega : ¬w ≤ 0x7f)]
    split
    · split
      · apply cons_digit_lt (by omega)
        rcases (by omega : v / 64 < w / 64 ∨ v / 64 = w / 64 ∧ v % 64 < w % 64) with h1 | ⟨h1, h0⟩
        · exact .inl (by omega)
        · exact .inr ⟨by omega, cons_digit_lt (by omega) (.inl h0)⟩
      · split <;> exact cons_byte_lt (by omega) (.inl (by omega))
    · rw [if_neg (by omega : ¬w ≤ 0x7ff)]
      split
      · split
        · apply cons_digit_lt (by omega)
          rcases (by omega : v / 4096 < w / 4096 ∨ v / 4096 = w / 4096 ∧ v / 64 < w / 64 ∨
              v / 4096 = w / 4096 ∧ v / 64 = w / 64 ∧ v % 64 < w % 64) with h2 | ⟨h2, h1⟩ | ⟨h2, h1, h0⟩
          · exact .inl (by omega)
          · exact .inr ⟨by omega, cons_digit_lt (by omega) (.inl (by omega))⟩
          · exact .inr ⟨by omega, cons_digit_lt (by omega) (.inr ⟨by omega,
              cons_digit_lt (by omega) (.inl h0)⟩)⟩
        · exact cons_byte_lt (by omega) (.inl (by omega))
      · rw [if_neg (by omega : ¬w ≤ 0xffff)]
        apply cons_digit_lt (by omega)
        rcases (by omega : v / 262144 < w / 262144 ∨ v / 262144 = w / 262144 ∧ v / 4096 < w / 4096 ∨
            v / 4096 = w / 4096 ∧ v / 64 < w / 64 ∨ v / 64 = w / 64 ∧ v % 64 < w % 64) with
          h3 | ⟨h3, h2⟩ | ⟨h2, h1⟩ | ⟨h1, h0⟩
        · exact .inl (by omega)
        · exact .inr ⟨by omega, cons_digit_lt (by omega) (.inl (by omega))⟩
        · exact .inr ⟨by omega, cons_digit_lt (by omega) (.inr ⟨by omega,
            cons_digit_lt (by omega) (.inl (by omega))⟩)⟩
        · exact .inr ⟨by omega, cons_digit_lt (by omega) (.inr ⟨by omega, cons_digit_lt (by omega)
            (.inr ⟨by omega, cons_digit_lt (by omega) (.inl h0)⟩)⟩)⟩

/-! ## Strings -/

theorem append_lt_append (b : List UInt8) (h : l < r) : b ++ l < b ++ r := by
  induction b with
  | nil => exact h
  | cons a b ih => exact List.cons_lt_cons_iff.2 (.inr ⟨rfl, ih⟩)

theorem flatMap_lt {cs ds : List Char} (h : cs < ds) :
    cs.flatMap String.utf8EncodeChar < ds.flatMap String.utf8EncodeChar := by
  induction h with
  | @nil d ds =>
    cases he : String.utf8EncodeChar d with
    | nil => exact absurd he String.utf8EncodeChar_ne_nil
    | cons a b =>
      rw [List.flatMap_nil, List.flatMap_cons, he]
      exact List.nil_lt_cons _ _
  | cons _ ih => exact append_lt_append _ ih
  | rel hlt => exact utf8EncodeChar_append_lt hlt

theorem lt_iff_bytes_lt {s t : String} : s < t ↔ bytes s < bytes t := by
  have hmono : ∀ {s t : String}, s < t → bytes s < bytes t := fun {s t} h => by
    rw [bytes_eq, bytes_eq]
    exact flatMap_lt h
  refine ⟨hmono, fun h => Decidable.byContradiction fun hlt => ?_⟩
  by_cases he : s = t
  · rw [he] at h
    exact List.lt_irrefl _ h
  · exact List.lt_asymm h (hmono (KeyOrder.connected hlt he))

theorem le_iff_bytes_le {s t : String} : s ≤ t ↔ bytes s ≤ bytes t := not_congr lt_iff_bytes_lt

end Workplan.Text
