import Mathlib.Data.String.Basic
import SourceEdit.Unicode.Intervals

/-!
# Texts in the order of their bytes

Texts are compared character by character, and their encoding keeps this order: of two texts, the
one with the smaller character where they first differ also has the smaller byte where their
encodings first differ.
-/

namespace SourceEdit.Text

def bytes (text : String) : List UInt8 := text.toUTF8.data.toList

theorem bytes_eq (text : String) : bytes text = text.toList.flatMap String.utf8EncodeChar := by
  have hencode : ∀ cs : List Char,
      bytes (String.ofList cs) = cs.flatMap String.utf8EncodeChar := by
    intro cs
    show (List.utf8Encode cs).data.toList = _
    simp [List.utf8Encode]
  rw [← hencode, String.ofList_toList]

/-! ## Bytes of one character -/

/-- The comparison of the library, with a bound that arithmetic can discharge. -/
theorem ofNat_lt_iff {a b : Nat} (ha : a < 256) (hb : b < 256) :
    UInt8.ofNat a < UInt8.ofNat b ↔ a < b :=
  UInt8.ofNat_lt_iff_lt ha hb

theorem ofNat_eq_iff {a b : Nat} (ha : a < 256) (hb : b < 256) :
    UInt8.ofNat a = UInt8.ofNat b ↔ a = b := by
  rw [← UInt8.toNat_inj, UInt8.toNat_ofNat_of_lt' ha, UInt8.toNat_ofNat_of_lt' hb]

/-- Of two codes cut into groups of six bits, the smaller one has the smaller group where they first
differ. -/
theorem groups_lt {m n : Nat} (h : m < n) :
    m / 262144 < n / 262144 ∨ m / 262144 = n / 262144 ∧
      (m / 4096 % 64 < n / 4096 % 64 ∨ m / 4096 % 64 = n / 4096 % 64 ∧
        (m / 64 % 64 < n / 64 % 64 ∨ m / 64 % 64 = n / 64 % 64 ∧ m % 64 < n % 64)) := by
  have hlast : m / 64 < n / 64 ∨ m / 64 = n / 64 ∧ m % 64 < n % 64 := by omega
  have hlater : m / 64 / 64 < n / 64 / 64 ∨
      m / 64 / 64 = n / 64 / 64 ∧ m / 64 % 64 ≤ n / 64 % 64 := by omega
  omega

/-- Of two characters the smaller one has the smaller encoding, whatever comes behind. -/
theorem utf8EncodeChar_append_lt {c d : Char} (h : c < d) (us vs : List UInt8) :
    String.utf8EncodeChar c ++ us < String.utf8EncodeChar d ++ vs := by
  have hcodes : c.val.toNat < d.val.toNat := h
  have hbound : d.val.toNat ≤ 0x10FFFF := Unicode.toNat_le_lastCode d
  have hgroups := groups_lt hcodes
  unfold String.utf8EncodeChar
  generalize c.val.toNat = m at hcodes hgroups
  generalize d.val.toNat = n at hcodes hgroups hbound
  dsimp only
  -- by the lengths of both encodings: of different lengths, the first byte tells them apart
  split_ifs <;>
    simp (disch := omega) only [List.cons_append, List.nil_append, List.cons_lt_cons_iff,
      ofNat_lt_iff, ofNat_eq_iff, Nat.mod_eq_of_lt, Nat.add_lt_add_iff_right,
      Nat.add_right_cancel_iff] <;>
    omega

/-! ## Bytes of a text -/

theorem flatMap_utf8EncodeChar_lt {cs ds : List Char} (h : cs < ds) :
    cs.flatMap String.utf8EncodeChar < ds.flatMap String.utf8EncodeChar := by
  induction cs generalizing ds with
  | nil =>
      cases ds with
      | nil => exact absurd h (List.lt_irrefl _)
      | cons d ds =>
          rw [List.flatMap_nil, List.flatMap_cons]
          cases henc : String.utf8EncodeChar d with
          | nil => exact absurd henc String.utf8EncodeChar_ne_nil
          | cons u us => exact List.nil_lt_cons _ _
  | cons c cs ih =>
      cases ds with
      | nil => exact absurd h (List.not_lt_nil _)
      | cons d ds =>
          rw [List.flatMap_cons, List.flatMap_cons]
          rcases List.cons_lt_cons_iff.mp h with hlt | ⟨rfl, hrest⟩
          · exact utf8EncodeChar_append_lt hlt _ _
          · exact List.append_left_lt (ih hrest)

/-- **The order of texts is the order of their bytes.** -/
theorem lt_iff_bytes_lt (s t : String) : s < t ↔ bytes s < bytes t := by
  have hmono : ∀ s t : String, s < t → bytes s < bytes t := by
    intro s t hlt
    rw [bytes_eq, bytes_eq]
    exact flatMap_utf8EncodeChar_lt (String.lt_iff_toList_lt.mp hlt)
  constructor
  · exact hmono s t
  · intro hbytes
    rcases lt_trichotomy s t with hlt | rfl | hgt
    · exact hlt
    · exact absurd hbytes (List.lt_irrefl _)
    · exact absurd hbytes (List.lt_asymm (hmono t s hgt))

end SourceEdit.Text
