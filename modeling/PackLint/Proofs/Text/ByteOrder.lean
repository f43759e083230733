import Mathlib.Data.List.Lex
import Mathlib.Data.String.Basic

/-! # The order of UTF-8

    Texts in the order of their UTF-8 bytes are texts in the order of their
    characters: the first byte of a character tells how many bytes follow, more bytes
    follow for a larger character, and what follows are its digits to the base 64. -/

namespace PackLint.Text

/-- The bytes of a text. -/
def utf8 (s : String) : List UInt8 :=
  s.toUTF8.data.toList

/-- The bytes of a text are those of its characters. -/
theorem utf8_eq_flatMap (s : String) : utf8 s = s.toList.flatMap String.utf8EncodeChar := by
  have h : s.toUTF8 = (s.toList.flatMap String.utf8EncodeChar).toByteArray := by
    show s.toByteArray = _
    rw [← String.utf8Encode_toList]
    rfl
  rw [utf8, h, List.toList_data_toByteArray]

/-! ## The bytes of a character -/

/-- The number of bytes that follow the first byte of a character. -/
def followers (n : Nat) : Nat :=
  if n ≤ 0x7f then 0 else if n ≤ 0x7ff then 1 else if n ≤ 0xffff then 2 else 3

/-- The least first byte of a character with this number of following bytes. -/
def leadByte : Nat → Nat
  | 0 => 0
  | 1 => 0xc0
  | 2 => 0xe0
  | _ => 0xf0

/-- The last digits of a number to the base 64, as many as this, marked as bytes that
    follow. -/
def digits (n : Nat) : (count : Nat) → List UInt8
  | 0 => []
  | k + 1 => UInt8.ofNat (n / 64 ^ k % 64 + 0x80) :: digits n k

/-- Code points are below the limit of Unicode. -/
theorem toNat_val_lt (c : Char) : c.val.toNat < 0x110000 := by
  rcases c.valid with h | ⟨_, h⟩
  · exact Nat.lt_trans h (by decide)
  · exact h

/-- A character is written as its first byte and then the digits that follow. -/
theorem utf8EncodeChar_eq (c : Char) :
    String.utf8EncodeChar c
      = UInt8.ofNat (leadByte (followers c.val.toNat)
            + c.val.toNat / 64 ^ followers c.val.toNat)
          :: digits c.val.toNat (followers c.val.toNat) := by
  have hc := toNat_val_lt c
  simp only [String.utf8EncodeChar]
  generalize c.val.toNat = n at hc ⊢
  by_cases h1 : n ≤ 0x7f
  · simp [followers, h1, leadByte, digits]
  · by_cases h2 : n ≤ 0x7ff
    · have hn : n / 64 % 32 = n / 64 := Nat.mod_eq_of_lt (by omega)
      simp [followers, h1, h2, leadByte, digits, hn, Nat.add_comm]
    · by_cases h3 : n ≤ 0xffff
      · have hn : n / 4096 % 16 = n / 4096 := Nat.mod_eq_of_lt (by omega)
        simp [followers, h1, h2, h3, leadByte, digits, hn, Nat.add_comm]
      · have hn : n / 262144 % 8 = n / 262144 := Nat.mod_eq_of_lt (by omega)
        simp [followers, h1, h2, h3, leadByte, digits, hn, Nat.add_comm]

/-- The first byte decides the order, and where it is the same, the others do. -/
theorem ofNat_cons_lt {m n : Nat} (hn : n < 256) {xs ys : List UInt8}
    (h : m < n ∨ m = n ∧ xs < ys) : UInt8.ofNat m :: xs < UInt8.ofNat n :: ys := by
  rcases h with h | ⟨rfl, h⟩
  · refine List.cons_lt_cons_iff.mpr (.inl ?_)
    rw [UInt8.lt_iff_toNat_lt, UInt8.toNat_ofNat_of_lt' (Nat.lt_trans h hn),
      UInt8.toNat_ofNat_of_lt' hn]
    exact h
  · exact List.cons_lt_cons_iff.mpr (.inr ⟨rfl, h⟩)

/-- Of two numbers with the same front digits, the smaller one has the smaller last
    digits. -/
theorem digits_append_lt {m n : Nat} (h : m < n) {k : Nat} (hk : m / 64 ^ k = n / 64 ^ k)
    (xs ys : List UInt8) : digits m k ++ xs < digits n k ++ ys := by
  induction k with
  | zero =>
      rw [Nat.pow_zero, Nat.div_one, Nat.div_one] at hk
      exact absurd hk (Nat.ne_of_lt h)
  | succ k ih =>
      rw [Nat.pow_succ, ← Nat.div_div_eq_div_mul, ← Nat.div_div_eq_div_mul] at hk
      have hle : m / 64 ^ k ≤ n / 64 ^ k := Nat.div_le_div_right (Nat.le_of_lt h)
      refine ofNat_cons_lt (by omega) ?_
      -- the first of the digits decides, unless it is the same
      by_cases hdigit : m / 64 ^ k = n / 64 ^ k
      · exact .inr ⟨by rw [hdigit], ih hdigit⟩
      · exact .inl (by omega)

/-- The four lengths of a character, by its code point. -/
theorem followers_cases (n : Nat) :
    (n < 0x80 ∧ followers n = 0) ∨ (0x80 ≤ n ∧ n < 0x800 ∧ followers n = 1)
      ∨ (0x800 ≤ n ∧ n < 0x10000 ∧ followers n = 2) ∨ (0x10000 ≤ n ∧ followers n = 3) := by
  simp only [followers]
  by_cases h1 : n ≤ 0x7f
  · exact .inl ⟨by omega, if_pos h1⟩
  · by_cases h2 : n ≤ 0x7ff
    · exact .inr (.inl ⟨by omega, by omega, by rw [if_neg h1, if_pos h2]⟩)
    · by_cases h3 : n ≤ 0xffff
      · exact .inr (.inr (.inl ⟨by omega, by omega, by rw [if_neg h1, if_neg h2, if_pos h3]⟩))
      · exact .inr (.inr (.inr ⟨by omega, by rw [if_neg h1, if_neg h2, if_neg h3]⟩))

/-- Of two numbers with different counts of following bytes, the smaller one has the
    smaller first byte. -/
theorem leadByte_add_lt {m n : Nat} (hn : n < 0x110000) (h : m < n)
    (hne : followers m ≠ followers n) :
    leadByte (followers m) + m / 64 ^ followers m
      < leadByte (followers n) + n / 64 ^ followers n := by
  rcases followers_cases m with ⟨_, hk⟩ | ⟨_, _, hk⟩ | ⟨_, _, hk⟩ | ⟨_, hk⟩ <;>
    rcases followers_cases n with ⟨_, hl⟩ | ⟨_, _, hl⟩ | ⟨_, _, hl⟩ | ⟨_, hl⟩ <;>
    rw [hk, hl] at hne ⊢ <;> simp only [leadByte] <;> omega

/-- The first byte of a character is a byte. -/
theorem leadByte_add_lt_256 {n : Nat} (hn : n < 0x110000) :
    leadByte (followers n) + n / 64 ^ followers n < 256 := by
  rcases followers_cases n with ⟨_, h⟩ | ⟨_, _, h⟩ | ⟨_, _, h⟩ | ⟨_, h⟩ <;>
    rw [h] <;> simp only [leadByte] <;> omega

/-- A smaller character has smaller bytes, whatever follows. -/
theorem utf8EncodeChar_append_lt {c d : Char} (h : c < d) (xs ys : List UInt8) :
    String.utf8EncodeChar c ++ xs < String.utf8EncodeChar d ++ ys := by
  have hd := toNat_val_lt d
  have hlt : c.val.toNat < d.val.toNat := h
  rw [utf8EncodeChar_eq, utf8EncodeChar_eq]
  refine ofNat_cons_lt (leadByte_add_lt_256 hd) ?_
  by_cases hsame : followers c.val.toNat = followers d.val.toNat
  · rw [hsame]
    have hle := Nat.div_le_div_right (c := 64 ^ followers d.val.toNat) (Nat.le_of_lt hlt)
    by_cases hfront : c.val.toNat / 64 ^ followers d.val.toNat
        = d.val.toNat / 64 ^ followers d.val.toNat
    · exact .inr ⟨by rw [hfront], digits_append_lt hlt hfront xs ys⟩
    · exact .inl (by omega)
  · exact .inl (leadByte_add_lt hd hlt hsame)

/-! ## The bytes of a text -/

/-- Texts that are in order have bytes that are in order. -/
theorem flatMap_utf8EncodeChar_lt {cs ds : List Char} (h : cs < ds) :
    cs.flatMap String.utf8EncodeChar < ds.flatMap String.utf8EncodeChar := by
  induction h with
  | @nil d ds =>
      rw [List.flatMap_nil, List.flatMap_cons]
      obtain ⟨b, bs, hbytes⟩ := List.exists_cons_of_ne_nil (String.utf8EncodeChar_ne_nil (c := d))
      rw [hbytes]
      exact List.nil_lt_cons b _
  | cons _ ih => exact List.append_left_lt ih
  | rel h => exact utf8EncodeChar_append_lt h _ _

/-- The order of texts is the order of their bytes. -/
theorem utf8_lt_iff (s t : String) : utf8 s < utf8 t ↔ s < t := by
  rw [utf8_eq_flatMap, utf8_eq_flatMap, String.lt_iff]
  constructor
  · intro h
    rcases lt_trichotomy s.toList t.toList with hlt | heq | hgt
    · exact hlt
    · exact absurd h (by rw [heq]; exact List.lt_irrefl _)
    · exact absurd (flatMap_utf8EncodeChar_lt hgt) (List.lt_asymm h)
  · exact flatMap_utf8EncodeChar_lt

/-- The same for texts that may be equal. -/
theorem utf8_le_iff (s t : String) : utf8 s ≤ utf8 t ↔ s ≤ t := by
  show ¬utf8 t < utf8 s ↔ s ≤ t
  rw [utf8_lt_iff, not_lt]

end PackLint.Text
