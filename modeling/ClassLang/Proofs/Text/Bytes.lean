import Mathlib.Data.String.Basic

/-!
The order of texts. Texts are put in order character by character, by their code points. The bytes
that a text is stored as put it in the same order: where two characters differ, so do their bytes
before either of them ends, and the greater character has the greater byte there.
-/

namespace ClassLang.Text

/-- The bytes of a text. -/
def bytes (s : String) : List Nat := s.toUTF8.data.toList.map UInt8.toNat

/-- The code points of a text. -/
def codePoints (s : String) : List Nat := s.toList.map Char.toNat

/-- The bytes of a code point. All but the first hold six bits. -/
def encode (n : Nat) : List Nat :=
  if n ≤ 0x7f then [n]
  else if n ≤ 0x7ff then [n / 64 + 0xc0, n % 64 + 0x80]
  else if n ≤ 0xffff then [n / 4096 + 0xe0, n / 64 % 64 + 0x80, n % 64 + 0x80]
  else [n / 262144 + 0xf0, n / 4096 % 64 + 0x80, n / 64 % 64 + 0x80, n % 64 + 0x80]

/-- Holds where the first list has a smaller number than the second at a place that both have, all
before it being equal. -/
def Splits : List Nat → List Nat → Prop
  | x :: xs, y :: ys => x < y ∨ x = y ∧ Splits xs ys
  | _, _ => False

/-! One character -/

theorem toNat_lt (c : Char) : c.toNat < 0x110000 := by
  have hvalid := c.valid
  simp only [UInt32.isValidChar, Nat.isValidChar] at hvalid
  change c.val.toNat < _
  omega

theorem map_toNat_utf8EncodeChar (c : Char) :
    (String.utf8EncodeChar c).map UInt8.toNat = encode c.toNat := by
  have hc := toNat_lt c
  have small {n : Nat} (hn : n < 256) : (UInt8.ofNat n).toNat = n := by
    rw [UInt8.toNat_ofNat']
    exact Nat.mod_eq_of_lt hn
  have hval : c.toNat = c.val.toNat := rfl
  rw [hval] at hc ⊢
  unfold String.utf8EncodeChar encode
  generalize c.val.toNat = n at hc
  simp only []
  -- The first byte has room for all that the others leave of the code point.
  split_ifs with h1 h2 h3
  · rw [List.map_singleton, small (by omega)]
  · have hfirst : n / 64 % 32 = n / 64 := by omega
    simp only [List.map_cons, List.map_nil]
    rw [small (by omega), small (by omega), hfirst]
  · have hfirst : n / 4096 % 16 = n / 4096 := by omega
    simp only [List.map_cons, List.map_nil]
    rw [small (by omega), small (by omega), small (by omega), hfirst]
  · have hfirst : n / 262144 % 8 = n / 262144 := by omega
    simp only [List.map_cons, List.map_nil]
    rw [small (by omega), small (by omega), small (by omega), small (by omega), hfirst]

theorem encode_ne_nil (n : Nat) : encode n ≠ [] := by
  unfold encode
  split_ifs <;> simp

theorem splits_encode {a b : Nat} (h : a < b) (hb : b < 0x110000) :
    Splits (encode a) (encode b) := by
  unfold encode
  split_ifs
  all_goals
    simp only [Splits]
    omega

/-! Texts -/

theorem lt_of_splits {xs ys : List Nat} (h : Splits xs ys) (s t : List Nat) :
    xs ++ s < ys ++ t := by
  induction xs generalizing ys with
  | nil => cases h
  | cons x xs ih =>
    cases ys with
    | nil => cases h
    | cons y ys =>
      obtain hlt | ⟨rfl, hrest⟩ := h
      · exact .rel hlt
      · exact .cons (ih hrest)

theorem bytes_eq_flatMap (s : String) :
    bytes s = s.toList.flatMap fun c => encode c.toNat := by
  have hstored : s.toUTF8 = s.toList.utf8Encode := String.utf8Encode_toList.symm
  rw [bytes, hstored, List.utf8Encode, List.toList_data_toByteArray, List.map_flatMap]
  simp only [map_toNat_utf8EncodeChar]

/-- The bytes of characters are in the order of the characters. -/
theorem flatMap_encode_lt {cs ds : List Char} (h : List.Lex (· < ·) cs ds) :
    (cs.flatMap fun c => encode c.toNat) < ds.flatMap fun c => encode c.toNat := by
  induction h with
  | @nil d ds =>
    rw [List.flatMap_nil, List.flatMap_cons]
    cases hd : encode d.toNat with
    | nil => exact absurd hd (encode_ne_nil _)
    | cons x xs => exact .nil
  | @cons c cs ds _ ih =>
    rw [List.flatMap_cons, List.flatMap_cons]
    exact List.Lex.append_left _ ih _
  | @rel c cs d ds hcd =>
    rw [List.flatMap_cons, List.flatMap_cons]
    exact lt_of_splits (splits_encode hcd (toNat_lt d)) _ _

theorem strictMono_bytes : StrictMono bytes := by
  intro a b hab
  rw [bytes_eq_flatMap, bytes_eq_flatMap]
  exact flatMap_encode_lt hab

theorem map_toNat_lt {cs ds : List Char} (h : List.Lex (· < ·) cs ds) :
    cs.map Char.toNat < ds.map Char.toNat := by
  induction h with
  | nil => exact .nil
  | cons _ ih => exact .cons ih
  | rel hcd => exact .rel hcd

theorem strictMono_codePoints : StrictMono codePoints := fun _ _ hab => map_toNat_lt hab

theorem cmp_bytes (a b : String) : cmp (bytes a) (bytes b) = cmp a b := by
  have lt_iff (a b : String) : bytes a < bytes b ↔ a < b := strictMono_bytes.lt_iff_lt
  simp only [cmp, cmpUsing, lt_iff]

theorem cmp_codePoints (a b : String) : cmp (codePoints a) (codePoints b) = cmp a b := by
  have lt_iff (a b : String) : codePoints a < codePoints b ↔ a < b :=
    strictMono_codePoints.lt_iff_lt
  simp only [cmp, cmpUsing, lt_iff]

end ClassLang.Text
