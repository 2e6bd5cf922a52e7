import Mathlib.Data.String.Basic
import Mathlib.Tactic.Common

/-!
# Texts in the order of their octets

Texts are compared by their characters. Comparing the octets of their UTF-8 forms gives the same order: a longer form
has a larger first octet, and two forms of one length have the bits of their characters from the highest to the lowest.
-/

namespace LayeredCache.Text

/-- The octets of a text. -/
def octets (s : String) : List UInt8 :=
  s.toByteArray.data.toList

lemma octets_eq_flatMap (s : String) : octets s = s.toList.flatMap String.utf8EncodeChar := by
  conv_lhs => rw [octets, ← String.ofList_toList (s := s), String.toByteArray_ofList, List.utf8Encode]
  rw [List.toList_data_toByteArray]

/-! ## Forms of characters -/

/-- An octet for the highest bits of a number, after a mark. -/
def first (width mark n : Nat) : UInt8 :=
  UInt8.ofNat (n % width + mark)

/-- Then `k` octets for six bits each. -/
def form (width mark : Nat) : Nat → Nat → List UInt8
  | 0, n => [first width mark n]
  | k + 1, n => form width mark k (n / 64) ++ [first 64 128 n]

variable {width mark k m n : Nat}

lemma cons_lt_cons {a b : Nat} (h : a < b) (hb : b < 256) (s t : List UInt8) :
    UInt8.ofNat a :: s < UInt8.ofNat b :: t := by
  refine List.cons_lt_cons_iff.2 (.inl ?_)
  rw [UInt8.lt_iff_toNat_lt, UInt8.toNat_ofNat', UInt8.toNat_ofNat']
  omega

/-- The bits decide from the highest to the lowest. -/
lemma form_append_lt (hmark : width + mark ≤ 256) (h : m < n) (hn : n < width * 64 ^ k) (s t : List UInt8) :
    form width mark k m ++ s < form width mark k n ++ t := by
  induction k generalizing m n s t with
  | zero =>
    have hn : n < width := by simpa using hn
    rw [form, form, first, first, Nat.mod_eq_of_lt (h.trans hn), Nat.mod_eq_of_lt hn]
    exact cons_lt_cons (by omega) (by omega) s t
  | succ k ih =>
    rw [form, form, List.append_assoc, List.append_assoc]
    rcases Nat.lt_or_eq_of_le (Nat.div_le_div_right (c := 64) h.le) with habove | habove
    · refine ih habove (Nat.div_lt_of_lt_mul ?_) _ _
      rw [Nat.pow_succ, ← Nat.mul_assoc] at hn
      rwa [Nat.mul_comm]
    · rw [habove]
      exact List.append_left_lt (cons_lt_cons (by omega) (by omega) s t)

/-- The form of a smaller character comes first, whatever follows. -/
lemma utf8EncodeChar_append_lt {c d : Char} (h : c < d) (s t : List UInt8) :
    String.utf8EncodeChar c ++ s < String.utf8EncodeChar d ++ t := by
  have hlt : c.val.toNat < d.val.toNat := h
  have hbound : d.val.toNat < 0x110000 := by
    have hvalid := d.valid
    simp only [UInt32.isValidChar, Nat.isValidChar] at hvalid
    omega
  unfold String.utf8EncodeChar
  generalize c.val.toNat = m at hlt ⊢
  generalize d.val.toNat = n at hlt hbound ⊢
  have hfour (n : Nat) : n / 4096 = n / 64 / 64 := by omega
  have hsix (n : Nat) : n / 262144 = n / 64 / 64 / 64 := by omega
  simp only [hfour, hsix]
  -- forms of two lengths differ in the first octet
  split_ifs <;> first
    | omega
    | exact cons_lt_cons (by omega) (by omega) _ _
    | skip
  · exact @form_append_lt 32 192 1 m n (by decide) hlt (by omega) s t
  · exact @form_append_lt 16 224 2 m n (by decide) hlt (by omega) s t
  · exact @form_append_lt 8 240 3 m n (by decide) hlt (by omega) s t

/-! ## Forms of texts -/

lemma flatMap_utf8EncodeChar_lt {cs ds : List Char} (h : cs < ds) :
    cs.flatMap String.utf8EncodeChar < ds.flatMap String.utf8EncodeChar := by
  induction h with
  | @nil d ds =>
    obtain ⟨octet, rest, hform⟩ := List.exists_cons_of_ne_nil (String.utf8EncodeChar_ne_nil (c := d))
    rw [List.flatMap_cons, List.flatMap_nil, hform]
    exact List.nil_lt_cons ..
  | cons _ ih => exact List.append_left_lt ih
  | rel hlt => exact utf8EncodeChar_append_lt hlt _ _

/-- Texts and their octets are in the same order. -/
theorem octets_lt_octets {a b : String} : octets a < octets b ↔ a < b := by
  have hlt {a b : String} (h : a < b) : octets a < octets b := by
    rw [octets_eq_flatMap, octets_eq_flatMap]
    exact flatMap_utf8EncodeChar_lt h
  refine ⟨fun h => ?_, hlt⟩
  rcases lt_trichotomy a b with hab | rfl | hba
  · exact hab
  · exact absurd h (List.lt_irrefl _)
  · exact absurd h (List.lt_asymm (hlt hba))

end LayeredCache.Text
