import LayeredCache.Decimal.Integer
import Mathlib.Data.List.Induction
import Mathlib.Tactic.Common
import Mathlib.Tactic.NormNum.Basic

/-!
# Texts of integers

A text is read as an integer of a width exactly if it is an optional sign and digits that denote an integer in the
range of the width (`readSigned_eq_ok`). Otherwise it has a leftmost fault, and the reader reports that one
(`readSigned_eq_error`). The decimal text of an integer in range is read back (`readSigned_toString`).
-/

namespace LayeredCache.Decimal

/-! ## Signs and digits -/

/-- The side of zero on which a number lies. -/
inductive Sign where
  | plus
  | minus

namespace Sign

/-- The number of a magnitude. -/
def apply : Sign → Nat → Int
  | .plus, n => n
  | .minus, n => -n

/-- The fault of a number that is out of range. -/
def overflow : Sign → IntegerFault
  | .plus => .tooLarge
  | .minus => .tooSmall

/-- The largest magnitude of a number of a width. -/
def limit (bits : Nat) : Sign → Nat
  | .plus => 2 ^ (bits - 1) - 1
  | .minus => 2 ^ (bits - 1)

end Sign

/-- A text as a sign and what follows it. A plus sign can be left out. -/
inductive Signed : List Char → Sign → List Char → Prop where
  | plus (body) : Signed ('+' :: body) .plus body
  | minus (body) : Signed ('-' :: body) .minus body
  | bare {body} : body.head? ≠ some '+' → body.head? ≠ some '-' → Signed body .plus body

/-- The text is an optional sign and one or more digits, and denotes an integer. -/
def Denotes (cs : List Char) (n : Int) : Prop :=
  ∃ sign digits, Signed cs sign digits ∧ digits ≠ [] ∧ (∀ c ∈ digits, c.isDigit = true) ∧
    n = sign.apply (Nat.ofDigitChars 10 digits 0)

/-- The integer is one of a width in two's complement. -/
def InRange (bits : Nat) (n : Int) : Prop :=
  -2 ^ (bits - 1) ≤ n ∧ n < 2 ^ (bits - 1)

instance (bits : Nat) (n : Int) : Decidable (InRange bits n) :=
  inferInstanceAs (Decidable (_ ∧ _))

/-- Behind a sign, the digits denote an integer in range. -/
structure Fits (bits : Nat) (sign : Sign) (digits : List Char) : Prop where
  isDigit : ∀ c ∈ digits, c.isDigit = true
  inRange : InRange bits (sign.apply (Nat.ofDigitChars 10 digits 0))

/-- The leftmost thing that keeps a text from being an integer of a width: there are no digits, or the digits that
come before it denote an integer in range and it is no digit, or a digit that leads out of the range. -/
inductive LeftmostFault (bits : Nat) (cs : List Char) : IntegerFault → Prop where
  | empty : cs = [] → LeftmostFault bits cs .empty
  | loneSign {sign} : cs ≠ [] → Signed cs sign [] → LeftmostFault bits cs .invalidDigit
  | noDigit {sign digits c rest} : Signed cs sign (digits ++ c :: rest) → Fits bits sign digits →
    c.isDigit = false → LeftmostFault bits cs .invalidDigit
  | outOfRange {sign digits c rest} : Signed cs sign (digits ++ c :: rest) → Fits bits sign digits →
    c.isDigit = true → ¬InRange bits (sign.apply (Nat.ofDigitChars 10 (digits ++ [c]) 0)) →
    LeftmostFault bits cs sign.overflow

variable {bits limit acc : Nat} {overflow fault : IntegerFault} {sign : Sign} {cs body digits : List Char} {c : Char}

lemma inRange_apply {n : Nat} : InRange bits (sign.apply n) ↔ n ≤ sign.limit bits := by
  have hpos : 0 < 2 ^ (bits - 1) := Nat.two_pow_pos _
  have hcast : (2 : Int) ^ (bits - 1) = (2 ^ (bits - 1) : Nat) := by norm_cast
  cases sign with
  | plus =>
    rw [InRange, hcast, Sign.apply, Sign.limit]
    omega
  | minus =>
    rw [InRange, hcast, Sign.apply, Sign.limit]
    omega

lemma fits_nil (bits : Nat) (sign : Sign) : Fits bits sign [] :=
  ⟨by simp, inRange_apply.2 (Nat.zero_le _)⟩

lemma fits_concat : Fits bits sign (digits ++ [c]) ↔ (∀ d ∈ digits, d.isDigit = true) ∧ c.isDigit = true ∧
    InRange bits (sign.apply (Nat.ofDigitChars 10 (digits ++ [c]) 0)) := by
  constructor
  · intro h
    have hdigits := List.forall_mem_append.1 h.isDigit
    exact ⟨hdigits.1, hdigits.2 c (List.mem_singleton_self c), h.inRange⟩
  · rintro ⟨hdigits, hc, hrange⟩
    exact ⟨List.forall_mem_append.2 ⟨hdigits, by simpa using hc⟩, hrange⟩

/-- Every text has a sign, if only one that is left out. -/
lemma exists_signed (cs : List Char) : ∃ sign body, Signed cs sign body := by
  by_cases hplus : cs.head? = some '+'
  · obtain ⟨body, rfl⟩ := List.head?_eq_some_iff.1 hplus
    exact ⟨_, _, .plus body⟩
  · by_cases hminus : cs.head? = some '-'
    · obtain ⟨body, rfl⟩ := List.head?_eq_some_iff.1 hminus
      exact ⟨_, _, .minus body⟩
    · exact ⟨_, _, .bare hplus hminus⟩

/-- By induction on the text from its end: what follows a sign is digits of an integer in range, or something in it is
the first that is not. -/
lemma fits_or_stops (bits : Nat) (sign : Sign) (body : List Char) :
    Fits bits sign body ∨ ∃ digits c rest, body = digits ++ c :: rest ∧ Fits bits sign digits ∧
      ¬Fits bits sign (digits ++ [c]) := by
  induction body using List.reverseRecOn with
  | nil => exact .inl (fits_nil bits sign)
  | append_singleton body c ih =>
    rcases ih with hfits | ⟨digits, d, rest, rfl, hfits, hstops⟩
    · by_cases hlast : Fits bits sign (body ++ [c])
      · exact .inl hlast
      · exact .inr ⟨body, c, [], rfl, hfits, hlast⟩
    · exact .inr ⟨digits, d, rest ++ [c], by simp, hfits, hstops⟩

/-- A text is that of an integer in range, or it has a leftmost fault. -/
lemma fits_or_fault (bits : Nat) (cs : List Char) :
    (∃ sign digits, Signed cs sign digits ∧ digits ≠ [] ∧ Fits bits sign digits) ∨
      ∃ fault, LeftmostFault bits cs fault := by
  obtain ⟨sign, body, hsigned⟩ := exists_signed cs
  by_cases hcs : cs = []
  · exact .inr ⟨_, .empty hcs⟩
  by_cases hbody : body = []
  · subst hbody
    exact .inr ⟨_, .loneSign hcs hsigned⟩
  rcases fits_or_stops bits sign body with hfits | ⟨digits, c, rest, rfl, hfits, hstops⟩
  · exact .inl ⟨sign, body, hsigned, hbody, hfits⟩
  · by_cases hc : c.isDigit = true
    · have hrange : ¬InRange bits (sign.apply (Nat.ofDigitChars 10 (digits ++ [c]) 0)) := fun hrange =>
        hstops (fits_concat.2 ⟨hfits.isDigit, hc, hrange⟩)
      exact .inr ⟨_, .outOfRange hsigned hfits hc hrange⟩
    · exact .inr ⟨_, .noDigit hsigned hfits (Bool.not_eq_true _ ▸ hc)⟩

/-! ## What the scan does -/

/-- Digits up to the limit are scanned as the number that they denote behind the prefix. -/
lemma scanMagnitude_append (hdigits : ∀ c ∈ digits, c.isDigit = true)
    (hle : Nat.ofDigitChars 10 digits acc ≤ limit) (rest : List Char) :
    scanMagnitude limit overflow acc (digits ++ rest) =
      scanMagnitude limit overflow (Nat.ofDigitChars 10 digits acc) rest := by
  induction digits generalizing acc with
  | nil => rfl
  | cons c digits ih =>
    obtain ⟨hc, hrest⟩ := List.forall_mem_cons.1 hdigits
    rw [Nat.ofDigitChars_cons] at hle ⊢
    -- a prefix denotes no more than all of the digits
    have hnext : 10 * acc + digitValue c ≤ limit := by
      rw [Nat.ofDigitChars_eq_ofDigitChars_zero] at hle
      have hshift : 10 * acc + digitValue c ≤ 10 ^ digits.length * (10 * acc + digitValue c) :=
        Nat.le_mul_of_pos_left _ (Nat.pow_pos (by decide))
      exact Nat.le_trans (Nat.le_add_right_of_le hshift) hle
    rw [List.cons_append, scanMagnitude, if_pos hc]
    simp only [hnext, if_true]
    exact ih hrest hle

lemma scanMagnitude_fits (h : Fits bits sign digits) (rest : List Char) :
    scanMagnitude (sign.limit bits) sign.overflow 0 (digits ++ rest) =
      scanMagnitude (sign.limit bits) sign.overflow (Nat.ofDigitChars 10 digits 0) rest :=
  scanMagnitude_append h.isDigit (inRange_apply.1 h.inRange) rest

lemma readSigned_of_signed (h : Signed cs sign body) (hbody : body ≠ []) :
    readSigned bits cs = (scanMagnitude (sign.limit bits) sign.overflow 0 body).map sign.apply := by
  obtain ⟨c, rest, rfl⟩ := List.exists_cons_of_ne_nil hbody
  cases h with
  | plus => rfl
  | minus =>
    show ((scanMagnitude (Sign.minus.limit bits) Sign.minus.overflow 0 (c :: rest)).bind fun n =>
      .ok (n : Int)).map (-·) = _
    cases scanMagnitude (Sign.minus.limit bits) Sign.minus.overflow 0 (c :: rest) <;> rfl
  | bare hplus hminus =>
    -- the text is not empty, and none of the signs comes first
    rw [readSigned]
    · rfl
    all_goals simp_all

lemma readSigned_of_fits (hsigned : Signed cs sign digits) (hdigits : digits ≠ []) (h : Fits bits sign digits) :
    readSigned bits cs = .ok (sign.apply (Nat.ofDigitChars 10 digits 0)) := by
  have hscan := scanMagnitude_fits h []
  rw [List.append_nil] at hscan
  rw [readSigned_of_signed hsigned hdigits, hscan]
  rfl

lemma readSigned_of_fault (h : LeftmostFault bits cs fault) : readSigned bits cs = .error fault := by
  cases h with
  | empty hcs =>
    rw [hcs]
    rfl
  | loneSign hcs hsigned =>
    cases hsigned with
    | plus => rfl
    | minus => rfl
    | bare => exact absurd rfl hcs
  | noDigit hsigned hfits hc =>
    rw [readSigned_of_signed hsigned (by simp), scanMagnitude_fits hfits, scanMagnitude, hc]
    rfl
  | outOfRange hsigned hfits hc hrange =>
    rw [inRange_apply, Nat.ofDigitChars_append, Nat.ofDigitChars_cons, Nat.ofDigitChars_nil] at hrange
    rw [readSigned_of_signed hsigned (by simp), scanMagnitude_fits hfits, scanMagnitude, if_pos hc]
    simp only [digitValue, hrange, if_false]
    rfl

/-! ## What is read -/

/-- The texts of integers in range are read, each as the integer that it denotes. -/
theorem readSigned_eq_ok {n : Int} : readSigned bits cs = .ok n ↔ Denotes cs n ∧ InRange bits n := by
  constructor
  · intro h
    rcases fits_or_fault bits cs with ⟨sign, digits, hsigned, hne, hfits⟩ | ⟨fault, hfault⟩
    · rw [readSigned_of_fits hsigned hne hfits] at h
      rw [← Except.ok.inj h]
      exact ⟨⟨sign, digits, hsigned, hne, hfits.isDigit, rfl⟩, hfits.inRange⟩
    · rw [readSigned_of_fault hfault] at h
      cases h
  · rintro ⟨⟨sign, digits, hsigned, hne, hdigits, rfl⟩, hrange⟩
    exact readSigned_of_fits hsigned hne ⟨hdigits, hrange⟩

/-- For all other texts the leftmost fault is reported. -/
theorem readSigned_eq_error : readSigned bits cs = .error fault ↔ LeftmostFault bits cs fault := by
  refine ⟨fun h => ?_, readSigned_of_fault⟩
  rcases fits_or_fault bits cs with ⟨sign, digits, hsigned, hne, hfits⟩ | ⟨leftmost, hfault⟩
  · rw [readSigned_of_fits hsigned hne hfits] at h
    cases h
  · rw [readSigned_of_fault hfault] at h
    exact Except.error.inj h ▸ hfault

/-! ## Written integers -/

/-- Digits without a sign denote a natural number. -/
lemma signed_digits (hdigits : ∀ c ∈ digits, c.isDigit = true) : Signed digits .plus digits := by
  have hhead {c : Char} (hc : c.isDigit = false) : digits.head? ≠ some c := fun hhead =>
    Bool.false_ne_true (hc.symm.trans (hdigits c (List.mem_of_mem_head? hhead)))
  exact .bare (hhead rfl) (hhead rfl)

lemma isDigit_of_mem_toDigits {n : Nat} : ∀ c ∈ Nat.toDigits 10 n, c.isDigit = true :=
  fun _ hc => Nat.isDigit_of_mem_toDigits (by decide) (by decide) hc

lemma denotes_toString (n : Int) : Denotes (toString n).toList n := by
  cases n with
  | ofNat m =>
    have htext : (toString (Int.ofNat m)).toList = Nat.toDigits 10 m := by
      rw [show toString (Int.ofNat m) = m.repr from rfl, Nat.repr_eq_ofList_toDigits, String.toList_ofList]
    rw [htext]
    refine ⟨.plus, _, signed_digits isDigit_of_mem_toDigits, Nat.toDigits_ne_nil, isDigit_of_mem_toDigits, ?_⟩
    rw [Nat.ofDigitChars_ten_toDigits]
    rfl
  | negSucc m =>
    have htext : (toString (Int.negSucc m)).toList = '-' :: Nat.toDigits 10 (m + 1) := by
      rw [show toString (Int.negSucc m) = "-" ++ (m + 1).repr from rfl, String.toList_append,
        show "-".toList = ['-'] from rfl, Nat.repr_eq_ofList_toDigits, String.toList_ofList]
      rfl
    rw [htext]
    refine ⟨.minus, _, .minus _, Nat.toDigits_ne_nil, isDigit_of_mem_toDigits, ?_⟩
    rw [Nat.ofDigitChars_ten_toDigits]
    rfl

/-- The decimal text of an integer in the range of a width is read as that integer. -/
theorem readSigned_toString {bits : Nat} {n : Int} (hlow : -2 ^ (bits - 1) ≤ n) (hhigh : n < 2 ^ (bits - 1)) :
    readSigned bits (toString n).toList = .ok n :=
  readSigned_eq_ok.2 ⟨denotes_toString n, hlow, hhigh⟩

end LayeredCache.Decimal
