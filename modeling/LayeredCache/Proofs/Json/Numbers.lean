import LayeredCache.Proofs.Decimal.Range
import LayeredCache.Proofs.Json.Strings

/-!
# Reading written numbers

The reader of a number stops in front of the first piece that cannot continue one, and what it gives
depends on nothing behind that place (`local_readNumber`), so a number that is read when it stands alone is
read inside any text. An integer of 64 bits is read back exactly.
-/

namespace LayeredCache.Json

open Text (Piece)

/-! ## Where a number ends -/

/-- A piece that can stand inside a number or continue it. -/
def continuesNumber : Piece → Bool
  | .char '.' => true
  | .char 'e' => true
  | .char 'E' => true
  | p => (digit? p).isSome

/-- A text that does not continue a number in front of it. -/
def EndsNumber : List Piece → Prop
  | [] => True
  | p :: _ => continuesNumber p = false

lemma EndsNumber.head {p : Piece} {ps : List Piece} (h : EndsNumber (p :: ps)) :
    p ≠ .char '.' ∧ p ≠ .char 'e' ∧ p ≠ .char 'E' ∧ digit? p = none := by
  have hp : continuesNumber p = false := h
  refine ⟨?_, ?_, ?_, ?_⟩
  · rintro rfl; simp [continuesNumber] at hp
  · rintro rfl; simp [continuesNumber] at hp
  · rintro rfl; simp [continuesNumber] at hp
  · unfold continuesNumber at hp
    split at hp
    all_goals simp_all

/-- Digits that stand together are read together. -/
lemma spanDigits_append {rest : List Piece} (hrest : EndsNumber rest) (ps : List Piece) :
    spanDigits (ps ++ rest) = ((spanDigits ps).1, (spanDigits ps).2 ++ rest) := by
  induction ps with
  | nil =>
    cases rest with
    | nil => rfl
    | cons p rest => simp [spanDigits, hrest.head.2.2.2]
  | cons p ps ih =>
    simp only [List.cons_append, spanDigits]
    cases digit? p with
    | none => rfl
    | some d => simp only [ih]

lemma spanDigits_suffix (ps : List Piece) : (spanDigits ps).2 <:+ ps := by
  induction ps with
  | nil => exact List.suffix_refl []
  | cons p ps ih =>
    simp only [spanDigits]
    cases digit? p with
    | none => exact List.suffix_refl _
    | some d => exact ih.trans (List.suffix_cons p ps)

/-- What the digits of an exponent leave, whether they end or go past the limit. -/
private def behindExponent : Except (List Piece) (Nat × List Piece) → List Piece
  | .ok (_, left) => left
  | .error left => left

private lemma readExponentDigits_suffix (ps : List Piece) :
    ∀ n, behindExponent (readExponentDigits n ps) <:+ ps := by
  induction ps with
  | nil => exact fun n => List.suffix_refl []
  | cons p ps ih =>
    intro n
    simp only [readExponentDigits]
    cases digit? p with
    | none => exact List.suffix_refl _
    | some d =>
      by_cases hlimit : exponentLimit < 10 * n + d
      · simp only [if_pos hlimit]
        exact List.suffix_cons p ps
      · simp only [if_neg hlimit]
        exact (ih _).trans (List.suffix_cons p ps)

/-- The digits of an exponent end where they end alone, or go past the limit at the same place. -/
lemma readExponentDigits_append {rest : List Piece} (hrest : EndsNumber rest) (ps : List Piece) :
    ∀ n, readExponentDigits n (ps ++ rest) =
      match readExponentDigits n ps with
      | .ok (k, left) => .ok (k, left ++ rest)
      | .error left => .error (left ++ rest) := by
  induction ps with
  | nil =>
    intro n
    cases rest with
    | nil => rfl
    | cons p rest => simp [readExponentDigits, hrest.head.2.2.2]
  | cons p ps ih =>
    intro n
    simp only [List.cons_append, readExponentDigits]
    cases digit? p with
    | none => rfl
    | some d =>
      by_cases hlimit : exponentLimit < 10 * n + d
      · simp only [if_pos hlimit]
      · simp only [if_neg hlimit, ih]

/-- A reader that leaves a part of the text unread, and whose answer does not depend on what follows the
text, as long as that cannot continue a number. -/
def Local (reader : Reader Json) : Prop :=
  ∀ ⦃ps v left⦄, reader ps = .ok (v, left) →
    left <:+ ps ∧ ∀ rest, EndsNumber rest → reader (ps ++ rest) = .ok (v, left ++ rest)

/-- A reader that takes one piece and leaves the rest to a local one. -/
private lemma Local.cons {reader : Reader Json} (hlocal : Local reader) (p : Piece) {ps left : List Piece}
    {v : Json} (h : reader ps = .ok (v, left)) :
    left <:+ p :: ps ∧ ∀ rest, EndsNumber rest → reader (ps ++ rest) = .ok (v, left ++ rest) := by
  obtain ⟨hleft, hmore⟩ := hlocal h
  exact ⟨hleft.trans (List.suffix_cons p ps), hmore⟩

private lemma local_floatOf (negative : Bool) (d : Decimal) : Local (floatOf negative d) := by
  intro ps v left h
  unfold floatOf at h ⊢
  cases hvalue : d.toBinaryStepwise with
  | nan => simp [hvalue] at h
  | infinite _ => simp [hvalue] at h
  | finite _ m e =>
    simp only [hvalue, Except.ok.injEq, Prod.mk.injEq] at h ⊢
    obtain ⟨rfl, rfl⟩ := h
    exact ⟨List.suffix_refl _, fun rest _ => ⟨rfl, rfl⟩⟩

/-- The part of `readExponent` behind the sign of the exponent. -/
def readPower (negative : Bool) (coefficient : Nat) (scale : Int) (minus : Bool) : Reader Json
  | [] => .error (.after .endInValue [])
  | p :: rest =>
    match digit? p with
    | none => .error (.next .invalidNumber (p :: rest))
    | some d =>
      match readExponentDigits d rest with
      | .ok (k, rest) => floatOf negative ⟨coefficient, scale + (if minus then -(k : Int) else k)⟩ rest
      | .error rest =>
        if coefficient ≠ 0 ∧ !minus then .error (.after .numberOutOfRange rest)
        else .ok (.float (.zero .double negative), (spanDigits rest).2)

private lemma readExponent_sign (negative : Bool) (coefficient : Nat) (scale : Int) (p : Piece) :
    ∃ minus, (∀ ps, readExponent negative coefficient scale (p :: ps) =
        readPower negative coefficient scale minus (p :: ps)) ∨
      ∀ ps, readExponent negative coefficient scale (p :: ps) =
        readPower negative coefficient scale minus ps := by
  by_cases hplus : p = .char '+'
  · refine ⟨false, .inr fun ps => ?_⟩
    subst hplus
    cases ps <;> rfl
  · by_cases hminus : p = .char '-'
    · refine ⟨true, .inr fun ps => ?_⟩
      subst hminus
      cases ps <;> rfl
    · refine ⟨false, .inl fun ps => ?_⟩
      unfold readExponent
      split
      rename_i hsign
      split at hsign
      · simp_all
      · simp_all
      · cases hsign
        rfl

private lemma local_readPower (negative : Bool) (coefficient : Nat) (scale : Int) (minus : Bool) :
    Local (readPower negative coefficient scale minus) := by
  intro ps v left h
  cases ps with
  | nil => simp [readPower] at h
  | cons p ps =>
    simp only [List.cons_append, readPower] at h ⊢
    cases hd : digit? p with
    | none => simp [hd] at h
    | some d =>
      have hsuffix := readExponentDigits_suffix ps d
      simp only [hd] at h ⊢
      cases hdigits : readExponentDigits d ps with
      | ok result =>
        simp only [hdigits, behindExponent] at h hsuffix
        obtain ⟨hleft, hmore⟩ := local_floatOf _ _ h
        refine ⟨(hleft.trans hsuffix).trans (List.suffix_cons p ps), fun rest hrest => ?_⟩
        rw [readExponentDigits_append hrest, hdigits]
        exact hmore rest hrest
      | error behind =>
        -- past the limit the exponent does not count, and the digits behind it are skipped
        simp only [hdigits, behindExponent] at h hsuffix
        split at h
        · cases h
        · rename_i hin
          cases h
          refine ⟨((spanDigits_suffix behind).trans hsuffix).trans (List.suffix_cons p ps),
            fun rest hrest => ?_⟩
          rw [readExponentDigits_append hrest, hdigits]
          simp only [if_neg hin, spanDigits_append hrest]

private lemma local_readExponent (negative : Bool) (coefficient : Nat) (scale : Int) :
    Local (readExponent negative coefficient scale) := by
  intro ps v left h
  cases ps with
  | nil => simp [readExponent] at h
  | cons p ps =>
    obtain ⟨minus, hsign | hsign⟩ := readExponent_sign negative coefficient scale p
    · rw [hsign] at h
      simp only [List.cons_append, hsign]
      exact local_readPower _ _ _ _ h
    · rw [hsign] at h
      simp only [List.cons_append, hsign]
      exact (local_readPower _ _ _ _).cons p h

/-- The part of `readFraction` behind the last digit: an exponent, or the end. -/
def readScale (negative : Bool) (n : Nat) (places : Int) : Reader Json
  | .char 'e' :: rest => readExponent negative n places rest
  | .char 'E' :: rest => readExponent negative n places rest
  | rest => floatOf negative ⟨n, places⟩ rest

/-- The part of `readFraction` for a number without point and exponent. -/
private def readWhole (negative : Bool) (whole : List Nat) : Reader Json := fun ps =>
  let value : Int := if negative then -(digitsNumber whole : Int) else digitsNumber whole
  if integerFits value && !(negative && value == 0) then .ok (.integer value, ps)
  else
    floatOf negative
      ⟨(Decimal.appendDigits 0 whole).1, (Decimal.appendDigits 0 whole).2.length⟩ ps

private lemma readScale_of_ne {p : Piece} (he : p ≠ .char 'e') (hE : p ≠ .char 'E') (negative : Bool)
    (n : Nat) (places : Int) (ps : List Piece) :
    readScale negative n places (p :: ps) = floatOf negative ⟨n, places⟩ (p :: ps) := by
  unfold readScale
  split <;> simp_all

private lemma readFraction_of_ne {p : Piece} (hpoint : p ≠ .char '.') (he : p ≠ .char 'e')
    (hE : p ≠ .char 'E') (negative : Bool) (whole : List Nat) (ps : List Piece) :
    readFraction negative whole (p :: ps) = readWhole negative whole (p :: ps) := by
  unfold readFraction
  split
  split <;> simp_all [readWhole]

private lemma readFraction_of_endsNumber {rest : List Piece} (hrest : EndsNumber rest)
    (negative : Bool) (whole : List Nat) :
    readFraction negative whole rest = readWhole negative whole rest := by
  cases rest with
  | nil => rfl
  | cons p rest =>
    obtain ⟨hpoint, he, hE, -⟩ := hrest.head
    exact readFraction_of_ne hpoint he hE negative whole rest

/-- Behind a point there is at least one digit, and then an exponent or the end. -/
lemma readFraction_point (negative : Bool) (whole : List Nat) {d : Nat} {ds : List Nat}
    {ps behind : List Piece} (hdigits : spanDigits ps = (d :: ds, behind)) :
    readFraction negative whole (.char '.' :: ps) =
      readScale negative (Decimal.appendDigits (Decimal.appendDigits 0 whole).1 (d :: ds)).1
        ((Decimal.appendDigits 0 whole).2.length - ((d :: ds).length -
          (Decimal.appendDigits (Decimal.appendDigits 0 whole).1 (d :: ds)).2.length : Nat)) behind := by
  unfold readFraction
  simp only [hdigits]
  rfl

private lemma local_readWhole (negative : Bool) (whole : List Nat) :
    Local (readWhole negative whole) := by
  intro ps v left h
  simp only [readWhole] at h ⊢
  generalize (if negative = true then -(digitsNumber whole : Int) else digitsNumber whole) = value
    at h ⊢
  by_cases hfits : (integerFits value && !(negative && value == 0)) = true
  · simp only [if_pos hfits] at h ⊢
    cases h
    exact ⟨List.suffix_refl _, fun rest _ => rfl⟩
  · simp only [if_neg hfits] at h ⊢
    exact local_floatOf _ _ h

private lemma local_readScale (negative : Bool) (n : Nat) (places : Int) :
    Local (readScale negative n places) := by
  intro ps v left h
  cases ps with
  | nil =>
    obtain ⟨hleft, hmore⟩ := local_floatOf _ _ h
    refine ⟨hleft, fun rest hrest => ?_⟩
    have hfloat := hmore rest hrest
    cases rest with
    | nil => exact hfloat
    | cons p rest =>
      obtain ⟨-, he, hE, -⟩ := hrest.head
      rw [List.nil_append, readScale_of_ne he hE]
      exact hfloat
  | cons p ps =>
    by_cases he : p = .char 'e'
    · subst he
      exact (local_readExponent _ _ _).cons _ h
    · by_cases hE : p = .char 'E'
      · subst hE
        exact (local_readExponent _ _ _).cons _ h
      · rw [readScale_of_ne he hE] at h
        simp only [List.cons_append, readScale_of_ne he hE]
        exact local_floatOf _ _ h

private lemma local_readFraction (negative : Bool) (whole : List Nat) :
    Local (readFraction negative whole) := by
  intro ps v left h
  cases ps with
  | nil =>
    obtain ⟨hleft, hmore⟩ := local_readWhole negative whole h
    refine ⟨hleft, fun rest hrest => ?_⟩
    rw [List.nil_append, readFraction_of_endsNumber hrest]
    exact hmore rest hrest
  | cons p ps =>
    by_cases hpoint : p = .char '.'
    · subst hpoint
      cases hdigits : spanDigits ps with
      | mk ds behind =>
        cases ds with
        | nil => cases behind <;> simp [readFraction, hdigits] at h
        | cons d ds =>
          have hsuffix := spanDigits_suffix ps
          rw [readFraction_point negative whole hdigits] at h
          rw [hdigits] at hsuffix
          obtain ⟨hleft, hmore⟩ := local_readScale _ _ _ h
          refine ⟨(hleft.trans hsuffix).trans (List.suffix_cons _ ps), fun rest hrest => ?_⟩
          have hdigits' : spanDigits (ps ++ rest) = (d :: ds, behind ++ rest) := by
            rw [spanDigits_append hrest, hdigits]
          rw [List.cons_append, readFraction_point negative whole hdigits']
          exact hmore rest hrest
    · by_cases he : p = .char 'e'
      · subst he
        exact (local_readExponent _ _ _).cons _ h
      · by_cases hE : p = .char 'E'
        · subst hE
          exact (local_readExponent _ _ _).cons _ h
        · rw [readFraction_of_ne hpoint he hE] at h
          simp only [List.cons_append, readFraction_of_ne hpoint he hE]
          exact local_readWhole negative whole h

private lemma readNumber_zero (negative : Bool) {p : Piece} (hp : digit? p = some 0) (ps : List Piece) :
    readNumber negative (p :: ps) =
      match ps with
      | [] => readFraction negative [0] []
      | q :: rest =>
        if (digit? q).isSome then .error (.next .invalidNumber (q :: rest))
        else readFraction negative [0] (q :: rest) := by
  cases ps with
  | nil => simp only [readNumber, hp]
  | cons q rest => simp only [readNumber, hp]

private lemma readNumber_succ (negative : Bool) {p : Piece} {d : Nat} (hp : digit? p = some (d + 1))
    (ps : List Piece) :
    readNumber negative (p :: ps) =
      readFraction negative ((d + 1) :: (spanDigits ps).1) (spanDigits ps).2 := by
  simp only [readNumber, hp]

/-- A number is read the same way whatever follows the place where it ends. -/
theorem local_readNumber (negative : Bool) : Local (readNumber negative) := by
  intro ps v left h
  cases ps with
  | nil => simp [readNumber] at h
  | cons p ps =>
    cases hp : digit? p with
    | none => simp [readNumber, hp] at h
    | some d =>
      cases d with
      | zero =>
        -- a zero in front stands alone, so what follows decides whether there is a number at all
        simp only [List.cons_append, readNumber_zero negative hp] at h ⊢
        cases ps with
        | nil =>
          obtain ⟨hleft, hmore⟩ := (local_readFraction _ _).cons p h
          refine ⟨hleft, fun rest hrest => ?_⟩
          have hfraction := hmore rest hrest
          cases rest with
          | nil => exact hfraction
          | cons q rest =>
            obtain ⟨-, -, -, hq⟩ := hrest.head
            simpa [hq] using hfraction
        | cons q ps =>
          by_cases hq : (digit? q).isSome
          · simp [hq] at h
          · simp only [List.cons_append, if_neg hq] at h ⊢
            exact (local_readFraction _ _).cons p h
      | succ d =>
        simp only [List.cons_append, readNumber_succ negative hp] at h ⊢
        obtain ⟨hleft, hmore⟩ := local_readFraction _ _ h
        refine ⟨(hleft.trans (spanDigits_suffix ps)).trans (List.suffix_cons p ps),
          fun rest hrest => ?_⟩
        rw [spanDigits_append hrest]
        exact hmore rest hrest

/-! ## Integers -/

/-- The digits of a natural number, as the reader takes them. -/
def digitsOf (m : Nat) : List Nat :=
  (Nat.toDigits 10 m).map Decimal.digitValue

lemma digit?_char {c : Char} (hc : c.isDigit = true) : digit? (.char c) = some (Decimal.digitValue c) := by
  rw [digit?, if_pos hc]

lemma EndsNumber.spanDigits {rest : List Piece} (hrest : EndsNumber rest) : spanDigits rest = ([], rest) :=
  spanDigits_append hrest []

/-- Written digits are read as their values, up to the first piece that is no digit. -/
lemma spanDigits_asPieces {cs : List Char} {rest : List Piece} (hrest : spanDigits rest = ([], rest))
    (hcs : ∀ c ∈ cs, c.isDigit = true) :
    spanDigits (asPieces cs ++ rest) = (cs.map Decimal.digitValue, rest) := by
  induction cs with
  | nil => exact hrest
  | cons c cs ih =>
    have hc : c.isDigit = true := hcs c (List.mem_cons_self ..)
    have htail := ih fun c hmem => hcs c (List.mem_cons_of_mem _ hmem)
    simp only [asPieces_cons, List.cons_append, Json.spanDigits, digit?_char hc, htail, List.map_cons]

lemma isDigit_of_mem_toDigits {m : Nat} {c : Char} (hc : c ∈ Nat.toDigits 10 m) : c.isDigit = true :=
  Nat.isDigit_of_mem_toDigits (by decide) (by decide) hc

private lemma digitsNumber_digitsOf (m : Nat) : digitsNumber (digitsOf m) = m :=
  Decimal.extend_toDigits m

/-- A number other than zero does not begin with a zero. -/
lemma toDigits_head {m : Nat} (hm : 0 < m) :
    ∃ c cs, Nat.toDigits 10 m = c :: cs ∧ Decimal.digitValue c ≠ 0 := by
  induction m using Nat.strongRecOn with
  | ind m ih =>
    by_cases hsmall : m < 10
    · refine ⟨m.digitChar, [], Nat.toDigits_of_lt_base hsmall, ?_⟩
      have hdigit : ∀ k < 10, 0 < k → Decimal.digitValue k.digitChar ≠ 0 := by decide
      exact hdigit m hsmall hm
    · obtain ⟨c, cs, hcs, hc⟩ := ih (m / 10) (by omega) (by omega)
      refine ⟨c, cs ++ [(m % 10).digitChar], ?_, hc⟩
      rw [Nat.toDigits_of_base_le (by decide) (by omega), hcs, List.cons_append]

/-- The whole part of a number is read up to the first piece that is no digit. It begins with a zero only if
it is zero. -/
lemma readNumber_digits (negative : Bool) {c : Char} {cs : List Char}
    (hdigits : ∀ x ∈ c :: cs, x.isDigit = true) (hhead : Decimal.digitValue c = 0 → cs = [])
    {rest : List Piece} (hrest : spanDigits rest = ([], rest)) :
    readNumber negative (asPieces (c :: cs) ++ rest) =
      readFraction negative ((c :: cs).map Decimal.digitValue) rest := by
  have hc := digit?_char (hdigits c (List.mem_cons_self ..))
  rw [asPieces_cons, List.cons_append]
  cases hvalue : Decimal.digitValue c with
  | zero =>
    rw [hvalue] at hc
    rw [hhead hvalue, readNumber_zero negative hc, asPieces_nil, List.nil_append, List.map_singleton, hvalue]
    cases rest with
    | nil => rfl
    | cons p rest =>
      cases hp : digit? p with
      | none => simp [hp]
      | some d => simp [Json.spanDigits, hp] at hrest
  | succ d =>
    rw [hvalue] at hc
    rw [readNumber_succ negative hc,
      spanDigits_asPieces hrest fun x hx => hdigits x (List.mem_cons_of_mem _ hx), List.map_cons, hvalue]

/-- The digits of a natural number are read as a number without point and exponent. -/
private lemma readNumber_toDigits (negative : Bool) (m : Nat) {rest : List Piece}
    (hrest : EndsNumber rest) :
    readNumber negative (asPieces (Nat.toDigits 10 m) ++ rest) =
      readWhole negative (digitsOf m) rest := by
  obtain ⟨c, cs, hcs, hhead⟩ :
      ∃ c cs, Nat.toDigits 10 m = c :: cs ∧ (Decimal.digitValue c = 0 → cs = []) := by
    rcases Nat.eq_zero_or_pos m with rfl | hm
    · exact ⟨'0', [], Nat.toDigits_zero 10, fun _ => rfl⟩
    · obtain ⟨c, cs, hcs, hc⟩ := toDigits_head hm
      exact ⟨c, cs, hcs, fun hzero => absurd hzero hc⟩
  have hdigits : ∀ x ∈ c :: cs, x.isDigit = true := fun x hx =>
    isDigit_of_mem_toDigits (m := m) (by rw [hcs]; exact hx)
  rw [← readFraction_of_endsNumber hrest, digitsOf, hcs,
    readNumber_digits negative hdigits hhead hrest.spanDigits]

/-- An integer of 64 bits is read back from its digits, whatever follows it. -/
theorem readNumber_integer {n : Int} (hn : integerFits n = true) {rest : List Piece}
    (hrest : EndsNumber rest) :
    readNumber (decide (n < 0)) (asPieces (Nat.toDigits 10 n.natAbs) ++ rest) = .ok (.integer n, rest) := by
  rw [readNumber_toDigits _ _ hrest]
  simp only [readWhole, digitsNumber_digitsOf, decide_eq_true_eq]
  have hvalue : (if n < 0 then -(n.natAbs : Int) else n.natAbs) = n := by
    split <;> omega
  have hzero : (decide (n < 0) && n == 0) = false := by
    rw [Bool.and_eq_false_iff, decide_eq_false_iff_not, beq_eq_false_iff_ne]
    omega
  rw [hvalue, hn, hzero]
  rfl

end LayeredCache.Json
