import LayeredCache.Proofs.Json.Numbers

/-!
# Reading written floating-point numbers

A floating-point number is read by the short way, which need not end where it began. It ends at some finite
value, though: the text of a double is read to its end (`readNumber_floatText`), with or without an exponent.
-/

namespace LayeredCache.Json

open Text (Piece)
open Decimal (digitValue extend appendDigits wordBound)

/-! ## Numbers with a point -/

/-- A character that is no digit ends the digits in front of it. -/
private lemma spanDigits_of_none {p : Piece} (hp : digit? p = none) (ps : List Piece) :
    spanDigits (p :: ps) = ([], p :: ps) := by
  rw [spanDigits, hp]

private lemma digitValue_lt {c : Char} (hc : c.isDigit = true) : digitValue c < 10 := by
  have hrange : c.toNat ≤ '9'.toNat := (Char.isDigit_iff_toNat.1 hc).2
  have hwidth : '9'.toNat - '0'.toNat < 10 := by decide
  unfold digitValue
  omega

/-- The first digit of a number fits a word. -/
private lemma appendDigits_digit {c : Char} (hc : c.isDigit = true) (ds : List Nat) :
    appendDigits 0 (digitValue c :: ds) = appendDigits (digitValue c) ds := by
  have hfits : 10 * 0 + digitValue c < wordBound := by
    rw [Nat.mul_zero, Nat.zero_add]
    exact (digitValue_lt hc).trans (by decide)
  rw [appendDigits, if_pos hfits, Nat.mul_zero, Nat.zero_add]

private lemma isDigit_of_mem_zero : ∀ x ∈ ['0'], x.isDigit = true :=
  List.forall_mem_singleton.2 rfl

/-- A finite value is given for what is left of a number. -/
private def ReadsFloat (reader : Reader Json) (ps : List Piece) : Prop :=
  ∃ x, reader ps = .ok (.float x, [])

private lemma readsFloat_floatOf {d : Decimal} (h : ∃ negative m e, d.toBinaryStepwise = .finite negative m e)
    (negative : Bool) : ReadsFloat (floatOf negative d) [] := by
  obtain ⟨sign, m, e, hvalue⟩ := h
  exact ⟨.finite negative m e, by rw [floatOf, hvalue]⟩

/-- A number with a point and no exponent is read if its whole part fits a word. -/
private lemma readsFloat_positional (negative : Bool) {c : Char} (cs fraction : List Char)
    (hdigits : ∀ x ∈ c :: cs, x.isDigit = true) (hhead : digitValue c = 0 → cs = [])
    (hlength : cs.length < 16) (hfraction : ∀ x ∈ fraction, x.isDigit = true) (hne : fraction ≠ []) :
    ReadsFloat (readNumber negative) (asPieces (c :: cs ++ '.' :: fraction)) := by
  have hpoint : spanDigits (.char '.' :: asPieces fraction) = ([], .char '.' :: asPieces fraction) :=
    spanDigits_of_none (by decide) _
  have hbehind : spanDigits (asPieces fraction) = (fraction.map digitValue, []) := by
    simpa using @spanDigits_asPieces fraction [] rfl hfraction
  obtain ⟨d, ds, hds⟩ := List.exists_cons_of_ne_nil (mt (@List.map_eq_nil_iff _ _ digitValue fraction).1 hne)
  have hwhole : extend 0 ((c :: cs).map digitValue) < wordBound := by
    have hsmall : ∀ d ∈ (c :: cs).map digitValue, d < 10 := List.forall_mem_map.2 fun x hx =>
      digitValue_lt (hdigits x hx)
    calc extend 0 ((c :: cs).map digitValue) < (0 + 1) * 10 ^ ((c :: cs).map digitValue).length :=
          Decimal.extend_lt hsmall 0
      _ ≤ 1 * 10 ^ 16 := by
        rw [List.length_map, List.length_cons]
        exact Nat.mul_le_mul_left 1 (Nat.pow_le_pow_right (by decide) hlength)
      _ ≤ wordBound := by decide
  have hfits := Decimal.appendDigits_of_lt hwhole
  rw [hds] at hbehind
  rw [asPieces_append, asPieces_cons '.', ReadsFloat, readNumber_digits negative hdigits hhead hpoint,
    readFraction_point negative _ hbehind, hfits]
  refine readsFloat_floatOf (Decimal.toBinaryStepwise_of_nonpos ?_ ?_) negative
  · exact Decimal.appendDigits_lt hwhole _
  · simp only [List.length_nil]
    omega

/-! ## Numbers with an exponent -/

/-- The digits of an exponent within the limit are read to their end. -/
private lemma readExponentDigits_asPieces {cs : List Char} (hcs : ∀ c ∈ cs, c.isDigit = true) {n : Nat}
    (hlimit : extend n (cs.map digitValue) ≤ exponentLimit) :
    readExponentDigits n (asPieces cs) = .ok (extend n (cs.map digitValue), []) := by
  induction cs generalizing n with
  | nil => rfl
  | cons c cs ih =>
    have hc := digit?_char (hcs c (List.mem_cons_self ..))
    have hstart : 10 * n + digitValue c ≤ extend (10 * n + digitValue c) (cs.map digitValue) :=
      (Nat.le_mul_of_pos_right _ (Nat.pow_pos (by decide))).trans (Decimal.le_extend _ _)
    rw [asPieces_cons, readExponentDigits]
    simp only [hc, if_neg (not_lt.2 (hstart.trans hlimit))]
    exact ih (fun x hx => hcs x (List.mem_cons_of_mem _ hx)) hlimit

/-- A written exponent is added to the power of ten that the digits in front of it leave. -/
private lemma readExponent_written (negative : Bool) (coefficient : Nat) (scale : Int) {k : Int}
    (hk : k.natAbs ≤ exponentLimit) :
    readExponent negative coefficient scale
        (asPieces ((if k < 0 then ['-'] else ['+']) ++ Nat.toDigits 10 k.natAbs)) =
      floatOf negative ⟨coefficient, scale + k⟩ [] := by
  obtain ⟨c, cs, hcs⟩ := List.exists_cons_of_ne_nil (Nat.toDigits_ne_nil (n := k.natAbs) (b := 10))
  have hdigits : ∀ x ∈ c :: cs, x.isDigit = true := fun x hx =>
    isDigit_of_mem_toDigits (m := k.natAbs) (by rw [hcs]; exact hx)
  have hvalue : extend (digitValue c) (cs.map digitValue) = k.natAbs := by
    have h := Decimal.extend_toDigits k.natAbs
    rw [hcs, List.map_cons, extend, List.foldl_cons, Nat.mul_zero, Nat.zero_add] at h
    exact h
  have hpower : ∀ minus, readPower negative coefficient scale minus (asPieces (c :: cs)) =
      floatOf negative ⟨coefficient, scale + (if minus then -(k.natAbs : Int) else k.natAbs)⟩ [] := by
    intro minus
    have hread := readExponentDigits_asPieces (fun x hx => hdigits x (List.mem_cons_of_mem _ hx))
      (hvalue.trans_le hk)
    rw [hvalue] at hread
    rw [asPieces_cons, readPower, digit?_char (hdigits c (List.mem_cons_self ..))]
    simp only [hread]
  rw [asPieces_append, hcs]
  split
  · rename_i hneg
    have hsign : k = -(k.natAbs : Int) := by omega
    rw [hsign]
    exact hpower true
  · rename_i hnonneg
    have hsign : k = k.natAbs := by omega
    rw [hsign]
    exact hpower false

/-- One digit, the others behind a point if there are any, and an exponent: the digits that fit a word are
brought to their place. -/
private lemma readNumber_scientific (negative : Bool) {c : Char} {fraction : List Char} (hc : c.isDigit = true)
    (hhead : digitValue c ≠ 0) (hfraction : ∀ x ∈ fraction, x.isDigit = true) {k : Int}
    (hk : k.natAbs ≤ exponentLimit) :
    readNumber negative (asPieces
        (c :: (if fraction.isEmpty then [] else '.' :: fraction) ++ Decimal.writeExponent numberStyle k)) =
      floatOf negative
        ⟨(appendDigits (digitValue c) (fraction.map digitValue)).1,
          k - (fraction.length - (appendDigits (digitValue c) (fraction.map digitValue)).2.length : Nat)⟩ [] := by
  have hpower := fun coefficient scale => readExponent_written negative coefficient scale hk
  have hexponent : Decimal.writeExponent numberStyle k =
      'e' :: ((if k < 0 then ['-'] else ['+']) ++ Nat.toDigits 10 k.natAbs) := rfl
  have hletter : ∀ ps, spanDigits (.char 'e' :: ps) = ([], .char 'e' :: ps) := spanDigits_of_none (by decide)
  have hfirst : appendDigits 0 [digitValue c] = (digitValue c, []) := appendDigits_digit hc []
  have hdigits : ∀ x ∈ [c], x.isDigit = true := by simpa using hc
  have hwhole := fun rest => @readNumber_digits negative c [] hdigits (fun h => absurd h hhead) rest
  rw [hexponent]
  generalize (if k < 0 then ['-'] else ['+']) ++ Nat.toDigits 10 k.natAbs = power at hpower ⊢
  cases fraction with
  | nil =>
    have hread : readFraction negative [digitValue c] (.char 'e' :: asPieces power) =
        floatOf negative ⟨digitValue c, 0 + k⟩ [] := by
      rw [← hpower, readFraction, hfirst]
      rfl
    simpa [appendDigits] using (hwhole _ (hletter (asPieces power))).trans hread
  | cons x xs =>
    have hpoint : spanDigits (.char '.' :: (asPieces (x :: xs) ++ .char 'e' :: asPieces power)) =
        ([], .char '.' :: (asPieces (x :: xs) ++ .char 'e' :: asPieces power)) :=
      spanDigits_of_none (by decide) _
    have hbehind := spanDigits_asPieces (hletter (asPieces power)) hfraction
    have hread := readFraction_point negative [digitValue c] hbehind
    rw [hfirst] at hread
    have hscale : ∀ n places, readScale negative n places (.char 'e' :: asPieces power) =
        floatOf negative ⟨n, places + k⟩ [] := fun n places => hpower n places
    rw [hscale] at hread
    have hscaled : ∀ places : Nat, (([] : List Nat).length : Int) - places + k = k - places := fun places => by
      rw [List.length_nil]
      omega
    rw [hscaled] at hread
    simpa using (hwhole _ hpoint).trans hread

/-! ## Written numbers -/

/-- The text of a positive number whose leading digits are in range is read to its end. -/
private lemma readsFloat_write (negative : Bool) {d : Decimal} (hpos : 0 < d.coefficient)
    (hpoint : d.point.natAbs ≤ 2048) (hfinite : ∃ sign m e, d.leading.toBinaryStepwise = .finite sign m e) :
    ReadsFloat (readNumber negative) (asPieces (Decimal.write numberStyle d)) := by
  obtain ⟨c, cs, hcs, hhead⟩ := toDigits_head hpos
  have hdigits : ∀ x ∈ c :: cs, x.isDigit = true := fun x hx =>
    isDigit_of_mem_toDigits (m := d.coefficient) (by rw [hcs]; exact hx)
  have hzeros : ∀ n, ∀ x ∈ List.replicate n '0', x.isDigit = true := fun n x hx => by
    rw [List.eq_of_mem_replicate hx]
    decide
  have hlength : d.point = d.exponent + (cs.length + 1 : Nat) := by
    rw [Decimal.point, Decimal.digits, hcs, List.length_cons]
  unfold Decimal.write
  simp only [Decimal.digits, hcs, numberStyle]
  -- a number without exponent has its point in front of the digits, behind them or among them
  split
  · split
    · exact readsFloat_positional negative [] _ isDigit_of_mem_zero (fun _ => rfl) (by decide)
        (List.forall_mem_append.2 ⟨hzeros _, hdigits⟩) (by simp)
    · have hnonzero : ∀ {xs : List Char}, digitValue c = 0 → xs = [] := fun h => absurd h hhead
      split
      · rename_i hrange hpositive hlong
        rw [List.length_cons] at hlong
        have hsize : (cs ++ List.replicate (d.point.toNat - (c :: cs).length) '0').length < 16 := by
          rw [List.length_append, List.length_replicate, List.length_cons]
          omega
        have hread := readsFloat_positional negative _ ['0'] (fun x hx => ?_) hnonzero hsize
          isDigit_of_mem_zero (List.cons_ne_nil _ _)
        · simpa using hread
        · exact List.forall_mem_append.2 ⟨hdigits, hzeros _⟩ x hx
      · rename_i hrange hpositive hshort
        obtain ⟨j, hj⟩ := Nat.exists_eq_succ_of_ne_zero (n := d.point.toNat) (by omega)
        rw [hj, List.length_cons] at hshort
        rw [hj]
        have htake : (cs.take j).length < 16 := by
          rw [List.length_take]
          omega
        have hdrop : cs.drop j ≠ [] := by
          rw [Ne, List.drop_eq_nil_iff]
          omega
        exact readsFloat_positional negative (cs.take j) (cs.drop j)
          (fun x hx => hdigits x (List.mem_of_mem_take (i := j + 1) hx)) hnonzero htake
          (fun x hx => hdigits x (List.mem_cons_of_mem _ (List.mem_of_mem_drop hx))) hdrop
  · have hread := readNumber_scientific negative (hdigits c (List.mem_cons_self ..)) hhead
      (fun x hx => hdigits x (List.mem_cons_of_mem _ hx)) (k := d.point - 1) (by rw [exponentLimit]; omega)
    have hleading : d.leading = ⟨(appendDigits (digitValue c) (cs.map digitValue)).1,
        d.point - 1 - (cs.length - (appendDigits (digitValue c) (cs.map digitValue)).2.length : Nat)⟩ := by
      have hleft := Decimal.appendDigits_length_le (cs.map digitValue) (digitValue c)
      rw [List.length_map] at hleft
      rw [Decimal.leading, Decimal.digits, hcs, List.map_cons,
        appendDigits_digit (hdigits c (List.mem_cons_self ..)), hlength]
      dsimp only
      congr 1
      omega
    rw [← hleading] at hread
    obtain ⟨x, hx⟩ := readsFloat_floatOf hfinite negative
    exact ⟨x, hread.trans hx⟩

/-- The text of a finite value without its sign. -/
def floatText (m : Nat) (e : Int) : List Char :=
  if m = 0 then ['0', '.', '0'] else Decimal.write numberStyle (Decimal.shortest .double numberStyle.tie m e)

lemma render_finite (negative : Bool) (m : Nat) (e : Int) :
    render (.float (.finite negative m e)) = (if negative then ['-'] else []) ++ floatText m e := by
  rw [render, Decimal.writeBinary, floatText]
  rfl

/-- The text of every double is read to its end, as some finite value. -/
theorem readNumber_floatText (negative : Bool) {sign : Bool} {m : Nat} {e : Int}
    (h : Decimal.Binary.Canonical .double (.finite sign m e)) :
    ∃ x, readNumber negative (asPieces (floatText m e)) = .ok (.float x, []) := by
  obtain ⟨hbits, hlow, hhigh, -⟩ := h
  rw [floatText]
  split
  · exact readsFloat_positional negative [] ['0'] isDigit_of_mem_zero (fun _ => rfl) (by decide)
      isDigit_of_mem_zero (List.cons_ne_nil _ _)
  · rename_i hm
    have hpos := Nat.pos_of_ne_zero hm
    have hwrites := Decimal.writes_shortest .toEven hpos hbits hlow hhigh
    exact readsFloat_write negative hwrites.pos hwrites.point
      (Decimal.leading_shortest_finite hpos hbits hlow hhigh)

/-- It begins with a digit, as nothing else is read as a number. -/
lemma floatText_head {sign : Bool} {m : Nat} {e : Int} (h : Decimal.Binary.Canonical .double (.finite sign m e)) :
    ∃ c cs, floatText m e = c :: cs ∧ c.isDigit = true := by
  obtain ⟨x, hread⟩ := readNumber_floatText false h
  cases htext : floatText m e with
  | nil => simp [htext, readNumber] at hread
  | cons c cs =>
    refine ⟨c, cs, rfl, ?_⟩
    by_contra hc
    have hnone : digit? (.char c) = none := by rw [digit?, if_neg hc]
    simp [htext, readNumber, hnone] at hread

end LayeredCache.Json
