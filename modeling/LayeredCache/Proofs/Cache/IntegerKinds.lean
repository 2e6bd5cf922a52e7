import LayeredCache.Cache.Property
import LayeredCache.Proofs.Decimal.Integer

/-!
# Properties of integer kinds

The text of a property is read as a value of an integer kind exactly if it denotes an integer in the range of the
kind. Otherwise the error names the property, the kind and the text as it is, and gives the leftmost fault of the text
as the reason (`PropertyKind.coerce_integer`).
-/

namespace LayeredCache.PropertyKind

open Decimal

/-- The kinds of integers, how many bits each has, and the values that it makes. -/
inductive IsInteger : PropertyKind → Nat → (Int → PropertyValue) → Prop where
  | byte : IsInteger .byte 8 .byte
  | short : IsInteger .short 16 .short
  | int : IsInteger .int 32 .int
  | long : IsInteger .long 64 .long

variable {kind : PropertyKind} {bits : Nat} {make : Int → PropertyValue}

lemma IsInteger.coerce_eq (h : kind.IsInteger bits make) (id property raw : String) :
    kind.coerce id property raw = readInteger property kind bits make raw := by
  cases h <;> rfl

lemma readInteger_eq_ok {property raw : String} {value : PropertyValue} :
    readInteger property kind bits make raw = .ok value ↔
      ∃ n, Denotes raw.toList n ∧ InRange bits n ∧ value = make n := by
  unfold readInteger
  cases hread : readSigned bits raw.toList with
  | ok n =>
    have hn := readSigned_eq_ok.1 hread
    constructor
    · intro h
      exact ⟨n, hn.1, hn.2, (Except.ok.inj h).symm⟩
    · rintro ⟨m, hdenotes, hrange, rfl⟩
      have hm := readSigned_eq_ok.2 ⟨hdenotes, hrange⟩
      rw [Except.ok.inj (hread.symm.trans hm)]
  | error fault =>
    constructor
    · exact nofun
    · rintro ⟨m, hdenotes, hrange, -⟩
      have hm := readSigned_eq_ok.2 ⟨hdenotes, hrange⟩
      cases hread.symm.trans hm

lemma readInteger_eq_error {property raw : String} {e : CacheError} :
    readInteger property kind bits make raw = .error e ↔
      ∃ fault, LeftmostFault bits raw.toList fault ∧ e = .invalidProperty property kind.name raw fault.message := by
  unfold readInteger
  cases hread : readSigned bits raw.toList with
  | ok n =>
    constructor
    · exact nofun
    · rintro ⟨fault, hfault, -⟩
      cases hread.symm.trans (readSigned_eq_error.2 hfault)
  | error leftmost =>
    have hleftmost := readSigned_eq_error.1 hread
    constructor
    · intro h
      exact ⟨leftmost, hleftmost, (Except.error.inj h).symm⟩
    · rintro ⟨fault, hfault, rfl⟩
      rw [Except.error.inj (hread.symm.trans (readSigned_eq_error.2 hfault))]

/-- A text is read as a value of an integer kind exactly if it is an optional sign and digits that denote an integer in
the range of the kind; so the decimal text of every integer in range is read back. For every other text, the error has
the property, the kind, the text as it is, and the leftmost fault of the text as the reason. -/
theorem coerce_integer (h : kind.IsInteger bits make) (id property : String) :
    (∀ raw value, kind.coerce id property raw = .ok value ↔
      ∃ n, Denotes raw.toList n ∧ InRange bits n ∧ value = make n) ∧
    (∀ raw e, kind.coerce id property raw = .error e ↔
      ∃ fault, LeftmostFault bits raw.toList fault ∧ e = .invalidProperty property kind.name raw fault.message) ∧
    ∀ n, InRange bits n → kind.coerce id property (toString n) = .ok (make n) := by
  refine ⟨fun raw value => ?_, fun raw e => ?_, fun n hrange => ?_⟩
  · rw [h.coerce_eq, readInteger_eq_ok]
  · rw [h.coerce_eq, readInteger_eq_error]
  · rw [h.coerce_eq, readInteger_eq_ok]
    exact ⟨n, denotes_toString n, hrange, rfl⟩

/-- The least octet and a negative zero with zeros before it are read. A digit that leads out of the range is noticed
before the letter behind it. -/
theorem coerce_integer_octet : IsInteger .byte 8 .byte ∧
    PropertyKind.byte.coerce "users" "level" "-128" = .ok (.byte (-128)) ∧
    PropertyKind.byte.coerce "users" "level" "-000" = .ok (.byte 0) ∧
    PropertyKind.byte.coerce "users" "level" "-129x" =
      .error (.invalidProperty "level" "i8" "-129x" "number too small to fit in target type") := by
  obtain ⟨hread, hfails, hwritten⟩ := coerce_integer .byte "users" "level"
  refine ⟨.byte, ?_, ?_, ?_⟩
  · have hleast : toString (-128 : Int) = "-128" := rfl
    exact hleast ▸ hwritten (-128) (by decide)
  · have hzeros : Denotes "-000".toList 0 := ⟨.minus, ['0', '0', '0'], .minus _, by decide, List.all_eq_true.1 rfl, rfl⟩
    exact (hread _ _).2 ⟨0, hzeros, by decide, rfl⟩
  · have hfault : LeftmostFault 8 "-129x".toList .tooSmall :=
      .outOfRange (.minus (['1', '2'] ++ '9' :: ['x'])) ⟨List.all_eq_true.1 rfl, by decide⟩ rfl (by decide)
    exact (hfails _ _).2 ⟨.tooSmall, hfault, rfl⟩

end LayeredCache.PropertyKind
