import LayeredCache.Proofs.Fields
import LayeredCache.Proofs.Json.Floats

/-!
# Reading written values

The reader gives back every value that the printer wrote (`read_print`), as long as the value is no
deeper than the reader goes and its floating-point numbers are read back when they stand alone. A value
of that kind is `Storable`; so is every string, and with it every text that a value was written as. Whatever
its numbers, a value that is not too deep is read (`Shallow.readable`), and one that is nested deeper is not
(`read_print_nested`).
-/

namespace LayeredCache

namespace Json

open Text (Piece)

mutual
/-- Every floating-point number in a value is read back when its text stands alone. -/
def FloatsReadBack : Json → Prop
  | .float x => read (print (.float x)) = .ok (.float x)
  | .array items => FloatsReadBackItems items
  | .object fields => FloatsReadBackFields fields
  | _ => True
/-- The same for all of several values. -/
def FloatsReadBackItems : List Json → Prop
  | [] => True
  | v :: vs => FloatsReadBack v ∧ FloatsReadBackItems vs
/-- The same for the values of all of several fields. -/
def FloatsReadBackFields : List (String × Json) → Prop
  | [] => True
  | (_, v) :: fields => FloatsReadBack v ∧ FloatsReadBackFields fields
end

/-! ## What a written value begins with -/

/-- A character that a written value can begin with. -/
def StartsValue (c : Char) : Prop :=
  isBlank (.char c) = false ∧ c ≠ ']' ∧ c ≠ ','

instance (c : Char) : Decidable (StartsValue c) :=
  inferInstanceAs (Decidable (_ ∧ _ ∧ _))

lemma startsValue_of_isDigit {c : Char} (hc : c.isDigit = true) : StartsValue c := by
  refine ⟨?_, ?_, ?_⟩
  · unfold isBlank
    split
    all_goals simp_all
  · rintro rfl
    exact absurd hc (by decide)
  · rintro rfl
    exact absurd hc (by decide)

/-- A value that is no number begins with a character of its own kind, a number with a sign or digit. -/
lemma render_head {v : Json} (hv : v.WellFormed) : ∃ c cs, render v = c :: cs ∧ StartsValue c := by
  cases v with
  | null => exact ⟨'n', _, rfl, by decide⟩
  | bool value => cases value <;> exact ⟨_, _, rfl, by decide⟩
  | integer n =>
    obtain ⟨c, cs, hcs⟩ := List.exists_cons_of_ne_nil (Nat.toDigits_ne_nil (n := n.natAbs) (b := 10))
    rw [render, renderInteger, hcs]
    split
    · exact ⟨'-', _, rfl, by decide⟩
    · have hc : c ∈ Nat.toDigits 10 n.natAbs := hcs ▸ List.mem_cons_self ..
      exact ⟨c, cs, rfl, startsValue_of_isDigit (Nat.isDigit_of_mem_toDigits (by decide) (by decide) hc)⟩
  | float x =>
    cases x with
    | nan => exact hv.elim
    | infinite _ => exact hv.elim
    | finite negative m e =>
      have hcanonical : Decimal.Binary.Canonical .double (.finite negative m e) := hv
      obtain ⟨c, cs, hcs, hc⟩ := floatText_head hcanonical
      rw [render_finite, hcs]
      cases negative with
      | false => exact ⟨c, cs, rfl, startsValue_of_isDigit hc⟩
      | true => exact ⟨'-', c :: cs, rfl, by decide⟩
  | string s => exact ⟨'"', _, rfl, by decide⟩
  | array items => cases items <;> exact ⟨'[', _, rfl, by decide⟩
  | object fields => rcases fields with _ | ⟨⟨k, v⟩, fields⟩ <;> exact ⟨'\x7b', _, rfl, by decide⟩

lemma skipBlanks_cons {p : Piece} (hp : isBlank p = false) (ps : List Piece) :
    skipBlanks (p :: ps) = p :: ps :=
  List.dropWhile_cons_of_neg (by rw [hp]; decide)

/-! ## Numbers as values -/

lemma readValue_minus (fuel depth : Nat) (ps : List Piece) :
    readValue (fuel + 1) depth (.char '-' :: ps) = readNumber true ps := by
  rw [readValue, skipBlanks_cons rfl]
  rfl

lemma readValue_digit {c : Char} (hc : c.isDigit = true) (fuel depth : Nat) (ps : List Piece) :
    readValue (fuel + 1) depth (.char c :: ps) = readNumber false (.char c :: ps) := by
  have hne : ∀ d : Char, d.isDigit = false → c ≠ d := by
    rintro d hd rfl
    rw [hc] at hd
    cases hd
  rw [readValue, skipBlanks_cons (startsValue_of_isDigit hc).1]
  split
  case h_9 =>
    rename_i hhead
    cases hhead
    rw [if_pos (by rw [digit?, if_pos hc]; rfl)]
  all_goals
    rename_i hhead
    cases hhead
  all_goals exact absurd rfl (hne _ (by decide))

/-- A double is read in front of anything as one and the same double. -/
theorem readValue_float {negative : Bool} {m : Nat} {e : Int}
    (h : Decimal.Binary.Canonical .double (.finite negative m e)) :
    ∃ x, ∀ fuel depth rest, EndsNumber rest →
      readValue (fuel + 1) depth (asPieces (render (.float (.finite negative m e))) ++ rest) =
        .ok (.float x, rest) := by
  obtain ⟨x, hread⟩ := readNumber_floatText negative h
  obtain ⟨c, cs, hcs, hc⟩ := floatText_head h
  refine ⟨x, fun fuel depth rest hrest => ?_⟩
  have hmore := (local_readNumber negative hread).2 rest hrest
  rw [hcs, asPieces_cons, List.cons_append, List.nil_append] at hmore
  rw [render_finite, hcs]
  cases negative with
  | false =>
    simp only [Bool.false_eq_true, if_false, List.nil_append, asPieces_cons, List.cons_append, readValue_digit hc]
    exact hmore
  | true =>
    simp only [if_true, asPieces_cons, List.cons_append, List.nil_append, readValue_minus]
    exact hmore

/-- An integer of 64 bits is read back in front of anything that does not continue it. -/
theorem readValue_integer {n : Int} (hn : integerFits n = true) (fuel depth : Nat) {rest : List Piece}
    (hrest : EndsNumber rest) :
    readValue (fuel + 1) depth (asPieces (render (.integer n)) ++ rest) = .ok (.integer n, rest) := by
  have hnumber := readNumber_integer hn hrest
  rw [render, renderInteger]
  by_cases hneg : n < 0
  · rw [if_pos hneg, List.singleton_append, asPieces_cons, List.cons_append, readValue_minus]
    rwa [decide_eq_true hneg] at hnumber
  · obtain ⟨c, cs, hcs⟩ := List.exists_cons_of_ne_nil (Nat.toDigits_ne_nil (n := n.natAbs) (b := 10))
    have hc : c.isDigit = true :=
      Nat.isDigit_of_mem_toDigits (b := 10) (n := n.natAbs) (by decide) (by decide)
        (hcs ▸ List.mem_cons_self ..)
    rw [if_neg hneg, List.nil_append, hcs, asPieces_cons, List.cons_append, readValue_digit hc]
    rwa [decide_eq_false hneg, hcs] at hnumber

/-! ## Items and fields -/

/-- The text of the items of an array behind its bracket, or behind an item. -/
private def itemsText : Bool → List Json → List Char
  | true, v :: vs => render v ++ renderItems vs
  | true, [] => renderItems []
  | false, vs => renderItems vs

/-- The text of the fields of an object behind its brace, or behind a field. -/
private def fieldsText : Bool → List (String × Json) → List Char
  | true, (k, v) :: fields => renderString k ++ ':' :: render v ++ renderFields fields
  | true, [] => renderFields []
  | false, fields => renderFields fields

private lemma render_array (items : List Json) : render (.array items) = '[' :: itemsText true items := by
  cases items <;> rfl

private lemma render_object (fields : List (String × Json)) :
    render (.object fields) = '\x7b' :: fieldsText true fields := by
  rcases fields with _ | ⟨⟨k, v⟩, fields⟩ <;> rfl

private lemma nextItem_nil (first : Bool) (rest : List Piece) :
    nextItem first (asPieces (itemsText first []) ++ rest) = .ok (.inr rest) := by
  cases first <;> rfl

private lemma nextItem_cons (first : Bool) {v : Json} (hv : v.WellFormed) (vs : List Json)
    (rest : List Piece) :
    nextItem first (asPieces (itemsText first (v :: vs)) ++ rest) =
      .ok (.inl (asPieces (render v) ++ (asPieces (renderItems vs) ++ rest))) := by
  obtain ⟨c, cs, hcs, hblank, hclose, hcomma⟩ := render_head hv
  have hskip := skipBlanks_cons hblank
  cases first with
  | true =>
    rw [itemsText, asPieces_append, List.append_assoc, hcs, asPieces_cons, List.cons_append, nextItem,
      hskip]
    split <;> simp_all
  | false =>
    rw [itemsText, renderItems, List.cons_append, asPieces_cons, asPieces_append, List.cons_append,
      List.append_assoc, hcs, asPieces_cons, List.cons_append, nextItem, skipBlanks_cons rfl]
    simp only [Bool.false_eq_true, if_false, hskip]
    split <;> simp_all

private lemma nextName_nil (first : Bool) (rest : List Piece) :
    nextName first (asPieces (fieldsText first []) ++ rest) = .ok (.inr rest) := by
  cases first <;> rfl

private lemma nextName_cons (first : Bool) (k : String) (v : Json) (fields : List (String × Json))
    (rest : List Piece) :
    nextName first (asPieces (fieldsText first ((k, v) :: fields)) ++ rest) =
      .ok (.inl (asPieces (k.toList.flatMap escape) ++ .char '"' :: .char ':' ::
        (asPieces (render v) ++ (asPieces (renderFields fields) ++ rest)))) := by
  cases first <;>
    simp [fieldsText, renderFields, renderString, nextName, skipBlanks, isBlank]

private lemma length_renderItems_pos (vs : List Json) : 0 < (renderItems vs).length := by
  cases vs <;> simp [renderItems]

private lemma length_itemsText_pos (first : Bool) (vs : List Json) :
    0 < (itemsText first vs).length := by
  rcases first with _ | _ <;> rcases vs with _ | ⟨v, vs⟩
  case true.cons =>
    have hrest := length_renderItems_pos vs
    rw [itemsText, List.length_append]
    omega
  all_goals exact length_renderItems_pos _

private lemma length_fieldsText_pos (first : Bool) (fields : List (String × Json)) :
    0 < (fieldsText first fields).length := by
  rcases first with _ | _ <;> rcases fields with _ | ⟨⟨k, v⟩, fields⟩
  all_goals
    simp only [fieldsText, renderFields, List.length_cons, List.length_append]
    omega

private lemma endsNumber_renderItems (vs : List Json) (rest : List Piece) :
    EndsNumber (asPieces (renderItems vs) ++ rest) := by
  cases vs with
  | nil => exact (rfl : continuesNumber (.char ']') = false)
  | cons v vs => exact (rfl : continuesNumber (.char ',') = false)

private lemma endsNumber_renderFields (fields : List (String × Json)) (rest : List Piece) :
    EndsNumber (asPieces (renderFields fields) ++ rest) := by
  cases fields with
  | nil => exact (rfl : continuesNumber (.char '\x7d') = false)
  | cons field fields => exact (rfl : continuesNumber (.char ',') = false)

/-! ## Values -/

/-- A value whose text is read to its end is what a reader gives for the text. -/
lemma read_print_of_readValue {v w : Json}
    (h : readValue (fuelFor (asPieces (render v))) depthLimit (asPieces (render v)) = .ok (w, [])) :
    read v.print = .ok w := by
  rw [read, print, pieces_eq_asPieces, readWithin, h]
  rfl

/-- With this fuel, every written value is read that the reader can hold, and as itself if its floating-point
numbers are. -/
private def ReadsValues (fuel : Nat) : Prop :=
  ∀ (v : Json) (depth : Nat) (rest : List Piece), v.WellFormed → v.depth ≤ depth →
    2 * (render v).length ≤ fuel → EndsNumber rest →
      ∃ w, readValue fuel depth (asPieces (render v) ++ rest) = .ok (w, rest) ∧ (v.FloatsReadBack → w = v)

private def ReadsItems (fuel : Nat) : Prop :=
  ∀ (vs : List Json) (depth n : Nat) (rest : List Piece), WellFormedItems vs → depthItems vs ≤ depth →
    2 * (itemsText (n == 0) vs).length ≤ fuel →
      ∃ ws, readItems fuel depth n (asPieces (itemsText (n == 0) vs) ++ rest) = .ok (ws, rest) ∧
        (FloatsReadBackItems vs → ws = vs)

private def ReadsFields (fuel : Nat) : Prop :=
  ∀ (fields : List (String × Json)) (depth : Nat) (first : Bool) (rest : List Piece),
    WellFormedFields fields → depthFields fields ≤ depth → 2 * (fieldsText first fields).length ≤ fuel →
      ∃ given, readFields fuel depth first (asPieces (fieldsText first fields) ++ rest) = .ok (given, rest) ∧
        (FloatsReadBackFields fields → given = fields)

private lemma readsValues_succ {fuel : Nat} (hitems : ReadsItems fuel) (hfields : ReadsFields fuel) :
    ReadsValues (fuel + 1) := by
  intro v depth rest hwell hdepth hfuel hrest
  cases v with
  | null => exact ⟨.null, by simp [render, readValue, skipBlanks, isBlank, readWord, Except.map], fun _ => rfl⟩
  | bool value =>
    refine ⟨.bool value, ?_, fun _ => rfl⟩
    cases value <;> simp [render, readValue, skipBlanks, isBlank, readWord, Except.map]
  | integer n => exact ⟨.integer n, readValue_integer hwell fuel depth hrest, fun _ => rfl⟩
  | float x =>
    cases x with
    | nan => exact hwell.elim
    | infinite _ => exact hwell.elim
    | finite negative m e =>
      obtain ⟨x, hread⟩ := readValue_float hwell
      refine ⟨.float x, hread fuel depth rest hrest, fun hback => ?_⟩
      -- alone it is read as the same double
      have halone := hread (2 * (asPieces (render (.float (.finite negative m e)))).length + 1) depthLimit []
        trivial
      rw [List.append_nil] at halone
      exact Except.ok.inj ((read_print_of_readValue halone).symm.trans hback)
  | string s =>
    refine ⟨.string s, ?_, fun _ => rfl⟩
    have hcontent := readText_written s rest
    simp only [render, renderString, List.cons_append, asPieces_cons, asPieces_append, asPieces_nil,
      List.append_assoc, List.nil_append]
    rw [readValue, skipBlanks_cons rfl]
    simp only [hcontent]
    rfl
  | array items =>
    -- the bracket pays for the step of fuel and the step of depth
    rw [render_array] at hfuel ⊢
    rw [List.length_cons] at hfuel
    rw [Json.depth] at hdepth
    obtain ⟨depth, rfl⟩ := Nat.exists_eq_succ_of_ne_zero (n := depth) (by omega)
    obtain ⟨given, hread, hback⟩ := hitems items depth 0 rest hwell (by omega) (by rw [beq_self_eq_true]; omega)
    rw [beq_self_eq_true] at hread
    refine ⟨.array given, ?_, fun h => congrArg Json.array (hback h)⟩
    rw [asPieces_cons, List.cons_append, readValue, skipBlanks_cons rfl]
    simp only [hread, Except.map]
  | object fields =>
    rw [render_object] at hfuel ⊢
    rw [List.length_cons] at hfuel
    rw [Json.depth] at hdepth
    obtain ⟨depth, rfl⟩ := Nat.exists_eq_succ_of_ne_zero (n := depth) (by omega)
    obtain ⟨given, hread, hback⟩ := hfields fields depth true rest hwell.2 (by omega) (by omega)
    refine ⟨.ofFields given, ?_, fun h => ?_⟩
    · rw [asPieces_cons, List.cons_append, readValue, skipBlanks_cons rfl]
      simp only [hread, Except.map]
    · rw [hback h, ofFields, Fields.ofList_of_ascending hwell.1]

private lemma readsItems_succ {fuel : Nat} (hvalues : ReadsValues fuel) (hitems : ReadsItems fuel) :
    ReadsItems (fuel + 1) := by
  intro vs depth n rest hwell hdepth hfuel
  cases vs with
  | nil => exact ⟨[], by rw [readItems, nextItem_nil], fun _ => rfl⟩
  | cons v vs =>
    -- an item takes fuel for itself and for the items behind it
    have hlength : (render v).length + (renderItems vs).length ≤ (itemsText (n == 0) (v :: vs)).length := by
      cases n == 0
      · simp only [itemsText, renderItems, List.cons_append, List.length_cons, List.length_append]
        omega
      · have happend : (itemsText true (v :: vs)).length = (render v).length + (renderItems vs).length := by
          rw [itemsText, List.length_append]
        omega
    have hhead : 0 < (render v).length := by
      obtain ⟨c, cs, hcs, -⟩ := render_head hwell.1
      rw [hcs]
      exact Nat.succ_pos _
    have hrest := length_renderItems_pos vs
    rw [depthItems] at hdepth
    obtain ⟨w, hvalue, hback⟩ := hvalues v depth (asPieces (renderItems vs) ++ rest) hwell.1 (by omega)
      (by omega) (endsNumber_renderItems vs rest)
    obtain ⟨ws, htail, hbacks⟩ := hitems vs depth (n + 1) rest hwell.2 (by omega)
      (by rw [show (n + 1 == 0) = false from rfl, itemsText]; omega)
    rw [show (n + 1 == 0) = false from rfl, itemsText] at htail
    refine ⟨w :: ws, ?_, fun h => by rw [hback h.1, hbacks h.2]⟩
    rw [readItems, nextItem_cons _ hwell.1]
    simp only [hvalue, htail, Except.map]

private lemma readsFields_succ {fuel : Nat} (hvalues : ReadsValues fuel) (hfields : ReadsFields fuel) :
    ReadsFields (fuel + 1) := by
  intro fields depth first rest hwell hdepth hfuel
  cases fields with
  | nil => exact ⟨[], by rw [readFields, nextName_nil], fun _ => rfl⟩
  | cons field fields =>
    obtain ⟨k, v⟩ := field
    have hlength : (render v).length + (renderFields fields).length + 1 ≤
        (fieldsText first ((k, v) :: fields)).length := by
      cases first
      all_goals
        simp only [fieldsText, renderFields, List.cons_append, List.length_cons, List.length_append]
        omega
    rw [depthFields] at hdepth
    obtain ⟨w, hvalue, hback⟩ := hvalues v depth (asPieces (renderFields fields) ++ rest) hwell.1 (by omega)
      (by omega) (endsNumber_renderFields fields rest)
    obtain ⟨given, htail, hbacks⟩ := hfields fields depth false rest hwell.2 (by omega)
      (by rw [fieldsText]; omega)
    have hcolon : skipColon (.char ':' :: (asPieces (render v) ++ (asPieces (renderFields fields) ++ rest))) =
        .ok (asPieces (render v) ++ (asPieces (renderFields fields) ++ rest)) := rfl
    rw [fieldsText] at htail
    refine ⟨(k, w) :: given, ?_, fun h => by rw [hback h.1, hbacks h.2]⟩
    rw [readFields, nextName_cons]
    simp only [readText_written, hcolon, hvalue, htail, Except.map]

/-- By induction on the fuel: a value needs one step more than its items or fields, and these one step
more than each value among them. -/
private lemma reads_all (fuel : Nat) : ReadsValues fuel ∧ ReadsItems fuel ∧ ReadsFields fuel := by
  induction fuel with
  | zero =>
    -- no text is so short that it needs no fuel
    refine ⟨fun v _ _ hwell _ hfuel _ => ?_, fun vs _ n _ _ _ hfuel => ?_,
      fun fields _ first _ _ _ hfuel => ?_⟩
    · obtain ⟨c, cs, hcs, -⟩ := render_head hwell
      rw [hcs, List.length_cons] at hfuel
      omega
    · have hpositive := length_itemsText_pos (n == 0) vs
      omega
    · have hpositive := length_fieldsText_pos first fields
      omega
  | succ fuel ih =>
    obtain ⟨hvalues, hitems, hfields⟩ := ih
    exact ⟨readsValues_succ hitems hfields, readsItems_succ hvalues hitems,
      readsFields_succ hvalues hfields⟩

/-- A value no deeper than the reader goes is read, and as itself if its floating-point numbers are. -/
private lemma exists_read_print {v : Json} (hwell : v.WellFormed) (hdepth : v.depth ≤ depthLimit) :
    ∃ w, read v.print = .ok w ∧ (v.FloatsReadBack → w = v) := by
  obtain ⟨w, hvalue, hback⟩ := (reads_all (fuelFor (asPieces (render v)))).1 v depthLimit [] hwell hdepth
    (by rw [fuelFor, length_asPieces]; omega) trivial
  rw [List.append_nil] at hvalue
  exact ⟨w, read_print_of_readValue hvalue, hback⟩

/-- A value that a reader gets back from its text: it is one that the reader can give, no deeper than the
reader goes, and its floating-point numbers are read back. -/
structure Storable (v : Json) : Prop where
  wellFormed : v.WellFormed
  shallow : v.depth ≤ depthLimit
  readBack : v.FloatsReadBack

/-- Every storable value is read back from its text. -/
theorem read_print {v : Json} (h : v.Storable) : read v.print = .ok v := by
  obtain ⟨w, hread, hback⟩ := exists_read_print h.wellFormed h.shallow
  rw [hread, hback h.readBack]

/-- A value that the reader can give, no deeper than it goes. -/
def Shallow (v : Json) : Prop :=
  v.WellFormed ∧ v.depth ≤ depthLimit

/-- A value whose text is read, as this value or another one. -/
def Readable (v : Json) : Prop :=
  ∃ w, read v.print = .ok w

/-- A value that is not too deep is readable, whatever its numbers. -/
theorem Shallow.readable {v : Json} (h : v.Shallow) : v.Readable := by
  obtain ⟨w, hread, -⟩ := exists_read_print h.1 h.2
  exact ⟨w, hread⟩

lemma shallow_null : Shallow .null :=
  ⟨trivial, by simp [depth]⟩

lemma shallow_string (s : String) : Shallow (.string s) :=
  ⟨trivial, by simp [depth]⟩

lemma storable_null : Storable .null :=
  ⟨trivial, by simp [depth], trivial⟩

lemma storable_bool (b : Bool) : Storable (.bool b) :=
  ⟨trivial, by simp [depth], trivial⟩

/-- Every string is storable. -/
theorem storable_string (s : String) : Storable (.string s) :=
  ⟨trivial, by simp [depth], trivial⟩

/-! ## Values that are too deep -/

/-- A value inside arrays begins with their brackets. -/
lemma render_nested (n : Nat) (v : Json) : ∃ rest, render (nested n v) = List.replicate n '[' ++ rest := by
  induction n with
  | zero => exact ⟨_, rfl⟩
  | succ n ih =>
    obtain ⟨rest, hrest⟩ := ih
    refine ⟨rest ++ renderItems [], ?_⟩
    rw [nested, render, hrest, List.replicate_succ, List.cons_append, List.cons_append, List.append_assoc]

/-- One bracket more than the reader goes deep is too many. -/
private lemma readValue_brackets (depth fuel : Nat) (rest : List Piece) :
    ∃ fault, readValue fuel depth (asPieces (List.replicate (depth + 1) '[') ++ rest) = .error fault := by
  induction depth generalizing fuel with
  | zero =>
    cases fuel with
    | zero => exact ⟨_, by rw [readValue]⟩
    | succ fuel =>
      rw [List.replicate_succ, asPieces_cons, List.cons_append, readValue, skipBlanks_cons rfl]
      exact ⟨_, rfl⟩
  | succ depth ih =>
    -- the first item fails, if the fuel lasts that long
    have hitems : ∀ fuel, ∃ fault,
        readItems fuel depth 0 (asPieces (List.replicate (depth + 1) '[') ++ rest) = .error fault := by
      intro fuel
      cases fuel with
      | zero => exact ⟨_, by rw [readItems]⟩
      | succ fuel =>
        obtain ⟨fault, hfault⟩ := ih fuel
        have hitem : nextItem true (asPieces (List.replicate (depth + 1) '[') ++ rest) =
            .ok (.inl (asPieces (List.replicate (depth + 1) '[') ++ rest)) := rfl
        rw [readItems, beq_self_eq_true, hitem]
        simp only [hfault]
        exact ⟨_, rfl⟩
    cases fuel with
    | zero => exact ⟨_, by rw [readValue]⟩
    | succ fuel =>
      obtain ⟨fault, hfault⟩ := hitems fuel
      refine ⟨fault, ?_⟩
      rw [List.replicate_succ, asPieces_cons, List.cons_append, readValue, skipBlanks_cons rfl]
      show (readItems fuel depth 0 _).map _ = _
      rw [hfault]
      rfl

/-- A value that is nested deeper than the reader goes is not read back. -/
theorem read_print_nested {n : Nat} (hn : depthLimit < n) (v : Json) :
    ∃ e, read (nested n v).print = .error e := by
  obtain ⟨rest, hrest⟩ := render_nested n v
  obtain ⟨more, rfl⟩ : ∃ more, n = depthLimit + 1 + more := ⟨n - (depthLimit + 1), by omega⟩
  rw [← List.replicate_append_replicate, List.append_assoc] at hrest
  rw [read, print, readWithin, pieces_eq_asPieces, hrest, asPieces_append]
  obtain ⟨fault, hfault⟩ := readValue_brackets depthLimit _ (asPieces (List.replicate more '[' ++ rest))
  rw [hfault]
  exact ⟨_, rfl⟩

end Json

end LayeredCache
