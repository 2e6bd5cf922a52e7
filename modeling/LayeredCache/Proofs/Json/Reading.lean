import LayeredCache.Proofs.Decimal.Canonical
import LayeredCache.Proofs.Json.RoundTrip
import LayeredCache.Server.Handler

/-!
# What a reader gives

Every value that is read off a text is well formed and no deeper than the reader goes (`bounded_readValue`).
The value of a request to store leaves room for the request around it (`SetRequest.roomy_readPieces`).
-/

namespace LayeredCache

namespace Json

open Text (Piece)

/-! ## Well-formed values of a depth -/

/-- A well-formed value that is nested no deeper than `n`. -/
def Bounded (n : Nat) (v : Json) : Prop :=
  v.WellFormed ∧ v.depth ≤ n

variable {n : Nat}

lemma bounded_items {vs : List Json} (h : ∀ v ∈ vs, Bounded n v) :
    WellFormedItems vs ∧ depthItems vs ≤ n := by
  induction vs with
  | nil => exact ⟨trivial, Nat.zero_le _⟩
  | cons v vs ih =>
    obtain ⟨⟨hwell, hdepth⟩, hvs⟩ := List.forall_mem_cons.1 h
    obtain ⟨hwells, hdepths⟩ := ih hvs
    exact ⟨⟨hwell, hwells⟩, Nat.max_le.2 ⟨hdepth, hdepths⟩⟩

lemma bounded_fields {fields : List (String × Json)} (h : ∀ field ∈ fields, Bounded n field.2) :
    WellFormedFields fields ∧ depthFields fields ≤ n := by
  induction fields with
  | nil => exact ⟨trivial, Nat.zero_le _⟩
  | cons field fields ih =>
    obtain ⟨⟨hwell, hdepth⟩, hfields⟩ := List.forall_mem_cons.1 h
    obtain ⟨hwells, hdepths⟩ := ih hfields
    exact ⟨⟨hwell, hwells⟩, Nat.max_le.2 ⟨hdepth, hdepths⟩⟩

lemma bounded_array {vs : List Json} (h : ∀ v ∈ vs, Bounded n v) : Bounded (n + 1) (.array vs) :=
  ⟨(bounded_items h).1, Nat.succ_le_succ (bounded_items h).2⟩

/-- The fields of an object are put in order when they have been read. -/
lemma bounded_ofFields {fields : List (String × Json)} (h : ∀ field ∈ fields, Bounded n field.2) :
    Bounded (n + 1) (.ofFields fields) := by
  have hsorted := bounded_fields fun field hfield => h field (Fields.mem_ofList hfield)
  exact ⟨⟨Fields.ascending_ofList fields, hsorted.1⟩, Nat.succ_le_succ hsorted.2⟩

/-! ## What is read -/

/-- What was read off a text, if anything, has the property. -/
def Gives {α : Type} (P : α → Prop) : Except Fault (α × List Piece) → Prop
  | .ok (a, _) => P a
  | .error _ => True

lemma Gives.map {α β : Type} {P : α → Prop} {Q : β → Prop} {result : Except Fault (α × List Piece)}
    (h : Gives P result) {f : α → β} (hf : ∀ a, P a → Q (f a)) :
    Gives Q (result.map fun (a, rest) => (f a, rest)) := by
  cases result with
  | error fault => trivial
  | ok read => exact hf read.1 h

lemma Gives.mapError {α : Type} {P : α → Prop} {result : Except Fault (α × List Piece)} (h : Gives P result)
    (f : Fault → Fault) : Gives P (result.mapError f) := by
  cases result with
  | error fault => trivial
  | ok read => exact h

lemma Gives.of_forall {α : Type} {P : α → Prop} (h : ∀ a, P a) (result : Except Fault (α × List Piece)) :
    Gives P result := by
  cases result with
  | error fault => trivial
  | ok read => exact h read.1

lemma Gives.ite {α : Type} {P : α → Prop} {c : Prop} [Decidable c] {yes no : Except Fault (α × List Piece)}
    (hyes : c → Gives P yes) (hno : ¬c → Gives P no) : Gives P (if c then yes else no) := by
  split
  · exact hyes ‹_›
  · exact hno ‹_›

lemma Gives.bind {α β : Type} {P : α → Prop} {result : Except Fault β} {next : β → Except Fault (α × List Piece)}
    (h : ∀ b, result = .ok b → Gives P (next b)) : Gives P (result >>= next) := by
  cases result with
  | error fault => trivial
  | ok b => exact h b rfl

lemma Gives.of_ok {α : Type} {P : α → Prop} {result : Except Fault (α × List Piece)} (h : Gives P result)
    {a : α} {rest : List Piece} (hok : result = .ok (a, rest)) : P a := by
  rw [hok] at h
  exact h

/-! ## Numbers -/

lemma bounded_floatOf (negative : Bool) (d : Decimal) (ps : List Piece) :
    Gives (Bounded n) (floatOf negative d ps) := by
  have hcanonical := Decimal.toBinaryStepwise_canonical d
  unfold floatOf
  split
  · rename_i hfinite
    rw [hfinite] at hcanonical
    exact ⟨hcanonical, Nat.zero_le _⟩
  · trivial

lemma bounded_readExponent (negative : Bool) (coefficient : Nat) (scale : Int) (ps : List Piece) :
    Gives (Bounded n) (readExponent negative coefficient scale ps) := by
  unfold readExponent
  dsimp only
  split
  · trivial
  · split
    · trivial
    · split
      · exact bounded_floatOf ..
      · -- an exponent far below zero leaves a zero
        exact .ite (fun _ => trivial) fun _ => ⟨⟨by decide, by decide, by decide, by decide⟩, Nat.zero_le _⟩

lemma bounded_readFraction (negative : Bool) (whole : List Nat) (ps : List Piece) :
    Gives (Bounded n) (readFraction negative whole ps) := by
  unfold readFraction
  dsimp only
  split
  · split
    · trivial
    · trivial
    · split
      · exact bounded_readExponent ..
      · exact bounded_readExponent ..
      · exact bounded_floatOf ..
  · exact bounded_readExponent ..
  · exact bounded_readExponent ..
  · exact .ite (fun hinteger => ⟨(Bool.and_eq_true_iff.1 hinteger).1, Nat.zero_le _⟩)
      fun _ => bounded_floatOf ..

lemma bounded_readNumber (negative : Bool) (ps : List Piece) :
    Gives (Bounded n) (readNumber negative ps) := by
  unfold readNumber
  split
  · trivial
  · split
    · trivial
    · split
      · exact bounded_readFraction ..
      · split
        · trivial
        · exact bounded_readFraction ..
    · exact bounded_readFraction ..

/-! ## Values -/

/-- What is read with some fuel is well formed and no deeper than asked for. -/
private structure ReadsBounded (fuel : Nat) : Prop where
  value (depth ps) : Gives (Bounded depth) (readValue fuel depth ps)
  items (depth n ps) : Gives (fun vs => ∀ v ∈ vs, Bounded depth v) (readItems fuel depth n ps)
  fields (depth first ps) :
    Gives (fun fields => ∀ field ∈ fields, Bounded depth field.2) (readFields fuel depth first ps)

private lemma bounded_readWord (word : List Char) (v : Json) (hv : Bounded n v) (ps : List Piece) :
    Gives (Bounded n) ((readWord word ps).map fun rest => (v, rest)) := by
  cases readWord word ps with
  | error fault => trivial
  | ok rest => exact hv

private lemma ReadsBounded.readValue {fuel : Nat} (h : ReadsBounded fuel) (depth : Nat) (ps : List Piece) :
    Gives (Bounded depth) (readValue (fuel + 1) depth ps) := by
  rw [Json.readValue]
  split
  · trivial
  · exact (Gives.of_forall (fun _ => trivial) _).map fun text (_ : True) => ⟨trivial, Nat.zero_le _⟩
  · cases depth with
    | zero => trivial
    | succ depth => exact (h.items depth 0 _).map fun _ hvs => bounded_array hvs
  · cases depth with
    | zero => trivial
    | succ depth => exact (h.fields depth true _).map fun _ hfields => bounded_ofFields hfields
  · exact bounded_readWord _ .null ⟨trivial, Nat.zero_le _⟩ _
  · exact bounded_readWord _ (.bool true) ⟨trivial, Nat.zero_le _⟩ _
  · exact bounded_readWord _ (.bool false) ⟨trivial, Nat.zero_le _⟩ _
  · exact bounded_readNumber ..
  · split
    · exact bounded_readNumber ..
    · trivial

private lemma ReadsBounded.readItems {fuel : Nat} (h : ReadsBounded fuel) (depth n : Nat) (ps : List Piece) :
    Gives (fun vs => ∀ v ∈ vs, Bounded depth v) (readItems (fuel + 1) depth n ps) := by
  rw [Json.readItems]
  split
  · trivial
  · exact List.forall_mem_nil _
  · split
    · trivial
    · rename_i hvalue
      exact (h.items ..).map fun _ hvs => List.forall_mem_cons.2 ⟨(h.value ..).of_ok hvalue, hvs⟩

private lemma ReadsBounded.readFields {fuel : Nat} (h : ReadsBounded fuel) (depth : Nat) (first : Bool)
    (ps : List Piece) :
    Gives (fun fields => ∀ field ∈ fields, Bounded depth field.2) (readFields (fuel + 1) depth first ps) := by
  rw [Json.readFields]
  split
  · trivial
  · exact List.forall_mem_nil _
  · split
    · trivial
    · split
      · trivial
      · split
        · trivial
        · rename_i hvalue
          exact (h.fields ..).map fun _ hfields =>
            List.forall_mem_cons.2 ⟨(h.value ..).of_ok hvalue, hfields⟩

private lemma readsBounded (fuel : Nat) : ReadsBounded fuel := by
  induction fuel with
  | zero =>
    constructor
    · intro depth ps
      rw [readValue]
      trivial
    · intro depth n ps
      rw [readItems]
      trivial
    · intro depth first ps
      rw [readFields]
      trivial
  | succ fuel ih => exact ⟨ih.readValue, ih.readItems, ih.readFields⟩

/-- A value that is read is well formed and no deeper than the reader goes. -/
theorem bounded_readValue (fuel depth : Nat) (ps : List Piece) :
    Gives (Bounded depth) (readValue fuel depth ps) :=
  (readsBounded fuel).value depth ps

end Json

/-! ## Requests to store -/

namespace SetRequest

open Text (Piece)
open Json

/-- A request whose value leaves room for the request around it. -/
def Roomy (request : SetRequest) : Prop :=
  request.value.Bounded valueDepth

/-- Such a value alone is less deep than the reader goes. -/
lemma shallow_of_bounded {v : Json} (h : v.Bounded valueDepth) : v.Shallow :=
  ⟨h.1, Nat.le_succ_of_le h.2⟩

private lemma bounded_readStored (ps : List Piece) : Gives (Bounded valueDepth) (readStored ps) :=
  bounded_readValue ..

/-- Whatever else is found in the place of what is expected, nothing is given. -/
private lemma gives_unexpected {α : Type} {P : α → Prop} (expected : String) (ps : List Piece) :
    Gives P (unexpected expected ps) := by
  unfold unexpected
  dsimp only
  split
  · trivial
  · trivial
  · split <;> trivial

private lemma roomy_ofFields (key : Option String) {value : Option Json}
    (hvalue : ∀ v, value = some v → Bounded valueDepth v) (ps : List Piece) :
    Gives Roomy (ofFields key value ps) := by
  unfold ofFields
  split
  · trivial
  · trivial
  · exact hvalue _ rfl

private lemma roomy_readArray (ps : List Piece) : Gives Roomy (readArray ps) := by
  unfold readArray
  refine .bind fun place _ => ?_
  cases place with
  | inr rest => trivial
  | inl ps =>
    refine .bind fun ⟨key, ps⟩ _ => ?_
    refine .bind fun place _ => ?_
    cases place with
    | inr rest => trivial
    | inl ps =>
      refine .bind fun ⟨value, ps⟩ hvalue => ?_
      exact .bind fun rest _ => ((bounded_readStored _).mapError _).of_ok hvalue

private lemma roomy_readFields (fuel : Nat) (first : Bool) (key : Option String) (value : Option Json)
    (hvalue : ∀ v, value = some v → Bounded valueDepth v) (ps : List Piece) :
    Gives Roomy (readFields fuel first key value ps) := by
  induction fuel generalizing first key value ps with
  | zero => trivial
  | succ fuel ih =>
    rw [readFields]
    refine .bind fun place _ => ?_
    cases place with
    | inr rest => exact roomy_ofFields key hvalue rest
    | inl rest =>
      refine .bind fun ⟨name, rest⟩ _ => ?_
      dsimp only
      refine .ite (fun _ => ?_) fun _ => .ite (fun _ => ?_) fun _ => ?_
      · refine .ite (fun _ => trivial) fun _ => .bind fun ps _ => .bind fun ⟨key, ps⟩ _ => ?_
        exact ih _ _ _ hvalue _
      · refine .ite (fun _ => trivial) fun _ => .bind fun ps _ => .bind fun ⟨stored, ps⟩ hstored => ?_
        refine ih _ _ _ (fun v hv => ?_) _
        exact Option.some.inj hv ▸ ((bounded_readStored _).mapError _).of_ok hstored
      · exact .bind fun ps _ => .bind fun ps _ => ih _ _ _ hvalue _

/-- A request that is read has a value that leaves room for the request. -/
theorem roomy_readPieces (ps : List Piece) : Gives Roomy (readPieces ps) := by
  unfold readPieces
  split
  · trivial
  · exact roomy_readArray _
  · exact roomy_readFields _ _ none none nofun _
  · exact gives_unexpected _ _

end SetRequest

/-- A body that is accepted holds a value that leaves room for the request. -/
lemma Server.roomy_readBody {contentType : Option String} {body : List UInt8} {request : SetRequest}
    (h : readBody contentType body = .ok request) : request.Roomy := by
  unfold readBody at h
  split at h
  · cases h
  · split at h
    · cases h
    · dsimp only at h
      split at h
      · rename_i hread
        exact Except.ok.inj h ▸ (SetRequest.roomy_readPieces _).of_ok hread
      · split at h <;> cases h

end LayeredCache
