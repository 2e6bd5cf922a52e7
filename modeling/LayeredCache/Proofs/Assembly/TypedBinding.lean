import LayeredCache.Proofs.Assembly.BuildFaults
import LayeredCache.Proofs.Text.OctetOrder

/-!
# What a layer gets from its properties

A layer is asked for the kinds of its attributes, is given values of these kinds one after another, and is started at
last. To say so, the layer is put under one that keeps a record of what it is asked and passes everything on.
-/

namespace LayeredCache

variable {E : Extension}

/-- What is read as a value of a kind is of that kind. -/
lemma PropertyKind.kind_of_coerce {kind : PropertyKind} {id property raw : String} {value : PropertyValue}
    (h : kind.coerce id property raw = .ok value) : value.kind = kind := by
  have hinteger {bits : Nat} {make : Int → PropertyValue} (hmake : ∀ n, (make n).kind = kind)
      (h : readInteger property kind bits make raw = .ok value) : value.kind = kind := by
    unfold readInteger at h
    split at h
    · exact Except.ok.inj h ▸ hmake _
    · cases h
  have hfloat {f : Decimal.BinaryFormat} {make : Decimal.Binary → PropertyValue} (hmake : ∀ x, (make x).kind = kind)
      (h : readFloat property kind f make raw = .ok value) : value.kind = kind := by
    unfold readFloat at h
    split at h
    · exact Except.ok.inj h ▸ hmake _
    · cases h
  cases kind with
  | text => exact Except.ok.inj h ▸ rfl
  | int => exact hinteger (fun _ => rfl) h
  | long => exact hinteger (fun _ => rfl) h
  | short => exact hinteger (fun _ => rfl) h
  | byte => exact hinteger (fun _ => rfl) h
  | float => exact hfloat (fun _ => rfl) h
  | double => exact hfloat (fun _ => rfl) h
  | bool => exact Except.ok.inj h ▸ rfl
  | other typeName => cases h

namespace Attributes

variable {τ : Type} {attributes : Attributes τ} {id typeName name raw : String} {kind : PropertyKind}
  {value : PropertyValue} {state next : τ} {entries : List (String × String)} {calls : List (String × PropertyValue)}
  {e : CacheError}

/-! ## A record of what is asked -/

/-- What a layer is asked, and its answer. With a value comes the kind that the layer has declared for the name. -/
inductive Asked where
  | assign (name : String) (value : PropertyValue) (declared : Option PropertyKind) (answer : Except CacheError Unit)
  | start (answer : Except String Unit)

/-- The layer beside a record of what it is asked, the latest at the end. -/
def recorded (attributes : Attributes τ) : Attributes (τ × List Asked) where
  configurable s := attributes.configurable s.1
  kind? s name := attributes.kind? s.1 name
  assign name value s :=
    let (answer, next) := attributes.assign name value s.1
    (answer, next, s.2 ++ [.assign name value (attributes.kind? s.1 name) answer])
  start s :=
    let (answer, next) := attributes.start s.1
    (answer, next, s.2 ++ [.start answer])

lemma assign_recorded (name : String) (value : PropertyValue) (s : τ × List Asked) :
    attributes.recorded.assign name value s =
      ((attributes.assign name value s.1).1, (attributes.assign name value s.1).2,
        s.2 ++ [.assign name value (attributes.kind? s.1 name) (attributes.assign name value s.1).1]) :=
  rfl

lemma start_recorded (s : τ × List Asked) :
    attributes.recorded.start s =
      ((attributes.start s.1).1, (attributes.start s.1).2, s.2 ++ [.start (attributes.start s.1).1]) :=
  rfl

/-- The record changes nothing. -/
lemma bindAll_recorded (id : String) (entries : List (String × String)) (s : τ × List Asked) :
    attributes.bindAll id entries s.1 =
      ((attributes.recorded.bindAll id entries s).1, (attributes.recorded.bindAll id entries s).2.1) := by
  induction entries generalizing s with
  | nil => rfl
  | cons entry entries ih =>
    obtain ⟨name, raw⟩ := entry
    have hkind : attributes.recorded.kind? s name = attributes.kind? s.1 name := rfl
    rw [bindAll, bindAll, hkind]
    cases attributes.kind? s.1 name with
    | none => exact ih s
    | some kind =>
      simp only
      cases kind.coerce id name raw with
      | error e => rfl
      | ok value =>
        simp only [assign_recorded]
        rcases attributes.assign name value s.1 with ⟨_ | _, next⟩
        · rfl
        · exact ih (next, _)

/-- The properties that a layer is asked about: all of them, if it exposes attributes. -/
def offered (attributes : Attributes τ) (properties : Properties) (state : τ) : List (String × String) :=
  if attributes.configurable state then properties.entries else []

/-- The start that follows when all properties are assigned. -/
def started (attributes : Attributes τ) (id typeName : String) : Except CacheError Unit × τ → Except CacheError Unit × τ
  | (.error e, state) => (.error e, state)
  | (.ok (), state) =>
    match attributes.start state with
    | (.ok (), state) => (.ok (), state)
    | (.error source, state) => (.error (.startFailed id typeName source), state)

lemma bind_eq_started (id typeName : String) (properties : Properties) (state : τ) :
    attributes.bind id typeName properties state =
      attributes.started id typeName (attributes.bindAll id (attributes.offered properties state) state) := by
  rw [bind, offered]
  cases attributes.configurable state <;> rfl

lemma started_recorded (id typeName : String) (outcome : Except CacheError Unit) (s : τ × List Asked) :
    attributes.started id typeName (outcome, s.1) =
      ((attributes.recorded.started id typeName (outcome, s)).1,
        (attributes.recorded.started id typeName (outcome, s)).2.1) := by
  cases outcome with
  | error e => rfl
  | ok u =>
    simp only [started, start_recorded]
    rcases attributes.start s.1 with ⟨_ | _, next⟩ <;> rfl

lemma bind_recorded (id typeName : String) (properties : Properties) (s : τ × List Asked) :
    attributes.bind id typeName properties s.1 =
      ((attributes.recorded.bind id typeName properties s).1,
        (attributes.recorded.bind id typeName properties s).2.1) := by
  have hoffered : attributes.recorded.offered properties s = attributes.offered properties s.1 := rfl
  rw [bind_eq_started, bind_eq_started, hoffered, bindAll_recorded, started_recorded]

/-! ## The values of some properties -/

/-- The state that some assignments lead to. -/
def after (attributes : Attributes τ) (calls : List (String × PropertyValue)) (state : τ) : τ :=
  calls.foldl (fun state call => (attributes.assign call.1 call.2 state).2) state

/-- The state in which it is the turn of a name: those before it have been assigned. -/
def turn (attributes : Attributes τ) (calls : List (String × PropertyValue)) (state : τ) (name : String) : τ :=
  attributes.after (calls.filter (·.1 < name)) state

/-- What is assigned for some properties: each property for which the layer declares a kind when it is its turn, once
and as a value that is read from its text, in the order of the octets of the names. -/
structure Assigns (attributes : Attributes τ) (id : String) (entries : List (String × String)) (state : τ)
    (calls : List (String × PropertyValue)) : Prop where
  ordered : calls.Pairwise fun call later => Text.octets call.1 < Text.octets later.1
  read : ∀ call ∈ calls, ∃ raw, (call.1, raw) ∈ entries ∧ call.2.kind.coerce id call.1 raw = .ok call.2
  exposed : ∀ entry ∈ entries, entry.1 ∈ calls.map Prod.fst ↔
    (attributes.kind? (attributes.turn calls state entry.1) entry.1).isSome

/-- It is the turn of a name at once if no smaller one is assigned. -/
lemma turn_eq (h : ∀ call ∈ calls, ¬call.1 < name) : attributes.turn calls state name = state := by
  have hfilter : calls.filter (·.1 < name) = [] := List.filter_eq_nil_iff.2 fun call hcall hlt =>
    h call hcall (of_decide_eq_true hlt)
  rw [turn, hfilter]
  rfl

lemma Assigns.nil : attributes.Assigns id [] state [] :=
  ⟨.nil, nofun, nofun⟩

lemma Assigns.lt_of_mem (h : attributes.Assigns id entries state calls) (hname : ∀ entry ∈ entries, name < entry.1) :
    ∀ call ∈ calls, name < call.1 := by
  intro call hcall
  obtain ⟨raw, hentry, -⟩ := h.read call hcall
  exact hname (call.1, raw) hentry

/-- A property before the others for which the layer declares no kind. -/
lemma Assigns.skip (h : attributes.Assigns id entries state calls) (hname : ∀ entry ∈ entries, name < entry.1)
    (hkind : attributes.kind? state name = Option.none) :
    attributes.Assigns id ((name, raw) :: entries) state calls where
  ordered := h.ordered
  read call hcall := by
    obtain ⟨raw, hentry, hread⟩ := h.read call hcall
    exact ⟨raw, List.mem_cons_of_mem _ hentry, hread⟩
  exposed := by
    have hlater := h.lt_of_mem hname
    refine List.forall_mem_cons.2 ⟨?_, h.exposed⟩
    rw [turn_eq fun call hcall => String.lt_asymm (hlater call hcall), hkind]
    refine ⟨fun hmem => ?_, nofun⟩
    obtain ⟨call, hcall, rfl⟩ := List.mem_map.1 hmem
    exact absurd (hlater call hcall) (String.lt_irrefl _)

/-- A property before the others that is assigned. -/
lemma Assigns.cons (h : attributes.Assigns id entries next calls) (hname : ∀ entry ∈ entries, name < entry.1)
    (hkind : attributes.kind? state name = some kind) (hcoerce : kind.coerce id name raw = .ok value)
    (hassign : attributes.assign name value state = (.ok (), next)) :
    attributes.Assigns id ((name, raw) :: entries) state ((name, value) :: calls) where
  ordered := List.pairwise_cons.2 ⟨fun call hcall => Text.octets_lt_octets.2 (h.lt_of_mem hname call hcall), h.ordered⟩
  read := by
    refine List.forall_mem_cons.2 ⟨⟨raw, List.mem_cons_self, ?_⟩, fun call hcall => ?_⟩
    · rw [PropertyKind.kind_of_coerce hcoerce, hcoerce]
    · obtain ⟨raw, hentry, hread⟩ := h.read call hcall
      exact ⟨raw, List.mem_cons_of_mem _ hentry, hread⟩
  exposed := by
    have hlater := h.lt_of_mem hname
    have hnotBefore : ∀ call ∈ (name, value) :: calls, ¬call.1 < name :=
      List.forall_mem_cons.2 ⟨String.lt_irrefl name, fun call hcall => String.lt_asymm (hlater call hcall)⟩
    refine List.forall_mem_cons.2 ⟨?_, fun entry hentry => ?_⟩
    · rw [turn_eq hnotBefore, hkind]
      exact ⟨fun _ => rfl, fun _ => List.mem_cons_self⟩
    · have hlt := hname entry hentry
      have hne : entry.1 ≠ name := fun heq => String.lt_irrefl _ (heq ▸ hlt)
      have hturn : attributes.turn ((name, value) :: calls) state entry.1 = attributes.turn calls next entry.1 := by
        rw [turn, List.filter_cons_of_pos (by simpa using hlt), after, List.foldl_cons, hassign]
        rfl
      rw [hturn, ← h.exposed entry hentry, List.map_cons, List.mem_cons]
      simp only [hne, false_or]

/-! ## A run on the record -/

/-- A value that the layer has declared the kind of, and that it has taken. -/
def accepted (call : String × PropertyValue) : Asked :=
  .assign call.1 call.2 (some call.2.kind) (.ok ())

/-- A property ends the binding: its text is no value of the kind that the layer declares, or the layer refuses the
value. Of the two, only the latter asks the layer. -/
inductive Refuses (attributes : Attributes τ) (id property raw : String) (state : τ) (e : CacheError) :
    List Asked → Prop
  | unread {kind : PropertyKind} : attributes.kind? state property = some kind →
    kind.coerce id property raw = .error e → Refuses attributes id property raw state e []
  | refused {value : PropertyValue} : attributes.kind? state property = some value.kind →
    value.kind.coerce id property raw = .ok value → (attributes.assign property value state).1 = .error e →
    Refuses attributes id property raw state e [.assign property value (some value.kind) (.error e)]

/-- What is asked while some properties are bound, and the outcome. -/
inductive Binds (attributes : Attributes τ) (id : String) (entries : List (String × String)) (state : τ) :
    Except CacheError Unit → List Asked → Prop
  | all {calls : List (String × PropertyValue)} : attributes.Assigns id entries state calls →
    Binds attributes id entries state (.ok ()) (calls.map accepted)
  | upTo {before rest : List (String × String)} {property raw : String} {calls : List (String × PropertyValue)}
    {e : CacheError} {asked : List Asked} : entries = before ++ (property, raw) :: rest →
    attributes.Assigns id before state calls →
    attributes.Refuses id property raw (attributes.after calls state) e asked →
    Binds attributes id entries state (.error e) (calls.map accepted ++ asked)

lemma Binds.skip {outcome : Except CacheError Unit} {asked : List Asked}
    (h : attributes.Binds id entries state outcome asked) (hname : ∀ entry ∈ entries, name < entry.1)
    (hkind : attributes.kind? state name = Option.none) :
    attributes.Binds id ((name, raw) :: entries) state outcome asked := by
  cases h with
  | all hall => exact .all (hall.skip hname hkind)
  | @upTo before rest _ _ _ _ _ hsplit hbefore hrefuses =>
    have hearlier : ∀ entry ∈ before, name < entry.1 := fun entry hentry => hname entry (by simp [hsplit, hentry])
    exact .upTo (congrArg _ hsplit) (hbefore.skip hearlier hkind) hrefuses

lemma Binds.cons {outcome : Except CacheError Unit} {asked : List Asked}
    (h : attributes.Binds id entries next outcome asked) (hname : ∀ entry ∈ entries, name < entry.1)
    (hkind : attributes.kind? state name = some kind) (hcoerce : kind.coerce id name raw = .ok value)
    (hassign : attributes.assign name value state = (.ok (), next)) :
    attributes.Binds id ((name, raw) :: entries) state outcome (accepted (name, value) :: asked) := by
  cases h with
  | all hall => exact .all (hall.cons hname hkind hcoerce hassign)
  | @upTo before rest property raw' calls e asked' hsplit hbefore hrefuses =>
    have hearlier : ∀ entry ∈ before, name < entry.1 := fun entry hentry => hname entry (by simp [hsplit, hentry])
    have hafter : attributes.after ((name, value) :: calls) state = attributes.after calls next := by
      rw [after, List.foldl_cons, hassign]
      rfl
    have hentries : (name, raw) :: entries = ((name, raw) :: before) ++ (property, raw') :: rest :=
      congrArg _ hsplit
    have hbinds := Binds.upTo hentries (hbefore.cons hearlier hkind hcoerce hassign) (hafter.symm ▸ hrefuses)
    exact hbinds

/-- By induction on the properties: what the record shows is what is assigned for them. -/
lemma binds_of_ascending (attributes : Attributes τ) (id : String) (hascending : Fields.Ascending entries)
    (s : τ × List Asked) :
    ∃ asked, (attributes.recorded.bindAll id entries s).2.2 = s.2 ++ asked ∧
      attributes.Binds id entries s.1 (attributes.recorded.bindAll id entries s).1 asked := by
  induction entries generalizing s with
  | nil => exact ⟨[], (List.append_nil _).symm, .all .nil⟩
  | cons entry entries ih =>
    obtain ⟨name, raw⟩ := entry
    -- all the others have larger names
    obtain ⟨hname, hrest⟩ := List.pairwise_cons.1 hascending
    have hdeclared : attributes.recorded.kind? s name = attributes.kind? s.1 name := rfl
    rw [bindAll, hdeclared]
    cases hkind : attributes.kind? s.1 name with
    | none =>
      -- nothing is asked for a name without a kind
      obtain ⟨asked, hrecord, hbinds⟩ := ih hrest s
      exact ⟨asked, hrecord, hbinds.skip hname hkind⟩
    | some kind =>
      simp only
      cases hcoerce : kind.coerce id name raw with
      | error e => exact ⟨[], (List.append_nil _).symm, .upTo (List.nil_append _).symm .nil (.unread hkind hcoerce)⟩
      | ok value =>
        obtain rfl := PropertyKind.kind_of_coerce hcoerce
        simp only [assign_recorded, hkind]
        rcases hassign : attributes.assign name value s.1 with ⟨_ | _, next⟩
        · -- the refusal is the last that is asked
          refine ⟨_, rfl, .upTo (List.nil_append _).symm .nil (.refused hkind hcoerce ?_)⟩
          exact congrArg Prod.fst hassign
        · obtain ⟨asked, hrecord, hbinds⟩ := ih hrest (next, s.2 ++ [accepted (name, value)])
          exact ⟨accepted (name, value) :: asked, hrecord.trans (List.append_assoc ..),
            hbinds.cons hname hkind hcoerce hassign⟩

lemma ascending_offered (attributes : Attributes τ) (properties : Properties) (state : τ) :
    Fields.Ascending (attributes.offered properties state) := by
  rw [offered]
  split
  · exact properties.ascending
  · exact .nil

/-- What is asked in a whole binding, and the outcome. A layer is started exactly if all is assigned. -/
inductive Runs (attributes : Attributes τ) (id typeName : String) (properties : Properties) (state : τ) :
    Except CacheError Unit → List Asked → Prop
  | starts {calls : List (String × PropertyValue)} :
    attributes.Assigns id (attributes.offered properties state) state calls →
    Runs attributes id typeName properties state (.ok ()) (calls.map accepted ++ [.start (.ok ())])
  | failsToStart {calls : List (String × PropertyValue)} {source : String} :
    attributes.Assigns id (attributes.offered properties state) state calls →
    Runs attributes id typeName properties state (.error (.startFailed id typeName source))
      (calls.map accepted ++ [.start (.error source)])
  | stops {e : CacheError} {asked : List Asked} :
    attributes.Binds id (attributes.offered properties state) state (.error e) asked →
    Runs attributes id typeName properties state (.error e) asked

lemma runs_recorded (id typeName : String) (properties : Properties) (state : τ) :
    attributes.Runs id typeName properties state (attributes.recorded.bind id typeName properties (state, [])).1
      (attributes.recorded.bind id typeName properties (state, [])).2.2 := by
  obtain ⟨asked, hrecord, hbinds⟩ :=
    attributes.binds_of_ascending id (attributes.ascending_offered properties state) (state, [])
  have hoffered : attributes.recorded.offered properties (state, []) = attributes.offered properties state := rfl
  rw [bind_eq_started, hoffered]
  rcases hrun : attributes.recorded.bindAll id (attributes.offered properties state) (state, []) with
    ⟨_ | _, next, record⟩
  · rw [hrun] at hrecord hbinds
    obtain rfl : record = asked := hrecord
    exact .stops hbinds
  · rw [hrun] at hrecord hbinds
    obtain rfl : record = asked := hrecord
    cases hbinds with
    | all hall =>
      simp only [started, start_recorded]
      rcases attributes.start next with ⟨source | _, last⟩
      · exact .failsToStart hall
      · exact .starts hall

/-- Every value is of the kind that the layer has declared. -/
lemma Runs.typed {properties : Properties} {outcome : Except CacheError Unit} {asked : List Asked}
    (h : attributes.Runs id typeName properties state outcome asked) {declared : Option PropertyKind}
    {answer : Except CacheError Unit} (hasked : .assign name value declared answer ∈ asked) :
    declared = some value.kind := by
  have haccepted {calls : List (String × PropertyValue)}
      (hmem : .assign name value declared answer ∈ calls.map accepted) : declared = some value.kind := by
    obtain ⟨call, -, hcall⟩ := List.mem_map.1 hmem
    cases hcall
    rfl
  cases h with
  | starts hall =>
    rcases List.mem_append.1 hasked with hmem | hmem
    · exact haccepted hmem
    · cases List.mem_singleton.1 hmem
  | failsToStart hall =>
    rcases List.mem_append.1 hasked with hmem | hmem
    · exact haccepted hmem
    · cases List.mem_singleton.1 hmem
  | stops hbinds =>
    cases hbinds with
    | upTo hsplit hbefore hrefuses =>
      rcases List.mem_append.1 hasked with hmem | hmem
      · exact haccepted hmem
      · cases hrefuses with
        | unread => cases hmem
        | refused =>
          cases List.mem_singleton.1 hmem
          rfl

/-- A refusal does not start the layer. -/
lemma Binds.start_notMem {outcome : Except CacheError Unit} {asked : List Asked}
    (h : attributes.Binds id entries state outcome asked) (answer : Except String Unit) : .start answer ∉ asked := by
  intro hstart
  cases h with
  | all hall => simp [accepted] at hstart
  | upTo hsplit hbefore hrefuses =>
    rcases List.mem_append.1 hstart with hmem | hmem
    · simp [accepted] at hmem
    · cases hrefuses with
      | unread => cases hmem
      | refused => cases List.mem_singleton.1 hmem

end Attributes

/-! ## Built-in layers -/

/-- The fault of a number is not that of a kind. -/
lemma Spec.NumberFault.ne_mismatch {spec : Spec E} {e : CacheError} (h : spec.NumberFault e) (property : String)
    (expected : PropertyKind) (value : PropertyValue) : e ≠ .mismatch property expected value := by
  -- the reasons begin with different letters
  have hreason {name kind raw reason : String} (hfirst : reason.toList.head? ≠ some 'e') :
      CacheError.invalidProperty name kind raw reason ≠ .mismatch property expected value := by
    intro heq
    obtain ⟨-, -, -, rfl⟩ := CacheError.invalidProperty.inj heq
    refine hfirst ?_
    simp only [String.toList_append, List.append_assoc, List.head?_append]
    rfl
  cases h with
  | @size raw fault _ _ => exact hreason (by cases fault <;> decide)
  | @clearInterval raw fault _ _ => exact hreason (by cases fault <;> decide)
  | notPositive _ _ => exact hreason (by decide)
  | negative _ _ => exact hreason (by decide)

/-- Whatever the layer, its properties are bound in order. Every value that it is given is of the kind that it has
declared just before. If the binding succeeds, each property that it exposes has been assigned, and then the layer has
been started. If it fails at a property, those before that it exposes have been assigned, and the layer has not been
started; the only other failure is that of the start. So no build of built-in layers fails because a layer has been
given a value of another kind. -/
theorem bound_in_order :
    (∀ {τ : Type} (attributes : Attributes τ) (id typeName : String) (properties : Properties) (state : τ),
      ∃ asked, attributes.recorded.bind id typeName properties (state, []) =
          ((attributes.bind id typeName properties state).1, (attributes.bind id typeName properties state).2, asked) ∧
        (∀ name value declared answer, .assign name value declared answer ∈ asked → declared = some value.kind) ∧
        ((attributes.bind id typeName properties state).1 = .ok () →
          ∃ calls, attributes.Assigns id (attributes.offered properties state) state calls ∧
            asked = calls.map Attributes.accepted ++ [.start (.ok ())]) ∧
        ∀ e, (attributes.bind id typeName properties state).1 = .error e →
          (∃ before property raw rest calls refusal,
            attributes.offered properties state = before ++ (property, raw) :: rest ∧
            attributes.Assigns id before state calls ∧
            attributes.Refuses id property raw (attributes.after calls state) e refusal ∧
            asked = calls.map Attributes.accepted ++ refusal ∧ ∀ answer, .start answer ∉ asked) ∨
          ∃ calls source, attributes.Assigns id (attributes.offered properties state) state calls ∧
            asked = calls.map Attributes.accepted ++ [.start (.error source)] ∧
            e = .startFailed id typeName source) ∧
    ∀ (spec : Spec E) (now : Nat) (e : CacheError), spec.BuiltIn → spec.build now = .error e →
      ∀ property expected value, e ≠ .mismatch property expected value := by
  constructor
  · intro τ attributes id typeName properties state
    have hrecorded := attributes.bind_recorded id typeName properties (state, [])
    have hruns := attributes.runs_recorded id typeName properties state
    rcases hrun : attributes.recorded.bind id typeName properties (state, []) with ⟨outcome, last, asked⟩
    simp only [hrun] at hrecorded hruns
    simp only [hrecorded]
    refine ⟨asked, rfl, fun name value declared answer hasked => hruns.typed hasked, fun hok => ?_, fun e he => ?_⟩
    · subst hok
      cases hruns with
      | starts hall => exact ⟨_, hall, rfl⟩
    · subst he
      cases hruns with
      | failsToStart hall => exact .inr ⟨_, _, hall, rfl, rfl⟩
      | stops hbinds =>
        have hnever := hbinds.start_notMem
        cases hbinds with
        | upTo hsplit hbefore hrefuses => exact .inl ⟨_, _, _, _, _, _, hsplit, hbefore, hrefuses, rfl, hnever⟩
  · intro spec now e hbuiltIn hbuild property expected value
    rcases hbuiltIn.build_error hbuild with hid | hfault
    · rintro rfl
      cases hid
    · exact hfault.ne_mismatch property expected value

/-- An interval and a timeout, as properties. -/
def intervalAndTimeout : Properties :=
  .ofList [("clearInterval", "5"), ("timeout", "soon")]

/-- A layer that clears takes the interval only; a layer that blocks stops at the timeout; and a capacity of zero is
not a value of another kind. -/
theorem bound_in_order_intervalAndTimeout :
    (∃ asked calls, Scheduled.attributes.recorded.bind "users" "Scheduled" intervalAndTimeout (.since 0, []) =
        (.ok (), ⟨5 * nanosPerMilli, 0⟩, asked) ∧
      Scheduled.attributes.Assigns "users" intervalAndTimeout.entries (.since 0) calls ∧
      asked = calls.map Attributes.accepted ++ [.start (.ok ())]) ∧
    (∃ asked e, Blocking.attributes.recorded.bind "users" "Blocking" intervalAndTimeout (.empty none, []) =
        (.error e, .empty none, asked) ∧ ∀ answer, .start answer ∉ asked) ∧
    ∃ e, ({ Spec.new "users" with size := some 0 } : Spec .nothing).build 0 = .error e ∧
      ∀ property expected value, e ≠ .mismatch property expected value := by
  obtain ⟨hbind, hbuild⟩ := bound_in_order (E := .nothing)
  obtain ⟨asked, hrun, -, hok, -⟩ := hbind Scheduled.attributes "users" "Scheduled" intervalAndTimeout (.since 0)
  obtain ⟨asked', hrun', -, -, herror⟩ := hbind Blocking.attributes "users" "Blocking" intervalAndTimeout (.empty none)
  refine ⟨?_, ?_, _, rfl, hbuild { Spec.new "users" with size := some 0 } 0 _ ⟨nofun, nofun⟩ rfl⟩
  · obtain ⟨calls, hall, hasked⟩ := hok rfl
    exact ⟨asked, calls, hrun, hall, hasked⟩
  · refine ⟨asked', _, hrun', ?_⟩
    rcases herror _ rfl with ⟨_, _, _, _, _, _, -, -, -, -, hnever⟩ | ⟨_, _, -, -, hstart⟩
    · exact hnever
    · cases hstart

end LayeredCache
