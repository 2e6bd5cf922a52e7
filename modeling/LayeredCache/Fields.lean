/-!
# Named fields in order

Lists of named values in ascending order of names, each name once. The order is that of the octets of
the names, which for texts is the order of their characters.
-/

namespace LayeredCache.Fields

variable {α : Type}

/-- The names ascend strictly. -/
def Ascending (fields : List (String × α)) : Prop :=
  fields.Pairwise (·.1 < ·.1)

instance (fields : List (String × α)) : Decidable (Ascending fields) :=
  inferInstanceAs (Decidable (fields.Pairwise (·.1 < ·.1)))

/-- Puts a value in its place; it replaces the value that its name had. -/
def insert (name : String) (value : α) : List (String × α) → List (String × α)
  | [] => [(name, value)]
  | (other, kept) :: fields =>
    if name < other then (name, value) :: (other, kept) :: fields
    else if name = other then (name, value) :: fields
    else (other, kept) :: insert name value fields

/-- The fields in order; of the values that one name has, the last counts. -/
def ofList (fields : List (String × α)) : List (String × α) :=
  fields.foldl (fun sorted field => insert field.1 field.2 sorted) []

theorem mem_insert_fst {name : String} {value : α} {fields : List (String × α)}
    {field : String × α} (h : field ∈ insert name value fields) :
    field.1 = name ∨ field ∈ fields := by
  induction fields with
  | nil => simp_all [insert]
  | cons head fields ih =>
    obtain ⟨other, kept⟩ := head
    simp only [insert] at h
    split at h
    · rcases List.mem_cons.1 h with rfl | h
      · exact .inl rfl
      · exact .inr h
    · split at h
      · rcases List.mem_cons.1 h with rfl | h
        · exact .inl rfl
        · exact .inr (List.mem_cons_of_mem _ h)
      · rcases List.mem_cons.1 h with rfl | h
        · exact .inr (List.mem_cons_self ..)
        · exact (ih h).imp_right (List.mem_cons_of_mem _)

theorem ascending_insert {name : String} {value : α} {fields : List (String × α)}
    (h : Ascending fields) : Ascending (insert name value fields) := by
  induction fields with
  | nil => simp [insert, Ascending]
  | cons head fields ih =>
    obtain ⟨other, kept⟩ := head
    have hs := List.pairwise_cons.1 h
    simp only [insert]
    split
    · rename_i hlt
      refine List.pairwise_cons.2 ⟨fun field hf => ?_, h⟩
      rcases List.mem_cons.1 hf with rfl | hf
      · exact hlt
      · exact String.lt_trans hlt (hs.1 field hf)
    · split
      · rename_i heq
        subst heq
        exact List.pairwise_cons.2 ⟨hs.1, hs.2⟩
      · rename_i hnlt hne
        refine List.pairwise_cons.2 ⟨fun field hf => ?_, ih hs.2⟩
        rcases mem_insert_fst hf with hname | hf
        · rw [hname]
          rcases Std.Trichotomous.rel_or_eq_or_rel_swap (r := fun a b : String => a < b)
            (a := name) (b := other) with hc | hc | hc
          · exact absurd hc hnlt
          · exact absurd hc hne
          · exact hc
        · exact hs.1 field hf

theorem ascending_ofList (fields : List (String × α)) : Ascending (ofList fields) := by
  suffices h : ∀ sorted : List (String × α), Ascending sorted →
      Ascending (fields.foldl (fun sorted field => insert field.1 field.2 sorted) sorted) from
    h [] List.Pairwise.nil
  induction fields with
  | nil => exact fun _ h => h
  | cons field fields ih => exact fun _ h => ih _ (ascending_insert h)

end LayeredCache.Fields
