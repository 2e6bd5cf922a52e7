import LayeredCache.Fields
import Mathlib.Data.List.Induction
import Mathlib.Data.List.Nodup
import Mathlib.Tactic.Common

/-!
# Lookups by name

What is found in fields that were put in order is the last value that the name had (`lookup_ofList`), and fields in
order are determined by what is found in them (`Ascending.eq_of_lookup`).
-/

namespace LayeredCache

variable {α : Type}

lemma lookup_cons_ite (name : String) (value : α) (entries : List (String × α)) (other : String) :
    ((name, value) :: entries).lookup other = if other = name then some value else entries.lookup other := by
  rw [List.lookup_cons]
  by_cases h : other = name
  · simp [h]
  · simp [h, beq_false_of_ne h]

/-- A key that was filtered out is not found, and no other key is touched. -/
lemma lookup_filter_ne (entries : List (String × α)) (key other : String) :
    (entries.filter (·.1 ≠ key)).lookup other = if other = key then none else entries.lookup other := by
  induction entries with
  | nil => simp
  | cons entry entries ih =>
    obtain ⟨name, value⟩ := entry
    rw [lookup_cons_ite]
    by_cases hname : name = key
    · rw [List.filter_cons_of_neg (by simpa using hname), ih, hname]
      by_cases hother : other = key
      · rw [if_pos hother, if_pos hother]
      · rw [if_neg hother, if_neg hother, if_neg hother]
    · rw [List.filter_cons_of_pos (by simpa using hname), lookup_cons_ite, ih]
      by_cases hother : other = name
      · rw [if_pos hother, if_pos hother, if_neg (hother ▸ hname)]
      · rw [if_neg hother, if_neg hother]

namespace Fields

variable {fields others : List (String × α)} {name : String} {value : α}

lemma lookup_insert (name : String) (value : α) (fields : List (String × α)) (other : String) :
    (insert name value fields).lookup other = if other = name then some value else fields.lookup other := by
  induction fields with
  | nil => exact lookup_cons_ite name value [] other
  | cons field fields ih =>
    obtain ⟨key, kept⟩ := field
    rw [insert]
    by_cases hlt : name < key
    · rw [if_pos hlt, lookup_cons_ite]
    by_cases hname : name = key
    · subst hname
      rw [if_neg hlt, if_pos rfl, lookup_cons_ite, lookup_cons_ite]
      by_cases hother : other = name
      · rw [if_pos hother, if_pos hother]
      · rw [if_neg hother, if_neg hother, if_neg hother]
    · rw [if_neg hlt, if_neg hname, lookup_cons_ite, lookup_cons_ite, ih]
      by_cases hother : other = key
      · rw [if_pos hother, if_pos hother, if_neg (hother ▸ Ne.symm hname)]
      · rw [if_neg hother, if_neg hother]

/-- Of the values that one name has, the last is found. -/
theorem lookup_ofList (fields : List (String × α)) (name : String) :
    (ofList fields).lookup name = fields.reverse.lookup name := by
  -- the last field is the one that was put in place last
  induction fields using List.reverseRecOn with
  | nil => rfl
  | append_singleton fields field ih =>
    obtain ⟨key, value⟩ := field
    rw [ofList, List.foldl_concat, lookup_insert, List.reverse_concat, lookup_cons_ite, ← ih, ofList]

lemma lookup_reverse_eq_some : fields.reverse.lookup name = some value ↔
    ∃ before after, fields = before ++ (name, value) :: after ∧ ∀ later ∈ after, later.1 ≠ name := by
  rw [List.lookup_eq_some_iff]
  constructor
  · rintro ⟨after, before, heq, hafter⟩
    refine ⟨before.reverse, after.reverse, ?_, fun later hlater => ?_⟩
    · rw [← List.reverse_reverse fields, heq]
      simp
    · have hne := hafter later (List.mem_reverse.1 hlater)
      exact fun hname => absurd hname.symm (bne_iff_ne.1 hne)
  · rintro ⟨before, after, rfl, hafter⟩
    refine ⟨after.reverse, before.reverse, by simp, fun later hlater => ?_⟩
    exact bne_iff_ne.2 fun hname => hafter later (List.mem_reverse.1 hlater) hname.symm

/-- Where every name occurs once, what is found is what is there. -/
lemma lookup_eq_some_iff_mem (hnodup : (fields.map (·.1)).Nodup) :
    fields.lookup name = some value ↔ (name, value) ∈ fields := by
  induction fields with
  | nil => simp
  | cons field fields ih =>
    obtain ⟨key, kept⟩ := field
    obtain ⟨hkey, hfields⟩ := List.nodup_cons.1 hnodup
    rw [lookup_cons_ite, List.mem_cons]
    by_cases hname : name = key
    · subst hname
      have hnot : (name, value) ∉ fields := fun hmem => hkey (List.mem_map.2 ⟨_, hmem, rfl⟩)
      simp [hnot, eq_comm]
    · simp [hname, ih hfields]

/-- Where every name occurs once, the order does not matter. -/
lemma lookup_of_perm (hperm : others.Perm fields) (hnodup : (fields.map (·.1)).Nodup) (name : String) :
    others.lookup name = fields.lookup name := by
  refine Option.ext fun value => ?_
  rw [lookup_eq_some_iff_mem ((hperm.map _).nodup_iff.2 hnodup), lookup_eq_some_iff_mem hnodup, hperm.mem_iff]

lemma Ascending.nodup (h : Ascending fields) : (fields.map (·.1)).Nodup :=
  List.pairwise_map.2 (h.imp fun hlt => Std.ne_of_lt hlt)

/-- Fields in order with the same values under the same names are the same fields. -/
theorem Ascending.eq_of_lookup (hfields : Ascending fields) (hothers : Ascending others)
    (h : ∀ name, fields.lookup name = others.lookup name) : fields = others := by
  have hmem : ∀ field, field ∈ fields ↔ field ∈ others := by
    rintro ⟨name, value⟩
    rw [← lookup_eq_some_iff_mem hfields.nodup, h, lookup_eq_some_iff_mem hothers.nodup]
  have hperm : fields.Perm others :=
    (List.perm_ext_iff_of_nodup (hfields.nodup.of_map _) (hothers.nodup.of_map _)).2 hmem
  exact hperm.eq_of_pairwise (fun _ _ _ _ hlt hgt => absurd hgt (String.lt_asymm hlt)) hfields hothers

/-- Fields that ascend are put in order by leaving them as they are. -/
theorem ofList_of_ascending (h : Ascending fields) : ofList fields = fields := by
  refine (ascending_ofList fields).eq_of_lookup h fun name => ?_
  rw [lookup_ofList, lookup_of_perm (List.reverse_perm fields) h.nodup]

/-- A field that a list in order has is one that it was given. -/
lemma mem_ofList {field : String × α} (h : field ∈ ofList fields) : field ∈ fields := by
  have hfound := (lookup_eq_some_iff_mem (ascending_ofList fields).nodup).2 h
  rw [lookup_ofList] at hfound
  obtain ⟨before, after, rfl, -⟩ := lookup_reverse_eq_some.1 hfound
  exact List.mem_append_right before List.mem_cons_self

end Fields

end LayeredCache
