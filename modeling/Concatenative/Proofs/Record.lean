import Concatenative.Record
import Mathlib.Data.List.Induction

/-!
# Records with distinct names

Where the names of a record are distinct, the record is determined by what it gives to each of them,
up to their order. Setting names one after the other gives such a record, in which each name has the
value that it was set to last.
-/

namespace Concatenative
namespace Record

variable {α β : Type} {record : Record α} {name : String} {value : α}

/-! ## Reading -/

theorem mem_names_of_mem (present : (name, value) ∈ record) : name ∈ names record :=
  List.mem_map_of_mem present

/-- A record has nothing for a name that it lacks. -/
theorem get?_eq_none (missing : name ∉ names record) : get? record name = none := by
  cases found : get? record name with
  | none => rfl
  | some value => exact absurd (mem_names_of_mem (mem_of_get? found)) missing

/-- Every pair is found if the names are distinct. -/
theorem get?_of_mem
    (distinct : (names record).Nodup)
    (present : (name, value) ∈ record) :
    get? record name = some value := by
  induction record with
  | nil => cases present
  | cons first rest inductionHypothesis =>
      obtain ⟨key, old⟩ := first
      obtain ⟨missing, laterDistinct⟩ := List.nodup_cons.mp distinct
      rw [get?_cons]
      rcases List.mem_cons.mp present with here | later
      · cases here
        exact if_pos rfl
      · have different : key ≠ name := by
          rintro rfl
          exact missing (mem_names_of_mem later)
        rw [if_neg different]
        exact inductionHypothesis laterDistinct later

theorem get?_append (first second : Record α) (name : String) :
    get? (first ++ second) name = (get? first name).or (get? second name) :=
  List.lookup_append

theorem names_mapValues (change : String → α → β) (record : Record α) :
    names (record.map fun entry => (entry.1, change entry.1 entry.2)) = names record := by
  rw [names, List.map_map]
  rfl

/-- Changing the values of a record changes what it gives to names. -/
theorem get?_mapValues (change : String → α → β) (record : Record α) (name : String) :
    get? (record.map fun entry => (entry.1, change entry.1 entry.2)) name =
      (get? record name).map (change name) := by
  induction record with
  | nil => rfl
  | cons entry rest inductionHypothesis =>
      rw [List.map_cons, get?_cons, get?_cons, inductionHypothesis]
      split
      · rename_i same
        rw [same, Option.map_some]
      · rfl

theorem nodup_of_nodup_names (distinct : (names record).Nodup) : record.Nodup :=
  List.Pairwise.of_map Prod.fst (fun _ _ different same => different (congrArg _ same)) distinct

/-- Records with distinct names that give the same to all names differ in order only. -/
theorem perm_of_get?
    {other : Record α}
    (distinct : (names record).Nodup)
    (otherDistinct : (names other).Nodup)
    (same : ∀ name, get? record name = get? other name) :
    record.Perm other := by
  have mem_iff {some : Record α} (someDistinct : (names some).Nodup) (entry : String × α) :
      entry ∈ some ↔ get? some entry.1 = entry.2 :=
    ⟨get?_of_mem someDistinct, mem_of_get?⟩
  rw [List.perm_ext_iff_of_nodup (nodup_of_nodup_names distinct)
    (nodup_of_nodup_names otherDistinct)]
  intro entry
  rw [mem_iff distinct, mem_iff otherDistinct, same]

/-! ## Setting -/

/-- Setting a name brings in the new pair alone. -/
theorem eq_or_mem_of_mem_put
    {entry : String × α}
    (present : entry ∈ put name value record) :
    entry = (name, value) ∨ entry ∈ record := by
  induction record with
  | nil => exact .inl (List.mem_singleton.mp present)
  | cons first rest inductionHypothesis =>
      obtain ⟨key, old⟩ := first
      unfold put at present
      split at present
      · rename_i same
        subst same
        rcases List.mem_cons.mp present with here | later
        · exact .inl here
        · exact .inr (List.mem_cons_of_mem _ later)
      · rcases List.mem_cons.mp present with here | later
        · exact .inr (here ▸ List.mem_cons_self)
        · exact (inductionHypothesis later).imp_right (List.mem_cons_of_mem _)

/-- Setting a name keeps names distinct. -/
theorem nodup_names_put
    (distinct : (names record).Nodup)
    (name : String)
    (value : α) :
    (names (put name value record)).Nodup := by
  induction record with
  | nil => exact List.pairwise_singleton _ name
  | cons first rest inductionHypothesis =>
      obtain ⟨key, old⟩ := first
      obtain ⟨missing, laterDistinct⟩ := List.nodup_cons.mp distinct
      unfold put
      split
      · exact List.nodup_cons.mpr ⟨missing, laterDistinct⟩
      · rename_i different
        refine List.nodup_cons.mpr ⟨?_, inductionHypothesis laterDistinct⟩
        intro present
        obtain ⟨entry, found, same⟩ := List.mem_map.mp present
        rcases eq_or_mem_of_mem_put found with rfl | old
        · exact different same.symm
        · exact missing (List.mem_map.mpr ⟨entry, old, same⟩)

/-- A new name comes to the end. -/
theorem put_of_notMem (value : α) (missing : name ∉ names record) :
    put name value record = record ++ [(name, value)] := by
  induction record with
  | nil => rfl
  | cons entry rest inductionHypothesis =>
      obtain ⟨key, old⟩ := entry
      rw [names, List.map_cons, List.mem_cons, not_or] at missing
      rw [put, if_neg (Ne.symm missing.1), inductionHypothesis missing.2, List.cons_append]

/-- Setting a name that a record has keeps its names and their order. -/
theorem names_put_of_mem (value : α) (present : name ∈ names record) :
    names (put name value record) = names record := by
  induction record with
  | nil => cases present
  | cons entry rest inductionHypothesis =>
      obtain ⟨key, old⟩ := entry
      unfold put
      split
      · rfl
      · rename_i different
        have later : name ∈ names rest := by
          rw [names, List.map_cons, List.mem_cons] at present
          exact present.resolve_left (Ne.symm different)
        rw [names, List.map_cons, ← names, inductionHypothesis later]
        rfl

/-! ## Setting names in turn -/

theorem ofPairs_concat (pairs : List (String × α)) (name : String) (value : α) :
    ofPairs (pairs ++ [(name, value)]) = put name value (ofPairs pairs) := by
  rw [ofPairs, List.foldl_append]
  rfl

/-- Setting distinct names in turn gives the pairs as they are. -/
theorem ofPairs_of_nodup
    {pairs : List (String × α)}
    (distinct : (names pairs).Nodup) :
    ofPairs pairs = pairs := by
  induction pairs using List.reverseRecOn with
  | nil => rfl
  | append_singleton earlier pair inductionHypothesis =>
      obtain ⟨name, value⟩ := pair
      rw [names, List.map_append, List.nodup_append] at distinct
      obtain ⟨earlierDistinct, -, apart⟩ := distinct
      rw [ofPairs_concat, inductionHypothesis earlierDistinct]
      exact put_of_notMem value fun present => apart name present name List.mem_cons_self rfl

/-- The names come in the order in which they are set first. -/
theorem names_ofPairs (pairs : List (String × α)) :
    names (ofPairs pairs) = (names pairs).eraseDups := by
  induction pairs using List.reverseRecOn with
  | nil => rfl
  | append_singleton earlier pair inductionHypothesis =>
      obtain ⟨name, value⟩ := pair
      have split : names (earlier ++ [(name, value)]) = names earlier ++ [name] := List.map_append
      have known : name ∈ names (ofPairs earlier) ↔ name ∈ names earlier := by
        rw [inductionHypothesis, List.mem_eraseDups]
      rw [ofPairs_concat, split, List.eraseDups_append, ← inductionHypothesis]
      by_cases present : name ∈ names earlier
      · have again : [name].removeAll (names earlier) = [] := by simp [List.removeAll, present]
        rw [names_put_of_mem value (known.mpr present), again, List.eraseDups_nil, List.append_nil]
      · have fresh : [name].removeAll (names earlier) = [name] := by
          simp [List.removeAll, present]
        rw [put_of_notMem value (mt known.mp present), fresh, names, List.map_append]
        rfl

/-- Of the pairs that set a name, the last one counts. -/
theorem get?_ofPairs (pairs : List (String × α)) (name : String) :
    get? (ofPairs pairs) name = get? pairs.reverse name := by
  induction pairs using List.reverseRecOn with
  | nil => rfl
  | append_singleton earlier pair inductionHypothesis =>
      obtain ⟨key, value⟩ := pair
      rw [ofPairs_concat, List.reverse_concat, get?_cons]
      by_cases same : key = name
      · rw [if_pos same, same, get?_put_self]
      · rw [if_neg same, get?_put_of_ne value _ same, inductionHypothesis]

/-- A record gives each name of some pairs the value that stands with it in the last pair of the
name, and has no other names. -/
structure LastOf (pairs : List (String × α)) (record : Record α) : Prop where
  /-- The last pair of a name counts. -/
  last : ∀ before name value after,
    pairs = before ++ (name, value) :: after → name ∉ names after →
      get? record name = some value
  /-- There are no names but those of the pairs. -/
  missing : ∀ name, name ∉ names pairs → get? record name = none

theorem lastOf_ofPairs (pairs : List (String × α)) : LastOf pairs (ofPairs pairs) where
  last := by
    rintro before name value after rfl last
    have missing : name ∉ names after.reverse := by
      rwa [names, List.map_reverse, List.mem_reverse]
    rw [get?_ofPairs, List.reverse_append, List.reverse_cons, get?_append, get?_append,
      get?_eq_none missing, get?_cons, if_pos rfl]
    rfl
  missing := by
    intro name missing
    rw [get?_ofPairs]
    refine get?_eq_none ?_
    rwa [names, List.map_reverse, List.mem_reverse]

end Record
end Concatenative
