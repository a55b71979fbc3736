import Mathlib.Data.List.AList
import Mathlib.Data.List.Induction
import Mathlib.Tactic.Common

/-!
# Dictionaries built by loops

Two ways in which a loop fills a dictionary: one assignment for each item (`ofItems`), and one
append to the list stored under the key of each sample (`group`). The lemmas say what a lookup
returns afterwards, and that grouping loses and duplicates no sample.
-/

/-- A dictionary with at most one value for each key. -/
abbrev Dict (κ ν : Type*) := AList fun _ : κ => ν

namespace Dict

open scoped List

variable {κ ν : Type*} [DecidableEq κ]

/-- The pairs of a dictionary. -/
def items (dict : Dict κ ν) : List (κ × ν) :=
  dict.entries.map fun entry => (entry.1, entry.2)

/-- Assign the items one after the other to an empty dictionary. -/
def ofItems (pairs : List (κ × ν)) : Dict κ ν :=
  pairs.foldl (fun dict pair => dict.insert pair.1 pair.2) ∅

/-- Append a value to the list stored under a key, which starts empty. -/
def push (dict : Dict κ (List ν)) (key : κ) (value : ν) : Dict κ (List ν) :=
  dict.insert key ((dict.lookup key).getD [] ++ [value])

/-- Append every sample to the list of its key. -/
def group (samples : List (κ × ν)) : Dict κ (List ν) :=
  samples.foldl (fun dict sample => push dict sample.1 sample.2) ∅

/-- The values of the samples with a given key, in order. -/
def samplesOf (samples : List (κ × ν)) (key : κ) : List ν :=
  (samples.filter (·.1 = key)).map Prod.snd

theorem mem_items {dict : Dict κ ν} {key : κ} {value : ν} :
    (key, value) ∈ items dict ↔ dict.lookup key = some value := by
  rw [← Option.mem_def, AList.mem_lookup_iff]
  constructor
  · intro member
    obtain ⟨⟨found, stored⟩, entry, equality⟩ := List.mem_map.mp member
    obtain ⟨rfl, rfl⟩ := Prod.mk.inj equality
    exact entry
  · intro entry
    exact List.mem_map.mpr ⟨⟨key, value⟩, entry, rfl⟩

omit [DecidableEq κ] in
theorem items_nodup (dict : Dict κ ν) : ((items dict).map Prod.fst).Nodup := by
  have keys : (items dict).map Prod.fst = dict.keys := by
    simp [items, AList.keys, List.keys, Function.comp_def]
  rw [keys]
  exact dict.keys_nodup

omit [DecidableEq κ] in
@[simp] theorem items_empty : items (∅ : Dict κ ν) = [] := rfl

@[simp] theorem ofItems_nil : ofItems ([] : List (κ × ν)) = ∅ := rfl

theorem ofItems_append_singleton (pairs : List (κ × ν)) (pair : κ × ν) :
    ofItems (pairs ++ [pair]) = (ofItems pairs).insert pair.1 pair.2 := by
  simp [ofItems, List.foldl_append]

/-- With distinct keys every assigned item, and nothing else, is found again. -/
theorem lookup_ofItems {pairs : List (κ × ν)} (distinct : (pairs.map Prod.fst).Nodup)
    {key : κ} {value : ν} : (ofItems pairs).lookup key = some value ↔ (key, value) ∈ pairs := by
  induction pairs using List.reverseRecOn with
  | nil => simp
  | append_singleton pairs pair induction =>
      obtain ⟨last, assigned⟩ := pair
      rw [List.map_append, List.nodup_append] at distinct
      obtain ⟨front, -, apart⟩ := distinct
      rw [ofItems_append_singleton, List.mem_append, List.mem_singleton, Prod.mk.injEq]
      by_cases same : key = last
      · subst same
        have absent : (key, value) ∉ pairs := by
          intro member
          exact apart key (List.mem_map.mpr ⟨_, member, rfl⟩) key (by simp) rfl
        rw [AList.lookup_insert, Option.some.injEq]
        constructor
        · intro equality
          exact .inr ⟨rfl, equality.symm⟩
        · rintro (member | ⟨-, equality⟩)
          · exact absurd member absent
          · exact equality.symm
      · rw [AList.lookup_insert_ne same, induction front]
        simp [same]

/-- Nothing but the assigned items is ever stored. -/
theorem mem_of_mem_items_ofItems {pairs : List (κ × ν)} {item : κ × ν}
    (member : item ∈ items (ofItems pairs)) : item ∈ pairs := by
  obtain ⟨key, value⟩ := item
  rw [mem_items] at member
  induction pairs using List.reverseRecOn with
  | nil => simp at member
  | append_singleton pairs pair induction =>
      rw [ofItems_append_singleton] at member
      by_cases same : key = pair.1
      · rw [same, AList.lookup_insert, Option.some.injEq] at member
        exact List.mem_append_right _ (List.mem_singleton.mpr (Prod.ext same member.symm))
      · rw [AList.lookup_insert_ne same] at member
        exact List.mem_append_left _ (induction member)

/-- Every assigned key is found again. -/
theorem exists_lookup_ofItems {pairs : List (κ × ν)} {key : κ} {value : ν}
    (member : (key, value) ∈ pairs) : ∃ stored, (ofItems pairs).lookup key = some stored := by
  induction pairs using List.reverseRecOn with
  | nil => contradiction
  | append_singleton pairs pair induction =>
      rw [ofItems_append_singleton]
      by_cases same : key = pair.1
      · exact ⟨pair.2, by rw [same, AList.lookup_insert]⟩
      · rw [AList.lookup_insert_ne same]
        rcases List.mem_append.mp member with earlier | last
        · exact induction earlier
        · exact absurd (congrArg Prod.fst (List.mem_singleton.mp last)) same

/-- When no key is assigned two different values, every assigned item, and nothing else, is found
again. -/
theorem lookup_ofItems_of_consistent {pairs : List (κ × ν)}
    (consistent : ∀ key value value', (key, value) ∈ pairs → (key, value') ∈ pairs →
      value = value') {key : κ} {value : ν} :
    (ofItems pairs).lookup key = some value ↔ (key, value) ∈ pairs := by
  constructor
  · intro found
    exact mem_of_mem_items_ofItems (mem_items.mpr found)
  · intro member
    obtain ⟨stored, found⟩ := exists_lookup_ofItems member
    have assigned := mem_of_mem_items_ofItems (mem_items.mpr found)
    rw [found, consistent key stored value assigned member]

section Rekey

variable {κ' ω : Type*} [DecidableEq κ'] {encode : κ → κ'} {decode : κ' → κ}

/-- The items that pass a filter, in any order and written under injectively renamed keys. -/
theorem lookup_ofItems_filterMap (injective : Function.Injective encode) (f : κ → ν → Option ω)
    {dict : Dict κ ν} {pairs : List (κ × ν)} (perm : pairs.Perm (items dict)) (key : κ) :
    (ofItems (pairs.filterMap fun item =>
      (f item.1 item.2).map fun value => (encode item.1, value))).lookup (encode key) =
      (dict.lookup key).bind (f key) := by
  have renamed : ∀ {pairs : List (κ × ν)} {name : κ'}, name ∈ ((pairs.filterMap fun item =>
      (f item.1 item.2).map fun value => (encode item.1, value)).map Prod.fst) →
      ∃ key ∈ pairs.map Prod.fst, name = encode key := by
    intro pairs name member
    obtain ⟨⟨found, value⟩, listed, rfl⟩ := List.mem_map.mp member
    obtain ⟨item, original, passed⟩ := List.mem_filterMap.mp listed
    obtain ⟨kept, -, equality⟩ := Option.map_eq_some_iff.mp passed
    exact ⟨item.1, List.mem_map.mpr ⟨item, original, rfl⟩, (congrArg Prod.fst equality).symm⟩
  have distinct : ∀ {pairs : List (κ × ν)}, (pairs.map Prod.fst).Nodup →
      ((pairs.filterMap fun item =>
        (f item.1 item.2).map fun value => (encode item.1, value)).map Prod.fst).Nodup := by
    intro pairs nodup
    induction pairs with
    | nil => exact List.nodup_nil
    | cons item pairs induction =>
        rw [List.map_cons, List.nodup_cons] at nodup
        cases passed : f item.1 item.2 with
        | none =>
            rw [List.filterMap_cons_none (by rw [passed]; rfl)]
            exact induction nodup.2
        | some value =>
            rw [List.filterMap_cons_some (by rw [passed]; rfl), List.map_cons, List.nodup_cons]
            refine ⟨fun member => ?_, induction nodup.2⟩
            obtain ⟨other, listed, same⟩ := renamed member
            exact nodup.1 (injective same ▸ listed)
  have keys : (pairs.map Prod.fst).Nodup := (perm.map Prod.fst).nodup_iff.mpr (items_nodup dict)
  apply Option.ext
  intro value
  rw [lookup_ofItems (distinct keys), Option.bind_eq_some_iff, List.mem_filterMap]
  constructor
  · rintro ⟨⟨found, stored⟩, listed, passed⟩
    obtain ⟨kept, accepted, equality⟩ := Option.map_eq_some_iff.mp passed
    obtain ⟨same, rfl⟩ := Prod.mk.inj equality
    obtain rfl := injective same
    exact ⟨stored, mem_items.mp (perm.mem_iff.mp listed), accepted⟩
  · rintro ⟨stored, found, accepted⟩
    exact ⟨(key, stored), perm.mem_iff.mpr (mem_items.mpr found), by rw [accepted]; rfl⟩

/-- A dictionary whose keys are all encoded is read back by decoding them. -/
theorem lookup_ofItems_decode (inverse : Function.LeftInverse decode encode) {dict : Dict κ' ν}
    (encoded : ∀ item ∈ items dict, ∃ key, item.1 = encode key) (key : κ) :
    (ofItems ((items dict).map fun item => (decode item.1, item.2))).lookup key =
      dict.lookup (encode key) := by
  have distinct : (((items dict).map fun item => (decode item.1, item.2)).map Prod.fst).Nodup := by
    rw [List.map_map]
    apply List.Nodup.of_map encode
    rw [List.map_map]
    refine (List.map_congr_left fun item member => ?_) ▸ items_nodup dict
    obtain ⟨original, equality⟩ := encoded item member
    simp [equality, inverse original]
  apply Option.ext
  intro value
  rw [lookup_ofItems distinct, ← mem_items, List.mem_map]
  constructor
  · rintro ⟨item, member, equality⟩
    obtain ⟨original, name⟩ := encoded item member
    obtain ⟨rfl, rfl⟩ := Prod.mk.inj equality
    rwa [name, inverse original, ← name]
  · intro member
    exact ⟨(encode key, value), member, by rw [inverse key]⟩

end Rekey

/-- The same keys with new values. -/
theorem lookup_ofItems_map {ω : Type*} (f : ν → ω) (dict : Dict κ ν) (key : κ) :
    (ofItems ((items dict).map fun item => (item.1, f item.2))).lookup key =
      (dict.lookup key).map f := by
  have identity : Function.Injective (id : κ → κ) := Function.injective_id
  have total := lookup_ofItems_filterMap identity (fun _ => some ∘ f) (List.Perm.refl (items dict))
    key
  rw [Option.map_eq_bind]
  simpa [List.filterMap_eq_map, Function.comp_def] using total

theorem group_append_singleton (samples : List (κ × ν)) (sample : κ × ν) :
    group (samples ++ [sample]) = push (group samples) sample.1 sample.2 := by
  simp [group, List.foldl_append]

theorem samplesOf_append_singleton (samples : List (κ × ν)) (sample : κ × ν) (key : κ) :
    samplesOf (samples ++ [sample]) key =
      samplesOf samples key ++ if sample.1 = key then [sample.2] else [] := by
  simp only [samplesOf, List.filter_append, List.map_append, List.filter_singleton]
  by_cases same : sample.1 = key <;> simp [same]

/-- A key that has samples stores them in order; a key without samples is absent. -/
theorem lookup_group (samples : List (κ × ν)) (key : κ) :
    (group samples).lookup key =
      if samplesOf samples key = [] then none else some (samplesOf samples key) := by
  induction samples using List.reverseRecOn with
  | nil => simp [group, samplesOf]
  | append_singleton samples sample induction =>
      rw [group_append_singleton, push, samplesOf_append_singleton]
      by_cases same : sample.1 = key
      · subst same
        rw [AList.lookup_insert, induction]
        by_cases empty : samplesOf samples sample.1 = [] <;> simp [empty]
      · rw [AList.lookup_insert_ne (Ne.symm same), induction]
        simp [same]

/-- The items of a grouping are the keys that have samples, each with its samples. -/
theorem mem_items_group {samples : List (κ × ν)} {key : κ} {values : List ν} :
    (key, values) ∈ items (group samples) ↔
      samplesOf samples key ≠ [] ∧ values = samplesOf samples key := by
  rw [mem_items, lookup_group]
  by_cases empty : samplesOf samples key = []
  · simp [empty]
  · simp [empty, eq_comm]

/-- Dictionaries with the same lookups have the same items up to order. -/
theorem items_perm_of_lookup {left right : Dict κ ν}
    (same : ∀ key, left.lookup key = right.lookup key) : (items left).Perm (items right) := by
  have entries : left.entries.Perm right.entries :=
    List.lookup_ext left.nodupKeys right.nodupKeys fun key value => by
      change value ∈ left.lookup key ↔ value ∈ right.lookup key
      rw [same]
  exact entries.map _

theorem items_insert_of_not_mem {dict : Dict κ ν} {key : κ} {value : ν} (absent : key ∉ dict) :
    items (dict.insert key value) = (key, value) :: items dict := by
  rw [items, AList.entries_insert_of_notMem absent]
  rfl

theorem items_perm_erase {dict : Dict κ ν} {key : κ} {value : ν}
    (found : dict.lookup key = some value) :
    (items dict).Perm ((key, value) :: items (dict.erase key)) := by
  rw [← items_insert_of_not_mem (by simp [AList.mem_erase])]
  apply items_perm_of_lookup
  intro other
  by_cases same : other = key
  · rw [same, found, AList.lookup_insert]
  · rw [AList.lookup_insert_ne same, AList.lookup_erase_ne same]

theorem items_push_perm (dict : Dict κ (List ν)) (key : κ) (value : ν) :
    ((items (push dict key value)).flatMap Prod.snd).Perm
      ((items dict).flatMap Prod.snd ++ [value]) := by
  have assigned : (push dict key value).lookup key =
      some ((dict.lookup key).getD [] ++ [value]) := AList.lookup_insert dict
  have others : (items ((push dict key value).erase key)).Perm (items (dict.erase key)) := by
    apply items_perm_of_lookup
    intro other
    by_cases same : other = key
    · rw [same, AList.lookup_erase, AList.lookup_erase]
    · rw [AList.lookup_erase_ne same, AList.lookup_erase_ne same, push,
        AList.lookup_insert_ne same]
  have pushed := (items_perm_erase assigned).flatMap_right Prod.snd
  rw [List.flatMap_cons] at pushed
  apply pushed.trans
  cases stored : dict.lookup key with
  | none =>
      have absent : key ∉ dict := AList.lookup_eq_none.mp stored
      have unchanged : (items (dict.erase key)).Perm (items dict) := by
        apply items_perm_of_lookup
        intro other
        by_cases same : other = key
        · rw [same, AList.lookup_erase, stored]
        · rw [AList.lookup_erase_ne same]
      exact (List.perm_append_comm : [value] ++ _ ~ _).trans
        (((others.trans unchanged).flatMap_right Prod.snd).append_right [value])
  | some old =>
      have original := (items_perm_erase stored).flatMap_right Prod.snd
      rw [List.flatMap_cons] at original
      calc
        (old ++ [value]) ++ (items ((push dict key value).erase key)).flatMap Prod.snd
        _ ~ (old ++ [value]) ++ (items (dict.erase key)).flatMap Prod.snd :=
            (others.flatMap_right Prod.snd).append_left _
        _ = old ++ ([value] ++ (items (dict.erase key)).flatMap Prod.snd) := List.append_assoc ..
        _ ~ old ++ ((items (dict.erase key)).flatMap Prod.snd ++ [value]) :=
            List.perm_append_comm.append_left old
        _ = (old ++ (items (dict.erase key)).flatMap Prod.snd) ++ [value] :=
            (List.append_assoc ..).symm
        _ ~ (items dict).flatMap Prod.snd ++ [value] := original.symm.append_right [value]

/-- Grouping keeps every sample exactly once. -/
theorem group_values_perm (samples : List (κ × ν)) :
    ((items (group samples)).flatMap Prod.snd).Perm (samples.map Prod.snd) := by
  induction samples using List.reverseRecOn with
  | nil => exact List.Perm.refl []
  | append_singleton samples sample induction =>
      rw [group_append_singleton, List.map_append]
      exact (items_push_perm _ _ _).trans (induction.append_right _)

end Dict
