/-
Finite maps from names, entry by entry, and finite sets of names.

* `NameMap.getElem?_insert`, `NameMap.getElem?_erase` — the entries of a map after a change, by
  equality of names.
* `NameMap.ofList_toList` — a map is made of its entries.
* `NameSet.mem_filter` — the members of a part of a set.
-/

import Reckoner.Symbols.Table

namespace Reckoner

namespace NameMap

variable {α : Type}

theorem getElem?_insert (map : NameMap α) (key name : String) (value : α) :
    (map.insert key value)[name]? = if key = name then some value else map[name]? := by
  rw [Std.ExtTreeMap.getElem?_insert]
  simp only [Std.LawfulEqCmp.compare_eq_iff_eq]

theorem getElem?_erase (map : NameMap α) (key name : String) :
    (map.erase key)[name]? = if key = name then none else map[name]? := by
  rw [Std.ExtTreeMap.getElem?_erase]
  simp only [Std.LawfulEqCmp.compare_eq_iff_eq]

theorem mem_of_getElem?_insertMany {list : List (String × α)} {map : NameMap α} {name : String}
    {value : α} (found : (map.insertMany list)[name]? = some value) :
    (name, value) ∈ list ∨ map[name]? = some value := by
  induction list generalizing map with
  | nil => exact .inr found
  | cons entry rest ih =>
    obtain ⟨key, first⟩ := entry
    rw [Std.ExtTreeMap.insertMany_cons] at found
    rcases ih found with later | here
    · exact .inl (List.mem_cons_of_mem _ later)
    · rw [getElem?_insert] at here
      split at here
      · next same =>
        rw [← Option.some.inj here, same]
        exact .inl List.mem_cons_self
      · exact .inr here

/-- What a map made of a list holds is in the list. -/
theorem mem_of_getElem?_ofList {list : List (String × α)} {name : String} {value : α}
    (found : (Std.ExtTreeMap.ofList list compare)[name]? = some value) : (name, value) ∈ list := by
  rw [Std.ExtTreeMap.ofList_eq_insertMany_empty] at found
  rcases mem_of_getElem?_insertMany found with listed | before
  · exact listed
  · rw [Std.ExtTreeMap.getElem?_empty] at before
    cases before

theorem ofList_toList (map : NameMap α) : Std.ExtTreeMap.ofList map.toList compare = map := by
  refine Std.ExtTreeMap.ext_getElem? fun name => ?_
  cases found : map[name]? with
  | some value =>
    refine Std.ExtTreeMap.getElem?_ofList_of_mem Std.ReflCmp.compare_self
      Std.ExtTreeMap.distinct_keys_toList ?_
    exact Std.ExtTreeMap.mem_toList_iff_getElem?_eq_some.mpr found
  | none =>
    refine Std.ExtTreeMap.getElem?_ofList_of_contains_eq_false ?_
    rw [← Bool.not_eq_true, List.contains_iff_mem]
    intro member
    obtain ⟨entry, listed, same⟩ := List.mem_map.mp member
    have value := Std.ExtTreeMap.mem_toList_iff_getElem?_eq_some.mp listed
    rw [same, found] at value
    cases value

end NameMap

theorem NameSet.mem_filter {names : NameSet} {p : String → Bool} {name : String} :
    name ∈ names.filter p ↔ name ∈ names ∧ p name := by
  rw [Std.ExtTreeSet.mem_filter]
  simp

theorem NameSet.filter_of_forall (names : NameSet) {p : String → Bool}
    (all : ∀ name ∈ names, p name) : names.filter p = names :=
  Std.ExtTreeSet.ext_mem fun name => NameSet.mem_filter.trans (and_iff_left_of_imp (all name))

end Reckoner
