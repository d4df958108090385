import Std.Data.TreeMap.Lemmas
import RecordLayout.Layout.Store

/-!
# The store by its look-ups

What a look-up finds after each operation of the store. The listing of a store has the ids that
look-ups find, in ascending order.
-/
namespace RecordLayout.RecordStore

@[simp] theorem get?_empty (id : RecordId) : empty.get? id = none := by
  simp [get?, empty]

theorem contains_eq_isSome (s : RecordStore) (id : RecordId) : s.contains id = (s.get? id).isSome := by
  exact Std.TreeMap.contains_eq_isSome_getElem?

/-- Only an id without a layout gets the new one. -/
theorem get?_insert (s : RecordStore) (id : RecordId) (t : LayoutTree) (id' : RecordId) :
    (s.insert id t).2.get? id' = (s.get? id').or (if id = id' then some t else none) := by
  rw [insert, contains_eq_isSome]
  cases found : s.get? id with
  | some u =>
    by_cases same : id = id'
    · subst same
      simp [found]
    · simp [same]
  | none =>
    have stored : (RecordStore.mk (s.layouts.insert id t)).get? id' = if id = id' then some t else s.get? id' := by
      simp [get?, Std.TreeMap.getElem?_insert]
    rw [Option.isSome_none, if_neg Bool.false_ne_true, stored]
    by_cases same : id = id'
    · subst same
      simp [found]
    · simp [same]

theorem mem_toList {s : RecordStore} {id : RecordId} {t : LayoutTree} :
    (id, t) ∈ s.toList ↔ s.get? id = some t :=
  Std.TreeMap.mem_toList_iff_getElem?_eq_some

/-- Stores in which look-ups find the same list the same, as far as `f` tells. -/
theorem map_toList_eq_of_get? {β : Type} {f : LayoutTree → β} {s s' : RecordStore}
    (same : ∀ id, (s.get? id).map f = (s'.get? id).map f) :
    s.toList.map (fun x => (x.1, f x.2)) = s'.toList.map (fun x => (x.1, f x.2)) := by
  have found : ∀ (u : RecordStore) (id : RecordId), (u.layouts.map fun _ t => f t)[id]? = (u.get? id).map f := by
    intro u id
    exact Std.TreeMap.getElem?_map
  have equiv : (s.layouts.map fun _ t => f t).Equiv (s'.layouts.map fun _ t => f t) := by
    apply Std.TreeMap.Equiv.of_forall_constGet?_eq
    intro id
    exact (found s id).trans ((same id).trans (found s' id).symm)
  have lists := equiv.toList_eq
  rwa [Std.TreeMap.toList_map, Std.TreeMap.toList_map] at lists

/-- Stores in which look-ups find the same list the same. -/
theorem toList_eq_of_get? {s s' : RecordStore} (same : ∀ id, s.get? id = s'.get? id) : s.toList = s'.toList := by
  have mapped : s.toList.map id = s'.toList.map id :=
    map_toList_eq_of_get? (f := id) fun i => by rw [same]
  rwa [List.map_id, List.map_id] at mapped

theorem mem_ids {s : RecordStore} {id : RecordId} : id ∈ s.ids ↔ s.contains id = true := by
  rw [contains_eq_isSome, Option.isSome_iff_exists, ids, List.mem_map]
  constructor
  · rintro ⟨⟨id, t⟩, mem, rfl⟩
    exact ⟨t, mem_toList.1 mem⟩
  · rintro ⟨t, found⟩
    exact ⟨(id, t), mem_toList.2 found, rfl⟩

theorem ids_ascending (s : RecordStore) : s.ids.Pairwise (· < ·) := by
  have ordered := Std.TreeMap.ordered_keys_toList (t := s.layouts)
  rw [ids, List.pairwise_map]
  exact ordered.imp fun h => Std.compare_eq_lt.1 h

theorem nodup_ids (s : RecordStore) : s.ids.Nodup := by
  refine s.ids_ascending.imp ?_
  rintro id _ below rfl
  exact Int64.lt_irrefl below

theorem length_toList (s : RecordStore) : s.toList.length = s.size :=
  Std.TreeMap.length_toList

theorem length_ids (s : RecordStore) : s.ids.length = s.size := by
  rw [ids, List.length_map, length_toList]

theorem size_insert {s : RecordStore} {id : RecordId} (new : s.contains id = false) (t : LayoutTree) :
    (s.insert id t).2.size = s.size + 1 := by
  have absent : ¬ s.layouts.contains id = true := by
    rw [Bool.not_eq_true]
    exact new
  have grown : (s.layouts.insert id t).size = s.layouts.size + 1 := by
    rw [Std.TreeMap.size_insert]
    exact if_neg absent
  rw [insert, new, if_neg Bool.false_ne_true]
  exact grown

end RecordLayout.RecordStore
