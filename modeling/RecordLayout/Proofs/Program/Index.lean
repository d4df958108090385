import Std.Data.TreeMap.Lemmas
import RecordLayout.Program

/-!
# The index as a search

Looking an id up in the index of a program and following the place found gives the first record
declaration of that id in the order of the text, complete or not (`lookup?_eq_find?`). The bridge is
`Decl.located`, the record declarations of a forest with their places: the index is what entering
these one after the other gives, and each place leads back to its declaration.
-/
namespace RecordLayout

namespace Decl

mutual

/-- The record declarations in a declaration that stands at `place`, each with its own place. -/
def located (place : Place) : Decl → List (Place × RecordDecl × List Decl)
  | scope _ ds => forestLocated place 0 ds
  | record r ds => (place, r, ds) :: forestLocated place 0 ds
  | other _ ds => forestLocated place 0 ds

/-- The same for declarations that stand below `place` from position `i` on. -/
def forestLocated (place : Place) (i : Nat) : List Decl → List (Place × RecordDecl × List Decl)
  | [] => []
  | d :: ds => d.located (place ++ [i]) ++ forestLocated place (i + 1) ds

end

mutual

theorem map_snd_located (place : Place) : ∀ d : Decl, (d.located place).map (·.2) = d.records
  | scope _ ds => by rw [located, records, map_snd_forestLocated place 0 ds]
  | record r ds => by rw [located, records, List.map_cons, map_snd_forestLocated place 0 ds]
  | other _ ds => by rw [located, records, map_snd_forestLocated place 0 ds]

theorem map_snd_forestLocated (place : Place) (i : Nat) :
    ∀ ds : List Decl, (forestLocated place i ds).map (·.2) = forestRecords ds
  | [] => rfl
  | d :: ds => by
    rw [forestLocated, forestRecords, List.map_append, map_snd_located (place ++ [i]) d,
      map_snd_forestLocated place (i + 1) ds]

end

/-- A place that leads from `place` to a record declaration in `ds`, whose positions count from `i`. -/
def LeadsTo (place : Place) (i : Nat) (ds : List Decl) (x : Place × RecordDecl × List Decl) : Prop :=
  ∃ j rest, x.1 = place ++ (i + j) :: rest ∧ declAt? ds (j :: rest) = some (record x.2.1 x.2.2)

theorem LeadsTo.below {place : Place} {i : Nat} {d : Decl} {ds : List Decl} {x : Place × RecordDecl × List Decl}
    (h : LeadsTo (place ++ [i]) 0 d.nested x) : LeadsTo place i (d :: ds) x := by
  obtain ⟨j, rest, at_place, found⟩ := h
  refine ⟨0, j :: rest, ?_, ?_⟩
  · rw [at_place, Nat.zero_add, Nat.add_zero, List.append_assoc, List.singleton_append]
  · simpa [declAt?] using found

theorem LeadsTo.later {place : Place} {i : Nat} {d : Decl} {ds : List Decl} {x : Place × RecordDecl × List Decl}
    (h : LeadsTo place (i + 1) ds x) : LeadsTo place i (d :: ds) x := by
  obtain ⟨j, rest, at_place, found⟩ := h
  refine ⟨j + 1, rest, ?_, ?_⟩
  · rw [at_place, Nat.add_assoc, Nat.add_comm 1 j]
  · cases rest <;> simpa [declAt?] using found

theorem LeadsTo.here {place : Place} {i : Nat} {r : RecordDecl} {nested ds : List Decl} :
    LeadsTo place i (record r nested :: ds) (place ++ [i], r, nested) :=
  ⟨0, [], rfl, rfl⟩

mutual

theorem leadsTo_of_located {place : Place} {i : Nat} {ds : List Decl} {x : Place × RecordDecl × List Decl} :
    ∀ d : Decl, x ∈ d.located (place ++ [i]) → LeadsTo place i (d :: ds) x
  | scope _ nested, h => (leadsTo_of_forestLocated nested (by rwa [located] at h)).below
  | record r nested, h => by
    rw [located, List.mem_cons] at h
    rcases h with rfl | h
    · exact .here
    · exact LeadsTo.below (leadsTo_of_forestLocated nested h)
  | other _ nested, h => (leadsTo_of_forestLocated nested (by rwa [located] at h)).below

/-- Every listed place leads to the declaration that is listed with it. -/
theorem leadsTo_of_forestLocated {place : Place} {i : Nat} {x : Place × RecordDecl × List Decl} :
    ∀ ds : List Decl, x ∈ forestLocated place i ds → LeadsTo place i ds x
  | [], h => absurd h List.not_mem_nil
  | d :: ds, h => by
    rw [forestLocated, List.mem_append] at h
    rcases h with h | h
    · exact leadsTo_of_located d h
    · exact (leadsTo_of_forestLocated ds h).later

end

end Decl

namespace RecordIndex

/-- Enters a record declaration under its id. -/
def enter (index : RecordIndex) (x : Place × RecordDecl × List Decl) : RecordIndex :=
  index.insertIfNew x.2.1.id x.1

mutual

theorem addDecl_eq_foldl (place : Place) (index : RecordIndex) :
    ∀ d : Decl, addDecl place index d = (d.located place).foldl enter index
  | .scope _ ds => by rw [addDecl, Decl.located, addDecls_eq_foldl place 0 index ds]
  | .record r ds => by
    rw [addDecl, Decl.located, List.foldl_cons, addDecls_eq_foldl place 0 _ ds]
    rfl
  | .other _ ds => by rw [addDecl, Decl.located, addDecls_eq_foldl place 0 index ds]

theorem addDecls_eq_foldl (place : Place) (i : Nat) (index : RecordIndex) :
    ∀ ds : List Decl, addDecls place i index ds = (Decl.forestLocated place i ds).foldl enter index
  | [] => rfl
  | d :: ds => by
    rw [addDecls, Decl.forestLocated, List.foldl_append, addDecl_eq_foldl (place ++ [i]) index d,
      addDecls_eq_foldl place (i + 1) _ ds]

end

/-- The first entry of an id stays. -/
theorem getElem?_foldl_enter (xs : List (Place × RecordDecl × List Decl)) (index : RecordIndex) (id : RecordId) :
    (xs.foldl enter index)[id]? = (index[id]?).or ((xs.find? (·.2.1.id = id)).map (·.1)) := by
  induction xs generalizing index with
  | nil => simp
  | cons x xs ih =>
    rw [List.foldl_cons, ih, enter, Std.TreeMap.getElem?_insertIfNew]
    simp only [Std.compare_eq_iff_eq]
    by_cases same : x.2.1.id = id
    · subst same
      cases found : index[x.2.1.id]? with
      | none => simp [Std.TreeMap.mem_iff_isSome_getElem?, found]
      | some place => simp [Std.TreeMap.mem_iff_isSome_getElem?, found]
    · simp [same]

end RecordIndex

namespace Program

/-- The index has the place of the first declaration of an id. -/
theorem getElem?_index (p : Program) (id : RecordId) :
    p.index[id]? = ((Decl.forestLocated [] 0 p.decls).find? (·.2.1.id = id)).map (·.1) := by
  rw [p.index_eq, RecordIndex.ofDecls, RecordIndex.addDecls_eq_foldl, RecordIndex.getElem?_foldl_enter]
  simp

theorem find?_forestRecords (ds : List Decl) (id : RecordId) :
    (Decl.forestRecords ds).find? (·.1.id = id) =
      ((Decl.forestLocated [] 0 ds).find? (·.2.1.id = id)).map (·.2) := by
  rw [← Decl.map_snd_forestLocated [] 0 ds, List.find?_map]
  rfl

/-- A place that the index has leads to the declaration that a search finds. -/
theorem declAt?_of_getElem?_index {p : Program} {id : RecordId} {place : Place} (entry : p.index[id]? = some place) :
    ∃ r nested, declAt? p.decls place = some (.record r nested) ∧
      (Decl.forestRecords p.decls).find? (·.1.id = id) = some (r, nested) := by
  rw [getElem?_index, Option.map_eq_some_iff] at entry
  obtain ⟨⟨place, r, nested⟩, found, rfl⟩ := entry
  obtain ⟨j, rest, at_place, leads⟩ := Decl.leadsTo_of_forestLocated p.decls (List.mem_of_find?_eq_some found)
  rw [Nat.zero_add, List.nil_append] at at_place
  refine ⟨r, nested, ?_, ?_⟩
  · rw [at_place]
    exact leads
  · rw [find?_forestRecords, found]
    rfl

/-- A look-up is a search of the declarations in the order of the text. -/
theorem lookup?_eq_find? (p : Program) (id : RecordId) :
    p.lookup? id = (Decl.forestRecords p.decls).find? (·.1.id = id) := by
  rw [lookup?]
  cases entry : p.index[id]? with
  | some place =>
    obtain ⟨r, nested, leads, found⟩ := declAt?_of_getElem?_index entry
    simp only [leads, found]
  | none =>
    rw [getElem?_index, Option.map_eq_none_iff] at entry
    rw [find?_forestRecords, entry]
    rfl

theorem record?_eq_find? (p : Program) (id : RecordId) :
    p.record? id = ((Decl.forestRecords p.decls).find? (·.1.id = id)).map (·.1) := by
  rw [record?, lookup?_eq_find?]

end Program
end RecordLayout
