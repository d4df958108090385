import Mathlib
import RecordLayout.Proofs.Program.Index

/-!
# What the index of a program holds

The index has an entry for each id that a record declaration has, and for no other. The place in it leads to a record
declaration, so a look-up never comes to nothing half-way (`index_as_search`).
-/
namespace RecordLayout

namespace Program

theorem mem_index_iff {p : Program} {id : RecordId} :
    id ∈ p.index ↔ id ∈ (Decl.forestRecords p.decls).map (·.1.id) := by
  rw [Std.TreeMap.mem_iff_isSome_getElem?, getElem?_index, Option.isSome_map,
    ← Decl.map_snd_forestLocated [] 0 p.decls, List.map_map]
  simp

/-- The index has one entry for each of the ids. -/
theorem recordCount_eq_card (p : Program) :
    p.recordCount = ((Decl.forestRecords p.decls).map (·.1.id)).toFinset.card := by
  have keys : p.index.keys.toFinset = ((Decl.forestRecords p.decls).map (·.1.id)).toFinset := by
    ext id
    rw [List.mem_toFinset, List.mem_toFinset, Std.TreeMap.mem_keys, mem_index_iff]
  calc p.recordCount
      = p.index.keys.length := Std.TreeMap.length_keys.symm
    _ = p.index.keys.toFinset.card := (List.toFinset_card_of_nodup Std.TreeMap.nodup_keys).symm
    _ = ((Decl.forestRecords p.decls).map (·.1.id)).toFinset.card := by rw [keys]

end Program

/-- A look-up gives the first record declaration of the id in the order of the text, complete or not, and nothing just
if no record declaration has that id. Every place in the index leads to a record declaration, which is the one that the
look-up gives. The index counts the distinct ids of the record declarations. -/
theorem index_as_search (p : Program) :
    (∀ id, p.lookup? id = (Decl.forestRecords p.decls).find? (·.1.id = id) ∧
      (p.lookup? id = none ↔ ∀ x ∈ Decl.forestRecords p.decls, x.1.id ≠ id)) ∧
    (∀ id place, p.index[id]? = some place →
      ∃ r nested, declAt? p.decls place = some (.record r nested) ∧ p.lookup? id = some (r, nested)) ∧
    p.recordCount = ((Decl.forestRecords p.decls).map (·.1.id)).toFinset.card := by
  refine ⟨?_, ?_, p.recordCount_eq_card⟩
  · intro id
    refine ⟨p.lookup?_eq_find? id, ?_⟩
    rw [p.lookup?_eq_find?, List.find?_eq_none]
    simp
  · intro id place entry
    obtain ⟨r, nested, leads, found⟩ := Program.declAt?_of_getElem?_index entry
    exact ⟨r, nested, leads, (p.lookup?_eq_find? id).trans found⟩

/-- A forward declaration deep inside, and the definition of the same record behind it at the top. -/
def burrow : Program :=
  .ofDecls .standard
    [.scope "ns" [.other "Enum" [], .record { id := 1, name := "Mole" } [.other "LinkageSpec" [
        .record { id := -2, name := "Den", complete := false } []]]],
      .record { id := -2, name := "Den", size := 4 } [.record { id := 1, name := "Mole" } []]]

theorem index_as_search_burrow :
    burrow.index[(-2 : RecordId)]? = some [0, 1, 0, 0] ∧
      (∃ r nested, declAt? burrow.decls [0, 1, 0, 0] = some (.record r nested) ∧
        burrow.lookup? (-2) = some (r, nested) ∧ r.complete = false) ∧
      burrow.recordCount = 2 := by
  have entry : burrow.index[(-2 : RecordId)]? = some [0, 1, 0, 0] := by cbv
  obtain ⟨search, places, count⟩ := index_as_search burrow
  obtain ⟨r, nested, leads, found⟩ := places (-2) [0, 1, 0, 0] entry
  have forward : burrow.lookup? (-2) = some ({ id := -2, name := "Den", complete := false }, []) := by cbv
  have same : r.complete = false := by
    rw [forward] at found
    cases found
    rfl
  exact ⟨entry, ⟨r, nested, leads, found, same⟩, count.trans (by decide)⟩

end RecordLayout
