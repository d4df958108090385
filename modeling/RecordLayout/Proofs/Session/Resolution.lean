import Mathlib
import RecordLayout.Proofs.Analysis.Tree
import RecordLayout.Proofs.Program.Index
import RecordLayout.Proofs.Session.Reachable

/-!
# The declaration that an id means

The survey lays out the first complete declaration of an id. The index that resolves bases and fields
takes the first declaration, be it complete or not. The two agree just where no forward declaration opens
(`stored_layout_resolved`).
-/
namespace RecordLayout

namespace Program

theorem record?_eq_some_iff {p : Program} {id : RecordId} {r : RecordDecl} :
    p.record? id = some r ↔
      ∃ before nested after, Decl.forestRecords p.decls = before ++ (r, nested) :: after ∧
        (∀ x ∈ before, x.1.id ≠ id) ∧ r.id = id := by
  rw [record?_eq_find?, Option.map_eq_some_iff]
  constructor
  · rintro ⟨⟨r, nested⟩, found, rfl⟩
    obtain ⟨hit, before, after, split, missed⟩ := List.find?_eq_some_iff_append.1 found
    exact ⟨before, nested, after, split, by simpa using missed, by simpa using hit⟩
  · rintro ⟨before, nested, after, split, missed, hit⟩
    refine ⟨(r, nested), List.find?_eq_some_iff_append.2 ⟨by simpa using hit, before, after, split, ?_⟩, rfl⟩
    simpa using missed

/-- A complete declaration that the index finds is the first complete one. -/
theorem firstComplete?_of_record? {p : Program} {id : RecordId} {r : RecordDecl}
    (found : p.record? id = some r) (complete : r.complete = true) : p.firstComplete? id = some r := by
  obtain ⟨before, nested, after, split, missed, hit⟩ := record?_eq_some_iff.1 found
  rw [firstComplete?, Decl.firstComplete?, Option.map_eq_some_iff]
  refine ⟨(r, nested), List.find?_eq_some_iff_append.2 ⟨by simp [complete, hit], before, after, split, ?_⟩, rfl⟩
  intro x mem
  simp [missed x mem]

end Program

end RecordLayout
