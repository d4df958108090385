import RecordLayout.Proofs.Analysis.Tree

/-!
# The recursion of an analysis

`Model.expand` counts how many more records can be entered. `Model.round` is one round of an analysis without that
count: it looks at the marks alone and leaves the records inside to `inner`. An analysis is such a round in which
`inner` is the analysis again, and it asks `inner` for nothing but runs with less room (`analyze_eq_round`). So the
count hides nothing, and the recursion ends because the room gets less.
-/
namespace RecordLayout

open Analysis

namespace Model

/-- Lays out a record by the marks, where `inner` lays out the records inside it. -/
def round (m : Model) (inner : RecordDecl → Analysis LayoutTree) (r : RecordDecl) : Analysis LayoutTree := do
  let s ← get
  if maxRecordDepth ≤ s.size then
    report (.tooDeep r.name r.id)
    return r.cut
  else if fresh : r.id ∉ s.ids then
    set (s.enter r.id fresh)
    let t ← m.assemble inner r
    modify (·.leave r.id)
    return t
  else
    report (.selfContaining r.name r.id)
    return r.cut

section Cases

variable (m : Model) (inner : RecordDecl → Analysis LayoutTree) {r : RecordDecl} {s : InProgress}

/-- Without room a record is cut, be it marked or not. -/
theorem round_full (full : maxRecordDepth ≤ s.size) :
    m.round inner r s = ⟨(r.cut, s), [.tooDeep r.name r.id]⟩ := by
  have run : m.round inner r s = (if maxRecordDepth ≤ s.size then _ else _ : Analysis LayoutTree) s := rfl
  rw [run, if_pos full]
  rfl

theorem round_marked (below : ¬ maxRecordDepth ≤ s.size) (marked : r.id ∈ s.ids) :
    m.round inner r s = ⟨(r.cut, s), [.selfContaining r.name r.id]⟩ := by
  have run : m.round inner r s = (if maxRecordDepth ≤ s.size then _ else
    if fresh : r.id ∉ s.ids then _ else _ : Analysis LayoutTree) s := rfl
  rw [run, if_neg below, dif_neg (not_not_intro marked)]
  rfl

theorem round_fresh (below : ¬ maxRecordDepth ≤ s.size) (fresh : r.id ∉ s.ids) :
    m.round inner r s =
      let run := m.assemble inner r (s.enter r.id fresh)
      ⟨(run.value.1, run.value.2.leave r.id), run.events⟩ := by
  have run : m.round inner r s = (if maxRecordDepth ≤ s.size then _ else
    if fresh : r.id ∉ s.ids then _ else _ : Analysis LayoutTree) s := rfl
  rw [run, if_neg below, dif_pos fresh]
  let built := m.assemble inner r (s.enter r.id fresh)
  have closed : ([] ++ (built.events ++ ([] ++ []))) = built.events := by simp
  exact congrArg (Logged.mk (built.value.1, built.value.2.leave r.id)) closed

end Cases

/-- An analysis is a round with analyses inside, all of which have less room. -/
theorem analyze_eq_round (m : Model) (inner : RecordDecl → Analysis LayoutTree) (r : RecordDecl) (s : InProgress)
    (agrees : ∀ c s', s'.room < s.room → inner c s' = m.analyze c s') : m.analyze r s = m.round inner r s := by
  have run : m.analyze r s = m.expand s.room r s := rfl
  by_cases full : maxRecordDepth ≤ s.size
  · have room : s.room = 0 := Nat.sub_eq_zero_of_le full
    rw [run, room, round_full m inner full]
    rfl
  · by_cases marked : r.id ∈ s.ids
    · obtain ⟨room, left⟩ : ∃ room, s.room = room + 1 :=
        Nat.exists_eq_succ_of_ne_zero (Nat.sub_ne_zero_of_lt (Nat.lt_of_not_le full))
      rw [run, left, expand_marked m room marked, round_marked m inner full marked]
    · have left : s.room = (s.enter r.id marked).room + 1 := room_enter marked (Nat.lt_of_not_le full)
      have built : m.assemble inner r (s.enter r.id marked) =
          m.assemble (m.expand (s.enter r.id marked).room) r (s.enter r.id marked) :=
        (coincide_assemble (fun c => ⟨yields_expand m _ c _, agrees c _ (by omega)⟩) r).same
      rw [run, left, expand_fresh m _ marked, round_fresh m inner full marked, built]

end Model
end RecordLayout
