import RecordLayout.Analysis

/-!
# The order of bases

`SortedByOffset` says without an algorithm what an arrangement of bases by offset is: offsets ascend,
and trees at one offset keep the order in which they were given. `sortByOffset` gives such an
arrangement (`sortedByOffset_sortByOffset`) and there is no other one (`SortedByOffset.unique`), so a
relation that asks for one asks for exactly what `sortByOffset` gives.
-/
namespace RecordLayout

/-- `sorted` holds the trees of `ts` by ascending offset, those at one offset in the order of `ts`. -/
structure SortedByOffset (ts sorted : List LayoutTree) : Prop where
  ascending : sorted.Pairwise fun a b => a.entry.offsetBits ≤ b.entry.offsetBits
  stable : ∀ o, sorted.filter (·.entry.offsetBits = o) = ts.filter (·.entry.offsetBits = o)

theorem offsetOrder_trans (a b c : LayoutTree) (hab : decide (a.entry.offsetBits ≤ b.entry.offsetBits) = true)
    (hbc : decide (b.entry.offsetBits ≤ c.entry.offsetBits) = true) :
    decide (a.entry.offsetBits ≤ c.entry.offsetBits) = true := by
  simp only [decide_eq_true_eq] at hab hbc ⊢
  exact UInt64.le_trans hab hbc

theorem offsetOrder_total (a b : LayoutTree) :
    (decide (a.entry.offsetBits ≤ b.entry.offsetBits) || decide (b.entry.offsetBits ≤ a.entry.offsetBits)) = true := by
  simp only [Bool.or_eq_true, decide_eq_true_eq]
  exact UInt64.le_total _ _

theorem sortByOffset_ascending (ts : List LayoutTree) :
    (sortByOffset ts).Pairwise fun a b => a.entry.offsetBits ≤ b.entry.offsetBits := by
  have sorted := List.pairwise_mergeSort offsetOrder_trans offsetOrder_total ts
  exact sorted.imp fun h => by simpa using h

theorem sortByOffset_perm (ts : List LayoutTree) : (sortByOffset ts).Perm ts := List.mergeSort_perm ts _

@[simp] theorem mem_sortByOffset {t : LayoutTree} {ts : List LayoutTree} : t ∈ sortByOffset ts ↔ t ∈ ts :=
  (sortByOffset_perm ts).mem_iff

/-- Sorting moves nothing among elements that may stand in any order. -/
theorem filter_mergeSort {α : Type} {le : α → α → Bool} {q : α → Bool}
    (trans : ∀ a b c, le a b = true → le b c = true → le a c = true) (total : ∀ a b, (le a b || le b a) = true)
    (level : ∀ a b, q a = true → q b = true → le a b = true) (l : List α) :
    (l.mergeSort le).filter q = l.filter q := by
  have ordered : (l.filter q).Pairwise fun a b => le a b = true := by
    apply List.pairwise_of_forall_mem_list
    intro a ha b hb
    exact level a b (List.mem_filter.1 ha).2 (List.mem_filter.1 hb).2
  have kept := (List.sublist_mergeSort trans total ordered List.filter_sublist).filter q
  rw [List.filter_filter] at kept
  simp only [Bool.and_self] at kept
  exact (kept.eq_of_length ((List.mergeSort_perm l le).filter _).length_eq.symm).symm

theorem filter_sortByOffset (ts : List LayoutTree) (o : UInt64) :
    (sortByOffset ts).filter (·.entry.offsetBits = o) = ts.filter (·.entry.offsetBits = o) := by
  apply filter_mergeSort offsetOrder_trans offsetOrder_total
  intro a b ha hb
  simp only [decide_eq_true_eq] at ha hb ⊢
  rw [ha, hb]
  exact UInt64.le_refl o

theorem sortedByOffset_sortByOffset (ts : List LayoutTree) : SortedByOffset ts (sortByOffset ts) :=
  ⟨sortByOffset_ascending ts, filter_sortByOffset ts⟩

theorem mem_iff_of_filter_eq {as bs : List LayoutTree}
    (same : ∀ o, as.filter (·.entry.offsetBits = o) = bs.filter (·.entry.offsetBits = o)) (t : LayoutTree) :
    t ∈ as ↔ t ∈ bs := by
  simpa using congrArg (t ∈ ·) (same t.entry.offsetBits)

/-- An ascending list is determined by what stands at each offset. -/
theorem eq_of_filter_eq {as bs : List LayoutTree}
    (ascending_as : as.Pairwise fun a b => a.entry.offsetBits ≤ b.entry.offsetBits)
    (ascending_bs : bs.Pairwise fun a b => a.entry.offsetBits ≤ b.entry.offsetBits)
    (same : ∀ o, as.filter (·.entry.offsetBits = o) = bs.filter (·.entry.offsetBits = o)) : as = bs := by
  induction as generalizing bs with
  | nil =>
    symm
    simpa [List.eq_nil_iff_forall_not_mem] using mem_iff_of_filter_eq same
  | cons a as ih =>
    cases bs with
    | nil => exact absurd ((mem_iff_of_filter_eq same a).1 List.mem_cons_self) List.not_mem_nil
    | cons b bs =>
      obtain ⟨least_a, rest_as⟩ := List.pairwise_cons.1 ascending_as
      obtain ⟨least_b, rest_bs⟩ := List.pairwise_cons.1 ascending_bs
      -- Both heads are least, so they share an offset and lead the same filtered list.
      have level : a.entry.offsetBits = b.entry.offsetBits := by
        apply UInt64.le_antisymm
        · rcases List.mem_cons.1 ((mem_iff_of_filter_eq same b).2 List.mem_cons_self) with rfl | h
          · exact UInt64.le_refl _
          · exact least_a b h
        · rcases List.mem_cons.1 ((mem_iff_of_filter_eq same a).1 List.mem_cons_self) with rfl | h
          · exact UInt64.le_refl _
          · exact least_b a h
      have heads := same a.entry.offsetBits
      simp only [List.filter_cons, level, decide_true, if_true, List.cons.injEq] at heads
      have tails : ∀ o, as.filter (·.entry.offsetBits = o) = bs.filter (·.entry.offsetBits = o) := by
        intro o
        have h := same o
        simp only [List.filter_cons, level] at h
        split at h
        · exact (List.cons.inj h).2
        · exact h
      rw [heads.1, ih rest_as rest_bs tails]

theorem SortedByOffset.unique {ts sorted sorted' : List LayoutTree} (h : SortedByOffset ts sorted)
    (h' : SortedByOffset ts sorted') : sorted = sorted' :=
  eq_of_filter_eq h.ascending h'.ascending fun o => (h.stable o).trans (h'.stable o).symm

end RecordLayout
