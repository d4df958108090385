import RecordLayout.Layout.Check

/-!
# Trees without breaches

When the check of a tree lists nothing, node by node (`breaches_eq_nil`, `orderBreaches_cons`), and what
keeps it so: children in groups (`orderBreaches_groups`), and a change of the root that neither makes it
valid nor takes the right to children away (`Sound.update`).
-/
namespace RecordLayout.LayoutTree

/-- No node has a breach, whatever path the tree is listed under. -/
def Sound (t : LayoutTree) : Prop := ∀ path, t.violationsAt path = []

theorem childViolations_eq_nil {path : String} {cs : List LayoutTree} :
    childViolations path cs = [] ↔ ∀ c ∈ cs, violationsAt (childPath path c.entry) c = [] := by
  induction cs with
  | nil => simp [childViolations]
  | cons c cs ih => simp [childViolations, ih]

theorem violationsAt_eq_nil {path : String} {e : LayoutEntry} {cs : List LayoutTree} :
    violationsAt path (.node e cs) = [] ↔
      breaches e cs = [] ∧ ∀ c ∈ cs, violationsAt (childPath path c.entry) c = [] := by
  rw [violationsAt, List.append_eq_nil_iff, List.map_eq_nil_iff, childViolations_eq_nil]

theorem breaches_eq_nil {e : LayoutEntry} {cs : List LayoutTree} :
    breaches e cs = [] ↔
      (e.valid = true → ∀ c ∈ cs, c.entry.valid = true) ∧ (e.kind.isAggregate = true ∨ cs = []) ∧
        orderBreaches 0 0 0 cs = [] := by
  unfold breaches
  cases e.valid <;> cases e.kind.isAggregate <;> simp

theorem orderBreaches_cons {i reached : Nat} {previous : UInt64} {c : LayoutTree} {cs : List LayoutTree} :
    orderBreaches i reached previous (c :: cs) = [] ↔
      (c.entry.kind = .vptr → i = 0 ∧ c.entry.offsetBits = 0) ∧ reached ≤ rank c.entry.kind ∧
        (rank c.entry.kind = 1 → reached = 1 → previous ≤ c.entry.offsetBits) ∧
        orderBreaches (i + 1) (max reached (rank c.entry.kind))
          (if rank c.entry.kind = 1 then c.entry.offsetBits else previous) cs = [] := by
  simp only [orderBreaches, List.append_eq_nil_iff, ite_eq_right_iff, List.cons_ne_nil, imp_false, and_assoc,
    not_and, not_or, Decidable.not_not, Nat.not_lt, UInt64.not_lt]

theorem ne_vptr_of_rank_pos {k : FieldKind} (h : 0 < rank k) : k ≠ .vptr := by
  intro same
  simp [same, rank] at h

section Groups

variable {i reached : Nat} {previous : UInt64} {bases fields : List LayoutTree}

/-- Fields may stand behind anything. -/
theorem orderBreaches_fields (ranks : ∀ c ∈ fields, rank c.entry.kind = 2) (behind : reached ≤ 2) :
    orderBreaches i reached previous fields = [] := by
  induction fields generalizing i reached with
  | nil => rfl
  | cons c cs ih =>
    have here := ranks c List.mem_cons_self
    have plain : c.entry.kind ≠ .vptr := ne_vptr_of_rank_pos (by omega)
    rw [orderBreaches_cons, here]
    refine ⟨fun kind => absurd kind plain, behind, fun one => absurd one (by decide), ?_⟩
    exact ih (fun d mem => ranks d (List.mem_cons_of_mem c mem)) (Nat.max_le.2 ⟨behind, Nat.le_refl 2⟩)

/-- Bases may stand behind a vptr and behind bases at lower offsets. -/
theorem orderBreaches_bases (ranks : ∀ b ∈ bases, rank b.entry.kind = 1)
    (ascending : bases.Pairwise fun a b => a.entry.offsetBits ≤ b.entry.offsetBits)
    (rest : ∀ c ∈ fields, rank c.entry.kind = 2) (behind : reached ≤ 1)
    (above : reached = 1 → ∀ b ∈ bases, previous ≤ b.entry.offsetBits) :
    orderBreaches i reached previous (bases ++ fields) = [] := by
  induction bases generalizing i reached previous with
  | nil => exact orderBreaches_fields rest (Nat.le_trans behind (by decide))
  | cons b bs ih =>
    have here := ranks b List.mem_cons_self
    have plain : b.entry.kind ≠ .vptr := ne_vptr_of_rank_pos (by omega)
    obtain ⟨least, ascending⟩ := List.pairwise_cons.1 ascending
    rw [List.cons_append, orderBreaches_cons, here, if_pos rfl]
    refine ⟨fun kind => absurd kind plain, behind, fun _ one => above one b List.mem_cons_self, ?_⟩
    apply ih (fun d mem => ranks d (List.mem_cons_of_mem b mem)) ascending
    · omega
    · intro _ d mem
      exact least d mem

/-- At most one vptr at offset 0, then bases by offset, then fields: nothing is out of order. -/
theorem orderBreaches_groups {vptrs : List LayoutTree} (single : vptrs.length ≤ 1)
    (vptr : ∀ v ∈ vptrs, v.entry.kind = .vptr ∧ v.entry.offsetBits = 0)
    (ranks : ∀ b ∈ bases, rank b.entry.kind = 1)
    (ascending : bases.Pairwise fun a b => a.entry.offsetBits ≤ b.entry.offsetBits)
    (rest : ∀ c ∈ fields, rank c.entry.kind = 2) :
    orderBreaches 0 0 0 (vptrs ++ bases ++ fields) = [] := by
  rw [List.append_assoc]
  match vptrs, single with
  | [], _ =>
    rw [List.nil_append]
    exact orderBreaches_bases ranks ascending rest (Nat.zero_le 1) fun one => absurd one (by decide)
  | [v], _ =>
    obtain ⟨kind, start⟩ := vptr v List.mem_cons_self
    rw [List.singleton_append, orderBreaches_cons, kind]
    refine ⟨fun _ => ⟨rfl, start⟩, Nat.zero_le _, fun one => absurd one (by decide), ?_⟩
    exact orderBreaches_bases ranks ascending rest (by decide) fun one => absurd one (by decide)

end Groups

theorem Sound.update {t : LayoutTree} {f : LayoutEntry → LayoutEntry} (h : t.Sound)
    (valid : (f t.entry).valid = true → t.entry.valid = true)
    (aggregate : t.entry.kind.isAggregate = true → (f t.entry).kind.isAggregate = true) :
    (t.update f).Sound := by
  cases t with
  | node e cs =>
    intro path
    obtain ⟨here, inner⟩ := violationsAt_eq_nil.1 (h path)
    obtain ⟨allValid, permitted, ordered⟩ := breaches_eq_nil.1 here
    rw [LayoutTree.update, violationsAt_eq_nil, breaches_eq_nil]
    exact ⟨⟨fun v => allValid (valid v), permitted.imp aggregate id, ordered⟩, inner⟩

end RecordLayout.LayoutTree
