import Mathlib
import RecordLayout.Proofs.Analysis.Members
import RecordLayout.Proofs.Layout.Shape

/-!
# What the check of a tree decides

The check goes through the children of each node once and remembers only the highest rank so far and the offset of
the last base. That is enough: it lists nothing if and only if every node has the shape that `WellShaped` describes
without a scan (`check_decides_shape`). `sites` has the nodes that the listed breaches belong to.
-/
namespace RecordLayout.LayoutTree

/-- At most one vptr at offset 0, then bases by ascending offset, then fields. -/
def Grouped (cs : List LayoutTree) : Prop :=
  ∃ vptrs bases fields, cs = vptrs ++ bases ++ fields ∧ vptrs.length ≤ 1 ∧
    (∀ v ∈ vptrs, v.entry.kind = .vptr ∧ v.entry.offsetBits = 0) ∧
    (∀ b ∈ bases, b.entry.kind = .nonVirtualBase ∨ b.entry.kind = .virtualBase) ∧
    (bases.Pairwise fun a b => a.entry.offsetBits ≤ b.entry.offsetBits) ∧
    ∀ f ∈ fields, f.entry.kind = .simple ∨ f.entry.kind = .bitField ∨ f.entry.kind = .record

/-- What must hold at a node, whatever is below its children. -/
structure WellShaped (n : LayoutTree) : Prop where
  validity : n.entry.valid = false ∨ ∀ c ∈ n.children, c.entry.valid = true
  aggregate : n.children ≠ [] → n.entry.kind = .record ∨ n.entry.kind = .nonVirtualBase
  grouped : Grouped n.children

/-! ## The order of children -/

theorem rank_eq_one_iff {k : FieldKind} : rank k = 1 ↔ k = .nonVirtualBase ∨ k = .virtualBase := by
  cases k <;> simp [rank]

theorem rank_eq_two_iff {k : FieldKind} : rank k = 2 ↔ k = .simple ∨ k = .bitField ∨ k = .record := by
  cases k <;> simp [rank]

theorem rank_eq_zero_iff {k : FieldKind} : rank k = 0 ↔ k = .vptr := by
  cases k <;> simp [rank]

theorem rank_le (k : FieldKind) : rank k ≤ 2 := by
  cases k <;> simp [rank]

section Scan

variable {i : Nat} {previous : UInt64} {cs : List LayoutTree}

/-- Once a field has been seen, nothing but fields goes unnoticed. -/
theorem rank_of_fieldsReached (clean : orderBreaches i 2 previous cs = []) : ∀ c ∈ cs, rank c.entry.kind = 2 := by
  induction cs generalizing i previous with
  | nil => simp
  | cons c cs ih =>
    obtain ⟨-, later, -, clean⟩ := orderBreaches_cons.1 clean
    have here : rank c.entry.kind = 2 := Nat.le_antisymm (rank_le _) later
    rw [here] at clean
    simpa [here] using ih clean

/-- Where no vptr opens, a scan lets pass bases by offset and then fields. It compares a base with the one before it
only, so what it remembers bounds all that follow. -/
theorem split_of_basesReached {reached : Nat} (behind : reached ≤ 1)
    (plain : i = 0 → ∀ c ∈ cs.head?, c.entry.kind ≠ .vptr) (clean : orderBreaches i reached previous cs = []) :
    ∃ bases fields, cs = bases ++ fields ∧ (∀ b ∈ bases, rank b.entry.kind = 1) ∧
      (bases.Pairwise fun a b => a.entry.offsetBits ≤ b.entry.offsetBits) ∧
      (reached = 1 → ∀ b ∈ bases, previous ≤ b.entry.offsetBits) ∧ ∀ f ∈ fields, rank f.entry.kind = 2 := by
  induction cs generalizing i reached previous with
  | nil => exact ⟨[], [], by simp⟩
  | cons c cs ih =>
    obtain ⟨vptr, -, above, clean⟩ := orderBreaches_cons.1 clean
    have ranked : rank c.entry.kind = 0 ∨ rank c.entry.kind = 1 ∨ rank c.entry.kind = 2 := by
      have bound := rank_le c.entry.kind
      omega
    obtain zero | one | two := ranked
    · have kind := rank_eq_zero_iff.1 zero
      exact absurd kind (plain (vptr kind).1 c rfl)
    · rw [one, Nat.max_eq_right behind, if_pos rfl] at clean
      obtain ⟨bases, fields, rfl, kinds, ascending, least, rest⟩ := ih (Nat.le_refl 1) (by omega) clean
      refine ⟨c :: bases, fields, rfl, by simpa [one] using kinds, ?_, ?_, rest⟩
      · exact List.pairwise_cons.2 ⟨least rfl, ascending⟩
      · intro reached b mem
        obtain rfl | mem := List.mem_cons.1 mem
        · exact above one reached
        · exact UInt64.le_trans (above one reached) (least rfl b mem)
    · rw [two, Nat.max_eq_right (by omega)] at clean
      refine ⟨[], c :: cs, rfl, by simp, .nil, by simp, ?_⟩
      simpa [two] using rank_of_fieldsReached clean

end Scan

theorem grouped_of_ranks {vptrs bases fields : List LayoutTree} (single : vptrs.length ≤ 1)
    (vptr : ∀ v ∈ vptrs, v.entry.kind = .vptr ∧ v.entry.offsetBits = 0)
    (kinds : ∀ b ∈ bases, rank b.entry.kind = 1)
    (ascending : bases.Pairwise fun a b => a.entry.offsetBits ≤ b.entry.offsetBits)
    (rest : ∀ f ∈ fields, rank f.entry.kind = 2) : Grouped (vptrs ++ bases ++ fields) := by
  refine ⟨vptrs, bases, fields, rfl, single, vptr, ?_, ascending, ?_⟩
  · exact fun b mem => rank_eq_one_iff.1 (kinds b mem)
  · exact fun f mem => rank_eq_two_iff.1 (rest f mem)

/-- The scan notices nothing if and only if the children are in groups. -/
theorem orderBreaches_eq_nil_iff {cs : List LayoutTree} : orderBreaches 0 0 0 cs = [] ↔ Grouped cs := by
  constructor
  · intro clean
    by_cases opens : ∃ v rest, cs = v :: rest ∧ v.entry.kind = .vptr
    · obtain ⟨v, rest, rfl, kind⟩ := opens
      obtain ⟨vptr, -, -, clean⟩ := orderBreaches_cons.1 clean
      rw [rank_eq_zero_iff.2 kind] at clean
      obtain ⟨bases, fields, rfl, kinds, ascending, -, rest⟩ :=
        split_of_basesReached (by decide) (by simp) clean
      exact @grouped_of_ranks [v] bases fields (by simp) (by simpa [kind] using vptr) kinds ascending rest
    · have plain : ∀ c ∈ cs.head?, c.entry.kind ≠ .vptr := by
        intro c first kind
        obtain ⟨rest, rfl⟩ := List.head?_eq_some_iff.1 first
        exact opens ⟨c, rest, rfl, kind⟩
      obtain ⟨bases, fields, rfl, kinds, ascending, -, rest⟩ :=
        split_of_basesReached (Nat.zero_le 1) (fun _ => plain) clean
      exact @grouped_of_ranks [] bases fields (by simp) (by simp) kinds ascending rest
  · intro ⟨vptrs, bases, fields, split, single, vptr, kinds, ascending, rest⟩
    rw [split]
    apply orderBreaches_groups single vptr ?_ ascending
    · exact fun f mem => rank_eq_two_iff.2 (rest f mem)
    · exact fun b mem => rank_eq_one_iff.2 (kinds b mem)

theorem breaches_eq_nil_iff {n : LayoutTree} : breaches n.entry n.children = [] ↔ n.WellShaped := by
  rw [breaches_eq_nil, orderBreaches_eq_nil_iff, FieldKind.isAggregate_iff]
  constructor
  · intro ⟨validity, aggregate, grouped⟩
    refine ⟨?_, fun some => aggregate.resolve_right some, grouped⟩
    cases valid : n.entry.valid with
    | false => exact .inl rfl
    | true => exact .inr (validity valid)
  · intro ⟨validity, aggregate, grouped⟩
    refine ⟨fun valid => validity.resolve_left (by simp [valid]), ?_, grouped⟩
    by_cases none : n.children = []
    · exact .inr none
    · exact .inl (aggregate none)

/-! ## The node of each breach -/

mutual

/-- The listed breaches, each with the address of its node. -/
def sites (path : String) : LayoutTree → List (Address × Violation)
  | node e cs => (breaches e cs).map (fun b => ([], ⟨path, b⟩)) ++ childSites path 0 cs

/-- The same of children that stand from position `i` on. -/
def childSites (path : String) (i : Nat) : List LayoutTree → List (Address × Violation)
  | [] => []
  | c :: cs => (sites (childPath path c.entry) c).map (fun x => (i :: x.1, x.2)) ++ childSites path (i + 1) cs

end

/-- The path that the breaches of a node are listed under. -/
def pathTo : String → LayoutTree → Address → String
  | path, _, [] => path
  | path, t, k :: rest =>
    match t.children[k]? with
    | some c => pathTo (childPath path c.entry) c rest
    | none => path

mutual

theorem map_snd_sites (path : String) : ∀ t : LayoutTree, (sites path t).map (·.2) = violationsAt path t
  | node e cs => by
    rw [sites, violationsAt, List.map_append, List.map_map, map_snd_childSites path 0 cs]
    rfl

theorem map_snd_childSites (path : String) (i : Nat) :
    ∀ cs : List LayoutTree, (childSites path i cs).map (·.2) = childViolations path cs
  | [] => rfl
  | c :: cs => by
    rw [childSites, childViolations, List.map_append, List.map_map, ← map_snd_sites (childPath path c.entry) c,
      map_snd_childSites path (i + 1) cs]
    rfl

end

section Sites

variable {path : String} {i : Nat} {cs : List LayoutTree}

theorem exists_of_mem_childSites {x : Address × Violation} (listed : x ∈ childSites path i cs) :
    ∃ k c y, cs[k]? = some c ∧ y ∈ sites (childPath path c.entry) c ∧ x = ((i + k) :: y.1, y.2) := by
  induction cs generalizing i with
  | nil => cases listed
  | cons c cs ih =>
    rw [childSites, List.mem_append] at listed
    obtain here | later := listed
    · obtain ⟨y, mem, rfl⟩ := List.mem_map.1 here
      exact ⟨0, c, y, rfl, mem, rfl⟩
    · obtain ⟨k, c', y, found, mem, rfl⟩ := ih later
      refine ⟨k + 1, c', y, found, mem, ?_⟩
      rw [Nat.add_assoc, Nat.add_comm 1 k]

theorem filter_childSites {k : Nat} {c : LayoutTree} (found : cs[k]? = some c) (rest : Address) :
    ((childSites path i cs).filter (·.1 = (i + k) :: rest)).map (·.2) =
      ((sites (childPath path c.entry) c).filter (·.1 = rest)).map (·.2) := by
  induction cs generalizing i k with
  | nil => cases found
  | cons d cs ih =>
    rw [childSites, List.filter_append, List.map_append, List.filter_map]
    cases k with
    | zero =>
      obtain rfl := Option.some.inj found
      have others : (childSites path (i + 1) cs).filter (·.1 = (i + 0) :: rest) = [] := by
        rw [List.filter_eq_nil_iff]
        intro x listed same
        obtain ⟨k, c, y, -, -, rfl⟩ := exists_of_mem_childSites listed
        simp only [decide_eq_true_eq, List.cons.injEq] at same
        omega
      rw [others]
      simp [Function.comp_def]
    | succ k =>
      have elsewhere : ¬ i = i + 1 + k := by omega
      have shifted : i + (k + 1) = i + 1 + k := by omega
      rw [shifted, ← @ih (i + 1) k found]
      simp [Function.comp_def, elsewhere]

/-- The breaches at an address are those of the node there. -/
theorem filter_sites {t n : LayoutTree} {a : Address} (found : t.at? a = some n) :
    ((sites path t).filter (·.1 = a)).map (·.2) = (breaches n.entry n.children).map (⟨pathTo path t a, ·⟩) := by
  induction a generalizing path t with
  | nil =>
    obtain rfl := Option.some.inj found
    cases t with
    | node e cs =>
      have below : (childSites path 0 cs).filter (·.1 = []) = [] := by
        rw [List.filter_eq_nil_iff]
        intro x listed
        obtain ⟨k, c, y, -, -, rfl⟩ := exists_of_mem_childSites listed
        simp
      rw [sites, List.filter_append, below]
      simp [List.filter_map, Function.comp_def, pathTo]
  | cons k rest ih =>
    cases t with
    | node e cs =>
      obtain ⟨c, child, found⟩ := Option.bind_eq_some_iff.1 found
      have step : pathTo path (node e cs) (k :: rest) = pathTo (childPath path c.entry) c rest := by
        rw [children_node] at child
        rw [pathTo, children_node, child]
      rw [sites, step, ← ih found, ← filter_childSites child rest, Nat.zero_add, children_node]
      simp [List.filter_map, Function.comp_def]

theorem exists_of_mem_sites {t : LayoutTree} {x : Address × Violation} (listed : x ∈ sites path t) :
    ∃ n, t.at? x.1 = some n := by
  obtain ⟨a, v⟩ := x
  induction a generalizing path t with
  | nil => exact ⟨t, rfl⟩
  | cons k rest ih =>
    cases t with
    | node e cs =>
      rw [sites, List.mem_append] at listed
      obtain own | below := listed
      · simp at own
      · obtain ⟨k', c, y, child, mem, same⟩ := exists_of_mem_childSites below
        simp only [Prod.mk.injEq, List.cons.injEq, Nat.zero_add] at same
        obtain ⟨⟨rfl, rfl⟩, rfl⟩ := same
        obtain ⟨n, found⟩ := ih mem
        exact ⟨n, Option.bind_eq_some_iff.2 ⟨c, child, found⟩⟩

end Sites

mutual

/-- No breach is listed behind one of a descendant. -/
theorem outermost_sites (path : String) : ∀ t : LayoutTree,
    (sites path t).Pairwise fun x y => ¬ ∃ k rest, x.1 = y.1 ++ k :: rest
  | node e cs => by
    rw [sites, List.pairwise_append]
    refine ⟨?_, outermost_childSites path 0 cs, ?_⟩
    · rw [List.pairwise_map]
      exact List.pairwise_of_forall (by simp)
    · intro x own y _
      obtain ⟨b, -, rfl⟩ := List.mem_map.1 own
      simp

theorem outermost_childSites (path : String) (i : Nat) : ∀ cs : List LayoutTree,
    (childSites path i cs).Pairwise fun x y => ¬ ∃ k rest, x.1 = y.1 ++ k :: rest
  | [] => .nil
  | c :: cs => by
    rw [childSites, List.pairwise_append]
    refine ⟨?_, outermost_childSites path (i + 1) cs, ?_⟩
    · rw [List.pairwise_map]
      exact (outermost_sites (childPath path c.entry) c).imp (by simp)
    · -- Different children have no common addresses, so neither is above the other.
      intro x own y later
      obtain ⟨x, -, rfl⟩ := List.mem_map.1 own
      obtain ⟨k, c', y, -, -, rfl⟩ := exists_of_mem_childSites later
      intro ⟨l, rest, same⟩
      simp only [List.cons_append, List.cons.injEq] at same
      omega

end

/-! ## The whole tree -/

theorem violations_eq_nil_iff {t : LayoutTree} : t.violations = [] ↔ ∀ a n, t.at? a = some n → n.WellShaped := by
  rw [violations, ← map_snd_sites, List.map_eq_nil_iff]
  constructor
  · intro clean a n found
    have here := @filter_sites t.entry.typeName t n a found
    rw [clean] at here
    exact breaches_eq_nil_iff.1 (List.map_eq_nil_iff.1 here.symm)
  · intro shaped
    rw [List.eq_nil_iff_forall_not_mem]
    intro x listed
    obtain ⟨n, found⟩ := exists_of_mem_sites listed
    have here := @filter_sites t.entry.typeName t n x.1 found
    rw [breaches_eq_nil_iff.2 (shaped x.1 n found), List.map_nil, List.map_eq_nil_iff, List.filter_eq_nil_iff] at here
    exact here x listed (by simp)

/-- Validity goes down from a node whose descendants have the right shape. -/
theorem valid_at? {t n : LayoutTree} {a : Address} (shaped : ∀ a n, t.at? a = some n → n.WellShaped)
    (valid : t.entry.valid = true) (found : t.at? a = some n) : n.entry.valid = true := by
  induction a generalizing t with
  | nil =>
    obtain rfl := Option.some.inj found
    exact valid
  | cons k rest ih =>
    obtain ⟨c, child, found⟩ := Option.bind_eq_some_iff.1 found
    have all := (shaped [] t rfl).validity.resolve_left (by simp [valid])
    apply ih ?_ (all c (List.mem_of_getElem? child)) found
    exact fun a n found => shaped (k :: a) n (Option.bind_eq_some_iff.2 ⟨c, child, found⟩)

/-- The check lists nothing if and only if every node is well-shaped, and then a valid root has no invalid node
below it. What it lists are the breaches of each node, under the path of the node, in such an order that those of
a node stand before those of its descendants. -/
theorem check_decides_shape (t : LayoutTree) :
    (t.violations = [] ↔ ∀ a n, t.at? a = some n → n.WellShaped) ∧
    (t.violations = [] → t.entry.valid = true → ∀ a n, t.at? a = some n → n.entry.valid = true) ∧
    ∃ sites : List (Address × Violation), sites.map (·.2) = t.violations ∧
      (∀ x ∈ sites, ∃ n, t.at? x.1 = some n) ∧
      (∀ a n, t.at? a = some n → (sites.filter (·.1 = a)).map (·.2) =
        (breaches n.entry n.children).map (⟨pathTo t.entry.typeName t a, ·⟩)) ∧
      sites.Pairwise fun x y => ¬ ∃ k rest, x.1 = y.1 ++ k :: rest := by
  refine ⟨violations_eq_nil_iff, ?_, sites t.entry.typeName t, ?_, ?_, ?_, ?_⟩
  · intro clean valid a n found
    exact valid_at? (violations_eq_nil_iff.1 clean) valid found
  · exact map_snd_sites _ t
  · exact fun x listed => exists_of_mem_sites listed
  · exact fun a n found => filter_sites found
  · exact outermost_sites _ t

/-- A record with a vptr and a base that has a field. -/
def sample : LayoutTree :=
  .node { kind := .record, typeName := "D", size := 16, align := 8 }
    [.leaf { kind := .vptr, typeName := "vptr", size := 8, align := 8 },
      .node { kind := .nonVirtualBase, typeName := "B", offsetBits := 64, size := 4, align := 4 }
        [.leaf { kind := .simple, typeName := "int", name := "x", size := 4, align := 4 }]]

theorem check_decides_shape_sample :
    sample.violations = [] ∧ (∃ n, sample.at? [1, 0] = some n ∧ n.entry.name = "x" ∧ n.entry.valid = true) ∧
      sample.WellShaped := by
  have clean : sample.violations = [] := by decide
  obtain ⟨decides, valid, -⟩ := check_decides_shape sample
  refine ⟨clean, ⟨_, rfl, rfl, valid clean rfl [1, 0] _ rfl⟩, decides.1 clean [] _ rfl⟩

-- A base behind a field is out of order, but its offset is not compared with those before it.
example :
    let nested := node { kind := .nonVirtualBase, typeName := "B" }
      [.leaf { kind := .vptr, typeName := "vptr", offsetBits := 1 }]
    (violations (.node { kind := .record, typeName := "S" }
      [.leaf { kind := .virtualBase, typeName := "A", offsetBits := 8 }, .leaf { kind := .simple, typeName := "int" },
        nested])).map (·.breach) = [.outOfOrder .nonVirtualBase 2, .misplacedVptr 0 1] := by
  decide

end RecordLayout.LayoutTree
