import Mathlib
import RecordLayout.Proofs.Analysis.Degradation
import RecordLayout.Proofs.Analysis.Recursion
import RecordLayout.Proofs.Session.Arrangement

/-!
# How deep a layout goes

On the way from the root of a layout to any of its nodes, the records that are laid out with their members have
distinct ids and are at most 256, so a layout ends even where records contain each other. The record that the node
itself stands for is cut if it repeats one of these ids or there are 256 of them already (`depth_bounded`).
-/
namespace RecordLayout

/-- The distinct ids of the records of a program. -/
def Program.recordIds (p : Program) : List RecordId := (p.heads.map (·.id)).dedup

/-- The node shows the record, without its members if it is cut. -/
structure RecordDecl.ShownBy (c : RecordDecl) (cut : Prop) (n : LayoutTree) : Prop where
  typeName : n.entry.typeName = c.name
  size : n.entry.size = c.size
  align : n.entry.align = c.align
  empty_of_cut : cut → n.entry.valid = false ∧ n.children = []
  full_of_not_cut : ¬ cut → n.children.length = c.members.length

namespace Model

/-- The records whose nodes stand above an address in the layout of a record, from its own one down. -/
def recordsAbove (m : Model) : RecordDecl → Address → List RecordDecl
  | _, [] => []
  | r, k :: a => r :: ((r.members[k]?.bind m.recordOf?).elim [] fun c => m.recordsAbove c a)

/-- The record that the node at an address is laid out as. -/
def recordAt? (m : Model) : RecordDecl → Address → Option RecordDecl
  | r, [] => some r
  | r, k :: a => (r.members[k]?.bind m.recordOf?).bind fun c => m.recordAt? c a

section Step

variable {m : Model} {inner : RecordDecl → LayoutTree} {c : RecordDecl} {cut : Prop} {t : LayoutTree}

theorem shownBy_update {f : LayoutEntry → LayoutEntry} (shown : c.ShownBy cut t)
    (kept : (f t.entry).typeName = t.entry.typeName ∧ (f t.entry).size = t.entry.size ∧
      (f t.entry).align = t.entry.align)
    (spoiled : t.entry.valid = false → (f t.entry).valid = false) : c.ShownBy cut (t.update f) := by
  obtain ⟨typeName, size, align⟩ := kept
  constructor
  · rw [LayoutTree.entry_update, typeName, shown.typeName]
  · rw [LayoutTree.entry_update, size, shown.size]
  · rw [LayoutTree.entry_update, align, shown.align]
  · intro cut
    obtain ⟨invalid, empty⟩ := shown.empty_of_cut cut
    rw [LayoutTree.entry_update, LayoutTree.children_update]
    exact ⟨spoiled invalid, empty⟩
  · rw [LayoutTree.children_update]
    exact shown.full_of_not_cut

/-- A member shows the record that it is laid out as, at another place. -/
theorem shownBy_memberTree {p : Member} (named : m.recordOf? p = some c) (shown : c.ShownBy cut (inner c)) :
    c.ShownBy cut (m.memberTree inner p) := by
  cases p with
  | vptr => cases named
  | base b =>
    obtain ⟨found, complete⟩ := complete?_eq_some.1 named
    rw [memberTree, baseTree_complete found complete]
    cases b.offsetBits? with
    | none => exact shownBy_update shown ⟨rfl, rfl, rfl⟩ fun _ => rfl
    | some o => exact shownBy_update shown ⟨rfl, rfl, rfl⟩ id
  | field f =>
    have placed : m.memberTree inner (.field f) = f.place (inner c) := by
      rw [recordOf?] at named
      rw [memberTree, fieldTree, named]
    rw [placed]
    exact shownBy_update shown ⟨rfl, rfl, rfl⟩ fun invalid => by simp [invalid]

end Step

section Tree

variable {m : Model} {room : Nat} {outer : List RecordId} {r : RecordDecl}

theorem shownBy_tree : r.ShownBy (room = 0 ∨ r.id ∈ outer) (m.tree room outer r) := by
  have cut_shown {cut : Prop} (holds : cut) : r.ShownBy cut r.cut :=
    ⟨rfl, rfl, rfl, fun _ => ⟨rfl, rfl⟩, fun fails => absurd holds fails⟩
  cases room with
  | zero => exact cut_shown (.inl rfl)
  | succ room =>
    rw [tree]
    split
    · next marked => exact cut_shown (.inr marked)
    · next fresh =>
      refine ⟨rfl, rfl, rfl, fun cut => absurd cut (by simp [fresh]), fun _ => ?_⟩
      rw [LayoutTree.ofChildren, LayoutTree.children_node, parts_eq_map, List.length_map]

/-- The marks and the room at a node of a tree: what stands above it has been entered one by one. -/
structure Entered (m : Model) (room : Nat) (outer : List RecordId) (r : RecordDecl) (a : Address) (n : LayoutTree) :
    Prop where
  length : (m.recordsAbove r a).length = a.length
  shallow : a.length ≤ room
  distinct : ((m.recordsAbove r a).map (·.id)).Nodup
  fresh : ∀ c ∈ m.recordsAbove r a, c.id ∉ outer
  shown : ∀ c, m.recordAt? r a = some c →
    c.ShownBy (a.length = room ∨ c.id ∈ outer ∨ c.id ∈ (m.recordsAbove r a).map (·.id)) n

theorem entered_nil {n : LayoutTree} (shown : r.ShownBy (room = 0 ∨ r.id ∈ outer) n) : m.Entered room outer r [] n := by
  refine ⟨rfl, Nat.zero_le room, .nil, by simp [recordsAbove], ?_⟩
  intro c here
  obtain rfl := Option.some.inj here
  simpa [recordsAbove, eq_comm] using shown

/-- One more record around: it is marked when the records inside are entered, so it differs from all of them. -/
theorem Entered.inside {c : RecordDecl} {k : Nat} {p : Member} {a : Address} {n : LayoutTree} (fresh : r.id ∉ outer)
    (listed : r.members[k]? = some p) (named : m.recordOf? p = some c)
    (entered : m.Entered room (r.id :: outer) c a n) : m.Entered (room + 1) outer r (k :: a) n := by
  have above : m.recordsAbove r (k :: a) = r :: m.recordsAbove c a := by
    rw [recordsAbove, listed, Option.bind_some, named, Option.elim_some]
  have here : m.recordAt? r (k :: a) = m.recordAt? c a := by
    rw [recordAt?, listed, Option.bind_some, named, Option.bind_some]
  have apart : ∀ d ∈ m.recordsAbove c a, d.id ≠ r.id ∧ d.id ∉ outer := by
    simpa using entered.fresh
  constructor
  · rw [above, List.length_cons, List.length_cons, entered.length]
  · exact Nat.succ_le_succ entered.shallow
  · rw [above, List.map_cons, List.nodup_cons]
    refine ⟨?_, entered.distinct⟩
    intro repeated
    obtain ⟨d, mem, same⟩ := List.mem_map.1 repeated
    exact (apart d mem).1 same
  · rw [above]
    simpa [fresh] using fun d mem => (apart d mem).2
  · intro d at_address
    rw [here] at at_address
    have marks : (a.length = room ∨ d.id ∈ r.id :: outer ∨ d.id ∈ (m.recordsAbove c a).map (·.id)) ↔
        ((k :: a).length = room + 1 ∨ d.id ∈ outer ∨ d.id ∈ (m.recordsAbove r (k :: a)).map (·.id)) := by
      rw [above, List.length_cons, Nat.succ_inj, List.map_cons, List.mem_cons, List.mem_cons]
      tauto
    have shown := entered.shown d at_address
    rwa [marks] at shown

theorem entered_of_at? {a : Address} {n : LayoutTree} (found : (m.tree room outer r).at? a = some n) :
    m.Entered room outer r a n := by
  induction a generalizing room outer r with
  | nil =>
    obtain rfl := Option.some.inj found
    exact entered_nil shownBy_tree
  | cons k a ih =>
    obtain ⟨room, rfl, fresh, p, listed, found⟩ := at?_tree_cons found
    cases named : m.recordOf? p with
    | some c =>
      apply Entered.inside fresh listed named
      cases a with
      | nil =>
        obtain rfl := Option.some.inj found
        exact entered_nil (shownBy_memberTree named shownBy_tree)
      | cons l a =>
        rw [at?_memberTree_cons, named, Option.bind_some] at found
        exact ih found
    | none =>
      cases a with
      | nil =>
        have above : m.recordsAbove r [k] = [r] := by simp [recordsAbove, listed, named]
        have nothing : m.recordAt? r [k] = none := by simp [recordAt?, listed, named]
        refine ⟨by simp [above], by simp, by simp [above], by simpa [above] using fresh, ?_⟩
        intro c here
        rw [nothing] at here
        cases here
      | cons l a =>
        rw [at?_memberTree_cons, named] at found
        cases found

/-- What stands above an address are the record itself and records that ids name. -/
theorem declared_of_mem_recordsAbove {ids : List RecordId} (known : ∀ id c, m.record? id = some c → c.id ∈ ids)
    {a : Address} (root : r.id ∈ ids) : ∀ c ∈ m.recordsAbove r a, c.id ∈ ids := by
  induction a generalizing r with
  | nil => simp [recordsAbove]
  | cons k a ih =>
    rw [recordsAbove]
    cases named : r.members[k]?.bind m.recordOf? with
    | none => simpa using root
    | some c =>
      have declared : c.id ∈ ids := by
        obtain ⟨p, -, named⟩ := Option.bind_eq_some_iff.1 named
        cases p with
        | vptr => cases named
        | base b => exact known b.record c (complete?_eq_some.1 named).1
        | field f =>
          obtain ⟨id, -, named⟩ := Option.bind_eq_some_iff.1 named
          exact known id c (complete?_eq_some.1 named).1
      simpa [root] using ih declared

end Tree

end Model

theorem Program.id_mem_recordIds {p : Program} {r : RecordDecl} (declared : r ∈ p.heads) : r.id ∈ p.recordIds :=
  List.mem_dedup.2 (List.mem_map_of_mem declared)

/-- An analysis ends, as one round of it asks only for analyses with less room. In the layout of a record of a
program no node is deeper than 256 or the number of distinct ids that the program declares. The records whose nodes
stand above a node have distinct ids. A record that repeats one of these or stands at depth 256 is cut: its node is
invalid and childless, but shows its name, size and alignment. Any other record has a child for each member. -/
theorem depth_bounded {p : Program} {r : RecordDecl} (declared : r ∈ p.heads) :
    (∀ (inner : RecordDecl → Analysis LayoutTree) (c : RecordDecl) (s : InProgress),
      (∀ (d : RecordDecl) (s' : InProgress), s'.room < s.room → inner d s' = p.model.analyze d s') →
        p.model.analyze c s = p.model.round inner c s) ∧
    ∀ a n, (p.model.layout r).value.at? a = some n →
      a.length ≤ min 256 p.recordIds.length ∧
      (p.model.recordsAbove r a).length = a.length ∧ ((p.model.recordsAbove r a).map (·.id)).Nodup ∧
      ∀ c, p.model.recordAt? r a = some c →
        c.ShownBy (a.length = 256 ∨ c.id ∈ (p.model.recordsAbove r a).map (·.id)) n := by
  constructor
  · exact fun inner c s agrees => p.model.analyze_eq_round inner c s agrees
  · intro a n found
    rw [Model.value_layout] at found
    have entered := Model.entered_of_at? found
    have known : ∀ id c, p.model.record? id = some c → c.id ∈ p.recordIds := by
      intro id c named
      have named : p.heads.find? (·.id = id) = some c := (p.record?_eq_find?_heads id).symm.trans named
      exact Program.id_mem_recordIds (List.mem_of_find?_eq_some named)
    have above := Model.declared_of_mem_recordsAbove known (Program.id_mem_recordIds declared) (a := a)
    have few : a.length ≤ p.recordIds.length := by
      rw [← entered.length, ← List.length_map (f := (·.id))]
      apply entered.distinct.length_le_of_subset
      intro id listed
      obtain ⟨c, mem, rfl⟩ := List.mem_map.1 listed
      exact above c mem
    refine ⟨le_min entered.shallow few, entered.length, entered.distinct, ?_⟩
    intro c here
    simpa [maxRecordDepth] using entered.shown c here

/-- Two records that contain each other. -/
def chicken : RecordDecl := { id := 1, name := "Chicken", size := 8, bases := [{ record := 2 }] }

def egg : RecordDecl :=
  { id := 2, name := "Egg", size := 16, align := 8
    fields := [{ name := "inside", type := ⟨"Chicken", 8, 8, some 1⟩, offsetBits := 0 }] }

def farm : Program := .ofDecls .standard [.record chicken [.record egg []]]

theorem depth_bounded_farm :
    ∃ n, (farm.model.layout chicken).value.at? [0, 0] = some n ∧ n.entry.name = "inside" ∧
      [0, 0].length ≤ min 256 farm.recordIds.length ∧ n.entry.valid = false ∧ n.children = [] ∧
      n.entry.typeName = "Chicken" := by
  have found : (farm.model.layout chicken).value.at? [0, 0] =
      some (.leaf { kind := .record, typeName := "Chicken", name := "inside", size := 8, valid := false }) := by
    cbv
  have declared : chicken ∈ farm.heads := List.mem_cons_self
  obtain ⟨short, -, -, shown⟩ := (depth_bounded declared).2 [0, 0] _ found
  have again : farm.model.recordAt? chicken [0, 0] = some chicken := by cbv
  have repeated : chicken.id ∈ (farm.model.recordsAbove chicken [0, 0]).map (·.id) :=
    List.mem_map_of_mem List.mem_cons_self
  obtain ⟨invalid, empty⟩ := (shown chicken again).empty_of_cut (.inr repeated)
  exact ⟨_, found, rfl, short, invalid, empty, (shown chicken again).typeName⟩

end RecordLayout
