import Mathlib
import RecordLayout.Proofs.Analysis.Members
import RecordLayout.Survey

/-!
# What a layout depends on

A layout looks up the ids that a record names, those that the complete records among them name, and so on
(`Model.Reaches`). Of each declaration it finds it takes the head and the members (`RecordDecl.Alike`), which
virtual bases and nested declarations are no part of. So two programs that agree there lay the record out alike,
whatever else they declare (`layout_local`).
-/
namespace RecordLayout

namespace RecordDecl

/-- A direct base or the type of a field names the id. -/
def Names (r : RecordDecl) (id : RecordId) : Prop :=
  (∃ b ∈ r.directBases, b.record = id) ∨ ∃ f ∈ r.fields, f.type.record = some id

/-- The two declarations differ in virtual bases at most. -/
def AgreesWith (r r' : RecordDecl) : Prop := { r with bases := r.directBases } = { r' with bases := r'.directBases }

/-- A layout cannot tell the two declarations apart. -/
structure Alike (r r' : RecordDecl) : Prop where
  id : r.id = r'.id
  complete : r.complete = r'.complete
  entry : r.entry = r'.entry
  members : r.members = r'.members

theorem AgreesWith.alike {r r' : RecordDecl} (same : r.AgreesWith r') : r.Alike r' := by
  obtain ⟨id, name, complete, invalid, size, align, vptr, bases, fields⟩ := mk.inj same
  refine ⟨id, complete, ?_, ?_⟩
  · rw [entry, entry, name, invalid, size, align]
  · rw [members, members, arrangedBases, arrangedBases, vptr, bases, fields]

theorem Alike.cut {r r' : RecordDecl} (same : r.Alike r') : r.cut = r'.cut := by
  have cut_eq : ∀ c : RecordDecl, c.cut = .leaf { c.entry with valid := false } := fun _ => rfl
  rw [cut_eq, cut_eq, same.entry]

end RecordDecl

namespace Model

/-- Laying out `r` may look up the id: a chain of complete records leads to one that names it. -/
inductive Reaches (m : Model) : RecordDecl → RecordId → Prop
  | named {r : RecordDecl} {id : RecordId} (names : r.Names id) : Reaches m r id
  | inside {r c : RecordDecl} {id id' : RecordId} (names : r.Names id) (found : m.record? id = some c)
      (complete : c.complete = true) (rest : Reaches m c id') : Reaches m r id'

section TwoModels

variable {m m' : Model} {inner inner' : RecordDecl → LayoutTree}

/-- What is known of the trees of the complete records that `id` names in either model. -/
def AlikeAt (m m' : Model) (inner inner' : RecordDecl → LayoutTree) (id : RecordId) : Prop :=
  Option.Rel RecordDecl.Alike (m.record? id) (m'.record? id) ∧
    ∀ c c', m.record? id = some c → m'.record? id = some c' → c.complete = true → inner c = inner' c'

theorem AlikeAt.namedTree {id : RecordId} (alike : m.AlikeAt m' inner inner' id) :
    m.namedTree inner id = m'.namedTree inner' id := by
  obtain ⟨agree, equal⟩ := alike
  unfold Model.namedTree
  generalize m.record? id = found, m'.record? id = found' at agree equal ⊢
  cases agree with
  | none => rfl
  | @some c c' same =>
    have name : c.name = c'.name := congrArg LayoutEntry.typeName same.entry
    cases complete : c.complete with
    | true => simp [← same.complete, complete, equal c c' rfl rfl complete]
    | false => simp [← same.complete, complete, name]

theorem AlikeAt.fieldTree {f : FieldDecl}
    (alike : ∀ id, f.type.record = some id → m.AlikeAt m' inner inner' id) :
    m.fieldTree inner f = m'.fieldTree inner' f := by
  unfold Model.fieldTree
  cases type : f.type.record with
  | none => rfl
  | some id =>
    obtain ⟨agree, equal⟩ := alike id type
    rw [Option.bind_some, Option.bind_some, complete?, complete?]
    generalize m.record? id = found, m'.record? id = found' at agree equal ⊢
    cases agree with
    | none => rfl
    | @some c c' same =>
      cases complete : c.complete with
      | true => simp [Option.filter_some, ← same.complete, complete, equal c c' rfl rfl complete]
      | false => simp [Option.filter_some, ← same.complete, complete]

end TwoModels

/-- Alike records have one tree in models that agree on what the record reaches. -/
theorem tree_eq_of_alike {m m' : Model} (vptr : m.target.vptrNode = m'.target.vptrNode) {r r' : RecordDecl}
    (agree : ∀ id, m.Reaches r id → Option.Rel RecordDecl.Alike (m.record? id) (m'.record? id))
    (same : r.Alike r') (room : Nat) (outer : List RecordId) : m.tree room outer r = m'.tree room outer r' := by
  induction room generalizing outer r r' with
  | zero => exact same.cut
  | succ room ih =>
    rw [tree, tree, ← same.id, same.cut, same.entry]
    split
    · rfl
    · -- The marks are the same in both, so what is named looks the same from here on.
      have alike : ∀ id, r.Names id →
          m.AlikeAt m' (m.tree room (r.id :: outer)) (m'.tree room (r.id :: outer)) id := by
        intro id names
        refine ⟨agree id (.named names), ?_⟩
        intro c c' found found' complete
        have alike : c.Alike c' := by simpa [found, found'] using agree id (.named names)
        exact ih (fun id' reached => agree id' (.inside names found complete reached)) alike _
      have children : m.parts (m.tree room (r.id :: outer)) r = m'.parts (m'.tree room (r.id :: outer)) r' := by
        rw [parts_eq_map, parts_eq_map, ← same.members]
        apply List.map_congr_left
        intro p listed
        cases p with
        | vptr => exact vptr
        | base b =>
          have names : r.Names b.record := .inl ⟨b, RecordDecl.base_mem_members.1 listed, rfl⟩
          rw [memberTree, memberTree, baseTree, baseTree, (alike _ names).namedTree]
        | field f =>
          have mem : f ∈ r.fields := RecordDecl.field_mem_members.1 listed
          exact AlikeAt.fieldTree fun id type => alike id (.inr ⟨f, mem, type⟩)
      rw [children]

end Model

/-- Two programs with pointers of one size and alignment give a record the same layout if they agree on every id
that it reaches: neither resolves it, or both do, to declarations that differ in virtual bases and nested
declarations at most. The record itself may differ in these too. -/
theorem layout_local {p p' : Program} {r r' : RecordDecl} (size : p.target.pointerSize = p'.target.pointerSize)
    (align : p.target.pointerAlign = p'.target.pointerAlign)
    (agree : ∀ id, p.model.Reaches r id →
      Option.Rel (fun x x' => x.1.AgreesWith x'.1) (p.lookup? id) (p'.lookup? id))
    (same : r.AgreesWith r') (s : InProgress) :
    (p.model.analyze r s).value = (p'.model.analyze r' s).value := by
  have vptr : p.model.target.vptrNode = p'.model.target.vptrNode := by
    unfold Target.vptrNode
    exact congrArg₂ (fun size align => LayoutTree.leaf { kind := .vptr, typeName := "vptr", size, align }) size align
  have alike : ∀ id, p.model.Reaches r id →
      Option.Rel RecordDecl.Alike (p.model.record? id) (p'.model.record? id) := by
    intro id reached
    have agree := agree id reached
    change Option.Rel RecordDecl.Alike ((p.lookup? id).map (·.1)) ((p'.lookup? id).map (·.1))
    generalize p.lookup? id = found, p'.lookup? id = found' at agree ⊢
    cases agree with
    | none => exact .none
    | some same => exact .some same.alike
  calc (p.model.analyze r s).value
      = (p.model.tree s.room s.ids r, s) := p.model.value_analyze r s
    _ = (p'.model.tree s.room s.ids r', s) := by rw [Model.tree_eq_of_alike vptr alike same.alike]
    _ = (p'.model.analyze r' s).value := (p'.model.value_analyze r' s).symm

/-- A record with a virtual base and a direct one, which has a field of a record that is not declared. -/
def bus : RecordDecl :=
  { id := 2, name := "Bus", size := 24, hasOwnVptr := true
    bases := [{ record := 3, isVirtual := true }, { record := 1, offset := 8 }] }

def vehicle : RecordDecl :=
  { id := 1, name := "Vehicle", size := 8
    fields := [{ name := "owner", type := ⟨"Owner", 8, 8, some 4⟩, offsetBits := 0 }] }

/-- `bus` without its virtual base. -/
def tram : RecordDecl := { bus with bases := [{ record := 1, offset := 8 }] }

def depot : Program := .ofDecls .standard [.record vehicle [], .record { id := 3, name := "Wheel" } [], .record bus []]

/-- The direct base again, among other declarations and with one nested in it. -/
def garage : Program :=
  .ofDecls ⟨"aarch64-apple-darwin", 64, 64, .itanium⟩
    [.record { id := 5, name := "Lamp" } [.scope "ns" [.record tram [], .record vehicle [.other "Enum" []]]]]

theorem names_bus {id : RecordId} (names : bus.Names id) : id = 1 := by
  simpa [RecordDecl.Names, bus, RecordDecl.directBases, eq_comm] using names

theorem names_vehicle {id : RecordId} (names : vehicle.Names id) : id = 4 := by
  simpa [RecordDecl.Names, vehicle, RecordDecl.directBases, eq_comm] using names

/-- The field's record is looked up in vain. -/
theorem reaches_bus {id : RecordId} (reached : depot.model.Reaches bus id) : id = 1 ∨ id = 4 := by
  cases reached with
  | named names => exact .inl (names_bus names)
  | inside names found _ rest =>
    obtain rfl := names_bus names
    have base : depot.model.record? 1 = some vehicle := by cbv
    obtain rfl := Option.some.inj (base.symm.trans found)
    cases rest with
    | named names => exact .inr (names_vehicle names)
    | inside names found =>
      obtain rfl := names_vehicle names
      have none : depot.model.record? 4 = none := by cbv
      rw [none] at found
      cases found

theorem layout_local_garage :
    (depot.model.analyze bus .empty).value = (garage.model.analyze tram .empty).value ∧
      (garage.model.layout tram).value.nodeCount = 4 := by
  have agree : ∀ id, depot.model.Reaches bus id →
      Option.Rel (fun x x' => x.1.AgreesWith x'.1) (depot.lookup? id) (garage.lookup? id) := by
    intro id reached
    obtain rfl | rfl := reaches_bus reached
    · have base : depot.lookup? 1 = some (vehicle, []) := by cbv
      have base' : garage.lookup? 1 = some (vehicle, [.other "Enum" []]) := by cbv
      rw [base, base']
      exact .some rfl
    · have unknown : depot.lookup? 4 = none := by cbv
      have unknown' : garage.lookup? 4 = none := by cbv
      rw [unknown, unknown']
      exact .none
  have same : bus.AgreesWith tram := rfl
  have size : depot.target.pointerSize = garage.target.pointerSize := by decide
  have align : depot.target.pointerAlign = garage.target.pointerAlign := by decide
  constructor
  · exact layout_local size align agree same .empty
  · cbv

end RecordLayout
