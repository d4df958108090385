import RecordLayout.Dump
import RecordLayout.Layout.Rendering
import RecordLayout.Proofs.Analysis.Soundness
import RecordLayout.Proofs.Json.RoundTrip

/-!
# What a rendered layout shows

The text of a layout leaves out some of the tree: whether a node is valid, where in its byte it starts, a
width that is not a bit-field's and children that are not an aggregate's. What it does show (`view`) can be
read off it again, so two texts are equal just if they show the same (`render_determines`). The trees of
analyses have nothing to leave out but the first two (`Plain`).
-/
namespace RecordLayout
open Json
open Dump (text? required defaulted)

/-- What the text shows of a node by itself. -/
structure Shown where
  kind : FieldKind
  name : String
  typeName : String
  size : UInt64
  align : UInt64
  offsetBytes : UInt64
  bitWidth : Option UInt64
  deriving DecidableEq, Repr

/-- What the text shows of a tree; an aggregate shows its parts. -/
inductive LayoutView where
  | single (shown : Shown)
  | aggregate (shown : Shown) (parts : List LayoutView)
  deriving Repr

def LayoutEntry.shown (e : LayoutEntry) : Shown :=
  { e with offsetBytes := e.offsetBits / 8, bitWidth := if e.kind = .bitField then some e.bitWidth else none }

namespace LayoutTree

mutual

def view : LayoutTree → LayoutView
  | node e cs =>
    if e.kind = .record ∨ e.kind = .nonVirtualBase then .aggregate e.shown (forestView cs) else .single e.shown

def forestView : List LayoutTree → List LayoutView
  | [] => []
  | c :: cs => c.view :: forestView cs

end

end LayoutTree

/-! ## Reading -/

def kind? (v : Value) : Option FieldKind := (text? v).bind FieldKind.ofName?

/-- A node without a name has the empty one. -/
def Shown.ofMembers? (ms : List (String × Value)) : Option Shown := do
  return {
    kind := ← required kind? "fieldType" ms
    name := ← defaulted "" text? "name" ms
    typeName := ← required text? "type" ms
    size := ← required word64? "size" ms
    align := ← required word64? "align" ms
    offsetBytes := ← required word64? "offset" ms
    bitWidth := ← defaulted none (some <$> word64? ·) "bitWidth" ms }

namespace LayoutView

mutual

def ofJson? : Value → Option LayoutView
  | .object ms => do
    let shown ← Shown.ofMembers? ms
    match parts? ms with
    | none => return .single shown
    | some parts => return .aggregate shown (← parts)
  | _ => none

def partList? : Value → Option (List LayoutView)
  | .array vs => partItems? vs
  | _ => none

def partItems? : List Value → Option (List LayoutView)
  | [] => some []
  | v :: vs => do return (← ofJson? v) :: (← partItems? vs)

/-- The parts, if there are any, `none` inside if they are not a list of nodes. -/
def parts? : List (String × Value) → Option (Option (List LayoutView))
  | [] => none
  | (k, v) :: ms => (parts? ms).or (if k = "subFields" then some (partList? v) else none)

end

/-- Reads the text of a layout that opens no more than `limit` brackets within each other. -/
def ofText? (limit : Nat) (text : String) : Option LayoutView := (parse limit text).toOption.bind ofJson?

end LayoutView

theorem kind?_string (k : FieldKind) : kind? (.string k.name) = some k := by
  cases k <;> rfl

theorem writable_entryMembers (e : LayoutEntry) : ∀ m ∈ LayoutTree.entryMembers e, m.2.Writable := by
  by_cases name : e.name = "" <;> by_cases bits : e.kind = .bitField <;> simp [LayoutTree.entryMembers, name, bits]

/-- Reading a node off its members, whether or not its parts are among them. -/
theorem ofMembers?_entryMembers (e : LayoutEntry) {parts : List (String × Value)}
    (others : ∀ key, key ≠ "subFields" → member? key parts = none) :
    Shown.ofMembers? (LayoutTree.entryMembers e ++ parts) = some e.shown := by
  by_cases name : e.name = "" <;> by_cases bits : e.kind = .bitField <;>
    simp -implicitDefEqProofs [Shown.ofMembers?, required, defaulted, LayoutTree.entryMembers, member?, others, text?,
      kind?_string, LayoutEntry.shown, LayoutEntry.offsetBytes_eq, name, bits]

namespace LayoutView
open LayoutTree (entryMembers forestJson forestView)

theorem parts?_entryMembers (e : LayoutEntry) (parts : List (String × Value)) :
    parts? (entryMembers e ++ parts) = parts? parts := by
  by_cases name : e.name = "" <;> by_cases bits : e.kind = .bitField <;>
    simp -implicitDefEqProofs [entryMembers, parts?, name, bits]

mutual

theorem ofJson?_toJson (t : LayoutTree) : ofJson? t.toJson = some t.view := by
  cases t with
  | node e cs =>
    simp only [LayoutTree.toJson, LayoutTree.view, FieldKind.isAggregate_iff]
    rw [ofJson?]
    split
    · have others : ∀ key, key ≠ "subFields" → member? key [("subFields", .array (forestJson cs))] = none := by
        intro key other
        rw [member?, if_neg other.symm]
        rfl
      have parts : parts? [("subFields", .array (forestJson cs))] = some (some (forestView cs)) := by
        rw [parts?, if_pos rfl, partList?, partItems?_forestJson cs]
        rfl
      rw [ofMembers?_entryMembers e others, parts?_entryMembers, parts]
      rfl
    · rw [ofMembers?_entryMembers e (fun key _ => rfl), parts?_entryMembers]
      rfl

theorem partItems?_forestJson (cs : List LayoutTree) :
    partItems? (forestJson cs) = some (forestView cs) := by
  cases cs with
  | nil => rfl
  | cons c cs =>
    have here := ofJson?_toJson c
    have more := partItems?_forestJson cs
    rw [forestJson, forestView, partItems?, here, more]
    rfl

end

end LayoutView

namespace LayoutTree

mutual

theorem writable_toJson (t : LayoutTree) : t.toJson.Writable := by
  cases t with
  | node e cs =>
    refine .object (List.forall_mem_append.2 ⟨writable_entryMembers e, ?_⟩)
    split
    · exact List.forall_mem_singleton.2 (.array (writable_forestJson cs))
    · exact List.forall_mem_nil _

theorem writable_forestJson (cs : List LayoutTree) : ∀ v ∈ forestJson cs, v.Writable := by
  cases cs with
  | nil => exact List.forall_mem_nil _
  | cons c cs => exact List.forall_mem_cons.2 ⟨writable_toJson c, writable_forestJson cs⟩

end

theorem parse_render {t : LayoutTree} {limit : Nat} (enough : t.render.length ≤ limit) :
    parse limit t.render = .ok t.toJson :=
  Json.parse_render .upper (writable_toJson t) (Nat.le_trans (Nat.le_of_lt (depth_lt_length_render .upper _)) enough)

/-- Reading the text of a layout gives what it shows. -/
theorem ofText?_render (t : LayoutTree) {limit : Nat} (enough : t.render.length ≤ limit) :
    LayoutView.ofText? limit t.render = some t.view := by
  rw [LayoutView.ofText?, parse_render enough]
  exact LayoutView.ofJson?_toJson t

/-! ## Nothing else is shown -/

theorem entryMembers_eq {e f : LayoutEntry} (same : e.shown = f.shown) : entryMembers e = entryMembers f := by
  simp only [LayoutEntry.shown, Shown.mk.injEq] at same
  obtain ⟨kind, name, typeName, size, align, offset, width⟩ := same
  unfold entryMembers
  rw [kind] at width ⊢
  rw [name, typeName, size, align, LayoutEntry.offsetBytes_eq, LayoutEntry.offsetBytes_eq, offset]
  split at width
  · next bits => rw [Option.some.inj width]
  · next plain => rw [if_neg plain, if_neg plain]

mutual

theorem toJson_eq (t u : LayoutTree) (same : t.view = u.view) : t.toJson = u.toJson := by
  cases t with
  | node e cs =>
    cases u with
    | node f ds =>
      rw [view, view] at same
      simp only [toJson, FieldKind.isAggregate_iff]
      split at same
      · next parts =>
        split at same
        · next parts' =>
          obtain ⟨shown, inner⟩ := LayoutView.aggregate.inj same
          rw [entryMembers_eq shown, forestJson_eq cs ds inner, if_pos parts, if_pos parts']
        · cases same
      · next leaf =>
        split at same
        · cases same
        · next leaf' => rw [entryMembers_eq (LayoutView.single.inj same), if_neg leaf, if_neg leaf']

theorem forestJson_eq (cs ds : List LayoutTree) (same : forestView cs = forestView ds) :
    forestJson cs = forestJson ds := by
  cases cs with
  | nil =>
    cases ds with
    | nil => rfl
    | cons d ds => cases same
  | cons c cs =>
    cases ds with
    | nil => cases same
    | cons d ds =>
      obtain ⟨here, more⟩ := List.cons.inj same
      rw [forestJson, forestJson, toJson_eq c d here, forestJson_eq cs ds more]

end

theorem render_eq_iff (t u : LayoutTree) : t.render = u.render ↔ t.view = u.view := by
  constructor
  · intro same
    have read := ofText?_render t (Nat.le_refl _)
    rw [same, ofText?_render u (Nat.le_refl _)] at read
    exact (Option.some.inj read).symm
  · intro same
    rw [render, render, toJson_eq t u same]

/-! ## The trees of analyses -/

mutual

/-- The tree with every node valid and at the start of its byte. -/
def coarse : LayoutTree → LayoutTree
  | node e cs => node { e with offsetBits := 8 * (e.offsetBits / 8), valid := true } (forestCoarse cs)

def forestCoarse : List LayoutTree → List LayoutTree
  | [] => []
  | c :: cs => c.coarse :: forestCoarse cs

end

/-- Only bit-fields have a width and only aggregates have children. -/
inductive Plain : LayoutTree → Prop
  | node {e : LayoutEntry} {cs : List LayoutTree} (width : e.kind ≠ .bitField → e.bitWidth = 0)
      (hidden : ¬(e.kind = .record ∨ e.kind = .nonVirtualBase) → cs = []) (inner : ∀ c ∈ cs, c.Plain) :
      Plain (node e cs)

end LayoutTree

/-- The tree that a view shows, its nodes valid and at the start of their bytes. -/
def Shown.entry (s : Shown) : LayoutEntry :=
  { s with offsetBits := 8 * s.offsetBytes, bitWidth := s.bitWidth.getD 0 }

namespace LayoutView

mutual

def tree : LayoutView → LayoutTree
  | single s => .leaf s.entry
  | aggregate s parts => .node s.entry (forestTree parts)

def forestTree : List LayoutView → List LayoutTree
  | [] => []
  | p :: parts => p.tree :: forestTree parts

end

theorem entry_shown {e : LayoutEntry} (width : e.kind ≠ .bitField → e.bitWidth = 0) :
    e.shown.entry = { e with offsetBits := 8 * (e.offsetBits / 8), valid := true } := by
  by_cases bits : e.kind = .bitField
  · simp [Shown.entry, LayoutEntry.shown, bits]
  · simp [Shown.entry, LayoutEntry.shown, bits, width bits]

theorem forestTree_forestView {cs : List LayoutTree} (each : ∀ c ∈ cs, c.view.tree = c.coarse) :
    forestTree (LayoutTree.forestView cs) = LayoutTree.forestCoarse cs := by
  induction cs with
  | nil => rfl
  | cons c cs ih =>
    rw [LayoutTree.forestView, forestTree, LayoutTree.forestCoarse, each c List.mem_cons_self,
      ih fun d mem => each d (List.mem_cons_of_mem c mem)]

theorem tree_view {t : LayoutTree} (plain : t.Plain) : t.view.tree = t.coarse := by
  induction plain with
  | @node e cs width hidden inner ih =>
    rw [LayoutTree.view, LayoutTree.coarse]
    split
    · rw [tree, entry_shown width, forestTree_forestView ih]
    · next leaf =>
      obtain rfl := hidden leaf
      rw [tree, entry_shown width]
      rfl

end LayoutView

namespace LayoutTree

theorem plain_leaf {e : LayoutEntry} (width : e.kind ≠ .bitField → e.bitWidth = 0) : (leaf e).Plain :=
  .node width (fun _ => rfl) (List.forall_mem_nil _)

theorem Plain.asBase {t : LayoutTree} (plain : t.Plain) (record : t.entry.kind = .record) (offset : Option UInt64) :
    (t.asBase offset).Plain := by
  cases plain with
  | @node e cs width hidden inner =>
    have kind : e.kind = .record := record
    have none : e.bitWidth = 0 := width (by rw [kind]; decide)
    cases offset <;> exact .node (fun _ => none) (fun leaf => absurd (.inr rfl) leaf) inner

theorem Plain.place {t : LayoutTree} (plain : t.Plain) (f : FieldDecl) : (f.place t).Plain := by
  cases plain with
  | node width hidden inner => exact .node width hidden inner

end LayoutTree

namespace Model

section Parts

variable {m : Model} {inner : RecordDecl → LayoutTree}

theorem plain_baseTree (plain : ∀ c, (inner c).Plain) (kinds : ∀ c, (inner c).entry.kind = .record) (b : BaseSpec) :
    (m.baseTree inner b).Plain := by
  have named : (m.namedTree inner b.record).Plain ∧ (m.namedTree inner b.record).entry.kind = .record := by
    unfold namedTree
    cases m.record? b.record with
    | none => exact ⟨LayoutTree.plain_leaf fun _ => rfl, rfl⟩
    | some c =>
      dsimp only
      split
      · exact ⟨plain c, kinds c⟩
      · exact ⟨LayoutTree.plain_leaf fun _ => rfl, rfl⟩
  exact named.1.asBase named.2 b.offsetBits?

theorem plain_fieldTree (plain : ∀ c, (inner c).Plain) (f : FieldDecl) : (m.fieldTree inner f).Plain := by
  obtain ⟨c, placed⟩ | leaf := m.fieldTree_cases inner f
  · rw [placed]
    exact (plain c).place f
  · rw [leaf]
    refine LayoutTree.plain_leaf ?_
    cases width : f.bitWidth <;> simp [FieldDecl.isBitField, width]

theorem plain_parts (plain : ∀ c, (inner c).Plain) (kinds : ∀ c, (inner c).entry.kind = .record) (r : RecordDecl) :
    ∀ t ∈ m.parts inner r, t.Plain := by
  intro t mem
  simp only [parts, List.mem_append, mem_sortByOffset, List.mem_map] at mem
  obtain (vptr | ⟨b, -, rfl⟩) | ⟨f, -, rfl⟩ := mem
  · rw [eq_vptrNode_of_mem vptr]
    exact LayoutTree.plain_leaf fun _ => rfl
  · exact plain_baseTree plain kinds b
  · exact plain_fieldTree plain f

end Parts

theorem plain_tree (m : Model) (room : Nat) (outer : List RecordId) (r : RecordDecl) :
    (m.tree room outer r).Plain := by
  induction room generalizing outer r with
  | zero => exact LayoutTree.plain_leaf fun _ => rfl
  | succ room ih =>
    rw [tree]
    split
    · exact LayoutTree.plain_leaf fun _ => rfl
    · have kinds := m.kind_tree room (r.id :: outer)
      exact .node (fun _ => rfl) (fun leaf => absurd (.inl rfl) leaf) (plain_parts (ih (r.id :: outer)) kinds r)

theorem plain_analyze (m : Model) (r : RecordDecl) (s : InProgress) : (m.analyze r s).value.1.Plain := by
  rw [value_analyze]
  exact plain_tree m s.room s.ids r

end Model

/-- Read with room for as many brackets as it has characters, the text of a layout gives what it shows, and it
determines no more than that. Of the tree of an analysis that is all but whether its nodes are valid and where
in a byte they start. -/
theorem render_determines :
    (∀ (t : LayoutTree) (limit : Nat), t.render.length ≤ limit → LayoutView.ofText? limit t.render = some t.view) ∧
    (∀ t u : LayoutTree, t.render = u.render ↔ t.view = u.view) ∧
    (∀ (m m' : Model) (r r' : RecordDecl) (s s' : InProgress),
      (m.analyze r s).value.1.render = (m'.analyze r' s').value.1.render →
        (m.analyze r s).value.1.coarse = (m'.analyze r' s').value.1.coarse) := by
  refine ⟨fun t limit => LayoutTree.ofText?_render t, LayoutTree.render_eq_iff, ?_⟩
  intro m m' r r' s s' same
  have view := (LayoutTree.render_eq_iff _ _).1 same
  rw [← LayoutView.tree_view (m.plain_analyze r s), ← LayoutView.tree_view (m'.plain_analyze r' s'), view]

-- Two bit-fields of one byte that differ in nothing but their first bit.
example :
    (LayoutTree.leaf { kind := .bitField, typeName := "int", offsetBits := 3, bitWidth := 2 }).render =
      (LayoutTree.leaf { kind := .bitField, typeName := "int", offsetBits := 5, bitWidth := 2 }).render := by
  rfl

end RecordLayout
