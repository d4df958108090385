/-!
# Layout trees

The layout of a record: one node for each of its parts, each with its place and size. A node that was
put together from others is valid only if they are (`addChild`, `ofChildren`).
-/
namespace RecordLayout

/-- What a node stands for inside the record around it. Virtual bases are never laid out; the kind is
reserved for them. -/
inductive FieldKind where
  | simple | record | bitField | nonVirtualBase | virtualBase | vptr
  deriving DecidableEq, Repr

namespace FieldKind

def name : FieldKind → String
  | simple => "Simple"
  | record => "Record"
  | bitField => "BitField"
  | nonVirtualBase => "NVBase"
  | virtualBase => "VBase"
  | vptr => "VPtr"

def all : List FieldKind := [simple, record, bitField, nonVirtualBase, virtualBase, vptr]

def ofName? (s : String) : Option FieldKind := all.find? fun k => k.name = s

/-- Nodes of this kind have parts. -/
def isAggregate (k : FieldKind) : Bool := k = record || k = nonVirtualBase

theorem isAggregate_iff {k : FieldKind} : k.isAggregate = true ↔ k = record ∨ k = nonVirtualBase := by
  cases k <;> simp [isAggregate]

def isBase (k : FieldKind) : Bool := k = nonVirtualBase || k = virtualBase

end FieldKind

/-- What a node says of itself. The offset and the width of a bit-field are in bits, size and alignment
in bytes. -/
structure LayoutEntry where
  kind : FieldKind
  typeName : String
  name : String := ""
  offsetBits : UInt64 := 0
  size : UInt64 := 0
  align : UInt64 := 0
  bitWidth : UInt64 := 0
  valid : Bool := true
  deriving DecidableEq, Repr

/-- The offset in whole bytes; a position inside a byte is dropped. -/
def LayoutEntry.offsetBytes (e : LayoutEntry) : UInt64 := e.offsetBits >>> 3

theorem LayoutEntry.offsetBytes_eq (e : LayoutEntry) : e.offsetBytes = e.offsetBits / 8 := by
  apply UInt64.toNat_inj.1
  rw [offsetBytes, UInt64.toNat_shiftRight, UInt64.toNat_div]
  exact Nat.shiftRight_eq_div_pow _ 3

inductive LayoutTree where
  | node (entry : LayoutEntry) (children : List LayoutTree)
  deriving Repr

namespace LayoutTree

def entry : LayoutTree → LayoutEntry
  | node e _ => e

def children : LayoutTree → List LayoutTree
  | node _ cs => cs

@[simp] theorem entry_node (e : LayoutEntry) (cs : List LayoutTree) : (node e cs).entry = e := rfl

@[simp] theorem children_node (e : LayoutEntry) (cs : List LayoutTree) : (node e cs).children = cs := rfl

def leaf (e : LayoutEntry) : LayoutTree := node e []

/-- Changes what the root says of itself. -/
def update (f : LayoutEntry → LayoutEntry) : LayoutTree → LayoutTree
  | node e cs => node (f e) cs

@[simp] theorem entry_update (f : LayoutEntry → LayoutEntry) (t : LayoutTree) : (t.update f).entry = f t.entry := by
  cases t
  rfl

/-- Appends a child; an invalid one makes the tree invalid. -/
def addChild (t c : LayoutTree) : LayoutTree :=
  node { t.entry with valid := t.entry.valid && c.entry.valid } (t.children ++ [c])

/-- A node with these children, valid if its entry and all of them are. -/
def ofChildren (e : LayoutEntry) (cs : List LayoutTree) : LayoutTree :=
  node { e with valid := e.valid && cs.all fun c => c.entry.valid } cs

/-- Adding children one by one amounts to giving them at once. -/
theorem foldl_addChild (e : LayoutEntry) (cs ds : List LayoutTree) :
    ds.foldl addChild (ofChildren e cs) = ofChildren e (cs ++ ds) := by
  induction ds generalizing cs with
  | nil => simp
  | cons d ds ih =>
    have step : addChild (ofChildren e cs) d = ofChildren e (cs ++ [d]) := by
      simp [addChild, ofChildren, Bool.and_assoc]
    simp [step, ih]

def child? (t : LayoutTree) (name : String) : Option LayoutTree :=
  t.children.find? fun c => c.entry.name = name

mutual

/-- The number of nodes. -/
def nodeCount : LayoutTree → Nat
  | node _ cs => 1 + forestCount cs

def forestCount : List LayoutTree → Nat
  | [] => 0
  | c :: cs => c.nodeCount + forestCount cs

end

mutual

/-- All nodes with their depths, each before its children; the root is at `depth`. -/
def outline (depth : Nat) : LayoutTree → List (Nat × LayoutEntry)
  | node e cs => (depth, e) :: forestOutline (depth + 1) cs

def forestOutline (depth : Nat) : List LayoutTree → List (Nat × LayoutEntry)
  | [] => []
  | c :: cs => c.outline depth ++ forestOutline depth cs

end

end LayoutTree
end RecordLayout
