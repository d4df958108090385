import RecordLayout.Event
import RecordLayout.Layout.Tree

/-!
# Laying out records

A record becomes a tree: its own vptr if it has one, then its non-virtual bases by offset, then its
fields in order; bases and fields that are complete records are laid out in turn. `Analysis` keeps the
set of records that are being expanded, marks a record on the way in and unmarks it on the way out. A
record inside itself, or inside `maxRecordDepth` others, is cut to an invalid node without children.
What cannot be laid out becomes an invalid node too, so the rest of the tree survives.
-/
namespace RecordLayout

/-- What a layout depends on: the target and the records that ids name. -/
structure Model where
  target : Target
  record? : RecordId → Option RecordDecl

/-- The ids of the records being expanded, innermost first. -/
structure InProgress where
  ids : List RecordId
  nodup : ids.Nodup

namespace InProgress

def empty : InProgress := ⟨[], .nil⟩

def size (s : InProgress) : Nat := s.ids.length

/-- Marks a record that is not marked yet. -/
def enter (s : InProgress) (id : RecordId) (fresh : id ∉ s.ids) : InProgress :=
  ⟨id :: s.ids, List.nodup_cons.2 ⟨fresh, s.nodup⟩⟩

/-- Unmarks a record. -/
def leave (s : InProgress) (id : RecordId) : InProgress := ⟨s.ids.erase id, s.nodup.erase id⟩

/-- Unmarking undoes marking. -/
theorem leave_enter (s : InProgress) (id : RecordId) (fresh : id ∉ s.ids) :
    (s.enter id fresh).leave id = s := by
  simp [enter, leave]

/-- How many more records can be entered. -/
def room (s : InProgress) : Nat := maxRecordDepth - s.size

end InProgress

abbrev Analysis := StateT InProgress Logged

namespace Analysis

def report (e : Event) : Analysis Unit := fun s => ⟨((), s), [e]⟩

end Analysis

open Analysis

/-- What the root of a record's tree says of the record. -/
def RecordDecl.entry (r : RecordDecl) : LayoutEntry :=
  { kind := .record, typeName := r.name, size := r.size, align := r.align, valid := !r.invalid }

/-- The node of a record that is not expanded. -/
def RecordDecl.cut (r : RecordDecl) : LayoutTree :=
  .leaf { kind := .record, typeName := r.name, size := r.size, align := r.align, valid := false }

/-- The vptr of a record, at its start and as large as a pointer. -/
def Target.vptrNode (t : Target) : LayoutTree :=
  .leaf { kind := .vptr, typeName := "vptr", size := t.pointerSize, align := t.pointerAlign }

/-- The node of a field that is not laid out as a record. -/
def FieldDecl.leafNode (f : FieldDecl) : LayoutTree :=
  .leaf
    { kind := if f.isBitField then .bitField else .simple
      typeName := f.type.name
      name := f.name
      offsetBits := f.offsetBits
      size := f.type.size
      align := f.type.align
      bitWidth := f.bitWidth.getD 0
      valid := !f.invalid }

/-- Turns a record's tree into the field that it is the type of. -/
def FieldDecl.place (f : FieldDecl) (t : LayoutTree) : LayoutTree :=
  t.update fun e =>
    { e with name := f.name, offsetBits := f.offsetBits, valid := e.valid && !f.invalid }

/-- The offset in bits, if a word holds it. -/
def BaseSpec.offsetBits? (b : BaseSpec) : Option UInt64 :=
  if b.offset.toNat * 8 < UInt64.size then some (b.offset * 8) else none

def maxWord : UInt64 := 0xFFFFFFFFFFFFFFFF

/-- Turns a record's tree into a base at `offsetBits`, or into one out of range. -/
def LayoutTree.asBase (t : LayoutTree) : Option UInt64 → LayoutTree
  | some offsetBits => t.update fun e => { e with kind := .nonVirtualBase, offsetBits }
  | none => t.update fun e => { e with kind := .nonVirtualBase, offsetBits := maxWord, valid := false }

/-- Ascending offsets; equal ones keep their order. -/
def sortByOffset (ts : List LayoutTree) : List LayoutTree :=
  ts.mergeSort fun a b => a.entry.offsetBits ≤ b.entry.offsetBits

namespace Model

/-- The complete record that an id names. -/
def complete? (m : Model) (id : RecordId) : Option RecordDecl := (m.record? id).filter (·.complete)

/-- The tree of the record that a base names. -/
def baseRecord (m : Model) (expand : RecordDecl → Analysis LayoutTree) (id : RecordId) :
    Analysis LayoutTree :=
  match m.record? id with
  | some r =>
    if r.complete then expand r
    else do
      report (.incompleteBase r.name r.id)
      return .leaf { kind := .record, typeName := r.name, valid := false }
  | none => do
    report (.unresolvedBase id)
    return .leaf { kind := .record, typeName := s!"<unresolved #{id}>", valid := false }

/-- The node of a base of `owner`; virtual bases have none. -/
def baseNode? (m : Model) (expand : RecordDecl → Analysis LayoutTree) (owner : String) (b : BaseSpec) :
    Analysis (Option LayoutTree) := do
  if b.isVirtual then
    report (.skippedVirtualBase b.record owner)
    return none
  else
    let t ← m.baseRecord expand b.record
    if b.offsetBits? = none then
      report (.offsetOutOfRange b.record owner b.offset)
    return some (t.asBase b.offsetBits?)

def fieldNode (m : Model) (expand : RecordDecl → Analysis LayoutTree) (f : FieldDecl) :
    Analysis LayoutTree :=
  match f.type.record.bind m.complete? with
  | some r => do return f.place (← expand r)
  | none => return f.leafNode

/-- The tree of a record that has been entered, where `expand` lays out the records inside it. -/
def assemble (m : Model) (expand : RecordDecl → Analysis LayoutTree) (r : RecordDecl) :
    Analysis LayoutTree := do
  report (.analyzing r.name r.id)
  let vptr := if r.hasOwnVptr then [m.target.vptrNode] else []
  let bases ← r.bases.mapM (m.baseNode? expand r.name)
  let fields ← r.fields.mapM (m.fieldNode expand)
  return .ofChildren r.entry (vptr ++ sortByOffset (bases.filterMap id) ++ fields)

/-- Lays out a record where `room` more can be entered. -/
def expand (m : Model) : Nat → RecordDecl → Analysis LayoutTree
  | 0, r => do
    report (.tooDeep r.name r.id)
    return r.cut
  | room + 1, r => do
    let s ← get
    if fresh : r.id ∉ s.ids then
      set (s.enter r.id fresh)
      let t ← m.assemble (m.expand room) r
      modify (·.leave r.id)
      return t
    else
      report (.selfContaining r.name r.id)
      return r.cut

/-- Lays out a record inside those in progress. -/
def analyze (m : Model) (r : RecordDecl) : Analysis LayoutTree := do
  m.expand (← get).room r

/-- The layout of a record by itself. -/
def layout (m : Model) (r : RecordDecl) : Logged LayoutTree := (·.1) <$> m.analyze r .empty

end Model
end RecordLayout
