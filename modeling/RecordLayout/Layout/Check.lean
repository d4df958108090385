import RecordLayout.Declaration
import RecordLayout.Layout.Tree

/-!
# The shape of layout trees

What every layout must satisfy at each of its nodes: a valid node has valid children, only aggregates
have children, and these are at most one vptr at offset 0, then bases by offset, then the rest.
`violations` lists every breach, those of a node before those of its descendants.
-/
namespace RecordLayout

/-- What is wrong at a node. Positions count children from 0, offsets are in bits. -/
inductive Breach where
  | staleValidity
  | subFields (kind : FieldKind)
  | misplacedVptr (position : Nat) (offset : UInt64)
  | outOfOrder (kind : FieldKind) (position : Nat)
  | unsortedBase (typeName : String) (offset previous : UInt64)
  deriving DecidableEq, Repr

def Breach.text : Breach → String
  | staleValidity => "node is valid but a child is not"
  | subFields kind => s!"{kind.name} node has sub-fields"
  | misplacedVptr position offset => s!"vptr at position {position} offset {offset}"
  | outOfOrder kind position => s!"{kind.name} child at position {position} is out of order"
  | unsortedBase typeName offset previous =>
    s!"base {typeName} at offset {offset} precedes offset {previous}"

structure Violation where
  path : String
  breach : Breach
  deriving DecidableEq, Repr

inductive LayoutError where
  | recordNotFound (id : RecordId)
  | validationFailed (v : Violation)

def LayoutError.message : LayoutError → String
  | recordNotFound id => s!"Record #{id} not found"
  | validationFailed v => s!"Validation failed at {v.path}: {v.breach.text}"

namespace LayoutTree

/-- The group that a child belongs to: vptr, bases, fields. -/
def rank : FieldKind → Nat
  | .vptr => 0
  | .nonVirtualBase => 1
  | .virtualBase => 1
  | _ => 2

/-- The breaches of order among children from position `i` on, where `reached` is the highest rank
before it and `previous` the offset of the last base before it. -/
def orderBreaches (i reached : Nat) (previous : UInt64) : List LayoutTree → List Breach
  | [] => []
  | c :: cs =>
    let e := c.entry
    (if e.kind = .vptr ∧ (i ≠ 0 ∨ e.offsetBits ≠ 0) then [.misplacedVptr i e.offsetBits] else [])
      ++ (if rank e.kind < reached then [.outOfOrder e.kind i] else [])
      ++ (if rank e.kind = 1 ∧ reached = 1 ∧ e.offsetBits < previous then
            [.unsortedBase e.typeName e.offsetBits previous] else [])
      ++ orderBreaches (i + 1) (max reached (rank e.kind))
          (if rank e.kind = 1 then e.offsetBits else previous) cs

def breaches (e : LayoutEntry) (cs : List LayoutTree) : List Breach :=
  (if e.valid && !(cs.all fun c => c.entry.valid) then [.staleValidity] else [])
    ++ (if !e.kind.isAggregate && !cs.isEmpty then [.subFields e.kind] else [])
    ++ orderBreaches 0 0 0 cs

/-- The path of a child: its name, or its type in angle brackets if it has none. -/
def childPath (path : String) (e : LayoutEntry) : String :=
  if e.name = "" then s!"{path}.<{e.typeName}>" else s!"{path}.{e.name}"

mutual

def violationsAt (path : String) : LayoutTree → List Violation
  | node e cs => (breaches e cs).map (⟨path, ·⟩) ++ childViolations path cs

def childViolations (path : String) : List LayoutTree → List Violation
  | [] => []
  | c :: cs => violationsAt (childPath path c.entry) c ++ childViolations path cs

end

/-- Every breach in the tree; the path of the root is its type. -/
def violations (t : LayoutTree) : List Violation := violationsAt t.entry.typeName t

/-- The first breach as an error, if there is one. -/
def validate (t : LayoutTree) : Except LayoutError Unit :=
  match t.violations with
  | [] => .ok ()
  | v :: _ => .error (.validationFailed v)

end LayoutTree
end RecordLayout
