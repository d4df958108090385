/-!
# Declarations

The declarations of a program as a compiler has laid them out: namespaces, records and everything
else, nested in each other. A record's own data (`RecordDecl`) is kept apart from the declarations
nested in it, because a layout depends on the former only. All sizes, alignments and offsets are
given, never recomputed.
-/
namespace RecordLayout

/-- Identity of a record within one program. -/
abbrev RecordId := Int64

/-- The resolved type of a field; `record` names the record it is, if it is one. -/
structure TypeRef where
  name : String
  size : UInt64 := 0
  align : UInt64 := 0
  record : Option RecordId := none
  deriving DecidableEq, Repr

/-- One entry of a base-specifier list. The offset is in bytes and means nothing for a virtual base. -/
structure BaseSpec where
  record : RecordId
  isVirtual : Bool := false
  offset : UInt64 := 0
  deriving DecidableEq, Repr

/-- A data member; `bitWidth` is present for a bit-field. -/
structure FieldDecl where
  name : String := ""
  type : TypeRef
  offsetBits : UInt64
  bitWidth : Option UInt64 := none
  invalid : Bool := false
  deriving DecidableEq, Repr

def FieldDecl.isBitField (f : FieldDecl) : Bool := f.bitWidth.isSome

/-- A struct, class or union, less the declarations nested in it. Size and alignment are in bytes. -/
structure RecordDecl where
  id : RecordId
  name : String
  complete : Bool := true
  invalid : Bool := false
  size : UInt64 := 0
  align : UInt64 := 0
  /-- The record introduces a vptr of its own rather than sharing its primary base's. -/
  hasOwnVptr : Bool := false
  bases : List BaseSpec := []
  fields : List FieldDecl := []
  deriving DecidableEq, Repr

/-- A declaration with the declarations nested in it. Of a declaration that is neither a namespace nor
a record only its kind is known. -/
inductive Decl where
  | scope (name : String) (nested : List Decl)
  | record (head : RecordDecl) (nested : List Decl)
  | other (kind : String) (nested : List Decl)
  deriving Repr

namespace Decl

def nested : Decl → List Decl
  | scope _ ds => ds
  | record _ ds => ds
  | other _ ds => ds

def head? : Decl → Option RecordDecl
  | record r _ => some r
  | _ => none

mutual

/-- The record declarations in a declaration, itself included, in the order of the text, each with the
declarations nested in it. -/
def records : Decl → List (RecordDecl × List Decl)
  | scope _ ds => forestRecords ds
  | record r ds => (r, ds) :: forestRecords ds
  | other _ ds => forestRecords ds

def forestRecords : List Decl → List (RecordDecl × List Decl)
  | [] => []
  | d :: ds => d.records ++ forestRecords ds

end

end Decl
end RecordLayout
