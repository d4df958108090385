import RecordLayout.Declaration

/-!
# Building declarations

A record declaration grown call by call, for programs that are not read from a dump. A fresh one is
complete and valid, with size 0 and alignment 1.
-/
namespace RecordLayout

structure RecordBuilder where
  head : RecordDecl
  nested : List Decl := []

namespace RecordBuilder

def start (id : RecordId) (name : String) : RecordBuilder := ⟨⟨id, name, true, false, 0, 1, false, [], []⟩, []⟩

def size (b : RecordBuilder) (n : UInt64) : RecordBuilder := { b with head.size := n }

def align (b : RecordBuilder) (n : UInt64) : RecordBuilder := { b with head.align := n }

def ownVptr (b : RecordBuilder) : RecordBuilder := { b with head.hasOwnVptr := true }

def invalid (b : RecordBuilder) : RecordBuilder := { b with head.invalid := true }

def forwardOnly (b : RecordBuilder) : RecordBuilder := { b with head.complete := false }

def addBase (b : RecordBuilder) (s : BaseSpec) : RecordBuilder :=
  { b with head.bases := b.head.bases ++ [s] }

def addField (b : RecordBuilder) (f : FieldDecl) : RecordBuilder :=
  { b with head.fields := b.head.fields ++ [f] }

/-- A non-virtual base at `offset` bytes. -/
def base (b : RecordBuilder) (id : RecordId) (offset : UInt64) : RecordBuilder :=
  b.addBase ⟨id, false, offset⟩

def virtualBase (b : RecordBuilder) (id : RecordId) : RecordBuilder := b.addBase ⟨id, true, 0⟩

def field (b : RecordBuilder) (name : String) (type : TypeRef) (offsetBits : UInt64) : RecordBuilder :=
  b.addField ⟨name, type, offsetBits, none, false⟩

def bitField (b : RecordBuilder) (name : String) (type : TypeRef) (offsetBits width : UInt64) :
    RecordBuilder :=
  b.addField ⟨name, type, offsetBits, some width, false⟩

def invalidField (b : RecordBuilder) (name : String) (type : TypeRef) (offsetBits : UInt64) :
    RecordBuilder :=
  b.addField ⟨name, type, offsetBits, none, true⟩

def nest (b : RecordBuilder) (d : Decl) : RecordBuilder := { b with nested := b.nested ++ [d] }

def build (b : RecordBuilder) : Decl := .record b.head b.nested

end RecordBuilder
end RecordLayout
