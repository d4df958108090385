import RecordLayout.Declaration
import RecordLayout.Json.Writer

/-!
# Writing dumps

The dump text of a list of declarations, with every key written out. The target may be left out, be
null or be a triple.
-/
namespace RecordLayout.Dump
open Json

def idJson (id : RecordId) : Value := .integer id.toInt

def nullableJson {α : Type} (write : α → Value) : Option α → Value
  | none => .null
  | some a => write a

def typeJson (t : TypeRef) : Value :=
  .object [("name", .string t.name), ("size", .ofWord t.size), ("align", .ofWord t.align),
    ("record", nullableJson idJson t.record)]

def baseJson (b : BaseSpec) : Value :=
  .object [("record", idJson b.record), ("virtual", .bool b.isVirtual), ("offset", .ofWord b.offset)]

def fieldJson (f : FieldDecl) : Value :=
  .object [("name", .string f.name), ("type", typeJson f.type), ("offsetBits", .ofWord f.offsetBits),
    ("bitWidth", nullableJson .ofWord f.bitWidth), ("invalid", .bool f.invalid)]

def recordMembers (r : RecordDecl) : List (String × Value) :=
  [("id", idJson r.id), ("name", .string r.name), ("complete", .bool r.complete),
    ("invalid", .bool r.invalid), ("size", .ofWord r.size), ("align", .ofWord r.align),
    ("hasOwnVptr", .bool r.hasOwnVptr), ("bases", .array (r.bases.map baseJson)),
    ("fields", .array (r.fields.map fieldJson))]

mutual

def declJson : Decl → Value
  | .scope name ds =>
    .object [("kind", .string "namespace"), ("name", .string name), ("decls", .array (declsJson ds))]
  | .record r ds =>
    .object (("kind", .string "record") :: recordMembers r ++ [("decls", .array (declsJson ds))])
  | .other kind ds => .object [("kind", .string kind), ("decls", .array (declsJson ds))]

def declsJson : List Decl → List Value
  | [] => []
  | d :: ds => declJson d :: declsJson ds

end

/-- A dump; `target` is `none` to leave the key out. -/
def toJson (target : Option (Option String)) (ds : List Decl) : Value :=
  .object ((target.map fun t => ("target", nullableJson .string t)).toList
    ++ [("decls", .array (declsJson ds))])

def render (hex : HexCase) (target : Option (Option String)) (ds : List Decl) : String :=
  (toJson target ds).render hex

end RecordLayout.Dump
