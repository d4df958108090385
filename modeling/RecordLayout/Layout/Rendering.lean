import RecordLayout.Json.Writer
import RecordLayout.Layout.Store

/-!
# Rendered layouts

The JSON text of a layout and of a store's listing. A node is written with its offset in bytes; its
name only if it has one, its width only for a bit-field, its children only for an aggregate. Escapes
have upper-case digits.
-/
namespace RecordLayout
open Json

namespace LayoutTree

/-- The members of a node's object up to its children. -/
def entryMembers (e : LayoutEntry) : List (String × Value) :=
  ("fieldType", .string e.kind.name)
    :: (if e.name = "" then [] else [("name", .string e.name)])
    ++ [("type", .string e.typeName), ("size", Value.ofWord e.size), ("align", Value.ofWord e.align),
      ("offset", Value.ofWord e.offsetBytes)]
    ++ (if e.kind = .bitField then [("bitWidth", Value.ofWord e.bitWidth)] else [])

mutual

def toJson : LayoutTree → Value
  | node e cs =>
    .object (entryMembers e
      ++ if e.kind.isAggregate then [("subFields", .array (forestJson cs))] else [])

def forestJson : List LayoutTree → List Value
  | [] => []
  | c :: cs => c.toJson :: forestJson cs

end

def render (t : LayoutTree) : String := t.toJson.render .upper

end LayoutTree

namespace RecordStore

/-- One object for each stored layout: the id as a decimal string, and the type of the root. -/
def listing (s : RecordStore) : Value :=
  .array (s.toList.map fun (id, t) =>
    .object [("id", .string (toString id)), ("name", .string t.entry.typeName)])

def renderListing (s : RecordStore) : String := s.listing.render .upper

end RecordStore
end RecordLayout
