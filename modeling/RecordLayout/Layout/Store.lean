import Std.Data.TreeMap
import RecordLayout.Declaration
import RecordLayout.Layout.Tree

/-!
# The store of layouts

Layouts by record id, listed in ascending order of the ids. The first layout of an id stays.
-/
namespace RecordLayout

structure RecordStore where
  layouts : Std.TreeMap RecordId LayoutTree := ∅

namespace RecordStore

def empty : RecordStore := {}

def get? (s : RecordStore) (id : RecordId) : Option LayoutTree := s.layouts[id]?

def contains (s : RecordStore) (id : RecordId) : Bool := s.layouts.contains id

/-- Stores a layout unless its id has one, and says whether it did. -/
def insert (s : RecordStore) (id : RecordId) (t : LayoutTree) : Bool × RecordStore :=
  if s.contains id then (false, s) else (true, ⟨s.layouts.insert id t⟩)

/-- Drops all layouts. -/
def clear (_ : RecordStore) : RecordStore := .empty

def toList (s : RecordStore) : List (RecordId × LayoutTree) := s.layouts.toList

def ids (s : RecordStore) : List RecordId := s.toList.map (·.1)

def size (s : RecordStore) : Nat := s.layouts.size

def isEmpty (s : RecordStore) : Bool := s.layouts.isEmpty

end RecordStore
end RecordLayout
