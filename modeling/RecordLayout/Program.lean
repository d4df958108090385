import Std.Data.TreeMap
import RecordLayout.Declaration
import RecordLayout.Target

/-!
# Programs

A program: its target, its top-level declarations and an index from record ids to places in the
forest. A place is the list of child positions that leads to a declaration; the index keeps the place
of the first record of each id, complete or not, in the order in which the text reads.
-/
namespace RecordLayout

/-- The child positions on the way from the top level to a declaration. -/
abbrev Place := List Nat

abbrev RecordIndex := Std.TreeMap RecordId Place

/-- The declaration at a place of a forest. -/
def declAt? (ds : List Decl) : Place → Option Decl
  | [] => none
  | i :: rest =>
    match rest with
    | [] => ds[i]?
    | _ :: _ => ds[i]?.bind fun d => declAt? d.nested rest

mutual

/-- Enters a declaration that stands at `place`, and all that is nested in it. -/
def RecordIndex.addDecl (place : Place) (index : RecordIndex) : Decl → RecordIndex
  | .scope _ ds => RecordIndex.addDecls place 0 index ds
  | .record r ds => RecordIndex.addDecls place 0 (index.insertIfNew r.id place) ds
  | .other _ ds => RecordIndex.addDecls place 0 index ds

/-- Enters the declarations that stand below `place` from position `i` on. -/
def RecordIndex.addDecls (place : Place) (i : Nat) (index : RecordIndex) : List Decl → RecordIndex
  | [] => index
  | d :: ds => RecordIndex.addDecls place (i + 1) (RecordIndex.addDecl (place ++ [i]) index d) ds

end

def RecordIndex.ofDecls (ds : List Decl) : RecordIndex := RecordIndex.addDecls [] 0 ∅ ds

structure Program where
  target : Target
  decls : List Decl
  index : RecordIndex := RecordIndex.ofDecls decls
  index_eq : index = RecordIndex.ofDecls decls := by rfl

namespace Program

def ofDecls (target : Target) (decls : List Decl) : Program := { target, decls }

/-- The record declaration of an id with the declarations nested in it. -/
def lookup? (p : Program) (id : RecordId) : Option (RecordDecl × List Decl) :=
  match p.index[id]? with
  | none => none
  | some place =>
    match declAt? p.decls place with
    | some (.record r ds) => some (r, ds)
    | _ => none

def record? (p : Program) (id : RecordId) : Option RecordDecl := (p.lookup? id).map (·.1)

/-- The number of distinct record ids. -/
def recordCount (p : Program) : Nat := p.index.size

end Program
end RecordLayout
