import RecordLayout.Declaration
import RecordLayout.Json.Shape

/-!
# Declaration dumps

The text form of a program: an optional target and a list of declarations. The outermost structure is
checked while it is read. A declaration is read whole first, and then its members are taken by the
declaration's kind; one of an unknown kind keeps nothing but its nested declarations. The structures
inside a declaration may be objects or arrays of their members in order.
-/
namespace RecordLayout.Dump
open Json Reader

def text? : Value → Option String
  | .string s => some s
  | _ => none

def flag? : Value → Option Bool
  | .bool b => some b
  | _ => none

def id? : Value → Option RecordId
  | .integer n => if Int64.minValue.toInt ≤ n ∧ n ≤ Int64.maxValue.toInt then some (Int64.ofInt n) else none
  | _ => none

def nullable? {α : Type} (read : Value → Option α) : Value → Option (Option α)
  | .null => some none
  | v => some <$> read v

def list? {α : Type} (read : Value → Option α) : Value → Option (List α)
  | .array vs => vs.mapM read
  | _ => none

/-- The members of a structure with these keys, in either of its forms. -/
def members? (keys : List String) : Value → Option (List (String × Value))
  | .object ms => some ms
  | .array vs => if vs.length ≤ keys.length then some (keys.zip vs) else none
  | _ => none

def required {α : Type} (read : Value → Option α) (key : String) (ms : List (String × Value)) : Option α :=
  (member? key ms).bind read

/-- The member's value, or `missing` where there is no such member. -/
def defaulted {α : Type} (missing : α) (read : Value → Option α) (key : String)
    (ms : List (String × Value)) : Option α :=
  match member? key ms with
  | none => some missing
  | some v => read v

def typeKeys : List String := ["name", "size", "align", "record"]

def type? (v : Value) : Option TypeRef := do
  let ms ← members? typeKeys v
  return {
    name := ← required text? "name" ms
    size := ← defaulted 0 word64? "size" ms
    align := ← defaulted 0 word64? "align" ms
    record := ← defaulted none (nullable? id?) "record" ms }

def baseKeys : List String := ["record", "virtual", "offset"]

def base? (v : Value) : Option BaseSpec := do
  let ms ← members? baseKeys v
  return {
    record := ← required id? "record" ms
    isVirtual := ← defaulted false flag? "virtual" ms
    offset := ← defaulted 0 word64? "offset" ms }

def fieldKeys : List String := ["name", "type", "offsetBits", "bitWidth", "invalid"]

def field? (v : Value) : Option FieldDecl := do
  let ms ← members? fieldKeys v
  return {
    name := ← defaulted "" text? "name" ms
    type := ← required type? "type" ms
    offsetBits := ← required word64? "offsetBits" ms
    bitWidth := ← defaulted none (nullable? word64?) "bitWidth" ms
    invalid := ← defaulted false flag? "invalid" ms }

def record? (ms : List (String × Value)) : Option RecordDecl := do
  return {
    id := ← required id? "id" ms
    name := ← required text? "name" ms
    complete := ← defaulted true flag? "complete" ms
    invalid := ← defaulted false flag? "invalid" ms
    size := ← defaulted 0 word64? "size" ms
    align := ← defaulted 0 word64? "align" ms
    hasOwnVptr := ← defaulted false flag? "hasOwnVptr" ms
    bases := ← defaulted [] (list? base?) "bases" ms
    fields := ← defaulted [] (list? field?) "fields" ms }

/-- A declaration of a kind from its members and what has become of those nested in it. -/
def declOf? (kind : String) (ms : List (String × Value)) (nested : Option (List Decl)) : Option Decl := do
  if kind = "namespace" then return .scope (← required text? "name" ms) (← nested)
  else if kind = "record" then return .record (← record? ms) (← nested)
  else return .other kind (← nested)

mutual

def decl? : Value → Option Decl
  | .object ms => do declOf? (← required text? "kind" ms) ms ((nested? ms).getD (some []))
  | _ => none

/-- A list of declarations. -/
def decls? : Value → Option (List Decl)
  | .array vs => declItems? vs
  | _ => none

def declItems? : List Value → Option (List Decl)
  | [] => some []
  | v :: vs => do return (← decl? v) :: (← declItems? vs)

/-- The declarations of the last member `decls`, `none` inside if that is not a list of them. -/
def nested? : List (String × Value) → Option (Option (List Decl))
  | [] => none
  | (k, v) :: ms => (nested? ms).or (if k = "decls" then some (decls? v) else none)

end

/-- The members of a declaration, its kind apart, past the opening brace. The kind is checked while it
is read and must not be repeated. -/
def declMembers (depth : Nat) : Reader (Option String × List (String × Value)) :=
  loop (fun (first, kind, ms) => do
    match ← nextKey? first with
    | none => return .inr (kind, ms.reverse)
    | some k =>
      if k = "kind" then
        if kind.isSome then fail .misshapen
        else
          colon
          return .inl (false, some (← readText), ms)
      else
        colon
        return .inl (false, kind, (k, ← value depth) :: ms)) (true, none, [])

/-- A declaration that is not nested in another. -/
def readDecl (depth : Nat) : Reader Decl := fun cs =>
  match dropBlanks cs with
  | '{' :: rest =>
    (do
      let (kind, ms) ← deeper depth declMembers
      match kind.bind fun kind => declOf? kind ms ((nested? ms).getD (some [])) with
      | some d => return d
      | none => fail .misshapen) rest
  | cs => misshapen cs

/-- A text that is one declaration. -/
def parseDecl (text : String) : Except Fault Decl := whole (readDecl maxDepth) text

/-- A dump; the outer option of a part says whether it has been read. -/
structure Parts where
  target : Option (Option String) := none
  decls : Option (List Decl) := none

def Parts.members : List (Member Parts) :=
  [{ key := "target"
     given := (·.target.isSome)
     read := fun _ p => do return { p with target := some (← readNullable readText) } },
   { key := "decls"
     given := (·.decls.isSome)
     read := fun depth p => do return { p with decls := some (← readList depth readDecl) } }]

structure Contents where
  target : Option String
  decls : List Decl

def parse (text : String) : Except Fault Contents :=
  (fun p : Parts => ⟨p.target.join, p.decls.getD []⟩) <$> whole (structured maxDepth Parts.members {}) text

end RecordLayout.Dump
