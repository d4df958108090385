import RecordLayout.Config
import RecordLayout.Json.Shape
import RecordLayout.Json.Writer

/-!
# Persisted settings

The JSON forms of configurations, targets and ABIs. All members are required. An ABI is its name, or an
object with the name as its one key and null as the value. What is written is compact, with lower-case
digits in escapes, and reads back as the same value.
-/
namespace RecordLayout
open Json Reader

namespace Abi

def tag : Abi → String
  | itanium => "Itanium"
  | microsoft => "Microsoft"

def ofTag? (s : String) : Option Abi :=
  if s = "Itanium" then some itanium
  else if s = "Microsoft" then some microsoft
  else none

def toJson (a : Abi) : Value := .string a.tag

/-- The name, past blanks. Nothing but a text is read as one. -/
def readTag : Reader Abi := do
  fun cs => expect '"' (dropBlanks cs)
  match ofTag? (← Quoted.text) with
  | some a => return a
  | none => fail .misshapen

def read (depth : Nat) : Reader Abi := fun cs =>
  match dropBlanks cs with
  | '{' :: rest =>
    deeper depth (fun _ => do
      let a ← readTag
      colon
      readNull
      fun cs => expect '}' (dropBlanks cs)
      return a) rest
  | cs => readTag cs

def parse (text : String) : Except Fault Abi := whole (read maxDepth) text

end Abi

namespace Target

def toJson (t : Target) : Value :=
  .object [("triple", .string t.triple), ("pointer_width_bits", .ofWord t.pointerWidthBits),
    ("pointer_align_bits", .ofWord t.pointerAlignBits), ("abi", t.abi.toJson)]

structure Parts where
  triple : Option String := none
  width : Option UInt64 := none
  align : Option UInt64 := none
  abi : Option Abi := none

def Parts.members : List (Member Parts) :=
  [{ key := "triple", given := (·.triple.isSome)
     read := fun _ p => do return { p with triple := some (← readText) } },
   { key := "pointer_width_bits", given := (·.width.isSome)
     read := fun _ p => do return { p with width := some (← readWord64) } },
   { key := "pointer_align_bits", given := (·.align.isSome)
     read := fun _ p => do return { p with align := some (← readWord64) } },
   { key := "abi", given := (·.abi.isSome)
     read := fun depth p => do return { p with abi := some (← Abi.read depth) } }]

def Parts.target? (p : Parts) : Option Target := do
  return ⟨← p.triple, ← p.width, ← p.align, ← p.abi⟩

def read (depth : Nat) : Reader Target := do
  match (← structured depth Parts.members {}).target? with
  | some t => return t
  | none => fail .misshapen

def parse (text : String) : Except Fault Target := whole (read maxDepth) text

end Target

namespace Config

def toJson (c : Config) : Value := .object [("args", .string c.args)]

def member : Member (Option String) :=
  { key := "args", given := (·.isSome), read := fun _ _ => some <$> readText }

def read (depth : Nat) : Reader Config := do
  match ← structured depth [member] none with
  | some args => return ⟨args⟩
  | none => fail .misshapen

def parse (text : String) : Except Fault Config := whole (read maxDepth) text

end Config
end RecordLayout
