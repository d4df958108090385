import RecordLayout.Declaration
import RecordLayout.Frontend.Error
import RecordLayout.Target

/-!
# Events

What a run reports while it works, each event with a level and a text, and `Logged`, a value together
with the events on the way to it.
-/
namespace RecordLayout

/-- The deepest chain of nested records that is laid out. -/
def maxRecordDepth : Nat := 256

inductive Level where
  | trace | debug | info | warn | error
  deriving DecidableEq, Repr

namespace Level

def name : Level → String
  | trace => "TRACE"
  | debug => "DEBUG"
  | info => "INFO"
  | warn => "WARN"
  | error => "ERROR"

/-- A level is the graver the higher it ranks. -/
def severity : Level → Nat
  | trace => 0
  | debug => 1
  | info => 2
  | warn => 3
  | error => 4

end Level

inductive Event where
  | ignoredArgument (argument : String)
  | analyzing (name : String) (id : RecordId)
  | tooDeep (name : String) (id : RecordId)
  | selfContaining (name : String) (id : RecordId)
  | skippedVirtualBase (base : RecordId) (name : String)
  | incompleteBase (name : String) (id : RecordId)
  | unresolvedBase (id : RecordId)
  | offsetOutOfRange (base : RecordId) (name : String) (offset : UInt64)
  | skippedForward (name : String) (id : RecordId)
  | noDeclarations (e : FrontendError)
  | unsupportedAbi (triple : String) (abi : Abi)
  | analyzed (count : Nat) (triple : String)
  deriving DecidableEq, Repr

namespace Event

def level : Event → Level
  | skippedForward .. => .trace
  | ignoredArgument .. => .debug
  | analyzing .. => .debug
  | skippedVirtualBase .. => .debug
  | analyzed .. => .info
  | _ => .warn

def text : Event → String
  | ignoredArgument argument => s!"Ignoring front-end argument {argument}"
  | analyzing name id => s!"Analyzing record {name} (#{id})"
  | tooDeep name id => s!"Record {name} (#{id}) nests deeper than {maxRecordDepth} records"
  | selfContaining name id => s!"Record {name} (#{id}) contains itself, stopping recursion"
  | skippedVirtualBase base name => s!"Skipping virtual base #{base} of {name}"
  | incompleteBase name id => s!"Base {name} (#{id}) is not a complete definition"
  | unresolvedBase id => s!"Base #{id} does not resolve to a record"
  | offsetOutOfRange base name offset => s!"Base #{base} of {name} has out-of-range offset {offset}"
  | skippedForward name id => s!"Skipping forward declaration {name} (#{id})"
  | noDeclarations e => s!"Analysis produced no declarations: {e.message}"
  | unsupportedAbi triple abi => s!"Target {triple} uses the {abi.name} C++ ABI, only itanium is supported"
  | analyzed count triple => s!"Analyzed {count} records for {triple}"

end Event

/-- A value and the events on the way to it, in order. -/
structure Logged (α : Type) where
  value : α
  events : List Event := []

namespace Logged

instance : Monad Logged where
  pure a := ⟨a, []⟩
  bind x f :=
    let y := f x.value
    ⟨y.value, x.events ++ y.events⟩

instance : LawfulMonad Logged :=
  LawfulMonad.mk' Logged (fun _ => by simp [Functor.map]) (fun _ _ => by simp [bind, pure])
    (fun _ _ _ => by simp [bind])

/-- Reports one event. -/
def note (e : Event) : Logged Unit := ⟨(), [e]⟩

end Logged
end RecordLayout
