import RecordLayout.Text

/-!
# Compilation targets

A target is named by a triple `arch-vendor-os-env`. The architecture fixes the size of a pointer, the
other parts the object model: `Target.ofTriple?` knows a fixed list of architectures and gives `none`
for any other.
-/
namespace RecordLayout

/-- The C++ object model that a target follows. -/
inductive Abi where
  | itanium | microsoft
  deriving DecidableEq, Repr

def Abi.name : Abi → String
  | .itanium => "itanium"
  | .microsoft => "microsoft"

structure Target where
  triple : String
  pointerWidthBits : UInt64
  pointerAlignBits : UInt64
  abi : Abi
  deriving DecidableEq, Repr

namespace Target

def defaultTriple : String := "x86_64-pc-linux-gnu"

def wordArchitectures : List String :=
  ["x86_64", "amd64", "aarch64", "aarch64_be", "arm64", "arm64e", "riscv64", "powerpc64",
    "powerpc64le", "ppc64", "ppc64le", "mips64", "mips64el", "s390x", "sparcv9", "sparc64",
    "loongarch64", "wasm64"]

def halfWordArchitectures : List String :=
  ["i386", "i486", "i586", "i686", "x86", "riscv32", "wasm32", "mips", "mipsel", "powerpc", "ppc",
    "sparc", "loongarch32", "hexagon"]

/-- Width and alignment of a pointer in bits. They differ only where everything is byte-aligned. -/
def pointerLayout? (arch : String) : Option (UInt64 × UInt64) :=
  if arch ∈ wordArchitectures then some (64, 64)
  else if arch ∈ halfWordArchitectures then some (32, 32)
  else if arch = "avr" then some (16, 8)
  else if arch = "msp430" then some (16, 16)
  else if Text.startsWith "arm" arch || Text.startsWith "thumb" arch then some (32, 32)
  else none

/-- Windows follows the Microsoft model unless its environment is a GNU-like one; an MSVC environment
always does. -/
def abiOf (parts : List String) : Abi :=
  let msvc := parts.any (Text.startsWith "msvc")
  let windows := parts.any fun p => p = "windows" || p = "win32"
  let gnuLike := parts.any fun p =>
    Text.startsWith "gnu" p || Text.startsWith "cygnus" p || Text.startsWith "itanium" p
  if msvc || (windows && !gnuLike) then .microsoft else .itanium

def parts (triple : String) : List String :=
  (Text.pieces '-' triple.toList).map String.ofList

/-- The target of a triple, or `none` for an unknown architecture. -/
def ofTriple? (triple : String) : Option Target :=
  match parts triple with
  | [] => none
  | arch :: rest =>
    (pointerLayout? arch).map fun (width, align) => ⟨triple, width, align, abiOf rest⟩

/-- The target of the default triple. -/
def standard : Target := ⟨defaultTriple, 64, 64, .itanium⟩

/-- Size of a pointer in bytes. -/
def pointerSize (t : Target) : UInt64 := t.pointerWidthBits / 8

theorem pointerSize_eq (t : Target) : t.pointerSize = t.pointerWidthBits / 8 := rfl

/-- Alignment of a pointer in bytes. -/
def pointerAlign (t : Target) : UInt64 := t.pointerAlignBits / 8

theorem pointerAlign_eq (t : Target) : t.pointerAlign = t.pointerAlignBits / 8 := rfl

def isItanium (t : Target) : Bool := t.abi = .itanium

end Target
end RecordLayout
