/-!
# Readers

A reader takes what it reads off the front of a text. It fails with the first fault from the left, and
a fault says only of which sort it is. `loop` repeats a step until the step is done; the text itself
bounds the number of rounds, since every round but the last takes something off it.
-/
namespace RecordLayout.Json

/-- Why a text cannot be read. -/
inductive Fault where
  /-- The text ends too early. -/
  | truncated
  /-- The text is not JSON. -/
  | malformed
  /-- The text is JSON so far, but not of the shape asked for. -/
  | misshapen
  deriving DecidableEq, Repr

abbrev Reader := StateT (List Char) (Except Fault)

namespace Reader

def fail {α : Type} (f : Fault) : Reader α := fun _ => .error f

/-- Runs `step` until it answers on the right, keeping the state that it answers on the left. -/
def loop {σ β : Type} (step : σ → Reader (σ ⊕ β)) (init : σ) : Reader β :=
  fun cs => go cs init cs
where
  /-- The first text only counts the rounds that are left. -/
  go : List Char → σ → Reader β
    | left, s, cs =>
      match step s cs with
      | .error f => .error f
      | .ok (.inr b, rest) => .ok (b, rest)
      | .ok (.inl s, rest) =>
        match left with
        | [] => .error .truncated
        | _ :: left => go left s rest

/-- Takes exactly this character. -/
def expect (c : Char) : Reader Unit
  | [] => .error .truncated
  | d :: rest => if d = c then .ok ((), rest) else .error .malformed

/-- Takes exactly these characters. -/
def word : List Char → Reader Unit
  | [], cs => .ok ((), cs)
  | c :: word, cs =>
    match cs with
    | [] => .error .truncated
    | d :: rest => if d = c then Reader.word word rest else .error .malformed

def isBlank (c : Char) : Bool := c = ' ' || c = '\t' || c = '\n' || c = '\r'

def dropBlanks (cs : List Char) : List Char := cs.dropWhile isBlank

/-- Reads a whole text: after what `r` reads there is nothing but blanks. -/
def whole {α : Type} (r : Reader α) (text : String) : Except Fault α :=
  match r text.toList with
  | .error f => .error f
  | .ok (a, rest) => if dropBlanks rest = [] then .ok a else .error .malformed

end Reader
end RecordLayout.Json
