/-!
# Control sequences

A text for a terminal has controls beside what it shows: single characters, and sequences that an escape
opens and a later character ends. `strip` takes them out, so that the text can go to a file. Blanks that
move to another column or line are shown like letters. Such a blank may stand inside a sequence that is
no string: it is shown with the text behind it, up to the next control, and there the sequence goes on.

Main statements: `visible_of_mem_strip`, what is left has no controls, and `strip_of_visible`, a text
without controls is left as it is.
-/
namespace RecordLayout.Text.ControlSequence

/-- A control that moves to another column or line. -/
def isMovement (c : Char) : Bool := c = '\t' || c = '\n' || c = '\x0c' || c = '\r'

/-- What is shown outside of sequences. -/
def isVisible (c : Char) : Bool := (' ' ≤ c && c ≠ '\x7f') || isMovement c

/-- The sequence that is open. -/
inductive State where
  | none
  | escape
  /-- An escape with intermediate characters. -/
  | intermediate
  /-- A control sequence, opened by a bracket. -/
  | control
  /-- A device control string ahead of its first parameter. -/
  | device
  | deviceParameter
  | deviceIntermediate
  /-- A device control string past its head, or any other string that a string terminator ends. -/
  | string
  /-- A command to the operating system, which a bell ends. -/
  | command
  deriving DecidableEq, Repr

/-- Whether `low` to `high` hold `c`. -/
def within (low high c : Char) : Bool := low ≤ c && c ≤ high

/-- What an escape opens together with the character behind it. -/
def opened (c : Char) : State :=
  if c = '[' then .control
  else if c = ']' then .command
  else if c = 'P' then .device
  else if c = 'X' || c = '^' || c = '_' then .string
  else .none

/-- The string terminator is an octet of its own, and found inside a longer character as well. -/
def holdsTerminator (c : Char) : Bool := (String.utf8EncodeChar c).contains 0x9c

/-- The head of a device control string. Parameters come ahead of intermediate characters. -/
def deviceNext (s : State) (c : Char) : State :=
  if within '@' '~' c then .string
  else if within ' ' '/' c then .deviceIntermediate
  else if within '0' '?' c then
    if s = .device || (s = .deviceParameter && c ≤ ';') then .deviceParameter else .string
  else s

/-- The sequence that is open behind a character that is not shown. -/
def next (s : State) (c : Char) : State :=
  if c = '\x1b' then .escape
  else if c = '\x18' || c = '\x1a' then .none
  else
    match s with
    | .none => .none
    | .escape =>
      if within ' ' '/' c then .intermediate else if within '0' '~' c then opened c else .escape
    | .intermediate => if within '0' '~' c then .none else .intermediate
    | .control => if within '@' '~' c then .none else .control
    | .device | .deviceParameter | .deviceIntermediate => deviceNext s c
    | .string => if holdsTerminator c then .none else .string
    | .command => if c = '\x07' then .none else .command

/-- Whether a visible character that opens a run of shown text may do so inside the sequence. -/
def State.lets : State → Char → Bool
  | .none, _ => true
  | .escape, c | .intermediate, c | .control, c => isMovement c
  | _, _ => false

/-- `shown` says whether the last character was. A sequence that is open then ends at a character that
is not ASCII. -/
def stripFrom (s : State) (shown : Bool) : List Char → List Char
  | [] => []
  | c :: cs =>
    if isVisible c && (shown || s.lets c) then
      c :: stripFrom (if c ≤ '\x7f' then s else .none) true cs
    else stripFrom (next s c) false cs

def strip (cs : List Char) : List Char := stripFrom .none false cs

theorem visible_of_mem_stripFrom {s : State} {shown : Bool} {cs : List Char} {c : Char}
    (h : c ∈ stripFrom s shown cs) : isVisible c = true := by
  induction cs generalizing s shown with
  | nil => simp [stripFrom] at h
  | cons d cs ih =>
    rw [stripFrom] at h
    split at h
    next hd =>
      rcases List.mem_cons.mp h with rfl | h
      · simp only [Bool.and_eq_true] at hd
        exact hd.1
      · exact ih h
    · exact ih h

theorem visible_of_mem_strip {cs : List Char} {c : Char} (h : c ∈ strip cs) : isVisible c = true :=
  visible_of_mem_stripFrom h

theorem stripFrom_none_of_visible {cs : List Char} (shown : Bool) (h : ∀ c ∈ cs, isVisible c = true) :
    stripFrom .none shown cs = cs := by
  induction cs generalizing shown with
  | nil => rfl
  | cons c cs ih =>
    have hc := h c List.mem_cons_self
    rw [stripFrom]
    simp [hc, State.lets, ih true fun d hd => h d (List.mem_cons_of_mem _ hd)]

theorem strip_of_visible {cs : List Char} (h : ∀ c ∈ cs, isVisible c = true) : strip cs = cs :=
  stripFrom_none_of_visible false h

end RecordLayout.Text.ControlSequence
