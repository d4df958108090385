import Mathlib
import RecordLayout.Persistence
import RecordLayout.Proofs.Json.Structures

/-!
# Persisted settings, read back

Reading undoes writing for configurations, targets and ABIs, and of all texts that are accepted it makes the one that is
written (`settings_persist`). Which texts are accepted is said without the readers: `Config.Spelled`, `Target.Spelled`
and `Abi.Spelled`.
-/
namespace RecordLayout
open Json Reader

/-- A text in which this stands and nothing behind it but blanks. -/
def Alone (stands : List Char → List Char → Prop) (text : String) : Prop :=
  ∃ rest, stands text.toList rest ∧ dropBlanks rest = []

theorem whole_eq_ok_iff_alone {α : Type} {r : Reader α} {stands : α → List Char → List Char → Prop}
    (reads : ∀ a cs rest, r cs = .ok (a, rest) ↔ stands a cs rest) {text : String} {a : α} :
    whole r text = .ok a ↔ Alone (stands a) text := by
  simp only [whole_eq_ok, reads]
  rfl

/-! ## ABIs -/

namespace Abi

/-- An ABI stands as its name, or as an object with the name as its one key and null as the value. -/
inductive At (a : Abi) (cs rest : List Char) : Prop
  | name (text : TextAt a.tag cs rest)
  | object {key behind value past : List Char} (brace : Token '\x7b' cs key) (text : TextAt a.tag key behind)
      (colon : Token ':' behind value) (null : NullAt value past) (closed : Token '\x7d' past rest)

def Spelled (a : Abi) : String → Prop := Alone a.At

variable {a : Abi} {cs rest : List Char} {depth : Nat}

theorem ofTag?_eq_some_iff {s : String} : ofTag? s = some a ↔ s = a.tag := by
  unfold ofTag?
  cases a <;> split_ifs <;> simp_all [tag]

theorem readTag_eq_ok_iff : readTag cs = .ok (a, rest) ↔ TextAt a.tag cs rest := by
  unfold readTag
  rw [bind_eq_ok]
  constructor
  · rintro ⟨_, more, quote, read⟩
    obtain ⟨s, _, text, read⟩ := bind_eq_ok.1 read
    cases known : ofTag? s with
    | none =>
      rw [known] at read
      cases read
    | some b =>
      rw [known] at read
      cases read
      rw [ofTag?_eq_some_iff] at known
      subst known
      exact ⟨more, expect_eq_ok_iff.1 quote, Quoted.text_eq_ok_iff.1 text⟩
  · rintro ⟨more, quote, spells⟩
    refine ⟨(), more, expect_eq_ok_iff.2 quote, (bind_ok (Quoted.text_eq_ok_iff.2 spells)).trans ?_⟩
    rw [ofTag?_eq_some_iff.2 rfl]
    rfl

theorem read_eq_ok_iff : read (depth + 1) cs = .ok (a, rest) ↔ a.At cs rest := by
  constructor
  · intro read
    unfold Abi.read at read
    split at read
    · next key brace =>
      obtain ⟨b, behind, name, read⟩ := bind_eq_ok.1 read
      obtain ⟨_, value, colon, read⟩ := bind_eq_ok.1 read
      obtain ⟨_, past, null, read⟩ := bind_eq_ok.1 read
      obtain ⟨_, _, closed, read⟩ := bind_eq_ok.1 read
      cases read
      exact .object brace (readTag_eq_ok_iff.1 name) (colon_eq_ok_iff.1 colon) (readNull_eq_ok_iff.1 null)
        (expect_eq_ok_iff.1 closed)
    · rw [readTag_eq_ok_iff, (visible_textAt a.tag).blanks] at read
      exact .name read
  · intro stands
    unfold Abi.read
    cases stands with
    | name text =>
      obtain ⟨more, quote, spells⟩ := text
      have again : Token '"' ('"' :: more) more := quote ▸ token_dropBlanks.2 quote
      rw [quote]
      exact readTag_eq_ok_iff.2 ⟨more, again, spells⟩
    | object brace text colon null closed =>
      rw [brace]
      refine (bind_ok (readTag_eq_ok_iff.2 text)).trans ?_
      refine (bind_ok (colon_eq_ok_iff.2 colon)).trans ?_
      refine (bind_ok (readNull_eq_ok_iff.2 null)).trans ?_
      exact bind_ok (expect_eq_ok_iff.2 closed)

theorem visible_at (a : Abi) : Visible a.At where
  blanks cs rest := by
    constructor
    · intro stands
      cases stands with
      | name text => exact .name (((visible_textAt _).blanks cs rest).1 text)
      | object brace text colon null closed => exact .object (token_dropBlanks.1 brace) text colon null closed
    · intro stands
      cases stands with
      | name text => exact .name (((visible_textAt _).blanks cs rest).2 text)
      | object brace text colon null closed => exact .object (token_dropBlanks.2 brace) text colon null closed
  starts cs rest stands := by
    cases stands with
    | name text => exact (visible_textAt _).starts cs rest text
    | object brace => exact ⟨_, _, brace, by decide⟩
  shorter cs rest stands := by
    cases stands with
    | name text => exact text.length_lt
    | object brace text colon null closed =>
      exact closed.length_lt.trans (null.length_lt.trans (colon.length_lt.trans (text.length_lt.trans brace.length_lt)))

theorem parse_eq_ok_iff {text : String} : parse text = .ok a ↔ a.Spelled text :=
  whole_eq_ok_iff_alone fun _ _ _ => read_eq_ok_iff

theorem read_toJson (hex : HexCase) (a : Abi) (depth : Nat) : Reads (read depth) hex a.toJson a := by
  intro rest ends
  exact readTag_eq_ok_iff.2 (readText_iff_textAt.1 (readText_write hex a.tag rest ends))

theorem parse_written (hex : HexCase) (a : Abi) : parse (a.toJson.render hex) = .ok a :=
  whole_render (a.read_toJson hex maxDepth)

end Abi

/-! ## Targets -/

namespace Target

/-- A member of a target with its value. -/
inductive Setting where
  | triple (s : String)
  | width (n : UInt64)
  | align (n : UInt64)
  | abi (a : Abi)

namespace Setting

def key : Setting → String
  | triple _ => "triple"
  | width _ => "pointer_width_bits"
  | align _ => "pointer_align_bits"
  | abi _ => "abi"

def At : Setting → List Char → List Char → Prop
  | triple s => TextAt s
  | width n => WordAt n
  | align n => WordAt n
  | abi a => a.At

def put (p : Parts) : Setting → Parts
  | triple s => { p with triple := some s }
  | width n => { p with width := some n }
  | align n => { p with align := some n }
  | abi a => { p with abi := some a }

def Given (p : Parts) : Setting → Prop
  | triple s => p.triple = some s
  | width n => p.width = some n
  | align n => p.align = some n
  | abi a => p.abi = some a

end Setting

def spelling : Spelling Setting := ⟨Setting.key, Setting.At⟩

def settings (t : Target) : List Setting :=
  [.triple t.triple, .width t.pointerWidthBits, .align t.pointerAlignBits, .abi t.abi]

/-- As an object the target has its four members in any order, as an array in the order of `settings`. -/
def Spelled (t : Target) : String → Prop := Alone (spelling.Structure t.settings)

theorem visible_at (d : Setting) : Visible d.At := by
  cases d with
  | triple s => exact visible_textAt s
  | width n => exact visible_wordAt n
  | align n => exact visible_wordAt n
  | abi a => exact a.visible_at

namespace Setting

/-- The settings with this key are those that `make` makes. -/
def Only {α : Type} (k : String) (make : α → Setting) : Prop := ∀ d : Setting, d.key = k ↔ ∃ a, make a = d

theorem only_keys : Only "triple" triple ∧ Only "pointer_width_bits" width ∧ Only "pointer_align_bits" align ∧
    Only "abi" abi := by
  refine ⟨fun d => ?_, fun d => ?_, fun d => ?_, fun d => ?_⟩
  all_goals cases d <;> simp -implicitDefEqProofs [key]

variable {α : Type} {k : String} {make : α → Setting}

theorem Only.reads (only : Only k make) {r : Reader α}
    (stands : ∀ a cs rest, r cs = .ok (a, rest) ↔ (make a).At cs rest) (p q : Parts) (cs rest : List Char) :
    (do return put p (make (← r)) : Reader Parts) cs = .ok (q, rest) ↔
      ∃ d, spelling.key d = k ∧ spelling.At d cs rest ∧ q = put p d := by
  rw [bind_eq_ok]
  constructor
  · rintro ⟨a, mid, read, made⟩
    cases made
    exact ⟨make a, (only _).2 ⟨a, rfl⟩, (stands a cs rest).1 read, rfl⟩
  · rintro ⟨d, key, here, rfl⟩
    obtain ⟨a, rfl⟩ := (only d).1 key
    exact ⟨a, rest, (stands a cs rest).2 here, rfl⟩

theorem Only.given (only : Only k make) {get : Parts → Option α} (holds : ∀ p a, Given p (make a) ↔ get p = some a)
    (p : Parts) : (get p).isSome = true ↔ ∃ d, Given p d ∧ spelling.key d = k := by
  rw [Option.isSome_iff_exists]
  constructor
  · rintro ⟨a, some⟩
    exact ⟨make a, (holds p a).2 some, (only _).2 ⟨a, rfl⟩⟩
  · rintro ⟨d, given, key⟩
    obtain ⟨a, rfl⟩ := (only d).1 key
    exact ⟨a, (holds p a).1 given⟩

end Setting

theorem readBy (depth : Nat) : spelling.ReadBy (depth + 1) Parts.members {} Setting.put Setting.Given where
  visible := visible_at
  keys k := by
    constructor
    · intro mem
      simp only [Parts.members, List.map_cons, List.map_nil, List.mem_cons, List.not_mem_nil, or_false] at mem
      rcases mem with rfl | rfl | rfl | rfl
      · exact ⟨.triple "", rfl⟩
      · exact ⟨.width 0, rfl⟩
      · exact ⟨.align 0, rfl⟩
      · exact ⟨.abi .itanium, rfl⟩
    · rintro ⟨d, rfl⟩
      cases d <;> simp -implicitDefEqProofs [Parts.members, spelling, Setting.key]
  reads m mem := by
    obtain ⟨triple, width, align, abi⟩ := Setting.only_keys
    simp only [Parts.members, List.mem_cons, List.not_mem_nil, or_false] at mem
    rcases mem with rfl | rfl | rfl | rfl
    · exact triple.reads fun _ _ _ => readText_iff_textAt
    · exact width.reads fun _ _ _ => readWord64_eq_ok_iff
    · exact align.reads fun _ _ _ => readWord64_eq_ok_iff
    · exact abi.reads fun _ _ _ => Abi.read_eq_ok_iff
  given m mem := by
    obtain ⟨triple, width, align, abi⟩ := Setting.only_keys
    simp only [Parts.members, List.mem_cons, List.not_mem_nil, or_false] at mem
    rcases mem with rfl | rfl | rfl | rfl
    · exact triple.given fun _ _ => Iff.rfl
    · exact width.given fun _ _ => Iff.rfl
    · exact align.given fun _ _ => Iff.rfl
    · exact abi.given fun _ _ => Iff.rfl
  empty d given := by cases d <;> cases given
  holds_put p d e := by
    cases d <;> cases e <;> simp -implicitDefEqProofs [Setting.put, Setting.Given, spelling, Setting.key, eq_comm]
  ext p q same := by
    have triple : p.triple = q.triple := Option.ext fun s => same (.triple s)
    have width : p.width = q.width := Option.ext fun n => same (.width n)
    have align : p.align = q.align := Option.ext fun n => same (.align n)
    have abi : p.abi = q.abi := Option.ext fun a => same (.abi a)
    cases p
    cases q
    exact Parts.mk.injEq .. ▸ ⟨triple, width, align, abi⟩

theorem target?_eq_some_iff {p : Parts} {t : Target} : p.target? = some t ↔ p = t.settings.foldl Setting.put {} := by
  obtain ⟨triple, width, align, abi⟩ := p
  constructor
  · intro made
    obtain ⟨_, rfl, made⟩ := Option.bind_eq_some_iff.1 made
    obtain ⟨_, rfl, made⟩ := Option.bind_eq_some_iff.1 made
    obtain ⟨_, rfl, made⟩ := Option.bind_eq_some_iff.1 made
    obtain ⟨_, rfl, made⟩ := Option.bind_eq_some_iff.1 made
    cases made
    rfl
  · intro full
    cases full
    rfl

variable {t : Target} {cs rest : List Char}

theorem read_eq_ok_iff {depth : Nat} : read (depth + 2) cs = .ok (t, rest) ↔ spelling.Structure t.settings cs rest := by
  have keys : t.settings.map spelling.key = Parts.members.map (·.key) := rfl
  have distinct : (t.settings.map spelling.key).Nodup := by
    rw [keys]
    decide
  rw [← (readBy depth).structured_eq_ok_iff keys distinct]
  unfold Target.read
  rw [bind_eq_ok]
  constructor
  · rintro ⟨p, mid, read, made⟩
    cases full : p.target? with
    | none =>
      rw [full] at made
      cases made
    | some t' =>
      rw [full] at made
      cases made
      rwa [← target?_eq_some_iff.1 full]
  · intro read
    refine ⟨_, rest, read, ?_⟩
    rw [target?_eq_some_iff.2 rfl]
    rfl

theorem parse_eq_ok_iff {text : String} : parse text = .ok t ↔ t.Spelled text :=
  whole_eq_ok_iff_alone fun _ _ _ => read_eq_ok_iff

theorem read_toJson (hex : HexCase) (t : Target) (depth : Nat) : Reads (read (depth + 1)) hex t.toJson t := by
  have taken : Taken depth Parts.members hex {}
      [("triple", .string t.triple), ("pointer_width_bits", .ofWord t.pointerWidthBits),
        ("pointer_align_bits", .ofWord t.pointerAlignBits), ("abi", t.abi.toJson)]
      ⟨some t.triple, some t.pointerWidthBits, some t.pointerAlignBits, some t.abi⟩ := by
    refine .next (t := ⟨some t.triple, none, none, none⟩) rfl rfl ?_
      (.next (t := ⟨some t.triple, some t.pointerWidthBits, none, none⟩) rfl rfl ?_
        (.next (t := ⟨some t.triple, some t.pointerWidthBits, some t.pointerAlignBits, none⟩) rfl rfl ?_
          (.next rfl rfl ?_ (.done _))))
    · exact fun rest ends => bind_ok (readText_write hex t.triple rest ends)
    · exact fun rest ends => bind_ok (readWord64_write hex t.pointerWidthBits rest ends)
    · exact fun rest ends => bind_ok (readWord64_write hex t.pointerAlignBits rest ends)
    · exact fun rest ends => bind_ok (t.abi.read_toJson hex depth rest ends)
  exact fun rest ends => bind_ok (structured_write taken rest ends)

theorem parse_written (hex : HexCase) (t : Target) : parse (t.toJson.render hex) = .ok t :=
  whole_render (t.read_toJson hex 126)

end Target

/-! ## Configurations -/

namespace Config

/-- The one member of a configuration is its arguments. -/
def spelling : Spelling String := ⟨fun _ => "args", TextAt⟩

/-- As an object the configuration has its one member, as an array it has one item. -/
def Spelled (c : Config) : String → Prop := Alone (spelling.Structure [c.args])

theorem readBy (depth : Nat) : spelling.ReadBy depth [member] none (fun _ s => some s) (fun p s => p = some s) where
  visible := visible_textAt
  keys k := by
    rw [List.map_singleton, List.mem_singleton]
    exact ⟨fun same => ⟨"", same.symm⟩, fun ⟨_, same⟩ => same.symm⟩
  reads m mem p q cs rest := by
    obtain rfl := List.mem_singleton.1 mem
    simp only [member, map_eq_ok, readText_iff_textAt]
    exact ⟨fun ⟨s, here, same⟩ => ⟨s, rfl, here, same.symm⟩, fun ⟨s, _, here, same⟩ => ⟨s, here, same.symm⟩⟩
  given m mem p := by
    obtain rfl := List.mem_singleton.1 mem
    rw [member, Option.isSome_iff_exists]
    exact ⟨fun ⟨s, given⟩ => ⟨s, given, rfl⟩, fun ⟨s, given, _⟩ => ⟨s, given⟩⟩
  empty := nofun
  holds_put p d e := by simp [spelling, eq_comm]
  ext p q same := Option.ext same

variable {c : Config} {cs rest : List Char} {depth : Nat}

theorem read_eq_ok_iff : read (depth + 1) cs = .ok (c, rest) ↔ spelling.Structure [c.args] cs rest := by
  have keys : [c.args].map spelling.key = [member].map (·.key) := rfl
  rw [← (readBy depth).structured_eq_ok_iff keys (List.nodup_singleton _)]
  unfold Config.read
  rw [bind_eq_ok]
  constructor
  · rintro ⟨_ | args, mid, read, made⟩
    · cases made
    · cases made
      exact read
  · exact fun read => ⟨some c.args, rest, read, rfl⟩

theorem parse_eq_ok_iff {text : String} : parse text = .ok c ↔ c.Spelled text :=
  whole_eq_ok_iff_alone fun _ _ _ => read_eq_ok_iff

theorem read_toJson (hex : HexCase) (c : Config) (depth : Nat) : Reads (read (depth + 1)) hex c.toJson c := by
  have taken : Taken depth [member] hex none [("args", .string c.args)] (some c.args) :=
    .next rfl rfl (fun rest ends => map_ok (readText_write hex c.args rest ends)) (.done _)
  exact fun rest ends => bind_ok (structured_write taken rest ends)

theorem parse_written (hex : HexCase) (c : Config) : parse (c.toJson.render hex) = .ok c :=
  whole_render (c.read_toJson hex 126)

end Config

/-! ## Reading and writing -/

/-- What is written for a value that was read. -/
def rewritten {α : Type} (parse : String → Except Fault α) (toJson : α → Value) (text : String) : Except Fault String :=
  (fun a => (toJson a).render .lower) <$> parse text

/-- A type whose values survive being written and read, and whose texts are those spelled so. -/
structure Persists {α : Type} (parse : String → Except Fault α) (toJson : α → Value) (Spelled : α → String → Prop) :
    Prop where
  reads : ∀ a, parse ((toJson a).render .lower) = .ok a
  accepts : ∀ text a, parse text = .ok a ↔ Spelled a text
  settles : ∀ text a, Spelled a text → rewritten parse toJson text = .ok ((toJson a).render .lower) ∧
    rewritten parse toJson ((toJson a).render .lower) = .ok ((toJson a).render .lower)

theorem persists {α : Type} {parse : String → Except Fault α} {toJson : α → Value} {Spelled : α → String → Prop}
    (reads : ∀ a, parse ((toJson a).render .lower) = .ok a) (accepts : ∀ text a, parse text = .ok a ↔ Spelled a text) :
    Persists parse toJson Spelled where
  reads := reads
  accepts := accepts
  settles text a spelled := by
    rw [rewritten, rewritten, (accepts text a).2 spelled, reads]
    exact ⟨rfl, rfl⟩

/-- Reading undoes writing for every configuration, target and ABI, whatever characters are in their strings and
however large their words are. A text is accepted just if it spells a value: as an object with each member once, in any
order and among unknown ones, or as the array of the members, or for an ABI as its name or the object with that one
key. Reading and writing makes of it the text that is written for the value, and leaves that text as it is. -/
theorem settings_persist :
    Persists Config.parse Config.toJson Config.Spelled ∧ Persists Target.parse Target.toJson Target.Spelled ∧
      Persists Abi.parse Abi.toJson Abi.Spelled :=
  ⟨persists (Config.parse_written .lower) fun _ _ => Config.parse_eq_ok_iff,
    persists (Target.parse_written .lower) fun _ _ => Target.parse_eq_ok_iff,
    persists (Abi.parse_written .lower) fun _ _ => Abi.parse_eq_ok_iff⟩

example : rewritten Config.parse Config.toJson
      "\x7b\"old\": [\"\\udc00\"], \"args\": \"\\u0041\\/\\ud83d\\ude00\\u000A\"\x7d" =
    .ok "\x7b\"args\":\"A/😀\\n\"\x7d" := by
  cbv

end RecordLayout
