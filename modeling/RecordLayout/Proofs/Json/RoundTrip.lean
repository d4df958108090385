import RecordLayout.Json.Shape
import RecordLayout.Proofs.Json.Number

/-!
# Values that were written

Reading a written value gives it back (`value_write`), whatever follows it, if 64 bits hold its integers and
it opens no more brackets than the reader may. Arrays and objects are read item by item, so what a reader
makes of each item decides what it makes of all (`items_write`, `members_write`).
-/
namespace RecordLayout.Json
open Reader Numeral

/-- Every integer in the value is one of 64 bits. -/
inductive Value.Writable : Value → Prop
  | null : Writable .null
  | bool (b : Bool) : Writable (.bool b)
  | integer {n : Int} (fits : Fits n) : Writable (.integer n)
  | real : Writable .real
  | string (s : String) : Writable (.string s)
  | array {vs : List Value} (each : ∀ v ∈ vs, v.Writable) : Writable (.array vs)
  | object {ms : List (String × Value)} (each : ∀ m ∈ ms, m.2.Writable) : Writable (.object ms)

attribute [simp] Value.Writable.null Value.Writable.bool Value.Writable.string

@[simp] theorem writable_ofWord (n : UInt64) : (Value.ofWord n).Writable := .integer (fits_toNat n)

@[simp] theorem word64?_ofWord (n : UInt64) : word64? (.ofWord n) = some n := by
  have small : (n.toNat : Int) < UInt64.size := Int.ofNat_lt.2 n.toNat_lt
  rw [Value.ofWord, word64?, if_pos ⟨Int.natCast_nonneg _, small⟩]
  simp

/-! ## The first character -/

/-- A written value starts with a character that is neither blank nor a closing bracket. -/
theorem write_eq_cons (hex : HexCase) (v : Value) (rest : List Char) :
    ∃ c tail, v.write hex rest = c :: tail ∧ isBlank c = false ∧ c ≠ ']' := by
  cases v with
  | bool b => cases b <;> exact ⟨_, _, rfl, rfl, by decide⟩
  | integer n =>
    obtain ⟨c, tail, split, -, starts⟩ := writeInteger_eq_cons n rest
    exact ⟨c, tail, split, starts.visible, starts.ne (by decide)⟩
  | _ => exact ⟨_, _, rfl, rfl, by decide⟩

/-! ## Lengths -/

theorem length_separated (first : Bool) (rest : List Char) : rest.length ≤ (separated first rest).length := by
  cases first <;> simp [separated]

theorem length_writeString (hex : HexCase) (s : String) (rest : List Char) :
    rest.length < (writeString hex s rest).length := by
  simp only [writeString, List.length_cons, List.length_append]
  omega

mutual

/-- A value is written with at least one character more than it opens brackets within each other. -/
theorem depth_add_length_write (hex : HexCase) (v : Value) (rest : List Char) :
    v.depth + rest.length < (v.write hex rest).length := by
  cases v with
  | bool b => cases b <;> simp [Value.write, Value.depth] <;> omega
  | null => simp [Value.write, Value.depth]; omega
  | real => simp [Value.write, Value.depth]; omega
  | integer n =>
    obtain ⟨c, tail, split, kept, -⟩ := writeInteger_eq_cons n rest
    simp only [Value.write, Value.depth, split, List.length_cons]
    omega
  | string s =>
    have text := length_writeString hex s rest
    simp only [Value.write, Value.depth]
    omega
  | array vs =>
    have inside := depth_add_length_writeItems hex true vs (']' :: rest)
    rw [Value.write, Value.depth, List.length_cons]
    rw [List.length_cons] at inside
    omega
  | object ms =>
    have inside := depth_add_length_writeMembers hex true ms ('}' :: rest)
    rw [Value.write, Value.depth, List.length_cons]
    rw [List.length_cons] at inside
    omega

theorem depth_add_length_writeItems (hex : HexCase) (first : Bool) (vs : List Value) (rest : List Char) :
    itemsDepth vs + rest.length ≤ (writeItems hex first vs rest).length := by
  cases vs with
  | nil => simp [writeItems, itemsDepth]
  | cons v vs =>
    have more := depth_add_length_writeItems hex false vs rest
    have this := depth_add_length_write hex v (writeItems hex false vs rest)
    have comma := length_separated first (v.write hex (writeItems hex false vs rest))
    rw [writeItems, itemsDepth]
    omega

theorem depth_add_length_writeMembers (hex : HexCase) (first : Bool) (ms : List (String × Value)) (rest : List Char) :
    membersDepth ms + rest.length ≤ (writeMembers hex first ms rest).length := by
  cases ms with
  | nil => simp [writeMembers, membersDepth]
  | cons m ms =>
    obtain ⟨k, v⟩ := m
    have more := depth_add_length_writeMembers hex false ms rest
    have this := depth_add_length_write hex v (writeMembers hex false ms rest)
    have key := length_writeString hex k (':' :: v.write hex (writeMembers hex false ms rest))
    have comma := length_separated first (writeString hex k (':' :: v.write hex (writeMembers hex false ms rest)))
    rw [writeMembers, membersDepth]
    rw [List.length_cons] at key
    omega

end

theorem length_write (hex : HexCase) (v : Value) (rest : List Char) : rest.length < (v.write hex rest).length :=
  Nat.lt_of_le_of_lt (Nat.le_add_left _ _) (depth_add_length_write hex v rest)

theorem depth_lt_length_render (hex : HexCase) (v : Value) : v.depth < (v.render hex).length := by
  rw [Value.render, String.length_ofList]
  exact depth_add_length_write hex v []

theorem length_lt_member (hex : HexCase) (first : Bool) (k : String) (v : Value) (rest : List Char) :
    rest.length < (separated first (writeString hex k (':' :: v.write hex rest))).length := by
  have this := length_write hex v rest
  have key := length_writeString hex k (':' :: v.write hex rest)
  have comma := length_separated first (writeString hex k (':' :: v.write hex rest))
  rw [List.length_cons] at key
  omega

/-! ## What follows an item -/

theorem endsAt_writeItems (hex : HexCase) (vs : List Value) (rest : List Char) :
    EndsAt (writeItems hex false vs (']' :: rest)) := by
  cases vs <;> (rintro c ⟨⟩; decide)

theorem endsAt_writeMembers (hex : HexCase) (ms : List (String × Value)) (rest : List Char) :
    EndsAt (writeMembers hex false ms ('}' :: rest)) := by
  rcases ms with - | ⟨⟨k, v⟩, ms⟩ <;> (rintro c ⟨⟩; decide)

theorem nextItem_write (hex : HexCase) (first : Bool) (v : Value) (rest : List Char) :
    nextItem first (separated first (v.write hex rest)) = .ok (true, v.write hex rest) := by
  obtain ⟨c, tail, split, visible, ne⟩ := write_eq_cons hex v rest
  have comma : dropBlanks (',' :: c :: tail) = ',' :: c :: tail := rfl
  rw [split]
  cases first with
  | true => simp [separated, nextItem, dropBlanks_cons visible, ne]
  | false => simp [separated, nextItem, comma, dropBlanks_cons visible, ne]

theorem nextKey?_write (hex : HexCase) (first : Bool) (k : String) (rest : List Char) :
    nextKey? first (separated first (writeString hex k rest)) = .ok (some k, rest) := by
  have key : (some <$> Quoted.text) (k.toList.flatMap (escaped hex) ++ '"' :: rest) = .ok (some k, rest) :=
    map_ok (Quoted.text_escaped hex k rest)
  cases first with
  | true => exact key
  | false => exact key

theorem colon_cons (rest : List Char) : colon (':' :: rest) = .ok ((), rest) := rfl

/-! ## Arrays and objects -/

/-- The reader makes `a` of the written value, whatever ends it. -/
def Reads {α : Type} (item : Reader α) (hex : HexCase) (v : Value) (a : α) : Prop :=
  ∀ rest, EndsAt rest → item (v.write hex rest) = .ok (a, rest)

theorem items_write {α : Type} {item : Reader α} (hex : HexCase) (json : α → Value) {as : List α}
    (reads : ∀ a ∈ as, Reads item hex (json a) a) (rest : List Char) :
    items item (writeItems hex true (as.map json) (']' :: rest)) = .ok (as, rest) := by
  refine (Rounds.collect id id (fun first as => writeItems hex first (as.map json) (']' :: rest)) ?_ ?_ ?_).loop_eq
  · exact fun _ => rfl
  · intro acc a mem more
    simp only [List.map_cons, writeItems]
    refine (bind_ok (nextItem_write hex _ (json a) _)).trans ?_
    exact bind_ok (reads a mem _ (endsAt_writeItems hex _ rest))
  · intro first a more
    simp only [List.map_cons, writeItems]
    exact Nat.lt_of_lt_of_le (length_write hex _ _) (length_separated _ _)

theorem members_write {item : Reader Value} (hex : HexCase) {ms : List (String × Value)}
    (reads : ∀ m ∈ ms, Reads item hex m.2 m.2) (rest : List Char) :
    members item (writeMembers hex true ms ('}' :: rest)) = .ok (ms, rest) := by
  refine (Rounds.collect id id (fun first ms => writeMembers hex first ms ('}' :: rest)) ?_ ?_ ?_).loop_eq
  · exact fun _ => rfl
  · rintro acc ⟨k, v⟩ mem more
    refine (bind_ok (nextKey?_write hex _ k _)).trans ?_
    refine (bind_ok (colon_cons _)).trans ?_
    exact bind_ok (reads (k, v) mem _ (endsAt_writeMembers hex more rest))
  · exact fun first m more => length_lt_member hex first m.1 m.2 _

theorem readText_write (hex : HexCase) (s : String) : Reads readText hex (.string s) s := by
  intro rest _
  exact Quoted.text_escaped hex s rest

theorem readNullable_null {α : Type} (r : Reader α) (hex : HexCase) : Reads (readNullable r) hex .null none := by
  intro rest _
  rfl

theorem readNullable_text (hex : HexCase) (s : String) : Reads (readNullable readText) hex (.string s) (some s) := by
  intro rest ends
  exact map_ok (readText_write hex s rest ends)

theorem readList_write {α : Type} {item : Nat → Reader α} {depth : Nat} (hex : HexCase) (json : α → Value)
    {as : List α} (reads : ∀ a ∈ as, Reads (item depth) hex (json a) a) :
    Reads (readList (depth + 1) item) hex (.array (as.map json)) as := by
  intro rest _
  exact items_write hex json reads rest

/-- The members of a structure take the written ones in turn, from state `s` to state `t`. -/
inductive Taken {σ : Type} (depth : Nat) (known : List (Member σ)) (hex : HexCase) :
    σ → List (String × Value) → σ → Prop
  | done (s : σ) : Taken depth known hex s [] s
  | next {s t u : σ} {k : String} {v : Value} {ms : List (String × Value)} {m : Member σ}
      (found : known.find? (fun m => m.key = k) = some m) (new : m.given s = false)
      (reads : Reads (m.read depth s) hex v t) (more : Taken depth known hex t ms u) :
      Taken depth known hex s ((k, v) :: ms) u

theorem keyed_write {σ : Type} {depth : Nat} {known : List (Member σ)} {hex : HexCase} {s t : σ}
    {ms : List (String × Value)} (taken : Taken depth known hex s ms t) (rest : List Char) :
    keyed depth known s (writeMembers hex true ms ('}' :: rest)) = .ok (t, rest) := by
  refine ((?_ : ∀ first : Bool, Rounds _ (first, s) (writeMembers hex first ms ('}' :: rest)) t rest) true).loop_eq
  induction taken with
  | done s => exact fun first => .last rfl
  | @next s t u k v ms m found new reads more ih =>
    intro first
    rw [writeMembers]
    refine .next ?_ (length_lt_member hex first k v _) (ih false)
    refine (bind_ok (nextKey?_write hex first k _)).trans ?_
    simp only [found, new, Bool.false_eq_true, if_false]
    rw [bind_ok (colon_cons _)]
    exact bind_ok (reads _ (endsAt_writeMembers hex ms rest))

theorem structured_write {σ : Type} {depth : Nat} {known : List (Member σ)} {hex : HexCase} {s t : σ}
    {ms : List (String × Value)} (taken : Taken depth known hex s ms t) :
    Reads (structured (depth + 1) known s) hex (.object ms) t := by
  intro rest _
  exact keyed_write taken rest

/-! ## Values -/

theorem value_numeral {c : Char} (starts : Starts c) (depth : Nat) (cs : List Char) :
    value depth (c :: cs) = number (c :: cs) := by
  have visible : isBlank c = false := starts.visible
  have plain : scalar (c :: cs) = number (c :: cs) := by
    have null : c ≠ 'n' := starts.ne (by decide)
    have yes : c ≠ 't' := starts.ne (by decide)
    have no : c ≠ 'f' := starts.ne (by decide)
    have quote : c ≠ '"' := starts.ne (by decide)
    have numeral : c = '-' ∨ c.isDigit = true := starts
    simp [scalar, dropBlanks_cons visible, null, yes, no, quote, numeral]
  have square : c ≠ '[' := starts.ne (by decide)
  have curly : c ≠ '{' := starts.ne (by decide)
  cases depth <;> simp [value, dropBlanks_cons visible, square, curly, plain]

theorem depth_le_itemsDepth {v : Value} {vs : List Value} (mem : v ∈ vs) : v.depth ≤ itemsDepth vs := by
  induction vs with
  | nil => cases mem
  | cons w vs ih =>
    rw [itemsDepth]
    rcases List.mem_cons.1 mem with rfl | later
    · exact Nat.le_max_left _ _
    · exact Nat.le_trans (ih later) (Nat.le_max_right _ _)

theorem depth_le_membersDepth {m : String × Value} {ms : List (String × Value)} (mem : m ∈ ms) :
    m.2.depth ≤ membersDepth ms := by
  induction ms with
  | nil => cases mem
  | cons n ms ih =>
    rw [membersDepth]
    rcases List.mem_cons.1 mem with rfl | later
    · exact Nat.le_max_left _ _
    · exact Nat.le_trans (ih later) (Nat.le_max_right _ _)

/-- Reading a written value gives it back. -/
theorem value_write (hex : HexCase) {v : Value} (writable : v.Writable) {depth : Nat} (shallow : v.depth ≤ depth) :
    Reads (value depth) hex v v := by
  induction writable generalizing depth with
  | null => intro rest _; cases depth <;> rfl
  | bool b => intro rest _; cases b <;> cases depth <;> rfl
  | real =>
    intro rest ends
    exact (value_numeral (.inr (by decide)) depth _).trans (number_half ends)
  | @integer n fits =>
    intro rest ends
    obtain ⟨c, tail, split, -, starts⟩ := writeInteger_eq_cons n rest
    rw [Value.write, split, value_numeral starts, ← split]
    exact number_writeInteger fits ends
  | string s =>
    intro rest _
    have read : (.string <$> Quoted.text) (s.toList.flatMap (escaped hex) ++ '"' :: rest) =
        .ok (Value.string s, rest) := map_ok (Quoted.text_escaped hex s rest)
    cases depth <;> exact read
  | @array vs each ih =>
    intro rest _
    obtain ⟨depth, rfl⟩ : ∃ d, depth = d + 1 := Nat.exists_eq_succ_of_ne_zero (by rintro rfl; cases shallow)
    have inside : itemsDepth vs ≤ depth := Nat.le_of_succ_le_succ shallow
    have read := items_write hex id (fun v mem => ih v mem (Nat.le_trans (depth_le_itemsDepth mem) inside)) rest
    rw [List.map_id] at read
    exact map_ok read
  | @object ms each ih =>
    intro rest _
    obtain ⟨depth, rfl⟩ : ∃ d, depth = d + 1 := Nat.exists_eq_succ_of_ne_zero (by rintro rfl; cases shallow)
    have inside : membersDepth ms ≤ depth := Nat.le_of_succ_le_succ shallow
    exact map_ok (members_write hex (fun m mem => ih m mem (Nat.le_trans (depth_le_membersDepth mem) inside)) rest)

theorem whole_render {α : Type} {r : Reader α} {hex : HexCase} {v : Value} {a : α} (reads : Reads r hex v a) :
    Reader.whole r (v.render hex) = .ok a := by
  have read := reads [] (by rintro c ⟨⟩)
  rw [Reader.whole, Value.render, String.toList_ofList, read]
  rfl

/-- Reading the text of a value gives it back. -/
theorem parse_render (hex : HexCase) {v : Value} (writable : v.Writable) {depth : Nat} (shallow : v.depth ≤ depth) :
    parse depth (v.render hex) = .ok v :=
  whole_render (value_write hex writable shallow)

end RecordLayout.Json
