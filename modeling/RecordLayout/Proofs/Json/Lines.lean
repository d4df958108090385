import RecordLayout.Proofs.Json.Number

/-!
# Values on one line

What a value holds in its strings, its text has no control in it (`printed_write`), so no line break. Texts
without line breaks that are printed line by line are found again by cutting at the line breaks
(`pieces_lines`).
-/
namespace RecordLayout

namespace Json

/-- There is no control in the text. -/
def Printed (cs : List Char) : Prop := ∀ c ∈ cs, 32 ≤ c.toNat

@[simp] theorem printed_nil : Printed [] := List.forall_mem_nil _

@[simp] theorem printed_cons {c : Char} {cs : List Char} : Printed (c :: cs) ↔ 32 ≤ c.toNat ∧ Printed cs :=
  List.forall_mem_cons

@[simp] theorem printed_append {cs ds : List Char} : Printed (cs ++ ds) ↔ Printed cs ∧ Printed ds :=
  List.forall_mem_append

theorem Printed.flatMap {f : Char → List Char} (each : ∀ c, Printed (f c)) (cs : List Char) :
    Printed (cs.flatMap f) := by
  intro d mem
  obtain ⟨c, -, here⟩ := List.mem_flatMap.1 mem
  exact each c d here

theorem Printed.not_mem {cs : List Char} (printed : Printed cs) {c : Char} (control : c.toNat < 32) : c ∉ cs :=
  fun mem => Nat.not_le_of_lt control (printed c mem)

theorem le_toNat_digit (hex : HexCase) {n : Nat} (small : n < 16) : 32 ≤ (hex.digit n).toNat := by
  have digits : ∀ m : Fin 16, 32 ≤ (hex.digit m.1).toNat := by
    cases hex <;> decide
  exact digits ⟨n, small⟩

/-- A control is written by its letter or its number. -/
theorem printed_escaped (hex : HexCase) (c : Char) : Printed (escaped hex c) := by
  unfold escaped
  split
  iterate 7 simp
  · split
    · next control =>
      have high := le_toNat_digit hex (n := c.toNat / 16) (by omega)
      have low := le_toNat_digit hex (n := c.toNat % 16) (Nat.mod_lt _ (by decide))
      simp [high, low]
    · next printed => simpa using printed

theorem printed_writeString (hex : HexCase) (s : String) {rest : List Char} (printed : Printed rest) :
    Printed (writeString hex s rest) := by
  simp [writeString, Printed.flatMap (printed_escaped hex), printed]

theorem printed_toDigits (k : Nat) : Printed (Nat.toDigits 10 k) := by
  intro c mem
  have digit : c.isDigit = true := (Numeral.leading_toDigits k).digits c mem
  simp only [Char.isDigit, Bool.and_eq_true, decide_eq_true_eq] at digit
  exact Nat.le_trans (by decide) (UInt32.le_iff_toNat_le.1 digit.1)

theorem printed_writeInteger (n : Int) {rest : List Char} (printed : Printed rest) :
    Printed (writeInteger n rest) := by
  cases n <;> simp [writeInteger, printed_toDigits, printed]

theorem printed_separated (first : Bool) {rest : List Char} (printed : Printed rest) :
    Printed (separated first rest) := by
  cases first <;> simp [separated, printed]

mutual

/-- A value is written without controls. -/
theorem printed_write (hex : HexCase) (v : Value) {rest : List Char} (printed : Printed rest) :
    Printed (v.write hex rest) := by
  cases v with
  | null => simp [Value.write, printed]
  | bool b => cases b <;> simp [Value.write, printed]
  | integer n => exact printed_writeInteger n printed
  | real => simp [Value.write, printed]
  | string s => exact printed_writeString hex s printed
  | array vs =>
    have closed : Printed (']' :: rest) := by simp [printed]
    simp [Value.write, printed_writeItems hex true vs closed]
  | object ms =>
    have closed : Printed ('}' :: rest) := by simp [printed]
    simp [Value.write, printed_writeMembers hex true ms closed]

theorem printed_writeItems (hex : HexCase) (first : Bool) (vs : List Value) {rest : List Char}
    (printed : Printed rest) : Printed (writeItems hex first vs rest) := by
  cases vs with
  | nil => exact printed
  | cons v vs =>
    rw [writeItems]
    exact printed_separated first (printed_write hex v (printed_writeItems hex false vs printed))

theorem printed_writeMembers (hex : HexCase) (first : Bool) (ms : List (String × Value)) {rest : List Char}
    (printed : Printed rest) : Printed (writeMembers hex first ms rest) := by
  cases ms with
  | nil => exact printed
  | cons m ms =>
    obtain ⟨k, v⟩ := m
    have value := printed_write hex v (printed_writeMembers hex false ms printed)
    rw [writeMembers]
    exact printed_separated first (printed_writeString hex k (by simp [value]))

end

theorem printed_render (hex : HexCase) (v : Value) : Printed (v.render hex).toList := by
  rw [Value.render, String.toList_ofList]
  exact printed_write hex v printed_nil

end Json

namespace Text

theorem pieces_of_not_mem {sep : Char} {cs : List Char} (absent : sep ∉ cs) (rest : List Char) :
    pieces sep (cs ++ sep :: rest) = cs :: pieces sep rest := by
  induction cs with
  | nil =>
    obtain ⟨p, ps, split⟩ := List.exists_cons_of_ne_nil (pieces_ne_nil sep rest)
    simp [pieces, split]
  | cons c cs ih =>
    obtain ⟨other, later⟩ := List.ne_and_not_mem_of_not_mem_cons absent
    rw [List.cons_append, pieces, ih later]
    simp [other.symm]

/-- Parts that each end with a separator are what a cut gives, and nothing after the last one. -/
theorem pieces_lines {sep : Char} {parts : List (List Char)} (absent : ∀ cs ∈ parts, sep ∉ cs) :
    pieces sep (parts.flatMap fun cs => cs ++ [sep]) = parts ++ [[]] := by
  induction parts with
  | nil => rfl
  | cons cs parts ih =>
    have here := absent cs List.mem_cons_self
    rw [List.flatMap_cons, List.append_assoc, List.singleton_append, pieces_of_not_mem here,
      ih fun ds mem => absent ds (List.mem_cons_of_mem cs mem), List.cons_append]

end Text
end RecordLayout
