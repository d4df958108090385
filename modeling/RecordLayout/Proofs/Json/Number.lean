import RecordLayout.Proofs.Json.Text

/-!
# Integers that were written

Reading a written integer gives it back (`number_writeInteger`) if 64 bits hold it (`Fits`) and what stands
behind it does not go on with the number (`Numeral.EndsAt`).
-/
namespace RecordLayout.Json
open Reader

/-- Integers of 64 bits, signed or unsigned. -/
def Fits (n : Int) : Prop := Int64.minValue.toInt ≤ n ∧ n < UInt64.size

theorem fits_toNat (n : UInt64) : Fits n.toNat :=
  ⟨Int.le_trans (by decide : Int64.minValue.toInt ≤ 0) (Int.natCast_nonneg _), Int.ofNat_lt.2 n.toNat_lt⟩

namespace Numeral

/-- A number may end in front of this text: nothing in it goes on with the number. -/
def EndsAt (rest : List Char) : Prop :=
  ∀ c ∈ rest.head?, c.isDigit = false ∧ c ≠ '.' ∧ c ≠ 'e' ∧ c ≠ 'E'

/-- Numbers start so. -/
def Starts (c : Char) : Prop := c = '-' ∨ c.isDigit = true

theorem Starts.ne {c d : Char} (starts : Starts c) (other : d ≠ '-' ∧ d.isDigit = false) : c ≠ d := by
  rintro rfl
  rcases starts with dash | digit
  · exact other.1 dash
  · exact absurd digit (by rw [other.2]; exact Bool.false_ne_true)

theorem Starts.visible {c : Char} (starts : Starts c) : isBlank c = false := by
  have space : c ≠ ' ' := starts.ne (by decide)
  have tab : c ≠ '\t' := starts.ne (by decide)
  have line : c ≠ '\n' := starts.ne (by decide)
  have ret : c ≠ '\r' := starts.ne (by decide)
  simp [isBlank, space, tab, line, ret]

/-- Digits as a number starts with them. -/
structure Leading (ds : List Char) : Prop where
  nonempty : ds ≠ []
  digits : ∀ d ∈ ds, d.isDigit = true
  plain : ∀ c tail, ds = c :: tail → c = '0' → tail = []

theorem head_toDigits {k : Nat} (positive : 0 < k) : ∃ c tail, Nat.toDigits 10 k = c :: tail ∧ c ≠ '0' := by
  induction k using Nat.strongRecOn with
  | ind k ih =>
    rw [Nat.toDigits_eq_if (by decide)]
    split
    · next single =>
      have one : ∀ m : Fin 10, 0 < m.1 → Nat.digitChar m.1 ≠ '0' := by decide
      exact ⟨_, [], rfl, one ⟨k, single⟩ positive⟩
    · next more =>
      obtain ⟨c, tail, split, nonzero⟩ := ih (k / 10) (Nat.div_lt_self positive (by decide)) (by omega)
      rw [split]
      exact ⟨c, _, rfl, nonzero⟩

theorem leading_toDigits (k : Nat) : Leading (Nat.toDigits 10 k) := by
  refine ⟨Nat.toDigits_ne_nil, fun d mem => Nat.isDigit_of_mem_toDigits (by decide) (by decide) mem, ?_⟩
  intro c tail split zero
  rcases Nat.eq_zero_or_pos k with rfl | positive
  · rw [Nat.toDigits_zero, List.cons.injEq] at split
    exact split.2.symm
  · obtain ⟨c', tail', split', nonzero⟩ := head_toDigits positive
    rw [split, List.cons.injEq] at split'
    exact absurd (split'.1 ▸ zero) nonzero

theorem decimalValue_toDigits (k : Nat) : Text.decimalValue (Nat.toDigits 10 k) = k := by
  have same : Text.decimalValue (Nat.toDigits 10 k) = Nat.ofDigitChars 10 (Nat.toDigits 10 k) 0 := by
    rw [Nat.ofDigitChars_eq_foldl, Text.decimalValue]
    congr 1
    funext n d
    rw [Nat.mul_comm]
    rfl
  rw [same, Nat.ofDigitChars_ten_toDigits]

section Read

variable {ds rest : List Char} (cut : Fault)

theorem takeWhile_digits (digits : ∀ d ∈ ds, d.isDigit = true) (ends : EndsAt rest) :
    (ds ++ rest).takeWhile Char.isDigit = ds ∧ (ds ++ rest).dropWhile Char.isDigit = rest := by
  induction ds with
  | nil =>
    cases rest with
    | nil => exact ⟨rfl, rfl⟩
    | cons c cs =>
      have stop := (ends c rfl).1
      simp [stop]
  | cons d ds ih =>
    have here := digits d List.mem_cons_self
    have rest := ih fun e mem => digits e (List.mem_cons_of_mem d mem)
    simp [here, rest]

theorem digits_append (leading : Leading ds) (ends : EndsAt rest) : digits cut (ds ++ rest) = .ok (ds, rest) := by
  obtain ⟨d, tail, rfl⟩ := List.exists_cons_of_ne_nil leading.nonempty
  have first := leading.digits d List.mem_cons_self
  obtain ⟨taken, dropped⟩ := takeWhile_digits (fun e mem => leading.digits e (List.mem_cons_of_mem d mem)) ends
  rw [List.cons_append, digits, if_pos first, taken, dropped]

theorem wholeDigits_append (leading : Leading ds) (ends : EndsAt rest) :
    wholeDigits cut (ds ++ rest) = .ok (ds, rest) := by
  unfold wholeDigits
  split
  · next d more zero =>
    obtain ⟨c, tail, rfl⟩ := List.exists_cons_of_ne_nil leading.nonempty
    rw [List.cons_append, List.cons.injEq] at zero
    obtain rfl := leading.plain c tail rfl zero.1
    rw [List.nil_append] at zero
    obtain ⟨rfl, rfl⟩ := zero
    have stop := (ends d rfl).1
    rw [stop, if_neg Bool.false_ne_true]
  · exact digits_append cut leading ends

theorem fractionDigits_of_ends (ends : EndsAt rest) : fractionDigits cut rest = .ok (none, rest) := by
  unfold fractionDigits
  split
  · next more => exact absurd rfl (ends '.' rfl).2.1
  · rfl

theorem exponentPart_of_ends (ends : EndsAt rest) : exponentPart cut rest = .ok (none, rest) := by
  cases rest with
  | nil => rfl
  | cons c cs =>
    obtain ⟨-, -, small, capital⟩ := ends c rfl
    rw [exponentPart, if_neg]
    simp [small, capital]

theorem read_append (leading : Leading ds) (ends : EndsAt rest) (negative : Bool) :
    read cut ((if negative then ['-'] else []) ++ (ds ++ rest)) = .ok (⟨negative, ds, none, none⟩, rest) := by
  have signed : sign ((if negative then ['-'] else []) ++ (ds ++ rest)) = .ok (negative, ds ++ rest) := by
    cases negative with
    | true => rfl
    | false =>
      obtain ⟨d, tail, rfl⟩ := List.exists_cons_of_ne_nil leading.nonempty
      have first := leading.digits d List.mem_cons_self
      have unsigned : d ≠ '-' := by
        rintro rfl
        exact absurd first (by decide)
      simp only [Bool.false_eq_true, if_false, List.nil_append, List.cons_append]
      unfold sign
      split
      · next hit => exact absurd (List.cons.inj hit).1 unsigned
      · rfl
  rw [read, bind_ok signed, bind_ok (wholeDigits_append cut leading ends),
    bind_ok (fractionDigits_of_ends cut ends), bind_ok (exponentPart_of_ends cut ends)]
  rfl

end Read
end Numeral

/-- Reading a written integer gives it back. -/
theorem number_writeInteger {n : Int} (fits : Fits n) {rest : List Char} (ends : Numeral.EndsAt rest) :
    number (writeInteger n rest) = .ok (.integer n, rest) := by
  unfold Fits at fits
  cases n with
  | ofNat k =>
    have read := Numeral.read_append .truncated (Numeral.leading_toDigits k) ends false
    have value : (Numeral.mk false (Nat.toDigits 10 k) none none).integer? = some (Int.ofNat k) := by
      have small : k < UInt64.size := Int.ofNat_lt.1 fits.2
      simp only [Numeral.integer?, Option.isNone_none, Bool.and_self, if_true, Numeral.decimalValue_toDigits,
        Bool.false_eq_true, if_false]
      exact if_pos small
    simp only [Bool.false_eq_true, if_false, List.nil_append] at read
    rw [writeInteger, number, bind_ok read]
    simp only [value]
    rfl
  | negSucc k =>
    have read := Numeral.read_append .truncated (Numeral.leading_toDigits (k + 1)) ends true
    have value : (Numeral.mk true (Nat.toDigits 10 (k + 1)) none none).integer? = some (Int.negSucc k) := by
      have large : Int64.minValue.toInt ≤ -((k + 1 : Nat) : Int) := fits.1
      simp only [Numeral.integer?, Option.isNone_none, Bool.and_self, if_true, Numeral.decimalValue_toDigits]
      exact if_pos ⟨Nat.succ_pos k, large⟩
    simp only [if_true, List.singleton_append] at read
    rw [writeInteger, number, bind_ok read]
    simp only [value]
    rfl

theorem writeInteger_eq_cons (n : Int) (rest : List Char) :
    ∃ c tail, writeInteger n rest = c :: tail ∧ rest.length ≤ tail.length ∧ Numeral.Starts c := by
  cases n with
  | ofNat k =>
    obtain ⟨c, tail, split⟩ := List.exists_cons_of_ne_nil (Numeral.leading_toDigits k).nonempty
    have digit : c.isDigit = true := (Numeral.leading_toDigits k).digits c (split ▸ List.mem_cons_self)
    refine ⟨c, tail ++ rest, ?_, by simp, .inr digit⟩
    rw [writeInteger, split, List.cons_append]
  | negSucc k => exact ⟨'-', _, rfl, by simp, .inl rfl⟩

theorem Numeral.read_half (cut : Fault) {rest : List Char} (ends : EndsAt rest) :
    read cut ('0' :: '.' :: '5' :: rest) = .ok (⟨false, ['0'], some ['5'], none⟩, rest) := by
  have sign : sign ('0' :: '.' :: '5' :: rest) = .ok (false, '0' :: '.' :: '5' :: rest) := rfl
  have whole : wholeDigits cut ('0' :: '.' :: '5' :: rest) = .ok (['0'], '.' :: '5' :: rest) := rfl
  have digit : Leading ['5'] := ⟨by decide, List.forall_mem_singleton.2 rfl, by rintro c tail ⟨⟩ -; rfl⟩
  have fraction : fractionDigits cut ('.' :: '5' :: rest) = .ok (some ['5'], rest) :=
    map_ok (digits_append cut digit ends)
  rw [read, bind_ok sign, bind_ok whole, bind_ok fraction, bind_ok (exponentPart_of_ends cut ends)]
  rfl

/-- Reading the number that is written for a real gives a real. -/
theorem number_half {rest : List Char} (ends : Numeral.EndsAt rest) :
    number ('0' :: '.' :: '5' :: rest) = .ok (.real, rest) := by
  have finite : (Numeral.mk false ['0'] (some ['5']) none).overflows = false := by decide
  rw [number, bind_ok (Numeral.read_half .truncated ends)]
  simp only [Numeral.integer?, finite]
  rfl

end RecordLayout.Json
