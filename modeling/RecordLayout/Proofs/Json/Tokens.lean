import Mathlib
import RecordLayout.Proofs.Dump.Values
import RecordLayout.Proofs.Json.RoundTrip

/-!
# Tokens

What a text has to look like in front for a string (`TextAt`) or a word of 64 bits (`WordAt`) to be read there, said
without the readers. Each relates the text before it to the text behind it. A character of a string may be written in
four ways (`Quoted.Stands`), a word in one only.
-/
namespace RecordLayout.Json
open Reader

variable {c : Char} {cs rest : List Char}

/-- Past blanks comes this character, and then `rest`. -/
def Token (c : Char) (cs rest : List Char) : Prop := dropBlanks cs = c :: rest

theorem length_dropBlanks (cs : List Char) : (dropBlanks cs).length ≤ cs.length :=
  (List.dropWhile_sublist _).length_le

theorem dropBlanks_dropBlanks (cs : List Char) : dropBlanks (dropBlanks cs) = dropBlanks cs :=
  List.dropWhile_idempotent _ _

theorem Token.length_lt (token : Token c cs rest) : rest.length < cs.length := by
  have shorter := length_dropBlanks cs
  rw [token, List.length_cons] at shorter
  omega

theorem token_dropBlanks : Token c (dropBlanks cs) rest ↔ Token c cs rest := by
  rw [Token, dropBlanks_dropBlanks, Token]

theorem expect_cons_eq_ok_iff : expect c cs = .ok ((), rest) ↔ cs = c :: rest := by
  cases cs with
  | nil => simp [expect]
  | cons d more => by_cases same : d = c <;> simp [expect, same]

theorem word_eq_ok_iff {w : List Char} : word w cs = .ok ((), rest) ↔ cs = w ++ rest := by
  induction w generalizing cs with
  | nil => simp [word]
  | cons c w ih =>
    cases cs with
    | nil => simp [word]
    | cons d more => by_cases same : d = c <;> simp [word, same, ih]

theorem expect_eq_ok_iff : expect c (dropBlanks cs) = .ok ((), rest) ↔ Token c cs rest := expect_cons_eq_ok_iff

theorem colon_eq_ok_iff : colon cs = .ok ((), rest) ↔ Token ':' cs rest := expect_eq_ok_iff

/-! ## Strings -/

namespace Quoted

/-- This character stands in front: as itself, by the letter that escapes it, by its number, or by the numbers of two
surrogates. -/
inductive Stands : Char → List Char → List Char → Prop
  | raw {c : Char} {rest : List Char} (plain : c ≠ '"' ∧ c ≠ '\\' ∧ 32 ≤ c.toNat) : Stands c (c :: rest) rest
  | lettered {letter c : Char} {rest : List Char} (named : lettered? letter = some c) :
      Stands c ('\\' :: letter :: rest) rest
  | numbered {n : Nat} {cs rest : List Char} (number : fourDigits cs = .ok (n, rest))
      (alone : isTrailing n = false ∧ isLeading n = false) : Stands (Char.ofNat n) ('\\' :: 'u' :: cs) rest
  | paired {n m : Nat} {cs more rest : List Char} (leading : fourDigits cs = .ok (n, '\\' :: 'u' :: more))
      (trailing : fourDigits more = .ok (m, rest)) (pair : isLeading n = true ∧ isTrailing m = true) :
      Stands (paired n m) ('\\' :: 'u' :: cs) rest

/-- These characters stand in front one after the other, and then the closing quote. -/
inductive Spells : List Char → List Char → List Char → Prop
  | nil {rest : List Char} : Spells [] ('"' :: rest) rest
  | cons {c : Char} {s cs mid rest : List Char} (here : Stands c cs mid) (more : Spells s mid rest) :
      Spells (c :: s) cs rest

theorem fourDigits_suffix {n : Nat} (read : fourDigits cs = .ok (n, rest)) : rest <:+ cs := by
  unfold fourDigits at read
  split at read
  · split at read
    · cases read
      exact ⟨[_, _, _, _], rfl⟩
    · cases read
  · cases read

theorem Stands.length_lt (stands : Stands c cs rest) : rest.length < cs.length := by
  cases stands with
  | raw plain => exact Nat.lt_succ_self _
  | lettered named =>
    simp only [List.length_cons]
    omega
  | numbered number alone =>
    have digits := (fourDigits_suffix number).length_le
    simp only [List.length_cons]
    omega
  | paired leading trailing pair =>
    have first := (fourDigits_suffix leading).length_le
    have second := (fourDigits_suffix trailing).length_le
    simp only [List.length_cons] at first ⊢
    omega

theorem Spells.length_lt {s : List Char} (spells : Spells s cs rest) : rest.length < cs.length := by
  induction spells with
  | nil => exact Nat.lt_succ_self _
  | cons here more ih => exact Nat.lt_trans ih here.length_lt

/-- A number that is no trailing surrogate stands for itself, or with a second one for a pair. -/
theorem numbered_eq_ok_iff : numbered cs = .ok (c, rest) ↔ Stands c ('\\' :: 'u' :: cs) rest := by
  constructor
  · intro read
    obtain ⟨n, mid, number, read⟩ := bind_eq_ok.1 read
    split_ifs at read with trailing leading
    · cases read
    · obtain ⟨_, _, slash, behindSlash⟩ := bind_eq_ok.1 read
      obtain ⟨_, _, letter, behindLetter⟩ := bind_eq_ok.1 behindSlash
      obtain ⟨m, _, second, pairs⟩ := bind_eq_ok.1 behindLetter
      rw [expect_cons_eq_ok_iff] at slash letter
      split_ifs at pairs with pair
      · obtain ⟨rfl, rfl⟩ := Prod.mk.inj (Except.ok.inj pairs)
        rw [slash, letter] at number
        exact .paired number second ⟨leading, pair⟩
      · cases pairs
    · cases read
      exact .numbered number ⟨Bool.eq_false_iff.2 trailing, Bool.eq_false_iff.2 leading⟩
  · intro stands
    cases stands with
    | raw plain => exact absurd rfl plain.2.1
    | lettered named => cases named
    | numbered number alone =>
      refine (bind_ok number).trans ?_
      rw [alone.1, alone.2]
      rfl
    | @paired n m _ more _ leading trailing pair =>
      have single : isTrailing n = false := by
        have high := pair.1
        simp only [isLeading, isTrailing, Bool.and_eq_true, decide_eq_true_eq, Bool.and_eq_false_iff,
          decide_eq_false_iff_not] at high ⊢
        omega
      have slash : expect '\\' ('\\' :: 'u' :: more) = .ok ((), 'u' :: more) := rfl
      have letter : expect 'u' ('u' :: more) = .ok ((), more) := rfl
      refine (bind_ok leading).trans ?_
      rw [single, pair.1]
      refine (bind_ok slash).trans ((bind_ok letter).trans ((bind_ok trailing).trans ?_))
      rw [pair.2]
      rfl

theorem escape_eq_ok_iff : escape cs = .ok (c, rest) ↔ Stands c ('\\' :: cs) rest := by
  constructor
  · intro read
    unfold escape at read
    split at read
    · cases read
    · next letter more =>
      split_ifs at read with number
      · rw [number]
        exact numbered_eq_ok_iff.1 read
      · split at read
        · next named =>
          cases read
          exact .lettered named
        · cases read
  · intro stands
    cases stands with
    | raw plain => exact absurd rfl plain.2.1
    | @lettered letter _ _ named =>
      have plain : letter ≠ 'u' := by
        rintro rfl
        cases named
      rw [escape, if_neg plain, named]
    | numbered number alone => exact numbered_eq_ok_iff.2 (.numbered number alone)
    | paired leading trailing pair => exact numbered_eq_ok_iff.2 (.paired leading trailing pair)

theorem next?_eq_none_iff : next? cs = .ok (none, rest) ↔ cs = '"' :: rest := by
  constructor
  · intro read
    unfold next? at read
    split at read
    · cases read
    · split_ifs at read with quote slash control
      · cases read
        rw [quote]
      · obtain ⟨_, -, same⟩ := map_eq_ok.1 read
        cases same
      · cases read
  · rintro rfl
    rfl

theorem next?_eq_some_iff : next? cs = .ok (some c, rest) ↔ Stands c cs rest := by
  constructor
  · intro read
    unfold next? at read
    split at read
    · cases read
    · next d more =>
      split_ifs at read with quote slash control
      · cases read
      · obtain ⟨_, escaped, same⟩ := map_eq_ok.1 read
        cases same
        rw [slash]
        exact escape_eq_ok_iff.1 escaped
      · cases read
        exact .raw ⟨quote, slash, Nat.le_of_not_lt control⟩
  · intro stands
    cases cs with
    | nil => cases stands
    | cons d more =>
      by_cases slash : d = '\\'
      · rw [slash] at stands ⊢
        exact map_ok (escape_eq_ok_iff.2 stands)
      · cases stands with
        | raw plain =>
          obtain ⟨quote, slash, printed⟩ := plain
          rw [next?, if_neg quote, if_neg slash, if_neg (Nat.not_lt.2 printed)]
        | _ => exact absurd rfl slash

/-- One round of `text`. -/
def textRound (acc : List Char) : Reader (List Char ⊕ String) := do
  match ← next? with
  | some c => return .inl (c :: acc)
  | none => return .inr (String.ofList acc.reverse)

theorem text_eq_loop : text = loop textRound [] := rfl

theorem spells_of_rounds {left acc : List Char} {s : String} (run : loop.go textRound left acc cs = .ok (s, rest)) :
    ∃ t, Spells t cs rest ∧ s = String.ofList (acc.reverse ++ t) := by
  refine loop_go_induction (P := fun acc cs => ∃ t, Spells t cs rest ∧ s = String.ofList (acc.reverse ++ t)) ?_ ?_ run
  · intro acc cs done
    obtain ⟨_ | c, mid, read, done⟩ := bind_eq_ok.1 done
    · cases done
      cases next?_eq_none_iff.1 read
      exact ⟨[], .nil, by rw [List.append_nil]⟩
    · cases done
  · rintro acc cs acc' mid round ⟨t, spells, rfl⟩
    obtain ⟨_ | c, _, read, round⟩ := bind_eq_ok.1 round
    · cases round
    · cases round
      exact ⟨c :: t, .cons (next?_eq_some_iff.1 read) spells, by simp⟩

theorem Spells.rounds {t : List Char} (spells : Spells t cs rest) (acc : List Char) :
    Rounds textRound acc cs (String.ofList (acc.reverse ++ t)) rest := by
  induction spells generalizing acc with
  | nil =>
    rw [List.append_nil]
    exact .last rfl
  | @cons c s _ _ _ here more ih =>
    have later := ih (c :: acc)
    rw [List.reverse_cons, List.append_assoc, List.singleton_append] at later
    exact .next (bind_ok (next?_eq_some_iff.2 here)) here.length_lt later

/-- A string is read just where its characters are spelled, in whatever ways. -/
theorem text_eq_ok_iff {s : String} : text cs = .ok (s, rest) ↔ Spells s.toList cs rest := by
  rw [text_eq_loop]
  constructor
  · intro read
    obtain ⟨t, spells, rfl⟩ := spells_of_rounds read
    rwa [List.reverse_nil, List.nil_append, String.toList_ofList]
  · intro spells
    have read := (spells.rounds []).loop_eq
    rwa [List.reverse_nil, List.nil_append, String.ofList_toList] at read

end Quoted

/-- A string stands between quotes. -/
def TextAt (s : String) (cs rest : List Char) : Prop := ∃ more, Token '"' cs more ∧ Quoted.Spells s.toList more rest

theorem readText_iff_textAt {s : String} : readText cs = .ok (s, rest) ↔ TextAt s cs rest := by
  simp only [readText_eq_ok_iff, Quoted.text_eq_ok_iff]
  rfl

def NullAt (cs rest : List Char) : Prop := dropBlanks cs = 'n' :: 'u' :: 'l' :: 'l' :: rest

theorem NullAt.length_lt (null : NullAt cs rest) : rest.length < cs.length := by
  have shorter := length_dropBlanks cs
  rw [null] at shorter
  simp only [List.length_cons] at shorter
  omega

theorem readNull_eq_ok_iff : readNull cs = .ok ((), rest) ↔ NullAt cs rest := by
  constructor
  · intro read
    unfold readNull at read
    split at read
    · next more front =>
      rw [word_eq_ok_iff.1 read] at front
      exact front
    · exact absurd read misshapen_ne_ok
  · intro null
    unfold readNull
    rw [null]
    rfl

/-! ## Words -/

namespace Numeral

theorem decimalValue_append (ds : List Char) (d : Char) :
    Text.decimalValue (ds ++ [d]) = 10 * Text.decimalValue ds + (d.toNat - 48) := by
  rw [Text.decimalValue, List.foldl_append, Nat.mul_comm]
  rfl

theorem digitChar_of_isDigit {d : Char} (digit : d.isDigit = true) :
    d.toNat - 48 < 10 ∧ Nat.digitChar (d.toNat - 48) = d := by
  have chars : ∀ m : Fin 10, Nat.digitChar m.1 = Char.ofNat (48 + m.1) := by decide
  obtain ⟨low, high⟩ : 48 ≤ d.toNat ∧ d.toNat ≤ 57 := Char.isDigit_iff_toNat.1 digit
  have small : d.toNat - 48 < 10 := by omega
  refine ⟨small, (chars ⟨d.toNat - 48, small⟩).trans ?_⟩
  rw [Nat.add_sub_cancel' low, Char.ofNat_toNat]

/-- Digits without a zero ahead are how their number is written. -/
theorem Leading.toDigits {ds : List Char} (leading : Leading ds) : Nat.toDigits 10 (Text.decimalValue ds) = ds := by
  induction ds using List.reverseRecOn with
  | nil => exact absurd rfl leading.nonempty
  | append_singleton init d ih =>
    obtain ⟨small, char⟩ := digitChar_of_isDigit (leading.digits d (List.mem_append_right _ List.mem_cons_self))
    rw [decimalValue_append]
    cases init with
    | nil =>
      have single : Nat.toDigits 10 (d.toNat - 48) = [d] := by rw [Nat.toDigits_of_lt_base small, char]
      simpa [Text.decimalValue] using single
    | cons c tail =>
      have nonzero : c ≠ '0' := by
        intro zero
        have none := leading.plain c (tail ++ [d]) rfl zero
        simp at none
      have written := ih
        ⟨List.cons_ne_nil c tail, fun e mem => leading.digits e (List.mem_append_left _ mem),
          fun _ _ split zero => absurd ((List.cons.inj split).1.trans zero) nonzero⟩
      have positive : 0 < Text.decimalValue (c :: tail) := by
        refine Nat.pos_of_ne_zero fun zero => nonzero ?_
        rw [zero, Nat.toDigits_zero] at written
        exact (List.cons.inj written).1.symm
      rw [← Nat.toDigits_append_toDigits (by decide) positive small, written, Nat.toDigits_of_lt_base small, char]

/-! What is read in front, if it is an integer without a sign. -/

theorem integer?_eq_natCast {x : Numeral} {k : Nat} (integer : x.integer? = some (k : Int)) :
    x.fraction = none ∧ x.exponent = none ∧ x.negative = false ∧ Text.decimalValue x.whole = k := by
  unfold integer? at integer
  dsimp only at integer
  split_ifs at integer with plain negative range range
  · have same := Option.some.inj integer
    omega
  · rw [Bool.and_eq_true, Option.isNone_iff_eq_none, Option.isNone_iff_eq_none] at plain
    have same := Option.some.inj integer
    exact ⟨plain.1, plain.2, Bool.eq_false_iff.2 negative, Int.ofNat_inj.1 same⟩

section Read

variable {mid ds : List Char} {cut : Fault}

theorem digits_eq_ok (read : digits cut cs = .ok (ds, mid)) :
    cs = ds ++ mid ∧ ds ≠ [] ∧ (∀ d ∈ ds, d.isDigit = true) ∧ ∀ c ∈ mid.head?, c.isDigit = false := by
  cases cs with
  | nil => cases read
  | cons c more =>
    unfold digits at read
    dsimp only at read
    split_ifs at read with digit
    cases read
    refine ⟨by rw [List.cons_append, List.takeWhile_append_dropWhile], List.cons_ne_nil _ _, ?_, ?_⟩
    · intro d mem
      rcases List.mem_cons.1 mem with rfl | later
      · exact digit
      · exact List.mem_takeWhile_imp later
    · intro d head
      have stop := List.head?_dropWhile_not Char.isDigit more
      rw [head] at stop
      exact stop

theorem wholeDigits_eq_ok (read : wholeDigits cut cs = .ok (ds, mid)) :
    cs = ds ++ mid ∧ Leading ds ∧ ∀ c ∈ mid.head?, c.isDigit = false := by
  unfold wholeDigits at read
  split at read
  · next d more =>
    split_ifs at read with digit
    cases read
    refine ⟨rfl, ⟨by decide, List.forall_mem_singleton.2 rfl, ?_⟩, ?_⟩
    · rintro c tail ⟨⟩ -
      rfl
    · rintro c ⟨⟩
      exact Bool.eq_false_iff.2 digit
  · next plain =>
    obtain ⟨split, nonempty, digits, stop⟩ := digits_eq_ok read
    refine ⟨split, ⟨nonempty, digits, ?_⟩, stop⟩
    rintro c tail rfl rfl
    cases tail with
    | nil => rfl
    | cons d tail => exact absurd split (plain d (tail ++ mid))

theorem fractionDigits_eq_none (read : fractionDigits cut cs = .ok (none, mid)) : mid = cs ∧ cs.head? ≠ some '.' := by
  unfold fractionDigits at read
  split at read
  · obtain ⟨_, -, same⟩ := map_eq_ok.1 read
    cases same
  · next plain =>
    cases read
    refine ⟨rfl, fun head => ?_⟩
    obtain ⟨tail, rfl⟩ := List.head?_eq_some_iff.1 head
    exact plain tail rfl

theorem exponentPart_eq_none (read : exponentPart cut cs = .ok (none, mid)) :
    mid = cs ∧ cs.head? ≠ some 'e' ∧ cs.head? ≠ some 'E' := by
  cases cs with
  | nil =>
    cases read
    exact ⟨rfl, nofun, nofun⟩
  | cons c more =>
    unfold exponentPart at read
    dsimp only at read
    split_ifs at read with letter
    · obtain ⟨_, _, -, read⟩ := bind_eq_ok.1 read
      obtain ⟨_, _, -, read⟩ := bind_eq_ok.1 read
      cases read
    · cases read
      simpa using letter

theorem read_eq_plain {x : Numeral} (read : Numeral.read cut cs = .ok (x, rest)) (whole : x.fraction = none)
    (unscaled : x.exponent = none) (unsigned : x.negative = false) :
    cs = x.whole ++ rest ∧ Leading x.whole ∧ EndsAt rest := by
  obtain ⟨negative, _, signed, read⟩ := bind_eq_ok.1 read
  obtain ⟨ds, _, digits, read⟩ := bind_eq_ok.1 read
  obtain ⟨fraction, _, fractional, read⟩ := bind_eq_ok.1 read
  obtain ⟨exponent, _, scaled, read⟩ := bind_eq_ok.1 read
  cases read
  dsimp only at whole unscaled unsigned ⊢
  subst whole unscaled unsigned
  obtain ⟨rfl, small, capital⟩ := exponentPart_eq_none scaled
  obtain ⟨rfl, point⟩ := fractionDigits_eq_none fractional
  obtain ⟨rfl, leading, stop⟩ := wholeDigits_eq_ok digits
  have same : cs = ds ++ rest := by
    unfold sign at signed
    split at signed
    · cases signed
    · cases signed
      rfl
  refine ⟨same, leading, fun c head => ⟨stop c head, ?_, ?_, ?_⟩⟩
  · rintro rfl
    exact point head
  · rintro rfl
    exact small head
  · rintro rfl
    exact capital head

end Read
end Numeral

theorem word64?_eq_some_iff {v : Value} {n : UInt64} : word64? v = some n ↔ v = .ofWord n := by
  constructor
  · intro word
    cases v with
    | integer k =>
      unfold word64? at word
      dsimp only at word
      split_ifs at word with range
      cases word
      have small : k.toNat < UInt64.size := by omega
      rw [Value.ofWord, UInt64.toNat_ofNat_of_lt' small, Int.toNat_of_nonneg range.1]
    | _ => cases word
  · rintro rfl
    exact word64?_ofWord n

/-- A word stands in decimal digits, and the number ends behind them. -/
def WordAt (n : UInt64) (cs rest : List Char) : Prop :=
  dropBlanks cs = Nat.toDigits 10 n.toNat ++ rest ∧ Numeral.EndsAt rest

theorem number_eq_word {n : UInt64} (read : number cs = .ok (.ofWord n, rest)) :
    cs = Nat.toDigits 10 n.toNat ++ rest ∧ Numeral.EndsAt rest := by
  obtain ⟨x, _, numeral, made⟩ := bind_eq_ok.1 read
  cases integer : x.integer? with
  | none =>
    rw [integer] at made
    dsimp only at made
    split_ifs at made
    · cases made
    · cases made
  | some k =>
    rw [integer] at made
    obtain ⟨same, rfl⟩ := Prod.mk.inj (Except.ok.inj made)
    obtain rfl : k = (n.toNat : Int) := Value.integer.inj same
    obtain ⟨whole, unscaled, unsigned, value⟩ := Numeral.integer?_eq_natCast integer
    obtain ⟨split, leading, ends⟩ := Numeral.read_eq_plain numeral whole unscaled unsigned
    rw [← value, leading.toDigits]
    exact ⟨split, ends⟩

theorem readWord64_eq_ok_iff {n : UInt64} : readWord64 cs = .ok (n, rest) ↔ WordAt n cs rest := by
  constructor
  · intro read
    unfold readWord64 at read
    split at read
    · cases read
    · next c more front =>
      split_ifs at read with starts
      · obtain ⟨v, _, numeral, read⟩ := bind_eq_ok.1 read
        cases word : word64? v with
        | none =>
          rw [word] at read
          cases read
        | some m =>
          rw [word] at read
          cases read
          rw [word64?_eq_some_iff] at word
          subst word
          rw [← front] at numeral
          exact number_eq_word numeral
      · exact absurd read misshapen_ne_ok
  · rintro ⟨front, ends⟩
    obtain ⟨c, tail, split, -, starts⟩ := writeInteger_eq_cons n.toNat rest
    have visible : (decide (c = '-') || c.isDigit) = true := by simpa [Numeral.Starts] using starts
    have read : number (c :: tail) = .ok (.ofWord n, rest) := by
      rw [← split]
      exact number_writeInteger (fits_toNat n) ends
    have digits : dropBlanks cs = c :: tail := front.trans split
    unfold readWord64
    rw [digits]
    dsimp only
    rw [if_pos visible]
    refine (bind_ok read).trans ?_
    rw [word64?_ofWord]
    rfl

theorem readWord64_write (hex : HexCase) (n : UInt64) : Reads readWord64 hex (.ofWord n) n := by
  intro rest ends
  refine readWord64_eq_ok_iff.2 ⟨?_, ends⟩
  obtain ⟨c, more, split, -, starts⟩ := writeInteger_eq_cons n.toNat rest
  have digits : (Value.ofWord n).write hex rest = c :: more := split
  rw [digits, dropBlanks_cons starts.visible]
  exact split.symm

end RecordLayout.Json
