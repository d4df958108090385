import Mathlib
import RecordLayout.Proofs.Json.Tokens

/-!
# What is passed over

A value that nobody looks at is skipped. Skipping takes something off the front of a text and adds nothing
(`trims_skip`): the readers it is made of all do so (`Reader.Trims`), and a loop does if its rounds do.
-/
namespace RecordLayout.Json
open Reader

namespace Reader

variable {α β σ : Type}

/-- What the reader leaves is the end of what it was given. -/
def Trims (r : Reader α) : Prop := ∀ cs a rest, r cs = .ok (a, rest) → rest <:+ cs

theorem trims_pure (a : α) : Trims (pure a : Reader α) := by
  rintro cs b rest read
  cases read
  exact List.suffix_rfl

theorem Trims.bind {r : Reader α} {f : α → Reader β} (first : Trims r) (second : ∀ a, Trims (f a)) :
    Trims (r >>= f) := by
  intro cs b rest read
  obtain ⟨a, mid, read, more⟩ := bind_eq_ok.1 read
  exact (second a mid b rest more).trans (first cs a mid read)

theorem Trims.map {r : Reader α} (f : α → β) (trims : Trims r) : Trims (f <$> r) := by
  intro cs b rest read
  obtain ⟨a, read, -⟩ := map_eq_ok.1 read
  exact trims cs a rest read

theorem Trims.pastBlanks {r : Reader α} (trims : Trims r) : Trims fun cs => r (dropBlanks cs) :=
  fun _ a rest read => (trims _ a rest read).trans (List.dropWhile_suffix _)

theorem Trims.loop {step : σ → Reader (σ ⊕ β)} (trims : ∀ s, Trims (step s)) (s : σ) : Trims (loop step s) := by
  intro cs b rest run
  refine loop_go_induction (P := fun _ cs => rest <:+ cs) ?_ ?_ run
  · exact fun s cs done => trims s cs _ rest done
  · exact fun s cs t mid round more => more.trans (trims s cs _ mid round)

theorem trims_expect (c : Char) : Trims (expect c) := by
  intro cs a rest read
  rw [expect_cons_eq_ok_iff.1 read]
  exact List.suffix_cons c rest

theorem trims_word (w : List Char) : Trims (word w) := by
  intro cs a rest read
  rw [word_eq_ok_iff.1 read]
  exact List.suffix_append w rest

end Reader

namespace Quoted

theorem trims_fourDigits : Trims fourDigits := fun _ _ _ read => fourDigits_suffix read

theorem trims_skipNext : Trims skipNext := by
  intro cs b rest read
  unfold skipNext at read
  split at read
  · cases read
  · split_ifs at read
    · cases read
      exact List.suffix_cons _ _
    · split at read
      · cases read
      · split_ifs at read
        · exact ((trims_fourDigits.map _) _ _ _ read).trans ⟨[_, _], rfl⟩
        · cases read
          exact ⟨[_, _], rfl⟩
    · cases read
      exact List.suffix_cons _ _

theorem trims_skipText : Trims skipText :=
  Trims.loop (fun _ => trims_skipNext.bind fun _ => trims_pure _) ()

end Quoted

namespace Numeral

variable (cut : Fault)

theorem trims_sign : Trims sign := by
  intro cs b rest read
  unfold sign at read
  split at read <;> cases read
  · exact List.suffix_cons _ _
  · exact List.suffix_rfl

theorem trims_exponentSign : Trims exponentSign := by
  intro cs b rest read
  unfold exponentSign at read
  split at read <;> cases read
  · exact List.suffix_cons _ _
  · exact List.suffix_cons _ _
  · exact List.suffix_rfl

theorem trims_digits : Trims (digits cut) := by
  intro cs ds rest read
  rw [(digits_eq_ok read).1]
  exact List.suffix_append ds rest

theorem trims_wholeDigits : Trims (wholeDigits cut) := by
  intro cs ds rest read
  rw [(wholeDigits_eq_ok read).1]
  exact List.suffix_append ds rest

theorem trims_fractionDigits : Trims (fractionDigits cut) := by
  intro cs ds rest read
  unfold fractionDigits at read
  split at read
  · exact (((trims_digits cut).map _) _ _ _ read).trans (List.suffix_cons _ _)
  · cases read
    exact List.suffix_rfl

theorem trims_exponentPart : Trims (exponentPart cut) := by
  intro cs n rest read
  unfold exponentPart at read
  split at read
  · split_ifs at read
    · have part := trims_exponentSign.bind fun negative => (trims_digits cut).bind fun ds =>
        trims_pure (some (if negative then -(Text.decimalValue ds : Int) else Text.decimalValue ds))
      exact (part _ _ _ read).trans (List.suffix_cons _ _)
    · cases read
      exact List.suffix_rfl
  · cases read
    exact List.suffix_rfl

theorem trims_read : Trims (Numeral.read cut) :=
  trims_sign.bind fun _ => (trims_wholeDigits cut).bind fun _ => (trims_fractionDigits cut).bind fun _ =>
    (trims_exponentPart cut).bind fun _ => trims_pure _

end Numeral

namespace Skipping

variable {c : Char} {cs more : List Char}

theorem suffix_of_front (front : dropBlanks cs = c :: more) : more <:+ cs := by
  have here : more <:+ dropBlanks cs := front ▸ List.suffix_cons c more
  exact here.trans (List.dropWhile_suffix _)

theorem trims_skipValue (around : List Bracket) : Trims (skipValue around) := by
  intro cs a rest read
  unfold skipValue at read
  split at read
  · cases read
  · next c more front =>
    have inside := suffix_of_front front
    split_ifs at read
    · cases read
      exact inside
    · cases read
      exact inside
    · exact (((trims_word _).map _) _ _ _ read).trans inside
    · exact (((trims_word _).map _) _ _ _ read).trans inside
    · exact (((trims_word _).map _) _ _ _ read).trans inside
    · exact ((Quoted.trims_skipText.map _) _ _ _ read).trans inside
    · have number : Trims skipNumber := (Numeral.trims_read _).bind fun _ => trims_pure _
      rw [← front] at read
      exact (number.map _).pastBlanks _ _ _ read

theorem trims_skipKey : Trims skipKey :=
  (trims_expect '"').pastBlanks.bind fun _ => Quoted.trims_skipText.bind fun _ => (trims_expect ':').pastBlanks

theorem trims_member (around : List Bracket) : Trims (skipKey *> skipValue around) :=
  trims_skipKey.bind fun _ => trims_skipValue around

theorem trims_step (s : Skipping) : Trims s.step := by
  cases s with
  | value around => exact trims_skipValue around
  | opened b around =>
    intro cs a rest read
    unfold step at read
    dsimp only at read
    split at read
    · cases read
    · next c more front =>
      split_ifs at read
      · cases read
        exact suffix_of_front front
      · rw [← front] at read
        cases b with
        | square => exact (trims_skipValue _).pastBlanks _ _ _ read
        | curly => exact (trims_member _).pastBlanks _ _ _ read
  | after b around =>
    intro cs a rest read
    unfold step at read
    dsimp only at read
    split at read
    · cases read
    · next c more front =>
      have inside := suffix_of_front front
      split_ifs at read
      · cases read
        exact inside
      · cases b with
        | square => exact (trims_skipValue _ _ _ _ read).trans inside
        | curly => exact (trims_member _ _ _ _ read).trans inside

end Skipping

theorem trims_skip : Trims skip := Trims.loop Skipping.trims_step _

end RecordLayout.Json
