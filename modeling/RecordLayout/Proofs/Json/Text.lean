import RecordLayout.Json.Document
import RecordLayout.Json.Writer

/-!
# Strings that were written

Readers after each other, the rounds of a loop (`Rounds`), loops that go through a text side by side
(`loop_go_follows`), and what readers make of a written string: reading it gives it back and leaves what stands
behind it (`text_escaped`).
-/
namespace RecordLayout.Json

namespace Reader

variable {α β γ σ τ : Type}

theorem bind_ok {r : Reader α} {f : α → Reader β} {cs rest : List Char} {a : α} (h : r cs = .ok (a, rest)) :
    (r >>= f) cs = f a rest := by
  change (r cs >>= fun x => f x.1 x.2) = f a rest
  rw [h]
  rfl

theorem map_ok {r : Reader α} {f : α → β} {cs rest : List Char} {a : α} (h : r cs = .ok (a, rest)) :
    (f <$> r) cs = .ok (f a, rest) := by
  change (r cs >>= fun x => .ok (f x.1, x.2)) = .ok (f a, rest)
  rw [h]
  rfl

theorem bind_eq_ok {r : Reader α} {f : α → Reader β} {cs rest : List Char} {b : β} :
    (r >>= f) cs = .ok (b, rest) ↔ ∃ a mid, r cs = .ok (a, mid) ∧ f a mid = .ok (b, rest) := by
  change (r cs >>= fun x => f x.1 x.2) = .ok (b, rest) ↔ _
  cases r cs with
  | error e => simp [bind, Except.bind]
  | ok x =>
    obtain ⟨a, mid⟩ := x
    constructor
    · exact fun run => ⟨a, mid, rfl, run⟩
    · rintro ⟨a', mid', same, run⟩
      cases same
      exact run

theorem map_eq_ok {r : Reader α} {f : α → β} {cs rest : List Char} {b : β} :
    (f <$> r) cs = .ok (b, rest) ↔ ∃ a, r cs = .ok (a, rest) ∧ f a = b := by
  change (r cs >>= fun x => .ok (f x.1, x.2)) = .ok (b, rest) ↔ _
  cases r cs with
  | error e => simp [bind, Except.bind]
  | ok x =>
    obtain ⟨a, mid⟩ := x
    constructor
    · intro run
      cases run
      exact ⟨a, rfl, rfl⟩
    · rintro ⟨a', same, rfl⟩
      cases same
      rfl

theorem whole_eq_ok {r : Reader α} {text : String} {a : α} :
    whole r text = .ok a ↔ ∃ rest, r text.toList = .ok (a, rest) ∧ dropBlanks rest = [] := by
  unfold whole
  cases r text.toList with
  | error f => simp
  | ok x =>
    obtain ⟨b, rest⟩ := x
    by_cases blank : dropBlanks rest = []
    · dsimp only
      rw [if_pos blank]
      constructor
      · intro read
        cases read
        exact ⟨rest, rfl, blank⟩
      · rintro ⟨_, same, -⟩
        cases same
        rfl
    · simp [blank]

theorem dropBlanks_cons {c : Char} (visible : isBlank c = false) (cs : List Char) : dropBlanks (c :: cs) = c :: cs := by
  rw [dropBlanks, List.dropWhile_cons, visible, if_neg Bool.false_ne_true]

/-- A loop over `step` gets from state `s` and text `cs` to `b` and `rest`, each round but the last taking
something off the text. -/
inductive Rounds (step : σ → Reader (σ ⊕ β)) : σ → List Char → β → List Char → Prop
  | last {s : σ} {cs rest : List Char} {b : β} (done : step s cs = .ok (.inr b, rest)) : Rounds step s cs b rest
  | next {s t : σ} {cs mid rest : List Char} {b : β} (round : step s cs = .ok (.inl t, mid))
      (shorter : mid.length < cs.length) (more : Rounds step t mid b rest) : Rounds step s cs b rest

theorem Rounds.loop_go {step : σ → Reader (σ ⊕ β)} {s : σ} {cs rest : List Char} {b : β}
    (h : Rounds step s cs b rest) {left : List Char} (enough : cs.length ≤ left.length) :
    loop.go step left s cs = .ok (b, rest) := by
  induction h generalizing left with
  | last done =>
    unfold loop.go
    rw [done]
  | next round shorter more ih =>
    cases left with
    | nil =>
      simp only [List.length_nil] at enough
      omega
    | cons c left =>
      simp only [List.length_cons] at enough
      unfold loop.go
      rw [round]
      exact ih (by omega)

theorem Rounds.loop_eq {step : σ → Reader (σ ⊕ β)} {s : σ} {cs rest : List Char} {b : β}
    (h : Rounds step s cs b rest) : loop step s cs = .ok (b, rest) :=
  h.loop_go (Nat.le_refl cs.length)

/-- A loop ends with this round, or goes on from it with one round less to go. -/
theorem loop_go_eq_ok {step : σ → Reader (σ ⊕ β)} {left : List Char} {s : σ} {cs rest : List Char} {b : β} :
    loop.go step left s cs = .ok (b, rest) ↔ step s cs = .ok (.inr b, rest) ∨
      ∃ c more t mid, left = c :: more ∧ step s cs = .ok (.inl t, mid) ∧ loop.go step more t mid = .ok (b, rest) := by
  rw [loop.go]
  rcases step s cs with f | ⟨t | b', mid⟩
  · simp
  · cases left with
    | nil => simp
    | cons c more =>
      constructor
      · exact fun run => .inr ⟨c, more, t, mid, rfl, rfl, run⟩
      · rintro (done | ⟨_, _, _, _, same, round, run⟩)
        · cases done
        · cases same
          cases round
          exact run
  · simp

/-- What holds where a loop ends, and before a round if it holds after it, holds where the loop started. -/
theorem loop_go_induction {step : σ → Reader (σ ⊕ β)} {b : β} {rest : List Char} {P : σ → List Char → Prop}
    (last : ∀ s cs, step s cs = .ok (.inr b, rest) → P s cs)
    (next : ∀ s cs t mid, step s cs = .ok (.inl t, mid) → P t mid → P s cs)
    {left : List Char} {s : σ} {cs : List Char} (run : loop.go step left s cs = .ok (b, rest)) : P s cs := by
  induction left generalizing s cs with
  | nil =>
    rcases loop_go_eq_ok.1 run with done | ⟨_, _, _, _, same, -, -⟩
    · exact last s cs done
    · cases same
  | cons c left ih =>
    rcases loop_go_eq_ok.1 run with done | ⟨_, _, t, mid, same, round, more⟩
    · exact last s cs done
    · cases same
      exact next s cs t mid round (ih more)

/-- A loop keeps up with another whose rounds it can do, from related states and on the same text. What the other loop
ends with is known at each of them. -/
theorem loop_go_follows {step : σ → Reader (σ ⊕ β)} {step' : τ → Reader (τ ⊕ γ)} {b : β} {rest : List Char}
    (R : σ → τ → Prop) (Q : β → γ → Prop)
    (last : ∀ s t cs, R s t → step s cs = .ok (.inr b, rest) → ∃ c, step' t cs = .ok (.inr c, rest) ∧ Q b c)
    (next : ∀ s t cs s' mid left, R s t → step s cs = .ok (.inl s', mid) → loop.go step left s' mid = .ok (b, rest) →
      ∃ t', step' t cs = .ok (.inl t', mid) ∧ R s' t')
    {left : List Char} {s : σ} {t : τ} {cs : List Char} (related : R s t)
    (run : loop.go step left s cs = .ok (b, rest)) : ∃ c, loop.go step' left t cs = .ok (c, rest) ∧ Q b c := by
  induction left generalizing s t cs with
  | nil =>
    rcases loop_go_eq_ok.1 run with done | ⟨_, _, _, _, same, -, -⟩
    · obtain ⟨c, done', good⟩ := last s t cs related done
      exact ⟨c, loop_go_eq_ok.2 (.inl done'), good⟩
    · cases same
  | cons a left ih =>
    rcases loop_go_eq_ok.1 run with done | ⟨_, _, s', mid, same, round, run⟩
    · obtain ⟨c, done', good⟩ := last s t cs related done
      exact ⟨c, loop_go_eq_ok.2 (.inl done'), good⟩
    · cases same
      obtain ⟨t', round', related'⟩ := next s t cs s' mid left related round run
      obtain ⟨c, run', good⟩ := ih related' run
      exact ⟨c, loop_go_eq_ok.2 (.inr ⟨a, left, t', mid, rfl, round', run'⟩), good⟩

/-- A loop that reads one item a round onto a list has all of them, in their order, at the end. -/
theorem Rounds.collect {step : σ → Reader (σ ⊕ β)} {rest : List Char} {all : List γ}
    (state : List γ → σ) (finish : List γ → β) (text : Bool → List γ → List Char)
    (last : ∀ acc, step (state acc) (text acc.isEmpty []) = .ok (.inr (finish acc.reverse), rest))
    (next : ∀ acc, ∀ a ∈ all, ∀ more,
      step (state acc) (text acc.isEmpty (a :: more)) = .ok (.inl (state (a :: acc)), text false more))
    (shorter : ∀ first a more, (text false more).length < (text first (a :: more)).length) :
    Rounds step (state []) (text true all) (finish all) rest := by
  -- What has been read stands in reverse in the state, so the induction is on the items that are left.
  have rounds : ∀ (left acc : List γ), (∀ a ∈ left, a ∈ all) →
      Rounds step (state acc) (text acc.isEmpty left) (finish (acc.reverse ++ left)) rest := by
    intro left
    induction left with
    | nil =>
      intro acc _
      rw [List.append_nil]
      exact .last (last acc)
    | cons a left ih =>
      intro acc within
      have more := ih (a :: acc) fun b mem => within b (List.mem_cons_of_mem a mem)
      rw [List.reverse_cons, List.append_assoc, List.singleton_append] at more
      exact .next (next acc a (within a List.mem_cons_self) left) (shorter _ a left) more
  exact rounds all [] fun a mem => mem

end Reader

namespace Quoted
open Reader

theorem hexDigit?_digit (hex : HexCase) {n : Nat} (small : n < 16) : hexDigit? (hex.digit n) = some n := by
  have digits : ∀ m : Fin 16, hexDigit? (hex.digit m.1) = some m.1 := by
    cases hex <;> decide
  exact digits ⟨n, small⟩

/-- A control has no short form that names a letter of its own; it is written by its number. -/
theorem numbered_digits (hex : HexCase) {c : Char} (control : c.toNat < 32) (rest : List Char) :
    numbered ('0' :: '0' :: hex.digit (c.toNat / 16) :: hex.digit (c.toNat % 16) :: rest) = .ok (c, rest) := by
  have read : fourDigits ('0' :: '0' :: hex.digit (c.toNat / 16) :: hex.digit (c.toNat % 16) :: rest) =
      .ok (c.toNat, rest) := by
    have zero : hexDigit? '0' = some 0 := by decide
    have high : c.toNat / 16 < 16 := by omega
    have low : c.toNat % 16 < 16 := Nat.mod_lt _ (by decide)
    have whole : ((0 * 16 + 0) * 16 + c.toNat / 16) * 16 + c.toNat % 16 = c.toNat := by omega
    simp only [fourDigits, zero, hexDigit?_digit hex high, hexDigit?_digit hex low, whole]
  have unpaired : isTrailing c.toNat = false ∧ isLeading c.toNat = false := by
    simp only [isTrailing, isLeading, Bool.and_eq_false_iff, decide_eq_false_iff_not]
    omega
  rw [numbered, bind_ok read, unpaired.1, unpaired.2]
  simp only [Bool.false_eq_true, if_false, Char.ofNat_toNat]
  rfl

theorem next?_escaped (hex : HexCase) (c : Char) (rest : List Char) :
    next? (escaped hex c ++ rest) = .ok (some c, rest) := by
  unfold escaped
  split
  iterate 7 rfl
  · next quote backslash _ _ _ _ _ =>
    split
    · next control =>
      have escape_read : escape ('u' :: '0' :: '0' :: hex.digit (c.toNat / 16) :: hex.digit (c.toNat % 16) :: rest) =
          .ok (c, rest) := numbered_digits hex control rest
      exact map_ok escape_read
    · next printed =>
      rw [List.singleton_append, next?, if_neg quote, if_neg backslash, if_neg printed]

theorem length_escaped_pos (hex : HexCase) (c : Char) : 0 < (escaped hex c).length := by
  unfold escaped
  split
  iterate 7 exact Nat.succ_pos _
  · split <;> exact Nat.succ_pos _

/-- Reading a written string gives it back. -/
theorem text_escaped (hex : HexCase) (s : String) (rest : List Char) :
    text (s.toList.flatMap (escaped hex) ++ '"' :: rest) = .ok (s, rest) := by
  have all : text (s.toList.flatMap (escaped hex) ++ '"' :: rest) = .ok (String.ofList s.toList, rest) := by
    refine (Rounds.collect id String.ofList (fun _ cs => cs.flatMap (escaped hex) ++ '"' :: rest) ?_ ?_ ?_).loop_eq
    · exact fun _ => rfl
    · intro acc c _ more
      simp only [List.flatMap_cons, List.append_assoc]
      exact bind_ok (next?_escaped hex c _)
    · intro _ c more
      have positive := length_escaped_pos hex c
      simp only [List.flatMap_cons, List.append_assoc, List.length_append]
      omega
  rwa [String.ofList_toList] at all

end Quoted
end RecordLayout.Json
