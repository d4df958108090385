import Mathlib
import RecordLayout.Dump
import RecordLayout.Proofs.Json.Text

/-!
# Declarations as values

A declaration is read from a text just if a value is read there that is one, with its kind given once
(`readDecl_eq_ok_iff`). Both readers go through the members in the same rounds; what one of them knows after a round,
the other does.
-/
namespace RecordLayout
open Json Reader

/-! ## Values -/

namespace Json

theorem misshapen_ne_ok {α : Type} {cs rest : List Char} {a : α} : misshapen cs ≠ .ok (a, rest) := by
  intro read
  unfold misshapen at read
  split at read
  · cases read
  · cases read
  · obtain ⟨_, _, -, failed⟩ := bind_eq_ok.1 read
    cases failed

theorem readText_eq_ok_iff {cs rest : List Char} {s : String} :
    readText cs = .ok (s, rest) ↔ ∃ more, dropBlanks cs = '"' :: more ∧ Quoted.text more = .ok (s, rest) := by
  unfold readText
  split
  · next more front =>
    refine ⟨fun read => ⟨more, front, read⟩, ?_⟩
    rintro ⟨more', front', read⟩
    cases front.symm.trans front'
    exact read
  · next front =>
    refine ⟨fun read => absurd read misshapen_ne_ok, ?_⟩
    rintro ⟨more, front', -⟩
    exact absurd front' (front more)

theorem number_eq_ok {cs rest : List Char} {v : Value} (read : number cs = .ok (v, rest)) :
    v = .real ∨ ∃ n, v = .integer n := by
  obtain ⟨x, mid, -, read⟩ := bind_eq_ok.1 read
  cases integer : x.integer? with
  | some n =>
    rw [integer] at read
    cases read
    exact .inr ⟨n, rfl⟩
  | none =>
    rw [integer] at read
    by_cases overflows : x.overflows
    · rw [if_pos overflows] at read
      cases read
    · rw [if_neg overflows] at read
      cases read
      exact .inl rfl

/-- A scalar is a string between quotes or neither a string nor an object. -/
theorem scalar_eq_ok {cs rest : List Char} {v : Value} (read : scalar cs = .ok (v, rest)) :
    (∃ more s, dropBlanks cs = '"' :: more ∧ Quoted.text more = .ok (s, rest) ∧ v = .string s) ∨
      (∀ s, v ≠ .string s) ∧ ∀ ms, v ≠ .object ms := by
  unfold scalar at read
  split at read
  · cases read
  · next c more front =>
    split_ifs at read with null yes no quote sign
    · obtain ⟨_, -, rfl⟩ := map_eq_ok.1 read
      exact .inr ⟨nofun, nofun⟩
    · obtain ⟨_, -, rfl⟩ := map_eq_ok.1 read
      exact .inr ⟨nofun, nofun⟩
    · obtain ⟨_, -, rfl⟩ := map_eq_ok.1 read
      exact .inr ⟨nofun, nofun⟩
    · obtain ⟨s, text, rfl⟩ := map_eq_ok.1 read
      exact .inl ⟨more, s, by rw [front, quote], text, rfl⟩
    · rcases number_eq_ok read with rfl | ⟨n, rfl⟩
      · exact .inr ⟨nofun, nofun⟩
      · exact .inr ⟨nofun, nofun⟩

theorem scalar_eq_string_iff {cs rest : List Char} {s : String} :
    scalar cs = .ok (.string s, rest) ↔ ∃ more, dropBlanks cs = '"' :: more ∧ Quoted.text more = .ok (s, rest) := by
  constructor
  · intro read
    rcases scalar_eq_ok read with ⟨more, s', front, read, same⟩ | ⟨none, -⟩
    · cases same
      exact ⟨more, front, read⟩
    · exact absurd rfl (none s)
  · rintro ⟨more, front, read⟩
    unfold scalar
    rw [front]
    exact map_ok read

theorem value_eq_string_iff {depth : Nat} {cs rest : List Char} {s : String} :
    value depth cs = .ok (.string s, rest) ↔
      ∃ more, dropBlanks cs = '"' :: more ∧ Quoted.text more = .ok (s, rest) := by
  have again : dropBlanks (dropBlanks cs) = dropBlanks cs := List.dropWhile_idempotent _ _
  have scalars : scalar (dropBlanks cs) = .ok (.string s, rest) ↔
      ∃ more, dropBlanks cs = '"' :: more ∧ Quoted.text more = .ok (s, rest) := by rw [scalar_eq_string_iff, again]
  cases depth with
  | zero =>
    simp only [value]
    split
    · next front => simp [front]
    · next front => simp [front]
    · exact scalars
  | succ depth =>
    simp only [value]
    split
    · next front => simp [front, map_eq_ok]
    · next front => simp [front, map_eq_ok]
    · exact scalars

theorem value_eq_object_iff {depth : Nat} {cs rest : List Char} {ms : List (String × Value)} :
    value depth cs = .ok (.object ms, rest) ↔
      ∃ n more, depth = n + 1 ∧ dropBlanks cs = '\x7b' :: more ∧ members (value n) more = .ok (ms, rest) := by
  have scalars : scalar (dropBlanks cs) ≠ .ok (.object ms, rest) := by
    intro read
    rcases scalar_eq_ok read with ⟨_, _, -, -, same⟩ | ⟨-, none⟩
    · cases same
    · exact none ms rfl
  cases depth with
  | zero =>
    simp only [value]
    split
    · simp
    · simp
    · simp [scalars]
  | succ n =>
    simp only [value]
    split
    · next front => simp [front, map_eq_ok]
    · next more front =>
      constructor
      · intro read
        obtain ⟨ms', read, same⟩ := map_eq_ok.1 read
        cases same
        exact ⟨n, more, rfl, front, read⟩
      · rintro ⟨n', more', same, front', read⟩
        cases same
        cases front.symm.trans front'
        exact map_ok read
    · next front =>
      refine ⟨fun read => absurd read scalars, ?_⟩
      rintro ⟨_, more, -, front', -⟩
      exact absurd front' (front more)

theorem readText_eq_ok_iff_value (depth : Nat) {cs rest : List Char} {s : String} :
    readText cs = .ok (s, rest) ↔ value depth cs = .ok (.string s, rest) := by
  rw [readText_eq_ok_iff, value_eq_string_iff]

theorem member?_filter (p : String → Bool) {key : String} (kept : p key = true) (ms : List (String × Value)) :
    member? key (ms.filter fun m => p m.1) = member? key ms := by
  induction ms with
  | nil => rfl
  | cons m ms ih =>
    obtain ⟨k, v⟩ := m
    by_cases keep : p k = true
    · rw [List.filter_cons, if_pos keep, member?, member?, ih]
    · have other : k ≠ key := fun same => keep (same ▸ kept)
      rw [List.filter_cons, if_neg keep, member?, ih, if_neg other, Option.or_none]

end Json

namespace Dump

/-! ## The kind and the other members -/

variable {ms others : List (String × Value)} {kind : Option String}

/-- Members split into the kind, given at most once and as a text, and the others. -/
structure Split (ms : List (String × Value)) (kind : Option String) (others : List (String × Value)) : Prop where
  kind : ms.filter (·.1 = "kind") = kind.toList.map fun s => ("kind", .string s)
  others : ms.filter (·.1 ≠ "kind") = others

theorem Split.nil : Split [] none [] := ⟨rfl, rfl⟩

theorem Split.consKind (split : Split ms none others) (s : String) :
    Split (("kind", .string s) :: ms) (some s) others := by
  refine ⟨?_, ?_⟩
  · rw [List.filter_cons_of_pos (by simp), split.kind]
    rfl
  · rw [List.filter_cons_of_neg (by simp), split.others]

theorem Split.consOther (split : Split ms kind others) {k : String} (other : k ≠ "kind") (v : Value) :
    Split ((k, v) :: ms) kind ((k, v) :: others) := by
  refine ⟨?_, ?_⟩
  · rw [List.filter_cons_of_neg (by simpa using other), split.kind]
  · rw [List.filter_cons_of_pos (by simpa using other), split.others]

theorem Split.reverse (split : Split ms kind others) : Split ms.reverse kind others.reverse := by
  refine ⟨?_, ?_⟩
  · rw [List.filter_reverse, split.kind]
    cases kind <;> rfl
  · rw [List.filter_reverse, split.others]

theorem Split.unique {kind' : Option String} {others' : List (String × Value)} (split : Split ms kind others)
    (again : Split ms kind' others') : kind = kind' ∧ others = others' := by
  refine ⟨?_, split.others.symm.trans again.others⟩
  have same := split.kind.symm.trans again.kind
  cases kind <;> cases kind' <;> simp_all

/-- Members that start with some of a split list and then a kind: it is the first one, and a text. -/
theorem Split.kind_of_prefix {before others' : List (String × Value)} {kind' : Option String} {v : Value}
    (split : Split ms kind others) (front : (("kind", v) :: before).reverse <+: ms)
    (earlier : Split before kind' others') : kind' = none ∧ ∃ text, v = .string text := by
  obtain ⟨later, rfl⟩ := front
  have kinds := split.kind
  rw [List.reverse_cons, List.append_assoc, List.singleton_append, List.filter_append, earlier.reverse.kind,
    List.filter_cons_of_pos (by simp)] at kinds
  cases kind' with
  | some text => cases kind <;> simp at kinds
  | none =>
    cases kind with
    | none => simp at kinds
    | some text =>
      injection kinds with same
      injection same with _ same
      exact ⟨rfl, text, same⟩

/-! ## Rounds -/

/-- One round of `members`. -/
def memberRound (depth : Nat) (acc : List (String × Value)) :
    Reader (List (String × Value) ⊕ List (String × Value)) := do
  match ← nextKey? acc.isEmpty with
  | some k => do
    colon
    return .inl ((k, ← value depth) :: acc)
  | none => return .inr acc.reverse

/-- One round of `declMembers`. -/
def declRound (depth : Nat) : Bool × Option String × List (String × Value) →
    Reader ((Bool × Option String × List (String × Value)) ⊕ (Option String × List (String × Value)))
  | (first, kind, ms) => do
    match ← nextKey? first with
    | none => return .inr (kind, ms.reverse)
    | some k =>
      if k = "kind" then
        if kind.isSome then fail .misshapen
        else
          colon
          return .inl (false, some (← readText), ms)
      else
        colon
        return .inl (false, kind, (k, ← value depth) :: ms)

theorem members_eq_loop (depth : Nat) : members (value depth) = loop (memberRound depth) [] := rfl

theorem declMembers_eq_loop (depth : Nat) : declMembers depth = loop (declRound depth) (true, none, []) := rfl

section Rounds

variable {depth : Nat} {acc : List (String × Value)} {first : Bool} {cs mid : List Char}

theorem memberRound_inr {all : List (String × Value)} :
    memberRound depth acc cs = .ok (.inr all, mid) ↔
      nextKey? acc.isEmpty cs = .ok (none, mid) ∧ all = acc.reverse := by
  unfold memberRound
  rw [bind_eq_ok]
  constructor
  · rintro ⟨_ | k, more, keyed, done⟩
    · cases done
      exact ⟨keyed, rfl⟩
    · obtain ⟨_, _, -, done⟩ := bind_eq_ok.1 done
      obtain ⟨_, _, -, done⟩ := bind_eq_ok.1 done
      cases done
  · rintro ⟨keyed, rfl⟩
    exact ⟨none, mid, keyed, rfl⟩

theorem memberRound_inl {acc' : List (String × Value)} :
    memberRound depth acc cs = .ok (.inl acc', mid) ↔ ∃ k v behind past,
      nextKey? acc.isEmpty cs = .ok (some k, behind) ∧ colon behind = .ok ((), past) ∧
        value depth past = .ok (v, mid) ∧ acc' = (k, v) :: acc := by
  unfold memberRound
  rw [bind_eq_ok]
  constructor
  · rintro ⟨_ | k, behind, keyed, round⟩
    · cases round
    · obtain ⟨_, past, colon, round⟩ := bind_eq_ok.1 round
      obtain ⟨v, _, read, round⟩ := bind_eq_ok.1 round
      cases round
      exact ⟨k, v, behind, past, keyed, colon, read, rfl⟩
  · rintro ⟨k, v, behind, past, keyed, colon, read, rfl⟩
    exact ⟨some k, behind, keyed, (bind_ok colon).trans (bind_ok read)⟩

theorem declRound_inr {result : Option String × List (String × Value)} :
    declRound depth (first, kind, ms) cs = .ok (.inr result, mid) ↔
      nextKey? first cs = .ok (none, mid) ∧ result = (kind, ms.reverse) := by
  unfold declRound
  dsimp only
  rw [bind_eq_ok]
  constructor
  · rintro ⟨_ | k, more, keyed, done⟩
    · cases done
      exact ⟨keyed, rfl⟩
    · dsimp only at done
      split_ifs at done with same given
      · cases done
      · obtain ⟨_, _, -, done⟩ := bind_eq_ok.1 done
        obtain ⟨_, _, -, done⟩ := bind_eq_ok.1 done
        cases done
      · obtain ⟨_, _, -, done⟩ := bind_eq_ok.1 done
        obtain ⟨_, _, -, done⟩ := bind_eq_ok.1 done
        cases done
  · rintro ⟨keyed, rfl⟩
    exact ⟨none, mid, keyed, rfl⟩

/-- A round that goes on takes the kind, where there was none before, or another member. -/
theorem declRound_inl {s : Bool × Option String × List (String × Value)} :
    declRound depth (first, kind, ms) cs = .ok (.inl s, mid) ↔ ∃ k v behind past,
      nextKey? first cs = .ok (some k, behind) ∧ colon behind = .ok ((), past) ∧ value depth past = .ok (v, mid) ∧
      ((∃ text, k = "kind" ∧ kind = none ∧ v = .string text ∧ s = (false, some text, ms)) ∨
        (k ≠ "kind" ∧ s = (false, kind, (k, v) :: ms))) := by
  unfold declRound
  dsimp only
  rw [bind_eq_ok]
  constructor
  · rintro ⟨_ | k, behind, keyed, round⟩
    · cases round
    · dsimp only at round
      split_ifs at round with same given
      · cases round
      · obtain ⟨_, past, colon, round⟩ := bind_eq_ok.1 round
        obtain ⟨text, _, read, round⟩ := bind_eq_ok.1 round
        cases round
        rw [readText_eq_ok_iff_value depth] at read
        exact ⟨k, _, behind, past, keyed, colon, read, .inl ⟨text, same, by simpa using given, rfl, rfl⟩⟩
      · obtain ⟨_, past, colon, round⟩ := bind_eq_ok.1 round
        obtain ⟨v, _, read, round⟩ := bind_eq_ok.1 round
        cases round
        exact ⟨k, v, behind, past, keyed, colon, read, .inr ⟨same, rfl⟩⟩
  · rintro ⟨k, v, behind, past, keyed, colon, read, ⟨text, rfl, rfl, rfl, rfl⟩ | ⟨other, rfl⟩⟩
    · rw [← readText_eq_ok_iff_value] at read
      exact ⟨_, behind, keyed, (bind_ok colon).trans (bind_ok read)⟩
    · refine ⟨some k, behind, keyed, ?_⟩
      dsimp only
      rw [if_neg other]
      exact (bind_ok colon).trans (bind_ok read)

/-- The members taken so far are the first of all that there will be. -/
theorem prefix_of_rounds {left : List Char} {all : List (String × Value)} {rest : List Char}
    (run : loop.go (memberRound depth) left acc cs = .ok (all, rest)) : acc.reverse <+: all := by
  refine loop_go_induction (P := fun acc _ => acc.reverse <+: all) ?_ ?_ run
  · intro acc cs done
    rw [(memberRound_inr.1 done).2]
  · intro acc cs acc' mid round longer
    obtain ⟨k, v, -, -, -, -, -, rfl⟩ := memberRound_inl.1 round
    rw [List.reverse_cons] at longer
    exact (List.prefix_append _ _).trans longer

end Rounds

/-- Where the members of a declaration are read, so are the members of an object. -/
theorem members_of_declMembers {depth : Nat} {cs rest : List Char}
    (read : declMembers depth cs = .ok ((kind, others), rest)) :
    ∃ ms, members (value depth) cs = .ok (ms, rest) ∧ Split ms kind others := by
  rw [declMembers_eq_loop, loop] at read
  rw [members_eq_loop, loop]
  refine loop_go_follows (fun s acc => s.1 = acc.isEmpty ∧ Split acc s.2.1 s.2.2)
    (fun result ms => Split ms result.1 result.2) ?_ ?_ ⟨rfl, .nil⟩ read
  · rintro ⟨_, kind', others'⟩ acc cs ⟨rfl, split⟩ done
    obtain ⟨keyed, same⟩ := declRound_inr.1 done
    cases same
    exact ⟨acc.reverse, memberRound_inr.2 ⟨keyed, rfl⟩, split.reverse⟩
  · rintro ⟨_, kind', others'⟩ acc cs s' mid left ⟨rfl, split⟩ round -
    obtain ⟨k, v, behind, past, keyed, colon, read, taken⟩ := declRound_inl.1 round
    refine ⟨(k, v) :: acc, memberRound_inl.2 ⟨k, v, behind, past, keyed, colon, read, rfl⟩, ?_⟩
    rcases taken with ⟨text, rfl, rfl, rfl, rfl⟩ | ⟨other, rfl⟩
    · exact ⟨rfl, split.consKind text⟩
    · exact ⟨rfl, split.consOther other v⟩

/-- And the other way round, where the kind is given at most once, as a text. -/
theorem declMembers_of_members {depth : Nat} {cs rest : List Char} (read : members (value depth) cs = .ok (ms, rest))
    (split : Split ms kind others) : declMembers depth cs = .ok ((kind, others), rest) := by
  rw [members_eq_loop, loop] at read
  rw [declMembers_eq_loop, loop]
  suffices follows : ∃ result, loop.go (declRound depth) cs (true, none, []) cs = .ok (result, rest) ∧
      result = (kind, others) by
    obtain ⟨_, run, rfl⟩ := follows
    exact run
  refine loop_go_follows (fun acc s => s.1 = acc.isEmpty ∧ Split acc s.2.1 s.2.2)
    (fun _ result => result = (kind, others)) ?_ ?_ ⟨rfl, .nil⟩ read
  · rintro acc ⟨_, kind', others'⟩ cs ⟨rfl, taken⟩ done
    obtain ⟨keyed, rfl⟩ := memberRound_inr.1 done
    obtain ⟨rfl, rfl⟩ := taken.reverse.unique split
    exact ⟨_, declRound_inr.2 ⟨keyed, rfl⟩, rfl⟩
  · rintro acc ⟨_, kind', others'⟩ cs _ mid left ⟨rfl, taken⟩ round run
    obtain ⟨k, v, behind, past, keyed, colon, value, rfl⟩ := memberRound_inl.1 round
    by_cases same : k = "kind"
    · subst same
      obtain ⟨rfl, text, rfl⟩ := split.kind_of_prefix (prefix_of_rounds run) taken
      exact ⟨_, declRound_inl.2 ⟨_, _, behind, past, keyed, colon, value, .inl ⟨text, rfl, rfl, rfl, rfl⟩⟩, rfl,
        taken.consKind text⟩
    · exact ⟨_, declRound_inl.2 ⟨k, v, behind, past, keyed, colon, value, .inr ⟨same, rfl⟩⟩, rfl,
        taken.consOther same v⟩

/-! ## Declarations -/

theorem nested?_eq (ms : List (String × Value)) : nested? ms = (member? "decls" ms).map decls? := by
  induction ms with
  | nil => rfl
  | cons m ms ih =>
    obtain ⟨k, v⟩ := m
    rw [nested?, member?, ih, Option.map_or]
    split_ifs <;> rfl

theorem Split.of_count (once : (ms.map Prod.fst).count "kind" = 1) {s : String}
    (text : member? "kind" ms = some (.string s)) : Split ms (some s) (ms.filter (·.1 ≠ "kind")) := by
  refine ⟨?_, rfl⟩
  have kept : member? "kind" (ms.filter (·.1 = "kind")) = member? "kind" ms :=
    member?_filter (· = "kind") (decide_eq_true rfl) ms
  have length : (ms.filter (·.1 = "kind")).length = 1 := by
    rw [← once, List.count, List.countP_map, ← List.countP_eq_length_filter]
    rfl
  obtain ⟨⟨k, v⟩, single⟩ := List.length_eq_one_iff.1 length
  have key : k = "kind" := by
    have mem : (k, v) ∈ ms.filter (·.1 = "kind") := by simp [single]
    simpa using (List.mem_filter.1 mem).2
  rw [single, text, member?, if_pos key] at kept
  rw [single, key, Option.some.inj kept]
  rfl

theorem Split.count_eq_one {s : String} (split : Split ms (some s) others) : (ms.map Prod.fst).count "kind" = 1 := by
  have length := congrArg List.length split.kind
  rw [← List.countP_eq_length_filter] at length
  rw [List.count, List.countP_map]
  exact length

theorem Split.member?_kind {s : String} (split : Split ms (some s) others) :
    member? "kind" ms = some (.string s) := by
  rw [← member?_filter (· = "kind") (by simp), split.kind]
  rfl

theorem Split.decl? {s : String} (split : Split ms (some s) others) :
    decl? (.object ms) = declOf? s others ((nested? others).getD (some [])) := by
  have same : ∀ key, key ≠ "kind" → member? key ms = member? key others := by
    intro key other
    rw [← split.others]
    exact (member?_filter (· ≠ "kind") (by simpa using other) ms).symm
  have kind : required text? "kind" ms = some s := by
    rw [required, split.member?_kind]
    rfl
  rw [Dump.decl?, kind, nested?_eq, nested?_eq, same "decls" (by decide)]
  simp -implicitDefEqProofs [declOf?, record?, required, defaulted, same]

theorem text?_eq_some {v : Value} {s : String} (text : text? v = some s) : v = .string s := by
  cases v <;> cases text
  rfl

theorem exists_kind_of_decl? {d : Decl} (made : decl? (.object ms) = some d) :
    ∃ s, member? "kind" ms = some (.string s) := by
  rw [decl?] at made
  obtain ⟨s, kind, -⟩ := Option.bind_eq_some_iff.1 made
  obtain ⟨v, member, text⟩ := Option.bind_eq_some_iff.1 kind
  exact ⟨s, text?_eq_some text ▸ member⟩

/-- A declaration is read where the value read is one, and its kind is given once. -/
theorem readDecl_eq_ok_iff {depth : Nat} {cs rest : List Char} {d : Decl} :
    readDecl depth cs = .ok (d, rest) ↔ ∃ ms, value depth cs = .ok (.object ms, rest) ∧
      (ms.map Prod.fst).count "kind" = 1 ∧ decl? (.object ms) = some d := by
  constructor
  · intro read
    unfold readDecl at read
    split at read
    · next more front =>
      obtain ⟨⟨kind, others⟩, mid, members, read⟩ := bind_eq_ok.1 read
      obtain ⟨n, rfl⟩ : ∃ n, depth = n + 1 := by
        cases depth with
        | zero => cases members
        | succ n => exact ⟨n, rfl⟩
      obtain ⟨ms, value, split⟩ := members_of_declMembers members
      cases kind with
      | none => cases read
      | some s =>
        dsimp only [Option.bind_some] at read
        cases made : declOf? s others ((nested? others).getD (some [])) with
        | none =>
          rw [made] at read
          cases read
        | some d' =>
          rw [made] at read
          cases read
          exact ⟨ms, value_eq_object_iff.2 ⟨n, more, rfl, front, value⟩, split.count_eq_one, split.decl?.trans made⟩
    · exact absurd read misshapen_ne_ok
  · rintro ⟨ms, read, once, made⟩
    obtain ⟨n, more, rfl, front, members⟩ := value_eq_object_iff.1 read
    obtain ⟨s, kind⟩ := exists_kind_of_decl? made
    have split := Split.of_count once kind
    rw [split.decl?] at made
    unfold readDecl
    rw [front]
    refine (bind_ok (declMembers_of_members members split)).trans ?_
    dsimp only [Option.bind_some]
    rw [made]
    rfl

end Dump
end RecordLayout
