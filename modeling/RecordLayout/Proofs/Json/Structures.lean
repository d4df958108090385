import Mathlib
import RecordLayout.Proofs.Json.Skipping

/-!
# Structures

The two forms of a structure in a text, said without the readers (`Spelling.Structure`): the object has each known
member once, in any order and among unknown ones, the array has them in their order. A structure is read in full just
where one of the two stands (`structured_eq_ok_iff`).
-/
namespace RecordLayout.Json
open Reader

variable {first : Bool} {cs mid rest : List Char} {k : String}

/-- The comma before every item but the first. -/
def Separated (first : Bool) (cs mid : List Char) : Prop := if first then mid = cs else Token ',' cs mid

/-- A key stands in front, with its colon. -/
def KeyAt (first : Bool) (k : String) (cs rest : List Char) : Prop :=
  ∃ item behind, Separated first cs item ∧ TextAt k item behind ∧ Token ':' behind rest

theorem separated_self (start : first = true) (cs : List Char) : Separated first cs cs := by
  rw [Separated, if_pos start]

theorem Token.separated (comma : Token ',' cs mid) (later : ¬first = true) : Separated first cs mid := by
  rwa [Separated, if_neg later]

theorem Separated.length_le (comma : Separated first cs mid) : mid.length ≤ cs.length := by
  cases first with
  | true => exact Nat.le_of_eq (congrArg List.length comma)
  | false => exact Nat.le_of_lt (Token.length_lt comma)

theorem TextAt.length_lt (text : TextAt k cs rest) : rest.length < cs.length := by
  obtain ⟨more, quote, spells⟩ := text
  exact Nat.lt_trans spells.length_lt quote.length_lt

theorem KeyAt.length_lt (key : KeyAt first k cs rest) : rest.length < cs.length := by
  obtain ⟨item, behind, comma, text, colon⟩ := key
  have before := comma.length_le
  have inside := text.length_lt
  have behind := colon.length_lt
  omega

theorem nextItem_eq_false_iff : nextItem first cs = .ok (false, rest) ↔ Token ']' cs rest := by
  constructor
  · intro read
    unfold nextItem at read
    split at read
    · cases read
    · next c more front =>
      split_ifs at read with closed start comma
      · cases read
        rwa [closed] at front
      · cases read
      · split at read
        · cases read
        · split_ifs at read
          cases read
  · intro token
    unfold nextItem
    rw [token]
    rfl

/-- An item comes next, past its comma and the blanks before it. -/
theorem nextItem_eq_true_iff : nextItem first cs = .ok (true, rest) ↔
    ∃ item c more, Separated first cs item ∧ Token c item more ∧ c ≠ ']' ∧ rest = dropBlanks item := by
  constructor
  · intro read
    unfold nextItem at read
    split at read
    · cases read
    · next c more front =>
      split_ifs at read with closed start comma
      · cases read
      · cases read
        exact ⟨cs, c, more, separated_self start cs, front, closed, front.symm⟩
      · split at read
        · cases read
        · next d behind item =>
          split_ifs at read with trailing
          cases read
          rw [comma] at front
          exact ⟨more, d, behind, Token.separated front start, item, trailing, item.symm⟩
  · rintro ⟨item, c, more, comma, token, other, rfl⟩
    unfold nextItem
    cases first with
    | true =>
      rw [show item = cs from comma] at token ⊢
      rw [token]
      dsimp only
      rw [if_neg other, if_pos rfl]
    | false =>
      rw [show dropBlanks cs = ',' :: item from comma]
      dsimp only
      rw [token]
      simp [other]

theorem nextKey?_eq_none_iff : nextKey? first cs = .ok (none, rest) ↔ Token '\x7d' cs rest := by
  constructor
  · intro read
    unfold nextKey? at read
    split at read
    · cases read
    · next c more front =>
      split_ifs at read with closed start quote comma
      · cases read
        rwa [closed] at front
      · obtain ⟨_, -, same⟩ := map_eq_ok.1 read
        cases same
      · split at read
        · cases read
        · split_ifs at read
          obtain ⟨_, -, same⟩ := map_eq_ok.1 read
          cases same
  · intro token
    unfold nextKey?
    rw [token]
    rfl

theorem nextKey?_eq_some_iff : nextKey? first cs = .ok (some k, rest) ↔
    ∃ item, Separated first cs item ∧ TextAt k item rest := by
  constructor
  · intro read
    unfold nextKey? at read
    split at read
    · cases read
    · next c more front =>
      split_ifs at read with closed start quote comma
      · cases read
      · obtain ⟨_, text, same⟩ := map_eq_ok.1 read
        cases same
        rw [quote] at front
        exact ⟨cs, separated_self start cs, more, front, Quoted.text_eq_ok_iff.1 text⟩
      · split at read
        · cases read
        · next d behind item =>
          split_ifs at read with quote
          obtain ⟨_, text, same⟩ := map_eq_ok.1 read
          cases same
          rw [comma] at front
          rw [quote] at item
          exact ⟨more, Token.separated front start, behind, item, Quoted.text_eq_ok_iff.1 text⟩
  · rintro ⟨item, comma, more, quote, spells⟩
    have text : (some <$> Quoted.text) more = .ok (some k, rest) := map_ok (Quoted.text_eq_ok_iff.2 spells)
    unfold nextKey?
    cases first with
    | true =>
      rw [show item = cs from comma] at quote
      rw [quote]
      exact text
    | false =>
      rw [show dropBlanks cs = ',' :: item from comma]
      dsimp only
      rw [quote]
      exact text

/-- Values that stand past blanks, start with no closing bracket, and take something off the text. -/
structure Visible (At : List Char → List Char → Prop) : Prop where
  blanks : ∀ cs rest, At (dropBlanks cs) rest ↔ At cs rest
  starts : ∀ cs rest, At cs rest → ∃ c more, Token c cs more ∧ c ≠ ']'
  shorter : ∀ cs rest, At cs rest → rest.length < cs.length

theorem visible_textAt (s : String) : Visible (TextAt s) where
  blanks cs rest := by simp only [TextAt, token_dropBlanks]
  starts cs rest text := by
    obtain ⟨more, quote, -⟩ := text
    exact ⟨'"', more, quote, by decide⟩
  shorter _ _ text := text.length_lt

theorem visible_wordAt (n : UInt64) : Visible (WordAt n) where
  blanks cs rest := by rw [WordAt, WordAt, dropBlanks_dropBlanks]
  starts cs rest word := by
    obtain ⟨c, more, split, -, starts⟩ := writeInteger_eq_cons n.toNat rest
    exact ⟨c, more, word.1.trans split, starts.ne (by decide)⟩
  shorter cs rest word := by
    obtain ⟨c, more, split, kept, -⟩ := writeInteger_eq_cons n.toNat rest
    have token : Token c cs more := word.1.trans split
    exact Nat.lt_of_le_of_lt kept token.length_lt

/-- How the known members of a structure are written; `δ` has each of them with its value. -/
structure Spelling (δ : Type) where
  key : δ → String
  /-- The value stands in front of the text. -/
  At : δ → List Char → List Char → Prop

namespace Spelling

variable {σ δ : Type} (S : Spelling δ)

/-- The known members of an object, in the order in which they stand there, past its opening brace or, with `false`,
past a member. -/
inductive Members : Bool → List δ → List Char → List Char → Prop
  | closed {first : Bool} {cs rest : List Char} (brace : Token '\x7d' cs rest) : Members first [] cs rest
  | known {first : Bool} {d : δ} {ds : List δ} {cs value behind rest : List Char}
      (key : KeyAt first (S.key d) cs value) (here : S.At d value behind) (more : Members false ds behind rest) :
      Members first (d :: ds) cs rest
  | unknown {first : Bool} {k : String} {ds : List δ} {cs value behind rest : List Char}
      (key : KeyAt first k cs value) (new : ∀ d, S.key d ≠ k) (skipped : skip value = .ok ((), behind))
      (more : Members false ds behind rest) : Members first ds cs rest

/-- The items of an array, past its opening bracket or, with `false`, past an item. -/
inductive Items : Bool → List δ → List Char → List Char → Prop
  | closed {first : Bool} {cs rest : List Char} (bracket : Token ']' cs rest) : Items first [] cs rest
  | item {first : Bool} {d : δ} {ds : List δ} {cs value behind rest : List Char} (comma : Separated first cs value)
      (here : S.At d value behind) (more : Items false ds behind rest) : Items first (d :: ds) cs rest

/-- The two forms of a structure that has these members. -/
inductive Structure (ds : List δ) (cs rest : List Char) : Prop
  | object {given : List δ} {inside : List Char} (brace : Token '\x7b' cs inside) (order : given.Perm ds)
      (members : S.Members true given inside rest)
  | array {inside : List Char} (bracket : Token '[' cs inside) (items : S.Items true ds inside rest)

/-- The members `known` read what is spelled so. `put` tells what they make of a state, and `Holds` which values a state
has been given. -/
structure ReadBy (depth : Nat) (known : List (Member σ)) (start : σ) (put : σ → δ → σ) (Holds : σ → δ → Prop) :
    Prop where
  visible : ∀ d, Visible (S.At d)
  keys : ∀ k, k ∈ known.map (·.key) ↔ ∃ d, S.key d = k
  reads : ∀ m ∈ known, ∀ s t cs rest,
    m.read depth s cs = .ok (t, rest) ↔ ∃ d, S.key d = m.key ∧ S.At d cs rest ∧ t = put s d
  given : ∀ m ∈ known, ∀ s, m.given s = true ↔ ∃ d, Holds s d ∧ S.key d = m.key
  empty : ∀ d, ¬Holds start d
  holds_put : ∀ s d e, Holds (put s d) e ↔ e = d ∨ Holds s e ∧ S.key e ≠ S.key d
  ext : ∀ s t, (∀ d, Holds s d ↔ Holds t d) → s = t

/-! ## Objects -/

/-- One round of `keyed`. -/
def keyedRound (depth : Nat) (known : List (Member σ)) : Bool × σ → Reader ((Bool × σ) ⊕ σ)
  | (first, s) => do
    match ← nextKey? first with
    | none => return .inr s
    | some k =>
      match known.find? fun m => m.key = k with
      | some m =>
        if m.given s then fail .misshapen
        else
          colon
          return .inl (false, ← m.read depth s)
      | none =>
        colon
        skip
        return .inl (false, s)

theorem keyed_eq_loop (depth : Nat) (known : List (Member σ)) (s : σ) :
    keyed depth known s = loop (keyedRound depth known) (true, s) := rfl

section Read

variable {S} {depth : Nat} {known : List (Member σ)} {start s t : σ} {put : σ → δ → σ} {Holds : σ → δ → Prop}
  {ds : List δ}

theorem keyedRound_inr : keyedRound depth known (first, s) cs = .ok (.inr t, rest) ↔ Token '\x7d' cs rest ∧ t = s := by
  unfold keyedRound
  rw [bind_eq_ok]
  constructor
  · rintro ⟨_ | k, more, key, done⟩
    · cases done
      exact ⟨nextKey?_eq_none_iff.1 key, rfl⟩
    · dsimp only at done
      cases found : known.find? fun m => m.key = k with
      | some m =>
        rw [found] at done
        dsimp only at done
        split_ifs at done
        · cases done
        · obtain ⟨_, _, -, done⟩ := bind_eq_ok.1 done
          obtain ⟨_, _, -, done⟩ := bind_eq_ok.1 done
          cases done
      | none =>
        rw [found] at done
        obtain ⟨_, _, -, done⟩ := bind_eq_ok.1 done
        obtain ⟨_, _, -, done⟩ := bind_eq_ok.1 done
        cases done
  · rintro ⟨brace, rfl⟩
    exact ⟨none, rest, nextKey?_eq_none_iff.2 brace, rfl⟩

theorem find?_eq_some {m : Member σ} (found : known.find? (fun m => m.key = k) = some m) : m ∈ known ∧ m.key = k :=
  ⟨List.mem_of_find?_eq_some found, by simpa using List.find?_some found⟩

theorem ReadBy.find?_eq_none_iff (R : S.ReadBy depth known start put Holds) :
    known.find? (fun m => m.key = k) = none ↔ ∀ d, S.key d ≠ k := by
  have absent : known.find? (fun m => m.key = k) = none ↔ k ∉ known.map (·.key) := by
    rw [List.find?_eq_none, List.mem_map]
    simp
  rw [absent, R.keys, not_exists]

/-- A round that goes on takes a member that was not given before, or passes over an unknown one. -/
theorem ReadBy.of_keyedRound (R : S.ReadBy depth known start put Holds) {next : Bool × σ}
    (round : keyedRound depth known (first, s) cs = .ok (.inl next, rest)) :
    (∃ d value, KeyAt first (S.key d) cs value ∧ S.At d value rest ∧ (∀ e, Holds s e → S.key e ≠ S.key d) ∧
      next = (false, put s d)) ∨
    ∃ k value, KeyAt first k cs value ∧ (∀ d, S.key d ≠ k) ∧ skip value = .ok ((), rest) ∧ next = (false, s) := by
  obtain ⟨_ | k, behind, key, round⟩ := bind_eq_ok.1 round
  · cases round
  · obtain ⟨item, comma, text⟩ := nextKey?_eq_some_iff.1 key
    dsimp only at round
    cases found : known.find? fun m => m.key = k with
    | some m =>
      obtain ⟨mem, rfl⟩ := find?_eq_some found
      rw [found] at round
      dsimp only at round
      split_ifs at round with given
      · cases round
      · obtain ⟨_, value, colon, round⟩ := bind_eq_ok.1 round
        obtain ⟨t, _, read, round⟩ := bind_eq_ok.1 round
        cases round
        obtain ⟨d, same, here, rfl⟩ := (R.reads m mem s t value rest).1 read
        refine .inl ⟨d, value, ?_, here, ?_, rfl⟩
        · rw [same]
          exact ⟨item, behind, comma, text, colon_eq_ok_iff.1 colon⟩
        · intro e holds again
          exact given ((R.given m mem s).2 ⟨e, holds, again.trans same⟩)
    | none =>
      rw [found] at round
      obtain ⟨_, value, colon, round⟩ := bind_eq_ok.1 round
      obtain ⟨_, _, skipped, round⟩ := bind_eq_ok.1 round
      cases round
      exact .inr ⟨k, value, ⟨item, behind, comma, text, colon_eq_ok_iff.1 colon⟩, R.find?_eq_none_iff.1 found,
        skipped, rfl⟩

theorem ReadBy.keyedRound_known (R : S.ReadBy depth known start put Holds) {d : δ} {value : List Char}
    (key : KeyAt first (S.key d) cs value) (here : S.At d value rest) (fresh : ∀ e, Holds s e → S.key e ≠ S.key d) :
    keyedRound depth known (first, s) cs = .ok (.inl (false, put s d), rest) := by
  obtain ⟨item, behind, comma, text, colon⟩ := key
  obtain ⟨m, found⟩ : ∃ m, known.find? (fun m => m.key = S.key d) = some m :=
    Option.ne_none_iff_exists'.1 fun none => R.find?_eq_none_iff.1 none d rfl
  obtain ⟨mem, same⟩ := find?_eq_some found
  have new : m.given s ≠ true := by
    intro given
    obtain ⟨e, holds, key⟩ := (R.given m mem s).1 given
    exact fresh e holds (key.trans same)
  refine (bind_ok (nextKey?_eq_some_iff.2 ⟨item, comma, text⟩)).trans ?_
  dsimp only
  rw [found]
  dsimp only
  rw [if_neg new]
  refine (bind_ok (colon_eq_ok_iff.2 colon)).trans ?_
  exact bind_ok ((R.reads m mem s _ value rest).2 ⟨d, same.symm, here, rfl⟩)

theorem ReadBy.keyedRound_unknown (R : S.ReadBy depth known start put Holds) {value : List Char}
    (key : KeyAt first k cs value) (new : ∀ d, S.key d ≠ k) (skipped : skip value = .ok ((), rest)) :
    keyedRound depth known (first, s) cs = .ok (.inl (false, s), rest) := by
  obtain ⟨item, behind, comma, text, colon⟩ := key
  refine (bind_ok (nextKey?_eq_some_iff.2 ⟨item, comma, text⟩)).trans ?_
  dsimp only
  rw [R.find?_eq_none_iff.2 new]
  exact (bind_ok (colon_eq_ok_iff.2 colon)).trans (bind_ok skipped)

/-- The members have distinct keys, none of which a state has been given. -/
def Fresh (S : Spelling δ) (Holds : σ → δ → Prop) (s : σ) (ds : List δ) : Prop :=
  (ds.map S.key).Nodup ∧ ∀ d ∈ ds, ∀ e, Holds s e → S.key e ≠ S.key d

theorem ReadBy.fresh_cons (R : S.ReadBy depth known start put Holds) {d : δ} :
    S.Fresh Holds s (d :: ds) ↔ (∀ e, Holds s e → S.key e ≠ S.key d) ∧ S.Fresh Holds (put s d) ds := by
  unfold Fresh
  rw [List.map_cons, List.nodup_cons, List.mem_map, List.forall_mem_cons]
  constructor
  · rintro ⟨⟨other, distinct⟩, here, later⟩
    refine ⟨here, distinct, fun e mem f holds same => ?_⟩
    rcases (R.holds_put s d f).1 holds with rfl | ⟨earlier, -⟩
    · exact other ⟨e, mem, same.symm⟩
    · exact later e mem f earlier same
  · rintro ⟨here, distinct, later⟩
    refine ⟨⟨?_, distinct⟩, here, fun e mem f holds same => ?_⟩
    · rintro ⟨e, mem, same⟩
      exact later e mem d ((R.holds_put s d d).2 (.inl rfl)) same.symm
    · by_cases again : S.key f = S.key d
      · exact later e mem d ((R.holds_put s d d).2 (.inl rfl)) (again.symm.trans same)
      · exact later e mem f ((R.holds_put s d f).2 (.inr ⟨holds, again⟩)) same

theorem ReadBy.fresh_start (R : S.ReadBy depth known start put Holds) :
    S.Fresh Holds start ds ↔ (ds.map S.key).Nodup :=
  and_iff_left fun _ _ e holds => absurd holds (R.empty e)

theorem ReadBy.holds_foldl (R : S.ReadBy depth known start put Holds) (fresh : S.Fresh Holds s ds) {e : δ} :
    Holds (ds.foldl put s) e ↔ e ∈ ds ∨ Holds s e := by
  induction ds generalizing s with
  | nil => simp
  | cons d ds ih =>
    obtain ⟨here, later⟩ := R.fresh_cons.1 fresh
    rw [List.foldl_cons, ih later, R.holds_put, List.mem_cons]
    have kept : Holds s e ∧ S.key e ≠ S.key d ↔ Holds s e := and_iff_left_of_imp (here e)
    rw [kept, or_left_comm, or_assoc]

/-- Members that were read are those that stand there, and what comes of them. -/
theorem ReadBy.members_of_rounds (R : S.ReadBy depth known start put Holds) {left : List Char}
    (run : loop.go (keyedRound depth known) left (first, s) cs = .ok (t, rest)) :
    ∃ ds, S.Members first ds cs rest ∧ S.Fresh Holds s ds ∧ t = ds.foldl put s := by
  -- What the state has been given rules out its keys for the rounds to come.
  refine loop_go_induction (P := fun state cs => ∃ ds, S.Members state.1 ds cs rest ∧ S.Fresh Holds state.2 ds ∧
    t = ds.foldl put state.2) ?_ ?_ run
  · rintro ⟨first, s⟩ cs done
    obtain ⟨brace, rfl⟩ := keyedRound_inr.1 done
    exact ⟨[], .closed brace, ⟨List.nodup_nil, nofun⟩, rfl⟩
  · rintro ⟨first, s⟩ cs _ mid round ⟨ds, members, fresh, rfl⟩
    rcases R.of_keyedRound round with ⟨d, value, key, here, new, rfl⟩ | ⟨k, value, key, new, skipped, rfl⟩
    · exact ⟨d :: ds, .known key here members, R.fresh_cons.2 ⟨new, fresh⟩, rfl⟩
    · exact ⟨ds, .unknown key new skipped members, fresh, rfl⟩

/-- Members that stand there with distinct keys are read, each in a round of its own. -/
theorem ReadBy.rounds (R : S.ReadBy depth known start put Holds) (members : S.Members first ds cs rest)
    (fresh : S.Fresh Holds s ds) : Rounds (keyedRound depth known) (first, s) cs (ds.foldl put s) rest := by
  induction members generalizing s with
  | closed brace => exact .last (keyedRound_inr.2 ⟨brace, rfl⟩)
  | @known first d ds cs value behind rest key here more ih =>
    obtain ⟨new, later⟩ := R.fresh_cons.1 fresh
    have shorter := (R.visible d).shorter value behind here
    exact .next (R.keyedRound_known key here new) (Nat.lt_trans shorter key.length_lt) (ih later)
  | @unknown first k ds cs value behind rest key new skipped more ih =>
    have shorter := (trims_skip value () behind skipped).length_le
    exact .next (R.keyedRound_unknown key new skipped) (Nat.lt_of_le_of_lt shorter key.length_lt) (ih fresh)

theorem ReadBy.keyed_eq_ok_iff (R : S.ReadBy depth known start put Holds) :
    keyed depth known start cs = .ok (t, rest) ↔
      ∃ ds, S.Members true ds cs rest ∧ (ds.map S.key).Nodup ∧ t = ds.foldl put start := by
  rw [keyed_eq_loop]
  simp only [← R.fresh_start]
  constructor
  · exact R.members_of_rounds
  · rintro ⟨ds, members, fresh, rfl⟩
    exact (R.rounds members fresh).loop_eq

/-! ## Arrays -/

/-- Items are read as far as they go, in the order of the members. -/
theorem ReadBy.positional_eq_ok_iff (R : S.ReadBy depth known start put Holds) {ms : List (Member σ)}
    (within : ∀ m ∈ ms, m ∈ known) : positional depth first s ms cs = .ok (t, rest) ↔
      ∃ ds, S.Items first ds cs rest ∧ ds.map S.key <+: ms.map (·.key) ∧ t = ds.foldl put s := by
  induction ms generalizing first s cs with
  | nil =>
    constructor
    · intro read
      obtain ⟨_, bracket, rfl⟩ := map_eq_ok.1 read
      exact ⟨[], .closed (expect_eq_ok_iff.1 bracket), List.nil_prefix, rfl⟩
    · rintro ⟨ds, items, front, rfl⟩
      obtain rfl : ds = [] := List.map_eq_nil_iff.1 (List.prefix_nil.1 front)
      cases items with
      | closed bracket => exact map_ok (expect_eq_ok_iff.2 bracket)
  | cons m ms ih =>
    obtain ⟨mem, others⟩ := List.forall_mem_cons.1 within
    constructor
    · intro read
      obtain ⟨more, mid, next, read⟩ := bind_eq_ok.1 read
      cases more with
      | false =>
        cases read
        exact ⟨[], .closed (nextItem_eq_false_iff.1 next), List.nil_prefix, rfl⟩
      | true =>
        obtain ⟨item, _, _, comma, -, -, rfl⟩ := nextItem_eq_true_iff.1 next
        obtain ⟨_, behind, value, read⟩ := bind_eq_ok.1 read
        obtain ⟨d, key, here, rfl⟩ := (R.reads m mem _ _ _ _).1 value
        obtain ⟨ds, items, front, rfl⟩ := (ih others).1 read
        refine ⟨d :: ds, .item comma (((R.visible d).blanks _ _).1 here) items, ?_, rfl⟩
        rw [List.map_cons, List.map_cons, List.cons_prefix_cons]
        exact ⟨key, front⟩
    · rintro ⟨ds, items, front, rfl⟩
      cases items with
      | closed bracket => exact bind_ok (nextItem_eq_false_iff.2 bracket)
      | @item _ d ds _ value behind _ comma here items =>
        rw [List.map_cons, List.map_cons, List.cons_prefix_cons] at front
        obtain ⟨c, more, starts, other⟩ := (R.visible d).starts _ _ here
        refine (bind_ok (nextItem_eq_true_iff.2 ⟨value, c, more, comma, starts, other, rfl⟩)).trans ?_
        refine (bind_ok ((R.reads m mem s _ _ behind).2 ⟨d, front.1, ((R.visible d).blanks _ _).2 here, rfl⟩)).trans ?_
        exact (ih others).2 ⟨ds, items, front.2, rfl⟩

/-! ## Both forms -/

variable {es : List δ}

/-- Members with distinct keys come to the same in any order, and other members to something else. -/
theorem ReadBy.foldl_eq_iff (R : S.ReadBy depth known start put Holds) (distinct : (ds.map S.key).Nodup)
    (distinct' : (es.map S.key).Nodup) : ds.foldl put start = es.foldl put start ↔ ds.Perm es := by
  have holds {ds : List δ} (distinct : (ds.map S.key).Nodup) (d : δ) : Holds (ds.foldl put start) d ↔ d ∈ ds := by
    rw [R.holds_foldl (R.fresh_start.2 distinct), or_iff_left (R.empty d)]
  constructor
  · intro same
    refine (List.perm_ext_iff_of_nodup distinct.of_map distinct'.of_map).2 fun d => ?_
    rw [← holds distinct, ← holds distinct', same]
  · intro perm
    refine R.ext _ _ fun d => ?_
    rw [holds distinct, holds distinct', perm.mem_iff]

/-- Members in the order of the keys of others are those, if they are the same in any order. -/
theorem eq_of_perm_of_front (distinct : (es.map S.key).Nodup) (perm : ds.Perm es)
    (front : ds.map S.key <+: es.map S.key) : ds = es := by
  have keys : ds.map S.key = es.map S.key := front.eq_of_length (by simpa using perm.length_eq)
  refine List.ext_getElem perm.length_eq fun i here there => ?_
  have same : S.key ds[i] = S.key es[i] := by
    rw [← List.getElem_map S.key (h := by simpa using here), ← List.getElem_map S.key (h := by simpa using there)]
    exact List.getElem_of_eq keys _
  exact List.inj_on_of_nodup_map distinct (perm.mem_iff.1 (List.getElem_mem here)) (List.getElem_mem there) same

/-- A structure is read in full, with nothing but its members, just where one of its forms stands. -/
theorem ReadBy.structured_eq_ok_iff (R : S.ReadBy depth known start put Holds)
    (keys : es.map S.key = known.map (·.key)) (distinct : (es.map S.key).Nodup) :
    structured (depth + 1) known start cs = .ok (es.foldl put start, rest) ↔ S.Structure es cs rest := by
  constructor
  · intro read
    unfold structured at read
    split at read
    · next inside bracket =>
      obtain ⟨ds, items, front, same⟩ := (R.positional_eq_ok_iff fun _ mem => mem).1 read
      rw [← keys] at front
      have perm := (R.foldl_eq_iff (distinct.sublist front.sublist) distinct).1 same.symm
      rw [eq_of_perm_of_front distinct perm front] at items
      exact .array bracket items
    · next inside brace =>
      obtain ⟨ds, members, distinct', same⟩ := R.keyed_eq_ok_iff.1 read
      exact .object brace ((R.foldl_eq_iff distinct' distinct).1 same.symm) members
    · exact absurd read misshapen_ne_ok
  · intro stands
    unfold structured
    cases stands with
    | object brace order members =>
      have distinct' := (order.map S.key).nodup_iff.2 distinct
      rw [brace]
      exact R.keyed_eq_ok_iff.2 ⟨_, members, distinct', ((R.foldl_eq_iff distinct' distinct).2 order).symm⟩
    | array bracket items =>
      rw [bracket]
      exact (R.positional_eq_ok_iff fun _ mem => mem).2 ⟨es, items, keys ▸ List.prefix_rfl, rfl⟩

end Read

end Spelling

end RecordLayout.Json
