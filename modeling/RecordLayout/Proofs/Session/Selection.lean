import Mathlib
import RecordLayout.Proofs.Dump.RoundTrip
import RecordLayout.Proofs.Json.Lines
import RecordLayout.Proofs.Session.Reachable

/-!
# The selected target

A text of arguments is cut into its runs between blanks (`Text.Runs`), and which of them selects the target depends
on how many keys stand directly before each: a key takes the argument after it, whatever that looks like. What the
arguments select is described without going through them in order (`Chosen`), and the dump front end reads every
source for just that target, or says what is wrong with it (`ReadFor`, `target_selection`).
-/
namespace RecordLayout

/-! ## Runs between blanks -/

namespace Text

/-- The maximal runs without blanks of a text, in order. A run ends where the text does or at a blank. -/
inductive Runs : List Char → List (List Char) → Prop
  | nil : Runs [] []
  | blank {cs : List Char} {runs : List (List Char)} (rest : Runs cs runs) : Runs (' ' :: cs) runs
  | run {w cs : List Char} {runs : List (List Char)} (nonempty : w ≠ []) (unbroken : ' ' ∉ w)
      (ends : ∀ c ∈ cs.head?, c = ' ') (rest : Runs cs runs) : Runs (w ++ cs) (w :: runs)

theorem filter_pieces_blank (cs : List Char) :
    (pieces ' ' (' ' :: cs)).filter (· ≠ []) = (pieces ' ' cs).filter (· ≠ []) := by
  have cut : pieces ' ' ([] ++ ' ' :: cs) = [] :: pieces ' ' cs := pieces_of_not_mem List.not_mem_nil cs
  rw [List.nil_append] at cut
  rw [cut]
  exact List.filter_cons_of_neg (by simp)

theorem pieces_of_unbroken {sep : Char} {w : List Char} (unbroken : sep ∉ w) : pieces sep w = [w] := by
  induction w with
  | nil => rfl
  | cons c w ih =>
    obtain ⟨other, later⟩ := List.ne_and_not_mem_of_not_mem_cons unbroken
    rw [pieces, ih later]
    exact if_neg other.symm

theorem filter_pieces_run {w cs : List Char} (nonempty : w ≠ []) (unbroken : ' ' ∉ w)
    (ends : ∀ c ∈ cs.head?, c = ' ') :
    (pieces ' ' (w ++ cs)).filter (· ≠ []) = w :: (pieces ' ' cs).filter (· ≠ []) := by
  cases cs with
  | nil => simp [pieces_of_unbroken unbroken, pieces, nonempty]
  | cons c cs =>
    obtain rfl : c = ' ' := ends c rfl
    rw [pieces_of_not_mem unbroken, filter_pieces_blank]
    exact List.filter_cons_of_pos (by simpa using nonempty)

theorem runs_filter_pieces (cs : List Char) : Runs cs ((pieces ' ' cs).filter (· ≠ [])) := by
  match cs with
  | [] => exact .nil
  | c :: cs =>
    by_cases blank : c = ' '
    · subst blank
      rw [filter_pieces_blank]
      exact .blank (runs_filter_pieces cs)
    · have shorter : (cs.dropWhile (· != ' ')).length ≤ cs.length := (cs.dropWhile_sublist _).length_le
      have parts : c :: cs = (c :: cs.takeWhile (· != ' ')) ++ cs.dropWhile (· != ' ') := by simp
      have unbroken : ' ' ∉ c :: cs.takeWhile (· != ' ') := by
        rintro (_ | ⟨_, mem⟩)
        · exact blank rfl
        · simpa using List.mem_takeWhile_imp mem
      have ends : ∀ d ∈ (cs.dropWhile (· != ' ')).head?, d = ' ' := by
        intro d first
        have stops := List.head?_dropWhile_not (· != ' ') cs
        rw [Option.mem_def.1 first] at stops
        simpa using stops
      rw [parts, filter_pieces_run (List.cons_ne_nil _ _) unbroken ends]
      exact .run (List.cons_ne_nil _ _) unbroken ends (runs_filter_pieces (cs.dropWhile (· != ' ')))
termination_by cs.length
decreasing_by
  · exact Nat.lt_succ_self _
  · exact Nat.lt_succ_of_le shorter

theorem runs_iff {cs : List Char} {runs : List (List Char)} :
    Runs cs runs ↔ runs = (pieces ' ' cs).filter (· ≠ []) := by
  constructor
  · intro cut
    induction cut with
    | nil => rfl
    | blank _ ih => rw [filter_pieces_blank, ih]
    | run nonempty unbroken ends _ ih => rw [filter_pieces_run nonempty unbroken ends, ih]
  · rintro rfl
    exact runs_filter_pieces cs

theorem after?_eq_some {start s rest : String} : after? start s = some rest ↔ s = start ++ rest := by
  rw [after?, Option.map_eq_some_iff, ← String.toList_inj, String.toList_append]
  constructor
  · rintro ⟨cs, cut, rfl⟩
    rw [String.toList_ofList]
    exact (List.isPrefixOf?_eq_some_iff_append_eq.1 cut).symm
  · intro parts
    exact ⟨rest.toList, List.isPrefixOf?_eq_some_iff_append_eq.2 parts.symm, String.ofList_toList⟩

end Text

/-! ## Keys and values -/

/-- A key that takes the argument after it. -/
def IsBareKey (arg : String) : Prop := arg = "-target" ∨ arg = "--target"

instance : DecidablePred IsBareKey := fun arg => inferInstanceAs (Decidable (arg = "-target" ∨ arg = "--target"))

/-- How many bare keys stand directly before a position, one after the other. -/
def keysBefore (args : List String) (i : Nat) : Nat :=
  ((args.take i).reverse.takeWhile fun arg => decide (IsBareKey arg)).length

/-- An argument there is read as a key, and not as what the key before it takes. -/
def KeyPosition (args : List String) (i : Nat) : Prop := Even (keysBefore args i)

/-- At this position the target is selected, or would be if another argument followed. -/
def SelectorAt (args : List String) (i : Nat) : Prop :=
  KeyPosition args i ∧ ∃ arg, args[i]? = some arg ∧ (IsBareKey arg ∨ ∃ triple, arg = "--target=" ++ triple)

/-- The triple that is selected at a position. -/
inductive Selects (args : List String) (i : Nat) : String → Prop
  | attached {triple : String} (position : KeyPosition args i) (here : args[i]? = some ("--target=" ++ triple)) :
      Selects args i triple
  | following {key triple : String} (position : KeyPosition args i) (here : args[i]? = some key) (bare : IsBareKey key)
      (next : args[i + 1]? = some triple) : Selects args i triple

/-- What arguments come to: an error if they end with a key that takes nothing, else the triple of the last selection,
or the default one. -/
inductive Chosen (args : List String) : Except FrontendError String → Prop
  | missing {key : String} (odd : Odd (keysBefore args args.length)) (last : args.getLast? = some key) :
      Chosen args (.error (.missingArgValue key))
  | selected {i : Nat} {triple : String} (even : Even (keysBefore args args.length)) (selects : Selects args i triple)
      (last : ∀ j, SelectorAt args j → j ≤ i) : Chosen args (.ok triple)
  | default (even : Even (keysBefore args args.length)) (nowhere : ∀ i, ¬SelectorAt args i) :
      Chosen args (.ok Target.defaultTriple)

section Positions

variable {args : List String} {i : Nat} {arg triple : String}

theorem keysBefore_succ (here : args[i]? = some arg) :
    keysBefore args (i + 1) = if IsBareKey arg then keysBefore args i + 1 else 0 := by
  rw [keysBefore, List.take_add_one, here, Option.toList_some, List.reverse_append, List.reverse_singleton,
    List.singleton_append, List.takeWhile_cons]
  by_cases bare : IsBareKey arg
  · simp [bare, keysBefore]
  · simp [bare]

theorem keyPosition_succ_of_not_bare (here : args[i]? = some arg) (other : ¬IsBareKey arg) :
    KeyPosition args (i + 1) := by
  rw [KeyPosition, keysBefore_succ here, if_neg other]
  exact Even.zero

theorem not_keyPosition_succ (position : KeyPosition args i) (here : args[i]? = some arg) (bare : IsBareKey arg) :
    ¬KeyPosition args (i + 1) := by
  rw [KeyPosition, keysBefore_succ here, if_pos bare]
  exact Nat.not_even_iff_odd.2 (Even.add_one position)

/-- After what a key takes, be it a key by its looks, an argument is read as a key again. -/
theorem keyPosition_add_two (position : KeyPosition args i) (here : args[i]? = some arg) (bare : IsBareKey arg)
    (next : args[i + 1]? = some triple) : KeyPosition args (i + 2) := by
  by_cases looks : IsBareKey triple
  · rw [KeyPosition, keysBefore_succ next, if_pos looks, keysBefore_succ here, if_pos bare]
    exact (Even.add_one position).add_one
  · exact keyPosition_succ_of_not_bare next looks

theorem not_isBareKey_attached (triple : String) : ¬IsBareKey ("--target=" ++ triple) := by
  rintro (same | same)
  all_goals
    have letters := congrArg String.toList same
    simp at letters

theorem Selects.selectorAt (selects : Selects args i triple) : SelectorAt args i := by
  cases selects with
  | attached position here => exact ⟨position, _, here, .inr ⟨triple, rfl⟩⟩
  | following position here bare _ => exact ⟨position, _, here, .inl bare⟩

theorem Selects.unique {triple' : String} (selects : Selects args i triple) (other : Selects args i triple') :
    triple = triple' := by
  cases selects with
  | attached _ here =>
    cases other with
    | attached _ here' => exact (String.append_right_inj _).1 (Option.some.inj (here.symm.trans here'))
    | following _ here' bare _ =>
      obtain rfl := Option.some.inj (here.symm.trans here')
      exact absurd bare (not_isBareKey_attached triple)
  | following _ here bare next =>
    cases other with
    | attached _ here' =>
      obtain rfl := Option.some.inj (here.symm.trans here')
      exact absurd bare (not_isBareKey_attached triple')
    | following _ _ _ next' => exact Option.some.inj (next.symm.trans next')

/-- Arguments come to one thing only. -/
theorem Chosen.unique {result result' : Except FrontendError String} (chosen : Chosen args result)
    (other : Chosen args result') : result = result' := by
  cases chosen with
  | missing odd last =>
    cases other with
    | missing _ last' => rw [Option.some.inj (last.symm.trans last')]
    | selected even _ _ => exact absurd even (Nat.not_even_iff_odd.2 odd)
    | default even _ => exact absurd even (Nat.not_even_iff_odd.2 odd)
  | selected even selects last =>
    cases other with
    | missing odd _ => exact absurd even (Nat.not_even_iff_odd.2 odd)
    | selected _ selects' last' =>
      obtain rfl := Nat.le_antisymm (last' _ selects.selectorAt) (last _ selects'.selectorAt)
      rw [selects.unique selects']
    | default _ nowhere => exact absurd selects.selectorAt (nowhere _)
  | default even nowhere =>
    cases other with
    | missing odd _ => exact absurd even (Nat.not_even_iff_odd.2 odd)
    | selected _ selects _ => exact absurd selects.selectorAt (nowhere _)
    | default _ _ => rfl

end Positions

/-! ## Going through the arguments -/

/-- What the positions before this one select: the triple of the last selection among them, if there is one. -/
inductive Found (args : List String) (i : Nat) : Option String → Prop
  | nothing (nowhere : ∀ j < i, ¬SelectorAt args j) : Found args i none
  | triple {j : Nat} {triple : String} (selects : Selects args j triple) (last : ∀ k < i, SelectorAt args k → k ≤ j) :
      Found args i (some triple)

section Scan

variable {args rest : List String} {i : Nat} {arg triple : String} {before : Option String}

theorem Found.skip (found : Found args i before) (other : ¬SelectorAt args i) : Found args (i + 1) before := by
  have earlier : ∀ k < i + 1, SelectorAt args k → k < i := by
    intro k below selector
    rcases Nat.lt_succ_iff_lt_or_eq.1 below with less | rfl
    · exact less
    · exact absurd selector other
  cases found with
  | nothing nowhere => exact .nothing fun k below selector => nowhere k (earlier k below selector) selector
  | triple selects last => exact .triple selects fun k below selector => last k (earlier k below selector) selector

theorem Selects.found (selects : Selects args i triple) : Found args (i + 1) (some triple) :=
  .triple selects fun _ below _ => Nat.le_of_lt_succ below

theorem here_of_drop (remaining : args.drop i = arg :: rest) : args[i]? = some arg ∧ args.drop (i + 1) = rest := by
  have here := congrArg (·[0]?) remaining
  have later := congrArg (List.drop 1) remaining
  simp only [List.getElem?_drop, Nat.add_zero, List.getElem?_cons_zero] at here
  rw [List.drop_drop, List.drop_one, List.tail_cons] at later
  exact ⟨here, later⟩

theorem SelectorAt.lt_of_drop (ends : args.drop i = []) {j : Nat} (selector : SelectorAt args j) : j < i := by
  obtain ⟨-, arg, here, -⟩ := selector
  have inside := (List.getElem?_eq_some_iff.1 here).1
  exact Nat.lt_of_lt_of_le inside (List.drop_eq_nil_iff.1 ends)

theorem keysBefore_of_drop (ends : args.drop i = []) : keysBefore args args.length = keysBefore args i := by
  rw [keysBefore, keysBefore, List.take_length, List.take_of_length_le (List.drop_eq_nil_iff.1 ends)]

/-- Where the arguments end at a key position, what they selected is what they come to. -/
theorem Found.chosen (ends : args.drop i = []) (found : Found args i before) (position : KeyPosition args i) :
    Chosen args (.ok (before.getD Target.defaultTriple)) := by
  rw [KeyPosition, ← keysBefore_of_drop ends] at position
  cases found with
  | nothing nowhere => exact .default position fun j selector => nowhere j (selector.lt_of_drop ends) selector
  | triple selects last => exact .selected position selects fun j selector => last j (selector.lt_of_drop ends) selector

/-- Where they end with a key, that key takes nothing. -/
theorem chosen_missing (ends : args.drop i = [arg]) (position : KeyPosition args i) (bare : IsBareKey arg) :
    Chosen args (.error (.missingArgValue arg)) := by
  obtain ⟨here, nothing⟩ := here_of_drop ends
  have last : args.getLast? = some arg := by
    rw [← List.take_append_drop i args, ends, List.getLast?_append]
    rfl
  refine .missing ?_ last
  rw [keysBefore_of_drop nothing]
  exact Nat.not_even_iff_odd.1 (not_keyPosition_succ position here bare)

/-- From a key position on, the remaining arguments are gone through to what all of them come to. -/
theorem chosen_selectTriple (remaining : args.drop i = rest) (position : KeyPosition args i)
    (found : Found args i before) : Chosen args (selectTriple before rest).value := by
  fun_induction selectTriple before rest generalizing i with
  | case1 before => exact found.chosen remaining position
  | case2 before arg rest triple attached ih =>
    obtain ⟨here, later⟩ := here_of_drop remaining
    obtain rfl := Text.after?_eq_some.1 attached
    have selects : Selects args i triple := .attached position here
    exact ih later (keyPosition_succ_of_not_bare here (not_isBareKey_attached triple)) selects.found
  | case3 before arg _ bare => exact chosen_missing remaining position bare
  | case4 before arg _ bare triple rest ih =>
    obtain ⟨here, later⟩ := here_of_drop remaining
    obtain ⟨next, later⟩ := here_of_drop later
    have selects : Selects args i triple := .following position here bare next
    have taken : ¬SelectorAt args (i + 1) := fun selector => not_keyPosition_succ position here bare selector.1
    exact ih later (keyPosition_add_two position here bare next) (selects.found.skip taken)
  | case5 before arg rest detached other ih =>
    obtain ⟨here, later⟩ := here_of_drop remaining
    have ignored : ¬SelectorAt args i := by
      rintro ⟨-, arg', here', selecting⟩
      obtain rfl := Option.some.inj (here.symm.trans here')
      rcases selecting with bare | ⟨triple, parts⟩
      · exact other bare
      · rw [Text.after?_eq_some.2 parts] at detached
        cases detached
    exact ih later (keyPosition_succ_of_not_bare here other) (found.skip ignored)

end Scan

theorem chosen_targetTriple (args : List String) : Chosen args (targetTriple args).value :=
  chosen_selectTriple (i := 0) rfl Even.zero (.nothing fun _ below => absurd below (Nat.not_lt_zero _))

theorem value_targetTriple_iff {args : List String} {result : Except FrontendError String} :
    (targetTriple args).value = result ↔ Chosen args result :=
  ⟨fun same => same ▸ chosen_targetTriple args, (chosen_targetTriple args).unique⟩

/-- The one way to fail is to end with a key that stands where it takes a value. -/
theorem exists_error_targetTriple_iff {args : List String} :
    (∃ e, (targetTriple args).value = .error e) ↔ Odd (keysBefore args args.length) := by
  constructor
  · rintro ⟨e, failed⟩
    cases value_targetTriple_iff.1 failed with
    | missing odd _ => exact odd
  · intro odd
    generalize value : (targetTriple args).value = result
    cases value_targetTriple_iff.1 value with
    | missing _ _ => exact ⟨_, rfl⟩
    | selected even _ _ => exact absurd even (Nat.not_even_iff_odd.2 odd)
    | default even _ => exact absurd even (Nat.not_even_iff_odd.2 odd)

/-! ## Configured sessions -/

theorem Config.runs_iff_splitArgs (c : Config) {args : String} (given : args ≠ "") {runs : List (List Char)} :
    Text.Runs args.toList runs ↔ runs = (c.setArgs args).splitArgs.map String.toList := by
  have verbatim : (c.setArgs args).args = args := if_neg given
  have texts : String.toList ∘ String.ofList = id := funext fun _ => String.toList_ofList
  rw [Text.runs_iff, splitArgs, verbatim, List.map_map, texts, List.map_id]

namespace Frontend

/-- What comes of reading a source for a triple. A target that is not known comes before a text that is no dump, and
both before a dump that is meant for another triple. -/
inductive ReadFor (source triple : String) : Except FrontendError Program → Prop
  | unsupported (unknown : Target.ofTriple? triple = none) : ReadFor source triple (.error (.unsupportedTarget triple))
  | malformed {target : Target} {fault : Json.Fault} (known : Target.ofTriple? triple = some target)
      (broken : Dump.parse source = .error fault) : ReadFor source triple (.error (.malformedDump fault))
  | mismatched {target : Target} {contents : Dump.Contents} {other : String}
      (known : Target.ofTriple? triple = some target) (parsed : Dump.parse source = .ok contents)
      (meant : contents.target = some other) (differs : other ≠ triple) :
      ReadFor source triple (.error (.targetMismatch other triple))
  | program {target : Target} {contents : Dump.Contents} (known : Target.ofTriple? triple = some target)
      (parsed : Dump.parse source = .ok contents) (fits : contents.target = none ∨ contents.target = some triple) :
      ReadFor source triple (.ok (.ofDecls target contents.decls))

theorem readFor_parseDump (source triple : String) : ReadFor source triple (parseDump source triple) := by
  unfold parseDump
  split
  · next unknown => exact .unsupported unknown
  · next target known =>
    split
    · next broken => exact .malformed known broken
    · next contents parsed =>
      unfold programOf
      rw [triple_of_ofTriple? known]
      split
      · next untold => exact .program known parsed (.inl untold)
      · next other meant =>
        split
        · next same => exact .program known parsed (.inr (same ▸ meant))
        · next differs => exact .mismatched known parsed meant differs

theorem parseDump_eq_iff {source triple : String} {result : Except FrontendError Program} :
    parseDump source triple = result ↔ ReadFor source triple result := by
  constructor
  · intro same
    rw [← same]
    exact readFor_parseDump source triple
  · intro read
    cases read with
    | unsupported unknown => rw [parseDump, unknown]
    | malformed known broken => simp only [parseDump, known, broken]
    | mismatched known parsed meant differs =>
      simp only [parseDump, known, parsed, programOf, meant, triple_of_ofTriple? known, if_neg differs]
    | program known parsed fits =>
      simp only [parseDump, known, parsed, programOf, triple_of_ofTriple? known]
      rcases fits with untold | meant
      · rw [untold]
      · simp only [meant, if_true]

end Frontend

/-- How a pass ends once the front end has read the source: with a survey of the program, or without layouts. -/
def Session.surveyed (s : Session) : Except FrontendError Program → Nat × Session
  | .error _ => (0, s.reset)
  | .ok p => (p.survey.value.1, { s.reset with store := p.survey.value.2 })

/-- A text of arguments is cut into its runs between blanks. They come to an error exactly if they end with an odd
number of keys, and otherwise to the triple of the last selection. The dump front end reads every source for that
triple: a program is one of its target, and an error about a target names it. -/
theorem target_selection (c : Config) {args : String} (given : args ≠ "") :
    (∀ runs, Text.Runs args.toList runs ↔ runs = (c.setArgs args).splitArgs.map String.toList) ∧
    ((∃ e, (c.setArgs args).targetTriple.value = .error e) ↔
      Odd (keysBefore (c.setArgs args).splitArgs (c.setArgs args).splitArgs.length)) ∧
    (∀ result, (c.setArgs args).targetTriple.value = result ↔ Chosen (c.setArgs args).splitArgs result) ∧
    (∀ source, (Frontend.dump.parse source (c.setArgs args).splitArgs).value =
      (c.setArgs args).targetTriple.value.bind (Frontend.parseDump source)) ∧
    (∀ source triple p, Frontend.parseDump source triple = .ok p → Target.ofTriple? triple = some p.target ∧
      p.target.triple = triple) ∧
    (∀ source triple result, Frontend.parseDump source triple = result ↔ Frontend.ReadFor source triple result) ∧
    ∀ (s : Session) (source : String), s.frontend = .dump → ((s.configure args).analyze source).value =
      (s.configure args).surveyed ((c.setArgs args).targetTriple.value.bind (Frontend.parseDump source)) := by
  refine ⟨fun _ => c.runs_iff_splitArgs given, exists_error_targetTriple_iff, fun _ => value_targetTriple_iff,
    fun source => Frontend.value_dump_bind source _, ?_, fun _ _ _ => Frontend.parseDump_eq_iff, ?_⟩
  · intro source triple p read
    cases Frontend.parseDump_eq_iff.1 read with
    | program known _ _ => exact ⟨known, Frontend.triple_of_ofTriple? known⟩
  · intro s source dumps
    have parsed : ((s.configure args).frontend.parse source (s.configure args).config.splitArgs).value =
        (c.setArgs args).targetTriple.value.bind (Frontend.parseDump source) := by
      rw [Session.configure, dumps, Frontend.value_dump_bind]
      rfl
    rw [Session.value_analyze, parsed]
    rfl

/-- Two keys in a row: the second is what the first takes, and so the last argument is read as a key again. -/
theorem target_selection_parity :
    Chosen ["-target", "--target", "--target=i686-pc-linux-gnu"] (.ok "i686-pc-linux-gnu") ∧
      ∀ source, ((({} : Session).configure "-target --target  --target=i686-pc-linux-gnu").analyze source).value =
        (({} : Session).configure "-target --target  --target=i686-pc-linux-gnu").surveyed
          (Frontend.parseDump source "i686-pc-linux-gnu") := by
  have given : "-target --target  --target=i686-pc-linux-gnu" ≠ "" := by decide
  obtain ⟨-, -, chosen, -, -, -, analyzed⟩ := target_selection {} given
  have value : ((({} : Config).setArgs "-target --target  --target=i686-pc-linux-gnu").targetTriple.value) =
      .ok "i686-pc-linux-gnu" := by cbv
  refine ⟨?_, fun source => ?_⟩
  · have parts : (({} : Config).setArgs "-target --target  --target=i686-pc-linux-gnu").splitArgs =
        ["-target", "--target", "--target=i686-pc-linux-gnu"] := by cbv
    rw [← parts]
    exact (chosen _).1 value
  · rw [analyzed {} source rfl, value]
    rfl

end RecordLayout
