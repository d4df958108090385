import Mathlib
import RecordLayout.Proofs.Survey.Layouts

/-!
# Surveys in sequence

One store may be surveyed several times, by surveys of several visits each. A survey counts what the
store has gained since it began, and what the store gains in all depends on the visited declarations
alone: it is the layout of the first complete one of each new id, however the declarations were cut into
visits and surveys (`surveys_extend`).
-/
namespace RecordLayout

namespace RecordStore

/-- The number of ids that `after` has and `before` has not. -/
def gained (before after : RecordStore) : Nat := (after.ids.filter fun id => !before.contains id).length

/-- A store that kept the ids of another one is larger by what it gained. -/
theorem gained_add_size {before after : RecordStore}
    (kept : ∀ id, before.contains id = true → after.contains id = true) :
    before.gained after + before.size = after.size := by
  have shared : (after.ids.filter before.contains).Perm before.ids := by
    rw [List.perm_ext_iff_of_nodup (after.nodup_ids.filter _) before.nodup_ids]
    intro id
    rw [List.mem_filter, mem_ids, mem_ids]
    exact ⟨And.right, fun stored => ⟨kept id stored, stored⟩⟩
  have parts := List.length_eq_length_filter_add (l := after.ids) before.contains
  rw [shared.length_eq, length_ids, length_ids] at parts
  rw [gained]
  omega

theorem gained_self (store : RecordStore) : store.gained store = 0 := by
  have same : store.gained store + store.size = store.size := gained_add_size fun _ stored => stored
  omega

end RecordStore

namespace Decl

theorem forestRecords_append (ds es : List Decl) :
    forestRecords (ds ++ es) = forestRecords ds ++ forestRecords es := by
  induction ds with
  | nil => rfl
  | cons d ds ih => rw [List.cons_append, forestRecords, ih, forestRecords, List.append_assoc]

theorem mem_forestRecords {ds : List Decl} {x : RecordDecl × List Decl} :
    x ∈ forestRecords ds ↔ ∃ d ∈ ds, x ∈ d.records := by
  induction ds with
  | nil => simp [forestRecords]
  | cons d ds ih => simp [forestRecords, ih]

theorem isSome_firstComplete? {ds : List Decl} {x : RecordDecl × List Decl} (mem : x ∈ forestRecords ds)
    (complete : x.1.complete = true) : (firstComplete? ds x.1.id).isSome = true := by
  rw [firstComplete?, Option.isSome_map, List.find?_isSome]
  exact ⟨x, mem, by simp [complete]⟩

end Decl

/-! ## One survey -/

/-- What meeting all record declarations of a forest does to a survey. -/
def Survey.meetAll (m : Model) (s : Survey) (ds : List Decl) : Survey :=
  (Decl.forestRecords ds).foldl (fun s x => s.meet m x.1) s

namespace Survey

variable (m : Model)

theorem meetAll_append (s : Survey) (ds es : List Decl) :
    s.meetAll m (ds ++ es) = (s.meetAll m ds).meetAll m es := by
  rw [meetAll, Decl.forestRecords_append, List.foldl_append]
  rfl

/-- Counting and storing keep step. -/
theorem size_meet (s : Survey) (r : RecordDecl) :
    (s.meet m r).store.size + s.inserted = s.store.size + (s.meet m r).inserted := by
  unfold meet
  split
  · next new =>
    have absent : s.store.contains r.id = false := by simp_all
    simp only [RecordStore.size_insert absent]
    omega
  · rfl

theorem size_meetAll (s : Survey) (ds : List Decl) :
    (s.meetAll m ds).store.size + s.inserted = s.store.size + (s.meetAll m ds).inserted := by
  unfold meetAll
  induction Decl.forestRecords ds generalizing s with
  | nil => rfl
  | cons x xs ih =>
    have here := size_meet m s x.1
    have rest := ih (s.meet m x.1)
    rw [List.foldl_cons]
    omega

/-- A survey does not look at its count. -/
theorem meet_recount (s : Survey) (n : Nat) (r : RecordDecl) :
    ∃ k, meet m { s with inserted := n } r = { s.meet m r with inserted := k } := by
  unfold meet
  split
  · exact ⟨n + 1, rfl⟩
  · exact ⟨n, rfl⟩

theorem store_meetAll_recount (s : Survey) (n : Nat) (ds : List Decl) :
    (meetAll m { s with inserted := n } ds).store = (s.meetAll m ds).store := by
  unfold meetAll
  induction Decl.forestRecords ds generalizing s n with
  | nil => rfl
  | cons x xs ih =>
    obtain ⟨k, step⟩ := meet_recount m s n x.1
    rw [List.foldl_cons, step, ih, List.foldl_cons]

theorem meet_of_contains {s : Survey} {r : RecordDecl}
    (known : r.complete = true → s.store.contains r.id = true) : s.meet m r = s := by
  unfold meet
  cases complete : r.complete with
  | false => rfl
  | true => rw [known complete]; rfl

/-- Declarations whose ids are stored add nothing. -/
theorem meetAll_of_contains {s : Survey} {ds : List Decl}
    (known : ∀ x ∈ Decl.forestRecords ds, x.1.complete = true → s.store.contains x.1.id = true) :
    s.meetAll m ds = s := by
  unfold meetAll
  revert known
  induction Decl.forestRecords ds with
  | nil => exact fun _ => rfl
  | cons x xs ih =>
    intro known
    rw [List.foldl_cons, meet_of_contains m (known x List.mem_cons_self)]
    exact ih fun y mem => known y (List.mem_cons_of_mem x mem)

theorem inProgress_meetAll (s : Survey) (ds : List Decl) : (s.meetAll m ds).inProgress = s.inProgress := by
  unfold meetAll
  induction Decl.forestRecords ds generalizing s with
  | nil => rfl
  | cons x xs ih => rw [List.foldl_cons, ih, Model.inProgress_meet]

end Survey

/-- `after` has the layouts of `before` and, for each other id, that of its first complete declaration in
`ds`, if there is one. -/
structure Model.Extends (m : Model) (before after : RecordStore) (ds : List Decl) : Prop where
  kept : ∀ id t, before.get? id = some t → after.get? id = some t
  added : ∀ id, before.get? id = none →
    after.get? id = (Decl.firstComplete? ds id).map fun r => (m.layout r).value

namespace Model

variable {m : Model} {before after : RecordStore} {ds : List Decl}

theorem Extends.contains_of_before (h : m.Extends before after ds) (id : RecordId)
    (stored : before.contains id = true) : after.contains id = true := by
  rw [RecordStore.contains_eq_isSome, Option.isSome_iff_exists] at stored ⊢
  obtain ⟨t, found⟩ := stored
  exact ⟨t, h.kept id t found⟩

theorem Extends.contains_of_declared (h : m.Extends before after ds) {x : RecordDecl × List Decl}
    (mem : x ∈ Decl.forestRecords ds) (complete : x.1.complete = true) : after.contains x.1.id = true := by
  cases stored : before.contains x.1.id with
  | true => exact h.contains_of_before _ stored
  | false =>
    rw [RecordStore.contains_eq_isSome, Option.isSome_eq_false_iff, Option.isNone_iff_eq_none] at stored
    rw [RecordStore.contains_eq_isSome, h.added _ stored, Option.isSome_map]
    exact Decl.isSome_firstComplete? mem complete

variable (m)

theorem extends_meetAll (store : RecordStore) (ds : List Decl) :
    m.Extends store ((Survey.start store).meetAll m ds).store ds := by
  have lookup : ∀ id, ((Survey.start store).meetAll m ds).store.get? id =
      (store.get? id).or ((Decl.firstComplete? ds id).map fun r => (m.layout r).value) := by
    intro id
    rw [Survey.meetAll, get?_foldl_meet, Decl.firstComplete?, Option.map_map]
    simp only [value_layout]
    rfl
  constructor
  · intro id t found
    rw [lookup, found, Option.some_or]
  · intro id new
    rw [lookup, new, Option.none_or]

/-- A survey counts what the store has gained since its start. -/
theorem inserted_meetAll (store : RecordStore) (ds : List Decl) :
    ((Survey.start store).meetAll m ds).inserted = store.gained ((Survey.start store).meetAll m ds).store := by
  have grown := RecordStore.gained_add_size (extends_meetAll m store ds).contains_of_before
  have counted := Survey.size_meetAll m (.start store) ds
  simp only [Survey.start, Nat.add_zero] at grown counted ⊢
  omega

/-- What a survey leaves can be surveyed further as if it had not stopped. -/
theorem store_start_meetAll (store : RecordStore) (ds es : List Decl) :
    ((Survey.start ((Survey.start store).meetAll m ds).store).meetAll m es).store =
      ((Survey.start store).meetAll m (ds ++ es)).store := by
  have stopped : Survey.start ((Survey.start store).meetAll m ds).store =
      { (Survey.start store).meetAll m ds with inserted := 0 } := by
    have marks := Survey.inProgress_meetAll m (.start store) ds
    simp only [Survey.start] at marks ⊢
    rw [marks]
  rw [stopped, Survey.store_meetAll_recount, Survey.meetAll_append]

end Model

/-! ## Visits -/

namespace Model

/-- A survey of a store with its visits; gives what each of them returned. -/
def surveyOnce (m : Model) (visits : List (List Decl)) : StateT RecordStore Logged (List Nat) := fun store => do
  let (counts, survey) ← visits.mapM m.visit (.start store)
  return (counts, survey.store)

/-- Surveys of one store, one after the other. -/
def surveys (m : Model) (plan : List (List (List Decl))) : StateT RecordStore Logged (List (List Nat)) :=
  plan.mapM m.surveyOnce

variable (m : Model)

theorem value_visit (ds : List Decl) (s : Survey) :
    (m.visit ds s).value = ((s.meetAll m ds).inserted, s.meetAll m ds) := by
  have run : (m.visit ds s).value = ((m.visitDecls ds s).value.2.inserted, (m.visitDecls ds s).value.2) := rfl
  rw [run, value_visitDecls]
  rfl

theorem value_visits (visits : List (List Decl)) (s : Survey) :
    (visits.mapM m.visit s).value =
      ((List.range visits.length).map fun j => (s.meetAll m (visits.take (j + 1)).flatten).inserted,
        s.meetAll m visits.flatten) := by
  induction visits generalizing s with
  | nil => rfl
  | cons ds visits ih =>
    have run : ((ds :: visits).mapM m.visit s).value =
        ((m.visit ds s).value.1 :: (visits.mapM m.visit (m.visit ds s).value.2).value.1,
          (visits.mapM m.visit (m.visit ds s).value.2).value.2) := by
      rw [List.mapM_cons]
      rfl
    rw [run, value_visit, ih, List.length_cons, List.range_succ_eq_map, List.map_cons, List.map_map]
    simp only [List.take_succ_cons, List.take_zero, List.flatten_cons, List.flatten_nil, List.append_nil,
      Survey.meetAll_append, Function.comp_def]

theorem value_surveyOnce (visits : List (List Decl)) (store : RecordStore) :
    (m.surveyOnce visits store).value =
      ((List.range visits.length).map fun j =>
          store.gained ((Survey.start store).meetAll m (visits.take (j + 1)).flatten).store,
        ((Survey.start store).meetAll m visits.flatten).store) := by
  have run : (m.surveyOnce visits store).value =
      ((visits.mapM m.visit (.start store)).value.1, (visits.mapM m.visit (.start store)).value.2.store) := rfl
  rw [run, value_visits]
  simp only [inserted_meetAll]

theorem value_surveys_cons (visits : List (List Decl)) (plan : List (List (List Decl))) (store : RecordStore) :
    (m.surveys (visits :: plan) store).value =
      ((m.surveyOnce visits store).value.1 :: (m.surveys plan (m.surveyOnce visits store).value.2).value.1,
        (m.surveys plan (m.surveyOnce visits store).value.2).value.2) := by
  rw [surveys, List.mapM_cons]
  rfl

/-- The store after surveys is as if one survey had met all their declarations. -/
theorem store_surveys (plan : List (List (List Decl))) (store : RecordStore) :
    (m.surveys plan store).value.2 = ((Survey.start store).meetAll m plan.flatten.flatten).store := by
  induction plan generalizing store with
  | nil => rfl
  | cons visits plan ih =>
    rw [value_surveys_cons, ih, value_surveyOnce, store_start_meetAll, List.flatten_cons, List.flatten_append]

theorem length_counts (plan : List (List (List Decl))) (store : RecordStore) :
    (m.surveys plan store).value.1.length = plan.length := by
  induction plan generalizing store with
  | nil => rfl
  | cons visits plan ih => rw [value_surveys_cons, List.length_cons, ih, List.length_cons]

/-- What the visits of a survey return that comes behind others. -/
theorem counts_of_split (earlier later : List (List (List Decl))) (visits : List (List Decl)) (store : RecordStore) :
    (m.surveys (earlier ++ visits :: later) store).value.1[earlier.length]? =
      some ((List.range visits.length).map fun j =>
        (m.surveys earlier store).value.2.gained (m.surveys (earlier ++ [visits.take (j + 1)]) store).value.2) := by
  induction earlier generalizing store with
  | nil =>
    simp only [List.nil_append, value_surveys_cons, List.length_nil, List.getElem?_cons_zero, value_surveyOnce]
    rfl
  | cons first earlier ih =>
    simp only [List.cons_append, value_surveys_cons, List.length_cons, List.getElem?_cons_succ, ih]

/-- The last counts of all surveys add up to what the store has grown by. -/
theorem sum_lastCounts (plan : List (List (List Decl))) (store : RecordStore) :
    ((m.surveys plan store).value.1.map fun counts => counts.getLast?.getD 0).sum + store.size =
      (m.surveys plan store).value.2.size := by
  induction plan generalizing store with
  | nil => exact Nat.zero_add _
  | cons visits plan ih =>
    have last : (m.surveyOnce visits store).value.1.getLast?.getD 0 =
        store.gained (m.surveyOnce visits store).value.2 := by
      rw [value_surveyOnce, ← inserted_meetAll]
      cases visits using List.reverseRecOn with
      | nil => rfl
      | append_singleton visits ds =>
        simp [List.range_succ, inserted_meetAll, List.take_of_length_le]
    have grown : store.gained (m.surveyOnce visits store).value.2 + store.size =
        (m.surveyOnce visits store).value.2.size := by
      rw [value_surveyOnce]
      exact RecordStore.gained_add_size (extends_meetAll m store visits.flatten).contains_of_before
    have rest := ih (m.surveyOnce visits store).value.2
    rw [value_surveys_cons, List.map_cons, List.sum_cons, last]
    simp only
    omega

/-- A survey of declarations whose ids are stored returns zeros and leaves the store as it was. -/
theorem value_surveyOnce_of_contains {visits : List (List Decl)} {store : RecordStore}
    (known : ∀ x ∈ Decl.forestRecords visits.flatten, x.1.complete = true → store.contains x.1.id = true) :
    (m.surveyOnce visits store).value = (visits.map fun _ => 0, store) := by
  have nothing : ∀ n, (Survey.start store).meetAll m (visits.take n).flatten = .start store := by
    intro n
    apply Survey.meetAll_of_contains
    intro x mem
    apply known x
    rw [← List.take_append_drop n visits, List.flatten_append, Decl.forestRecords_append]
    exact List.mem_append_left _ mem
  have all := nothing visits.length
  rw [List.take_length] at all
  simp only [value_surveyOnce, all, nothing]
  simp [Survey.start, RecordStore.gained_self]

theorem value_surveys_of_contains {plan : List (List (List Decl))} {store : RecordStore}
    (known : ∀ x ∈ Decl.forestRecords plan.flatten.flatten, x.1.complete = true → store.contains x.1.id = true) :
    (m.surveys plan store).value = (plan.map fun visits => visits.map fun _ => 0, store) := by
  induction plan with
  | nil => rfl
  | cons visits plan ih =>
    simp only [List.flatten_cons, List.flatten_append, Decl.forestRecords_append, List.mem_append] at known
    rw [value_surveys_cons, value_surveyOnce_of_contains m fun x mem => known x (.inl mem),
      ih fun x mem => known x (.inr mem)]
    rfl

end Model

/-- Surveys of a store keep what it has and add the layout of the first complete declaration of each other
id that they visit. Each visit returns what the store has gained since the survey began, and the last
counts of the surveys add up to what it has grown by. So it does not matter how the declarations are cut
into visits and surveys, and visiting them again adds nothing. -/
theorem surveys_extend (m : Model) (store : RecordStore) (plan : List (List (List Decl))) :
    let (counts, after) := (m.surveys plan store).value
    m.Extends store after plan.flatten.flatten ∧
    counts.length = plan.length ∧
    (∀ earlier visits later, plan = earlier ++ visits :: later →
      counts[earlier.length]? = some ((List.range visits.length).map fun j =>
        (m.surveys earlier store).value.2.gained (m.surveys (earlier ++ [visits.take (j + 1)]) store).value.2)) ∧
    (counts.map fun ns => ns.getLast?.getD 0).sum + store.size = after.size ∧
    (∀ plan', plan'.flatten.flatten = plan.flatten.flatten → (m.surveys plan' store).value.2 = after) ∧
    (∀ again, (∀ d ∈ again.flatten.flatten, d ∈ plan.flatten.flatten) →
      (m.surveys again after).value = (again.map fun visits => visits.map fun _ => 0, after)) := by
  have extended : m.Extends store (m.surveys plan store).value.2 plan.flatten.flatten := by
    rw [Model.store_surveys]
    exact Model.extends_meetAll m store plan.flatten.flatten
  refine ⟨extended, Model.length_counts m plan store, ?_, Model.sum_lastCounts m plan store, ?_, ?_⟩
  · rintro earlier visits later rfl
    exact Model.counts_of_split m earlier later visits store
  · intro plan' same
    rw [Model.store_surveys, Model.store_surveys, same]
  · intro again within
    apply Model.value_surveys_of_contains
    intro x mem complete
    obtain ⟨d, listed, inside⟩ := Decl.mem_forestRecords.1 mem
    exact extended.contains_of_declared (Decl.mem_forestRecords.2 ⟨d, within d listed, inside⟩) complete

end RecordLayout
