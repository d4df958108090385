import Mathlib
import RecordLayout.Proofs.Session.Queries

/-!
# Histories of stores

What a store answers after any calls, told by the calls alone: of the layouts that were offered for an id since the
store was last cleared it keeps the first one (`firstOffer?`), and lists what it keeps by ascending ids
(`keeps_first`). Histories are lists of calls with the latest one first.
-/
namespace RecordLayout

/-- The calls on a store. -/
inductive StoreCall where
  | insert (id : RecordId) (t : LayoutTree)
  | get (id : RecordId)
  | contains (id : RecordId)
  | iterate
  | clear
  | size
  | isEmpty

inductive StoreAnswer where
  | done
  | flag (b : Bool)
  | count (n : Nat)
  | layout (t : Option LayoutTree)
  | layouts (entries : List (RecordId × LayoutTree))

namespace StoreCall

/-- The layouts that were offered since the last `clear`, in the order of the calls. -/
def offers : List StoreCall → List (RecordId × LayoutTree)
  | [] => []
  | insert id t :: earlier => offers earlier ++ [(id, t)]
  | clear :: _ => []
  | _ :: earlier => offers earlier

/-- The first layout that was offered for an id since the last `clear`. -/
def firstOffer? (history : List StoreCall) (id : RecordId) : Option LayoutTree := (offers history).lookup id

theorem firstOffer?_insert (id : RecordId) (t : LayoutTree) (earlier : List StoreCall) (id' : RecordId) :
    firstOffer? (insert id t :: earlier) id' = (firstOffer? earlier id').or (if id = id' then some t else none) := by
  rw [firstOffer?, offers, List.lookup_append, firstOffer?]
  congr 1
  by_cases same : id = id'
  · simp [same]
  · have other : (id' == id) = false := beq_false_of_ne (Ne.symm same)
    simp [List.lookup_cons, other, same]

end StoreCall

namespace RecordStore
open StoreCall (firstOffer?)

/-- What a store answers to a call, and the store after it. -/
def perform (s : RecordStore) : StoreCall → StoreAnswer × RecordStore
  | .insert id t => (.flag (s.insert id t).1, (s.insert id t).2)
  | .get id => (.layout (s.get? id), s)
  | .contains id => (.flag (s.contains id), s)
  | .iterate => (.layouts s.toList, s)
  | .clear => (.done, s.clear)
  | .size => (.count s.size, s)
  | .isEmpty => (.flag s.isEmpty, s)

/-- The store after calls on an empty one. -/
def after : List StoreCall → RecordStore
  | [] => .empty
  | c :: earlier => ((after earlier).perform c).2

/-- How many inserts have stored their layout since the last `clear`. -/
def accepted : List StoreCall → Nat
  | [] => 0
  | .insert id t :: earlier => accepted earlier + if ((after earlier).insert id t).1 then 1 else 0
  | .clear :: _ => 0
  | _ :: earlier => accepted earlier

/-! ## One call -/

theorem insert_fst (s : RecordStore) (id : RecordId) (t : LayoutTree) :
    (s.insert id t).1 = !s.contains id := by
  rw [insert]
  cases s.contains id <;> rfl

theorem insert_snd_of_contains {s : RecordStore} {id : RecordId} (stored : s.contains id = true) (t : LayoutTree) :
    (s.insert id t).2 = s := by
  rw [insert, if_pos stored]

theorem size_insert_snd (s : RecordStore) (id : RecordId) (t : LayoutTree) :
    (s.insert id t).2.size = s.size + if (s.insert id t).1 then 1 else 0 := by
  rw [insert_fst]
  cases stored : s.contains id with
  | true => rw [insert_snd_of_contains stored]; rfl
  | false => rw [size_insert stored]; rfl

theorem isEmpty_iff {s : RecordStore} : s.isEmpty = true ↔ ∀ id, s.get? id = none := by
  have absent : ∀ id, s.contains id = false ↔ s.get? id = none := by
    intro id
    rw [contains_eq_isSome, Option.isSome_eq_false_iff, Option.isNone_iff_eq_none]
  simp only [← absent]
  exact Std.TreeMap.isEmpty_iff_forall_contains

/-! ## Any calls -/

/-- A look-up finds the first offer, whatever calls there were. -/
theorem get?_after (history : List StoreCall) (id : RecordId) : (after history).get? id = firstOffer? history id := by
  induction history with
  | nil => exact get?_empty id
  | cons c earlier ih =>
    cases c with
    | insert id' t =>
      rw [StoreCall.firstOffer?_insert, ← ih]
      exact get?_insert _ id' t id
    | clear => exact get?_empty id
    | _ => exact ih

theorem contains_after (history : List StoreCall) (id : RecordId) :
    (after history).contains id = (firstOffer? history id).isSome := by
  rw [contains_eq_isSome, get?_after]

theorem size_after (history : List StoreCall) : (after history).size = accepted history := by
  induction history with
  | nil => rfl
  | cons c earlier ih =>
    cases c with
    | insert id t =>
      rw [accepted, ← ih]
      exact size_insert_snd _ id t
    | clear => rfl
    | _ => exact ih

/-- The store after these calls answers as the first offers since the last `clear` have it. -/
structure KeepsFirst (history : List StoreCall) : Prop where
  found : ∀ id, ((after history).perform (.get id)).1 = .layout (firstOffer? history id)
  inserted : ∀ id t, ((after history).perform (.insert id t)).1 = .flag (firstOffer? history id).isNone
  unchanged : ∀ id t, ((after history).perform (.insert id t)).1 = .flag false →
    after (.insert id t :: history) = after history
  contained : ∀ id, ((after history).perform (.contains id)).1 = .flag (firstOffer? history id).isSome
  emptied : ((after history).perform .isEmpty).1 = .flag true ↔ ∀ id, firstOffer? history id = none
  counted : ((after history).perform .size).1 = .count (accepted history)
  iterated : ∃ entries, ((after history).perform .iterate).1 = .layouts entries ∧
    (entries.map (·.1.toInt)).Pairwise (· < ·) ∧
    (∀ id t, (id, t) ∈ entries ↔ firstOffer? history id = some t) ∧
    listedEntries? (after history).renderListing = some (entries.map fun x => (x.1, x.2.entry.typeName))

/-- After any calls on an empty store, a look-up finds the first layout that was offered for the id since the last
`clear`, and nothing if there was none. An insert is accepted just if it is that first offer, and otherwise changes
nothing. The other answers agree with the look-ups: which ids are contained, whether there are any, how many inserts
were accepted. The stored ids come by ascending number, each once and with the layout that is found for it, and the
listing shows these and no others. -/
theorem keeps_first (history : List StoreCall) : KeepsFirst history where
  found id := congrArg StoreAnswer.layout (get?_after history id)
  inserted id t := by
    rw [perform, insert_fst, contains_after, Option.not_isSome]
  unchanged id t refused := by
    rw [perform, insert_fst, StoreAnswer.flag.injEq, Bool.not_eq_false'] at refused
    exact insert_snd_of_contains refused t
  contained id := congrArg StoreAnswer.flag (contains_after history id)
  emptied := by
    rw [perform, StoreAnswer.flag.injEq, isEmpty_iff]
    simp only [get?_after]
  counted := congrArg StoreAnswer.count (size_after history)
  iterated := by
    refine ⟨(after history).toList, rfl, ?_, ?_, ?_⟩
    · have ascending := (after history).ids_ascending
      rw [ids, List.pairwise_map] at ascending
      rw [List.pairwise_map]
      exact ascending.imp fun below => Int64.lt_iff_toInt_lt.1 below
    · intro id t
      rw [mem_toList, get?_after]
    · exact (after history).listedEntries?_renderListing

end RecordStore
end RecordLayout
