import Mathlib
import RecordLayout.Cli.Request
import RecordLayout.Proofs.Dump.RoundTrip
import RecordLayout.Proofs.Layout.View
import RecordLayout.Proofs.Session.Reachable

/-!
# What queries tell of a session

The listing of a session and the texts of its layouts, read back. The listing tells which ids have a layout
and of which type each is, and so do the texts of the layouts (`queries_agree`).
-/
namespace RecordLayout
open Json
open Dump (text? required)

namespace Cli

theorem natOfDigits?_toDigits (k : Nat) : natOfDigits? (Nat.toDigits 10 k) = some k := by
  have leading := Numeral.leading_toDigits k
  have digits : (Nat.toDigits 10 k).all Char.isDigit = true := List.all_eq_true.2 leading.digits
  have nonempty : (Nat.toDigits 10 k).isEmpty = false := by simp [leading.nonempty]
  rw [natOfDigits?, digits, nonempty, Numeral.decimalValue_toDigits]
  rfl

/-- An id is printed as JSON would have it. -/
theorem toList_toString (id : RecordId) : (toString id).toList = writeInteger id.toInt [] := by
  have decimal : (toString id).toList = (toString id.toInt).toList := rfl
  rw [decimal]
  cases id.toInt with
  | ofNat k =>
    rw [writeInteger, List.append_nil]
    exact Nat.toList_repr
  | negSucc k =>
    have parts : toString (Int.negSucc k) = "-" ++ (k + 1).repr := rfl
    rw [parts, String.toList_append, Nat.toList_repr, writeInteger, List.append_nil]
    rfl

/-- Every id is read off its decimal text. -/
theorem recordId?_toString (id : RecordId) : recordId? (toString id) = some id := by
  have bounds : Int64.minValue.toInt ≤ id.toInt ∧ id.toInt ≤ Int64.maxValue.toInt :=
    ⟨id.minValue_le_toInt, id.toInt_le⟩
  have back : Int64.ofInt id.toInt = id := Int64.ofInt_toInt id
  have text := toList_toString id
  cases value : id.toInt with
  | ofNat k =>
    rw [value] at bounds back text
    rw [writeInteger, List.append_nil] at text
    have digit : ∀ c ds, (toString id).toList = c :: ds → c.isDigit = true := by
      intro c ds split
      exact (Numeral.leading_toDigits k).digits c (text ▸ split ▸ List.mem_cons_self)
    have cast : ((k : Nat) : Int) = Int.ofNat k := rfl
    unfold recordId?
    split
    · next ds signed => exact absurd (digit '-' ds signed) (by decide)
    · next ds signed => exact absurd (digit '+' ds signed) (by decide)
    · simp -implicitDefEqProofs only [text, natOfDigits?_toDigits, Option.pure_def, Option.bind_eq_bind,
        Option.bind_some, Option.map_some]
      rw [cast, if_pos bounds, back]
  | negSucc k =>
    rw [value] at bounds back text
    rw [writeInteger, List.append_nil] at text
    have negated : -((k + 1 : Nat) : Int) = Int.negSucc k := rfl
    unfold recordId?
    rw [text]
    simp -implicitDefEqProofs only [natOfDigits?_toDigits, Option.pure_def, Option.bind_eq_bind, Option.bind_some,
      Option.map_some, negated]
    rw [if_pos bounds, back]

end Cli

/-! ## The listing -/

/-- The id whose decimal text this is. -/
def decimalId? (text : String) : Option RecordId := (Cli.recordId? text).filter fun id => toString id = text

/-- What a listing says of one layout: its id and its type. -/
def listedRecord? : Value → Option (RecordId × String)
  | .object ms => do
    return (← required (fun v => (text? v).bind decimalId?) "id" ms, ← required text? "name" ms)
  | _ => none

/-- What a listing says, in its order. -/
def listedEntries? (listing : String) : Option (List (RecordId × String)) :=
  (parse maxDepth listing).toOption.bind (Dump.list? listedRecord?)

theorem decimalId?_toString (id : RecordId) : decimalId? (toString id) = some id := by
  rw [decimalId?, Cli.recordId?_toString, Option.filter_some, if_pos (decide_eq_true rfl)]

namespace RecordStore

/-- The ids of the stored layouts with the types of these. -/
def entries (s : RecordStore) : List (RecordId × String) := s.toList.map fun x => (x.1, x.2.entry.typeName)

theorem map_fst_entries (s : RecordStore) : s.entries.map (·.1) = s.ids := by
  rw [entries, ids, List.map_map]
  rfl

theorem length_entries (s : RecordStore) : s.entries.length = s.size := by
  rw [entries, List.length_map, length_toList]

theorem mem_entries {s : RecordStore} {id : RecordId} {name : String} :
    (id, name) ∈ s.entries ↔ ∃ t, s.get? id = some t ∧ t.entry.typeName = name := by
  rw [entries, List.mem_map]
  constructor
  · rintro ⟨⟨id, t⟩, mem, ⟨⟩⟩
    exact ⟨t, mem_toList.1 mem, rfl⟩
  · rintro ⟨t, found, rfl⟩
    exact ⟨(id, t), mem_toList.2 found, rfl⟩

/-- What is written for one stored layout. -/
def entryJson (x : RecordId × String) : Value := .object [("id", .string (toString x.1)), ("name", .string x.2)]

theorem listing_eq (s : RecordStore) : s.listing = .array (s.entries.map entryJson) := by
  rw [listing, entries, List.map_map]
  rfl

theorem listedRecord?_entryJson (x : RecordId × String) : listedRecord? (entryJson x) = some x := by
  simp [listedRecord?, entryJson, required, member?, text?, decimalId?_toString]

theorem writable_entryJson (x : RecordId × String) : (entryJson x).Writable := by
  refine .object ?_
  simp

theorem depth_listing_le (s : RecordStore) : s.listing.depth ≤ 2 := by
  have each : ∀ xs : List (RecordId × String), itemsDepth (xs.map entryJson) ≤ 1 := by
    intro xs
    induction xs with
    | nil => exact Nat.zero_le 1
    | cons x xs ih => exact Nat.max_le.2 ⟨Nat.le_refl 1, ih⟩
  rw [listing_eq]
  exact Nat.succ_le_succ (each s.entries)

/-- The listing tells of the stored layouts, in the order of the store. -/
theorem listedEntries?_renderListing (s : RecordStore) : listedEntries? s.renderListing = some s.entries := by
  have writable : s.listing.Writable := by
    rw [listing_eq]
    exact Dump.writable_map fun x _ => writable_entryJson x
  have shallow : s.listing.depth ≤ maxDepth := Nat.le_trans s.depth_listing_le (by decide)
  rw [listedEntries?, renderListing, parse_render .upper writable shallow, listing_eq]
  exact Dump.list?_map listedRecord?_entryJson s.entries

end RecordStore

/-! ## The texts of layouts -/

/-- A node as an analysis gives it by itself: no part of another record. -/
structure LayoutEntry.IsRoot (e : LayoutEntry) : Prop where
  kind : e.kind = .record
  nameless : e.name = ""
  unmoved : e.offsetBits = 0

theorem Model.isRoot_tree (m : Model) (room : Nat) (outer : List RecordId) (r : RecordDecl) :
    (m.tree room outer r).entry.IsRoot := by
  cases room with
  | zero => exact ⟨rfl, rfl, rfl⟩
  | succ room =>
    rw [tree]
    split <;> exact ⟨rfl, rfl, rfl⟩

theorem Session.Reachable.isRoot_stored {s : Session} (reached : s.Reachable) {id : RecordId} {t : LayoutTree}
    (stored : s.store.get? id = some t) : t.entry.IsRoot := by
  obtain ⟨p, r, -, rfl⟩ := reached.stored stored
  rw [Model.value_layout]
  exact Model.isRoot_tree p.model maxRecordDepth [] r

/-- The text is the object of a record of this type that has no name and stands at offset 0. -/
def ShowsRoot (typeName text : String) : Prop :=
  ∀ limit, text.length ≤ limit → ∃ ms, parse limit text = .ok (.object ms) ∧
    member? "fieldType" ms = some (.string "Record") ∧ member? "name" ms = none ∧
    member? "offset" ms = some (.integer 0) ∧ member? "type" ms = some (.string typeName)

namespace LayoutTree

theorem showsRoot_render {t : LayoutTree} (root : t.entry.IsRoot) : ShowsRoot t.entry.typeName t.render := by
  intro limit enough
  cases t with
  | node e cs =>
    obtain ⟨kind, nameless, unmoved⟩ := root
    rw [entry_node] at kind nameless unmoved
    have offset : Value.ofWord e.offsetBytes = .integer 0 := by rw [LayoutEntry.offsetBytes_eq, unmoved]; rfl
    refine ⟨_, parse_render enough, ?_⟩
    simp [entryMembers, kind, nameless, offset, FieldKind.isAggregate, FieldKind.name, member?]

end LayoutTree

/-- There is nothing in the empty object. -/
theorem ShowsRoot.ne_empty {typeName text : String} (shown : ShowsRoot typeName text) : text ≠ "\x7b\x7d" := by
  rintro rfl
  obtain ⟨ms, read, kind, -⟩ := shown 2 (by decide)
  have empty : parse 2 "\x7b\x7d" = .ok (.object []) := by rfl
  rw [empty] at read
  cases read
  cases kind

namespace Session

theorem layoutOf_of_get? {s : Session} {id : RecordId} {t : LayoutTree} (stored : s.store.get? id = some t) :
    s.layoutOf id = t.render := by
  rw [layoutOf, stored]

theorem layoutOf_of_none {s : Session} {id : RecordId} (missing : s.store.get? id = none) :
    s.layoutOf id = "\x7b\x7d" := by
  rw [layoutOf, missing]

/-- Only an id without a layout is answered with the empty object. -/
theorem Reachable.layoutOf_eq_empty_iff {s : Session} (reached : s.Reachable) (id : RecordId) :
    s.layoutOf id = "\x7b\x7d" ↔ id ∉ s.store.ids := by
  rw [RecordStore.mem_ids, RecordStore.contains_eq_isSome]
  cases stored : s.store.get? id with
  | none => simp [layoutOf_of_none stored]
  | some t =>
    have shown := LayoutTree.showsRoot_render (reached.isRoot_stored stored)
    rw [layoutOf_of_get? stored]
    simp [shown.ne_empty]

end Session

/-- The queries of a session agree on these ids and types. -/
structure Session.Lists (s : Session) (entries : List (RecordId × String)) : Prop where
  listing : listedEntries? s.listRecords.1 = some entries
  stored : ∀ id name, (id, name) ∈ entries ↔ ∃ t, s.store.get? id = some t ∧ t.entry.typeName = name
  ascending : (entries.map (·.1)).Pairwise (· < ·)
  unlisted : ∀ id, s.layoutOf id = "\x7b\x7d" ↔ id ∉ entries.map (·.1)
  shown : ∀ id name, (id, name) ∈ entries → ShowsRoot name (s.layoutOf id)

theorem Session.Reachable.lists {s : Session} (reached : s.Reachable) : s.Lists s.store.entries where
  listing := s.store.listedEntries?_renderListing
  stored _ _ := RecordStore.mem_entries
  ascending := by
    rw [RecordStore.map_fst_entries]
    exact s.store.ids_ascending
  unlisted := by
    rw [RecordStore.map_fst_entries]
    exact reached.layoutOf_eq_empty_iff
  shown id name mem := by
    obtain ⟨t, stored, rfl⟩ := RecordStore.mem_entries.1 mem
    rw [layoutOf_of_get? stored]
    exact LayoutTree.showsRoot_render (reached.isRoot_stored stored)

/-- Whatever led to a session, its queries agree. The listing tells of just the stored layouts, by ascending
ids, and names the type of each. The answer for an id is the empty object if it is not listed, and else a record
of the type that is listed, without a name and at offset 0. -/
theorem queries_agree {s : Session} (reached : s.Reachable) : ∃ entries, s.Lists entries :=
  ⟨s.store.entries, reached.lists⟩

/-- A pass over two records, one with a name that is written with escapes. -/
def quotedNames : Session :=
  (Session.analyze {} ("\x7b\"decls\":[\x7b\"kind\":\"record\",\"id\":4,\"name\":\"A<\\\"q\\n\\\">\"\x7d," ++
    "\x7b\"kind\":\"record\",\"id\":-9223372036854775808,\"name\":\"S\"\x7d]\x7d")).value.2

theorem queries_agree_quotedNames :
    quotedNames.Lists [(-9223372036854775808, "S"), (4, "A<\"q\n\">")] := by
  obtain ⟨entries, lists⟩ := queries_agree (s := quotedNames) (.analyze (.start .dump) _)
  have read : listedEntries? quotedNames.listRecords.1 =
      some [(-9223372036854775808, "S"), (4, "A<\"q\n\">")] := by
    cbv
  rw [lists.listing, Option.some.injEq] at read
  exact read ▸ lists

end RecordLayout
