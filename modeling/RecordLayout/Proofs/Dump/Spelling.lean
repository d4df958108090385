import Mathlib
import RecordLayout.Proofs.Dump.Values
import RecordLayout.Proofs.Json.RoundTrip

/-!
# Spellings of a declaration

One declaration can be spelled in many ways: its members in another order, members that nobody looks at among them,
defaults written out or left out, the structures inside it as objects or as arrays. `Respells` is one such change,
anywhere in the declaration, and none of them changes what is read (`spelling_irrelevant`). Only the order of members
with one key counts, since the last of them does (`order_of_duplicates_counts`).
-/
namespace RecordLayout
open Json Reader

/-! ## Members -/

namespace Json

theorem member?_append (key : String) (before after : List (String × Value)) :
    member? key (before ++ after) = (member? key after).or (member? key before) := by
  induction before with
  | nil => rw [List.nil_append, member?, Option.or_none]
  | cons m before ih =>
    obtain ⟨k, v⟩ := m
    rw [List.cons_append, member?, member?, ih, Option.or_assoc]

theorem isSome_member? {key : String} {ms : List (String × Value)} (present : key ∈ ms.map Prod.fst) :
    (member? key ms).isSome := by
  induction ms with
  | nil => simp at present
  | cons m ms ih =>
    obtain ⟨k, v⟩ := m
    rw [member?, Option.isSome_or]
    rcases List.mem_cons.1 present with here | later
    · rw [if_pos here.symm, Option.isSome_some, Bool.or_true]
    · rw [ih later, Bool.true_or]

theorem member?_eq_none {key : String} {ms : List (String × Value)} (absent : key ∉ ms.map Prod.fst) :
    member? key ms = none := by
  induction ms with
  | nil => rfl
  | cons m ms ih =>
    obtain ⟨k, v⟩ := m
    obtain ⟨other, later⟩ := List.ne_and_not_mem_of_not_mem_cons absent
    rw [member?, ih later, if_neg other.symm]
    rfl

theorem member?_append_cons_of_ne {key k : String} (other : k ≠ key) (before after : List (String × Value))
    (v : Value) : member? key (before ++ (k, v) :: after) = member? key (before ++ after) := by
  rw [member?_append, member?_append, member?, if_neg other, Option.or_none]

theorem member?_append_cons_of_mem {key k : String} {after : List (String × Value)} (later : key ∈ after.map Prod.fst)
    (before : List (String × Value)) (v : Value) :
    member? key (before ++ (k, v) :: after) = member? key (before ++ after) := by
  obtain ⟨w, last⟩ := Option.isSome_iff_exists.1 (isSome_member? later)
  rw [member?_append, member?_append, member?, last, Option.some_or, Option.some_or]

end Json

namespace Dump

/-! ## Forms -/

def recordKeys : List String :=
  ["kind", "id", "name", "complete", "invalid", "size", "align", "hasOwnVptr", "bases", "fields", "decls"]

/-- What is known of one sort of structure: its keys, in the order of its array form, and what stands for absent
members. -/
structure Form where
  keys : List String
  defaults : List (String × Value)

namespace Form

def type : Form := ⟨typeKeys, [("size", .ofWord 0), ("align", .ofWord 0), ("record", .null)]⟩

def base : Form := ⟨baseKeys, [("virtual", .bool false), ("offset", .ofWord 0)]⟩

def field : Form := ⟨fieldKeys, [("name", .string ""), ("bitWidth", .null), ("invalid", .bool false)]⟩

def scope : Form := ⟨["kind", "name", "decls"], [("decls", .array [])]⟩

/-- A record is the only declaration of which more than its name is known. -/
def record : Form where
  keys := recordKeys
  defaults := [("complete", .bool true), ("invalid", .bool false), ("size", .ofWord 0), ("align", .ofWord 0),
    ("hasOwnVptr", .bool false), ("bases", .array []), ("fields", .array []), ("decls", .array [])]

/-- Of a declaration of another kind nothing is known but the kind and the declarations nested in it. -/
def other : Form := ⟨["kind", "decls"], [("decls", .array [])]⟩

def decl (kind : String) : Form :=
  if kind = "namespace" then scope else if kind = "record" then record else other

/-- The value under a key, or what stands for an absent one. -/
def filled (F : Form) (key : String) (ms : List (String × Value)) : Option Value :=
  (member? key ms).or (member? key F.defaults)

/-- Nobody looks at a member with an unknown key, or with the key of a later one. A kind must not be repeated. -/
def Ignored (F : Form) (key : String) (later : List (String × Value)) : Prop :=
  key ∉ F.keys ∨ key ≠ "kind" ∧ key ∈ later.map Prod.fst

/-- One change to the members of a structure. They may be put in any order in which the last member with a known key
still tells the same. -/
inductive Respells (F : Form) : List (String × Value) → List (String × Value) → Prop
  | reordered {ms ms' : List (String × Value)} (perm : ms.Perm ms')
      (last : ∀ key ∈ F.keys, member? key ms' = member? key ms) : Respells F ms ms'
  | inserted {before after : List (String × Value)} {key : String} {v : Value} (ignored : F.Ignored key after) :
      Respells F (before ++ after) (before ++ (key, v) :: after)
  | rewritten {before after : List (String × Value)} {key : String} {v v' : Value} (ignored : F.Ignored key after) :
      Respells F (before ++ (key, v) :: after) (before ++ (key, v') :: after)
  | defaulted {before after : List (String × Value)} {key : String} {v : Value}
      (absent : member? key (before ++ after) = none) (default : member? key F.defaults = some v) :
      Respells F (before ++ after) (before ++ (key, v) :: after)

/-- The items are the members in the order of the keys, with defaults for absent ones. Only defaults are left out, and
only at the end. -/
structure Positional (F : Form) (ms : List (String × Value)) (vs : List Value) : Prop where
  items : (F.keys.take vs.length).map (F.filled · ms) = vs.map some
  omitted : ∀ key ∈ F.keys.drop vs.length, ∃ v, member? key F.defaults = some v ∧ F.filled key ms = some v

end Form

/-! ## Changes of spelling -/

/-- The sorts of structures in a declaration. -/
inductive Part where
  | type | base | field | decl
  deriving DecidableEq, Repr

namespace Part

def form : Part → List (String × Value) → Form
  | type, _ => .type
  | base, _ => .base
  | field, _ => .field
  | decl, ms => .decl (((member? "kind" ms).bind text?).getD "")

/-- The lists in a declaration, by their keys. -/
def lists : List (String × Part) := [("bases", base), ("fields", field), ("decls", decl)]

/-- Both values are read as the same, or neither is a structure of this sort. -/
def Alike : Part → Value → Value → Prop
  | type, v, v' => type? v' = type? v
  | base, v, v' => base? v' = base? v
  | field, v, v' => field? v' = field? v
  | decl, v, v' => decl? v' = decl? v

end Part

/-- One change to the spelling of a structure: to its members, from the object to the array form, or to a structure
inside it. -/
inductive Respells : Part → Value → Value → Prop
  | members {part : Part} {ms ms' : List (String × Value)} (change : (part.form ms).Respells ms ms') :
      Respells part (.object ms) (.object ms')
  | positional {part : Part} {ms : List (String × Value)} {vs : List Value} (structured : part ≠ .decl)
      (listed : (part.form ms).Positional ms vs) : Respells part (.object ms) (.array vs)
  | typeMember {before after : List (String × Value)} {v v' : Value} (change : Respells .type v v') :
      Respells .field (.object (before ++ ("type", v) :: after)) (.object (before ++ ("type", v') :: after))
  | typeItem {name v v' : Value} {vs : List Value} (change : Respells .type v v') :
      Respells .field (.array (name :: v :: vs)) (.array (name :: v' :: vs))
  | item {key : String} {part : Part} {before after : List (String × Value)} {vs ws : List Value} {v v' : Value}
      (holds : (key, part) ∈ Part.lists) (change : Respells part v v') :
      Respells .decl (.object (before ++ (key, .array (vs ++ v :: ws)) :: after))
        (.object (before ++ (key, .array (vs ++ v' :: ws)) :: after))

namespace Form

variable {F : Form} {ms ms' before after : List (String × Value)} {key : String} {vs : List Value}

theorem Ignored.member?_eq {k : String} (ignored : F.Ignored k after) (known : key ∈ F.keys) (v : Value) :
    member? key (before ++ (k, v) :: after) = member? key (before ++ after) := by
  by_cases other : k = key
  · subst other
    rcases ignored with unknown | ⟨-, later⟩
    · exact absurd known unknown
    · exact member?_append_cons_of_mem later before v
  · exact member?_append_cons_of_ne other before after v

/-- No change to the members shows through a known key. -/
theorem Respells.filled_eq (change : F.Respells ms ms') (known : key ∈ F.keys) :
    F.filled key ms' = F.filled key ms := by
  cases change with
  | reordered _ last => rw [filled, filled, last key known]
  | inserted ignored => rw [filled, filled, ignored.member?_eq known]
  | rewritten ignored => rw [filled, filled, ignored.member?_eq known, ignored.member?_eq known]
  | @defaulted before after k v absent default =>
    by_cases other : k = key
    · subst other
      have given : member? k (before ++ (k, v) :: after) = some v := by
        rw [member?_append] at absent
        obtain ⟨later, earlier⟩ := Option.or_eq_none_iff.1 absent
        rw [member?_append, member?, later, earlier, if_pos rfl, Option.none_or, Option.some_or]
      rw [filled, filled, given, absent, default, Option.some_or, Option.none_or]
    · rw [filled, filled, member?_append_cons_of_ne other]

theorem fst_mem_of_mem_zip {keys : List String} (mem : key ∈ (keys.zip vs).map Prod.fst) : key ∈ keys := by
  obtain ⟨m, inside, rfl⟩ := List.mem_map.1 mem
  exact (List.of_mem_zip inside).1

/-- Items paired with keys, said for any keys so that it can be shown one key after the other. -/
theorem filled_zip {keys : List String} (distinct : keys.Nodup) {vs : List Value}
    (items : (keys.take vs.length).map (F.filled · ms) = vs.map some)
    (omitted : ∀ key ∈ keys.drop vs.length, F.filled key ms = member? key F.defaults) (known : key ∈ keys) :
    F.filled key (keys.zip vs) = F.filled key ms := by
  induction keys generalizing vs with
  | nil => cases known
  | cons k keys ih =>
    obtain ⟨first, distinct⟩ := List.nodup_cons.1 distinct
    cases vs with
    | nil => exact (omitted key known).symm
    | cons v vs =>
      rw [List.length_cons, List.take_succ_cons, List.map_cons, List.map_cons] at items
      obtain ⟨here, items⟩ := List.cons_eq_cons.1 items
      rw [List.zip_cons_cons]
      rcases List.mem_cons.1 known with rfl | later
      · rw [filled, member?, member?_eq_none fun mem => first (fst_mem_of_mem_zip mem), if_pos rfl, here]
        rfl
      · have other : k ≠ key := fun same => first (same ▸ later)
        have rest := ih distinct items omitted later
        rw [← rest, filled, filled, member?, if_neg other, Option.or_none]

/-- The array form fills every key as the object does. -/
theorem Positional.filled_eq (listed : F.Positional ms vs) (distinct : F.keys.Nodup) (known : key ∈ F.keys) :
    F.filled key (F.keys.zip vs) = F.filled key ms := by
  refine filled_zip distinct listed.items (fun key mem => ?_) known
  obtain ⟨v, default, filled⟩ := listed.omitted key mem
  rw [default, filled]

theorem Positional.length_le (listed : F.Positional ms vs) : vs.length ≤ F.keys.length := by
  have lengths := congrArg List.length listed.items
  rw [List.length_map, List.length_map, List.length_take] at lengths
  omega

theorem required_eq (F : Form) (key : String) (needed : member? key F.defaults = none) {α : Type}
    (read : Value → Option α) (ms : List (String × Value)) : required read key ms = (F.filled key ms).bind read := by
  rw [required, filled, needed, Option.or_none]

theorem defaulted_eq (F : Form) (key : String) {v : Value} (default : member? key F.defaults = some v) {α : Type}
    {read : Value → Option α} {a : α} (means : read v = some a) (ms : List (String × Value)) :
    defaulted a read key ms = (F.filled key ms).bind read := by
  rw [defaulted, filled, default]
  cases member? key ms with
  | none => exact means.symm
  | some w => rfl

end Form

/-! ## Structures -/

section Structures

variable {v v' : Value} {ms ms' : List (String × Value)}

/-- A type depends on nothing but what fills its keys, be they absent or not; so do the other structures. -/
theorem type?_congr (here : members? typeKeys v = some ms) (there : members? typeKeys v' = some ms')
    (same : ∀ key ∈ typeKeys, Form.type.filled key ms' = Form.type.filled key ms) : type? v' = type? v := by
  have name := Form.type.required_eq "name" rfl text?
  have size := Form.type.defaulted_eq "size" rfl (word64?_ofWord 0)
  have align := Form.type.defaulted_eq "align" rfl (word64?_ofWord 0)
  have record := Form.type.defaulted_eq "record" rfl (rfl : nullable? id? .null = some none)
  simp only [typeKeys, List.forall_mem_cons] at same
  simp only [type?, here, there, Option.bind_eq_bind, Option.bind_some, name, size, align, record, same]

theorem base?_congr (here : members? baseKeys v = some ms) (there : members? baseKeys v' = some ms')
    (same : ∀ key ∈ baseKeys, Form.base.filled key ms' = Form.base.filled key ms) : base? v' = base? v := by
  have record := Form.base.required_eq "record" rfl id?
  have isVirtual := Form.base.defaulted_eq "virtual" rfl (rfl : flag? (.bool false) = some false)
  have offset := Form.base.defaulted_eq "offset" rfl (word64?_ofWord 0)
  simp only [baseKeys, List.forall_mem_cons] at same
  simp only [base?, here, there, Option.bind_eq_bind, Option.bind_some, record, isVirtual, offset, same]

/-- Of the type of a field, only what it is read as counts. -/
theorem field?_congr (here : members? fieldKeys v = some ms) (there : members? fieldKeys v' = some ms')
    (same : ∀ key ∈ fieldKeys, key ≠ "type" → Form.field.filled key ms' = Form.field.filled key ms)
    (type : (Form.field.filled "type" ms').bind type? = (Form.field.filled "type" ms).bind type?) :
    field? v' = field? v := by
  have name := Form.field.defaulted_eq "name" rfl (rfl : text? (.string "") = some "")
  have offsetBits := Form.field.required_eq "offsetBits" rfl word64?
  have typed := Form.field.required_eq "type" rfl type?
  have bitWidth := Form.field.defaulted_eq "bitWidth" rfl (rfl : nullable? word64? .null = some none)
  have invalid := Form.field.defaulted_eq "invalid" rfl (rfl : flag? (.bool false) = some false)
  simp -implicitDefEqProofs [fieldKeys] at same
  simp only [field?, here, there, Option.bind_eq_bind, Option.bind_some, name, typed, offsetBits, bitWidth, invalid,
    same, type]

theorem list?_nil {α : Type} (read : Value → Option α) : list? read (.array []) = some [] := rfl

theorem list?_congr {α : Type} {read : Value → Option α} (same : read v' = read v) (vs ws : List Value) :
    list? read (.array (vs ++ v' :: ws)) = list? read (.array (vs ++ v :: ws)) := by
  rw [list?, list?, List.mapM_append, List.mapM_append, List.mapM_cons, List.mapM_cons, same]

theorem declItems?_eq (vs : List Value) : declItems? vs = vs.mapM decl? := by
  induction vs with
  | nil => rfl
  | cons v vs ih => rw [declItems?, ih, List.mapM_cons]

theorem decls?_eq : decls? = list? decl? := by
  funext v
  cases v with
  | array vs => rw [decls?, list?, declItems?_eq]
  | _ => rfl

theorem getD_nested? (ms : List (String × Value)) :
    (nested? ms).getD (some []) = defaulted [] (list? decl?) "decls" ms := by
  rw [nested?_eq, decls?_eq, defaulted]
  cases member? "decls" ms <;> rfl

theorem record?_congr
    (plain : ∀ key ∈ recordKeys, key ∉ Part.lists.map Prod.fst → Form.record.filled key ms' = Form.record.filled key ms)
    (bases : (Form.record.filled "bases" ms').bind (list? base?) = (Form.record.filled "bases" ms).bind (list? base?))
    (fields : (Form.record.filled "fields" ms').bind (list? field?) =
      (Form.record.filled "fields" ms).bind (list? field?)) : record? ms' = record? ms := by
  have id := Form.record.required_eq "id" rfl id?
  have name := Form.record.required_eq "name" rfl text?
  have complete := Form.record.defaulted_eq "complete" rfl (rfl : flag? (.bool true) = some true)
  have invalid := Form.record.defaulted_eq "invalid" rfl (rfl : flag? (.bool false) = some false)
  have size := Form.record.defaulted_eq "size" rfl (word64?_ofWord 0)
  have align := Form.record.defaulted_eq "align" rfl (word64?_ofWord 0)
  have hasOwnVptr := Form.record.defaulted_eq "hasOwnVptr" rfl (rfl : flag? (.bool false) = some false)
  have based := Form.record.defaulted_eq "bases" rfl (list?_nil base?)
  have fielded := Form.record.defaulted_eq "fields" rfl (list?_nil field?)
  simp -implicitDefEqProofs [recordKeys, Part.lists] at plain
  simp only [record?, id, name, complete, invalid, size, align, hasOwnVptr, based, fielded, plain, bases, fields]

/-- A declaration of some kind depends on what is read of the lists in it, and on the values of its other members. -/
theorem declOf?_congr {kind : String}
    (plain : ∀ key ∈ (Form.decl kind).keys, key ∉ Part.lists.map Prod.fst →
      (Form.decl kind).filled key ms' = (Form.decl kind).filled key ms)
    (bases : "bases" ∈ (Form.decl kind).keys → ((Form.decl kind).filled "bases" ms').bind (list? base?) =
      ((Form.decl kind).filled "bases" ms).bind (list? base?))
    (fields : "fields" ∈ (Form.decl kind).keys → ((Form.decl kind).filled "fields" ms').bind (list? field?) =
      ((Form.decl kind).filled "fields" ms).bind (list? field?))
    (decls : "decls" ∈ (Form.decl kind).keys → ((Form.decl kind).filled "decls" ms').bind (list? decl?) =
      ((Form.decl kind).filled "decls" ms).bind (list? decl?)) :
    declOf? kind ms' ((nested? ms').getD (some [])) = declOf? kind ms ((nested? ms).getD (some [])) := by
  rw [getD_nested?, getD_nested?]
  by_cases namespaced : kind = "namespace"
  · subst namespaced
    have name := Form.scope.required_eq "name" rfl text?
    have nested := Form.scope.defaulted_eq "decls" rfl (list?_nil decl?)
    have named : Form.scope.filled "name" ms' = Form.scope.filled "name" ms := plain "name" (by decide) (by decide)
    have inner : (Form.scope.filled "decls" ms').bind (list? decl?) =
        (Form.scope.filled "decls" ms).bind (list? decl?) := decls (by decide)
    rw [declOf?, declOf?, if_pos rfl, if_pos rfl]
    simp only [name, nested, named, inner]
  · by_cases recorded : kind = "record"
    · subst recorded
      have nested := Form.record.defaulted_eq "decls" rfl (list?_nil decl?)
      have head : record? ms' = record? ms := record?_congr plain (bases (by decide)) (fields (by decide))
      have inner : (Form.record.filled "decls" ms').bind (list? decl?) =
          (Form.record.filled "decls" ms).bind (list? decl?) := decls (by decide)
      rw [declOf?, declOf?, if_neg namespaced, if_neg namespaced, if_pos rfl, if_pos rfl]
      simp only [head, nested, inner]
    · have form : Form.decl kind = Form.other := (if_neg namespaced).trans (if_neg recorded)
      have nested := Form.other.defaulted_eq "decls" rfl (list?_nil decl?)
      rw [form] at decls
      have inner := decls (by decide)
      rw [declOf?, declOf?, if_neg namespaced, if_neg namespaced, if_neg recorded, if_neg recorded]
      simp only [nested, inner]

theorem Form.kind_mem_decl (kind : String) : "kind" ∈ (Form.decl kind).keys := by
  rw [Form.decl]
  split_ifs <;> decide

theorem Form.kind_needed (kind : String) : member? "kind" (Form.decl kind).defaults = none := by
  rw [Form.decl]
  split_ifs <;> rfl

theorem Form.filled_kind (kind : String) (ms : List (String × Value)) :
    (Form.decl kind).filled "kind" ms = member? "kind" ms := by
  rw [Form.filled, Form.kind_needed, Option.or_none]

theorem decl?_congr
    (plain : ∀ key ∈ (Part.decl.form ms).keys, key ∉ Part.lists.map Prod.fst →
      (Part.decl.form ms).filled key ms' = (Part.decl.form ms).filled key ms)
    (bases : "bases" ∈ (Part.decl.form ms).keys → ((Part.decl.form ms).filled "bases" ms').bind (list? base?) =
      ((Part.decl.form ms).filled "bases" ms).bind (list? base?))
    (fields : "fields" ∈ (Part.decl.form ms).keys → ((Part.decl.form ms).filled "fields" ms').bind (list? field?) =
      ((Part.decl.form ms).filled "fields" ms).bind (list? field?))
    (decls : "decls" ∈ (Part.decl.form ms).keys → ((Part.decl.form ms).filled "decls" ms').bind (list? decl?) =
      ((Part.decl.form ms).filled "decls" ms).bind (list? decl?)) : decl? (.object ms') = decl? (.object ms) := by
  have kind : member? "kind" ms' = member? "kind" ms := by
    have filled := plain "kind" (Form.kind_mem_decl _) (by decide)
    rwa [Part.form, Form.filled_kind, Form.filled_kind] at filled
  rw [decl?, decl?, required, required, kind]
  cases text : (member? "kind" ms).bind text? with
  | none => rfl
  | some k =>
    have form : Part.decl.form ms = Form.decl k := by
      rw [Part.form, text]
      rfl
    rw [form] at plain bases fields decls
    exact declOf?_congr plain bases fields decls

end Structures

/-! ## What a change leaves as it is -/

namespace Form

variable {F : Form} {key k : String} {before after : List (String × Value)} {v v' : Value}

theorem filled_replaced (other : key ≠ k) :
    F.filled key (before ++ (k, v') :: after) = F.filled key (before ++ (k, v) :: after) := by
  rw [filled, filled, member?_append_cons_of_ne other.symm, member?_append_cons_of_ne other.symm]

theorem bind_filled_replaced {α : Type} {read : Value → Option α} (alike : key = k → read v' = read v) :
    (F.filled key (before ++ (k, v') :: after)).bind read = (F.filled key (before ++ (k, v) :: after)).bind read := by
  by_cases same : key = k
  · subst same
    rw [filled, filled, member?_append, member?_append, member?, member?, if_pos rfl, if_pos rfl]
    cases member? key after with
    | none => exact alike rfl
    | some w => rfl
  · rw [filled_replaced same]

end Form

theorem members?_array {keys : List String} {vs : List Value} (fits : vs.length ≤ keys.length) :
    members? keys (.array vs) = some (keys.zip vs) := if_pos fits

theorem Part.nodup_keys {part : Part} (structured : part ≠ .decl) (ms : List (String × Value)) :
    (part.form ms).keys.Nodup := by
  cases part with
  | type => exact (by decide : typeKeys.Nodup)
  | base => exact (by decide : baseKeys.Nodup)
  | field => exact (by decide : fieldKeys.Nodup)
  | decl => exact absurd rfl structured

/-- The list under one key of a declaration may change as long as it is read as before. -/
theorem decl?_replaced {k : String} {before after : List (String × Value)} {v v' : Value}
    (listed : k ∈ Part.lists.map Prod.fst)
    (bases : k = "bases" → list? base? v' = list? base? v)
    (fields : k = "fields" → list? field? v' = list? field? v)
    (decls : k = "decls" → list? decl? v' = list? decl? v) :
    decl? (.object (before ++ (k, v') :: after)) = decl? (.object (before ++ (k, v) :: after)) :=
  decl?_congr (fun _ _ plain => Form.filled_replaced fun same => plain (same ▸ listed))
    (fun _ => Form.bind_filled_replaced fun same => bases same.symm)
    (fun _ => Form.bind_filled_replaced fun same => fields same.symm)
    (fun _ => Form.bind_filled_replaced fun same => decls same.symm)

/-- No change of spelling changes what is read. -/
theorem Respells.alike {part : Part} {v v' : Value} (change : Respells part v v') : part.Alike v v' := by
  have typed : "type" ∈ fieldKeys := by decide
  -- The parts differ in their readers only; what a structure inside is read as is the induction hypothesis.
  induction change with
  | @members part ms ms' change =>
    cases part with
    | type => exact type?_congr rfl rfl fun _ known => change.filled_eq known
    | base => exact base?_congr rfl rfl fun _ known => change.filled_eq known
    | field =>
      exact field?_congr rfl rfl (fun _ known _ => change.filled_eq known)
        (congrArg (·.bind type?) (change.filled_eq typed))
    | decl =>
      exact decl?_congr (fun _ known _ => change.filled_eq known)
        (fun known => congrArg (·.bind (list? base?)) (change.filled_eq known))
        (fun known => congrArg (·.bind (list? field?)) (change.filled_eq known))
        (fun known => congrArg (·.bind (list? decl?)) (change.filled_eq known))
  | @positional part ms vs structured listed =>
    have same : ∀ key ∈ (part.form ms).keys, _ := fun _ known => listed.filled_eq (Part.nodup_keys structured ms) known
    have array := members?_array listed.length_le
    cases part with
    | type => exact type?_congr rfl array same
    | base => exact base?_congr rfl array same
    | field => exact field?_congr rfl array (fun key known _ => same key known) (congrArg (·.bind type?) (same _ typed))
    | decl => exact absurd rfl structured
  | typeMember _ ih =>
    exact field?_congr rfl rfl (fun _ _ other => Form.filled_replaced other) (Form.bind_filled_replaced fun _ => ih)
  | @typeItem name v v' vs _ ih =>
    by_cases fits : (name :: v :: vs).length ≤ fieldKeys.length
    · -- As members, the items are those of an object with the type in second place.
      let named : List (String × Value) := [("name", name)]
      let others := ["offsetBits", "bitWidth", "invalid"].zip vs
      have array : ∀ w, members? fieldKeys (.array (name :: w :: vs)) = some (named ++ ("type", w) :: others) :=
        fun w => members?_array fits
      exact field?_congr (array v) (array v') (fun _ _ other => Form.filled_replaced other)
        (Form.bind_filled_replaced fun _ => ih)
    · have none : ∀ w, members? fieldKeys (.array (name :: w :: vs)) = none := fun w => if_neg fits
      have unread : ∀ w, field? (.array (name :: w :: vs)) = Option.none := by
        intro w
        rw [field?, none]
        rfl
      exact (unread v').trans (unread v).symm
  | @item key part before after vs ws v v' holds _ ih =>
    have listed : key ∈ Part.lists.map Prod.fst := List.mem_map_of_mem holds
    simp only [Part.lists, List.mem_cons, Prod.mk.injEq, List.not_mem_nil, or_false] at holds
    rcases holds with ⟨rfl, rfl⟩ | ⟨rfl, rfl⟩ | ⟨rfl, rfl⟩
    · exact decl?_replaced listed (fun _ => list?_congr ih vs ws) (fun same => absurd same (by decide))
        (fun same => absurd same (by decide))
    · exact decl?_replaced listed (fun same => absurd same (by decide)) (fun _ => list?_congr ih vs ws)
        (fun same => absurd same (by decide))
    · exact decl?_replaced listed (fun same => absurd same (by decide)) (fun same => absurd same (by decide))
        (fun _ => list?_congr ih vs ws)

/-! ## Declaration texts -/

theorem count_kind_append_cons {k : String} (other : k ≠ "kind") (before after : List (String × Value)) (v : Value) :
    ((before ++ (k, v) :: after).map Prod.fst).count "kind" = ((before ++ after).map Prod.fst).count "kind" := by
  rw [List.map_append, List.map_cons, List.count_append, List.count_cons_of_ne other, List.map_append,
    List.count_append]

namespace Form

variable {kind key : String} {ms ms' later : List (String × Value)}

theorem Ignored.ne_kind (ignored : (decl kind).Ignored key later) : key ≠ "kind" := by
  rintro rfl
  rcases ignored with unknown | ⟨other, -⟩
  · exact unknown (kind_mem_decl kind)
  · exact other rfl

/-- A kind that is given once still is. -/
theorem Respells.count_kind (change : (decl kind).Respells ms ms') :
    (ms'.map Prod.fst).count "kind" = (ms.map Prod.fst).count "kind" := by
  cases change with
  | reordered perm _ => exact (perm.map Prod.fst).symm.count_eq "kind"
  | inserted ignored => exact count_kind_append_cons ignored.ne_kind _ _ _
  | rewritten ignored =>
    exact (count_kind_append_cons ignored.ne_kind _ _ _).trans (count_kind_append_cons ignored.ne_kind _ _ _).symm
  | defaulted _ default =>
    refine count_kind_append_cons ?_ _ _ _
    rintro rfl
    rw [kind_needed] at default
    cases default

end Form

/-- A declaration as the reader takes it: an object that gives its kind once, and the declaration read from it. -/
def Decodes (v : Value) (d : Decl) : Prop :=
  ∃ ms, v = .object ms ∧ (ms.map Prod.fst).count "kind" = 1 ∧ decl? (.object ms) = some d

theorem Respells.decodes {v v' : Value} {d : Decl} (change : Respells .decl v v') (decodes : Decodes v d) :
    Decodes v' d := by
  obtain ⟨ms, rfl, once, made⟩ := decodes
  have alike : decl? v' = some d := change.alike.trans made
  cases change with
  | members change => exact ⟨_, rfl, change.count_kind.trans once, alike⟩
  | positional structured _ => exact absurd rfl structured
  | item _ _ =>
    refine ⟨_, rfl, ?_, alike⟩
    rw [List.map_append, List.map_cons] at once ⊢
    exact once

theorem decodes_of_respelled {v v' : Value} {d : Decl} (changes : Relation.ReflTransGen (Respells .decl) v v')
    (decodes : Decodes v d) : Decodes v' d := by
  induction changes with
  | refl => exact decodes
  | tail _ change ih => exact change.decodes ih

/-- A text is read as a declaration just if it is read as a value that is one. -/
theorem parseDecl_eq_ok_iff {text : String} {d : Decl} :
    parseDecl text = .ok d ↔ ∃ v, Json.parse maxDepth text = .ok v ∧ Decodes v d := by
  rw [parseDecl, Json.parse]
  constructor
  · intro read
    obtain ⟨rest, read, blank⟩ := whole_eq_ok.1 read
    obtain ⟨ms, value, once, made⟩ := readDecl_eq_ok_iff.1 read
    exact ⟨.object ms, whole_eq_ok.2 ⟨rest, value, blank⟩, ms, rfl, once, made⟩
  · rintro ⟨_, read, ms, rfl, once, made⟩
    obtain ⟨rest, value, blank⟩ := whole_eq_ok.1 read
    exact whole_eq_ok.2 ⟨rest, readDecl_eq_ok_iff.2 ⟨ms, value, once, made⟩, blank⟩

/-- However a declaration is spelled, it is read as the same. -/
theorem spelling_irrelevant {text : String} {d : Decl} (accepted : parseDecl text = .ok d) :
    ∃ v, Json.parse maxDepth text = .ok v ∧ ∀ text' v', Json.parse maxDepth text' = .ok v' →
      Relation.ReflTransGen (Respells .decl) v v' → parseDecl text' = .ok d := by
  obtain ⟨v, read, decodes⟩ := parseDecl_eq_ok_iff.1 accepted
  refine ⟨v, read, fun text' v' read' changes => ?_⟩
  exact parseDecl_eq_ok_iff.2 ⟨v', read', decodes_of_respelled changes decodes⟩

/-- A record with a base that is written as an object. -/
def plainText : String :=
  "\x7b\"kind\":\"record\",\"id\":1,\"name\":\"A\",\"bases\":[\x7b\"record\":2,\"offset\":8\x7d]\x7d"

/-- The same record with the base as an array, its size written out behind another one, and a note. -/
def otherText : String :=
  "\x7b\"size\":7,\"kind\":\"record\",\"id\":1,\"size\":0,\"name\":\"A\",\"note\":[null],\"bases\":[[2,false,8]]\x7d"

theorem spelling_irrelevant_otherText :
    parseDecl plainText = .ok (.record { id := 1, name := "A", bases := [{ record := 2, offset := 8 }] } []) ∧
      parseDecl otherText = .ok (.record { id := 1, name := "A", bases := [{ record := 2, offset := 8 }] } []) := by
  have accepted : parseDecl plainText =
      .ok (.record { id := 1, name := "A", bases := [{ record := 2, offset := 8 }] } []) := by cbv
  refine ⟨accepted, ?_⟩
  obtain ⟨v, read, same⟩ := spelling_irrelevant accepted
  let front : List (String × Value) := [("kind", .string "record"), ("id", .integer 1)]
  let name : String × Value := ("name", .string "A")
  let size (n : Int) : String × Value := ("size", .integer n)
  let note : String × Value := ("note", .array [.null])
  let base : Value := .object [("record", .integer 2), ("offset", .integer 8)]
  let items : Value := .array [.integer 2, .bool false, .integer 8]
  have value : Json.parse maxDepth plainText = .ok (.object (front ++ name :: [("bases", .array [base])])) := by cbv
  obtain rfl : v = .object (front ++ name :: [("bases", .array [base])]) := Except.ok.inj (read.symm.trans value)
  have based : Respells .base base items := .positional (by decide) ⟨rfl, by simp [Part.form, Form.base, baseKeys]⟩
  have listed : Respells .decl (.object ((front ++ [name]) ++ ("bases", .array ([] ++ base :: [])) :: []))
      (.object ((front ++ [name]) ++ ("bases", .array ([] ++ items :: [])) :: [])) := .item (by simp [Part.lists]) based
  let bases : String × Value := ("bases", .array [items])
  have sized : Respells .decl (.object (front ++ [name, bases])) (.object (front ++ size 0 :: [name, bases])) :=
    .members (.defaulted rfl rfl)
  have noted : Respells .decl (.object ((front ++ [size 0, name]) ++ [bases]))
      (.object ((front ++ [size 0, name]) ++ note :: [bases])) := .members (.inserted (.inl (by decide)))
  have overridden : Respells .decl (.object (front ++ [size 0, name, note, bases]))
      (.object (front ++ size 7 :: [size 0, name, note, bases])) :=
    .members (.inserted (.inr ⟨by decide, List.mem_cons_self⟩))
  have reordered : Respells .decl (.object (front ++ size 7 :: [size 0, name, note, bases]))
      (.object (size 7 :: (front ++ [size 0, name, note, bases]))) := by
    refine .members (.reordered List.perm_middle fun key _ => ?_)
    by_cases sized : key = "size"
    · subst sized
      rfl
    · simp [front, size, member?, Ne.symm sized]
  have spelled := (((Relation.ReflTransGen.single listed).tail sized).tail noted).tail overridden
  exact same otherText _ (by cbv) (spelled.tail reordered)

/-- Of several members with one key the last counts, so that their order matters. -/
theorem order_of_duplicates_counts :
    ¬∀ (text text' : String) (ms ms' : List (String × Value)) (d : Decl),
      parseDecl text = .ok d → Json.parse maxDepth text = .ok (.object ms) → (ms.map Prod.fst).count "kind" = 1 →
      Json.parse maxDepth text' = .ok (.object ms') → ms.Perm ms' → parseDecl text' = .ok d := by
  intro claim
  let front : List (String × Value) := [("kind", .string "record"), ("id", .integer 1), ("name", .string "A")]
  have same := claim "\x7b\"kind\":\"record\",\"id\":1,\"name\":\"A\",\"size\":1,\"size\":2\x7d"
    "\x7b\"kind\":\"record\",\"id\":1,\"name\":\"A\",\"size\":2,\"size\":1\x7d"
    (front ++ [("size", .integer 1), ("size", .integer 2)]) (front ++ [("size", .integer 2), ("size", .integer 1)])
    (.record { id := 1, name := "A", size := 2 } []) (by cbv) (by cbv) (by decide) (by cbv)
    ((List.Perm.swap _ _ []).append_left front)
  have other : parseDecl "\x7b\"kind\":\"record\",\"id\":1,\"name\":\"A\",\"size\":2,\"size\":1\x7d" =
      .ok (.record { id := 1, name := "A", size := 1 } []) := by cbv
  cases other.symm.trans same

end Dump
end RecordLayout
