import Mathlib
import RecordLayout.Proofs.Analysis.Members

/-!
# What an analysis warns of

Where the layout of a record falls short, told by rules that know neither runs nor logs: `Model.Degrades`
has the address of the node and the event that reports it. A run warns of each such place once and of
nothing else (`warns_expand`, `mem_sites_iff`, `nodup_sites`).
-/
namespace RecordLayout

/-- The warnings on the way to a value. -/
def Logged.warnings {α : Type} (x : Logged α) : List Event := x.events.filter (·.level = .warn)

/-- Inside the records `outer`, a record is laid out with its members. -/
def RecordDecl.Enters (r : RecordDecl) (outer : List RecordId) : Prop :=
  outer.length < maxRecordDepth ∧ r.id ∉ outer

namespace Model

/-- What is wrong with a base of `owner`, whatever the record that it names. -/
inductive BaseFault (m : Model) (owner : RecordDecl) (b : BaseSpec) : Event → Prop
  | incomplete {c : RecordDecl} (named : m.record? b.record = some c) (forward : c.complete = false) :
      BaseFault m owner b (.incompleteBase c.name c.id)
  | unresolved (named : m.record? b.record = none) : BaseFault m owner b (.unresolvedBase b.record)
  | outOfRange (far : 2 ^ 61 ≤ b.offset.toNat) : BaseFault m owner b (.offsetOutOfRange b.record owner.name b.offset)

/-- The layout of `r` inside `outer` falls short at an address. -/
inductive Degrades (m : Model) : List RecordId → RecordDecl → Address → Event → Prop
  | tooDeep {outer : List RecordId} {r : RecordDecl} (full : maxRecordDepth ≤ outer.length) :
      Degrades m outer r [] (.tooDeep r.name r.id)
  | selfContaining {outer : List RecordId} {r : RecordDecl} (room : outer.length < maxRecordDepth)
      (marked : r.id ∈ outer) : Degrades m outer r [] (.selfContaining r.name r.id)
  | base {outer : List RecordId} {r : RecordDecl} {k : Nat} {b : BaseSpec} {e : Event} (enters : r.Enters outer)
      (listed : r.members[k]? = some (.base b)) (fault : m.BaseFault r b e) : Degrades m outer r [k] e
  | inside {outer : List RecordId} {r c : RecordDecl} {k : Nat} {p : Member} {a : Address} {e : Event}
      (enters : r.Enters outer) (listed : r.members[k]? = some p) (named : m.recordOf? p = some c)
      (inner : Degrades m (r.id :: outer) c a e) : Degrades m outer r (k :: a) e

/-! ## The places one by one -/

/-- What is wrong with an id as the name of a base. -/
def nameFaults (m : Model) (id : RecordId) : List Event :=
  match m.record? id with
  | some c => if c.complete then [] else [.incompleteBase c.name c.id]
  | none => [.unresolvedBase id]

/-- What is wrong with a base, in the order in which it is noticed. -/
def baseFaults (m : Model) (owner : String) (b : BaseSpec) : List Event :=
  m.nameFaults b.record ++ if b.offsetBits? = none then [.offsetOutOfRange b.record owner b.offset] else []

/-- The places at a member, where `inner` has those of complete records. -/
def memberSites (m : Model) (inner : RecordDecl → List (Address × Event)) (owner : String) (p : Member) :
    List (Address × Event) :=
  (m.recordOf? p).toList.flatMap inner ++
    match p with
    | .base b => (m.baseFaults owner b).map ([], ·)
    | _ => []

/-- The places in a record inside `outer`, where `room` more can be entered. -/
def sites (m : Model) : Nat → List RecordId → RecordDecl → List (Address × Event)
  | 0, _, r => [([], .tooDeep r.name r.id)]
  | room + 1, outer, r =>
    if r.id ∈ outer then [([], .selfContaining r.name r.id)]
    else r.members.zipIdx.flatMap fun (p, k) =>
      (m.memberSites (m.sites room (r.id :: outer)) r.name p).map fun (a, e) => (k :: a, e)

theorem offsetBits?_eq_none {b : BaseSpec} : b.offsetBits? = none ↔ 2 ^ 61 ≤ b.offset.toNat := by
  simp only [BaseSpec.offsetBits?, ite_eq_right_iff, reduceCtorEq, imp_false, UInt64.size]
  omega

theorem mem_baseFaults {m : Model} {owner : RecordDecl} {b : BaseSpec} {e : Event} :
    e ∈ m.baseFaults owner.name b ↔ m.BaseFault owner b e := by
  rw [baseFaults, nameFaults, List.mem_append]
  constructor
  · rintro (named | far)
    · split at named
      · next c found =>
        split at named
        · cases named
        · next forward =>
          obtain rfl := List.mem_singleton.1 named
          exact .incomplete found (by simpa using forward)
      · next none =>
        obtain rfl := List.mem_singleton.1 named
        exact .unresolved none
    · split at far
      · next out =>
        obtain rfl := List.mem_singleton.1 far
        exact .outOfRange (offsetBits?_eq_none.1 out)
      · cases far
  · rintro (⟨found, forward⟩ | none | far)
    · simp [found, forward]
    · simp [none]
    · simp [offsetBits?_eq_none.2 far]

theorem nodup_baseFaults (m : Model) (owner : String) (b : BaseSpec) : (m.baseFaults owner b).Nodup := by
  unfold baseFaults nameFaults
  cases m.record? b.record with
  | none => by_cases far : b.offsetBits? = none <;> simp [far]
  | some c => cases complete : c.complete <;> by_cases far : b.offsetBits? = none <;> simp [complete, far]

section Sites

variable {m : Model} {outer : List RecordId} {r : RecordDecl} {a : Address} {e : Event}

theorem degrades_of_full (full : maxRecordDepth ≤ outer.length) :
    m.Degrades outer r a e ↔ a = [] ∧ e = .tooDeep r.name r.id := by
  constructor
  · rintro (- | room | enters | enters)
    · exact ⟨rfl, rfl⟩
    · exact absurd full (Nat.not_le_of_lt room)
    · exact absurd full (Nat.not_le_of_lt enters.1)
    · exact absurd full (Nat.not_le_of_lt enters.1)
  · rintro ⟨rfl, rfl⟩
    exact .tooDeep full

theorem degrades_of_marked (room : outer.length < maxRecordDepth) (marked : r.id ∈ outer) :
    m.Degrades outer r a e ↔ a = [] ∧ e = .selfContaining r.name r.id := by
  constructor
  · rintro (full | - | enters | enters)
    · exact absurd full (Nat.not_le_of_lt room)
    · exact ⟨rfl, rfl⟩
    · exact absurd marked enters.2
    · exact absurd marked enters.2
  · rintro ⟨rfl, rfl⟩
    exact .selfContaining room marked

/-- A record that is laid out with its members falls short at one of them or inside it. -/
theorem degrades_of_enters (enters : r.Enters outer) :
    m.Degrades outer r a e ↔ ∃ k p rest, a = k :: rest ∧ r.members[k]? = some p ∧
      ((∃ c, m.recordOf? p = some c ∧ m.Degrades (r.id :: outer) c rest e) ∨
        ∃ b, p = .base b ∧ rest = [] ∧ m.BaseFault r b e) := by
  constructor
  · intro h
    cases h with
    | tooDeep full => exact absurd full (Nat.not_le_of_lt enters.1)
    | selfContaining room marked => exact absurd marked enters.2
    | base _ listed fault => exact ⟨_, _, [], rfl, listed, .inr ⟨_, rfl, rfl, fault⟩⟩
    | inside _ listed named inner => exact ⟨_, _, _, rfl, listed, .inl ⟨_, named, inner⟩⟩
  · rintro ⟨k, p, rest, rfl, listed, ⟨c, named, inner⟩ | ⟨b, rfl, rfl, fault⟩⟩
    · exact .inside enters listed named inner
    · exact .base enters listed fault

theorem mem_memberSites {inner : RecordDecl → List (Address × Event)} {p : Member} :
    (a, e) ∈ m.memberSites inner r.name p ↔
      (∃ c, m.recordOf? p = some c ∧ (a, e) ∈ inner c) ∨
        ∃ b, p = .base b ∧ a = [] ∧ m.BaseFault r b e := by
  cases p with
  | base b => simp [memberSites, ← mem_baseFaults, and_comm, eq_comm]
  | _ => simp [memberSites]

theorem mem_sites_iff {room : Nat} (fits : room = maxRecordDepth - outer.length) :
    (a, e) ∈ m.sites room outer r ↔ m.Degrades outer r a e := by
  induction room generalizing outer r a e with
  | zero =>
    rw [degrades_of_full (by omega), sites, List.mem_singleton, Prod.mk.injEq]
  | succ room ih =>
    rw [sites]
    split
    · next marked =>
      rw [degrades_of_marked (by omega) marked, List.mem_singleton, Prod.mk.injEq]
    · next fresh =>
      have deeper : room = maxRecordDepth - (r.id :: outer).length := by
        rw [List.length_cons]
        omega
      rw [degrades_of_enters ⟨by omega, fresh⟩]
      simp only [List.mem_flatMap, List.mem_map, Prod.exists, List.mem_zipIdx_iff_getElem?, mem_memberSites,
        ih deeper, Prod.mk.injEq]
      constructor
      · rintro ⟨p, k, listed, rest, e, here, rfl, rfl⟩
        exact ⟨k, p, rest, rfl, listed, here⟩
      · rintro ⟨k, p, rest, rfl, listed, here⟩
        exact ⟨p, k, listed, rest, e, here, rfl, rfl⟩

theorem not_fault_of_degrades_root {owner : RecordDecl} {b : BaseSpec} (root : m.Degrades outer r [] e) :
    ¬ m.BaseFault owner b e := by
  rcases root with full | ⟨room, marked⟩ <;> rintro ⟨⟩

theorem nodup_memberSites {inner : RecordDecl → List (Address × Event)} {p : Member}
    (distinct : ∀ c, (inner c).Nodup)
    (apart : ∀ c e b, ([], e) ∈ inner c → ¬ m.BaseFault r b e) : (m.memberSites inner r.name p).Nodup := by
  have inside : ((m.recordOf? p).toList.flatMap inner).Nodup := by
    cases m.recordOf? p with
    | none => exact .nil
    | some c => simpa using distinct c
  cases p with
  | base b =>
    refine inside.append ((nodup_baseFaults m r.name b).map (Prod.mk_right_injective [])) ?_
    intro x within own
    obtain ⟨e, fault, rfl⟩ := List.mem_map.1 own
    obtain ⟨c, -, cut⟩ := List.mem_flatMap.1 within
    exact apart c e b cut (mem_baseFaults.1 fault)
  | _ => simpa [memberSites] using inside

/-- No place is listed twice: the address tells the members apart, and what is wrong with a base itself is no
cut of the record that it names. -/
theorem nodup_sites (m : Model) {room : Nat} {outer : List RecordId} (r : RecordDecl)
    (fits : room = maxRecordDepth - outer.length) : (m.sites room outer r).Nodup := by
  induction room generalizing outer r with
  | zero => exact List.nodup_singleton _
  | succ room ih =>
    rw [sites]
    split
    · exact List.nodup_singleton _
    · have deeper : room = maxRecordDepth - (r.id :: outer).length := by
        rw [List.length_cons]
        omega
      have each : ∀ p, (m.memberSites (m.sites room (r.id :: outer)) r.name p).Nodup := fun p =>
        nodup_memberSites (fun c => ih c deeper) fun c e b mem =>
          not_fault_of_degrades_root ((mem_sites_iff deeper).1 mem)
      rw [List.nodup_flatMap]
      constructor
      · rintro ⟨p, k⟩ -
        refine (each p).map ?_
        rintro ⟨a, e⟩ ⟨a', e'⟩ same
        simpa using same
      · have positions := List.pairwise_map.1 (List.nodup_zipIdx_map_snd r.members)
        refine positions.imp ?_
        rintro ⟨p, k⟩ ⟨q, l⟩ differ x first second
        obtain ⟨y, -, rfl⟩ := List.mem_map.1 first
        obtain ⟨z, -, same⟩ := List.mem_map.1 second
        exact differ (List.cons.inj (Prod.mk.inj same).1).1.symm

end Sites
end Model

/-! ## The log -/

namespace Analysis

variable {α β : Type} {s : InProgress}

/-- A run from `s` gives `a`, keeps the marks and warns of `es`, in whatever order. -/
structure Warns (x : Analysis α) (s : InProgress) (a : α) (es : List Event) : Prop where
  yields : Yields x s a
  warnings : (x s).warnings.Perm es

theorem warns_pure (a : α) : Warns (pure a) s a [] := ⟨yields_pure a, .nil⟩

theorem warns_report {e : Event} (grave : e.level = .warn) : Warns (report e) s () [e] := by
  refine ⟨yields_report e, ?_⟩
  rw [Logged.warnings, report, List.filter_singleton, grave]
  exact .refl _

theorem warns_report_other {e : Event} (light : e.level ≠ .warn) : Warns (report e) s () [] := by
  refine ⟨yields_report e, ?_⟩
  rw [Logged.warnings, report, List.filter_singleton, decide_eq_false light]
  exact .refl _

theorem Warns.bind {x : Analysis α} {f : α → Analysis β} {a : α} {b : β} {es es' : List Event}
    (hx : Warns x s a es) (hf : Warns (f a) s b es') : Warns (x >>= f) s b (es ++ es') := by
  refine ⟨hx.yields.bind hf.yields, ?_⟩
  have step : ((x >>= f) s).events = (x s).events ++ (f (x s).value.1 (x s).value.2).events := rfl
  rw [Logged.warnings, step, hx.yields, List.filter_append]
  exact hx.warnings.append hf.warnings

theorem warns_mapM {f : α → Analysis β} {g : α → β} {es : α → List Event} (l : List α)
    (h : ∀ a ∈ l, Warns (f a) s (g a) (es a)) : Warns (l.mapM f) s (l.map g) (l.flatMap es) := by
  induction l with
  | nil => exact warns_pure []
  | cons a l ih =>
    rw [List.mapM_cons, List.flatMap_cons, ← List.append_nil (l.flatMap es)]
    apply (h a List.mem_cons_self).bind
    apply (ih fun b hb => h b (List.mem_cons_of_mem a hb)).bind
    exact warns_pure _

theorem Warns.perm {x : Analysis α} {a : α} {es es' : List Event} (h : Warns x s a es) (same : es.Perm es') :
    Warns x s a es' :=
  ⟨h.yields, h.warnings.trans same⟩

end Analysis

namespace Model
open Analysis

section Run

variable {m : Model} {expand : RecordDecl → Analysis LayoutTree} {inner : RecordDecl → LayoutTree}
  {sites : RecordDecl → List (Address × Event)} {s : InProgress}

theorem warns_baseRecord (h : ∀ c, Warns (expand c) s (inner c) ((sites c).map (·.2))) (id : RecordId) :
    Warns (m.baseRecord expand id) s (m.namedTree inner id)
      (((m.complete? id).toList.flatMap sites).map (·.2) ++ m.nameFaults id) := by
  unfold baseRecord namedTree nameFaults complete?
  cases m.record? id with
  | none => exact (warns_report (by rfl)).bind (warns_pure _)
  | some c =>
    cases complete : c.complete with
    | false =>
      simp only [Option.filter_some, complete, Bool.false_eq_true, if_false]
      exact (warns_report (by rfl)).bind (warns_pure _)
    | true =>
      simp only [Option.filter_some, complete, if_true, Option.toList_some, List.flatMap_singleton, List.append_nil]
      exact h c

theorem warns_baseNode? (h : ∀ c, Warns (expand c) s (inner c) ((sites c).map (·.2))) (owner : String)
    (b : BaseSpec) :
    Warns (m.baseNode? expand owner b) s (if b.isVirtual then none else some (m.baseTree inner b))
      (if b.isVirtual then [] else (m.memberSites sites owner (.base b)).map (·.2)) := by
  unfold baseNode?
  split
  · exact (warns_report_other (by simp [Event.level])).bind (warns_pure none)
  · have faults : (m.memberSites sites owner (.base b)).map (·.2) =
        (((m.complete? b.record).toList.flatMap sites).map (·.2) ++ m.nameFaults b.record) ++
          if b.offsetBits? = none then [.offsetOutOfRange b.record owner b.offset] else [] := by
      simp [memberSites, recordOf?, baseFaults, Function.comp_def]
    rw [faults]
    apply (warns_baseRecord h b.record).bind
    split
    · exact (warns_report (by rfl)).bind (warns_pure _)
    · exact warns_pure _

theorem warns_fieldNode (h : ∀ c, Warns (expand c) s (inner c) ((sites c).map (·.2))) (owner : String)
    (f : FieldDecl) :
    Warns (m.fieldNode expand f) s (m.fieldTree inner f) ((m.memberSites sites owner (.field f)).map (·.2)) := by
  have inside : (m.memberSites sites owner (.field f)).map (·.2) =
      ((f.type.record.bind m.complete?).toList.flatMap sites).map (·.2) := by
    simp [memberSites, recordOf?]
  rw [inside, fieldNode, fieldTree]
  cases f.type.record.bind m.complete? with
  | none => exact warns_pure _
  | some c =>
    rw [Option.toList_some, List.flatMap_singleton, ← List.append_nil ((sites c).map _)]
    exact (h c).bind (warns_pure _)

/-- Virtual bases contribute nothing. -/
theorem flatMap_bases {α : Type} (r : RecordDecl) (f : BaseSpec → List α) :
    (r.bases.flatMap fun b => if b.isVirtual then [] else f b) = r.directBases.flatMap f := by
  unfold RecordDecl.directBases
  induction r.bases with
  | nil => rfl
  | cons b bs ih => cases h : b.isVirtual <;> simp [h, ih]

theorem warns_assemble (h : ∀ c, Warns (expand c) s (inner c) ((sites c).map (·.2))) (r : RecordDecl) :
    Warns (m.assemble expand r) s (.ofChildren r.entry (m.parts inner r))
      (r.members.flatMap fun p => (m.memberSites sites r.name p).map (·.2)) := by
  have listed : ((r.bases.flatMap fun b =>
      if b.isVirtual then [] else (m.memberSites sites r.name (.base b)).map (·.2)) ++
        r.fields.flatMap fun f => (m.memberSites sites r.name (.field f)).map (·.2)).Perm
      (r.members.flatMap fun p => (m.memberSites sites r.name p).map (·.2)) := by
    have vptr : ((if r.hasOwnVptr then [Member.vptr] else []).flatMap fun p =>
        (m.memberSites sites r.name p).map (·.2)) = [] := by
      split <;> rfl
    rw [flatMap_bases, RecordDecl.members, List.flatMap_append, List.flatMap_append, vptr, List.nil_append,
      List.flatMap_map, List.flatMap_map]
    exact (r.arrangedBases_perm.symm.flatMap_right _).append_right _
  unfold assemble
  rw [← List.nil_append (r.members.flatMap _)]
  apply (warns_report_other (by simp [Event.level])).bind
  apply Warns.perm ?_ listed
  apply (warns_mapM r.bases fun b _ => warns_baseNode? h r.name b).bind
  rw [← List.append_nil (r.fields.flatMap _)]
  apply (warns_mapM r.fields fun f _ => warns_fieldNode h r.name f).bind
  rw [filterMap_baseNodes]
  exact warns_pure _

end Run

theorem map_snd_sites (m : Model) (room : Nat) {outer : List RecordId} {r : RecordDecl} (fresh : r.id ∉ outer) :
    (m.sites (room + 1) outer r).map (·.2) =
      r.members.flatMap fun p => (m.memberSites (m.sites room (r.id :: outer)) r.name p).map (·.2) := by
  rw [sites, if_neg fresh, List.map_flatMap]
  conv_rhs => rw [← List.zipIdx_map_fst 0 r.members, List.flatMap_map]
  simp only [List.map_map]
  rfl

/-- A run warns of every place where the layout falls short, and of nothing else. -/
theorem warns_expand (m : Model) (room : Nat) (r : RecordDecl) (s : InProgress) :
    Warns (m.expand room r) s (m.tree room s.ids r) ((m.sites room s.ids r).map (·.2)) := by
  induction room generalizing r s with
  | zero => exact (warns_report (by rfl)).bind (warns_pure _)
  | succ room ih =>
    refine ⟨yields_expand m (room + 1) r s, ?_⟩
    by_cases marked : r.id ∈ s.ids
    · rw [expand_marked m room marked, sites, if_pos marked]
      exact .refl _
    · have built := warns_assemble (m := m) (fun c => ih c (s.enter r.id marked)) r
      rw [expand_fresh m room marked, map_snd_sites m room marked]
      exact built.warnings

end Model
end RecordLayout
