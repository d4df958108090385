import Mathlib
import RecordLayout.Proofs.Analysis.Members
import RecordLayout.Proofs.Program.Index
import RecordLayout.Survey

/-!
# What flags have a say in

Records and fields may be flagged as invalid. The flags decide which nodes of a layout are valid and nothing else:
declarations that differ in flags alone are laid out with the same nodes at the same places (`tree_reflagged`). A
relation `R` says how the flags of the two may differ, and the same relation tells how the nodes may differ, as long as
it holds between equal flags and of flags put together (`Cumulative`).
-/
namespace RecordLayout

/-- Flags may differ in any way. -/
def AnyFlag (_ _ : Bool) : Prop := True

/-- A flag that is set stays set. -/
def FlagKept (b b' : Bool) : Prop := b = true → b' = true

structure Cumulative (R : Bool → Bool → Prop) : Prop where
  refl : ∀ b, R b b
  or : ∀ {a a' b b'}, R a a' → R b b' → R (a || b) (a' || b')

theorem cumulative_anyFlag : Cumulative AnyFlag := ⟨fun _ => trivial, fun _ _ => trivial⟩

theorem cumulative_flagKept : Cumulative FlagKept := by
  constructor
  · exact fun _ set => set
  · intro a a' b b' keptA keptB set
    rw [Bool.or_eq_true] at set ⊢
    exact set.imp keptA keptB

/-! ## Declarations -/

/-- The two fields differ in their flags at most, which are related. -/
structure FieldDecl.Reflagged (R : Bool → Bool → Prop) (f f' : FieldDecl) : Prop where
  rest : f' = { f with invalid := f'.invalid }
  flag : R f.invalid f'.invalid

/-- The two records differ in their flags and those of their fields at most. -/
structure RecordDecl.Reflagged (R : Bool → Bool → Prop) (r r' : RecordDecl) : Prop where
  rest : r' = { r with invalid := r'.invalid, fields := r'.fields }
  flag : R r.invalid r'.invalid
  fields : List.Forall₂ (FieldDecl.Reflagged R) r.fields r'.fields

inductive Decl.Reflagged (R : Bool → Bool → Prop) : Decl → Decl → Prop
  | scope {name : String} {ds ds' : List Decl} (nested : List.Forall₂ (Decl.Reflagged R) ds ds') :
      Reflagged R (.scope name ds) (.scope name ds')
  | record {r r' : RecordDecl} {ds ds' : List Decl} (head : r.Reflagged R r')
      (nested : List.Forall₂ (Decl.Reflagged R) ds ds') : Reflagged R (.record r ds) (.record r' ds')
  | other {kind : String} {ds ds' : List Decl} (nested : List.Forall₂ (Decl.Reflagged R) ds ds') :
      Reflagged R (.other kind ds) (.other kind ds')

/-- The two programs differ in flags at most. -/
structure Program.Reflagged (R : Bool → Bool → Prop) (p p' : Program) : Prop where
  target : p.target = p'.target
  decls : List.Forall₂ (Decl.Reflagged R) p.decls p'.decls

namespace RecordDecl.Reflagged

variable {R : Bool → Bool → Prop} {r r' : RecordDecl}

theorem id_eq (h : r.Reflagged R r') : r'.id = r.id := by rw [h.rest]

theorem name_eq (h : r.Reflagged R r') : r'.name = r.name := by rw [h.rest]

theorem complete_eq (h : r.Reflagged R r') : r'.complete = r.complete := by rw [h.rest]

theorem entry_eq (h : r.Reflagged R r') : r'.entry = { r.entry with valid := r'.entry.valid } := by
  rw [entry, h.rest]
  rfl

theorem cut_eq (h : r.Reflagged R r') : r'.cut = r.cut := by
  rw [cut, h.rest]
  rfl

theorem arrangedBases_eq (h : r.Reflagged R r') : r'.arrangedBases = r.arrangedBases := by
  have bases : r'.bases = r.bases := by rw [h.rest]
  rw [arrangedBases, arrangedBases, directBases, directBases, bases]

end RecordDecl.Reflagged

/-! ## Searches -/

section Search

variable {α β γ δ : Type} {S : α → β → Prop}

theorem rel_map {T : γ → δ → Prop} {f : α → γ} {g : β → δ} {o : Option α} {o' : Option β} (found : Option.Rel S o o')
    (each : ∀ a b, S a b → T (f a) (g b)) : Option.Rel T (o.map f) (o'.map g) := by
  cases found with
  | none => exact .none
  | some same => exact .some (each _ _ same)

/-- Searches that hit related elements find related ones. -/
theorem rel_find? {q : α → Bool} {q' : β → Bool} {as : List α} {bs : List β} (pairs : List.Forall₂ S as bs)
    (hits : ∀ a b, S a b → q a = q' b) : Option.Rel S (as.find? q) (bs.find? q') := by
  induction pairs with
  | nil => exact .none
  | @cons a b as bs here _ ih =>
    rw [List.find?_cons, List.find?_cons, ← hits a b here]
    cases q a with
    | true => exact .some here
    | false => exact ih

theorem rel_getElem? {as : List α} {bs : List β} (pairs : List.Forall₂ S as bs) (k : Nat) :
    Option.Rel S as[k]? bs[k]? := by
  induction pairs generalizing k with
  | nil => exact .none
  | cons here _ ih =>
    cases k with
    | zero => exact .some here
    | succ k => exact ih k

end Search

namespace Decl

variable {R : Bool → Bool → Prop}

mutual

theorem records_reflagged : ∀ {d d' : Decl}, d.Reflagged R d' →
    List.Forall₂ (fun x x' => x.1.Reflagged R x'.1) d.records d'.records
  | scope _ _, _, .scope nested => forestRecords_reflagged nested
  | record _ _, _, .record head nested => .cons head (forestRecords_reflagged nested)
  | other _ _, _, .other nested => forestRecords_reflagged nested

/-- The record declarations stand at the same places in the text. -/
theorem forestRecords_reflagged : ∀ {ds ds' : List Decl}, List.Forall₂ (Decl.Reflagged R) ds ds' →
    List.Forall₂ (fun x x' => x.1.Reflagged R x'.1) (forestRecords ds) (forestRecords ds')
  | [], _, .nil => .nil
  | _ :: _, _, .cons here more => List.rel_append (records_reflagged here) (forestRecords_reflagged more)

end

end Decl

/-- Look-ups find the same declarations but for the flags. -/
theorem Program.Reflagged.record? {R : Bool → Bool → Prop} {p p' : Program} (h : p.Reflagged R p') (id : RecordId) :
    Option.Rel (RecordDecl.Reflagged R) (p.record? id) (p'.record? id) := by
  rw [Program.record?_eq_find?, Program.record?_eq_find?]
  apply rel_map (rel_find? (Decl.forestRecords_reflagged h.decls) ?_) fun _ _ same => same
  intro x x' same
  rw [same.id_eq]

/-! ## Trees -/

namespace LayoutTree

/-- The two trees differ in the validity of their nodes at most. Valid nodes have no flag, invalid ones have one. -/
inductive Reflagged (R : Bool → Bool → Prop) : LayoutTree → LayoutTree → Prop
  | node {e e' : LayoutEntry} {cs cs' : List LayoutTree} (rest : e' = { e with valid := e'.valid })
      (flag : R (!e.valid) (!e'.valid)) (children : List.Forall₂ (Reflagged R) cs cs') :
      Reflagged R (.node e cs) (.node e' cs')

mutual

/-- The tree with every node valid. -/
def unmarked : LayoutTree → LayoutTree
  | node e cs => node { e with valid := true } (forestUnmarked cs)

def forestUnmarked : List LayoutTree → List LayoutTree
  | [] => []
  | c :: cs => c.unmarked :: forestUnmarked cs

end

variable {R : Bool → Bool → Prop}

mutual

theorem Reflagged.unmarked_eq : ∀ {t t' : LayoutTree}, t.Reflagged R t' → t.unmarked = t'.unmarked
  | node e cs, node e' cs', .node rest _ children => by
    rw [unmarked, unmarked, rest, forestUnmarked_eq children]

theorem forestUnmarked_eq : ∀ {cs cs' : List LayoutTree}, List.Forall₂ (Reflagged R) cs cs' →
    forestUnmarked cs = forestUnmarked cs'
  | [], _, .nil => rfl
  | c :: cs, _, .cons here more => by
    rw [forestUnmarked, forestUnmarked, here.unmarked_eq, forestUnmarked_eq more]

end

/-- At each address the two have related nodes. -/
theorem Reflagged.at? {t t' : LayoutTree} (h : t.Reflagged R t') (a : Address) :
    Option.Rel (Reflagged R) (t.at? a) (t'.at? a) := by
  induction a generalizing t t' with
  | nil => exact .some h
  | cons k a ih =>
    cases h with
    | @node e e' cs cs' _ _ children =>
      have found := rel_getElem? children k
      rw [at?_cons, at?_cons, children_node, children_node]
      generalize cs[k]? = o, cs'[k]? = o' at found ⊢
      cases found with
      | none => exact .none
      | some same => exact ih same

theorem Reflagged.valid_of_flagKept {t t' : LayoutTree} (h : t.Reflagged FlagKept t') (valid : t'.entry.valid = true) :
    t.entry.valid = true := by
  cases h with
  | @node e e' _ _ _ flag _ =>
    rw [entry_node] at valid ⊢
    cases own : e.valid with
    | true => rfl
    | false =>
      have kept : (!e'.valid) = true := flag (by rw [own]; rfl)
      rw [valid] at kept
      cases kept

theorem Reflagged.leaf {e e' : LayoutEntry} (rest : e' = { e with valid := e'.valid })
    (flag : R (!e.valid) (!e'.valid)) : (leaf e).Reflagged R (leaf e') :=
  .node rest flag .nil

theorem Reflagged.refl_leaf (sums : Cumulative R) (e : LayoutEntry) : (LayoutTree.leaf e).Reflagged R (.leaf e) :=
  .leaf rfl (sums.refl _)

/-- What is said of the root besides its validity goes for both. -/
theorem Reflagged.update {t t' : LayoutTree} (h : t.Reflagged R t') {f f' : LayoutEntry → LayoutEntry}
    (rest : ∀ e v, f' { e with valid := v } = { f e with valid := (f' { e with valid := v }).valid })
    (flag : ∀ e v, R (!e.valid) (!v) → R (!(f e).valid) (!(f' { e with valid := v }).valid)) :
    (t.update f).Reflagged R (t'.update f') := by
  obtain ⟨same, marked, children⟩ := h
  refine .node ?_ ?_ children
  · rw [same]
    exact rest _ _
  · rw [same]
    exact flag _ _ marked

theorem flag_all (sums : Cumulative R) {cs cs' : List LayoutTree} (h : List.Forall₂ (Reflagged R) cs cs') :
    R (!cs.all (·.entry.valid)) (!cs'.all (·.entry.valid)) := by
  induction h with
  | nil => exact sums.refl _
  | cons here _ ih =>
    rw [List.all_cons, List.all_cons, Bool.not_and, Bool.not_and]
    cases here with
    | node _ flag _ => exact sums.or flag ih

/-- A node put together from related children. -/
theorem Reflagged.ofChildren (sums : Cumulative R) {e e' : LayoutEntry} {cs cs' : List LayoutTree}
    (rest : e' = { e with valid := e'.valid }) (flag : R (!e.valid) (!e'.valid))
    (children : List.Forall₂ (Reflagged R) cs cs') :
    (LayoutTree.ofChildren e cs).Reflagged R (LayoutTree.ofChildren e' cs') := by
  refine .node ?_ ?_ children
  · rw [rest]
  · rw [Bool.not_and, Bool.not_and]
    exact sums.or flag (flag_all sums children)

end LayoutTree

namespace Model

section TwoModels

variable {R : Bool → Bool → Prop} (sums : Cumulative R) {m m' : Model} {inner inner' : RecordDecl → LayoutTree}
  (found : ∀ id, Option.Rel (RecordDecl.Reflagged R) (m.record? id) (m'.record? id))
  (inside : ∀ c c', c.Reflagged R c' → (inner c).Reflagged R (inner' c'))
include sums found inside

theorem baseTree_reflagged (b : BaseSpec) : (m.baseTree inner b).Reflagged R (m'.baseTree inner' b) := by
  have named : (m.namedTree inner b.record).Reflagged R (m'.namedTree inner' b.record) := by
    have found := found b.record
    unfold namedTree
    generalize m.record? b.record = o, m'.record? b.record = o' at found ⊢
    cases found with
    | none => exact .refl_leaf sums _
    | @some c c' same =>
      dsimp only
      rw [same.complete_eq, same.name_eq]
      split
      · exact inside c c' same
      · exact .refl_leaf sums _
  unfold baseTree
  cases b.offsetBits? with
  | none => exact named.update (fun _ _ => rfl) fun _ _ _ => sums.refl _
  | some o => exact named.update (fun _ _ => rfl) fun _ _ flag => flag

theorem fieldTree_reflagged {f f' : FieldDecl} (same : f.Reflagged R f') :
    (m.fieldTree inner f).Reflagged R (m'.fieldTree inner' f') := by
  obtain ⟨rest, flag⟩ := same
  obtain ⟨set, rfl⟩ : ∃ set, f' = { f with invalid := set } := ⟨_, rest⟩
  have complete : Option.Rel (RecordDecl.Reflagged R) (f.type.record.bind m.complete?)
      (f.type.record.bind m'.complete?) := by
    cases f.type.record with
    | none => exact .none
    | some id =>
      have found := found id
      rw [Option.bind_some, Option.bind_some, complete?, complete?]
      generalize m.record? id = o, m'.record? id = o' at found ⊢
      cases found with
      | none => exact .none
      | @some c c' same =>
        rw [Option.filter_some, Option.filter_some, same.complete_eq]
        split
        · exact .some same
        · exact .none
  unfold fieldTree
  dsimp only
  generalize f.type.record.bind m.complete? = o, f.type.record.bind m'.complete? = o' at complete ⊢
  cases complete with
  | none =>
    refine .leaf rfl ?_
    rw [Bool.not_not, Bool.not_not]
    exact flag
  | @some c c' same =>
    refine (inside c c' same).update (fun _ _ => rfl) ?_
    intro e v marked
    rw [Bool.not_and, Bool.not_and, Bool.not_not, Bool.not_not]
    exact sums.or marked flag

theorem parts_reflagged (vptr : m.target.vptrNode = m'.target.vptrNode) {r r' : RecordDecl} (same : r.Reflagged R r') :
    List.Forall₂ (LayoutTree.Reflagged R) (m.parts inner r) (m'.parts inner' r') := by
  have own : m'.vptrs r' = m.vptrs r := by
    have has : r'.hasOwnVptr = r.hasOwnVptr := by rw [same.rest]
    rw [vptrs, vptrs, has, vptr]
  have vptrs : List.Forall₂ (LayoutTree.Reflagged R) (m.vptrs r) (m.vptrs r) := by
    rw [List.forall₂_same]
    intro t mem
    rw [eq_vptrNode_of_mem mem]
    exact .refl_leaf sums _
  have bases : List.Forall₂ (LayoutTree.Reflagged R) (r.arrangedBases.map (m.baseTree inner))
      (r.arrangedBases.map (m'.baseTree inner')) := by
    rw [List.forall₂_map_left_iff, List.forall₂_map_right_iff, List.forall₂_same]
    intro b _
    exact baseTree_reflagged sums found inside b
  have fields : List.Forall₂ (LayoutTree.Reflagged R) (r.fields.map (m.fieldTree inner))
      (r'.fields.map (m'.fieldTree inner')) := by
    rw [List.forall₂_map_left_iff, List.forall₂_map_right_iff]
    exact same.fields.imp fun f f' same => fieldTree_reflagged sums found inside same
  rw [parts, parts, sortByOffset_baseTrees, sortByOffset_baseTrees, same.arrangedBases_eq, own]
  exact List.rel_append (List.rel_append vptrs bases) fields

end TwoModels

/-- Models that declare the same but for flags lay a record out with the same nodes. -/
theorem tree_reflagged {R : Bool → Bool → Prop} (sums : Cumulative R) {m m' : Model} (target : m.target = m'.target)
    (found : ∀ id, Option.Rel (RecordDecl.Reflagged R) (m.record? id) (m'.record? id)) (room : Nat)
    (outer : List RecordId) {r r' : RecordDecl} (same : r.Reflagged R r') :
    (m.tree room outer r).Reflagged R (m'.tree room outer r') := by
  induction room generalizing outer r r' with
  | zero =>
    rw [tree, tree, same.cut_eq]
    exact .refl_leaf sums _
  | succ room ih =>
    rw [tree, tree, same.cut_eq, same.id_eq]
    split
    · exact .refl_leaf sums _
    · have flag : R (!r.entry.valid) (!r'.entry.valid) := by
        have shown : ∀ c : RecordDecl, (!c.entry.valid) = c.invalid := fun c => Bool.not_not c.invalid
        rw [shown, shown]
        exact same.flag
      apply LayoutTree.Reflagged.ofChildren sums same.entry_eq flag
      exact parts_reflagged sums found (fun c c' same => ih (r.id :: outer) same) (congrArg Target.vptrNode target) same

end Model
end RecordLayout
