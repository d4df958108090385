import Mathlib
import RecordLayout.Proofs.Analysis.Flags
import RecordLayout.Proofs.Session.History
import RecordLayout.Proofs.Session.Queries

/-!
# Flags and queries

The texts of layouts do not show which nodes are valid, so sessions over programs that differ in flags alone answer
every query alike (`flags_keep_shape`).
-/
namespace RecordLayout

/-! ## Texts -/

namespace LayoutTree

theorem typeName_unmarked (t : LayoutTree) : t.unmarked.entry.typeName = t.entry.typeName := by
  cases t
  rfl

mutual

theorem view_unmarked (t : LayoutTree) : t.unmarked.view = t.view := by
  cases t with
  | node e cs => rw [unmarked, view, view, forestView_unmarked cs]; rfl

theorem forestView_unmarked (cs : List LayoutTree) : forestView (forestUnmarked cs) = forestView cs := by
  cases cs with
  | nil => rfl
  | cons c cs => rw [forestUnmarked, forestView, forestView, view_unmarked c, forestView_unmarked cs]

end

/-- The text of a layout does not tell which nodes are valid. -/
theorem render_eq_of_unmarked_eq {t t' : LayoutTree} (same : t.unmarked = t'.unmarked) : t.render = t'.render := by
  rw [render_eq_iff, ← view_unmarked t, ← view_unmarked t', same]

end LayoutTree

/-! ## Surveys -/

namespace Program

variable {R : Bool → Bool → Prop} {p p' : Program}

theorem Reflagged.analyze (sums : Cumulative R) (h : p.Reflagged R p') {r r' : RecordDecl} (same : r.Reflagged R r')
    (s : InProgress) : (p.model.analyze r s).value.1.Reflagged R (p'.model.analyze r' s).value.1 := by
  rw [Model.value_analyze, Model.value_analyze]
  exact Model.tree_reflagged sums h.target h.record? s.room s.ids same

theorem Reflagged.layout (sums : Cumulative R) (h : p.Reflagged R p') {r r' : RecordDecl} (same : r.Reflagged R r') :
    (p.model.layout r).value.Reflagged R (p'.model.layout r').value := by
  rw [Model.value_layout, Model.value_layout]
  exact Model.tree_reflagged sums h.target h.record? maxRecordDepth [] same

theorem Reflagged.firstComplete? (h : p.Reflagged R p') (id : RecordId) :
    Option.Rel (RecordDecl.Reflagged R) (p.firstComplete? id) (p'.firstComplete? id) := by
  apply rel_map (rel_find? (Decl.forestRecords_reflagged h.decls) ?_) fun _ _ same => same
  intro x x' same
  rw [same.id_eq, same.complete_eq]

/-- Surveys store the same layouts but for the validity of nodes. -/
theorem Reflagged.survey (h : p.Reflagged AnyFlag p') (id : RecordId) :
    (p.survey.value.2.get? id).map LayoutTree.unmarked = (p'.survey.value.2.get? id).map LayoutTree.unmarked := by
  cases abi : p.target.abi with
  | microsoft =>
    have abi' : p'.target.abi = .microsoft := h.target ▸ abi
    rw [survey_of_microsoft abi, survey_of_microsoft abi']
  | itanium =>
    have itanium : p.target.isItanium = true := by simp [Target.isItanium, abi]
    have first := h.firstComplete? id
    rw [get?_survey p itanium, get?_survey p' (h.target ▸ itanium)]
    generalize p.firstComplete? id = o, p'.firstComplete? id = o' at first ⊢
    cases first with
    | none => simp only [Option.map_none]
    | @some r r' same =>
      rw [Option.map_some, Option.map_some, Option.map_some, Option.map_some,
        (h.layout cumulative_anyFlag same).unmarked_eq]

end Program

namespace Session

variable {s s' : Session}

/-- The listing shows of a layout only its type. -/
theorem entries_eq_of_unmarked_eq
    (same : ∀ id, (s.store.get? id).map LayoutTree.unmarked = (s'.store.get? id).map LayoutTree.unmarked) :
    s.store.entries = s'.store.entries := by
  apply RecordStore.map_toList_eq_of_get? (f := (·.entry.typeName))
  intro id
  have names := congrArg (Option.map (·.entry.typeName)) (same id)
  rw [Option.map_map, Option.map_map] at names
  have shown : (fun t : LayoutTree => t.entry.typeName) ∘ LayoutTree.unmarked = fun t => t.entry.typeName :=
    funext LayoutTree.typeName_unmarked
  rwa [shown] at names

theorem layoutOf_eq_of_unmarked_eq {id : RecordId}
    (same : (s.store.get? id).map LayoutTree.unmarked = (s'.store.get? id).map LayoutTree.unmarked) :
    s.layoutOf id = s'.layoutOf id := by
  rw [layoutOf, layoutOf]
  generalize s.store.get? id = o, s'.store.get? id = o' at same ⊢
  cases o with
  | none =>
    cases o' with
    | none => rfl
    | some t' => cases same
  | some t =>
    cases o' with
    | none => cases same
    | some t' => exact LayoutTree.render_eq_of_unmarked_eq (Option.some.inj same)

end Session

/-- Two programs that differ in flags at most give records that do so trees with the same nodes, which differ in their
validity at most. Where flags were only added, a node that is still valid was valid before. Passes over the two give
the same count, and the same texts for the listing and for every layout. -/
theorem flags_keep_shape {p p' : Program} (differ : p.Reflagged AnyFlag p') :
    (∀ (r r' : RecordDecl) (s : InProgress), r.Reflagged AnyFlag r' →
      (p.model.analyze r s).value.1.unmarked = (p'.model.analyze r' s).value.1.unmarked) ∧
    (p.Reflagged FlagKept p' → ∀ (r r' : RecordDecl) (s : InProgress), r.Reflagged FlagKept r' →
      ∀ a n', (p'.model.analyze r' s).value.1.at? a = some n' → n'.entry.valid = true →
        ∃ n, (p.model.analyze r s).value.1.at? a = some n ∧ n.entry.valid = true) ∧
    ∀ (s s' : Session) (source source' : String),
      (s.frontend.parse source s.config.splitArgs).value = .ok p →
      (s'.frontend.parse source' s'.config.splitArgs).value = .ok p' →
        (s.analyze source).value.1 = (s'.analyze source').value.1 ∧
        (s.analyze source).value.2.listRecords.1 = (s'.analyze source').value.2.listRecords.1 ∧
        ∀ id, (s.analyze source).value.2.layoutOf id = (s'.analyze source').value.2.layoutOf id := by
  refine ⟨?_, ?_, ?_⟩
  · intro r r' s same
    exact (differ.analyze cumulative_anyFlag same s).unmarked_eq
  · intro kept r r' s same a n' found valid
    have nodes := (kept.analyze cumulative_flagKept same s).at? a
    rw [found] at nodes
    generalize (p.model.analyze r s).value.1.at? a = o at nodes ⊢
    cases nodes with
    | @some n _ related => exact ⟨n, rfl, related.valid_of_flagKept valid⟩
  · intro s s' source source' parsed parsed'
    have stored : ∀ id, ((s.analyze source).value.2.store.get? id).map LayoutTree.unmarked =
        ((s'.analyze source').value.2.store.get? id).map LayoutTree.unmarked := by
      intro id
      rw [Session.store_analyze parsed, Session.store_analyze parsed']
      exact differ.survey id
    have entries := Session.entries_eq_of_unmarked_eq stored
    refine ⟨?_, ?_, fun id => Session.layoutOf_eq_of_unmarked_eq (stored id)⟩
    · rw [(s.passes source).counted, (s'.passes source').counted, ← RecordStore.length_entries, entries,
        RecordStore.length_entries]
    · rw [Session.listRecords, Session.listRecords, RecordStore.renderListing, RecordStore.renderListing,
        RecordStore.listing_eq, RecordStore.listing_eq, entries]

/-- A record inside another one, where a flag may be set at the inner record and at a field of the outer one. -/
def probe (flag : Bool) : RecordDecl := { id := 1, name := "Probe", size := 4, invalid := flag }

def rover (flag : Bool) : RecordDecl :=
  { id := 2, name := "Rover", size := 16, bases := [{ record := 1, offset := 8 }]
    fields := [{ name := "wheels", type := ⟨"int", 4, 4, none⟩, offsetBits := 0, invalid := flag },
      { name := "arm", type := ⟨"Probe", 4, 4, some 1⟩, offsetBits := 32 }] }

def mission (flag : Bool) : Program :=
  .ofDecls .standard [.scope "ns" [.record (rover flag) []], .record (probe flag) [.other "Enum" []]]

theorem rover_reflagged {R : Bool → Bool → Prop} (sums : Cumulative R) (set : R false true) :
    (rover false).Reflagged R (rover true) :=
  ⟨rfl, sums.refl false, .cons ⟨rfl, set⟩ (.cons ⟨rfl, sums.refl false⟩ .nil)⟩

theorem mission_reflagged {R : Bool → Bool → Prop} (sums : Cumulative R) (set : R false true) :
    (mission false).Reflagged R (mission true) := by
  have probe : (probe false).Reflagged R (probe true) := ⟨rfl, set, .nil⟩
  have inner : List.Forall₂ (Decl.Reflagged R) [.record (rover false) []] [.record (rover true) []] :=
    .cons (.record (rover_reflagged sums set) .nil) .nil
  exact ⟨rfl, .cons (.scope inner) (.cons (.record probe (.cons (.other .nil) .nil)) .nil)⟩

theorem flags_keep_shape_mission :
    ((mission false).model.analyze (rover false) .empty).value.1.unmarked =
        ((mission true).model.analyze (rover true) .empty).value.1.unmarked ∧
      ((mission true).model.analyze (rover true) .empty).value.1.nodeCount = 4 ∧
      ((mission true).model.analyze (rover true) .empty).value.1.entry.valid = false ∧
      (Session.analyze { frontend := .fixed (.ok (mission false)) } "").value.2.layoutOf 2 =
        (Session.analyze { frontend := .fixed (.ok (mission true)) } "").value.2.layoutOf 2 := by
  have differ : (mission false).Reflagged AnyFlag (mission true) := mission_reflagged cumulative_anyFlag trivial
  obtain ⟨shape, -, texts⟩ := flags_keep_shape differ
  have rovers : (rover false).Reflagged AnyFlag (rover true) := rover_reflagged cumulative_anyFlag trivial
  obtain ⟨-, -, layouts⟩ := texts { frontend := .fixed (.ok (mission false)) }
    { frontend := .fixed (.ok (mission true)) } "" "" rfl rfl
  exact ⟨shape _ _ .empty rovers, by cbv, by cbv, layouts 2⟩

end RecordLayout
