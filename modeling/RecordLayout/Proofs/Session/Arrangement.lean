import Mathlib
import RecordLayout.Proofs.Program.Index
import RecordLayout.Proofs.Session.History

/-!
# Declarations in another arrangement

If no two records of a program have the same id, a pass does not see how they are arranged: in which
order, in which namespaces, nested in which records. Only the searches for a record look at the text, and
among distinct ids a search finds the same record in any order (`find?_of_perm`).
-/
namespace RecordLayout

section Search

variable {α : Type} {q : α → Bool} {l l' : List α}

theorem find?_eq_some_iff_mem (only : ∀ x ∈ l, ∀ y ∈ l, q x = true → q y = true → x = y) {x : α} :
    l.find? q = some x ↔ x ∈ l ∧ q x = true := by
  constructor
  · intro found
    exact ⟨List.mem_of_find?_eq_some found, List.find?_some found⟩
  · rintro ⟨mem, hit⟩
    cases found : l.find? q with
    | none => exact absurd hit (List.find?_eq_none.1 found x mem)
    | some y =>
      rw [only y (List.mem_of_find?_eq_some found) x mem (List.find?_some found) hit]

/-- Where at most one element is a hit, the order does not matter. -/
theorem find?_of_perm (rearranged : l.Perm l')
    (only : ∀ x ∈ l, ∀ y ∈ l, q x = true → q y = true → x = y) : l.find? q = l'.find? q := by
  have only' : ∀ x ∈ l', ∀ y ∈ l', q x = true → q y = true → x = y := by
    intro x left y right
    exact only x (rearranged.mem_iff.2 left) y (rearranged.mem_iff.2 right)
  ext x
  rw [find?_eq_some_iff_mem only, find?_eq_some_iff_mem only', rearranged.mem_iff]

end Search

namespace Program

/-- The record declarations in the order of the text, each without those nested in it. -/
def heads (p : Program) : List RecordDecl := (Decl.forestRecords p.decls).map (·.1)

theorem record?_eq_find?_heads (p : Program) (id : RecordId) : p.record? id = p.heads.find? (·.id = id) := by
  rw [record?_eq_find?, heads, List.find?_map]
  rfl

theorem firstComplete?_eq_find?_heads (p : Program) (id : RecordId) :
    p.firstComplete? id = p.heads.find? fun r => r.complete && r.id = id := by
  rw [firstComplete?, Decl.firstComplete?, heads, List.find?_map]
  rfl

section Rearranged

variable {p p' : Program} (target : p.target = p'.target) (rearranged : p.heads.Perm p'.heads)
  (distinct : (p.heads.map (·.id)).Nodup)

include distinct in
theorem eq_of_id_eq {r r' : RecordDecl} (mem : r ∈ p.heads) (mem' : r' ∈ p.heads) (same : r.id = r'.id) :
    r = r' :=
  List.inj_on_of_nodup_map distinct mem mem' same

include rearranged distinct in
theorem record?_rearranged : p.record? = p'.record? := by
  funext id
  rw [record?_eq_find?_heads, record?_eq_find?_heads]
  apply find?_of_perm rearranged
  intro r mem r' mem' hit hit'
  exact eq_of_id_eq distinct mem mem' ((of_decide_eq_true hit).trans (of_decide_eq_true hit').symm)

include rearranged distinct in
theorem firstComplete?_rearranged (id : RecordId) : p.firstComplete? id = p'.firstComplete? id := by
  rw [firstComplete?_eq_find?_heads, firstComplete?_eq_find?_heads]
  apply find?_of_perm rearranged
  intro r mem r' mem' hit hit'
  simp only [Bool.and_eq_true, decide_eq_true_eq] at hit hit'
  exact eq_of_id_eq distinct mem mem' (hit.2.trans hit'.2.symm)

include target rearranged distinct in
theorem model_rearranged : p.model = p'.model := by
  rw [model, model, target, record?_rearranged rearranged distinct]

include target rearranged distinct in
theorem get?_survey_rearranged (id : RecordId) : p.survey.value.2.get? id = p'.survey.value.2.get? id := by
  cases abi : p.target.abi with
  | microsoft =>
    have abi' : p'.target.abi = .microsoft := target ▸ abi
    rw [survey_of_microsoft abi, survey_of_microsoft abi']
  | itanium =>
    have itanium : p.target.isItanium = true := by simp [Target.isItanium, abi]
    rw [get?_survey p itanium, get?_survey p' (target ▸ itanium), firstComplete?_rearranged rearranged distinct,
      model_rearranged target rearranged distinct]

end Rearranged
end Program

/-- The sessions hold the same layouts under the same ids and answer every query with the same text. -/
structure Session.AnswersLike (s s' : Session) : Prop where
  layouts : ∀ id, s.store.get? id = s'.store.get? id
  listed : s.store.toList = s'.store.toList
  listing : s.listRecords.1 = s'.listRecords.1
  rendered : ∀ id, s.layoutOf id = s'.layoutOf id

/-- Queries look at nothing but what look-ups find. -/
theorem Session.AnswersLike.of_get? {s s' : Session} (same : ∀ id, s.store.get? id = s'.store.get? id) :
    s.AnswersLike s' := by
  have listed : s.store.toList = s'.store.toList := RecordStore.toList_eq_of_get? same
  refine ⟨same, listed, ?_, ?_⟩
  · rw [listRecords, listRecords, RecordStore.renderListing, RecordStore.renderListing, RecordStore.listing,
      RecordStore.listing, listed]
  · intro id
    rw [layoutOf, layoutOf, same]

/-- Two passes over programs for one target whose record declarations are the same up to their order give
the same count and the same answers, if no two of these have the same id: it does not matter how they are
distributed over namespaces, other declarations and each other. -/
theorem arrangement_irrelevant {s s' : Session} {source source' : String} {p p' : Program}
    (parsed : (s.frontend.parse source s.config.splitArgs).value = .ok p)
    (parsed' : (s'.frontend.parse source' s'.config.splitArgs).value = .ok p')
    (target : p.target = p'.target) (rearranged : p.heads.Perm p'.heads)
    (distinct : (p.heads.map (·.id)).Nodup) :
    (s.analyze source).value.1 = (s'.analyze source').value.1 ∧
      (s.analyze source).value.2.AnswersLike (s'.analyze source').value.2 := by
  have answers : (s.analyze source).value.2.AnswersLike (s'.analyze source').value.2 := by
    apply Session.AnswersLike.of_get?
    intro id
    rw [Session.store_analyze parsed, Session.store_analyze parsed']
    exact Program.get?_survey_rearranged target rearranged distinct id
  refine ⟨?_, answers⟩
  calc (s.analyze source).value.1
      = (s.analyze source).value.2.store.toList.length := by
        rw [(s.passes source).counted, RecordStore.length_toList]
    _ = (s'.analyze source').value.2.store.toList.length := by rw [answers.listed]
    _ = (s'.analyze source').value.1 := by
        rw [(s'.passes source').counted, RecordStore.length_toList]

/-- The part of a `car`. -/
def engine : RecordDecl :=
  { id := 7, name := "Engine", size := 8
    fields := [{ name := "power", type := ⟨"int", 4, 4, none⟩, offsetBits := 32 }] }

def car : RecordDecl :=
  { id := -3, name := "Car", size := 16, hasOwnVptr := true, bases := [{ record := 7, offset := 8 }] }

def flat : Program := .ofDecls .standard [.record engine [], .other "Enum" [], .record car []]

/-- The records of `flat`, each before the one that it needs. -/
def folded : Program :=
  .ofDecls .standard [.scope "ns" [.record car [.other "TemplateSpecialization" [.record engine []]]]]

theorem arrangement_irrelevant_folded :
    (Session.analyze { frontend := .fixed (.ok folded) } "").value.1 = 2 ∧
      (Session.analyze { frontend := .fixed (.ok folded) } "").value.2.AnswersLike
        (Session.analyze { frontend := .fixed (.ok flat) } "").value.2 := by
  obtain ⟨count, answers⟩ :
      (Session.analyze { frontend := .fixed (.ok folded) } "").value.1 =
          (Session.analyze { frontend := .fixed (.ok flat) } "").value.1 ∧
        (Session.analyze { frontend := .fixed (.ok folded) } "").value.2.AnswersLike
          (Session.analyze { frontend := .fixed (.ok flat) } "").value.2 :=
    arrangement_irrelevant (p := folded) rfl rfl rfl (by decide) (by decide)
  exact ⟨count.trans (by cbv), answers⟩

end RecordLayout
