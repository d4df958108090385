import RecordLayout.Dump.Printer
import RecordLayout.Frontend
import RecordLayout.Proofs.Json.RoundTrip

/-!
# Dumps that were written

Reading a written dump gives its declarations back (`parse_written`): first for the values inside a
declaration, then for declarations as values, and last for the text.
-/
namespace RecordLayout
open Json Reader

/-- No declaration of another kind calls itself a namespace or a record. -/
inductive Decl.WellKinded : Decl → Prop
  | scope {name : String} {ds : List Decl} (inner : ∀ d ∈ ds, d.WellKinded) : WellKinded (.scope name ds)
  | record {r : RecordDecl} {ds : List Decl} (inner : ∀ d ∈ ds, d.WellKinded) : WellKinded (.record r ds)
  | other {kind : String} {ds : List Decl} (kindly : kind ≠ "namespace" ∧ kind ≠ "record")
      (inner : ∀ d ∈ ds, d.WellKinded) : WellKinded (.other kind ds)

theorem Decl.WellKinded.nested {d : Decl} (kinds : d.WellKinded) : ∀ e ∈ d.nested, e.WellKinded := by
  cases kinds <;> assumption

namespace Dump

/-! ## The values inside a declaration -/

@[simp] theorem id?_idJson (id : RecordId) : id? (idJson id) = some id := by
  have low : Int64.minValue.toInt ≤ id.toInt := Int64.minValue_le_toInt id
  have high : id.toInt ≤ Int64.maxValue.toInt := Int64.toInt_le id
  rw [idJson, id?, if_pos ⟨low, high⟩, Int64.ofInt_toInt]

theorem nullable?_nullableJson {α : Type} {json : α → Value} {read : Value → Option α}
    (reads : ∀ a, read (json a) = some a) (present : ∀ a, json a ≠ .null) (o : Option α) :
    nullable? read (nullableJson json o) = some o := by
  cases o with
  | none => rfl
  | some a =>
    have here := reads a
    have some? := present a
    rw [nullableJson, nullable?]
    · rw [here]
      rfl
    · exact some?

theorem list?_map {α : Type} {json : α → Value} {read : Value → Option α} (reads : ∀ a, read (json a) = some a)
    (as : List α) : list? read (.array (as.map json)) = some as := by
  rw [list?]
  induction as with
  | nil => rfl
  | cons a as ih => rw [List.map_cons, List.mapM_cons, reads, ih]; rfl

-- The keys are compared by rewriting: as steps by definition, the kernel would have to run the comparisons.

@[simp] theorem type?_typeJson (t : TypeRef) : type? (typeJson t) = some t := by
  have record := nullable?_nullableJson id?_idJson (by intro id h; cases h) t.record
  simp -implicitDefEqProofs [typeJson, type?, members?, required, defaulted, member?, text?, record]

theorem base?_baseJson (b : BaseSpec) : base? (baseJson b) = some b := by
  simp -implicitDefEqProofs [baseJson, base?, members?, required, defaulted, member?, flag?]

theorem field?_fieldJson (f : FieldDecl) : field? (fieldJson f) = some f := by
  have width := nullable?_nullableJson word64?_ofWord (by intro n h; cases h) f.bitWidth
  simp -implicitDefEqProofs [fieldJson, field?, members?, required, defaulted, member?, text?, flag?, width]

/-! ## Declarations -/

def kindOf : Decl → String
  | .scope .. => "namespace"
  | .record .. => "record"
  | .other kind _ => kind

/-- What is written of a declaration besides its kind. -/
def membersOf : Decl → List (String × Value)
  | .scope name ds => [("name", .string name), ("decls", .array (declsJson ds))]
  | .record r ds => recordMembers r ++ [("decls", .array (declsJson ds))]
  | .other _ ds => [("decls", .array (declsJson ds))]

theorem declJson_eq (d : Decl) : declJson d = .object (("kind", .string (kindOf d)) :: membersOf d) := by
  cases d <;> rfl

theorem declsJson_eq_map (ds : List Decl) : declsJson ds = ds.map declJson := by
  induction ds with
  | nil => rfl
  | cons d ds ih => rw [declsJson, ih, List.map_cons]

theorem record?_recordMembers (r : RecordDecl) (more : Value) :
    record? (recordMembers r ++ [("decls", more)]) = some r := by
  have bases := list?_map base?_baseJson r.bases
  have fields := list?_map field?_fieldJson r.fields
  simp -implicitDefEqProofs [recordMembers, record?, required, defaulted, member?, text?, flag?, bases, fields]

/-- A declaration made of its kind, its members and its nested declarations. -/
theorem declOf?_membersOf {d : Decl} (kinds : d.WellKinded) :
    declOf? (kindOf d) (membersOf d) (some d.nested) = some d := by
  cases kinds with
  | scope _ => simp -implicitDefEqProofs [declOf?, kindOf, membersOf, required, member?, text?, Decl.nested]
  | record _ => simp -implicitDefEqProofs [declOf?, kindOf, membersOf, record?_recordMembers, Decl.nested]
  | other kindly _ => simp [declOf?, kindOf, kindly, Decl.nested]

theorem member?_kind {key : String} (ne : key ≠ "kind") (v : Value) (ms : List (String × Value)) :
    member? key (("kind", v) :: ms) = member? key ms := by
  rw [member?, if_neg ne.symm, Option.or_none]

/-- The kind among the members is not looked at again. -/
theorem declOf?_kind (kind : String) (v : Value) (ms : List (String × Value)) (nested : Option (List Decl)) :
    declOf? kind (("kind", v) :: ms) nested = declOf? kind ms nested := by
  simp -implicitDefEqProofs [declOf?, record?, required, defaulted, member?_kind]

theorem nested?_membersOf (d : Decl) : nested? (membersOf d) = some (declItems? (declsJson d.nested)) := by
  cases d <;> simp -implicitDefEqProofs [membersOf, recordMembers, nested?, decls?, Decl.nested]

theorem declItems?_declsJson {ds : List Decl} (each : ∀ d ∈ ds, decl? (declJson d) = some d) :
    declItems? (declsJson ds) = some ds := by
  induction ds with
  | nil => rfl
  | cons d ds ih =>
    have here := each d List.mem_cons_self
    have more := ih fun e mem => each e (List.mem_cons_of_mem d mem)
    rw [declsJson, declItems?, here, more]
    rfl

theorem member?_kind_membersOf (d : Decl) : member? "kind" (membersOf d) = none := by
  cases d <;> simp -implicitDefEqProofs [membersOf, recordMembers, member?]

/-- Taking a declaration out of its value, if that goes for those nested in it. -/
theorem decl?_of_nested {d : Decl} (kinds : d.WellKinded) (inner : ∀ e ∈ d.nested, decl? (declJson e) = some e) :
    decl? (declJson d) = some d := by
  have kind : required text? "kind" (("kind", .string (kindOf d)) :: membersOf d) = some (kindOf d) := by
    rw [required, member?, member?_kind_membersOf, if_pos rfl]
    rfl
  have apart : nested? (("kind", .string (kindOf d)) :: membersOf d) = some (some d.nested) := by
    rw [nested?, nested?_membersOf, declItems?_declsJson inner]
    rfl
  rw [declJson_eq, decl?, kind, apart]
  exact (declOf?_kind (kindOf d) _ (membersOf d) _).trans (declOf?_membersOf kinds)

theorem decl?_declJson {d : Decl} (kinds : d.WellKinded) : decl? (declJson d) = some d := by
  induction kinds with
  | scope inner ih => exact decl?_of_nested (.scope inner) ih
  | record inner ih => exact decl?_of_nested (.record inner) ih
  | other kindly inner ih => exact decl?_of_nested (.other kindly inner) ih

/-! ## Text -/

theorem writable_idJson (id : RecordId) : (idJson id).Writable := by
  have low : Int64.minValue.toInt ≤ id.toInt := Int64.minValue_le_toInt id
  have high : id.toInt ≤ Int64.maxValue.toInt := Int64.toInt_le id
  exact .integer ⟨low, Int.lt_of_le_of_lt high (by decide)⟩

theorem writable_nullableJson {α : Type} {json : α → Value} (each : ∀ a, (json a).Writable) (o : Option α) :
    (nullableJson json o).Writable := by
  cases o with
  | none => exact .null
  | some a => exact each a

theorem writable_map {α : Type} {json : α → Value} {as : List α} (each : ∀ a ∈ as, (json a).Writable) :
    (Value.array (as.map json)).Writable := by
  refine .array fun v mem => ?_
  obtain ⟨a, source, rfl⟩ := List.mem_map.1 mem
  exact each a source

theorem writable_typeJson (t : TypeRef) : (typeJson t).Writable := by
  refine .object ?_
  simp [writable_nullableJson writable_idJson]

theorem writable_baseJson (b : BaseSpec) : (baseJson b).Writable := by
  refine .object ?_
  simp [writable_idJson]

theorem writable_fieldJson (f : FieldDecl) : (fieldJson f).Writable := by
  refine .object ?_
  simp [writable_typeJson, writable_nullableJson writable_ofWord]

theorem writable_membersOf {d : Decl} (inner : ∀ e ∈ d.nested, (declJson e).Writable) :
    ∀ m ∈ membersOf d, m.2.Writable := by
  have nested : (Value.array (declsJson d.nested)).Writable := by
    rw [declsJson_eq_map]
    exact writable_map inner
  cases d with
  | scope name ds => simpa [membersOf, Decl.nested] using nested
  | record r ds =>
    have bases := writable_map fun b (_ : b ∈ r.bases) => writable_baseJson b
    have fields := writable_map fun f (_ : f ∈ r.fields) => writable_fieldJson f
    simpa [membersOf, recordMembers, writable_idJson, bases, fields, Decl.nested] using nested
  | other kind ds => simpa [membersOf, Decl.nested] using nested

mutual

theorem writable_declJson (d : Decl) : (declJson d).Writable := by
  rw [declJson_eq]
  refine .object (List.forall_mem_cons.2 ⟨.string _, writable_membersOf ?_⟩)
  cases d with
  | scope name ds => exact writable_declsJson ds
  | record r ds => exact writable_declsJson ds
  | other kind ds => exact writable_declsJson ds

theorem writable_declsJson (ds : List Decl) : ∀ d ∈ ds, (declJson d).Writable := by
  cases ds with
  | nil => exact List.forall_mem_nil _
  | cons d ds =>
    exact List.forall_mem_cons.2 ⟨writable_declJson d, writable_declsJson ds⟩

end

/-- The members of a declaration are its kind and then the others as values. -/
theorem declMembers_write (hex : HexCase) {depth : Nat} (kind : String) {ms : List (String × Value)}
    (others : ∀ m ∈ ms, m.1 ≠ "kind") (reads : ∀ m ∈ ms, Reads (value depth) hex m.2 m.2) (rest : List Char) :
    declMembers depth (writeMembers hex true (("kind", .string kind) :: ms) ('}' :: rest)) =
      .ok ((some kind, ms), rest) := by
  refine Rounds.loop_eq (.next (t := (false, some kind, [])) ?_ (length_lt_member hex true "kind" (.string kind) _) ?_)
  · refine (bind_ok (nextKey?_write hex true "kind" _)).trans ?_
    refine (bind_ok (colon_cons _)).trans ?_
    exact bind_ok (readText_write hex kind _ (endsAt_writeMembers hex ms rest))
  · refine Rounds.collect (fun acc => (false, some kind, acc)) (fun ms => (some kind, ms))
      (fun _ ms => writeMembers hex false ms ('}' :: rest)) ?_ ?_ ?_
    · exact fun _ => rfl
    · rintro acc ⟨k, v⟩ mem more
      have other : k ≠ "kind" := others (k, v) mem
      refine (bind_ok (nextKey?_write hex false k _)).trans ?_
      simp only [other, if_false]
      rw [bind_ok (colon_cons _)]
      exact bind_ok (reads (k, v) mem _ (endsAt_writeMembers hex more rest))
    · exact fun _ m more => length_lt_member hex false m.1 m.2 _

theorem ne_of_member?_eq_none {key : String} {ms : List (String × Value)} (absent : member? key ms = none) :
    ∀ m ∈ ms, m.1 ≠ key := by
  induction ms with
  | nil => exact List.forall_mem_nil _
  | cons m ms ih =>
    obtain ⟨later, here⟩ := Option.or_eq_none_iff.1 absent
    have other : m.1 ≠ key := by
      intro same
      rw [if_pos same] at here
      cases here
    exact List.forall_mem_cons.2 ⟨other, ih later⟩

/-- Reading a declaration that was written gives it back. -/
theorem readDecl_write (hex : HexCase) {d : Decl} (kinds : d.WellKinded) {depth : Nat}
    (shallow : (declJson d).depth ≤ depth) : Reads (readDecl depth) hex (declJson d) d := by
  intro rest _
  rw [declJson_eq, Value.depth, membersDepth] at shallow
  obtain ⟨depth, rfl⟩ : ∃ n, depth = n + 1 := Nat.exists_eq_succ_of_ne_zero (by omega)
  have reads : ∀ m ∈ membersOf d, Reads (value depth) hex m.2 m.2 := by
    intro m mem
    have writable := writable_membersOf (fun e _ => writable_declJson e) m mem
    have inside := depth_le_membersDepth mem
    exact value_write hex writable (by omega)
  have members := declMembers_write hex (kindOf d) (ne_of_member?_eq_none (member?_kind_membersOf d)) reads rest
  have inner : declItems? (declsJson d.nested) = some d.nested :=
    declItems?_declsJson fun e mem => decl?_declJson (kinds.nested e mem)
  have made : declOf? (kindOf d) (membersOf d) ((nested? (membersOf d)).getD (some [])) = some d := by
    rw [nested?_membersOf, inner]
    exact declOf?_membersOf kinds
  rw [declJson_eq]
  refine (bind_ok (r := deeper (depth + 1) declMembers) members).trans ?_
  dsimp only [Option.bind_some]
  rw [made]
  rfl

/-- The list of declarations, whatever has become of the target. -/
theorem taken_decls (hex : HexCase) {ds : List Decl} (kinds : ∀ d ∈ ds, d.WellKinded) {depth : Nat}
    (shallow : (Value.array (declsJson ds)).depth ≤ depth) (target : Option (Option String)) :
    Taken depth Parts.members hex ⟨target, none⟩ [("decls", .array (declsJson ds))] ⟨target, some ds⟩ := by
  have list : Reads (readList depth readDecl) hex (.array (declsJson ds)) ds := by
    rw [declsJson_eq_map] at shallow ⊢
    rw [Value.depth] at shallow
    obtain ⟨depth, rfl⟩ : ∃ n, depth = n + 1 := Nat.exists_eq_succ_of_ne_zero (by omega)
    refine readList_write hex declJson fun d mem => readDecl_write hex (kinds d mem) ?_
    have inside := depth_le_itemsDepth (List.mem_map_of_mem mem : declJson d ∈ ds.map declJson)
    omega
  exact .next rfl rfl (fun rest ends => bind_ok (list rest ends)) (.done _)

theorem taken_toJson (hex : HexCase) (target : Option (Option String)) {ds : List Decl}
    (kinds : ∀ d ∈ ds, d.WellKinded) {depth : Nat} (shallow : (toJson target ds).depth ≤ depth + 1) :
    Taken depth Parts.members hex {}
      ((target.map fun t => ("target", nullableJson .string t)).toList ++ [("decls", .array (declsJson ds))])
      ⟨target, some ds⟩ := by
  rw [toJson, Value.depth] at shallow
  have inside : (Value.array (declsJson ds)).depth ≤ depth :=
    Nat.le_trans (depth_le_membersDepth (m := ("decls", _)) (List.mem_append_right _ List.mem_cons_self))
      (Nat.le_of_succ_le_succ shallow)
  have decls := taken_decls hex kinds inside target
  cases target with
  | none => exact decls
  | some t =>
    refine .next (t := ⟨some t, none⟩) rfl rfl ?_ decls
    intro rest ends
    cases t with
    | none => exact bind_ok (readNullable_null readText hex rest ends)
    | some triple => exact bind_ok (readNullable_text hex triple rest ends)

/-- Reading a dump that was written gives back its target, as far as it has one, and its declarations. -/
theorem parse_written (hex : HexCase) (target : Option (Option String)) {ds : List Decl}
    (kinds : ∀ d ∈ ds, d.WellKinded) (shallow : (toJson target ds).depth ≤ maxDepth) :
    parse (render hex target ds) = .ok ⟨target.join, ds⟩ := by
  have read := whole_render (structured_write (taken_toJson hex target kinds shallow))
  rw [parse, render, toJson, maxDepth, read]
  rfl

end Dump

namespace Frontend

theorem triple_of_ofTriple? {triple : String} {t : Target} (known : Target.ofTriple? triple = some t) :
    t.triple = triple := by
  unfold Target.ofTriple? at known
  split at known
  · cases known
  · obtain ⟨layout, -, rfl⟩ := Option.map_eq_some_iff.1 known
    rfl

theorem value_dump_bind (source : String) (args : List String) :
    (dump.parse source args).value = (targetTriple args).value.bind (parseDump source) := by
  have run : targetTriple args = ⟨(targetTriple args).value, (targetTriple args).events⟩ := rfl
  unfold dump
  dsimp only
  rw [run]
  cases (targetTriple args).value <;> rfl

theorem value_dump {args : List String} {triple : String} (selects : (targetTriple args).value = .ok triple)
    (source : String) : (dump.parse source args).value = parseDump source triple := by
  rw [value_dump_bind, selects]
  rfl

/-- A dump that was written for no target or for the one that the arguments select is accepted, and the program is
made of that target and of the declarations written. -/
theorem accepts_written_dump (hex : HexCase) {args : List String} {triple : String} {t : Target}
    (selects : (targetTriple args).value = .ok triple) (known : Target.ofTriple? triple = some t)
    {target : Option (Option String)} (fits : target = none ∨ target = some none ∨ target = some (some triple))
    {ds : List Decl} (kinds : ∀ d ∈ ds, d.WellKinded) (shallow : (Dump.toJson target ds).depth ≤ 127) :
    ∃ p : Program, (dump.parse (Dump.render hex target ds) args).value = .ok p ∧ p.target = t ∧ p.decls = ds := by
  have same := triple_of_ofTriple? known
  refine ⟨.ofDecls t ds, ?_, rfl, rfl⟩
  rw [value_dump selects, parseDump]
  simp only [known, Dump.parse_written hex target kinds shallow]
  rcases fits with rfl | rfl | rfl
  · rfl
  · rfl
  · exact if_pos same.symm

/-- A record at the edges of both ranges, with a record and a function inside. -/
def crowded : List Decl :=
  [.scope "ns \" \\ \x01 é" [
    .record { id := Int64.minValue, name := "Outer", size := 18446744073709551615, align := 8, hasOwnVptr := true,
              bases := [{ record := Int64.maxValue, isVirtual := true, offset := 18446744073709551615 }],
              fields := [{ name := "bits", type := { name := "unsigned", size := 4, align := 4 }, offsetBits := 64,
                           bitWidth := some 3 },
                         { type := { name := "Inner", record := some (-2) }, offsetBits := 96, invalid := true }] }
      [.record { id := -2, name := "Inner", complete := false } [], .other "function" [.scope "" []]]]]

theorem crowded_wellKinded : ∀ d ∈ crowded, d.WellKinded := by
  have empty : ∀ d ∈ ([] : List Decl), d.WellKinded := List.forall_mem_nil _
  have function : Decl.WellKinded (.other "function" [.scope "" []]) :=
    .other (by decide) (List.forall_mem_singleton.2 (.scope empty))
  refine List.forall_mem_singleton.2 (.scope (List.forall_mem_singleton.2 (.record ?_)))
  exact List.forall_mem_cons.2 ⟨.record empty, List.forall_mem_singleton.2 function⟩

theorem accepts_crowded_dump :
    ∃ p : Program, (dump.parse (Dump.render .lower (some (some "aarch64-apple-darwin")) crowded)
      ["-v", "--target", "aarch64-apple-darwin"]).value = .ok p ∧
      p.target = ⟨"aarch64-apple-darwin", 64, 64, .itanium⟩ ∧ p.decls = crowded :=
  accepts_written_dump .lower (by rfl) (by rfl) (.inr (.inr rfl)) crowded_wellKinded (by decide)

end Frontend
end RecordLayout
