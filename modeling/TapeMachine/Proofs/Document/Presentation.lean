import Mathlib.Logic.Relation
import TapeMachine.Proofs.Document.Names
import TapeMachine.Proofs.Document.Tags

/-!
# Presentation

In how a document is presented there is a choice that the reader does not see: the order of its entries, entries with
other names than those of the fields, fields that are null, and tags on values at any depth.  Two documents that differ
in nothing else have the same specification or the same error.

That the order does not matter needs that no field is there twice, since then the last entry would count.  This holds
where the keys are without tags and all different, and every change of the presentation keeps it.
-/

namespace TapeMachine

open Yaml (Value)

/-! ## Changes of the presentation -/

/-- The names of the fields of a document. -/
def fieldNames : List String :=
  ["name", "blank", "wild", "start state", "type", "input", "synonyms", "table"]

/-- The second value has a tag more, anywhere but on a key or in one. -/
inductive Wraps : Value → Value → Prop
  | tag (tag : String) (v : Value) : Wraps v (.tagged tag v)
  | tagged {tag : String} {v v' : Value} : Wraps v v' → Wraps (.tagged tag v) (.tagged tag v')
  | item {before after : List Value} {v v' : Value} :
      Wraps v v' → Wraps (.sequence (before ++ v :: after)) (.sequence (before ++ v' :: after))
  | entry {before after : Mapping} {key v v' : Value} :
      Wraps v v' → Wraps (.mapping (before ++ (key, v) :: after)) (.mapping (before ++ (key, v') :: after))

/-- One change of the presentation, or its reverse. -/
inductive Restyles : Value → Value → Prop
  | permute {m m' : Mapping} : m.Perm m' → Restyles (.mapping m) (.mapping m')
  | ignored {m : Mapping} {key v : Value} :
      (∀ name ∈ fieldNames, ¬ key.HasText name) → Restyles (.mapping m) (.mapping ((key, v) :: m))
  | null {m : Mapping} {key v : Value} {name : String} : name ∈ fieldNames → key.HasText name →
      (∀ u, ¬ Says m name u) → v.IsNull → Restyles (.mapping m) (.mapping ((key, v) :: m))
  | wrap {v v' : Value} : Wraps v v' → Restyles v v'

theorem Wraps.bare_eq {v v' : Value} (h : Wraps v v') : v.bare = v'.bare := by
  induction h with
  | tag tag v => rw [Value.bare.eq_def (.tagged tag v)]
  | tagged _ ih => rw [Value.bare, Value.bare, ih]
  | item _ ih =>
    simp only [Value.bare, Value.bareItems_eq_map, List.map_append, List.map_cons, ih]
  | entry _ ih =>
    simp only [Value.bare, Value.bareEntries_eq_map, List.map_append, List.map_cons, ih]

/-! ## Fields -/

namespace Spec

variable {m m' : Mapping} {name : String} {key v : Value}

/-- A document is read through its fields. -/
theorem ofMapping_congr (h : ∀ name ∈ fieldNames, field? m' name = field? m name) : ofMapping m' = ofMapping m := by
  rw [ofMapping, ofMapping, h "blank" (by decide), h "wild" (by decide), h "start state" (by decide),
    h "type" (by decide), h "table" (by decide), h "synonyms" (by decide), h "input" (by decide), h "name" (by decide)]

theorem field?_perm (hperm : m.Perm m') (honce : Once m name) (honce' : Once m' name) :
    field? m' name = field? m name := by
  refine Option.ext fun v => ?_
  rw [honce.field?_eq_some_iff, honce'.field?_eq_some_iff]
  simp only [Says, hperm.mem_iff]

theorem field?_cons_of_not_hasText (h : ¬ key.HasText name) : field? ((key, v) :: m) name = field? m name := by
  have hkey : ¬ (key.text? == some name) = true := by
    rwa [beq_iff_eq, ← Value.hasText_iff]
  rw [field?, List.filter_cons, if_neg hkey, field?]

theorem field?_cons_of_isNull (hkey : key.HasText name) (habsent : ∀ u, ¬ Says m name u) (hv : v.IsNull) :
    field? ((key, v) :: m) name = field? m name := by
  have hnil : m.filter (·.1.text? == some name) = [] :=
    List.filter_eq_nil_iff.2 fun e he htext =>
      habsent e.2 ⟨e.1, he, Value.hasText_iff.2 (beq_iff_eq.1 htext)⟩
  rw [field?, field?, List.filter_cons, if_pos (beq_iff_eq.2 (Value.hasText_iff.1 hkey)), hnil]
  exact Value.isNull_iff.1 hv

end Spec

/-! ## Fields that are there once -/

theorem once_perm {m m' : Mapping} {name : String} (h : m.Perm m') : Once m name ↔ Once m' name :=
  h.pairwise_iff fun hne htext htext' => hne htext' htext

theorem once_cons_iff {m : Mapping} {name : String} {key v : Value} :
    Once ((key, v) :: m) name ↔ (key.HasText name → ∀ u, ¬ Says m name u) ∧ Once m name := by
  rw [Once, List.pairwise_cons, Once]
  refine and_congr_left' ⟨fun h hkey u ⟨k, hmem, hk⟩ => ?_, fun h e he hkey htext => ?_⟩
  · exact h (k, u) hmem (Value.hasText_iff.1 hkey) (Value.hasText_iff.1 hk)
  · exact h (Value.hasText_iff.2 hkey) e.2 ⟨e.1, he, Value.hasText_iff.2 htext⟩

/-- Under the tags of the value there are no two entries with the name of one field. -/
def FieldsOnce (v : Value) : Prop := ∀ m, v.bare = .mapping m → ∀ name ∈ fieldNames, Once m name

theorem fieldsOnce_mapping {m : Mapping} : FieldsOnce (.mapping m) ↔ ∀ name ∈ fieldNames, Once m name := by
  have hkeys : (Value.bareEntries m).map Prod.fst = m.map Prod.fst := by
    rw [Value.bareEntries_eq_map, List.map_map]
    rfl
  simp only [FieldsOnce, Value.bare, Value.mapping.injEq, forall_eq', once_iff_pairwise_keys, hkeys]

namespace Spec

/-- A change of the presentation keeps the fields unique, and where they are it keeps what is read. -/
theorem ofValue_restyles {v v' : Value} (h : Restyles v v') :
    (FieldsOnce v ↔ FieldsOnce v') ∧ (FieldsOnce v → ofValue v' = ofValue v) := by
  cases h with
  | permute hperm =>
    rw [fieldsOnce_mapping, fieldsOnce_mapping]
    refine ⟨forall₂_congr fun _ _ => once_perm hperm, fun h => ofMapping_congr fun name hname => ?_⟩
    exact field?_perm hperm (h name hname) ((once_perm hperm).1 (h name hname))
  | ignored hkey =>
    rw [fieldsOnce_mapping, fieldsOnce_mapping]
    refine ⟨forall₂_congr fun name hname => ?_, fun _ => ofMapping_congr fun name hname => ?_⟩
    · rw [once_cons_iff]
      exact (and_iff_right fun htext => absurd htext (hkey name hname)).symm
    · exact field?_cons_of_not_hasText (hkey name hname)
  | @null m key v name hname hkey habsent hv =>
    rw [fieldsOnce_mapping, fieldsOnce_mapping]
    have hsame : ∀ name', key.HasText name' → name' = name := by
      intro name' hkey'
      rw [Value.hasText_iff] at hkey hkey'
      exact Option.some.inj (hkey'.symm.trans hkey)
    refine ⟨forall₂_congr fun name' _ => ?_, fun _ => ofMapping_congr fun name' _ => ?_⟩
    · rw [once_cons_iff]
      exact (and_iff_right fun hkey' => hsame name' hkey' ▸ habsent).symm
    · by_cases hkey' : key.HasText name'
      · rw [hsame name' hkey']
        exact field?_cons_of_isNull hkey habsent hv
      · exact field?_cons_of_not_hasText hkey'
  | wrap hwraps =>
    have hbare := hwraps.bare_eq
    refine ⟨by rw [FieldsOnce, FieldsOnce, hbare], fun _ => ?_⟩
    rw [← ofValue_bare, ← hbare, ofValue_bare]

theorem ofValue_eq_of_eqvGen {v v' : Value} (h : Relation.EqvGen Restyles v v') :
    (FieldsOnce v ↔ FieldsOnce v') ∧ (FieldsOnce v → ofValue v' = ofValue v) := by
  induction h with
  | rel v v' h => exact ofValue_restyles h
  | refl v => exact ⟨Iff.rfl, fun _ => rfl⟩
  | symm v v' _ ih => exact ⟨ih.1.symm, fun hv' => (ih.2 (ih.1.2 hv')).symm⟩
  | trans u v w _ _ ih ih' => exact ⟨ih.1.trans ih'.1, fun hu => (ih'.2 (ih.1.1 hu)).trans (ih.2 hu)⟩

theorem fieldsOnce_of_untagged {v : Value} {m : Mapping} (hm : v.untagged = .mapping m)
    (huntagged : ∀ e ∈ m, ∀ tag u, e.1 ≠ .tagged tag u)
    (hdistinct : m.Pairwise fun e e' => e.1.same e'.1 = false) : FieldsOnce v := by
  have honce : FieldsOnce (.mapping m) :=
    fieldsOnce_mapping.2 fun name hname => once_of_isWord huntagged hdistinct (isWord_of_mem (by decide) hname)
  rwa [FieldsOnce, ← hm, Value.bare_untagged] at honce

/-- A mapping whose keys have no tags and are different from each other is read as the same specification, or refused
with the same error, in whatever way it is presented. -/
theorem ofValue_of_restyled {v v' : Value} {m : Mapping} (hm : v.untagged = .mapping m)
    (huntagged : ∀ e ∈ m, ∀ tag u, e.1 ≠ .tagged tag u)
    (hdistinct : m.Pairwise fun e e' => e.1.same e'.1 = false) (h : Relation.EqvGen Restyles v v') :
    ofValue v' = ofValue v :=
  (ofValue_eq_of_eqvGen h).2 (fieldsOnce_of_untagged hm huntagged hdistinct)

/-- The table of a machine that writes the given value on the symbol zero. -/
def tableWriting (write : Value) : Value :=
  .mapping [(.string "a", .mapping [(.string "0", .mapping [(.string "write", write), (.string "R", .null)])])]

def plainFields : Mapping := [
  (.string "blank", .string "_"),
  (.string "start state", .string "a"),
  (.string "table", tableWriting (.sequence [.string "x", .string "y"]))]

/-- The same fields in another order and with a tag. -/
def taggedFields : Mapping := [
  (.string "table", tableWriting (.sequence [.tagged "!first" (.string "x"), .string "y"])),
  (.string "blank", .string "_"),
  (.string "start state", .string "a")]

def restyledDocument : Value :=
  .tagged "!machine" (.mapping
    ((.string "wild", .tagged "!none" .null) :: (.string "author", .string "nobody") :: taggedFields))

theorem wraps_tableWriting {v v' : Value} (h : Wraps v v') : Wraps (tableWriting v) (tableWriting v') :=
  @Wraps.entry [] _ _ _ _ (@Wraps.entry [] _ _ _ _ (@Wraps.entry [] _ _ _ _ h))

theorem eqvGen_restyledDocument : Relation.EqvGen Restyles (.mapping plainFields) restyledDocument := by
  have hpermute : Restyles (.mapping plainFields) (.mapping [
      (.string "table", tableWriting (.sequence [.string "x", .string "y"])),
      (.string "blank", .string "_"),
      (.string "start state", .string "a")]) :=
    .permute (@List.perm_append_comm _ [_, _] [_])
  have hfirst : Wraps (.sequence [.string "x", .string "y"])
      (.sequence [.tagged "!first" (.string "x"), .string "y"]) :=
    @Wraps.item [] _ _ _ (.tag "!first" (.string "x"))
  have hauthor : Restyles (.mapping taggedFields)
      (.mapping ((.string "author", .string "nobody") :: taggedFields)) := by
    refine .ignored ?_
    simp only [Value.hasText_iff]
    decide
  have hwild : Restyles (.mapping ((.string "author", .string "nobody") :: taggedFields))
      (.mapping ((.string "wild", .tagged "!none" .null) :: (.string "author", .string "nobody") :: taggedFields)) := by
    have hname : "wild" ∈ fieldNames := by decide
    refine .null hname (.string "wild") (fun u hu => ?_) rfl
    obtain ⟨e, he, -⟩ := says_iff.1 hu
    exact List.not_mem_nil he
  refine .trans _ _ _ (.rel _ _ hpermute) ?_
  refine .trans _ _ _ (.rel _ _ (.wrap (@Wraps.entry [] _ _ _ _ (wraps_tableWriting hfirst)))) ?_
  refine .trans _ _ _ (.rel _ _ hauthor) ?_
  refine .trans _ _ _ (.rel _ _ hwild) ?_
  exact .rel _ _ (.wrap (.tag "!machine" _))

/-- Both documents are refused with the same error, which shows the list without its tag. -/
theorem ofValue_restyledDocument :
    Relation.EqvGen Restyles (.mapping plainFields) restyledDocument ∧
      ofValue restyledDocument = ofValue (.mapping plainFields) ∧
      (ofValue restyledDocument).map (fun _ => ()) = .error {
        reason := .invalidWriteLength
        state := some "a"
        symbol := some "0"
        problem := some "[x, y]"
        info := some "A single-tape write is exactly one symbol" } :=
  ⟨eqvGen_restyledDocument,
    ofValue_of_restyled (show (Value.mapping plainFields).untagged = _ from rfl) (by simp [plainFields]) (by decide)
      eqvGen_restyledDocument,
    by decide +kernel⟩

end Spec

end TapeMachine
