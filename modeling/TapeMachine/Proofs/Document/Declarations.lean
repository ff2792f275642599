import Mathlib.Algebra.GroupWithZero.Nat
import TapeMachine.Proofs.Document.Lookup
import TapeMachine.Proofs.FirstOccurrences

/-!
# Declarations

What an entry of a document declares, another entry cannot declare again: two entries of the table are two states, and
no two keys of a row stand for the same symbol or pattern, however they are written.  So nothing that the table says is
lost.  For synonyms there is no such check.  A name that is given twice is one synonym, whose place is that of the first
entry and whose body is that of the last.
-/

namespace TapeMachine

open Yaml (Value)

/-! ## Rows -/

/-- The keys of a row, of which a halting state has none. -/
def rowKeys (v : Value) : List Value :=
  match v.untagged with
  | .mapping m => m.map Prod.fst
  | _ => []

/-- The number of transitions that a key stands for: one, or as many as a sequence of symbols has. -/
def keyCount (key : Value) : Nat :=
  match key.untagged with
  | .sequence items => items.length
  | _ => 1

def rowCount (v : Value) : Nat := ((rowKeys v).map keyCount).sum

/-- The patterns that the keys of a row stand for, in order. -/
def RowPatterns : MachineType → List Value → List Pattern → Prop
  | .oneTape, keys, ps => ∃ css, List.Forall₂ KeySymbols keys css ∧ ps = css.flatten.map ([·])
  | .threeTape, keys, ps => ∃ ss, List.Forall₂ Value.HasText keys ss ∧ ps = ss.map String.toList

theorem rowKeys_untagged (v : Value) : rowKeys v.untagged = rowKeys v := by
  rw [rowKeys, rowKeys, Value.untagged_untagged]

theorem rowKeys_mapping (m : Mapping) : rowKeys (.mapping m) = m.map Prod.fst := rfl

theorem rowKeys_of_halting {v : Value} (h : v = .null ∨ v = .mapping []) : rowKeys v = [] := by
  rcases h with rfl | rfl <;> rfl

theorem keyCount_of_hasText {key : Value} {s : String} (h : key.HasText s) : keyCount key = 1 := by
  rw [← Value.hasText_untagged] at h
  unfold keyCount
  split
  · rename_i items hkey
    rw [hkey] at h
    cases h
  · rfl

theorem length_eq_keyCount {key : Value} {cs : List Symbol} (h : KeySymbols key cs) : cs.length = keyCount key := by
  cases h with
  | one hc => exact (keyCount_of_hasText hc).symm
  | sequence hkey _ hcs =>
    rw [keyCount, hkey]
    exact hcs.length_eq.symm

theorem length_of_rowPatterns {type : MachineType} {keys : List Value} {ps : List Pattern}
    (h : RowPatterns type keys ps) : ps.length = (keys.map keyCount).sum := by
  cases type with
  | oneTape =>
    obtain ⟨css, hcss, rfl⟩ := h
    rw [List.length_map, List.length_flatten]
    refine congrArg List.sum (map_eq_map_of_forall₂ (hcss.flip.imp fun _ _ hcs => length_eq_keyCount hcs))
  | threeTape =>
    obtain ⟨ss, hss, rfl⟩ := h
    have hone : keys.map keyCount = ss.map fun _ => 1 :=
      map_eq_map_of_forall₂ (hss.imp fun _ _ hs => keyCount_of_hasText hs)
    rw [hone, List.length_map, List.map_const', List.sum_replicate_nat, Nat.mul_one]

namespace Table

theorem patterns_single {t : SingleTable} {q : State} {r : Option (Dict Symbol SingleInstruction)}
    (h : t.states.get? q = some r) :
    ((single t).transitions q).map Transition.pattern = ((r.map Dict.keys).getD []).map ([·]) := by
  rw [transitions, h]
  cases r with
  | none => rfl
  | some d => simp [Dict.keys]

theorem patterns_multi {t : MultiTable} {q : State} {r : Option (List Rule)} (h : t.states.get? q = some r) :
    ((multi t).transitions q).map Transition.pattern = (r.getD []).map Rule.pattern := by
  rw [transitions, h]
  cases r with
  | none => rfl
  | some rules => simp

theorem transitionCount_eq (t : Table) :
    t.transitionCount = (t.states.map fun q => ((t.transitions q).map Transition.pattern).length).sum := by
  rw [transitionCount_eq_length, List.length_flatMap]
  simp only [List.length_map]

end Table

theorem SingleTable.rowPatterns_of_row {states : List State} {syn : Dict String SingleInstruction} {state : State}
    {v : Value} {r : Option (Dict Symbol SingleInstruction)} (h : row states syn state v = .ok r) :
    RowPatterns .oneTape (rowKeys v) (((r.map Dict.keys).getD []).map ([·])) := by
  rcases row_eq_ok_iff.1 h with ⟨hv, rfl⟩ | ⟨m, xs, d, -, rfl, hxs, hd, rfl⟩
  · rw [rowKeys_of_halting hv]
    exact ⟨[], .nil, rfl⟩
  · refine ⟨xs.map Prod.fst, ?_, ?_⟩
    · rw [rowKeys_mapping, List.forall₂_map_left_iff, List.forall₂_map_right_iff]
      exact hxs.imp fun _ _ hx => keySymbols?_eq_some_iff.1 hx.1
    · rw [← map_fst_flatMap_spread, ← hd]
      rfl

theorem MultiTable.rowPatterns_of_row {wildcard : Option Symbol} {states : List State}
    {syn : Dict String MultiInstruction} {state : State} {v : Value} {r : Option (List Rule)}
    (h : row 3 wildcard states syn state v = .ok r) :
    RowPatterns .threeTape (rowKeys v) ((r.getD []).map Rule.pattern) := by
  rcases row_eq_ok_iff.1 h with ⟨hv, rfl⟩ | ⟨m, rules, -, rfl, hrules, -, rfl⟩
  · rw [rowKeys_of_halting hv]
    exact ⟨[], .nil, rfl⟩
  · refine ⟨rules.map fun rule => String.ofList rule.pattern, ?_, ?_⟩
    · rw [rowKeys_mapping, List.forall₂_map_left_iff, List.forall₂_map_right_iff]
      refine hrules.imp fun e rule hr => ?_
      obtain ⟨s, hs, htext, -⟩ := keyPattern?_eq_some_iff.1 hr.1
      rwa [← hs, String.ofList_toList]
    · rw [List.map_map, Option.getD_some]
      exact List.map_congr_left fun rule _ => String.toList_ofList.symm

/-! ## Tables -/

/-- The table has one state for each of the rows, and one transition for each symbol or pattern that a key of the row
stands for. -/
structure DeclaredOnce (t : Table) (type : MachineType) (rows : Mapping) : Prop where
  names : List.Forall₂ Value.HasText (rows.map Prod.fst) t.states
  states : t.states.Nodup
  row : ∀ e ∈ rows, ∀ q, e.1.HasText q →
    RowPatterns type (rowKeys e.2) ((t.transitions q).map Transition.pattern)
  patterns : ∀ q, ((t.transitions q).map Transition.pattern).Nodup

/-- No row is lost, so there are as many transitions as the rows have keys, a sequence of symbols being as many. -/
theorem DeclaredOnce.transitionCount_eq {t : Table} {type : MachineType} {rows : Mapping}
    (h : DeclaredOnce t type rows) : t.transitionCount = (rows.map fun e => rowCount e.2).sum := by
  have hnames := (List.forall₂_and_left _ _).2 ⟨fun _ he => he, List.forall₂_map_left_iff.1 h.names⟩
  have hcount : rows.map (fun e => rowCount e.2) =
      t.states.map fun q => ((t.transitions q).map Transition.pattern).length :=
    map_eq_map_of_forall₂ (hnames.imp fun e q he => (length_of_rowPatterns (h.row e he.1 q he.2)).symm)
  rw [Table.transitionCount_eq, hcount]

section Tables
variable {rows : Mapping} {entries : Dict State Value} (hentries : List.Forall₂ Enters rows entries.entries)
include hentries

theorem SingleTable.declaredOnce {syn : Dict String SingleInstruction} {t : SingleTable}
    (ht : ofEntries syn entries = .ok t) : DeclaredOnce (.single t) .oneTape rows where
  names := by
    rw [Table.states, keys_of_ofEntries ht]
    exact hasText_keys_of_enters hentries
  states := Table.nodup_states _
  row e he q hq := by
    obtain ⟨_, r, htext, hget, hr⟩ := exists_get?_of_enters hentries he (ofEntries_eq_ok_iff.1 ht)
    rw [Value.hasText_iff, htext, Option.some.injEq] at hq
    subst hq
    rw [Table.patterns_single hget, ← rowKeys_untagged]
    exact rowPatterns_of_row hr
  patterns := (valid_of_ofEntries ht).distinct

theorem MultiTable.declaredOnce {wildcard : Option Symbol} {syn : Dict String MultiInstruction} {t : MultiTable}
    (hvalid : (Table.multi t).Valid) (ht : ofEntries 3 wildcard syn entries = .ok t) :
    DeclaredOnce (.multi t) .threeTape rows where
  names := by
    rw [Table.states, keys_of_ofEntries ht]
    exact hasText_keys_of_enters hentries
  states := Table.nodup_states _
  row e he q hq := by
    obtain ⟨_, r, htext, hget, hr⟩ := exists_get?_of_enters hentries he (ofEntries_eq_ok_iff.1 ht).2.2
    rw [Value.hasText_iff, htext, Option.some.injEq] at hq
    subst hq
    rw [Table.patterns_multi hget, ← rowKeys_untagged]
    exact rowPatterns_of_row hr
  patterns := hvalid.distinct

end Tables

/-! ## Synonyms -/

/-- The synonyms that are kept of those that a document has: one for each name, in the place of the first entry with
this name and with the meaning of the last. -/
structure KeepsLast (d : Dict String Instruction) (type : MachineType) (wildcard : Option Symbol)
    (synonyms : Mapping) (names : List String) : Prop where
  texts : List.Forall₂ Value.HasText (synonyms.map Prod.fst) names
  keys : d.keys = names.eraseDups
  body : ∀ name i, d.get? name = some i →
    ∃ v, Last synonyms name v ∧ TapeMachine.Means type wildcard [] v (i.effect type.tapes)

/-- Every entry gives a synonym of its own if and only if no name is given twice. -/
theorem KeepsLast.size_eq_iff {d : Dict String Instruction} {type : MachineType} {wildcard : Option Symbol}
    {synonyms : Mapping} {names : List String} (h : KeepsLast d type wildcard synonyms names) :
    d.size = synonyms.length ↔ names.Nodup := by
  have hsize : d.size = names.eraseDups.length := by
    rw [← h.keys, Dict.keys, List.length_map, Dict.size]
  have hlength : synonyms.length = names.length := by
    rw [← h.texts.length_eq, List.length_map]
  rw [hsize, hlength, length_eraseDups_eq_iff]

/-- The synonyms of a document, as they are kept for its table. -/
def Spec.keptSynonyms (type : MachineType) (wild : Option Symbol) (states : List State) (m : Mapping) :
    Except SpecError (Dict String Instruction) :=
  match type with
  | .oneTape => (Dict.map fun _ => .single) <$> Grammar.single.synonyms states (field? m "synonyms")
  | .threeTape => (Dict.map fun _ => .multi) <$> (Grammar.multi 3 wild).synonyms states (field? m "synonyms")

theorem Grammar.keepsLast {ι : Type} {g : Grammar ι} {states : List State} {m : Mapping} {d : Dict String ι}
    (h : g.synonyms states (Spec.field? m "synonyms") = .ok d) (f : ι → Instruction) (type : MachineType)
    (wildcard : Option Symbol)
    (hmeans : ∀ names v i, g.instruction states (.unavailable names) v = .ok i →
      TapeMachine.Means type wildcard [] v ((f i).effect type.tapes)) :
    ∃ synonyms names, (Field m "synonyms" none ∧ synonyms = [] ∨
        Field m "synonyms" (some (.mapping synonyms))) ∧
      KeepsLast (d.map fun _ => f) type wildcard synonyms names := by
  obtain ⟨synonyms, names, hfield, hnames, hkeys, hbody⟩ := exists_kept h
  refine ⟨synonyms, names, hfield, hnames, (Dict.keys_map _ d).trans hkeys, fun name i hi => ?_⟩
  rw [Dict.get?_map, Option.map_eq_some_iff] at hi
  obtain ⟨j, hj, rfl⟩ := hi
  obtain ⟨v, hlast, hv⟩ := hbody.body name j (Synonyms.body?_resolved_eq_ok_iff.2 hj.symm)
  exact ⟨v, hlast, hmeans _ v j hv⟩

/-! ## Documents -/

namespace Spec

theorem exists_keptSynonyms {type : MachineType} {wild : Option Symbol} {m rows : Mapping}
    {entries : Dict State Value} {t : Table} (hentries : List.Forall₂ Enters rows entries.entries)
    (h : tableOf type wild (field? m "synonyms") entries = .ok t) (hvalid : t.Valid) :
    DeclaredOnce t type rows ∧ ∃ synonyms names d,
      (Field m "synonyms" none ∧ synonyms = [] ∨ Field m "synonyms" (some (.mapping synonyms))) ∧
      keptSynonyms type wild t.states m = .ok d ∧ KeepsLast d type wild synonyms names := by
  have ht := tableOf_eq_ok_iff.1 h
  cases type with
  | oneTape =>
    obtain ⟨syn, t, hsyn, ht, rfl⟩ := ht
    have hstates : (Table.single t).states = entries.keys := SingleTable.keys_of_ofEntries ht
    obtain ⟨synonyms, names, hfield, hkept⟩ := Grammar.keepsLast hsyn .single .oneTape wild
      fun names v i hi => SingleInstruction.means_of_instruction (Synonyms.means_unavailable names _) hi
    refine ⟨SingleTable.declaredOnce hentries ht, synonyms, names, _, hfield, ?_, hkept⟩
    rw [keptSynonyms, hstates, hsyn]
    rfl
  | threeTape =>
    obtain ⟨syn, t, hsyn, ht, rfl⟩ := ht
    have hstates : (Table.multi t).states = entries.keys := MultiTable.keys_of_ofEntries ht
    obtain ⟨synonyms, names, hfield, hkept⟩ := Grammar.keepsLast hsyn .multi .threeTape wild
      fun names v i hi => MultiInstruction.means_of_instruction (Synonyms.means_unavailable names _) hi
    refine ⟨MultiTable.declaredOnce hentries hvalid ht, synonyms, names, _, hfield, ?_, hkept⟩
    rw [keptSynonyms, hstates, hsyn]
    rfl

/-- Of a document that is accepted, every entry of the table is a state of its own and every key of a row a transition
of its own; but of its synonyms only the last one of each name is kept. -/
theorem declaredOnce_of_ofValue {v : Value} {s : Spec} (h : ofValue v = .ok s) :
    ∃ m synonyms rows names d, v.untagged = .mapping m ∧ Declares m s.machineType s.wild synonyms rows ∧
      DeclaredOnce s.table s.machineType rows ∧
      s.table.transitionCount = (rows.map fun e => rowCount e.2).sum ∧
      keptSynonyms s.machineType s.wild s.table.states m = .ok d ∧
      KeepsLast d s.machineType s.wild synonyms names ∧ (d.size = synonyms.length ↔ names.Nodup) := by
  obtain ⟨m, hm, hs⟩ := ofValue_eq_ok_iff.1 h
  obtain ⟨-, -, -, -, ⟨entries, hentries, htable, -⟩, -, -⟩ := ofMapping_eq_ok_iff.1 hs
  obtain ⟨rows, hrows, henters⟩ := stateEntries_eq_ok_iff.1 hentries
  obtain ⟨honce, synonyms, names, d, hfield, hkept, hlast⟩ :=
    exists_keptSynonyms henters htable (valid_of_ofMapping hs).table
  exact ⟨m, synonyms, rows, names, d, hm, declares_of_ofMapping hs hfield (field?_eq_some_iff.1 hrows), honce,
    honce.transitionCount_eq, hkept, hlast, hlast.size_eq_iff⟩

/-- Synonyms of which the first and the last have the same name: one is the number and the other the string. -/
def overridingSynonyms : Mapping := [
  (.number (.integer 1), .string "R"),
  (.string "go", .mapping [(.string "R", .string "b")]),
  (.string "1", .string "L")]

def overridingFields : Mapping := [
  (.string "blank", .number (.integer 0)),
  (.string "start state", .string "a"),
  (.string "synonyms", .mapping overridingSynonyms),
  (.string "table", .mapping [
    (.string "a", .mapping [
      (.sequence [.number (.integer 0), .string "x"], .string "1"),
      (.number (.integer 2), .string "go")]),
    (.string "b", .null)])]

theorem field_overridingFields : Field overridingFields "synonyms" (some (.mapping overridingSynonyms)) :=
  field?_eq_some_iff.1 rfl

theorem texts_overridingSynonyms :
    List.Forall₂ Value.HasText (overridingSynonyms.map Prod.fst) ["1", "go", "1"] :=
  .cons (.integer 1) (.cons (.string "go") (.cons (.string "1") .nil))

theorem exists_ofValue_overridingFields :
    ∃ s, ofValue (.mapping overridingFields) = .ok s ∧
      (s.machineType, s.wild, s.table.states, s.table.transitionCount) = (.oneTape, none, ["a", "b"], 3) :=
  exists_of_toOption_map (by decide +kernel)

/-- The two rows have three transitions, and of the three synonyms two are kept, one with the body of the last. -/
theorem declaredOnce_overridingFields :
    ∃ s rows d, ofValue (.mapping overridingFields) = .ok s ∧
      Declares overridingFields .oneTape none overridingSynonyms rows ∧
      DeclaredOnce s.table .oneTape rows ∧ s.table.transitionCount = 3 ∧
      keptSynonyms .oneTape none ["a", "b"] overridingFields = .ok d ∧
      KeepsLast d .oneTape none overridingSynonyms ["1", "go", "1"] ∧
      d.keys = ["1", "go"] ∧ d.get? "1" = some (.single ⟨none, .left, none⟩) := by
  obtain ⟨s, hs, hparts⟩ := exists_ofValue_overridingFields
  obtain ⟨htype, hwild, hstates, hcount⟩ : s.machineType = .oneTape ∧ s.wild = none ∧
      s.table.states = ["a", "b"] ∧ s.table.transitionCount = 3 := by simpa using hparts
  obtain ⟨m, synonyms, rows, names, d, hm, hdeclares, honce, -, hkept, hlast, -⟩ := declaredOnce_of_ofValue hs
  obtain rfl : overridingFields = m := Value.mapping.inj hm
  obtain rfl : synonyms = overridingSynonyms := by
    have hfield := field?_eq_some_iff.2 field_overridingFields
    rcases hdeclares.synonyms with ⟨hnone, -⟩ | hsome
    · rw [field?_eq_none_iff.2 hnone] at hfield
      cases hfield
    · rw [field?_eq_some_iff.2 hsome] at hfield
      exact Value.mapping.inj (Option.some.inj hfield)
  obtain rfl : names = ["1", "go", "1"] :=
    (filterMap_text?_eq (forall₂_hasText_keys_iff.1 hlast.texts)).symm.trans
      (filterMap_text?_eq (forall₂_hasText_keys_iff.1 texts_overridingSynonyms))
  rw [htype, hwild] at hdeclares hkept hlast
  rw [htype] at honce
  rw [hstates] at hkept
  obtain ⟨d', hd', hbodies⟩ : ∃ d', keptSynonyms .oneTape none ["a", "b"] overridingFields = .ok d' ∧
      (d'.keys, d'.get? "1") = (["1", "go"], some (.single ⟨none, .left, none⟩)) :=
    exists_of_toOption_map (by decide +kernel)
  obtain rfl := Except.ok.inj (hkept.symm.trans hd')
  obtain ⟨hkeys, hget⟩ := Prod.mk.inj hbodies
  exact ⟨s, rows, d, hs, hdeclares, honce, hcount, hkept, hlast, hkeys, hget⟩

/-- A document whose keys are without tags and all different can be accepted although two of its synonyms have the same
name. -/
theorem not_forall_nodup_synonyms :
    ¬ ∀ (v : Value) (s : Spec), v.untaggedKeys = true → v.distinctKeys = true → ofValue v = .ok s →
      ∀ m synonyms names, v.untagged = .mapping m → Field m "synonyms" (some (.mapping synonyms)) →
        List.Forall₂ Value.HasText (synonyms.map Prod.fst) names → names.Nodup := by
  intro h
  obtain ⟨s, hs, -⟩ := exists_ofValue_overridingFields
  have hnodup := h _ s (by decide) (by decide) hs overridingFields overridingSynonyms _ rfl field_overridingFields
    texts_overridingSynonyms
  exact absurd hnodup (by decide)

end Spec

end TapeMachine
