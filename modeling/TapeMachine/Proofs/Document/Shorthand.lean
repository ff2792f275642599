import TapeMachine.Proofs.Document.Inlining

/-!
# Keys with several symbols

In a row for one tape a key that lists symbols is short for one key for each of them, with the same instruction and
in the same place.  What an instruction means does not hang on its key, so that the entries that are written for one
have its transitions, in the same order; and since no symbol occurs twice in a row, they have different keys.
-/

namespace TapeMachine

open Yaml (Value)

/-! ## Writing the keys out -/

/-- One entry for each symbol that the key lists, or the entry itself. -/
def separateKeys (e : Value × Value) : Mapping :=
  match e.1.untagged with
  | .sequence items => items.map fun item => (.string (item.text?.getD ""), e.2)
  | _ => [e]

def separatedRow : Value → Value := Value.withEntries (List.flatMap separateKeys)

namespace Spec

def separatedFields (m : Mapping) : Mapping := withTable (withRows (List.flatMap separateKeys)) m

/-- The document in which each key of a row is written out. -/
def separated : Value → Value := Value.withEntries separatedFields

end Spec

/-- Each key is a symbol, and no two are the same. -/
def SymbolKeys (m : Mapping) : Prop :=
  ∃ cs : List Symbol, List.Forall₂ (fun e c => e.1.HasText (String.singleton c)) m cs ∧ cs.Nodup

/-! ## Rows -/

namespace SingleTable

variable {states : List State} {syn : Dict String SingleInstruction} {state : State}

/-- An entry of a row whose key is a symbol stands for one transition. -/
def ReadsOne (states : List State) (syn : Dict String SingleInstruction) (e : Value × Value)
    (x : Symbol × SingleInstruction) : Prop :=
  e.1.HasText (String.singleton x.1) ∧ Grammar.single.instruction states (.resolved syn) e.2 = .ok x.2

theorem forall₂_readsOne {e : Value × Value} {x : List Symbol × SingleInstruction} (h : Reads states syn e x) :
    List.Forall₂ (ReadsOne states syn) (separateKeys e) (spread x) := by
  obtain ⟨cs, i⟩ := x
  obtain ⟨hkey, hi⟩ := h
  rcases keySymbols?_eq_some_iff.1 hkey with hc | ⟨hseq, -, hcs⟩
  · have hself : separateKeys e = [e] := by
      unfold separateKeys
      split
      · rename_i hseq
        rw [← Value.hasText_untagged, hseq] at hc
        cases hc
      · rfl
    rw [hself]
    exact .cons ⟨hc, hi⟩ .nil
  · rw [separateKeys, hseq, spread, List.forall₂_map_left_iff, List.forall₂_map_right_iff]
    refine hcs.imp fun item c hc => ⟨?_, hi⟩
    rw [Value.hasText_iff.1 hc]
    exact .string _

theorem row_of_readsOne {m : Mapping} {d : Dict Symbol SingleInstruction} (hm : m ≠ [])
    (h : List.Forall₂ (ReadsOne states syn) m d.entries) : row states syn state (.mapping m) = .ok (some d) := by
  refine row_eq_ok_iff.2 (.inr ⟨m, d.entries.map fun x => ([x.1], x.2), d, hm, rfl, ?_, ?_, rfl⟩)
  · rw [List.forall₂_map_right_iff]
    exact h.imp fun e x hx => ⟨keySymbols?_eq_some_iff.2 (.one hx.1), hx.2⟩
  · rw [List.flatMap_map]
    exact (List.flatMap_singleton' d.entries).symm

theorem exists_readsOne {v : Value} {d : Dict Symbol SingleInstruction} (h : row states syn state v = .ok (some d)) :
    ∃ m, m ≠ [] ∧ separatedRow v = .mapping m ∧ List.Forall₂ (ReadsOne states syn) m d.entries := by
  rcases row_eq_ok_iff.1 h with ⟨-, hnone⟩ | ⟨m, xs, _, -, rfl, hxs, hd, ⟨⟩⟩
  · cases hnone
  · have hone : List.Forall₂ (ReadsOne states syn) (m.flatMap separateKeys) d.entries := by
      rw [hd]
      exact List.rel_flatMap hxs fun _ _ => forall₂_readsOne
    refine ⟨_, fun hnil => entries_ne_nil_of_row h ?_, rfl, hone⟩
    rwa [hnil, List.forall₂_nil_left_iff] at hone

theorem row_separatedRow {v : Value} {r : Option (Dict Symbol SingleInstruction)} (h : row states syn state v = .ok r) :
    row states syn state (separatedRow v) = .ok r := by
  cases r with
  | none =>
    rcases row_eq_ok_iff.1 h with ⟨rfl | rfl, -⟩ | ⟨_, _, _, -, -, -, -, hsome⟩
    · rfl
    · rfl
    · cases hsome
  | some d =>
    obtain ⟨m, hm, hv, hone⟩ := exists_readsOne h
    rw [hv]
    exact row_of_readsOne hm hone

theorem symbolKeys_separatedRow {v : Value} {r : Option (Dict Symbol SingleInstruction)}
    (h : row states syn state v = .ok r) {m : Mapping} (hm : separatedRow v = .mapping m) : SymbolKeys m := by
  cases r with
  | none =>
    rcases row_eq_ok_iff.1 h with ⟨rfl | rfl, -⟩ | ⟨_, _, _, -, -, -, -, hsome⟩
    · cases hm
    · cases hm
      exact ⟨[], .nil, List.nodup_nil⟩
    · cases hsome
  | some d =>
    obtain ⟨_, -, hv, hone⟩ := exists_readsOne h
    cases hv.symm.trans hm
    refine ⟨d.keys, ?_, d.nodup_keys⟩
    rw [Dict.keys, List.forall₂_map_right_iff]
    exact hone.imp fun _ _ hx => hx.1

theorem ofEntries_separatedRow {entries : Dict State Value} {t : SingleTable} (h : ofEntries syn entries = .ok t) :
    ofEntries syn (entries.map fun _ => separatedRow) = .ok t := by
  rw [ofEntries_eq_ok_iff, Dict.keys_map]
  exact Dict.traverse_map (ofEntries_eq_ok_iff.1 h) fun _ _ _ _ => row_separatedRow

end SingleTable

/-! ## Documents -/

namespace Spec

variable {m : Mapping} {s : Spec}

/-- The table of a document for one tape, and what its rows are read with. -/
theorem exists_ofEntries_of_ofMapping (h : ofMapping m = .ok s) (htype : s.machineType = .oneTape) :
    ∃ entries syn t, stateEntries (field? m "table") = .ok entries ∧
      Grammar.single.synonyms entries.keys (field? m "synonyms") = .ok syn ∧
      SingleTable.ofEntries syn entries = .ok t ∧ s.table = .single t ∧ s.start ∈ entries.keys := by
  obtain ⟨-, -, -, -, ⟨entries, hentries, htable, hdeclared⟩, -⟩ := ofMapping_eq_ok_iff.1 h
  rw [htype] at htable
  obtain ⟨syn, t, hsyn, ht, hs⟩ := tableOf_eq_ok_iff.1 htable
  exact ⟨entries, syn, t, hentries, hsyn, ht, hs, hdeclared⟩

theorem stateEntries_separatedFields {entries : Dict State Value} (h : stateEntries (field? m "table") = .ok entries) :
    stateEntries (field? (separatedFields m) "table") = .ok (entries.map fun _ => separatedRow) := by
  have htable : field? (separatedFields m) "table" = (field? m "table").map (withRows (List.flatMap separateKeys)) :=
    (field?_withTable _ m "table").trans (if_pos rfl)
  rw [htable]
  exact stateEntries_withRows h

theorem ofMapping_separatedFields (h : ofMapping m = .ok s) (htype : s.machineType = .oneTape) :
    ofMapping (separatedFields m) = .ok s := by
  obtain ⟨entries, syn, t, hentries, hsyn, ht, htable, hdeclared⟩ := exists_ofEntries_of_ofMapping h htype
  obtain ⟨hblank, hwild, hstart, hmachine, -, hinput, hname⟩ := ofMapping_eq_ok_iff.1 h
  have hkeys : (entries.map fun _ => separatedRow).keys = entries.keys := Dict.keys_map _ entries
  have hwritten : tableOf .oneTape s.wild (field? m "synonyms") (entries.map fun _ => separatedRow) = .ok s.table :=
    tableOf_eq_ok_iff.2 ⟨syn, t, hkeys.symm ▸ hsyn, SingleTable.ofEntries_separatedRow ht, htable⟩
  have hfield : ∀ name, name ≠ "table" → field? (separatedFields m) name = field? m name :=
    fun name hne => (field?_withTable _ m name).trans (if_neg hne)
  rw [ofMapping_eq_ok_iff, hfield "blank" (by decide), hfield "wild" (by decide), hfield "start state" (by decide),
    hfield "type" (by decide), hfield "synonyms" (by decide), hfield "input" (by decide), hfield "name" (by decide)]
  exact ⟨hblank, hwild, hstart, hmachine,
    ⟨_, stateEntries_separatedFields hentries, htype.symm ▸ hwritten, hkeys.symm ▸ hdeclared⟩, hinput, hname⟩

/-- A document for one tape and the one in which each key that lists symbols is written out, with one key for each of
them in its place, have the same specification.  In the rows of the second the keys are symbols, each of them once. -/
theorem ofValue_separated {v : Value} (h : ofValue v = .ok s) (htype : s.machineType = .oneTape) :
    ofValue (separated v) = .ok s ∧
      ∀ m rows, (separated v).untagged = .mapping m → field? m "table" = some (.mapping rows) →
        ∀ e ∈ rows, ∀ row, e.2.untagged = .mapping row → SymbolKeys row := by
  obtain ⟨m, hm, hs⟩ := ofValue_eq_ok_iff.1 h
  have hseparated : (separated v).untagged = .mapping (separatedFields m) := by
    rw [separated, Value.untagged_withEntries, hm]
    rfl
  refine ⟨ofValue_eq_ok_iff.2 ⟨_, hseparated, ofMapping_separatedFields hs htype⟩, ?_⟩
  intro m' rows hm' hrows e he row hrow
  obtain ⟨entries, syn, t, hentries, -, ht, -⟩ := exists_ofEntries_of_ofMapping hs htype
  cases hseparated.symm.trans hm'
  -- each row of the second document is one of the first, with its keys written out
  obtain ⟨_, hmapping, hstates⟩ := stateEntries_eq_ok_iff.1 (stateEntries_separatedFields hentries)
  cases hrows.symm.trans hmapping
  obtain ⟨x, hx, -, hvalue⟩ := exists_of_mem_left hstates he
  obtain ⟨⟨state, v⟩, hv, rfl⟩ := List.mem_map.1 hx
  obtain ⟨r, hr⟩ := Dict.exists_traverse_iff.1 ⟨_, SingleTable.ofEntries_eq_ok_iff.1 ht⟩ _ hv
  exact SingleTable.symbolKeys_separatedRow hr (hvalue.trans hrow)

/-- A document in which a key with a tag lists a number and a symbol with a tag, between other keys of its row. -/
def listedDocument : Value := .mapping [
  (.string "blank", .string "_"),
  (.string "start state", .string "a"),
  (.string "synonyms", .mapping [(.string "go", .mapping [(.string "write", .string "x"), (.string "R", .string "b")])]),
  (.string "table", .mapping [
    (.string "a", .tagged "!row" (.mapping [
      (.string "_", .string "L"),
      (.tagged "!keys" (.sequence [.number (.integer 1), .tagged "!s" (.string "x"), .string "0"]), .string "go"),
      (.string "y", .string "b")])),
    (.string "b", .null)])]

theorem ofValue_separated_listedDocument :
    ∃ s, ofValue listedDocument = .ok s ∧ ofValue (separated listedDocument) = .ok s ∧
      (s.table.transitions "a").map Transition.pattern = [['_'], ['1'], ['x'], ['0'], ['y']] := by
  have hread : (ofValue listedDocument).toOption.map
      (fun s => (s.isSingleTape, (s.table.transitions "a").map Transition.pattern)) =
        some (true, [['_'], ['1'], ['x'], ['0'], ['y']]) := by
    decide +kernel
  obtain ⟨s, hs, hparts⟩ := exists_of_toOption_map hread
  obtain ⟨hsingle, hpatterns⟩ := Prod.mk.inj hparts
  have htype : s.machineType = .oneTape := beq_iff_eq.1 hsingle
  exact ⟨s, hs, (ofValue_separated hs htype).1, hpatterns⟩

end Spec

end TapeMachine
