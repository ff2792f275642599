import TapeMachine.Proofs.Document.Lookup
import TapeMachine.Proofs.Document.Place
import TapeMachine.Proofs.Yaml.Plain

/-!
# Scalars as they were typed

What a scalar without quotes stands for in a document that is accepted.  The input, the symbols and patterns
of the table and the symbols to write are the text of the value that is read, and this is the text that was
typed unless YAML has another spelling for the value.
-/

namespace TapeMachine

open Yaml (Value Hole fillAll Template Document tokenize readUntagged Respelled)

/-! ## Instructions -/

section Writes
variable {states : List State} {before after : Mapping} {v key u : Value}

theorem Grammar.ofMapping_of_instruction {ι : Type} {g : Grammar ι} {syn : Synonyms ι} {m : Mapping} {i : ι}
    (h : g.instruction states syn v = .ok i) (hv : v.untagged = .mapping m) : g.ofMapping m = .ok i := by
  obtain ⟨hform, -⟩ := instruction_eq_ok_iff.1 h
  rcases form_eq_ok_iff.1 hform with ⟨s, hs, -⟩ | ⟨m', hm', hi⟩
  · rw [hv] at hs
    cases hs
  · rw [hv, Value.mapping.injEq] at hm'
    rwa [hm']

theorem SingleInstruction.write_of_ofMapping {i : SingleInstruction}
    (h : ofMapping (before ++ (key, u) :: after) = .ok i) (hkey : key.HasText "write")
    (honce : Once (before ++ (key, u) :: after) "write") : i.write.map String.singleton = u.text? := by
  obtain ⟨-, -, hwrite⟩ := ofMapping_eq_ok_iff.1 h
  rw [honce.field?_eq hkey] at hwrite
  cases hu : u.present? with
  | none =>
    rw [hu, Option.map_none, eq_comm, Option.map_eq_none_iff] at hwrite
    rw [hwrite, Value.text?_of_present?_eq_none hu, Option.map_none]
  | some x =>
    rw [hu, Option.map_some, eq_comm, Option.map_eq_some_iff] at hwrite
    obtain ⟨c, hc, hx⟩ := hwrite
    rw [hc, Option.map_some, ← Value.text?_of_present? hu, Value.symbol?_eq_some_iff.1 hx.symm]

theorem MultiInstruction.write_of_ofMapping {wildcard : Option Symbol} {i : MultiInstruction}
    (h : ofMapping 3 wildcard (before ++ (key, u) :: after) = .ok i) (hkey : key.HasText "write")
    (honce : Once (before ++ (key, u) :: after) "write") :
    i.write = u.text?.map fun r => r.toList.map fun c => if some c = wildcard then none else some c := by
  obtain ⟨-, wss, dss, ss, hwss, -, -, rfl⟩ := ofMapping_eq_ok_iff.1 h
  rw [honce.presents, honce.field?_eq hkey] at hwss
  cases hu : u.present? with
  | none =>
    rw [hu] at hwss
    cases hwss
    rw [Value.text?_of_present?_eq_none hu]
    rfl
  | some x =>
    rw [hu, Option.toList_some] at hwss
    obtain ⟨ws, _, hws, hnil, rfl⟩ := List.forall₂_cons_left_iff.1 hwss
    cases hnil
    obtain ⟨hlength, rfl⟩ := writeOf_eq_ok_iff.1 hws
    obtain ⟨s, hs, hcs⟩ := exists_text?_of_charsOf rfl hlength
    rw [← Value.text?_of_present? hu, hs, ← hcs]
    rfl

/-- An instruction that is read from the value writes the text, if there is one. -/
structure Writes (v : Value) (text? : Option String) : Prop where
  single : ∀ states syn i, Grammar.single.instruction states syn v = .ok i →
    i.write.map String.singleton = text?
  multi : ∀ wildcard states syn i, (Grammar.multi 3 wildcard).instruction states syn v = .ok i →
    i.write = text?.map fun r => r.toList.map fun c => if some c = wildcard then none else some c

theorem writes_of_once (hv : v.untagged = .mapping (before ++ (key, u) :: after)) (hkey : key.HasText "write")
    (honce : Once (before ++ (key, u) :: after) "write") : Writes v u.text? where
  single _ _ _ h :=
    SingleInstruction.write_of_ofMapping (Grammar.ofMapping_of_instruction h hv) hkey honce
  multi _ _ _ _ h :=
    MultiInstruction.write_of_ofMapping (Grammar.ofMapping_of_instruction h hv) hkey honce

end Writes

/-! ## Transitions -/

/-- A scalar as a key of a row stands for one symbol, which is its text. -/
theorem SingleTable.exists_of_keySymbols? {key : Value} {cs : List Symbol} (h : keySymbols? key = some cs)
    (hscalar : ∀ items, key.untagged ≠ .sequence items) :
    ∃ c, cs = [c] ∧ key.text? = some (String.singleton c) := by
  cases keySymbols?_eq_some_iff.1 h with
  | one hkey => exact ⟨_, rfl, Value.hasText_iff.1 hkey⟩
  | sequence hitems => exact absurd hitems (hscalar _)

theorem SingleTable.exists_mem_keySymbols? {key u : Value} {items : List Value} {cs : List Symbol}
    (h : keySymbols? key = some cs) (hitems : key.untagged = .sequence items) (hu : u ∈ items) :
    ∃ c ∈ cs, u.text? = some (String.singleton c) := by
  cases keySymbols?_eq_some_iff.1 h with
  | one hkey =>
    rw [← Value.hasText_untagged, hitems] at hkey
    cases hkey
  | sequence hitems' _ hall =>
    rw [hitems, Value.sequence.injEq] at hitems'
    subst hitems'
    obtain ⟨c, hc, htext⟩ := exists_of_mem_left hall hu
    exact ⟨c, hc, Value.hasText_iff.1 htext⟩

section Transitions
variable {rows m : Mapping} {entries : Dict State Value} {e r : Value × Value}

variable (hentries : List.Forall₂ Enters rows entries.entries) (he : e ∈ rows)
  (hm : e.2.untagged = .mapping m) (hr : r ∈ m)

include hentries he hm hr

theorem SingleTable.exists_reads_of_ofEntries {syn : Dict String SingleInstruction} {t : SingleTable}
    (ht : ofEntries syn entries = .ok t) : ∃ state x, e.1.text? = some state ∧ Reads entries.keys syn r x ∧
      ∀ c ∈ x.1, ⟨[c], .single x.2⟩ ∈ (Table.single t).transitions state := by
  obtain ⟨state, y, hstate, hget, hrow⟩ := exists_get?_of_enters hentries he (ofEntries_eq_ok_iff.1 ht)
  rw [hm] at hrow
  rcases row_eq_ok_iff.1 hrow with ⟨hempty, -⟩ | ⟨_, xs, d, -, hm', hxs, hd, rfl⟩
  · rcases hempty with hnull | hnil
    · cases hnull
    · cases hnil
      cases hr
  · cases hm'
    obtain ⟨x, hx, hreads⟩ := exists_of_mem_left hxs hr
    refine ⟨state, x, hstate, hreads, fun c hc => ?_⟩
    refine Table.mem_transitions_single.2 ⟨d, hget, (c, x.2), ?_, rfl⟩
    rw [hd]
    exact List.mem_flatMap_of_mem hx (List.mem_map_of_mem hc)

theorem MultiTable.exists_reads_of_ofEntries {wildcard : Option Symbol} {syn : Dict String MultiInstruction}
    {t : MultiTable} (ht : ofEntries 3 wildcard syn entries = .ok t) :
    ∃ state rule, e.1.text? = some state ∧ Reads 3 wildcard entries.keys syn r rule ∧
      ⟨rule.pattern, .multi rule.instruction⟩ ∈ (Table.multi t).transitions state := by
  obtain ⟨-, -, hrows⟩ := ofEntries_eq_ok_iff.1 ht
  obtain ⟨state, y, hstate, hget, hrow⟩ := exists_get?_of_enters hentries he hrows
  rw [hm] at hrow
  rcases row_eq_ok_iff.1 hrow with ⟨hempty, -⟩ | ⟨_, rules, -, hm', hrules, -, rfl⟩
  · rcases hempty with hnull | hnil
    · cases hnull
    · cases hnil
      cases hr
  · cases hm'
    obtain ⟨rule, hrule, hreads⟩ := exists_of_mem_left hrules hr
    exact ⟨state, rule, hstate, hreads, Table.mem_transitions_multi.2 ⟨rules, hget, rule, hrule, rfl⟩⟩

end Transitions

namespace Spec

theorem exists_transition_of_ofMapping {m rows entries : Mapping} {s : Spec} (hs : ofMapping m = .ok s)
    (hrows : field? m "table" = some (.mapping rows)) {e r : Value × Value} (he : e ∈ rows)
    (hm : e.2.untagged = .mapping entries) (hr : r ∈ entries)
    (hscalar : ∀ items, r.1.untagged ≠ .sequence items) :
    ∃ state x, e.1.text? = some state ∧ x ∈ s.table.transitions state ∧
      r.1.text? = some (String.ofList x.pattern) := by
  obtain ⟨-, -, -, -, ⟨d, hd, htable, -⟩, -, -⟩ := ofMapping_eq_ok_iff.1 hs
  rw [hrows] at hd
  obtain ⟨_, hmapping, henters⟩ := stateEntries_eq_ok_iff.1 hd
  cases hmapping
  have ht := tableOf_eq_ok_iff.1 htable
  cases htype : s.machineType with
  | oneTape =>
    rw [htype] at ht
    obtain ⟨syn, t, -, ht, hsingle⟩ := ht
    obtain ⟨state, x, hstate, ⟨hkey, -⟩, hall⟩ :=
      SingleTable.exists_reads_of_ofEntries henters he hm hr ht
    obtain ⟨c, hc, htext⟩ := SingleTable.exists_of_keySymbols? hkey hscalar
    rw [hsingle]
    refine ⟨state, _, hstate, hall c (hc ▸ List.mem_singleton_self c), ?_⟩
    rw [htext, ← String.toList_singleton, String.ofList_toList]
  | threeTape =>
    rw [htype] at ht
    obtain ⟨syn, t, -, ht, hmulti⟩ := ht
    obtain ⟨state, rule, hstate, ⟨hkey, -⟩, hmem⟩ :=
      MultiTable.exists_reads_of_ofEntries henters he hm hr ht
    rw [hmulti]
    obtain ⟨p, hp, htext, -⟩ := MultiTable.keyPattern?_eq_some_iff.1 hkey
    refine ⟨state, _, hstate, hmem, ?_⟩
    rw [Value.hasText_iff.1 htext, ← hp, String.ofList_toList]

variable {text t : String} {s : Spec} {d : Template}

section Places
variable {m : Mapping} {u : Value}

theorem input_eq_text? {hole : Hole} {key : Value} (hs : ofMapping m = .ok s) (hslot : hole.slot = .value key)
    (hkey : key.HasText "input") (hm : (fillAll [hole] u).untagged = .mapping m) (honce : Once m "input") :
    s.input = u.text? := by
  obtain ⟨-, -, -, -, -, hinput, -⟩ := ofMapping_eq_ok_iff.1 hs
  have hentries : (fillAll [hole] u).untagged = _ := Hole.untagged_fill_of_value hslot u
  rw [hentries, Value.mapping.injEq] at hm
  subst hm
  rw [honce.field?_eq hkey, inputOf_eq_ok_iff] at hinput
  cases hu : u.present? with
  | none =>
    rw [hu, Option.map_none, eq_comm, Option.map_eq_none_iff] at hinput
    rw [hinput, Value.text?_of_present?_eq_none hu]
  | some x =>
    rw [hu, Option.map_some, eq_comm, Option.map_eq_some_iff] at hinput
    obtain ⟨i, hi, hx⟩ := hinput
    rw [hi, hx, Value.text?_of_present? hu]

theorem exists_transition_of_rowKey {table row key : Hole} {k q w : Value} (hs : ofMapping m = .ok s)
    (htable : table.slot = .value k) (hk : k.HasText "table") (hrow : row.slot = .value q)
    (hkey : key.slot = .key w) (hm : (fillAll [table, row, key] u).untagged = .mapping m)
    (honce : Once m "table") (hscalar : ∀ items, u.untagged ≠ .sequence items) :
    ∃ state, ∃ x ∈ s.table.transitions state, u.text? = some (String.ofList x.pattern) := by
  obtain ⟨hentries, hrows⟩ := untagged_fillAll_rowKey htable hk hrow hm honce u
  rw [hentries, Value.mapping.injEq] at hm
  subst hm
  obtain ⟨state, x, -, hx, htext⟩ := exists_transition_of_ofMapping (r := (u, w)) hs hrows
    (List.mem_append_right _ List.mem_cons_self) (Hole.untagged_fill_of_key hkey u)
    (List.mem_append_right _ List.mem_cons_self) hscalar
  exact ⟨state, x, hx, htext⟩

end Places

/-- What a scalar without quotes stands for in a document that is accepted.  The input, the key of a row or an
item of it, and what an instruction writes, are the text of the value that is read, and this text is the one
that was typed unless the scalar is respelled. -/
theorem parse_plain_scalar (hparse : parse text = .ok s)
    (hdoc : Document.ofTokens (tokenize text.toList) = d.fill .plain t) :
    ∃ m holes u, List.Forall₂ (Yaml.Interpreter.Corresponds (d.references .plain t)) d.place holes ∧
      Yaml.read text.toList = .ok (fillAll holes u) ∧ (fillAll holes u).untagged = .mapping m ∧
      readUntagged .plain t = .ok u ∧ (∀ r, u.text? = some r → (r = t ↔ ¬ Respelled t)) ∧
      (d.place.IsField "input" → Once m "input" → s.input = u.text?) ∧
      (d.place.IsRowKey → Once m "table" →
        ∃ state, ∃ x ∈ s.table.transitions state, u.text? = some (String.ofList x.pattern)) ∧
      (d.place.IsPart "write" → ∃ outer hole, holes = outer ++ [hole] ∧
        (Once (hole.entries u) "write" → Writes (hole.fill u) u.text?)) ∧
      ∀ key items cs, key.untagged = .sequence items → u ∈ items → SingleTable.keySymbols? key = some cs →
        ∃ c ∈ cs, u.text? = some (String.singleton c) := by
  obtain ⟨-, v, hread, hs⟩ := parse_eq_ok_iff.1 hparse
  obtain ⟨m, hm, hmapping⟩ := ofValue_eq_ok_iff.1 hs
  have hvalue : (d.fill .plain t).value = .ok v := hdoc ▸ hread
  obtain ⟨holes, u, hholes, hu, rfl, -⟩ := Template.exists_holes hvalue
  have htext : ∀ r, u.text? = some r → (r = t ↔ ¬ Respelled t) := fun r => Yaml.text?_of_readUntagged hu
  refine ⟨m, holes, u, hholes, hread, hm, hu, htext, ?_, ?_, ?_, ?_⟩
  · intro hfield honce
    obtain ⟨hole, key, rfl, hslot, hkey⟩ := hfield.exists_hole (by decide) hholes
    exact input_eq_text? hmapping hslot hkey hm honce
  · intro hrowKey honce
    obtain ⟨table, row, key, k, q, w, rfl, htable, hk, hrow, hkey⟩ := hrowKey.exists_holes hholes
    exact exists_transition_of_rowKey hmapping htable hk hrow hkey hm honce (Yaml.untagged_ne_sequence hu)
  · intro hpart
    obtain ⟨outer, hole, key, hlast, hslot, hkey⟩ := hpart.exists_hole (by decide) hholes
    refine ⟨outer, hole, hlast, fun honce => ?_⟩
    rw [Hole.entries, hslot] at honce
    exact writes_of_once (Hole.untagged_fill_of_value hslot u) hkey honce
  · exact fun key items cs hitems hmem hcs => SingleTable.exists_mem_keySymbols? hcs hitems hmem

open Yaml (Node)

def wordAt (line column index : Nat) (word : String) : Node :=
  .scalar ⟨line, column, index⟩ .empty .plain word

def inputText (t : String) : String := "input: " ++ t ++ "\nblank: 0\nstart state: a\ntable:\n  a:\n"

/-- The document around an input of twenty characters. -/
def inputTemplate : Template where
  place := [{
    mark := ⟨0, 0, 0⟩
    properties := .empty
    before := []
    slot := .value (wordAt 0 0 0 "input")
    after := [wordAt 1 0 28 "blank", wordAt 1 7 35 "0", wordAt 2 0 37 "start state", wordAt 2 13 50 "a",
      wordAt 3 0 52 "table",
      .collection ⟨4, 2, 61⟩ .empty .mapping [wordAt 4 2 61 "a", wordAt 4 3 62 ""]] }]
  mark := ⟨0, 7, 7⟩
  number := none
  size := 13
  fault := none
  continued := false

theorem isField_inputTemplate : inputTemplate.place.IsField "input" := ⟨_, _, _, _, rfl, rfl⟩

theorem parse_plain_scalar_inputText :
    ∃ s, parse (inputText "-1234567890123456789") = .ok s ∧ s.input = some "-1234567890123456789" := by
  have hparse : ∃ s, parse (inputText "-1234567890123456789") = .ok s := by
    have hok : (parse (inputText "-1234567890123456789")).isOk = true := by decide +kernel
    cases h : parse (inputText "-1234567890123456789") with
    | ok s => exact ⟨s, rfl⟩
    | error e =>
      rw [h] at hok
      cases hok
  have hplain : (Yaml.read (inputText "-1234567890123456789").toList).toOption.map Value.plainKeys =
      some true := by
    decide +kernel
  obtain ⟨s, hs⟩ := hparse
  obtain ⟨m, holes, u, -, hread, hm, hu, -, hinput, -⟩ :=
    parse_plain_scalar (d := inputTemplate) (t := "-1234567890123456789") hs rfl
  have honce : Once m "input" := by
    rw [hread] at hplain
    have hkeys : (fillAll holes u).plainKeys = true := Option.some.inj hplain
    rw [← Value.plainKeys_untagged, hm] at hkeys
    exact once_of_plainKeys hkeys "input" (by decide)
  refine ⟨s, hs, ?_⟩
  rw [hinput isField_inputTemplate honce]
  cases hu
  decide

/-- A plus sign is lost. -/
theorem not_forall_input_eq_typed :
    ¬ ∀ s i, parse (inputText "+5") = .ok s → s.input = some i → i = "+5" := by
  have hinput : (parse (inputText "+5")).toOption.bind Spec.input = some "5" := by decide +kernel
  intro htyped
  cases h : parse (inputText "+5") with
  | error e =>
    rw [h] at hinput
    cases hinput
  | ok s =>
    rw [h] at hinput
    exact absurd (htyped s "5" h hinput) (by decide)

end Spec

end TapeMachine
