import TapeMachine.Proofs.Document.Fields

/-!
# What is read is valid

A specification that is read from a text describes a machine: its start state and the states its
instructions lead to are declared, and its patterns and instructions are for as many tapes as it has.  Next
states are checked where an instruction is read, so an instruction that comes through a synonym has been
checked where the synonym was defined.  Widths are checked where a write or a string of moves is read; a
body of a synonym may stand for an instruction, so they have to be carried through the synonyms.
-/

namespace TapeMachine

open Yaml (Value)

/-! ## Instructions for several tapes -/

namespace MultiInstruction

variable {tapes : Nat} {wildcard : Option Symbol} {v : Value} {i : MultiInstruction}

/-- An instruction for so many tapes that does not write the wildcard. -/
structure Proper (tapes : Nat) (wildcard : Option Symbol) (i : MultiInstruction) : Prop where
  fits : i.fits tapes = true
  literal : ∀ tape c, i.writeFor tape = some c → wildcard ≠ some c

theorem length_of_writeOf {ws : List (Option Symbol)} (h : writeOf tapes wildcard v = .ok ws) :
    ws.length = tapes := by
  obtain ⟨hlength, rfl⟩ := writeOf_eq_ok_iff.1 h
  rwa [List.length_map]

theorem wildcard_ne_of_writeOf {ws : List (Option Symbol)} (h : writeOf tapes wildcard v = .ok ws)
    {c : Symbol} (hc : some c ∈ ws) : wildcard ≠ some c := by
  obtain ⟨-, rfl⟩ := writeOf_eq_ok_iff.1 h
  obtain ⟨x, -, hx⟩ := List.mem_map.1 hc
  split at hx
  · cases hx
  · rename_i hne
    rw [← hx]
    exact fun h => hne h.symm

theorem length_of_movesOf {ds : List Direction} (h : movesOf tapes v = .ok ds) : ds.length = tapes := by
  obtain ⟨hlength, hletters⟩ := movesOf_eq_ok_iff.1 h
  rwa [hletters, List.length_map] at hlength

theorem proper_of_ofMapping {m : Mapping} (h : ofMapping tapes wildcard m = .ok i) :
    i.Proper tapes wildcard := by
  obtain ⟨-, wss, dss, ss, hw, hd, -, rfl⟩ := ofMapping_eq_ok_iff.1 h
  have hwrite : ∀ ws, wss.getLast?.or none = some ws → ∃ v, writeOf tapes wildcard v = .ok ws := by
    intro ws hws
    rw [Option.or_none] at hws
    obtain ⟨v, -, hv⟩ := exists_of_mem_right hw (List.mem_of_getLast? hws)
    exact ⟨v, hv⟩
  have hmoves : ∀ ds, dss.getLast?.or none = some ds → ∃ v, movesOf tapes v = .ok ds := by
    intro ds hds
    rw [Option.or_none] at hds
    obtain ⟨v, -, hv⟩ := exists_of_mem_right hd (List.mem_of_getLast? hds)
    exact ⟨v, hv⟩
  constructor
  · refine fits_iff.2 ⟨fun ws hws => ?_, fun ds hds => ?_⟩
    · obtain ⟨v, hv⟩ := hwrite ws hws
      exact length_of_writeOf hv
    · obtain ⟨v, hv⟩ := hmoves ds hds
      exact length_of_movesOf hv
  · intro tape c hc
    obtain ⟨ws, hws, hget⟩ := writeFor_eq_some_iff.1 hc
    obtain ⟨v, hv⟩ := hwrite ws hws
    exact wildcard_ne_of_writeOf hv (List.mem_of_getElem? hget)

theorem proper_of_ofString {syn : Synonyms MultiInstruction} {s : String}
    (hsyn : ∀ j, syn.body? s = .ok (some j) → j.Proper tapes wildcard)
    (h : ofString tapes syn s = .ok i) : i.Proper tapes wildcard := by
  rcases ofString_eq_ok_iff.1 h with ⟨hlength, ds, hds, rfl⟩ | ⟨-, hbody⟩
  · constructor
    · refine fits_iff.2 ⟨nofun, ?_⟩
      rintro _ ⟨rfl⟩
      rw [← hlength, ← String.length_toList, directions?_eq_some_iff.1 hds, List.length_map]
    · intro tape c hc
      obtain ⟨ws, hws, -⟩ := writeFor_eq_some_iff.1 hc
      cases hws
  · exact hsyn i hbody

theorem proper_of_instruction {states : List State} {syn : Synonyms MultiInstruction}
    (hsyn : ∀ s j, syn.body? s = .ok (some j) → j.Proper tapes wildcard)
    (h : (Grammar.multi tapes wildcard).instruction states syn v = .ok i) :
    i.Proper tapes wildcard := by
  obtain ⟨hform, -⟩ := Grammar.instruction_eq_ok_iff.1 h
  rcases Grammar.form_eq_ok_iff.1 hform with ⟨s, -, hs⟩ | ⟨m, -, hm⟩
  · exact proper_of_ofString (hsyn s) hs
  · exact proper_of_ofMapping hm

end MultiInstruction

/-! ## Synonyms -/

namespace Grammar

/-- The body of a synonym was read as an instruction while no synonyms could be used. -/
theorem exists_of_get?_synonyms {ι : Type} {g : Grammar ι} {states : List State} {v? : Option Value}
    {d : Dict String ι} (h : g.synonyms states v? = .ok d) {name : String} {i : ι}
    (hi : d.get? name = some i) :
    ∃ names v, g.instruction states (.unavailable names) v = .ok i := by
  rcases synonyms_eq_ok_iff.1 h with ⟨-, rfl⟩ | ⟨m, xs, -, hxs, rfl⟩
  · cases hi
  · rw [Dict.get?_ofList] at hi
    have hmem : (name, i) ∈ xs := List.mem_reverse.1 (Dict.mem_of_lookup hi)
    obtain ⟨e, -, -, hbody⟩ := exists_of_mem_right hxs hmem
    exact ⟨_, e.2, hbody⟩

theorem proper_of_synonyms {tapes : Nat} {wildcard : Option Symbol} {states : List State}
    {v? : Option Value} {d : Dict String MultiInstruction}
    (h : (multi tapes wildcard).synonyms states v? = .ok d) (name : String) {i : MultiInstruction}
    (hi : (Synonyms.resolved d).body? name = .ok (some i)) : i.Proper tapes wildcard := by
  rw [Synonyms.body?_resolved_eq_ok_iff, eq_comm] at hi
  obtain ⟨names, v, hv⟩ := exists_of_get?_synonyms h hi
  refine MultiInstruction.proper_of_instruction (fun s j hj => ?_) hv
  cases (Synonyms.body?_unavailable_eq_ok_iff.1 hj).2

end Grammar

/-! ## Tables -/

namespace SingleTable

variable {syn : Dict String SingleInstruction} {entries : Dict State Value} {t : SingleTable}
  {state : State}

theorem keySymbols?_ne_nil {key : Value} {symbols : List Symbol} (h : keySymbols? key = some symbols) :
    symbols ≠ [] := by
  unfold keySymbols? at h
  split at h
  · rintro rfl
    cases mapM_eq_some_iff.1 h
  · obtain ⟨c, -, rfl⟩ := Option.map_eq_some_iff.1 h
    exact List.cons_ne_nil c []

theorem exists_row_of_get? (h : ofEntries syn entries = .ok t)
    {r : Option (Dict Symbol SingleInstruction)} (hr : t.states.get? state = some r) :
    ∃ v, row entries.keys syn state v = .ok r := by
  obtain ⟨v, -, hv⟩ := Dict.exists_of_mem_traverse (ofEntries_eq_ok_iff.1 h) (Dict.get?_eq_some_iff.1 hr)
  exact ⟨v, hv⟩

theorem keys_of_ofEntries (h : ofEntries syn entries = .ok t) : t.states.keys = entries.keys :=
  Dict.keys_traverse (ofEntries_eq_ok_iff.1 h)

theorem exists_instruction_of_row {states : List State} {v : Value} {d : Dict Symbol SingleInstruction}
    (h : row states syn state v = .ok (some d)) {x : Symbol × SingleInstruction} (hx : x ∈ d.entries) :
    ∃ v, Grammar.single.instruction states (.resolved syn) v = .ok x.2 := by
  rcases row_eq_ok_iff.1 h with ⟨-, h⟩ | ⟨m, xs, _, -, -, hxs, hd, ⟨⟩⟩
  · cases h
  · rw [hd, List.mem_flatMap] at hx
    obtain ⟨y, hy, hxy⟩ := hx
    obtain ⟨c, -, rfl⟩ := List.mem_map.1 hxy
    obtain ⟨e, -, -, he⟩ := exists_of_mem_right hxs hy
    exact ⟨e.2, he⟩

theorem entries_ne_nil_of_row {states : List State} {v : Value} {d : Dict Symbol SingleInstruction}
    (h : row states syn state v = .ok (some d)) : d.entries ≠ [] := by
  rcases row_eq_ok_iff.1 h with ⟨-, h⟩ | ⟨m, xs, _, hm, -, hxs, hd, ⟨⟩⟩
  · cases h
  · obtain ⟨e, he⟩ := List.exists_mem_of_ne_nil m hm
    obtain ⟨x, hx, hkey, -⟩ := exists_of_mem_left hxs he
    obtain ⟨c, hc⟩ := List.exists_mem_of_ne_nil x.1 (keySymbols?_ne_nil hkey)
    refine List.ne_nil_of_mem (a := (c, x.2)) ?_
    rw [hd, List.mem_flatMap]
    exact ⟨x, hx, List.mem_map_of_mem hc⟩

theorem valid_of_ofEntries (h : ofEntries syn entries = .ok t) : (Table.single t).Valid where
  next state r hr q hq := by
    obtain ⟨d, hd, x, hx, rfl⟩ := Table.mem_transitions_single.1 hr
    obtain ⟨v, hv⟩ := exists_row_of_get? h hd
    obtain ⟨_, hi⟩ := exists_instruction_of_row hv hx
    have hkeys : q ∈ entries.keys := (Grammar.instruction_eq_ok_iff.1 hi).2 q hq
    rwa [← keys_of_ofEntries h] at hkeys
  row state hs := by
    obtain ⟨r, hr⟩ := Option.isSome_iff_exists.1 ((Dict.isSome_get? t.states state).2 hs)
    cases r with
    | none => exact .inl (by simp [Table.isHalting, hr])
    | some d =>
      obtain ⟨v, hv⟩ := exists_row_of_get? h hr
      obtain ⟨x, hx⟩ := List.exists_mem_of_ne_nil _ (entries_ne_nil_of_row hv)
      exact .inr (List.ne_nil_of_mem (Table.mem_transitions_single.2 ⟨d, hr, x, hx, rfl⟩))
  distinct state := by
    rcases Table.transitions_single_eq_nil_or t state with hnil | ⟨d, -, hd⟩
    · rw [hnil]
      exact List.nodup_nil
    · have hmap : ((Table.single t).transitions state).map Transition.pattern = d.keys.map ([·]) := by
        rw [hd, Dict.keys, List.map_map, List.map_map]
        rfl
      rw [hmap]
      exact d.nodup_keys.map List.singleton_injective
  width state r hr := by
    obtain ⟨d, -, x, -, rfl⟩ := Table.mem_transitions_single.1 hr
    rfl
  fitting state r hr := by
    obtain ⟨d, -, x, -, rfl⟩ := Table.mem_transitions_single.1 hr
    rfl
  literal _ _ _ _ _ _ h := by cases h

end SingleTable

namespace MultiTable

variable {tapes : Nat} {wildcard : Option Symbol} {syn : Dict String MultiInstruction}
  {entries : Dict State Value} {t : MultiTable} {state : State}

theorem exists_row_of_get? (h : ofEntries tapes wildcard syn entries = .ok t) {r : Option (List Rule)}
    (hr : t.states.get? state = some r) : ∃ v, row tapes wildcard entries.keys syn state v = .ok r := by
  obtain ⟨-, -, ht⟩ := ofEntries_eq_ok_iff.1 h
  obtain ⟨v, -, hv⟩ := Dict.exists_of_mem_traverse ht (Dict.get?_eq_some_iff.1 hr)
  exact ⟨v, hv⟩

theorem keys_of_ofEntries (h : ofEntries tapes wildcard syn entries = .ok t) :
    t.states.keys = entries.keys :=
  Dict.keys_traverse (ofEntries_eq_ok_iff.1 h).2.2

theorem exists_reads_of_row {states : List State} {v : Value} {rules : List Rule}
    (h : row tapes wildcard states syn state v = .ok (some rules)) {r : Rule} (hr : r ∈ rules) :
    ∃ e, Reads tapes wildcard states syn e r := by
  rcases row_eq_ok_iff.1 h with ⟨-, h⟩ | ⟨m, _, -, -, hrules, -, ⟨⟩⟩
  · cases h
  · obtain ⟨e, -, he⟩ := exists_of_mem_right hrules hr
    exact ⟨e, he⟩

theorem ne_nil_of_row {states : List State} {v : Value} {rules : List Rule}
    (h : row tapes wildcard states syn state v = .ok (some rules)) : rules ≠ [] := by
  rcases row_eq_ok_iff.1 h with ⟨-, h⟩ | ⟨m, _, hm, -, hrules, -, ⟨⟩⟩
  · cases h
  · rintro rfl
    cases hrules
    exact hm rfl

theorem nodup_of_row {states : List State} {v : Value} {rules : List Rule}
    (h : row tapes wildcard states syn state v = .ok (some rules)) :
    (rules.map Rule.pattern).Nodup := by
  rcases row_eq_ok_iff.1 h with ⟨-, h⟩ | ⟨m, _, -, -, -, hnodup, ⟨⟩⟩
  · cases h
  · exact hnodup

/-- Every transition of a table that is read has the right width, and its instruction was read with the
synonyms at hand. -/
theorem exists_instruction_of_mem_transitions (h : ofEntries tapes wildcard syn entries = .ok t)
    {r : Transition} (hr : r ∈ (Table.multi t).transitions state) :
    r.pattern.length = tapes ∧ ∃ i v, r.instruction = .multi i ∧
      (Grammar.multi tapes wildcard).instruction entries.keys (.resolved syn) v = .ok i := by
  obtain ⟨rules, hrules, rule, hrule, rfl⟩ := Table.mem_transitions_multi.1 hr
  obtain ⟨v, hv⟩ := exists_row_of_get? h hrules
  obtain ⟨e, hkey, hi⟩ := exists_reads_of_row hv hrule
  obtain ⟨-, hlength⟩ := Option.filter_eq_some_iff.1 hkey
  exact ⟨beq_iff_eq.1 hlength, rule.instruction, e.2, rfl, hi⟩

theorem valid_of_ofEntries
    (hsyn : ∀ s i, (Synonyms.resolved syn).body? s = .ok (some i) → i.Proper tapes wildcard)
    (h : ofEntries tapes wildcard syn entries = .ok t) : (Table.multi t).Valid where
  next state r hr q hq := by
    obtain ⟨-, i, v, hri, hi⟩ := exists_instruction_of_mem_transitions h hr
    rw [hri] at hq
    have hkeys : q ∈ entries.keys := (Grammar.instruction_eq_ok_iff.1 hi).2 q hq
    rwa [← keys_of_ofEntries h] at hkeys
  row state hs := by
    obtain ⟨r, hr⟩ := Option.isSome_iff_exists.1 ((Dict.isSome_get? t.states state).2 hs)
    cases r with
    | none => exact .inl (by simp [Table.isHalting, hr])
    | some rules =>
      obtain ⟨v, hv⟩ := exists_row_of_get? h hr
      obtain ⟨rule, hrule⟩ := List.exists_mem_of_ne_nil _ (ne_nil_of_row hv)
      exact .inr (List.ne_nil_of_mem (Table.mem_transitions_multi.2 ⟨rules, hr, rule, hrule, rfl⟩))
  distinct state := by
    rcases Table.transitions_multi_eq_nil_or t state with hnil | ⟨rules, hr, hrules⟩
    · rw [hnil]
      exact List.nodup_nil
    · obtain ⟨v, hv⟩ := exists_row_of_get? h hr
      have hmap : ((Table.multi t).transitions state).map Transition.pattern = rules.map Rule.pattern := by
        rw [hrules, List.map_map]
        rfl
      rw [hmap]
      exact nodup_of_row hv
  width state r hr := by
    obtain ⟨hlength, -⟩ := exists_instruction_of_mem_transitions h hr
    rw [hlength]
    exact (ofEntries_eq_ok_iff.1 h).1.symm
  fitting state r hr := by
    obtain ⟨-, i, v, hri, hi⟩ := exists_instruction_of_mem_transitions h hr
    rw [hri, Table.tapes, (ofEntries_eq_ok_iff.1 h).1]
    exact (MultiInstruction.proper_of_instruction hsyn hi).fits
  literal state r hr tape c hc := by
    obtain ⟨-, i, v, hri, hi⟩ := exists_instruction_of_mem_transitions h hr
    rw [hri] at hc
    rw [Table.wildcard, (ofEntries_eq_ok_iff.1 h).2.1]
    exact (MultiInstruction.proper_of_instruction hsyn hi).literal tape c hc

end MultiTable

/-! ## Documents -/

namespace Spec

theorem valid_of_ofMapping {m : Mapping} {s : Spec} (h : ofMapping m = .ok s) : s.Valid := by
  obtain ⟨-, -, -, -, ⟨entries, -, htable, hstart⟩, -, -⟩ := ofMapping_eq_ok_iff.1 h
  have ht := tableOf_eq_ok_iff.1 htable
  cases hk : s.machineType with
  | oneTape =>
    rw [hk] at ht
    obtain ⟨syn, t, hsyn, ht, hs⟩ := ht
    refine ⟨?_, ?_, ?_, ?_, ?_⟩
    · rw [hs]
      exact hk
    · rw [hs, Spec.tapes, hk]
      rfl
    · rw [hs]
      exact nofun
    · rwa [hs, Table.states, SingleTable.keys_of_ofEntries ht]
    · rw [hs]
      exact SingleTable.valid_of_ofEntries ht
  | threeTape =>
    rw [hk] at ht
    obtain ⟨syn, t, hsyn, ht, hs⟩ := ht
    obtain ⟨htapes, hwild, -⟩ := MultiTable.ofEntries_eq_ok_iff.1 ht
    refine ⟨?_, ?_, ?_, ?_, ?_⟩
    · rw [hs]
      exact hk
    · rw [hs, Spec.tapes, hk]
      exact htapes
    · rw [hs]
      rintro _ ⟨⟩
      exact hwild
    · rwa [hs, Table.states, MultiTable.keys_of_ofEntries ht]
    · rw [hs]
      exact MultiTable.valid_of_ofEntries (fun s i => Grammar.proper_of_synonyms hsyn s) ht

theorem valid_of_ofValue {v : Value} {s : Spec} (h : ofValue v = .ok s) : s.Valid := by
  obtain ⟨m, -, hm⟩ := ofValue_eq_ok_iff.1 h
  exact valid_of_ofMapping hm

/-- Every specification that is read from a text is valid. -/
theorem valid_of_parse {text : String} {s : Spec} (h : parse text = .ok s) : s.Valid := by
  obtain ⟨-, v, -, hv⟩ := parse_eq_ok_iff.1 h
  obtain ⟨m, -, hm⟩ := ofValue_eq_ok_iff.1 hv
  exact valid_of_ofMapping hm

/-- A document for three tapes: its only instruction comes through a synonym, writes a symbol on the first
tape, and names the wildcard for the others. -/
def marking : String := "\n".intercalate [
  "blank: _",
  "wild: '*'",
  "type: 3tape",
  "start state: a",
  "synonyms: \x7bs: \x7bwrite: 1**, next: b\x7d\x7d",
  "table: \x7ba: \x7b_**: s\x7d, b: \x7d"]

theorem exists_parse_marking : ∃ s, parse marking = .ok s ∧ s.table.wildcard = some '*' := by
  have hread : ((parse marking).toOption.map fun s => s.table.wildcard) = some (some '*') := by
    decide +kernel
  cases hs : parse marking with
  | error e =>
    rw [hs] at hread
    cases hread
  | ok s =>
    rw [hs] at hread
    exact ⟨s, rfl, Option.some.inj hread⟩

theorem valid_of_parse_marking :
    ∃ s, parse marking = .ok s ∧ s.table.wildcard = some '*' ∧ s.Valid := by
  obtain ⟨s, hs, hwild⟩ := exists_parse_marking
  exact ⟨s, hs, hwild, valid_of_parse hs⟩

end Spec

end TapeMachine
