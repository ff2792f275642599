import TapeMachine.Proofs.Document.Lookup
import TapeMachine.Proofs.Machine.Invariant
import TapeMachine.Proofs.Machine.Observation
import TapeMachine.Proofs.Machine.Session

/-!
# The symbols on the tapes

Where a symbol on a tape of a machine with three tapes can come from: the blank, the input, and what the
document writes.  The wildcard stands for every symbol and is none that a machine writes: where an
instruction has it, the cell stays as it is.  The instructions that come through a synonym are no exception,
so what an instruction writes is followed from the text in the document to the tape.
-/

namespace TapeMachine

open Yaml (Value)

/-! ## What the document writes -/

/-- The text under `write` of an instruction for three tapes, if it is a mapping or a synonym for one. -/
inductive WriteOf : Mapping → Value → Option String → Prop
  | moves {synonyms : Mapping} {v : Value} {s : String} {moves : List Direction} :
      v.untagged = .string s → Spells s moves → WriteOf synonyms v none
  | synonym {synonyms : Mapping} {v body : Value} {s : String} {write : Option String} :
      v.untagged = .string s → (∀ moves, ¬ Spells s moves) → Last synonyms s body →
      WriteOf [] body write → WriteOf synonyms v write
  | mapping {synonyms m : Mapping} {v : Value} {write : Option String} :
      v.untagged = .mapping m → Keeps m "write" write → WriteOf synonyms v write

/-- The text is under `write` in an instruction of the rows. -/
def WrittenIn (synonyms rows : Mapping) (ws : String) : Prop :=
  ∃ e ∈ rows, ∃ m, e.2.untagged = .mapping m ∧ ∃ r ∈ m, WriteOf synonyms r.2 (some ws)

/-- The instruction is the one of the first row of the state that matches the symbols. -/
def Selects (wildcard : Option Symbol) (rows : Mapping) (state : State) (symbols : List Symbol)
    (v : Value) : Prop :=
  ∃ e ∈ rows, e.1.HasText state ∧ ∃ before key after, e.2.untagged = .mapping (before ++ (key, v) :: after) ∧
    Matches .threeTape wildcard key symbols ∧ ∀ r ∈ before, ¬ Matches .threeTape wildcard r.1 symbols

/-- The blank, the symbols of the input, and what the rows write apart from the wildcard. -/
def Spec.alphabet (s : Spec) (synonyms rows : Mapping) : Set Symbol :=
  {x | x = s.blank ∨ x ∈ s.inputSymbols ∨
    some x ≠ s.wild ∧ ∃ ws, WrittenIn synonyms rows ws ∧ x ∈ ws.toList}

section
variable {wildcard : Option Symbol} {synonyms rows : Mapping} {v : Value} {state : State}
  {symbols : List Symbol}

theorem MultiMeans.exists_writeOf {effect : Effect} (h : MultiMeans wildcard synonyms v effect) :
    ∃ write, WriteOf synonyms v write ∧ ∀ (tape : Nat) a, effect.actions[tape]? = some a →
      a.write = (write.bind (·.toList[tape]?)).filter (some · ≠ wildcard) := by
  induction h with
  | moves hv hspells =>
    refine ⟨none, .moves hv hspells, fun tape a ha => ?_⟩
    obtain ⟨d, -, rfl⟩ := List.mem_map.1 (List.mem_of_getElem? ha)
    rfl
  | synonym hv hnot hlast _ ih =>
    obtain ⟨write, hwrite, hactions⟩ := ih
    exact ⟨write, .synonym hv hnot hlast hwrite, hactions⟩
  | mapping hv hwrite _ _ _ =>
    refine ⟨_, .mapping hv hwrite, fun tape a ha => ?_⟩
    rw [List.getElem?_map, Option.map_eq_some_iff] at ha
    obtain ⟨k, hk, rfl⟩ := ha
    obtain ⟨hlength, rfl⟩ := List.getElem?_eq_some_iff.1 hk
    rw [List.getElem_range]

theorem Prescribes.exists_writeOf {effect : Effect}
    (h : Prescribes .threeTape wildcard synonyms rows state symbols (some effect)) :
    ∃ v write, Selects wildcard rows state symbols v ∧ WriteOf synonyms v write ∧
      ∀ (tape : Nat) a, effect.actions[tape]? = some a →
        a.write = (write.bind (·.toList[tape]?)).filter (some · ≠ wildcard) := by
  cases h with
  | first he hstate hm hmatches hbefore hmeans =>
    obtain ⟨write, hwrite, hactions⟩ := hmeans.exists_writeOf
    exact ⟨_, write, ⟨_, he, hstate, _, _, _, hm, hmatches, hbefore⟩, hwrite, hactions⟩

theorem Selects.writtenIn (h : Selects wildcard rows state symbols v) {ws : String}
    (hwrite : WriteOf synonyms v (some ws)) : WrittenIn synonyms rows ws := by
  obtain ⟨e, he, -, before, key, after, hm, -, -⟩ := h
  exact ⟨e, he, _, hm, (key, v), by simp, hwrite⟩

end

/-! ## Cells -/

/-- Every cell of every tape holds one of the symbols. -/
def Config.Within (c : Config) (S : Set Symbol) : Prop := ∀ t ∈ c.tapes, ∀ i, t.cell i ∈ S

/-- On its tapes the control writes no other symbols. -/
def Control.Writes (r : Control) (S : Set Symbol) : Prop :=
  ∀ state symbols i, symbols.length = r.tapes → r.lookup state symbols = some i →
    ∀ tape < r.tapes, ∀ x, i.writeFor tape = some x → x ∈ S

section
variable {S : Set Symbol} {c : Config}

theorem Tape.cell_new_mem {blank : Symbol} {input : List Symbol} (hblank : blank ∈ S)
    (hinput : ∀ x ∈ input, x ∈ S) (i : Int) : (new blank input).cell i ∈ S := by
  rw [cell_new]
  by_cases hi : 0 ≤ i
  · rw [if_pos hi, List.getD_eq_getElem?_getD]
    cases hx : input[i.toNat]? with
    | none => exact hblank
    | some x => exact hinput x (List.mem_of_getElem? hx)
  · rw [if_neg hi]
    exact hblank

theorem Action.cell_apply_mem {a : Action} {t : Tape} (ht : ∀ i, t.cell i ∈ S)
    (ha : ∀ x, a.write = some x → x ∈ S) (i : Int) : (a.apply t).cell i ∈ S := by
  rw [cell_apply]
  cases hx : a.write with
  | none => exact ht i
  | some x =>
    show (if i = t.position then x else t.cell i) ∈ S
    by_cases hi : i = t.position
    · rw [if_pos hi]
      exact ha x hx
    · rw [if_neg hi]
      exact ht i

theorem Spec.within_initial {s : Spec} (hblank : s.blank ∈ S) (hinput : ∀ x ∈ s.inputSymbols, x ∈ S) :
    s.initial.Within S := by
  intro t ht
  rcases List.mem_cons.1 ht with rfl | ht
  · exact Tape.cell_new_mem hblank hinput
  · rw [List.eq_of_mem_replicate ht]
    exact Tape.cell_new_mem hblank nofun

theorem Config.Within.execute (hc : c.Within S) {i : Instruction}
    (hi : ∀ tape < c.tapes.length, ∀ x, i.writeFor tape = some x → x ∈ S) : (i.execute c).Within S := by
  intro t ht
  obtain ⟨tape, htape, rfl⟩ := List.mem_mapIdx.1 ht
  exact Action.cell_apply_mem (hc _ (List.getElem_mem htape)) (hi tape htape)

theorem Instruction.exists_cell_execute (i : Instruction) {tape : Nat} {t : Tape}
    (ht : c.tapes[tape]? = some t) :
    ∃ t', (i.execute c).tapes[tape]? = some t' ∧ t'.cell t.position = (i.writeFor tape).getD t.read := by
  refine ⟨(i.actionFor tape).apply t, ?_, Action.cell_apply_position _ t⟩
  rw [getElem?_tapes_execute, ht]
  rfl

/-- No other symbols come onto the tapes than were there and are written. -/
theorem Config.Within.session {r : Control} (hr : r.Writes S) (hlength : c.tapes.length = r.tapes)
    (hc : c.Within S) {os : List Operation} (hos : ∀ o ∈ os, o.isEdit = false) :
    (r.session os c).2.Within S := by
  -- The number of tapes has to be kept too: on other tapes the control may write anything.
  have hstep : ∀ (c : Config) i next, c.tapes.length = r.tapes ∧ c.Within S → r.step c = .done i next →
      next.tapes.length = r.tapes ∧ next.Within S := by
    rintro c i next ⟨hlength, hc⟩ hs
    obtain ⟨hi, -, rfl⟩ := Control.step_eq_done_iff.1 hs
    have hsymbols : c.symbols.length = r.tapes := (Config.length_symbols c).trans hlength
    refine ⟨(Instruction.length_tapes_execute i c).trans hlength, hc.execute ?_⟩
    rw [hlength]
    exact hr c.state c.symbols i hsymbols hi
  have hedit : ∀ tape e, Operation.edit tape e ∉ os := fun tape e he => nomatch hos _ he
  exact (Control.session_invariant (P := fun c => c.tapes.length = r.tapes ∧ c.Within S) hstep
    (fun tape e he => absurd he (hedit tape e)) ⟨hlength, hc⟩).2

end

/-! ## Documents -/

namespace Spec

/-- The instructions of the table write what the rows from which they come have under `write`. -/
def Follows (s : Spec) (synonyms rows : Mapping) : Prop :=
  ∀ state symbols i, symbols.length = 3 → s.table.lookup state symbols = some i →
    ∃ v write, Selects s.wild rows state symbols v ∧ WriteOf synonyms v write ∧
      ∀ tape < 3, i.writeFor tape = (write.bind (·.toList[tape]?)).filter (some · ≠ s.wild)

theorem exists_follows_of_ofValue {v : Value} {s : Spec} (h : ofValue v = .ok s)
    (htype : s.machineType = .threeTape) :
    ∃ m synonyms rows, v.untagged = .mapping m ∧ Declares m .threeTape s.wild synonyms rows ∧
      s.Follows synonyms rows := by
  obtain ⟨m, hm, hs⟩ := ofValue_eq_ok_iff.1 h
  obtain ⟨-, -, -, -, ⟨entries, hentries, htable, -⟩, -, -⟩ := ofMapping_eq_ok_iff.1 hs
  obtain ⟨rows, hrows, henters⟩ := stateEntries_eq_ok_iff.1 hentries
  obtain ⟨-, synonyms, hsynonyms, hlookup⟩ := prescribes_tableOf henters htable
  have hdeclares := declares_of_ofMapping hs hsynonyms (field?_eq_some_iff.1 hrows)
  rw [htype] at hdeclares hlookup
  refine ⟨m, synonyms, rows, hm, hdeclares, fun state symbols i hlength hi => ?_⟩
  have hprescribes := hlookup state symbols hlength
  rw [hi] at hprescribes
  obtain ⟨v, write, hselects, hwrite, hactions⟩ := hprescribes.exists_writeOf
  refine ⟨v, write, hselects, hwrite, fun tape htape => ?_⟩
  have haction : (i.effect 3).actions[tape]? = some (i.actionFor tape) := by
    show ((List.range 3).map i.actionFor)[tape]? = _
    rw [List.getElem?_map, List.getElem?_range htape]
    rfl
  exact hactions tape _ haction

section
variable {s : Spec} {synonyms rows : Mapping}

theorem wild_not_mem_alphabet {w : Symbol} (hw : s.wild = some w) (hblank : w ≠ s.blank)
    (hinput : w ∉ s.inputSymbols) : w ∉ s.alphabet synonyms rows := by
  rintro (h | h | ⟨h, -⟩)
  · exact hblank h
  · exact hinput h
  · exact h hw.symm

theorem Follows.writes_alphabet (hs : s.Follows synonyms rows) (hthree : s.table.control.tapes = 3) :
    s.table.control.Writes (s.alphabet synonyms rows) := by
  intro state symbols i hlength hi tape htape x hx
  rw [hthree] at hlength htape
  obtain ⟨v, write, hselects, hwrite, hwriteFor⟩ := hs state symbols i hlength hi
  rw [hwriteFor tape htape, Option.filter_eq_some_iff, Option.bind_eq_some_iff] at hx
  obtain ⟨⟨ws, rfl, hget⟩, hne⟩ := hx
  exact .inr (.inr ⟨of_decide_eq_true hne, ws, hselects.writtenIn hwrite, List.mem_of_getElem? hget⟩)

theorem Follows.exists_cell_step (hs : s.Follows synonyms rows) {c next : Config} {i : Instruction}
    (hlength : c.tapes.length = 3) (hstep : s.table.control.step c = .done i next) :
    ∃ v write, Selects s.wild rows c.state c.symbols v ∧ WriteOf synonyms v write ∧
      ∀ (tape : Nat) (t : Tape), c.tapes[tape]? = some t → ∃ t', next.tapes[tape]? = some t' ∧
        ∀ x, write.bind (·.toList[tape]?) = some x →
          t'.cell t.position = if some x = s.wild then t.read else x := by
  obtain ⟨hi, -, rfl⟩ := Control.step_eq_done_iff.1 hstep
  have hsymbols : c.symbols.length = 3 := (Config.length_symbols c).trans hlength
  obtain ⟨v, write, hselects, hwrite, hwriteFor⟩ := hs c.state c.symbols i hsymbols hi
  refine ⟨v, write, hselects, hwrite, fun tape t ht => ?_⟩
  have htape : tape < 3 := by
    rw [← hlength]
    exact (List.getElem?_eq_some_iff.1 ht).1
  obtain ⟨t', ht', hcell⟩ := i.exists_cell_execute ht
  refine ⟨t', ht', fun x hx => ?_⟩
  rw [hcell, hwriteFor tape htape, hx, Option.filter_some]
  by_cases hwild : some x = s.wild
  · rw [if_pos hwild, if_neg (by simpa using hwild)]
    rfl
  · rw [if_neg hwild, if_pos (by simpa using hwild)]
    rfl

end

/-- A machine with three tapes that is read from a text has on its tapes only the blank, symbols of the
input, and symbols that the document writes and that are not the wildcard; so if the wildcard is neither the
blank nor in the input, it is never on a tape.  Where the instruction of a step has the wildcard under
`write`, the cell keeps the symbol that was read, and everywhere else it gets the symbol that is there. -/
theorem cells_of_parse {text : String} {s : Spec} (h : parse text = .ok s)
    (htype : s.machineType = .threeTape) :
    ∃ v m synonyms rows, Yaml.read text.toList = .ok v ∧ v.untagged = .mapping m ∧
      Declares m .threeTape s.wild synonyms rows ∧
      (∀ (input : Option String) (os : List Operation), (∀ o ∈ os, o.isEdit = false) →
        (s.table.control.session os { s with input := input }.initial).2.Within
          ({ s with input := input }.alphabet synonyms rows) ∧
        ∀ w, s.wild = some w → w ≠ s.blank → w ∉ { s with input := input }.inputSymbols →
          ∀ t ∈ (s.table.control.session os { s with input := input }.initial).2.tapes, ∀ i, t.cell i ≠ w) ∧
      ∀ (c : Config) (i : Instruction) (next : Config), c.tapes.length = 3 →
        s.table.control.step c = .done i next →
        ∃ v write, Selects s.wild rows c.state c.symbols v ∧ WriteOf synonyms v write ∧
          ∀ (tape : Nat) (t : Tape), c.tapes[tape]? = some t → ∃ t', next.tapes[tape]? = some t' ∧
            ∀ x, write.bind (·.toList[tape]?) = some x →
              t'.cell t.position = if some x = s.wild then t.read else x := by
  obtain ⟨-, v, hread, hv⟩ := parse_eq_ok_iff.1 h
  have hvalid : s.Valid := valid_of_ofValue hv
  have hthree : s.table.control.tapes = 3 := by
    show s.table.tapes = 3
    rw [hvalid.tapes, tapes, htype]
    rfl
  obtain ⟨m, synonyms, rows, hm, hdeclares, hfollows⟩ := exists_follows_of_ofValue hv htype
  refine ⟨v, m, synonyms, rows, hread, hm, hdeclares, ?_, fun c i next => hfollows.exists_cell_step⟩
  intro input os hos
  have hinput : { s with input := input }.Follows synonyms rows := hfollows
  have hinitial : { s with input := input }.initial.Within ({ s with input := input }.alphabet synonyms rows) :=
    within_initial (.inl rfl) fun x hx => .inr (.inl hx)
  have hwithin := hinitial.session (hinput.writes_alphabet hthree) (hvalid.admits_initial input).tapes hos
  refine ⟨hwithin, fun w hw hblank hnot t ht i heq => ?_⟩
  exact wild_not_mem_alphabet (s := { s with input := input }) hw hblank hnot (heq ▸ hwithin t ht i)

theorem cells_of_parse_marking :
    ∃ s m synonyms rows, parse marking = .ok s ∧ s.machineType = .threeTape ∧ s.wild = some '*' ∧
      Declares m .threeTape s.wild synonyms rows ∧
      ∀ n, ∀ t ∈ (s.table.control.session [.run n] { s with input := some "_1" }.initial).2.tapes, ∀ i,
        t.cell i ≠ '*' := by
  have hread : (parse marking).toOption.map (fun s => (s.machineType, s.blank, s.wild)) =
      some (.threeTape, '_', some '*') := by
    decide +kernel
  obtain ⟨s, hs, hparts⟩ := exists_of_toOption_map hread
  obtain ⟨htype, hblank, hwild⟩ : s.machineType = .threeTape ∧ s.blank = '_' ∧ s.wild = some '*' := by
    simpa using hparts
  obtain ⟨_, m, synonyms, rows, -, -, hdeclares, hcells, -⟩ := cells_of_parse hs htype
  refine ⟨s, m, synonyms, rows, hs, htype, hwild, hdeclares, fun n => ?_⟩
  have hne : '*' ≠ s.blank := by
    rw [hblank]
    decide
  have hinput : '*' ∉ { s with input := some "_1" }.inputSymbols := by
    show '*' ∉ "_1".toList
    decide
  exact (hcells (some "_1") [.run n] (by simp [Operation.isEdit])).2 '*' hwild hne hinput

end Spec

end TapeMachine
