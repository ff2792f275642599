import TapeMachine.Proofs.Document.Lookup

/-!
# Synonyms are abbreviations

A document with synonyms says the same as the one in which each of them is written out.  The body of a synonym
is read twice, once where it is defined and once where it was put in place of its name, with different synonyms
in scope: in the definition there are names that must not be used, and in the document without synonyms there
are none.  What the first of these readers accepts the second reads in the same way (`instruction_of_unavailable`).
-/

namespace TapeMachine

open Yaml (Value)

/-! ## Writing synonyms out -/

/-- The value with other entries, if it is a mapping; it keeps its tags. -/
def Yaml.Value.withEntries (f : Mapping → Mapping) : Value → Value
  | .tagged tag v => .tagged tag (v.withEntries f)
  | .mapping m => .mapping (f m)
  | v => v

/-- Whether a text is read as movements, which is tried before synonyms. -/
def MachineType.isMovement : MachineType → String → Bool
  | .oneTape, s => (direction? s).isSome
  | .threeTape, s => s.length == 3 && (directions? s).isSome

/-- The body of the last synonym with the given name. -/
def lastBody? (synonyms : Mapping) (name : String) : Option Value :=
  (synonyms.filter (·.1.text? == some name)).getLast?.map Prod.snd

/-- The instruction, or the body of the synonym that it names. -/
def inlinedInstruction (isMovement : String → Bool) (synonyms : Mapping) (v : Value) : Value :=
  match v.untagged with
  | .string s => if isMovement s then v else (lastBody? synonyms s).getD v
  | _ => v

def inlinedRow (isMovement : String → Bool) (synonyms : Mapping) : Value → Value :=
  Value.withEntries (List.map fun e => (e.1, inlinedInstruction isMovement synonyms e.2))

def inlinedTable (isMovement : String → Bool) (synonyms : Mapping) : Value → Value :=
  Value.withEntries (List.map fun e => (e.1, inlinedRow isMovement synonyms e.2))

namespace Spec

def typeIn (m : Mapping) : MachineType :=
  match machineTypeOf (field? m "type") with
  | .ok type => type
  | .error _ => .default

def synonymsIn (m : Mapping) : Mapping :=
  match field? m "synonyms" with
  | some (.mapping synonyms) => synonyms
  | _ => []

/-- The fields but for the synonyms, which are written out in the table. -/
def inlinedFields (m : Mapping) : Mapping :=
  (m.filter (·.1.text? != some "synonyms")).map fun e =>
    (e.1, if e.1.text? = some "table" then inlinedTable (typeIn m).isMovement (synonymsIn m) e.2 else e.2)

/-- The document with its synonyms written out. -/
def inlined : Value → Value := Value.withEntries inlinedFields

end Spec

/-! ## Values -/

namespace Yaml.Value

variable {f : Mapping → Mapping}

theorem untagged_withEntries (v : Value) : (v.withEntries f).untagged = v.untagged.withEntries f := by
  fun_induction untagged v with
  | case1 tag v ih => exact ih
  | case2 v h =>
    cases v with
    | tagged tag v => exact absurd rfl (h tag v)
    | _ => rfl

theorem present?_withEntries (v : Value) : (v.withEntries f).present? = v.present?.map (·.withEntries f) := by
  induction v using untagged.induct with
  | case1 tag v ih => exact ih
  | case2 v h =>
    cases v with
    | tagged tag v => exact absurd rfl (h tag v)
    | _ => rfl

end Yaml.Value

/-- The table with other entries in its rows. -/
def withRows (f : Mapping → Mapping) : Value → Value :=
  Value.withEntries (List.map fun e => (e.1, e.2.withEntries f))

/-- The fields with another table. -/
def withTable (f : Value → Value) (m : Mapping) : Mapping :=
  m.map fun e => (e.1, if e.1.text? = some "table" then f e.2 else e.2)

theorem stateEntries_withRows {f : Mapping → Mapping} {v? : Option Value} {d : Dict State Value}
    (h : stateEntries v? = .ok d) :
    stateEntries (v?.map (withRows f)) = .ok (d.map fun _ => Value.withEntries f) := by
  obtain ⟨m, rfl, hm⟩ := stateEntries_eq_ok_iff.1 h
  refine stateEntries_eq_ok_iff.2 ⟨_, rfl, ?_⟩
  rw [Dict.map, List.forall₂_map_left_iff, List.forall₂_map_right_iff]
  refine hm.imp fun e x hx => ⟨hx.1, ?_⟩
  rw [hx.2]
  exact (Value.untagged_withEntries e.2).symm

theorem Spec.field?_withTable (f : Mapping → Mapping) (m : Mapping) (name : String) :
    field? (withTable (Value.withEntries f) m) name =
      if name = "table" then (field? m name).map (Value.withEntries f) else field? m name := by
  have hfilter : (withTable (Value.withEntries f) m).filter (·.1.text? == some name) =
      (m.filter (·.1.text? == some name)).map fun e =>
        (e.1, if name = "table" then e.2.withEntries f else e.2) := by
    rw [withTable, List.filter_map]
    refine List.map_congr_left fun e he => ?_
    have hname : e.1.text? = some name := beq_iff_eq.1 (List.mem_filter.1 he).2
    simp only [hname, Option.some.injEq]
  rw [field?, hfilter, List.getLast?_map, Option.bind_map, field?]
  by_cases htable : name = "table"
  · simp only [if_pos htable, Option.map_bind]
    refine Option.bind_congr fun e _ => ?_
    exact Value.present?_withEntries e.2
  · simp only [if_neg htable]
    rfl

theorem lastBody?_eq_some_of_last {m : Mapping} {name : String} {v : Value} (h : Last m name v) :
    lastBody? m name = some v := by
  obtain ⟨e, he, rfl⟩ := last_iff.1 h
  rw [lastBody?, he, Option.map_some]

theorem lastBody?_eq_none {m : Mapping} {name : String} (h : ∀ v, ¬ Says m name v) :
    lastBody? m name = none := by
  have hnil : m.filter (·.1.text? == some name) = [] := by
    refine List.filter_eq_nil_iff.2 fun e he htext => h e.2 ⟨e.1, he, ?_⟩
    exact Value.hasText_iff.2 (beq_iff_eq.1 htext)
  rw [lastBody?, hnil]
  rfl

/-! ## Instructions -/

namespace Grammar

variable {ι : Type} {g : Grammar ι} {isMovement : String → Bool} {states : List State}

/-- A string is read as movements if it is some, whatever the synonyms are, else as a synonym, and if it is
none either then as without synonyms. -/
structure MovesFirst (g : Grammar ι) (isMovement : String → Bool) : Prop where
  movement {syn : Synonyms ι} {s : String} {i : ι} : isMovement s = true →
    g.ofString syn s = .ok i → g.ofString (.resolved .empty) s = .ok i
  other {syn : Synonyms ι} {s : String} {i : ι} : isMovement s = false → g.ofString syn s = .ok i →
    syn.body? s = .ok (some i) ∨ syn.body? s = .ok none ∧ g.ofString (.resolved .empty) s = .ok i

theorem movesFirst_single : single.MovesFirst MachineType.oneTape.isMovement where
  movement {syn s i} hs h := by
    obtain ⟨d, hd⟩ := Option.isSome_iff_exists.1 hs
    rcases SingleInstruction.ofString_eq_ok_iff.1 h with hmove | ⟨hnone, -⟩
    · exact SingleInstruction.ofString_eq_ok_iff.2 (.inl hmove)
    · cases hd.symm.trans hnone
  other {syn s i} hs h := by
    rcases SingleInstruction.ofString_eq_ok_iff.1 h with ⟨d, hd, -⟩ | ⟨hnone, r, hr, rfl⟩
    · simp [MachineType.isMovement, hd] at hs
    · cases r with
      | some j => exact .inl hr
      | none => exact .inr ⟨hr, SingleInstruction.ofString_eq_ok_iff.2 (.inr ⟨hnone, none, rfl, rfl⟩)⟩

theorem movesFirst_multi (wildcard : Option Symbol) :
    (multi 3 wildcard).MovesFirst MachineType.threeTape.isMovement where
  movement {syn s i} hs h := by
    simp only [MachineType.isMovement, Bool.and_eq_true, beq_iff_eq, Option.isSome_iff_exists] at hs
    obtain ⟨hlength, ds, hds⟩ := hs
    rcases MultiInstruction.ofString_eq_ok_iff.1 h with hmoves | ⟨hnone, -⟩
    · exact MultiInstruction.ofString_eq_ok_iff.2 (.inl hmoves)
    · cases hds.symm.trans (hnone hlength)
  other {syn s i} hs h := by
    rcases MultiInstruction.ofString_eq_ok_iff.1 h with ⟨hlength, ds, hds, -⟩ | ⟨-, hbody⟩
    · simp [MachineType.isMovement, hlength, hds] at hs
    · exact .inl hbody

/-- What can be read where the synonyms must not be used is read in the same way where there are none. -/
theorem instruction_of_unavailable (hg : g.MovesFirst isMovement) {names : List String} {v : Value} {i : ι}
    (h : g.instruction states (.unavailable names) v = .ok i) :
    g.instruction states (.resolved .empty) v = .ok i := by
  obtain ⟨hform, hnext⟩ := instruction_eq_ok_iff.1 h
  refine instruction_eq_ok_iff.2 ⟨form_eq_ok_iff.2 ?_, hnext⟩
  rcases form_eq_ok_iff.1 hform with ⟨s, hs, hi⟩ | hm
  · refine .inl ⟨s, hs, ?_⟩
    cases hmove : isMovement s with
    | true => exact hg.movement hmove hi
    | false =>
      rcases hg.other hmove hi with hbody | ⟨-, hplain⟩
      · cases (Synonyms.body?_unavailable_eq_ok_iff.1 hbody).2
      · exact hplain
  · exact .inr hm

theorem instruction_inlinedInstruction (hg : g.MovesFirst isMovement) {names : List String}
    {synonyms : Mapping} {d : Dict String ι}
    (hd : (Synonyms.resolved d).Means synonyms fun v i => g.instruction states (.unavailable names) v = .ok i)
    {v : Value} {i : ι} (h : g.instruction states (.resolved d) v = .ok i) :
    g.instruction states (.resolved .empty) (inlinedInstruction isMovement synonyms v) = .ok i := by
  obtain ⟨hform, hnext⟩ := instruction_eq_ok_iff.1 h
  rcases form_eq_ok_iff.1 hform with ⟨s, hs, hi⟩ | ⟨m, hm, hi⟩
  · have hstring : inlinedInstruction isMovement synonyms v =
        if isMovement s then v else (lastBody? synonyms s).getD v := by
      rw [inlinedInstruction, hs]
    rw [hstring]
    cases hmove : isMovement s with
    | true => exact instruction_eq_ok_iff.2 ⟨form_eq_ok_iff.2 (.inl ⟨s, hs, hg.movement hmove hi⟩), hnext⟩
    | false =>
      rw [if_neg Bool.false_ne_true]
      rcases hg.other hmove hi with hbody | ⟨hfresh, hplain⟩
      · obtain ⟨body, hlast, hdefined⟩ := hd.body s i hbody
        rw [lastBody?_eq_some_of_last hlast]
        exact instruction_of_unavailable hg hdefined
      · rw [lastBody?_eq_none (hd.fresh s hfresh)]
        exact instruction_eq_ok_iff.2 ⟨form_eq_ok_iff.2 (.inl ⟨s, hs, hplain⟩), hnext⟩
  · have hmapping : inlinedInstruction isMovement synonyms v = v := by
      rw [inlinedInstruction, hm]
    rw [hmapping]
    exact instruction_eq_ok_iff.2 ⟨form_eq_ok_iff.2 (.inr ⟨m, hm, hi⟩), hnext⟩

end Grammar

/-! ## Tables -/

section Tables
variable {isMovement : String → Bool} {synonyms : Mapping} {names : List String}

theorem stateEntries_inlinedTable {v? : Option Value} {d : Dict State Value} (h : stateEntries v? = .ok d) :
    stateEntries (v?.map (inlinedTable isMovement synonyms)) =
      .ok (d.map fun _ => inlinedRow isMovement synonyms) :=
  stateEntries_withRows h

namespace SingleTable

variable {states : List State} {syn : Dict String SingleInstruction} {entries : Dict State Value}
  {t : SingleTable}

theorem row_inlinedRow (hg : Grammar.single.MovesFirst isMovement)
    (hsyn : (Synonyms.resolved syn).Means synonyms
      fun v i => Grammar.single.instruction states (.unavailable names) v = .ok i)
    {state : State} {v : Value} {r : Option (Dict Symbol SingleInstruction)}
    (h : row states syn state v = .ok r) :
    row states .empty state (inlinedRow isMovement synonyms v) = .ok r := by
  rcases row_eq_ok_iff.1 h with ⟨rfl | rfl, rfl⟩ | ⟨m, xs, d, hm, rfl, hxs, hd, rfl⟩
  · rfl
  · rfl
  · refine row_eq_ok_iff.2 (.inr ⟨_, xs, d, ?_, rfl, ?_, hd, rfl⟩)
    · exact List.map_eq_nil_iff.not.2 hm
    · rw [List.forall₂_map_left_iff]
      exact hxs.imp fun e x hx => ⟨hx.1, Grammar.instruction_inlinedInstruction hg hsyn hx.2⟩

theorem ofEntries_inlinedRow (hg : Grammar.single.MovesFirst isMovement)
    (hsyn : (Synonyms.resolved syn).Means synonyms
      fun v i => Grammar.single.instruction entries.keys (.unavailable names) v = .ok i)
    (h : ofEntries syn entries = .ok t) :
    ofEntries .empty (entries.map fun _ => inlinedRow isMovement synonyms) = .ok t := by
  rw [ofEntries_eq_ok_iff, Dict.keys_map]
  exact Dict.traverse_map (ofEntries_eq_ok_iff.1 h) fun _ _ _ _ hrow => row_inlinedRow hg hsyn hrow

end SingleTable

namespace MultiTable

variable {tapes : Nat} {wildcard : Option Symbol} {states : List State}
  {syn : Dict String MultiInstruction} {entries : Dict State Value} {t : MultiTable}

theorem row_inlinedRow (hg : (Grammar.multi tapes wildcard).MovesFirst isMovement)
    (hsyn : (Synonyms.resolved syn).Means synonyms
      fun v i => (Grammar.multi tapes wildcard).instruction states (.unavailable names) v = .ok i)
    {state : State} {v : Value} {r : Option (List Rule)}
    (h : row tapes wildcard states syn state v = .ok r) :
    row tapes wildcard states .empty state (inlinedRow isMovement synonyms v) = .ok r := by
  rcases row_eq_ok_iff.1 h with ⟨rfl | rfl, rfl⟩ | ⟨m, rules, hm, rfl, hrules, hnodup, rfl⟩
  · rfl
  · rfl
  · refine row_eq_ok_iff.2 (.inr ⟨_, rules, ?_, rfl, ?_, hnodup, rfl⟩)
    · exact List.map_eq_nil_iff.not.2 hm
    · rw [List.forall₂_map_left_iff]
      exact hrules.imp fun e x hx => ⟨hx.1, Grammar.instruction_inlinedInstruction hg hsyn hx.2⟩

theorem ofEntries_inlinedRow (hg : (Grammar.multi tapes wildcard).MovesFirst isMovement)
    (hsyn : (Synonyms.resolved syn).Means synonyms
      fun v i => (Grammar.multi tapes wildcard).instruction entries.keys (.unavailable names) v = .ok i)
    (h : ofEntries tapes wildcard syn entries = .ok t) :
    ofEntries tapes wildcard .empty (entries.map fun _ => inlinedRow isMovement synonyms) = .ok t := by
  obtain ⟨htapes, hwild, hstates⟩ := ofEntries_eq_ok_iff.1 h
  rw [ofEntries_eq_ok_iff, Dict.keys_map]
  exact ⟨htapes, hwild, Dict.traverse_map hstates fun _ _ _ _ hrow => row_inlinedRow hg hsyn hrow⟩

end MultiTable

end Tables

/-! ## Documents -/

namespace Spec

variable {m : Mapping}

theorem typeIn_of_machineTypeOf {type : MachineType} (h : machineTypeOf (field? m "type") = .ok type) :
    typeIn m = type := by
  rw [typeIn, h]

theorem field?_inlinedFields_synonyms : field? (inlinedFields m) "synonyms" = none := by
  have hnil : (inlinedFields m).filter (·.1.text? == some "synonyms") = [] := by
    rw [inlinedFields, List.filter_map, List.map_eq_nil_iff, List.filter_filter, List.filter_eq_nil_iff]
    simp
  rw [field?, hnil]
  rfl

theorem field?_inlinedFields {name : String} (h : name ≠ "synonyms") :
    field? (inlinedFields m) name =
      if name = "table" then (field? m name).map (inlinedTable (typeIn m).isMovement (synonymsIn m))
      else field? m name := by
  have hkept : field? (m.filter (·.1.text? != some "synonyms")) name = field? m name := by
    rw [field?, field?, List.filter_filter]
    congr 3
    funext e
    by_cases he : e.1.text? = some name <;> simp [he, h]
  rw [← hkept]
  exact field?_withTable _ _ name

theorem tableOf_inlined {type : MachineType} {wild : Option Symbol} {entries : Dict State Value} {t : Table}
    (h : tableOf type wild (field? m "synonyms") entries = .ok t) :
    tableOf type wild none (entries.map fun _ => inlinedRow type.isMovement (synonymsIn m)) = .ok t := by
  have hsynonyms : ∀ synonyms : Mapping, (Field m "synonyms" none ∧ synonyms = [] ∨
      Field m "synonyms" (some (.mapping synonyms))) → synonymsIn m = synonyms := by
    rintro synonyms (⟨hnone, rfl⟩ | hsome)
    · rw [synonymsIn, field?_eq_none_iff.2 hnone]
    · rw [synonymsIn, field?_eq_some_iff.2 hsome]
  have ht := tableOf_eq_ok_iff.1 h
  rw [tableOf_eq_ok_iff]
  cases type with
  | oneTape =>
    obtain ⟨syn, t, hsyn, ht, rfl⟩ := ht
    obtain ⟨synonyms, names, hfield, hmeans⟩ := Grammar.exists_means hsyn
    rw [hsynonyms synonyms hfield]
    exact ⟨.empty, t, rfl, SingleTable.ofEntries_inlinedRow Grammar.movesFirst_single hmeans ht, rfl⟩
  | threeTape =>
    obtain ⟨syn, t, hsyn, ht, rfl⟩ := ht
    obtain ⟨synonyms, names, hfield, hmeans⟩ := Grammar.exists_means hsyn
    rw [hsynonyms synonyms hfield]
    exact ⟨.empty, t, rfl, MultiTable.ofEntries_inlinedRow (Grammar.movesFirst_multi wild) hmeans ht, rfl⟩

theorem ofMapping_inlinedFields {s : Spec} (h : ofMapping m = .ok s) : ofMapping (inlinedFields m) = .ok s := by
  obtain ⟨hblank, hwild, hstart, htype, ⟨entries, hentries, htable, hdeclared⟩, hinput, hname⟩ :=
    ofMapping_eq_ok_iff.1 h
  have hfield : ∀ name, name ≠ "synonyms" → name ≠ "table" →
      field? (inlinedFields m) name = field? m name := fun name hsyn htable => by
    rw [field?_inlinedFields hsyn, if_neg htable]
  rw [ofMapping_eq_ok_iff, hfield "blank" (by decide) (by decide), hfield "wild" (by decide) (by decide),
    hfield "start state" (by decide) (by decide), hfield "type" (by decide) (by decide),
    hfield "input" (by decide) (by decide), hfield "name" (by decide) (by decide),
    field?_inlinedFields (by decide : "table" ≠ "synonyms"), if_pos rfl, field?_inlinedFields_synonyms,
    typeIn_of_machineTypeOf htype]
  refine ⟨hblank, hwild, hstart, htype, ⟨_, stateEntries_inlinedTable hentries, tableOf_inlined htable, ?_⟩,
    hinput, hname⟩
  rwa [Dict.keys_map]

/-- A document and the one with its synonyms written out have the same specification. -/
theorem ofValue_inlined {v : Value} {s : Spec} (h : ofValue v = .ok s) : ofValue (inlined v) = .ok s := by
  obtain ⟨m, hm, hs⟩ := ofValue_eq_ok_iff.1 h
  refine ofValue_eq_ok_iff.2 ⟨inlinedFields m, ?_, ofMapping_inlinedFields hs⟩
  rw [inlined, Value.untagged_withEntries, hm]
  rfl

/-- A document in which one synonym is defined twice, the second time under a tag, and in which a state and a
direction have names that are also those of synonyms. -/
def shadowedDocument : Value := .mapping [
  (.string "blank", .string "_"),
  (.string "start state", .string "a"),
  (.string "synonyms", .mapping [
    (.string "go", .string "R"),
    (.tagged "!again" (.string "go"), .mapping [(.string "write", .string "1"), (.string "L", .string "b")]),
    (.string "L", .string "b"),
    (.string "a", .string "b")]),
  (.string "table", .tagged "!rows" (.mapping [
    (.string "a", .mapping [
      (.string "0", .string "go"), (.string "1", .string "L"), (.string "2", .string "a"),
      (.string "3", .string "b")]),
    (.string "b", .null)]))]

/-- The same document with the instructions in the places of the names, `1: L` being a move. -/
def writtenDocument : Value := .mapping [
  (.string "blank", .string "_"),
  (.string "start state", .string "a"),
  (.string "table", .tagged "!rows" (.mapping [
    (.string "a", .mapping [
      (.string "0", .mapping [(.string "write", .string "1"), (.string "L", .string "b")]),
      (.string "1", .string "L"), (.string "2", .string "b"), (.string "3", .string "b")]),
    (.string "b", .null)]))]

theorem ofValue_inlined_shadowedDocument :
    inlined shadowedDocument = writtenDocument ∧
    (∃ s, ofValue shadowedDocument = .ok s ∧ ofValue (inlined shadowedDocument) = .ok s ∧
      ['0', '1', '2', '3'].map (fun c => s.table.lookup "a" [c]) =
        [some (.single ⟨some '1', .left, some "b"⟩), some (.single ⟨none, .left, none⟩),
          some (.single ⟨none, .stay, some "b"⟩), some (.single ⟨none, .stay, some "b"⟩)]) ∧
    inlined wildDocument = .mapping [
      (.string "blank", .string "_"),
      (.string "wild", .string "*"),
      (.string "type", .string "3tape"),
      (.string "start state", .string "a"),
      (.string "table", .mapping [
        (.string "a", .mapping [
          (.string "0**", .mapping [(.string "write", .string "1**"), (.string "next", .string "b")]),
          (.string "***", .string "RRS")]),
        (.string "b", .null)])] ∧
    ∃ s, ofValue wildDocument = .ok s ∧ ofValue (inlined wildDocument) = .ok s ∧ s.tapes = 3 := by
  have hshadowed : ((ofValue shadowedDocument).toOption.map fun s =>
      ['0', '1', '2', '3'].map fun c => s.table.lookup "a" [c]) =
      some [some (.single ⟨some '1', .left, some "b"⟩), some (.single ⟨none, .left, none⟩),
        some (.single ⟨none, .stay, some "b"⟩), some (.single ⟨none, .stay, some "b"⟩)] := by
    decide +kernel
  have hwild : (ofValue wildDocument).toOption.map Spec.tapes = some 3 := by
    decide +kernel
  obtain ⟨s, hs, hlookup⟩ := exists_of_toOption_map hshadowed
  obtain ⟨s', hs', htapes⟩ := exists_of_toOption_map hwild
  exact ⟨rfl, ⟨s, hs, ofValue_inlined hs, hlookup⟩, rfl, s', hs', ofValue_inlined hs', htapes⟩

end Spec

end TapeMachine
