import TapeMachine.Proofs.Document.Rows
import TapeMachine.Proofs.Failure

/-!
# Tags of values

What a document says does not depend on the tags of its values: a document and the same one without any tags have the
same specification or the same error.  The reader takes the tags off wherever it looks at a value, so there is one lemma
for each place, and a message shows a value without its tags at any depth.  The keys of mappings keep their tags, since
these decide whether two keys are the same.
-/

namespace TapeMachine

open Yaml (Value)

/-! ## Values without tags -/

namespace Yaml.Value

mutual

/-- The value without tags, at any depth but for the keys of mappings. -/
def bare : Value → Value
  | .sequence items => .sequence (bareItems items)
  | .mapping m => .mapping (bareEntries m)
  | .tagged _ v => v.bare
  | v => v

def bareItems : List Value → List Value
  | [] => []
  | v :: items => v.bare :: bareItems items

def bareEntries : List (Value × Value) → List (Value × Value)
  | [] => []
  | (key, v) :: m => (key, v.bare) :: bareEntries m

end

/-- There is no tag on the value itself. -/
def NoTag (v : Value) : Prop := ∀ tag u, v ≠ .tagged tag u

theorem noTag_untagged (v : Value) : v.untagged.NoTag := by
  fun_induction untagged v with
  | case1 _ v ih => exact ih
  | case2 v h => exact fun tag u hv => h tag u hv

theorem NoTag.untagged {v : Value} (h : v.NoTag) : v.untagged = v := by
  cases v with
  | tagged tag u => exact absurd rfl (h tag u)
  | _ => rfl

theorem noTag_of_present? {v u : Value} (h : v.present? = some u) : u.NoTag := by
  unfold present? at h
  split at h
  · cases h
  · rw [← Option.some.inj h]
    exact noTag_untagged v

theorem bareItems_eq_map (items : List Value) : bareItems items = items.map bare := by
  induction items with
  | nil => rfl
  | cons v items ih => rw [bareItems, ih, List.map_cons]

theorem bareEntries_eq_map (m : Mapping) : bareEntries m = m.map fun e => (e.1, e.2.bare) := by
  induction m with
  | nil => rfl
  | cons e m ih => rw [bareEntries, ih, List.map_cons]

@[simp] theorem bare_untagged (v : Value) : v.untagged.bare = v.bare := by
  fun_induction untagged v with
  | case1 _ v ih => rw [ih, bare]
  | case2 => rfl

theorem noTag_bare (v : Value) : v.bare.NoTag := by
  rw [← bare_untagged]
  cases hv : v.untagged with
  | tagged tag u => exact absurd hv (noTag_untagged v tag u)
  | _ => exact nofun

@[simp] theorem untagged_bare (v : Value) : v.bare.untagged = v.bare := (noTag_bare v).untagged

@[simp] theorem text?_bare (v : Value) : v.bare.text? = v.text? := by
  rw [← bare_untagged, ← text?_untagged v]
  cases hv : v.untagged with
  | tagged tag u => exact absurd hv (noTag_untagged v tag u)
  | _ => rfl

@[simp] theorem symbol?_bare (v : Value) : v.bare.symbol? = v.symbol? := by
  rw [symbol?, text?_bare, symbol?]

@[simp] theorem present?_bare (v : Value) : v.bare.present? = v.present?.map bare := by
  rw [present?, untagged_bare, ← bare_untagged, present?]
  cases hv : v.untagged with
  | tagged tag u => exact absurd hv (noTag_untagged v tag u)
  | _ => rfl

mutual

theorem describe_bare : ∀ v : Value, v.bare.describe = v.describe
  | .null => rfl
  | .bool _ => rfl
  | .number _ => rfl
  | .string _ => rfl
  | .sequence items => by rw [bare, describe, describe, describeItems_bare items]
  | .mapping _ => rfl
  | .tagged _ v => by rw [bare, describe, describe_bare v]

theorem describeItems_bare : ∀ items : List Value, describeItems (bareItems items) = describeItems items
  | [] => rfl
  | v :: items => by rw [bareItems, describeItems, describeItems, describe_bare v, describeItems_bare items]

end

attribute [simp] describe_bare

end Yaml.Value

/-! ## Computations on related data -/

section Computations
variable {ε α α' β β' κ : Type}

theorem foldlM_map_of_step {f : β → α → Except ε β} {f' : β' → α' → Except ε β'} {g : α → α'} {h : β → β'}
    (hstep : ∀ b a, f' (h b) (g a) = (f b a).map h) (as : List α) (b : β) :
    (as.map g).foldlM f' (h b) = (as.foldlM f b).map h := by
  induction as generalizing b with
  | nil => rfl
  | cons a as ih =>
    rw [List.map_cons, List.foldlM_cons, List.foldlM_cons, hstep]
    cases f b a with
    | error e => rfl
    | ok b' => exact ih b'

theorem mapM_map_of_step {f : α → Except ε β} {f' : α' → Except ε β'} {g : α → α'} {h : β → β'}
    (hstep : ∀ a, f' (g a) = (f a).map h) (as : List α) :
    (as.map g).mapM f' = (as.mapM f).map (List.map h) := by
  induction as with
  | nil => rfl
  | cons a as ih =>
    rw [List.map_cons, List.mapM_cons, List.mapM_cons, hstep, ih]
    cases f a with
    | error e => rfl
    | ok b =>
      cases as.mapM f with
      | error e => rfl
      | ok bs => rfl

namespace Dict

theorem add?_map [DecidableEq κ] (f : κ → α → β) (d : Dict κ α) (k : κ) (v : α) :
    (d.map f).add? k (f k v) = (d.add? k v).map (Dict.map f) := by
  cases hv : d.add? k v with
  | none =>
    rw [add?_eq_none_iff] at hv
    rw [Option.map_none, add?_eq_none_iff, keys_map]
    exact hv
  | some e =>
    obtain ⟨hk, he⟩ := add?_eq_some_iff.1 hv
    rw [Option.map_some, add?_eq_some_iff, keys_map]
    refine ⟨hk, ?_⟩
    show e.entries.map _ = d.entries.map _ ++ _
    rw [he, List.map_append, List.map_singleton]

theorem traverse_map_of_eq {f : κ → α → Except ε β} {f' : κ → α' → Except ε β} {g : κ → α → α'} {d : Dict κ α}
    (h : ∀ k v, (k, v) ∈ d.entries → f' k (g k v) = f k v) : (d.map g).traverse f' = d.traverse f := by
  cases hd : d.traverse f with
  | ok e => exact traverse_map hd fun k v w hmem hw => (h k v hmem).trans hw
  | error e =>
    obtain ⟨before, x, after, hentries, hbefore, hx⟩ := traverse_eq_error_iff.1 hd
    have hmem : ∀ y, y ∈ before ∨ y = x → y ∈ d.entries := by
      rintro y (hy | rfl)
      · exact hentries ▸ List.mem_append_left _ hy
      · exact hentries ▸ List.mem_append_right _ List.mem_cons_self
    refine traverse_eq_error_iff.2 ⟨before.map fun y => (y.1, g y.1 y.2), (x.1, g x.1 x.2),
      after.map fun y => (y.1, g y.1 y.2), ?_, ?_, ?_⟩
    · show d.entries.map _ = _
      rw [hentries, List.map_append, List.map_cons]
    · rw [List.forall_mem_map]
      intro y hy
      obtain ⟨w, hw⟩ := hbefore y hy
      exact ⟨w, (h y.1 y.2 (hmem y (.inl hy))).trans hw⟩
    · exact (h x.1 x.2 (hmem x (.inr rfl))).trans hx

end Dict

end Computations

/-! ## Instructions -/

open Yaml.Value (bareEntries bareEntries_eq_map NoTag)

@[simp] theorem nextState_bare (v : Value) : nextState v.bare = nextState v := by
  rw [nextState, nextState, Value.present?_bare]
  cases v.present? with
  | none => rfl
  | some u => simp

namespace SingleInstruction

def Part.bare : Part → Part
  | .write v => .write v.bare
  | .move d next => .move d next.bare

theorem ofEntry_bare (entry : Value × Value) :
    Part.ofEntry (entry.1, entry.2.bare) = (Part.ofEntry entry).map Part.bare := by
  rw [Part.ofEntry, Part.ofEntry]
  cases instructionKey entry.1 with
  | error e => rfl
  | ok key =>
    show (if key = "write" then _ else _) = Except.map _ (if key = "write" then _ else _)
    by_cases hkey : key = "write"
    · rw [if_pos hkey, if_pos hkey]
      rfl
    · rw [if_neg hkey, if_neg hkey]
      cases direction? key with
      | none => rfl
      | some d => rfl

@[simp] theorem writeOf_bare (v : Value) : writeOf v.bare = writeOf v := by
  rw [writeOf, writeOf, Value.present?_bare]
  cases v.present? with
  | none => rfl
  | some u => simp

theorem ofMapping_bare (m : Mapping) : ofMapping (bareEntries m) = ofMapping m := by
  rw [ofMapping, ofMapping, bareEntries_eq_map, mapM_map_of_step ofEntry_bare]
  cases m.mapM Part.ofEntry with
  | error e => rfl
  | ok parts =>
    have hmove : (parts.map Part.bare).filterMap Part.move? =
        (parts.filterMap Part.move?).map fun x => (x.1, x.2.bare) := by
      rw [List.filterMap_map, List.map_filterMap]
      refine List.filterMap_congr fun part _ => ?_
      cases part with
      | write v => rfl
      | move d next => rfl
    have hwrite : (parts.map Part.bare).filterMap Part.write? = (parts.filterMap Part.write?).map Value.bare := by
      rw [List.filterMap_map, List.map_filterMap]
      refine List.filterMap_congr fun part _ => ?_
      cases part with
      | write v => rfl
      | move d next => rfl
    have hlast : ((parts.filterMap Part.write?).map Value.bare).getLast?.getD .null =
        ((parts.filterMap Part.write?).getLast?.getD .null).bare := by
      rw [List.getLast?_map]
      cases (parts.filterMap Part.write?).getLast? with
      | none => rfl
      | some v => rfl
    simp only [Except.map, bind, Except.bind, hmove, hwrite, hlast]
    rcases parts.filterMap Part.move? with _ | ⟨⟨d, next⟩, _ | ⟨other, moves⟩⟩
    · rfl
    · simp
    · rfl

end SingleInstruction

namespace MultiInstruction

variable (tapes : Nat) (wildcard : Option Symbol)

@[simp] theorem charsOf_bare (v : Value) : charsOf v.bare = charsOf v := by
  rw [charsOf, Value.text?_bare, charsOf]

@[simp] theorem writeOf_bare (v : Value) : writeOf tapes wildcard v.bare = writeOf tapes wildcard v := by
  simp only [writeOf, charsOf_bare, Value.describe_bare]

@[simp] theorem movesOf_bare (v : Value) : movesOf tapes v.bare = movesOf tapes v := by
  simp only [movesOf, charsOf_bare, Value.describe_bare]

theorem addEntry_bare (i : MultiInstruction) (entry : Value × Value) :
    addEntry tapes wildcard i (entry.1, entry.2.bare) = addEntry tapes wildcard i entry := by
  simp only [addEntry, Value.present?_bare]
  cases entry.2.present? with
  | none => rfl
  | some u => simp

theorem ofMapping_bare (m : Mapping) : ofMapping tapes wildcard (bareEntries m) = ofMapping tapes wildcard m := by
  rw [ofMapping, ofMapping, bareEntries_eq_map, List.foldlM_map]
  simp only [addEntry_bare]

end MultiInstruction

namespace Grammar

variable {ι : Type}

/-- The grammar does not look at the tags of the values of a mapping. -/
def Tagless (g : Grammar ι) : Prop := ∀ m, g.ofMapping (bareEntries m) = g.ofMapping m

theorem tagless_single : single.Tagless := SingleInstruction.ofMapping_bare

theorem tagless_multi (tapes : Nat) (wildcard : Option Symbol) : (multi tapes wildcard).Tagless :=
  MultiInstruction.ofMapping_bare tapes wildcard

variable {g : Grammar ι}

theorem instruction_bare (hg : g.Tagless) (states : List State) (syn : Synonyms ι) (v : Value) :
    g.instruction states syn v.bare = g.instruction states syn v := by
  have hform : g.form syn v.bare = g.form syn v := by
    rw [form, Value.untagged_bare, ← Value.bare_untagged, form]
    cases hv : v.untagged with
    | tagged tag u => exact absurd hv (Value.noTag_untagged v tag u)
    | mapping m => exact hg m
    | _ => rfl
  rw [instruction, hform, instruction]

theorem addSynonym_bare (hg : g.Tagless) (states : List State) (names : List String) (d : Dict String ι)
    (entry : Value × Value) :
    g.addSynonym states names d (entry.1, entry.2.bare) = g.addSynonym states names d entry := by
  rw [addSynonym, addSynonym, instruction_bare hg]

theorem synonyms_bare (hg : g.Tagless) (states : List State) {v? : Option Value} (hv : ∀ v, v? = some v → v.NoTag) :
    g.synonyms states (v?.map Value.bare) = g.synonyms states v? := by
  cases v? with
  | none => rfl
  | some v =>
    cases v with
    | tagged tag u => exact absurd rfl (hv _ rfl tag u)
    | mapping m =>
      have hnames : (bareEntries m).filterMap (·.1.text?) = m.filterMap (·.1.text?) := by
        rw [bareEntries_eq_map, List.filterMap_map]
        rfl
      show (bareEntries m).foldlM (g.addSynonym states _) .empty = m.foldlM (g.addSynonym states _) .empty
      rw [hnames, bareEntries_eq_map, List.foldlM_map]
      simp only [addSynonym_bare hg]
    | _ => rfl

end Grammar

/-! ## Tables -/

theorem addState_bare (d : Dict State Value) (entry : Value × Value) :
    addState (d.map fun _ => Value.bare) (entry.1, entry.2.bare) =
      (addState d entry).map (Dict.map fun _ => Value.bare) := by
  rw [addState, addState]
  cases entry.1.text? with
  | none => rfl
  | some state =>
    have hadd := Dict.add?_map (fun _ => Value.bare) d state entry.2.untagged
    simp only [Value.untagged_bare, Value.bare_untagged] at hadd ⊢
    rw [hadd]
    cases d.add? state entry.2.untagged with
    | none => rfl
    | some d' => rfl

theorem stateEntries_bare {v? : Option Value} (hv : ∀ v, v? = some v → v.NoTag) :
    stateEntries (v?.map Value.bare) = (stateEntries v?).map (Dict.map fun _ => Value.bare) := by
  cases v? with
  | none => rfl
  | some v =>
    cases v with
    | tagged tag u => exact absurd rfl (hv _ rfl tag u)
    | mapping m =>
      show (bareEntries m).foldlM addState .empty = (m.foldlM addState .empty).map _
      rw [bareEntries_eq_map]
      exact foldlM_map_of_step addState_bare m .empty
    | _ => rfl

theorem noTag_of_stateEntries {v? : Option Value} {entries : Dict State Value} (h : stateEntries v? = .ok entries)
    {state : State} {v : Value} (hmem : (state, v) ∈ entries.entries) : v.NoTag := by
  obtain ⟨m, -, hentries⟩ := stateEntries_eq_ok_iff.1 h
  obtain ⟨e, -, -, rfl⟩ := exists_of_mem_right hentries hmem
  exact Value.noTag_untagged e.2

theorem row?_bare (state : State) {v : Value} (hv : v.NoTag) :
    row? state v.bare = (row? state v).map (Option.map bareEntries) := by
  cases v with
  | tagged tag u => exact absurd rfl (hv tag u)
  | mapping m =>
    cases m with
    | nil => rfl
    | cons e m => rfl
  | _ => rfl

theorem SingleTable.addEntry_bare (states : List State) (syn : Dict String SingleInstruction) (state : State)
    (row : Dict Symbol SingleInstruction) (entry : Value × Value) :
    addEntry states syn state row (entry.1, entry.2.bare) = addEntry states syn state row entry := by
  rw [addEntry, addEntry, Grammar.instruction_bare Grammar.tagless_single]

theorem SingleTable.row_bare (states : List State) (syn : Dict String SingleInstruction) (state : State) {v : Value}
    (hv : v.NoTag) : row states syn state v.bare = row states syn state v := by
  rw [row, row, row?_bare state hv]
  cases row? state v with
  | error e => rfl
  | ok m? =>
    cases m? with
    | none => rfl
    | some m =>
      show ((bareEntries m).foldlM (addEntry states syn state) .empty >>= fun d => pure (some d)) = _
      rw [bareEntries_eq_map, List.foldlM_map]
      simp only [addEntry_bare]
      rfl

theorem MultiTable.addEntry_bare (tapes : Nat) (wildcard : Option Symbol) (states : List State)
    (syn : Dict String MultiInstruction) (state : State) (rules : List Rule) (entry : Value × Value) :
    addEntry tapes wildcard states syn state rules (entry.1, entry.2.bare) =
      addEntry tapes wildcard states syn state rules entry := by
  simp only [addEntry, Grammar.instruction_bare (Grammar.tagless_multi tapes wildcard)]

theorem MultiTable.row_bare (tapes : Nat) (wildcard : Option Symbol) (states : List State)
    (syn : Dict String MultiInstruction) (state : State) {v : Value} (hv : v.NoTag) :
    row tapes wildcard states syn state v.bare = row tapes wildcard states syn state v := by
  rw [row, row, row?_bare state hv]
  cases row? state v with
  | error e => rfl
  | ok m? =>
    cases m? with
    | none => rfl
    | some m =>
      show ((bareEntries m).foldlM (addEntry tapes wildcard states syn state) [] >>= fun rules => pure (some rules)) = _
      rw [bareEntries_eq_map, List.foldlM_map]
      simp only [addEntry_bare]
      rfl

/-! ## Documents -/

namespace Spec

variable {v? : Option Value}

theorem field?_bareEntries (m : Mapping) (name : String) :
    field? (bareEntries m) name = (field? m name).map Value.bare := by
  have hfilter : (bareEntries m).filter (·.1.text? == some name) =
      (m.filter (·.1.text? == some name)).map fun e => (e.1, e.2.bare) := by
    rw [bareEntries_eq_map, List.filter_map]
    rfl
  rw [field?, field?, hfilter, List.getLast?_map]
  cases (m.filter (·.1.text? == some name)).getLast? with
  | none => rfl
  | some e => exact Value.present?_bare e.2

theorem noTag_of_field? {m : Mapping} {name : String} {v : Value} (h : field? m name = some v) : v.NoTag := by
  obtain ⟨e, -, he⟩ := Option.bind_eq_some_iff.1 h
  exact Value.noTag_of_present? he

theorem blankOf_bare : blankOf (v?.map Value.bare) = blankOf v? := by
  cases v? with
  | none => rfl
  | some v => simp [blankOf]

theorem wildOf_bare : wildOf (v?.map Value.bare) = wildOf v? := by
  cases v? with
  | none => rfl
  | some v => simp [wildOf]

theorem startOf_bare : startOf (v?.map Value.bare) = startOf v? := by
  cases v? with
  | none => rfl
  | some v => simp [startOf]

theorem machineTypeOf_bare : machineTypeOf (v?.map Value.bare) = machineTypeOf v? := by
  cases v? with
  | none => rfl
  | some v => simp [machineTypeOf]

theorem inputOf_bare : inputOf (v?.map Value.bare) = inputOf v? := by
  cases v? with
  | none => rfl
  | some v => simp [inputOf]

theorem tableOf_bare (type : MachineType) (wild : Option Symbol) (hv : ∀ v, v? = some v → v.NoTag)
    {entries : Dict State Value} (hentries : ∀ state v, (state, v) ∈ entries.entries → v.NoTag) :
    tableOf type wild (v?.map Value.bare) (entries.map fun _ => Value.bare) = tableOf type wild v? entries := by
  cases type with
  | oneTape =>
    simp only [tableOf, SingleTable.ofEntries, Dict.keys_map, Grammar.synonyms_bare Grammar.tagless_single _ hv]
    refine bind_congr fun syn => ?_
    rw [Dict.traverse_map_of_eq fun state v hmem => SingleTable.row_bare _ _ state (hentries state v hmem)]
  | threeTape =>
    simp only [tableOf, MultiTable.ofEntries, Dict.keys_map,
      Grammar.synonyms_bare (Grammar.tagless_multi _ wild) _ hv]
    refine bind_congr fun syn => ?_
    rw [Dict.traverse_map_of_eq fun state v hmem => MultiTable.row_bare _ _ _ _ state (hentries state v hmem)]

theorem ofMapping_bareEntries (m : Mapping) : ofMapping (bareEntries m) = ofMapping m := by
  have hname : ((field? m "name").map Value.bare).bind Value.text? = (field? m "name").bind Value.text? := by
    cases field? m "name" with
    | none => rfl
    | some v => exact Value.text?_bare v
  simp only [ofMapping, field?_bareEntries, blankOf_bare, wildOf_bare, startOf_bare, machineTypeOf_bare, inputOf_bare,
    hname, stateEntries_bare fun v hv => noTag_of_field? hv]
  refine bind_congr fun blank => bind_congr fun wild => bind_congr fun start => bind_congr fun type => ?_
  cases hentries : stateEntries (field? m "table") with
  | error e => rfl
  | ok entries =>
    have hsynonyms : ∀ v, field? m "synonyms" = some v → v.NoTag := fun v hv => noTag_of_field? hv
    have htable := tableOf_bare type wild hsynonyms fun _ _ hmem => noTag_of_stateEntries hentries hmem
    simp only [Except.map, bind, Except.bind, htable, declaredStart, Dict.keys_map]

/-- A value and the one without tags have the same specification or the same error. -/
theorem ofValue_bare (v : Value) : ofValue v.bare = ofValue v := by
  rw [ofValue, Value.untagged_bare, ← Value.bare_untagged, ofValue]
  cases hv : v.untagged with
  | tagged tag u => exact absurd hv (Value.noTag_untagged v tag u)
  | mapping m => exact ofMapping_bareEntries m
  | _ => rfl

end Spec

end TapeMachine
