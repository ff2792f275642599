import TapeMachine.Proofs.Document.Fields
import TapeMachine.Proofs.Document.Names
import TapeMachine.Proofs.Failure
import TapeMachine.Proofs.Yaml.Place

/-!
# Scalars at a place of a document

What is said of a document when one of its scalars is replaced by another one: only the field changes that
the scalar belongs to, and a scalar that is no symbol is refused as a key of a row whatever else the document
has.
-/

namespace TapeMachine

open Yaml (Value)

/-! ## Fields -/

section Fields
variable {before after : Mapping} {key v : Value} {name : String}

theorem Once.field?_eq (h : Once (before ++ (key, v) :: after) name) (hkey : key.HasText name) :
    Spec.field? (before ++ (key, v) :: after) name = v.present? := by
  rw [Value.hasText_iff] at hkey
  have hafter : after.filter (·.1.text? == some name) = [] := by
    refine List.filter_eq_nil_iff.2 fun e he => ?_
    have hne := (List.pairwise_cons.1 (List.pairwise_append.1 h).2.1).1 e he hkey
    simpa using hne
  rw [Spec.field?, List.filter_append, List.filter_cons, if_pos (by simpa using hkey), hafter,
    List.getLast?_append]
  rfl

theorem Once.replace (h : Once (before ++ (key, v) :: after) name) (v' : Value) :
    Once (before ++ (key, v') :: after) name := by
  rw [once_iff_pairwise_keys] at h ⊢
  simpa using h

end Fields

namespace Spec

variable {m m' : Mapping} {s : Spec}

theorem ofMapping_of_input (hs : ofMapping m = .ok s)
    (hsame : ∀ name, name ≠ "input" → field? m' name = field? m name) :
    ofMapping m' = (inputOf (field? m' "input")).map fun i => { s with input := i } := by
  obtain ⟨hblank, hwild, hstart, htype, ⟨entries, hentries, htable, hdeclared⟩, -, hname⟩ :=
    ofMapping_eq_ok_iff.1 hs
  have hok : declaredStart s.start entries = .ok () := if_pos hdeclared
  rw [ofMapping, hsame "blank" (by decide), hblank, hsame "wild" (by decide), hwild,
    hsame "start state" (by decide), hstart, hsame "type" (by decide), htype,
    hsame "table" (by decide), hentries, hsame "synonyms" (by decide), hsame "name" (by decide), ← hname]
  simp only [bind, Except.bind, htable, hok]
  cases inputOf (field? m' "input") with
  | error e => rfl
  | ok i => rfl

/-- With other entries of the table, the error in one of them is the error of the document. -/
theorem ofMapping_of_table (hs : ofMapping m = .ok s)
    (hsame : ∀ name, name ≠ "table" → field? m' name = field? m name) {entries : Dict State Value}
    (hentries : stateEntries (field? m' "table") = .ok entries) {e : SpecError}
    (htable : tableOf s.machineType s.wild (field? m "synonyms") entries = .error e) :
    ofMapping m' = .error e := by
  obtain ⟨hblank, hwild, hstart, htype, -⟩ := ofMapping_eq_ok_iff.1 hs
  rw [ofMapping, hsame "blank" (by decide), hblank, hsame "wild" (by decide), hwild,
    hsame "start state" (by decide), hstart, hsame "type" (by decide), htype, hentries,
    hsame "synonyms" (by decide)]
  simp only [bind, Except.bind, htable]

end Spec

/-! ## Rows -/

theorem exists_stateEntries_replaced {before after : Mapping} {key v : Value} {d : Dict State Value}
    (h : stateEntries (some (.mapping (before ++ (key, v) :: after))) = .ok d) (v' : Value) :
    ∃ xs q ys d', key.text? = some q ∧ d.entries = xs ++ (q, v.untagged) :: ys ∧
      d'.entries = xs ++ (q, v'.untagged) :: ys ∧
      stateEntries (some (.mapping (before ++ (key, v') :: after))) = .ok d' := by
  obtain ⟨m, hm, hentries⟩ := stateEntries_eq_ok_iff.1 h
  cases hm
  obtain ⟨xs, rest, hxs, hrest, hd⟩ := forall₂_append_left_iff.1 hentries
  obtain ⟨⟨q, w⟩, ys, ⟨hq, rfl⟩, hys, rfl⟩ := List.forall₂_cons_left_iff.1 hrest
  have hnodup : ((xs ++ (q, v'.untagged) :: ys).map Prod.fst).Nodup := by
    have hkeys := d.nodup_keys
    rw [hd] at hkeys
    simpa using hkeys
  refine ⟨xs, q, ys, ⟨_, hnodup⟩, hq, hd, rfl, stateEntries_eq_ok_iff.2 ⟨_, rfl, ?_⟩⟩
  exact List.rel_append hxs (.cons ⟨hq, rfl⟩ hys)

namespace SingleTable

variable {states : List State} {syn : Dict String SingleInstruction} {q : State} {before after : Mapping}
  {key u w : Value}

theorem row_mapping {m : Mapping} (h : m ≠ []) :
    row states syn q (.mapping m) = some <$> m.foldlM (addEntry states syn q) .empty := by
  obtain ⟨e, m, rfl⟩ := List.exists_cons_of_ne_nil h
  rw [map_eq_pure_bind]
  rfl

theorem row_of_invalidKey {r : Option (Dict Symbol SingleInstruction)}
    (h : row states syn q (.mapping (before ++ (key, w) :: after)) = .ok r) (hu : keySymbols? u = none) :
    row states syn q (.mapping (before ++ (u, w) :: after)) =
      .error ((invalidSymbol u).inTransition q u.describe) := by
  rw [row_mapping (by simp), map_eq_ok_iff] at h
  obtain ⟨d, hd, -⟩ := h
  rw [List.foldlM_append, bind_eq_ok_iff] at hd
  obtain ⟨d, hbefore, -⟩ := hd
  have hkey : addEntry states syn q d (u, w) = .error ((invalidSymbol u).inTransition q u.describe) := by
    rw [addEntry, keySymbols, hu]
    rfl
  rw [row_mapping (by simp), List.foldlM_append, hbefore]
  simp only [bind, Except.bind, List.foldlM_cons, hkey]
  rfl

theorem ofEntries_of_invalidKey {xs ys : List (State × Value)} {d d' : Dict State Value} {t : SingleTable}
    (hd : d.entries = xs ++ (q, .mapping (before ++ (key, w) :: after)) :: ys)
    (hd' : d'.entries = xs ++ (q, .mapping (before ++ (u, w) :: after)) :: ys)
    (h : ofEntries syn d = .ok t) (hu : keySymbols? u = none) :
    ofEntries syn d' = .error ((invalidSymbol u).inTransition q u.describe) := by
  have hkeys : d'.keys = d.keys := by simp [Dict.keys, hd, hd']
  have hrows := Dict.traverse_eq_ok_iff.1 (ofEntries_eq_ok_iff.1 h)
  rw [hd] at hrows
  obtain ⟨rs, rest, hxs, hrest, -⟩ := forall₂_append_left_iff.1 hrows
  obtain ⟨x, _, ⟨-, hq⟩, -⟩ := List.forall₂_cons_left_iff.1 hrest
  have hbefore : ∀ x ∈ xs, ∃ y, row d.keys syn x.1 x.2 = .ok y := by
    intro x hx
    obtain ⟨y, -, -, hy⟩ := exists_of_mem_left hxs hx
    exact ⟨y.2, hy⟩
  have herror := Dict.traverse_eq_error_iff.2 ⟨xs, _, ys, hd', hbefore, row_of_invalidKey hq hu⟩
  rw [ofEntries, hkeys, herror]
  rfl

theorem exists_keySymbols?_of_ofEntries {xs ys : List (State × Value)} {d : Dict State Value} {m : Mapping}
    {t : SingleTable} (hd : d.entries = xs ++ (q, .mapping m) :: ys) (h : ofEntries syn d = .ok t)
    {e : Value × Value} (he : e ∈ m) : ∃ cs, keySymbols? e.1 = some cs := by
  have hrows := Dict.traverse_eq_ok_iff.1 (ofEntries_eq_ok_iff.1 h)
  obtain ⟨r, -, -, hr⟩ := exists_of_mem_left hrows (show (q, .mapping m) ∈ d.entries by simp [hd])
  rcases row_eq_ok_iff.1 hr with ⟨hempty, -⟩ | ⟨m', rs, _, -, hm, hrs, -, -⟩
  · rcases hempty with hnull | hnil
    · cases hnull
    · cases hnil
      cases he
  · cases hm
    obtain ⟨r', -, hkey, -⟩ := exists_of_mem_left hrs he
    exact ⟨r'.1, hkey⟩

/-- Two scalars of which one stands for a symbol are not the same. -/
theorem same_eq_false {cs : List Symbol} (hkey : keySymbols? key = some cs) (hu : keySymbols? u = none)
    (hscalar : (∃ x, u = .number (.float x)) ∨ ∃ s, u = .string s) :
    key.same u = false ∧ u.same key = false := by
  rcases hscalar with ⟨x, rfl⟩ | ⟨s, rfl⟩
  · cases key with
    | number n =>
      cases n with
      | integer i => exact ⟨rfl, rfl⟩
      | float y => cases hkey
    | _ => exact ⟨rfl, rfl⟩
  · cases key with
    | string s' =>
      have hne : s' ≠ s := by
        rintro rfl
        rw [hu] at hkey
        cases hkey
      simp [Value.same, hne, hne.symm]
    | _ => exact ⟨rfl, rfl⟩

end SingleTable

/-! ## Places of a document -/

namespace Yaml

/-- The names of fields are strings, whatever their style and tag. -/
theorem hasText_of_readScalar {tag : Option Tag} {style : Style} {name : String} {v : Value}
    (hname : name ∈ reserved) (h : readScalar tag style name = .ok v) : v.HasText name := by
  have hplain : ∀ name ∈ reserved, isNullText name = false ∧ boolOfText? name = none ∧
      intOfText? name.toList = none ∧ floatOfText? name.toList = none ∧ name.isEmpty = false ∧
      isPadded name.toList = false := by
    decide
  obtain ⟨hnull, hbool, hint, hfloat, hempty, hpadded⟩ := hplain name hname
  have hinteger : resolveInteger? name = none := by rw [resolveInteger?, hint, Option.bind_none]
  have huntagged : ∀ u, readUntagged style name = .ok u → u.HasText name := by
    intro u hu
    cases style with
    | plain =>
      rw [readUntagged, resolvePlain, hempty, hnull, hbool, hinteger, hpadded, hfloat] at hu
      cases hu
      exact .string name
    | quoted =>
      cases hu
      exact .string name
  unfold readScalar at h
  split at h
  · exact huntagged v h
  · obtain ⟨u, hu, rfl⟩ := map_eq_ok_iff.1 h
    exact .tagged (huntagged u hu)
  · unfold readTagged at h
    rw [hbool, hinteger, hfloat, hnull] at h
    split at h
    · cases h
    · cases h
    · cases h
    · cases h
    · cases h
      exact .string name
  · exact huntagged v h

namespace Place

/-- The place is the value of a field of the document. -/
def IsField (place : Place) (name : String) : Prop :=
  ∃ (f : Frame) (mark : Mark) (properties : Properties) (style : Style),
    place = [f] ∧ f.slot = .value (.scalar mark properties style name)

/-- The place is the value of an entry with the name, in whatever mapping. -/
def IsPart (place : Place) (name : String) : Prop :=
  ∃ (outer : Place) (f : Frame) (mark : Mark) (properties : Properties) (style : Style),
    place = outer ++ [f] ∧ f.slot = .value (.scalar mark properties style name)

/-- The place is a key in the row of a state. -/
def IsRowKey (place : Place) : Prop :=
  ∃ (table row key : Frame) (mark : Mark) (properties : Properties) (style : Style) (state next : Node),
    place = [table, row, key] ∧ table.slot = .value (.scalar mark properties style "table") ∧
    row.slot = .value state ∧ key.slot = .key next

end Place

theorem Hole.untagged_fill (h : Hole) (v : Value) : (h.fill v).untagged = .mapping (h.entries v) := by
  rw [Hole.fill]
  cases h.tag with
  | none => rfl
  | some name => rfl

theorem Hole.untagged_fill_of_value {h : Hole} {key : Value} (hslot : h.slot = .value key) (v : Value) :
    (h.fill v).untagged = .mapping (h.before ++ (key, v) :: h.after) := by
  rw [untagged_fill, entries, hslot]
  rfl

theorem Hole.untagged_fill_of_key {h : Hole} {w : Value} (hslot : h.slot = .key w) (v : Value) :
    (h.fill v).untagged = .mapping (h.before ++ (v, w) :: h.after) := by
  rw [untagged_fill, entries, hslot]
  rfl

theorem Hole.fits_of_value {h : Hole} {key : Value} (hslot : h.slot = .value key) (v : Value) : h.Fits v := by
  rw [Hole.Fits, hslot]
  trivial

variable {refs : References} {place : Place} {holes : List Hole}

theorem exists_value_of_corresponds {f : Frame} {h : Hole} (hf : Interpreter.Corresponds refs f h)
    {node : Node} (hnode : f.slot = .value node) : ∃ key, h.slot = .value key ∧
      ∃ depth path n n', (Interpreter.interpret refs depth path node).run n = .ok (key, n') := by
  rw [Interpreter.Corresponds, hnode] at hf
  cases hslot : h.slot with
  | key v =>
    rw [hslot] at hf
    exact hf.elim
  | value key =>
    rw [hslot] at hf
    exact ⟨key, rfl, hf⟩

theorem exists_key_of_corresponds {f : Frame} {h : Hole} (hf : Interpreter.Corresponds refs f h) {node : Node}
    (hnode : f.slot = .key node) : ∃ v, h.slot = .key v := by
  rw [Interpreter.Corresponds, hnode] at hf
  cases hslot : h.slot with
  | key v => exact ⟨v, rfl⟩
  | value key =>
    rw [hslot] at hf
    exact hf.elim

theorem hasText_of_corresponds {f : Frame} {h : Hole} (hf : Interpreter.Corresponds refs f h) {mark : Mark}
    {properties : Properties} {style : Style} {name : String} (hname : name ∈ reserved)
    (hnode : f.slot = .value (.scalar mark properties style name)) :
    ∃ key, h.slot = .value key ∧ key.HasText name := by
  obtain ⟨key, hslot, depth, path, n, n', hrun⟩ := exists_value_of_corresponds hf hnode
  refine ⟨key, hslot, ?_⟩
  rw [Interpreter.run_interpret_scalar] at hrun
  split at hrun
  · rename_i v hv
    cases hrun
    exact hasText_of_readScalar hname hv
  · cases hrun

namespace Place

variable {name : String}

theorem IsPart.exists_hole (h : place.IsPart name) (hname : name ∈ reserved)
    (hholes : List.Forall₂ (Interpreter.Corresponds refs) place holes) :
    ∃ outer hole key, holes = outer ++ [hole] ∧ hole.slot = .value key ∧ key.HasText name := by
  obtain ⟨place, f, mark, properties, style, rfl, hslot⟩ := h
  obtain ⟨outer, _, -, hlast, rfl⟩ := forall₂_append_left_iff.1 hholes
  obtain ⟨hole, _, hcorresponds, hnil, rfl⟩ := List.forall₂_cons_left_iff.1 hlast
  cases hnil
  obtain ⟨key, hkeySlot, hkey⟩ := hasText_of_corresponds hcorresponds hname hslot
  exact ⟨outer, hole, key, rfl, hkeySlot, hkey⟩

theorem IsField.exists_hole (h : place.IsField name) (hname : name ∈ reserved)
    (hholes : List.Forall₂ (Interpreter.Corresponds refs) place holes) :
    ∃ hole key, holes = [hole] ∧ hole.slot = .value key ∧ key.HasText name := by
  obtain ⟨f, mark, properties, style, rfl, hslot⟩ := h
  obtain ⟨hole, _, hcorresponds, hnil, rfl⟩ := List.forall₂_cons_left_iff.1 hholes
  cases hnil
  obtain ⟨key, hkeySlot, hkey⟩ := hasText_of_corresponds hcorresponds hname hslot
  exact ⟨hole, key, rfl, hkeySlot, hkey⟩

theorem IsRowKey.exists_holes (h : place.IsRowKey)
    (hholes : List.Forall₂ (Interpreter.Corresponds refs) place holes) :
    ∃ (table row key : Hole) (k q w : Value), holes = [table, row, key] ∧ table.slot = .value k ∧
      k.HasText "table" ∧ row.slot = .value q ∧ key.slot = .key w := by
  obtain ⟨table, row, key, mark, properties, style, state, next, rfl, htable, hrow, hkey⟩ := h
  obtain ⟨tableHole, _, htableHole, hrows, rfl⟩ := List.forall₂_cons_left_iff.1 hholes
  obtain ⟨rowHole, _, hrowHole, hkeys, rfl⟩ := List.forall₂_cons_left_iff.1 hrows
  obtain ⟨keyHole, _, hkeyHole, hnil, rfl⟩ := List.forall₂_cons_left_iff.1 hkeys
  cases hnil
  obtain ⟨k, htableSlot, hk⟩ := hasText_of_corresponds htableHole (by decide) htable
  obtain ⟨q, hrowSlot, -⟩ := exists_value_of_corresponds hrowHole hrow
  obtain ⟨w, hkeySlot⟩ := exists_key_of_corresponds hkeyHole hkey
  exact ⟨tableHole, rowHole, keyHole, k, q, w, rfl, htableSlot, hk, hrowSlot, hkeySlot⟩

end Place

end Yaml

/-! ## Another scalar at a place -/

namespace Spec

open Yaml (Hole fillAll FitsAll)

variable {m : Mapping} {s : Spec} {x : Value}

theorem ofValue_of_input {h : Hole} {key : Value} (hslot : h.slot = .value key) (hkey : key.HasText "input")
    (hm : (fillAll [h] x).untagged = .mapping m) (honce : Once m "input") (hs : ofMapping m = .ok s)
    (u : Value) : ofValue (fillAll [h] u) = (inputOf u.present?).map fun i => { s with input := i } := by
  have hentries : ∀ v, (fillAll [h] v).untagged = .mapping (h.before ++ (key, v) :: h.after) :=
    Hole.untagged_fill_of_value hslot
  rw [hentries, Value.mapping.injEq] at hm
  subst hm
  rw [ofValue, hentries u]
  dsimp only
  rw [ofMapping_of_input hs fun name hname => field?_of_ne hkey hname x, (honce.replace u).field?_eq hkey]

section RowKey
variable {table row key : Hole} {k q w : Value}

theorem untagged_fillAll_rowKey (htable : table.slot = .value k) (hk : k.HasText "table")
    (hrow : row.slot = .value q) (hm : (fillAll [table, row, key] x).untagged = .mapping m)
    (honce : Once m "table") (v : Value) :
    (fillAll [table, row, key] v).untagged =
        .mapping (table.before ++ (k, row.fill (key.fill v)) :: table.after) ∧
      field? (table.before ++ (k, row.fill (key.fill v)) :: table.after) "table" =
        some (.mapping (row.before ++ (q, key.fill v) :: row.after)) := by
  have hentries : ∀ v, (fillAll [table, row, key] v).untagged =
      .mapping (table.before ++ (k, row.fill (key.fill v)) :: table.after) :=
    fun v => Hole.untagged_fill_of_value htable _
  rw [hentries, Value.mapping.injEq] at hm
  subst hm
  have hrows := Hole.untagged_fill_of_value hrow (key.fill v)
  refine ⟨hentries v, ?_⟩
  rw [(honce.replace _).field?_eq hk]
  exact Value.present?_eq_some_iff.2 ⟨hrows, Value.noConfusion⟩

theorem ofValue_of_rowKey (htable : table.slot = .value k) (hk : k.HasText "table")
    (hrow : row.slot = .value q) (hkey : key.slot = .key w)
    (hm : (fillAll [table, row, key] x).untagged = .mapping m) (honce : Once m "table")
    (hs : ofMapping m = .ok s) (htype : s.machineType = .oneTape) {u : Value}
    (hu : SingleTable.keySymbols? u = none)
    (hscalar : (∃ y, u = .number (.float y)) ∨ ∃ t, u = .string t) :
    FitsAll [table, row, key] u ∧ ∃ state, q.text? = some state ∧
      ofValue (fillAll [table, row, key] u) =
        .error ((SingleTable.invalidSymbol u).inTransition state u.describe) := by
  have hrowEntries := Hole.untagged_fill_of_key hkey
  have hdocument := untagged_fillAll_rowKey htable hk hrow hm honce
  have hentries := fun v => (hdocument v).1
  have hfield := fun v => (hdocument v).2
  rw [hentries, Value.mapping.injEq] at hm
  subst hm
  obtain ⟨-, -, -, -, ⟨d, hd, hread, -⟩, -, -⟩ := ofMapping_eq_ok_iff.1 hs
  rw [hfield x] at hd
  obtain ⟨xs, state, ys, d', hstate, hbefore, hafter, hd'⟩ := exists_stateEntries_replaced hd (key.fill u)
  rw [hrowEntries] at hbefore hafter
  rw [htype] at hread
  obtain ⟨syn, t, hsyn, ht, -⟩ := tableOf_eq_ok_iff.1 hread
  have hkeys : d'.keys = d.keys := by simp [Dict.keys, hbefore, hafter]
  have herror := SingleTable.ofEntries_of_invalidKey hbefore hafter ht hu
  refine ⟨⟨Hole.fits_of_value htable _, Hole.fits_of_value hrow _, ?_, trivial⟩, state, hstate, ?_⟩
  · have hsymbols : ∀ e ∈ key.before ++ (x, w) :: key.after,
        ∃ cs, SingleTable.keySymbols? e.1 = some cs :=
      fun e he => SingleTable.exists_keySymbols?_of_ofEntries hbefore ht he
    rw [Hole.Fits, hkey]
    refine ⟨fun e he => ?_, fun e he => ?_⟩
    · obtain ⟨cs, hcs⟩ := hsymbols e (List.mem_append_left _ he)
      exact (SingleTable.same_eq_false hcs hu hscalar).1
    · obtain ⟨cs, hcs⟩ := hsymbols e (List.mem_append_right _ (List.mem_cons_of_mem _ he))
      exact (SingleTable.same_eq_false hcs hu hscalar).2
  · have htableOf : tableOf s.machineType s.wild
        (field? (table.before ++ (k, row.fill (key.fill x)) :: table.after) "synonyms") d' =
        .error ((SingleTable.invalidSymbol u).inTransition state u.describe) := by
      rw [htype, tableOf, hkeys, hsyn]
      simp only [bind, Except.bind, herror]
    rw [ofValue, hentries u]
    refine ofMapping_of_table hs (fun name hname => field?_of_ne hk hname _) ?_ htableOf
    rw [hfield u]
    exact hd'

end RowKey

end Spec

end TapeMachine
