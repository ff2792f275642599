import TapeMachine.Proofs.Document.Errors
import TapeMachine.Proofs.Document.Lookup

/-!
# The first defect

A document is read in a fixed order, and the first defect is the one reported: the fields at the top, the keys of the
table, the synonyms one after the other, then the rows of the states.  So what comes later in this order can be replaced
by anything, as long as the keys stay, and the error is the same.  For an error in a synonym these are the definitions
of the later synonyms, all rows and the input; for an error in a state, the rows of the later states and the input.  The
definition or the row itself does matter: with a better one in its place the error is another one or there is none.
-/

namespace TapeMachine

open Yaml (Value)

open SpecError (Plain OfInstruction OfSynonym OfRow OfTable)

/-! ## What is replaced -/

/-- Two mappings that agree in the given entries, which are their first ones, and in the keys of the others. -/
def AgreeOn (initial : Mapping) (v v' : Value) : Prop :=
  ∃ rest rest', v.untagged = .mapping (initial ++ rest) ∧ v'.untagged = .mapping (initial ++ rest') ∧
    rest'.map Prod.fst = rest.map Prod.fst

/-- How a field can be replaced by what is read later than the given synonyms. -/
def AfterSynonyms (initial : Mapping) (name : String) (v v' : Value) : Prop :=
  v' = v ∨ name = "synonyms" ∧ AgreeOn initial v v' ∨ name = "table" ∧ AgreeOn [] v v' ∨ name = "input"

/-- How a field can be replaced by what is read later than the given rows. -/
def AfterRows (initial : Mapping) (name : String) (v v' : Value) : Prop :=
  v' = v ∨ name = "table" ∧ AgreeOn initial v v' ∨ name = "input"

/-- Two documents with the same keys whose fields are related. -/
def Varies (R : String → Value → Value → Prop) (v v' : Value) : Prop :=
  ∃ m m', v.untagged = .mapping m ∧ v'.untagged = .mapping m' ∧
    List.Forall₂ (fun e e' => e'.1 = e.1 ∧ ∀ name, e.1.HasText name → R name e.2 e'.2) m m'

/-- The error stems from an entry of a field, whose key has the given name: it does not depend on what is read after
this entry, but it does depend on the entry. -/
def StopsAt (After : Mapping → String → Value → Value → Prop) (field name : String) (v : Value)
    (e : SpecError) : Prop :=
  ∃ m before key x after, v.untagged = .mapping m ∧
    Field m field (some (.mapping (before ++ (key, x) :: after))) ∧ key.HasText name ∧
    (∀ v', Varies (After (before ++ [(key, x)])) v v' → Spec.ofValue v' = .error e) ∧
    ∃ v', Varies (After before) v v' ∧ Spec.ofValue v' ≠ .error e

/-! ## Fields of related documents -/

section Fields
variable {R : String → Value → Value → Prop} {m m' : Mapping} {name : String}
  (h : List.Forall₂ (fun e e' => e'.1 = e.1 ∧ ∀ name, e.1.HasText name → R name e.2 e'.2) m m')

include h

theorem exists_field?_of_varies :
    Spec.field? m name = none ∧ Spec.field? m' name = none ∨
      ∃ v v', R name v v' ∧ Spec.field? m name = v.present? ∧ Spec.field? m' name = v'.present? := by
  have hfilter : List.Forall₂ (fun e e' => R name e.2 e'.2) (m.filter (·.1.text? == some name))
      (m'.filter (·.1.text? == some name)) := by
    induction h with
    | nil => exact .nil
    | @cons e e' m m' he _ ih =>
      rw [List.filter_cons, List.filter_cons, he.1]
      by_cases hkey : (e.1.text? == some name) = true
      · rw [if_pos hkey, if_pos hkey]
        exact .cons (he.2 name (Value.hasText_iff.2 (beq_iff_eq.1 hkey))) ih
      · rw [if_neg hkey, if_neg hkey]
        exact ih
  rw [Spec.field?, Spec.field?]
  cases hlast : (m'.filter (·.1.text? == some name)).getLast? with
  | none =>
    have hnil := List.getLast?_eq_none_iff.1 hlast
    rw [hnil, List.forall₂_nil_right_iff] at hfilter
    exact .inl ⟨by rw [hfilter]; rfl, rfl⟩
  | some e' =>
    obtain ⟨e, he, hR⟩ := exists_getLast?_of_forall₂ hfilter hlast
    exact .inr ⟨e.2, e'.2, hR, by rw [he]; rfl, rfl⟩

theorem field?_eq_of_varies (hR : ∀ v v', R name v v' → v' = v) : Spec.field? m' name = Spec.field? m name := by
  rcases exists_field?_of_varies h with ⟨hnone, hnone'⟩ | ⟨v, v', hvv', hv, hv'⟩
  · rw [hnone, hnone']
  · rw [hv, hv', hR v v' hvv']

theorem exists_field?_of_agreeOn {initial rest : Mapping}
    (hR : ∀ v v', R name v v' → v' = v ∨ AgreeOn initial v v')
    (hfield : Spec.field? m name = some (.mapping (initial ++ rest))) :
    ∃ rest', Spec.field? m' name = some (.mapping (initial ++ rest')) ∧ rest'.map Prod.fst = rest.map Prod.fst := by
  rcases exists_field?_of_varies h with ⟨hnone, -⟩ | ⟨v, v', hvv', hv, hv'⟩
  · rw [hnone] at hfield
    cases hfield
  · rcases hR v v' hvv' with rfl | ⟨rest₀, rest', huntagged, huntagged', hkeys⟩
    · exact ⟨rest, hv'.trans (hv.symm.trans hfield), rfl⟩
    · rw [hfield] at hv
      have hmapping := (Value.present?_eq_some_iff.1 hv.symm).1
      rw [huntagged, Value.mapping.injEq, List.append_right_inj] at hmapping
      subst hmapping
      exact ⟨rest', hv'.trans (Value.present?_eq_some_iff.2 ⟨huntagged', nofun⟩), hkeys⟩

end Fields

theorem exists_varies {After : Mapping → String → Value → Value → Prop} {m initial rest rest' : Mapping}
    {name : String} {v : Value} (hv : v.untagged = .mapping m)
    (hrefl : ∀ name v, After initial name v v) (hagree : ∀ v v', AgreeOn initial v v' → After initial name v v')
    (hfield : Field m name (some (.mapping (initial ++ rest)))) (hkeys : rest'.map Prod.fst = rest.map Prod.fst) :
    ∃ m', Varies (After initial) v (.mapping m') ∧ Spec.field? m' name = some (.mapping (initial ++ rest')) ∧
      ∀ name', name' ≠ name → Spec.field? m' name' = Spec.field? m name' := by
  obtain ⟨x, ⟨before, key, after, rfl, hkey, hafter⟩, -, hx⟩ := hfield
  refine ⟨before ++ (key, .mapping (initial ++ rest')) :: after, ⟨_, _, hv, rfl, ?_⟩, ?_, fun name' hne => ?_⟩
  · have hsame : ∀ m : Mapping, List.Forall₂
        (fun e e' => e'.1 = e.1 ∧ ∀ name, e.1.HasText name → After initial name e.2 e'.2) m m :=
      fun m => List.forall₂_same.2 fun e _ => ⟨rfl, fun name _ => hrefl name e.2⟩
    refine List.rel_append (hsame before) (.cons ⟨rfl, fun name' hkey' => ?_⟩ (hsame after))
    rw [Value.hasText_iff] at hkey hkey'
    rw [← Option.some.inj (hkey.symm.trans hkey')]
    exact hagree _ _ ⟨rest, rest', hx, rfl, hkeys⟩
  · exact field?_eq_some_iff.2 ⟨_, ⟨before, key, after, rfl, hkey, hafter⟩, nofun, rfl⟩
  · exact (field?_of_ne hkey hne _).symm

/-- The names of the fields that are read before the table. -/
def headNames : List String := ["blank", "wild", "start state", "type"]

theorem ne_of_mem_headNames {name : String} (h : name ∈ headNames) :
    name ≠ "synonyms" ∧ name ≠ "table" ∧ name ≠ "input" := by
  have hall : ∀ name ∈ headNames, name ≠ "synonyms" ∧ name ≠ "table" ∧ name ≠ "input" := by decide
  exact hall name h

theorem AfterSynonyms.refl {initial : Mapping} (name : String) (v : Value) : AfterSynonyms initial name v v := .inl rfl

theorem AfterRows.refl {initial : Mapping} (name : String) (v : Value) : AfterRows initial name v v := .inl rfl

theorem AgreeOn.afterSynonyms {initial : Mapping} {v v' : Value} (h : AgreeOn initial v v') :
    AfterSynonyms initial "synonyms" v v' :=
  .inr (.inl ⟨rfl, h⟩)

theorem AgreeOn.afterRows {initial : Mapping} {v v' : Value} (h : AgreeOn initial v v') :
    AfterRows initial "table" v v' :=
  .inr (.inl ⟨rfl, h⟩)

theorem AfterSynonyms.eq_of_mem {initial : Mapping} {name : String} {v v' : Value} (hname : name ∈ headNames)
    (h : AfterSynonyms initial name v v') : v' = v := by
  obtain ⟨hsynonyms, htable, hinput⟩ := ne_of_mem_headNames hname
  rcases h with h | ⟨h, -⟩ | ⟨h, -⟩ | h
  · exact h
  · exact absurd h hsynonyms
  · exact absurd h htable
  · exact absurd h hinput

theorem AfterSynonyms.agreeOn_synonyms {initial : Mapping} {v v' : Value} (h : AfterSynonyms initial "synonyms" v v') :
    v' = v ∨ AgreeOn initial v v' := by
  rcases h with h | ⟨-, h⟩ | ⟨h, -⟩ | h
  · exact .inl h
  · exact .inr h
  · exact absurd h (by decide)
  · exact absurd h (by decide)

theorem AfterSynonyms.agreeOn_table {initial : Mapping} {v v' : Value} (h : AfterSynonyms initial "table" v v') :
    v' = v ∨ AgreeOn [] v v' := by
  rcases h with h | ⟨h, -⟩ | ⟨-, h⟩ | h
  · exact .inl h
  · exact absurd h (by decide)
  · exact .inr h
  · exact absurd h (by decide)

theorem AfterRows.agreeOn_table {initial : Mapping} {v v' : Value} (h : AfterRows initial "table" v v') :
    v' = v ∨ AgreeOn initial v v' := by
  rcases h with h | ⟨-, h⟩ | h
  · exact .inl h
  · exact .inr h
  · exact absurd h (by decide)

theorem AfterRows.eq_of_ne {initial : Mapping} {name : String} {v v' : Value} (htable : name ≠ "table")
    (hinput : name ≠ "input") (h : AfterRows initial name v v') : v' = v := by
  rcases h with h | ⟨h, -⟩ | h
  · exact h
  · exact absurd h htable
  · exact absurd h hinput

/-! ## Where the reader stops -/

theorem Grammar.synonyms_stops {ι : Type} {g : Grammar ι} (hg : g.Sound) {states : List State} {v? : Option Value}
    {e : SpecError} (h : g.synonyms states v? = .error e) :
    Plain e ∨ ∃ before key x after name, v? = some (.mapping (before ++ (key, x) :: after)) ∧ key.HasText name ∧
      OfSynonym states name e ∧
      (∀ rest', rest'.map Prod.fst = after.map Prod.fst →
        g.synonyms states (some (.mapping (before ++ (key, x) :: rest'))) = .error e) ∧
      ∀ rest', rest'.map Prod.fst = key :: after.map Prod.fst →
        (∀ y ∈ rest', ∀ names, ∃ i, g.instruction states (.unavailable names) y.2 = .ok i) →
        FailsWith Plain (g.synonyms states (some (.mapping (before ++ rest')))) := by
  have hnames : ∀ m m' : Mapping, m'.map Prod.fst = m.map Prod.fst →
      m'.filterMap (·.1.text?) = m.filterMap (·.1.text?) := by
    intro m m' hkeys
    have hmap := congrArg (List.filterMap Value.text?) hkeys
    rwa [List.filterMap_map, List.filterMap_map] at hmap
  rcases v? with _ | v
  · cases h
  cases v with
  | mapping m =>
    obtain ⟨before, ⟨key, x⟩, after, d, rfl, hbefore, hadd⟩ := foldlM_eq_error_iff.1 h
    rcases addSynonym_eq_error hg hadd with he | ⟨name, hname, he⟩
    · exact .inl he
    refine .inr ⟨before, key, x, after, name, rfl, Value.hasText_iff.2 hname, he, fun rest' hkeys => ?_,
      fun rest' hkeys hbetter => ?_⟩
    · show (before ++ (key, x) :: rest').foldlM _ _ = _
      rw [hnames (before ++ (key, x) :: after) _ (by simp [hkeys])]
      exact foldlM_eq_error_iff.2 ⟨before, (key, x), rest', d, rfl, hbefore, hadd⟩
    · show FailsWith Plain ((before ++ rest').foldlM _ _)
      rw [hnames (before ++ (key, x) :: after) _ (by simp [hkeys]), List.foldlM_append, hbefore]
      refine failsWith_foldlM_of_mem (fun y hy d => ?_) d
      refine (failsWith_synonymName y.1).bind fun name => ?_
      obtain ⟨i, hi⟩ := hbetter y hy _
      rw [hi]
      trivial
  | _ =>
    cases h
    exact .inl (SpecError.plain_mk nofun nofun)

/-- A traversal stops at the first value that cannot be made, and goes on if there are better ones. -/
theorem Dict.traverse_stops {κ α β ε : Type} {f : κ → α → Except ε β} {d : Dict κ α} {e : ε}
    (h : d.traverse f = .error e) :
    ∃ xs k x ys, d.entries = xs ++ (k, x) :: ys ∧ f k x = .error e ∧
      (∀ (d' : Dict κ α) ys', d'.entries = xs ++ (k, x) :: ys' → d'.traverse f = .error e) ∧
      ∀ (d' : Dict κ α) ys', d'.entries = xs ++ ys' → (∀ y ∈ ys', ∃ w, f y.1 y.2 = .ok w) →
        ∃ r, d'.traverse f = .ok r := by
  obtain ⟨xs, ⟨k, x⟩, ys, hd, hxs, hx⟩ := traverse_eq_error_iff.1 h
  refine ⟨xs, k, x, ys, hd, hx, fun d' ys' hd' => ?_, fun d' ys' hd' hys' => ?_⟩
  · exact traverse_eq_error_iff.2 ⟨xs, (k, x), ys', hd', hxs, hx⟩
  · rw [exists_traverse_iff, hd']
    exact List.forall_mem_append.2 ⟨hxs, hys'⟩

theorem exists_stateEntries {initial rest rest' : Mapping} {xs ys : List (State × Value)} {entries : Dict State Value}
    (hentries : entries.entries = xs ++ ys) (hinitial : List.Forall₂ Enters initial xs)
    (hrest : List.Forall₂ Enters rest ys) (hkeys : rest'.map Prod.fst = rest.map Prod.fst) :
    ∃ ys' entries', List.Forall₂ Enters rest' ys' ∧ entries'.entries = xs ++ ys' ∧ entries'.keys = entries.keys ∧
      stateEntries (some (.mapping (initial ++ rest'))) = .ok entries' := by
  obtain ⟨ys', hys', hfst⟩ := exists_enters (hkeys ▸ hasText_keys_of_enters hrest)
  have hstates : (xs ++ ys').map Prod.fst = entries.keys := by
    rw [Dict.keys, hentries, List.map_append, List.map_append, hfst]
  refine ⟨ys', ⟨xs ++ ys', hstates ▸ entries.nodup_keys⟩, hys', rfl, hstates, ?_⟩
  exact stateEntries_eq_ok_iff.2 ⟨_, rfl, List.rel_append hinitial hys'⟩

/-! ## Documents -/

namespace Spec

variable {v : Value} {m m' : Mapping} {wild : Option Symbol} {type : MachineType} {entries entries' : Dict State Value}
  {e : SpecError}

theorem Heads.of_fields (h : Heads m wild type entries)
    (hsame : ∀ name ∈ headNames, field? m' name = field? m name)
    (hentries : stateEntries (field? m' "table") = .ok entries') : Heads m' wild type entries' where
  blank := by rw [hsame "blank" (by decide)]; exact h.blank
  wild := by rw [hsame "wild" (by decide)]; exact h.wild
  start := by rw [hsame "start state" (by decide)]; exact h.start
  type := by rw [hsame "type" (by decide)]; exact h.type
  entries := hentries

theorem ofValue_of_untagged (hv : v.untagged = .mapping m) : ofValue v = ofMapping m := by
  rw [ofValue, hv]

/-- What is read later than some synonyms leaves the fields before them and the states. -/
theorem exists_heads_of_varies {initial : Mapping}
    (hvaries : List.Forall₂
      (fun e e' => e'.1 = e.1 ∧ ∀ name, e.1.HasText name → AfterSynonyms initial name e.2 e'.2) m m')
    (hheads : Heads m wild type entries) : ∃ entries', Heads m' wild type entries' ∧ entries'.keys = entries.keys := by
  have hsame : ∀ name ∈ headNames, field? m' name = field? m name := fun name hname =>
    field?_eq_of_varies hvaries fun _ _ h => h.eq_of_mem hname
  have hagree : ∀ x x', AfterSynonyms initial "table" x x' → x' = x ∨ AgreeOn [] x x' := fun _ _ h => h.agreeOn_table
  obtain ⟨rows, hrows, henters⟩ := stateEntries_eq_ok_iff.1 hheads.entries
  obtain ⟨rows', hrows', hkeys⟩ := exists_field?_of_agreeOn hvaries hagree hrows
  obtain ⟨_, entries', -, -, hstates, hentries'⟩ := exists_stateEntries (List.nil_append _).symm .nil henters hkeys
  exact ⟨entries', hheads.of_fields hsame (hrows' ▸ hentries'), hstates⟩

theorem tableOf_stops_synonym {v? : Option Value} (h : tableOf type wild v? entries = .error e) {name : String}
    (hname : e.synonym = some name) :
    ∃ before key x after, v? = some (.mapping (before ++ (key, x) :: after)) ∧ key.HasText name ∧
      (∀ (rest' : Mapping) (entries' : Dict State Value), rest'.map Prod.fst = after.map Prod.fst →
        entries'.keys = entries.keys →
        tableOf type wild (some (.mapping (before ++ (key, x) :: rest'))) entries' = .error e) ∧
      ∃ rest' : Mapping, rest'.map Prod.fst = key :: after.map Prod.fst ∧
        tableOf type wild (some (.mapping (before ++ rest'))) entries ≠ .error e := by
  obtain ⟨ι, β, r, hr, hrows⟩ := exists_rowReader type wild
  have hplain : ¬ Plain e := fun he => nomatch he.synonym.symm.trans hname
  have hrow : ∀ syn, entries.traverse (r.row entries.keys syn) ≠ .error e := by
    intro syn herror
    obtain ⟨_, ⟨q, w⟩, _, -, -, hw⟩ := Dict.traverse_eq_error_iff.1 herror
    exact nomatch (failsWith_iff.1 (hr.row _ syn q w) e hw).synonym.symm.trans hname
  have hsyn := (bind_eq_error_iff.1 ((hrows _ _ _).1 h)).resolve_right fun ⟨syn, _, herror⟩ => hrow syn herror
  obtain ⟨before, key, x, after, name', rfl, hkey, he, hlater, hbetter⟩ :=
    (Grammar.synonyms_stops hr.grammar hsyn).resolve_left hplain
  obtain rfl : name' = name := Option.some.inj (he.synonym.symm.trans hname)
  refine ⟨before, key, x, after, rfl, hkey, fun rest' entries' hkeys hstates => ?_, ?_⟩
  · refine (hrows _ _ _).2 (bind_eq_error_iff.2 (.inl ?_))
    rw [hstates]
    exact hlater rest' hkeys
  · -- with another definition in its place, and in the places of the later ones, all synonyms are read
    obtain ⟨body, hbody⟩ := hr.body
    have hkeys : (((key, x) :: after).map fun y => (y.1, body)).map Prod.fst = key :: after.map Prod.fst := by
      rw [List.map_map]
      rfl
    refine ⟨_, hkeys, fun herror => ?_⟩
    rcases bind_eq_error_iff.1 ((hrows _ _ _).1 herror) with hsyn' | ⟨syn, -, herror⟩
    · refine hplain (failsWith_iff.1 (hbetter _ hkeys ?_) e hsyn')
      rw [List.forall_mem_map]
      exact fun _ _ names => hbody _ names
    · exact hrow syn herror

theorem tableOf_stops_row {v? : Option Value} (h : tableOf type wild v? entries = .error e) {state : State}
    (hstate : e.state = some state) :
    ∃ xs x ys, entries.entries = xs ++ (state, x) :: ys ∧
      (∀ (entries' : Dict State Value) ys', entries'.entries = xs ++ (state, x) :: ys' →
        entries'.keys = entries.keys → tableOf type wild v? entries' = .error e) ∧
      ∀ (entries' : Dict State Value) ys', entries'.entries = xs ++ ys' → entries'.keys = entries.keys →
        (∀ y ∈ ys', y.2 = .null) → tableOf type wild v? entries' ≠ .error e := by
  obtain ⟨ι, β, r, hr, hrows⟩ := exists_rowReader type wild
  have hsynonyms : r.grammar.synonyms entries.keys v? ≠ .error e := by
    intro herror
    rcases Grammar.synonyms_stops hr.grammar herror with he | ⟨_, _, _, _, _, -, -, he, -⟩
    · exact nomatch he.state.symm.trans hstate
    · exact nomatch he.unplaced.1.symm.trans hstate
  obtain ⟨syn, hsyn, herror⟩ := (bind_eq_error_iff.1 ((hrows _ _ _).1 h)).resolve_left hsynonyms
  obtain ⟨xs, q, x, ys, hentries, hx, hlater, hbetter⟩ := Dict.traverse_stops herror
  obtain rfl : q = state := Option.some.inj ((failsWith_iff.1 (hr.row _ _ q x) e hx).state.symm.trans hstate)
  refine ⟨xs, x, ys, hentries, fun entries' ys' hentries' hstates => ?_, fun entries' ys' hentries' hstates hnull => ?_⟩
  · refine (hrows _ _ _).2 (bind_eq_error_iff.2 (.inr ⟨syn, ?_, ?_⟩))
    · rw [hstates]
      exact hsyn
    · rw [hstates]
      exact hlater entries' ys' hentries'
  · intro herror'
    obtain ⟨d, hd⟩ := hbetter entries' ys' hentries' fun y hy => by
      rw [hnull y hy]
      exact hr.null _ _ _
    rcases bind_eq_error_iff.1 ((hrows _ _ _).1 herror') with hsyn' | ⟨syn', hsyn', herror'⟩
    · rw [hstates] at hsyn'
      exact hsynonyms hsyn'
    · rw [hstates, hsyn] at hsyn'
      rw [hstates, ← Except.ok.inj hsyn', hd] at herror'
      cases herror'

theorem stopsAt_synonym (hv : v.untagged = .mapping m) (h : ofMapping m = .error e) {name : String}
    (hname : e.synonym = some name) : StopsAt AfterSynonyms "synonyms" name v e := by
  have hplain : ¬ Plain e := fun he => nomatch he.synonym.symm.trans hname
  obtain ⟨wild, type, entries, hheads, htable⟩ := (plain_or_tableOf h).resolve_left hplain
  obtain ⟨before, key, x, after, hfield, hkey, hlater, better, hbetter, hread⟩ := tableOf_stops_synonym htable hname
  refine ⟨m, before, key, x, after, hv, field?_eq_some_iff.1 hfield, hkey, ?_, ?_⟩
  · rintro v' ⟨m₀, m', hm₀, hm', hvaries⟩
    obtain rfl : m = m₀ := Value.mapping.inj (hv.symm.trans hm₀)
    obtain ⟨entries', hheads', hstates⟩ := exists_heads_of_varies hvaries hheads
    rw [List.append_cons] at hfield
    obtain ⟨rest', hfield', hkeys⟩ := exists_field?_of_agreeOn hvaries (fun _ _ h => h.agreeOn_synonyms) hfield
    rw [← List.append_cons] at hfield'
    rw [ofValue_of_untagged hm']
    refine ofMapping_of_tableOf hheads' ?_
    rw [hfield']
    exact hlater rest' entries' hkeys hstates
  · obtain ⟨m', hvaries, hfield', hsame⟩ := exists_varies hv AfterSynonyms.refl
      (fun _ _ hagree => hagree.afterSynonyms) (field?_eq_some_iff.1 hfield) hbetter
    have hheads' : Heads m' wild type entries :=
      hheads.of_fields (fun name hname => hsame name (ne_of_mem_headNames hname).1)
        (hsame "table" (by decide) ▸ hheads.entries)
    refine ⟨.mapping m', hvaries, fun herror => hread ?_⟩
    rw [← hfield']
    exact (plain_or_tableOf_of_heads hheads' herror).resolve_left hplain

theorem stopsAt_row (hv : v.untagged = .mapping m) (h : ofMapping m = .error e) {state : State}
    (hstate : e.state = some state) : StopsAt AfterRows "table" state v e := by
  have hplain : ¬ Plain e := fun he => nomatch he.state.symm.trans hstate
  obtain ⟨wild, type, entries, hheads, htable⟩ := (plain_or_tableOf h).resolve_left hplain
  obtain ⟨xs, w, ys, hentries, hlater, hbetter⟩ := tableOf_stops_row htable hstate
  obtain ⟨rows, hfield, henters⟩ := stateEntries_eq_ok_iff.1 hheads.entries
  rw [hentries] at henters
  obtain ⟨before, ⟨key, x⟩, after, rfl, hbefore, hx, hafter⟩ := exists_append_of_forall₂ henters
  refine ⟨m, before, key, x, after, hv, field?_eq_some_iff.1 hfield, Value.hasText_iff.2 hx.1, ?_, ?_⟩
  · rintro v' ⟨m₀, m', hm₀, hm', hvaries⟩
    obtain rfl : m = m₀ := Value.mapping.inj (hv.symm.trans hm₀)
    have hsame : ∀ name, name ≠ "table" → name ≠ "input" → field? m' name = field? m name :=
      fun name htable hinput => field?_eq_of_varies hvaries fun _ _ h => h.eq_of_ne htable hinput
    rw [List.append_cons] at hfield hentries
    obtain ⟨rest', hfield', hkeys⟩ := exists_field?_of_agreeOn hvaries (fun _ _ h => h.agreeOn_table) hfield
    obtain ⟨ys', entries', -, hentries', hstates, hread⟩ :=
      exists_stateEntries hentries (List.rel_append hbefore (.cons hx .nil)) hafter hkeys
    rw [← List.append_cons] at hentries'
    have hheads' : Heads m' wild type entries' :=
      hheads.of_fields (fun name hname => hsame name (ne_of_mem_headNames hname).2.1 (ne_of_mem_headNames hname).2.2)
        (hfield' ▸ hread)
    rw [ofValue_of_untagged hm']
    refine ofMapping_of_tableOf hheads' ?_
    rw [hsame "synonyms" (by decide) (by decide)]
    exact hlater entries' ys' hentries' hstates
  · -- without this row and the later ones, all rows are read
    have hkeys : (((key, x) :: after).map fun y => (y.1, Value.null)).map Prod.fst =
        ((key, x) :: after).map Prod.fst := by
      rw [List.map_map]
      rfl
    obtain ⟨m', hvaries, hfield', hsame⟩ := exists_varies hv AfterRows.refl
      (fun _ _ hagree => hagree.afterRows) (field?_eq_some_iff.1 hfield) hkeys
    obtain ⟨ys', entries', hys', hentries', hstates, hread⟩ :=
      exists_stateEntries hentries hbefore (.cons hx hafter) hkeys
    have hheads' : Heads m' wild type entries' :=
      hheads.of_fields (fun name hname => hsame name (ne_of_mem_headNames hname).2.1) (hfield' ▸ hread)
    have hnull : ∀ y ∈ ys', y.2 = .null := by
      intro y hy
      obtain ⟨row, hrow, -, hvalue⟩ := exists_of_mem_right hys' hy
      obtain ⟨_, -, rfl⟩ := List.mem_map.1 hrow
      exact hvalue
    refine ⟨.mapping m', hvaries, fun herror => hbetter entries' ys' hentries' hstates hnull ?_⟩
    rw [← hsame "synonyms" (by decide)]
    exact (plain_or_tableOf_of_heads hheads' herror).resolve_left hplain

theorem ofValue_eq_error (h : ofValue v = .error e) :
    (e.state = none ∧ e.symbol = none ∧ e.synonym = none ∧ e.reason ≠ .undeclaredState) ∨
      ∃ m, v.untagged = .mapping m ∧ ofMapping m = .error e := by
  unfold ofValue at h
  cases hv : v.untagged with
  | mapping m =>
    rw [hv] at h
    exact .inr ⟨m, rfl, h⟩
  | _ =>
    rw [hv] at h
    cases h
    exact .inl ⟨rfl, rfl, rfl, nofun⟩

/-- A next state that is not declared is none of the keys of the table, and the error says where it is named. -/
theorem undeclared_of_ofMapping (hv : v.untagged = .mapping m) (h : ofMapping m = .error e)
    (hreason : e.reason = .undeclaredState) :
    ∃ m rows q, v.untagged = .mapping m ∧ Field m "table" (some (.mapping rows)) ∧ e.problem = some q ∧
      (∀ r ∈ rows, ¬ r.1.HasText q) ∧ (e.state ≠ none ∧ e.symbol ≠ none ∨ e.synonym ≠ none) := by
  obtain ⟨wild, type, entries, hheads, htable⟩ := (plain_or_tableOf h).resolve_left fun he => he.declared hreason
  obtain ⟨rows, hrows, henters⟩ := stateEntries_eq_ok_iff.1 hheads.entries
  obtain ⟨⟨q, hq, hproblem⟩, hplace⟩ :=
    (failsWith_iff.1 (failsWith_tableOf type wild _ entries) e htable).undeclared hreason
  refine ⟨m, rows, q, hv, field?_eq_some_iff.1 hrows, hproblem, fun row hrow htext => hq ?_, hplace⟩
  obtain ⟨x, hx, hname, -⟩ := exists_of_mem_left henters hrow
  rw [Value.hasText_iff, hname, Option.some.injEq] at htext
  exact List.mem_map.2 ⟨x, hx, htext⟩

/-- What an error says of its place. -/
structure Located (v : Value) (e : SpecError) : Prop where
  /-- An error in a synonym is that of the first synonym with an error. -/
  synonym : ∀ name, e.synonym = some name → StopsAt AfterSynonyms "synonyms" name v e
  /-- An error in a state is that of the first row with an error. -/
  state : ∀ state, e.state = some state → StopsAt AfterRows "table" state v e
  one : e.synonym = none ∨ e.state = none
  symbol : e.symbol ≠ none → e.state ≠ none
  undeclared : e.reason = .undeclaredState → ∃ m rows q, v.untagged = .mapping m ∧
    Field m "table" (some (.mapping rows)) ∧ e.problem = some q ∧ (∀ r ∈ rows, ¬ r.1.HasText q) ∧
    (e.state ≠ none ∧ e.symbol ≠ none ∨ e.synonym ≠ none)

/-- The error of a value that is refused is that of its first defect. -/
theorem first_defect {v : Value} {e : SpecError} (h : ofValue v = .error e) : Located v e := by
  rcases ofValue_eq_error h with ⟨hstate, hsymbol, hsynonym, hreason⟩ | ⟨m, hv, h⟩
  · exact {
      synonym := fun name hname => nomatch hsynonym.symm.trans hname
      state := fun state hname => nomatch hstate.symm.trans hname
      one := .inl hsynonym
      symbol := fun hne => absurd hsymbol hne
      undeclared := fun hundeclared => absurd hundeclared hreason }
  · have hplace : (e.synonym = none ∨ e.state = none) ∧ (e.state = none → e.symbol = none) := by
      rcases plain_or_tableOf h with he | ⟨wild, type, entries, -, htable⟩
      · exact (OfTable.plain he : OfTable [] e).place
      · exact (failsWith_iff.1 (failsWith_tableOf type wild _ entries) e htable).place
    exact {
      synonym := fun _ => stopsAt_synonym hv h
      state := fun _ => stopsAt_row hv h
      one := hplace.1
      symbol := fun hsymbol hstate => hsymbol (hplace.2 hstate)
      undeclared := fun hreason => undeclared_of_ofMapping hv h hreason }

/-- A document whose second synonym leads to a state that is not declared. -/
def undeclaredDocument : Value := .mapping [
  (.string "blank", .string "_"),
  (.string "start state", .string "a"),
  (.string "synonyms", .mapping [
    (.string "halt", .mapping [(.string "R", .string "a")]),
    (.string "go", .mapping [(.string "L", .string "b")]),
    (.string "stay", .string "S")]),
  (.string "table", .mapping [(.string "a", .mapping [(.string "0", .string "go")])])]

/-- The same document with another third synonym and another row, which have defects too. -/
def laterDocument : Value := .mapping [
  (.string "blank", .string "_"),
  (.string "start state", .string "a"),
  (.string "synonyms", .mapping [
    (.string "halt", .mapping [(.string "R", .string "a")]),
    (.string "go", .mapping [(.string "L", .string "b")]),
    (.string "stay", .null)]),
  (.string "table", .mapping [(.string "a", .string "none")])]

def undeclaredError : SpecError where
  reason := .undeclaredState
  synonym := some "go"
  problem := some "b"
  suggestion := some "Make sure to list all states in the transition table and define their transitions (if any)"

theorem first_defect_undeclaredDocument :
    ofValue undeclaredDocument = .error undeclaredError ∧ Located undeclaredDocument undeclaredError ∧
      ofValue laterDocument = .error undeclaredError := by
  have hundeclared : ((fun _ => ()) <$> ofValue undeclaredDocument) = .error undeclaredError := by decide +kernel
  have hlater : ((fun _ => ()) <$> ofValue laterDocument) = .error undeclaredError := by decide +kernel
  have herror := map_eq_error_iff.1 hundeclared
  exact ⟨herror, first_defect herror, map_eq_error_iff.1 hlater⟩

end Spec

end TapeMachine
