import TapeMachine.Proofs.Document.Forms

/-!
# What is read is the grammar

A value with plain keys is read if and only if it is a document of the grammar.  The keys of the table give
the states, and the keys of the synonyms give the names, which are the scope of every instruction: for the
definitions of the synonyms with the names barred, for the table with the names resolved.
-/

namespace TapeMachine

open Yaml (Value)

/-! ## Keys -/

theorem plainKeys_of_says {m : Mapping} (hm : (Value.mapping m).plainKeys = true) {name : String}
    {v : Value} (h : Says m name v) : v.plainKeys = true := by
  obtain ⟨key, hmem, -⟩ := h
  exact Value.plainKeys_of_mem hm hmem

theorem forall₂_hasText_keys_iff {m : Mapping} {names : List String} :
    List.Forall₂ Value.HasText (m.map Prod.fst) names ↔
      List.Forall₂ (fun e name => e.1.text? = some name) m names := by
  simp only [List.forall₂_map_left_iff, Value.hasText_iff]

theorem filterMap_text?_eq {m : Mapping} {names : List String}
    (h : List.Forall₂ (fun e name => e.1.text? = some name) m names) :
    m.filterMap (·.1.text?) = names := by
  induction h with
  | nil => rfl
  | cons hname _ ih => simp only [List.filterMap_cons, hname, ih]

/-! ## Synonyms -/

section Synonyms
variable {ι : Type} {g : Grammar ι} {states : List State} {type : MachineType} {m : Mapping}

theorem agree_resolved {names : List String} {bodies : Mapping} {xs : List (String × ι)}
    (h : List.Forall₂ (g.Defines states names) bodies xs) :
    Synonyms.Agree g ⟨states, xs.map Prod.fst, true⟩ (.resolved (Dict.ofList xs)) where
  fresh s hs := by
    have hnone : (Dict.ofList xs).get? s = none := by
      rw [Dict.get?_ofList, ← Option.not_isSome_iff_eq_none, Dict.lookup_isSome_iff, List.map_reverse,
        List.mem_reverse]
      exact hs
    exact Synonyms.body?_resolved_eq_ok_iff.2 hnone.symm
  used s hs _ := by
    have hsome : ((Dict.ofList xs).get? s).isSome := by
      rw [Dict.get?_ofList, Dict.lookup_isSome_iff, List.map_reverse, List.mem_reverse]
      exact hs
    obtain ⟨i, hi⟩ := Option.isSome_iff_exists.1 hsome
    refine ⟨i, Synonyms.body?_resolved_eq_ok_iff.2 hi.symm, ?_⟩
    rw [Dict.get?_ofList] at hi
    obtain ⟨e, -, -, he⟩ := exists_of_mem_right h (List.mem_reverse.1 (Dict.mem_of_lookup hi))
    exact (Grammar.instruction_eq_ok_iff.1 he).2
  barred _ _ h := nomatch h

theorem agree_nil : Synonyms.Agree g ⟨states, [], true⟩ (.resolved .empty) :=
  agree_resolved (show List.Forall₂ (g.Defines states []) [] [] from .nil)

variable (hform : ∀ names v, v.plainKeys = true →
  ((∃ i, g.instruction states (.unavailable names) v = .ok i) ↔ Form type ⟨states, names, false⟩ v))
  (hm : (Value.mapping m).plainKeys = true)

include hform hm

theorem synonymNames_of_ok {d : Dict String ι}
    (h : g.synonyms states (Spec.field? m "synonyms") = .ok d) :
    ∃ names, SynonymNames m type states names ∧
      Synonyms.Agree g ⟨states, names, true⟩ (.resolved d) := by
  have honce := once_of_plainKeys hm "synonyms" (by decide)
  rcases Grammar.synonyms_eq_ok_iff.1 h with ⟨hnone, rfl⟩ | ⟨bodies, xs, hsome, hxs, rfl⟩
  · exact ⟨[], .none (honce.field?_eq_none_iff.1 hnone), agree_nil⟩
  · obtain ⟨v, hv, hpresent⟩ := honce.field?_eq_some_iff.1 hsome
    obtain ⟨hmapping, -⟩ := Value.present?_eq_some_iff.1 hpresent
    have hnames : List.Forall₂ (fun e name => e.1.text? = some name) bodies (xs.map Prod.fst) :=
      List.forall₂_map_right_iff.2 (hxs.imp fun _ _ hx => hx.1)
    rw [filterMap_text?_eq hnames] at hxs
    refine ⟨xs.map Prod.fst, .mapping hv hmapping (forall₂_hasText_keys_iff.2 hnames) ?_,
      agree_resolved hxs⟩
    intro e he
    have hplain : (Value.mapping bodies).plainKeys = true := by
      rw [← hmapping, Value.plainKeys_untagged]
      exact plainKeys_of_says hm hv
    obtain ⟨x, -, -, hx⟩ := exists_of_mem_left hxs he
    exact (hform _ e.2 (Value.plainKeys_of_mem hplain he)).1 ⟨x.2, hx⟩

theorem ok_of_synonymNames {names : List String} (h : SynonymNames m type states names) :
    ∃ d, g.synonyms states (Spec.field? m "synonyms") = .ok d ∧
      Synonyms.Agree g ⟨states, names, true⟩ (.resolved d) := by
  have honce := once_of_plainKeys hm "synonyms" (by decide)
  cases h with
  | none hnull =>
    refine ⟨.empty, Grammar.synonyms_eq_ok_iff.2 (.inl ⟨?_, rfl⟩), agree_nil⟩
    exact honce.field?_eq_none_iff.2 hnull
  | @mapping v bodies _ hv hmapping hkeys hbodies =>
    have hplain : (Value.mapping bodies).plainKeys = true := by
      rw [← hmapping, Value.plainKeys_untagged]
      exact plainKeys_of_says hm hv
    have hnames := forall₂_hasText_keys_iff.1 hkeys
    have hread : ∀ e ∈ bodies, ∃ i, g.instruction states (.unavailable names) e.2 = .ok i := by
      intro e he
      exact (hform names e.2 (Value.plainKeys_of_mem hplain he)).2 (hbodies e he)
    obtain ⟨xs, hxs, rfl⟩ := exists_forall₂_and hnames hread
    have hdefines : List.Forall₂ (g.Defines states (bodies.filterMap (·.1.text?))) bodies xs := by
      rw [filterMap_text?_eq hnames]
      exact hxs
    have hfield : Spec.field? m "synonyms" = some (.mapping bodies) := by
      refine honce.field?_eq_some_iff.2 ⟨v, hv, Value.present?_eq_some_iff.2 ⟨hmapping, ?_⟩⟩
      exact Value.noConfusion
    exact ⟨_, Grammar.synonyms_eq_ok_iff.2 (.inr ⟨bodies, xs, hfield, hdefines, rfl⟩),
      agree_resolved hdefines⟩

end Synonyms

/-! ## Rows -/

variable {σ : Scope} {state : State} {v : Value}

namespace SingleTable

variable {syn : Dict String SingleInstruction}

theorem keySymbols?_eq_some_iff {key : Value} {cs : List Symbol} :
    keySymbols? key = some cs ↔ KeySymbols key cs := by
  have hsymbols : ∀ items : List Value, items.mapM Value.symbol? = some cs ↔
      List.Forall₂ (fun item c => item.HasText (String.singleton c)) items cs := by
    intro items
    simp only [mapM_eq_some_iff, Value.symbol?_eq_some_iff, Value.hasText_iff]
  have hone : key.untagged.symbol?.map ([·]) = some cs ↔
      ∃ c, key.HasText (String.singleton c) ∧ [c] = cs := by
    simp only [Option.map_eq_some_iff, Value.symbol?_eq_some_iff, Value.text?_untagged,
      Value.hasText_iff]
  unfold keySymbols?
  constructor
  · intro h
    split at h
    · rename_i item items hkey
      exact .sequence hkey (List.cons_ne_nil item items) ((hsymbols _).1 h)
    · obtain ⟨c, hc, rfl⟩ := hone.1 h
      exact .one hc
  · intro h
    rcases h with hc | ⟨hkey, hne, hcs⟩
    · split
      · rename_i item items hkey
        rw [← Value.hasText_untagged, hkey] at hc
        cases hc
      · exact hone.2 ⟨_, hc, rfl⟩
    · rename_i items
      match items, hne with
      | item :: items, _ =>
        rw [hkey]
        exact (hsymbols _).2 hcs

theorem map_fst_flatMap_spread (xs : List (List Symbol × SingleInstruction)) :
    (xs.flatMap spread).map Prod.fst = (xs.map Prod.fst).flatten := by
  induction xs with
  | nil => rfl
  | cons x xs ih =>
    have hfst : (spread x).map Prod.fst = x.1 := by
      rw [spread, List.map_map]
      exact List.map_id x.1
    rw [List.flatMap_cons, List.map_append, ih, hfst, List.map_cons, List.flatten_cons]

/-- The entries of a row are read if no symbol occurs twice and each of them has an instruction. -/
theorem exists_reads_iff (hsyn : Synonyms.Agree Grammar.single σ (.resolved syn)) {m : Mapping}
    (hm : (Value.mapping m).plainKeys = true) :
    (∃ xs, ∃ d : Dict Symbol SingleInstruction,
      List.Forall₂ (Reads σ.states syn) m xs ∧ d.entries = xs.flatMap spread) ↔
      RowKeys .oneTape (m.map Prod.fst) ∧ ∀ e ∈ m, SingleForm σ e.2 := by
  have hform : ∀ e ∈ m, (∃ i, Grammar.single.instruction σ.states (.resolved syn) e.2 = .ok i) ↔
      SingleForm σ e.2 := fun e he =>
    SingleInstruction.exists_instruction_iff hsyn (Value.plainKeys_of_mem hm he)
  simp only [RowKeys, List.forall₂_map_left_iff, ← keySymbols?_eq_some_iff]
  constructor
  · rintro ⟨xs, d, hxs, hd⟩
    refine ⟨⟨xs.map Prod.fst, ?_, ?_⟩, fun e he => ?_⟩
    · exact List.forall₂_map_right_iff.2 (hxs.imp fun _ _ hx => hx.1)
    · rw [← map_fst_flatMap_spread, ← hd]
      exact d.nodup_keys
    · obtain ⟨x, -, -, hx⟩ := exists_of_mem_left hxs he
      exact (hform e he).1 ⟨x.2, hx⟩
  · rintro ⟨⟨css, hcss, hnodup⟩, hforms⟩
    obtain ⟨xs, hxs, rfl⟩ := exists_forall₂_and hcss fun e he => (hform e he).2 (hforms e he)
    rw [← map_fst_flatMap_spread] at hnodup
    exact ⟨xs, ⟨xs.flatMap spread, hnodup⟩, hxs, rfl⟩

theorem exists_row_iff (hsyn : Synonyms.Agree Grammar.single σ (.resolved syn))
    (hv : v.plainKeys = true) :
    (∃ r, row σ.states syn state v.untagged = .ok r) ↔ IsRow .oneTape σ v := by
  simp only [row_eq_ok_iff]
  constructor
  · intro h
    rcases h with ⟨r, ⟨hnull | hempty, -⟩ | ⟨m, xs, d, -, hm, hxs, hd, -⟩⟩
    · exact .inl hnull
    · exact .inr ⟨[], hempty, ⟨[], .nil, List.nodup_nil⟩, nofun⟩
    · rw [← Value.plainKeys_untagged, hm] at hv
      exact .inr ⟨m, hm, (exists_reads_iff hsyn hv).1 ⟨xs, d, hxs, hd⟩⟩
  · intro h
    rcases h with hnull | ⟨m, hm, hrow⟩
    · exact ⟨none, .inl ⟨.inl hnull, rfl⟩⟩
    · rw [← Value.plainKeys_untagged, hm] at hv
      obtain ⟨xs, d, hxs, hd⟩ := (exists_reads_iff hsyn hv).2 hrow
      by_cases hempty : m = []
      · exact ⟨none, .inl ⟨.inr (hempty ▸ hm), rfl⟩⟩
      · exact ⟨some d, .inr ⟨m, xs, d, hempty, hm, hxs, hd, rfl⟩⟩

end SingleTable

namespace MultiTable

variable {wildcard : Option Symbol} {syn : Dict String MultiInstruction}

theorem keyPattern?_eq_some_iff {key : Value} {p : Pattern} :
    keyPattern? 3 key = some p ↔ ∃ s : String, s.toList = p ∧ key.HasText s ∧ s.length = 3 := by
  simp only [keyPattern?, Option.filter_eq_some_iff, Option.map_eq_some_iff, beq_iff_eq,
    Value.hasText_iff]
  constructor
  · rintro ⟨⟨s, hs, rfl⟩, hlength⟩
    exact ⟨s, rfl, hs, hlength⟩
  · rintro ⟨s, rfl, hs, hlength⟩
    exact ⟨⟨s, hs, rfl⟩, hlength⟩

theorem rowKeys_iff {keys : List Value} :
    RowKeys .threeTape keys ↔
      ∃ ps : List Pattern, List.Forall₂ (fun key p => keyPattern? 3 key = some p) keys ps ∧ ps.Nodup := by
  simp only [RowKeys, keyPattern?_eq_some_iff]
  constructor
  · rintro ⟨ss, hss, hlength, hnodup⟩
    refine ⟨ss.map String.toList, List.forall₂_map_right_iff.2 ?_, ?_⟩
    · have hboth := (List.forall₂_and_left _ _).2 ⟨hlength, hss.flip⟩
      exact hboth.flip.imp fun _ s h => ⟨s, rfl, h.symm⟩
    · exact hnodup.map fun _ _ h => String.toList_inj.1 h
  · rintro ⟨ps, hps, hnodup⟩
    have hss : List.Forall₂ (fun s key => s.length = 3 ∧ Value.HasText key s)
        (ps.map String.ofList) keys := by
      refine List.forall₂_map_left_iff.2 (hps.flip.imp ?_)
      rintro _ _ ⟨s, rfl, htext, hlength⟩
      rw [String.ofList_toList]
      exact ⟨hlength, htext⟩
    obtain ⟨hlength, htext⟩ := (List.forall₂_and_left _ _).1 hss
    exact ⟨_, htext.flip, hlength, hnodup.map fun _ _ h => String.ofList_inj.1 h⟩

/-- The entries of a row are read if no pattern occurs twice and each of them has an instruction. -/
theorem exists_reads_iff (hsyn : Synonyms.Agree (Grammar.multi 3 wildcard) σ (.resolved syn))
    {m : Mapping} (hm : (Value.mapping m).plainKeys = true) :
    (∃ rules : List Rule, List.Forall₂ (Reads 3 wildcard σ.states syn) m rules ∧
      (rules.map Rule.pattern).Nodup) ↔
      RowKeys .threeTape (m.map Prod.fst) ∧ ∀ e ∈ m, MultiForm σ e.2 := by
  have hform : ∀ e ∈ m,
      (∃ i, (Grammar.multi 3 wildcard).instruction σ.states (.resolved syn) e.2 = .ok i) ↔
        MultiForm σ e.2 := fun e he =>
    MultiInstruction.exists_instruction_iff hsyn (Value.plainKeys_of_mem hm he)
  simp only [rowKeys_iff, List.forall₂_map_left_iff]
  constructor
  · rintro ⟨rules, hrules, hnodup⟩
    refine ⟨⟨rules.map Rule.pattern, ?_, hnodup⟩, fun e he => ?_⟩
    · exact List.forall₂_map_right_iff.2 (hrules.imp fun _ _ hr => hr.1)
    · obtain ⟨r, -, -, hr⟩ := exists_of_mem_left hrules he
      exact (hform e he).1 ⟨r.instruction, hr⟩
  · rintro ⟨⟨ps, hps, hnodup⟩, hforms⟩
    obtain ⟨xs, hxs, rfl⟩ := exists_forall₂_and hps fun e he => (hform e he).2 (hforms e he)
    refine ⟨xs.map fun x => ⟨x.1, x.2⟩, ?_, ?_⟩
    · exact List.forall₂_map_right_iff.2 (hxs.imp fun _ _ hx => hx)
    · rw [List.map_map]
      exact hnodup

theorem exists_row_iff (hsyn : Synonyms.Agree (Grammar.multi 3 wildcard) σ (.resolved syn))
    (hv : v.plainKeys = true) :
    (∃ r, row 3 wildcard σ.states syn state v.untagged = .ok r) ↔ IsRow .threeTape σ v := by
  simp only [row_eq_ok_iff]
  constructor
  · intro h
    rcases h with ⟨r, ⟨hnull | hempty, -⟩ | ⟨m, rules, -, hm, hrules, hnodup, -⟩⟩
    · exact .inl hnull
    · exact .inr ⟨[], hempty, ⟨[], .nil, nofun, List.nodup_nil⟩, nofun⟩
    · rw [← Value.plainKeys_untagged, hm] at hv
      exact .inr ⟨m, hm, (exists_reads_iff hsyn hv).1 ⟨rules, hrules, hnodup⟩⟩
  · intro h
    rcases h with hnull | ⟨m, hm, hrow⟩
    · exact ⟨none, .inl ⟨.inl hnull, rfl⟩⟩
    · rw [← Value.plainKeys_untagged, hm] at hv
      obtain ⟨rules, hrules, hnodup⟩ := (exists_reads_iff hsyn hv).2 hrow
      by_cases hempty : m = []
      · exact ⟨none, .inl ⟨.inr (hempty ▸ hm), rfl⟩⟩
      · exact ⟨some rules, .inr ⟨m, rules, hempty, hm, hrules, hnodup, rfl⟩⟩

end MultiTable

/-! ## Tables -/

/-- An entry of the table and what is kept of it: the state, and its row without tags. -/
def Enters (e : Value × Value) (x : State × Value) : Prop :=
  e.1.text? = some x.1 ∧ x.2 = e.2.untagged

theorem hasText_keys_of_enters {rows : Mapping} {xs : List (State × Value)} (h : List.Forall₂ Enters rows xs) :
    List.Forall₂ Value.HasText (rows.map Prod.fst) (xs.map Prod.fst) :=
  forall₂_hasText_keys_iff.2 (List.forall₂_map_right_iff.2 (h.imp fun _ _ hx => hx.1))

theorem exists_enters {rows : Mapping} {states : List State}
    (h : List.Forall₂ Value.HasText (rows.map Prod.fst) states) :
    ∃ xs, List.Forall₂ Enters rows xs ∧ xs.map Prod.fst = states := by
  obtain ⟨xs, hxs, hfst⟩ := exists_forall₂_and (S := fun e v => v = e.2.untagged)
    (forall₂_hasText_keys_iff.1 h) fun e _ => ⟨e.2.untagged, rfl⟩
  exact ⟨xs, hxs, hfst⟩

section Tables
variable {type : MachineType} {m rows : Mapping} {entries : Dict State Value}
  (hm : (Value.mapping m).plainKeys = true) (hrows : (Value.mapping rows).plainKeys = true)
  (hentries : List.Forall₂ Enters rows entries.entries)

include hm hrows hentries

theorem exists_rows_iff {ι β : Type} {g : Grammar ι}
    {f : Dict String ι → State → Value → Except SpecError β}
    (hform : ∀ names v, v.plainKeys = true →
      ((∃ i, g.instruction entries.keys (.unavailable names) v = .ok i) ↔
        Form type ⟨entries.keys, names, false⟩ v))
    (hrow : ∀ syn names, Synonyms.Agree g ⟨entries.keys, names, true⟩ (.resolved syn) →
      ∀ state v, v.plainKeys = true → ((∃ r, f syn state v.untagged = .ok r) ↔
        IsRow type ⟨entries.keys, names, true⟩ v)) :
    (∃ syn, g.synonyms entries.keys (Spec.field? m "synonyms") = .ok syn ∧
      ∃ d, entries.traverse (f syn) = .ok d) ↔
      ∃ names, SynonymNames m type entries.keys names ∧
        ∀ e ∈ rows, IsRow type ⟨entries.keys, names, true⟩ e.2 := by
  have hall : ∀ syn names, Synonyms.Agree g ⟨entries.keys, names, true⟩ (.resolved syn) →
      ((∃ d, entries.traverse (f syn) = .ok d) ↔
        ∀ e ∈ rows, IsRow type ⟨entries.keys, names, true⟩ e.2) := by
    intro syn names hagree
    rw [Dict.exists_traverse_iff]
    constructor
    · intro h e he
      obtain ⟨x, hx, -, hv⟩ := exists_of_mem_left hentries he
      exact (hrow syn names hagree x.1 e.2 (Value.plainKeys_of_mem hrows he)).1 (hv ▸ h x hx)
    · intro h x hx
      obtain ⟨e, he, -, hv⟩ := exists_of_mem_right hentries hx
      rw [hv]
      exact (hrow syn names hagree x.1 e.2 (Value.plainKeys_of_mem hrows he)).2 (h e he)
  constructor
  · rintro ⟨syn, hsyn, hd⟩
    obtain ⟨names, hnames, hagree⟩ := synonymNames_of_ok hform hm hsyn
    exact ⟨names, hnames, (hall syn names hagree).1 hd⟩
  · rintro ⟨names, hnames, hd⟩
    obtain ⟨syn, hsyn, hagree⟩ := ok_of_synonymNames hform hm hnames
    exact ⟨syn, hsyn, (hall syn names hagree).2 hd⟩

theorem exists_tableOf_iff {wild : Option Symbol} :
    (∃ t, Spec.tableOf type wild (Spec.field? m "synonyms") entries = .ok t) ↔
      ∃ names, SynonymNames m type entries.keys names ∧
        ∀ e ∈ rows, IsRow type ⟨entries.keys, names, true⟩ e.2 := by
  simp only [Spec.tableOf_eq_ok_iff]
  cases type with
  | oneTape =>
    have hform : ∀ names v, v.plainKeys = true →
        ((∃ i, Grammar.single.instruction entries.keys (.unavailable names) v = .ok i) ↔
          Form .oneTape ⟨entries.keys, names, false⟩ v) := fun names v hv =>
      SingleInstruction.exists_instruction_iff (σ := ⟨entries.keys, names, false⟩)
        (Synonyms.agree_unavailable entries.keys names) hv
    have hrow : ∀ syn names, Synonyms.Agree Grammar.single ⟨entries.keys, names, true⟩ (.resolved syn) →
        ∀ state v, v.plainKeys = true →
          ((∃ r, SingleTable.row entries.keys syn state v.untagged = .ok r) ↔
            IsRow .oneTape ⟨entries.keys, names, true⟩ v) := fun _ names hagree _ _ hv =>
      SingleTable.exists_row_iff (σ := ⟨entries.keys, names, true⟩) hagree hv
    rw [← exists_rows_iff hm hrows hentries hform hrow]
    simp only [SingleTable.ofEntries_eq_ok_iff]
    constructor
    · rintro ⟨_, syn, t, hsyn, ht, rfl⟩
      exact ⟨syn, hsyn, t.states, ht⟩
    · rintro ⟨syn, hsyn, d, hd⟩
      exact ⟨_, syn, ⟨d⟩, hsyn, hd, rfl⟩
  | threeTape =>
    have hform : ∀ names v, v.plainKeys = true →
        ((∃ i, (Grammar.multi 3 wild).instruction entries.keys (.unavailable names) v = .ok i) ↔
          Form .threeTape ⟨entries.keys, names, false⟩ v) := fun names v hv =>
      MultiInstruction.exists_instruction_iff (σ := ⟨entries.keys, names, false⟩)
        (Synonyms.agree_unavailable entries.keys names) hv
    have hrow : ∀ syn names,
        Synonyms.Agree (Grammar.multi 3 wild) ⟨entries.keys, names, true⟩ (.resolved syn) →
        ∀ state v, v.plainKeys = true →
          ((∃ r, MultiTable.row 3 wild entries.keys syn state v.untagged = .ok r) ↔
            IsRow .threeTape ⟨entries.keys, names, true⟩ v) := fun _ names hagree _ _ hv =>
      MultiTable.exists_row_iff (σ := ⟨entries.keys, names, true⟩) hagree hv
    rw [← exists_rows_iff hm hrows hentries hform hrow]
    simp only [MultiTable.ofEntries_eq_ok_iff]
    constructor
    · rintro ⟨_, syn, t, hsyn, ⟨-, -, ht⟩, rfl⟩
      exact ⟨syn, hsyn, t.states, ht⟩
    · rintro ⟨syn, hsyn, d, hd⟩
      exact ⟨_, syn, ⟨3, wild, d⟩, hsyn, ⟨rfl, rfl, hd⟩, rfl⟩

end Tables

/-! ## Fields -/

namespace Spec

variable {m : Mapping} {name : String}

theorem exists_blankOf_iff (h : Once m name) :
    (∃ c, blankOf (field? m name) = .ok c) ↔ Requires m name Value.IsSymbol := by
  rw [h.requires_iff (fun v ⟨_, hc⟩ => hc.not_isNull) fun v => isSymbol_untagged]
  simp only [blankOf_eq_ok_iff, Value.isSymbol_iff]
  exact ⟨fun ⟨c, v, hv, hc⟩ => ⟨v, hv, c, hc⟩, fun ⟨v, hv, c, hc⟩ => ⟨c, v, hv, hc⟩⟩

theorem exists_wildOf_iff (h : Once m name) :
    (∃ w, wildOf (field? m name) = .ok w) ↔ Permits m name Value.IsSymbol := by
  rw [h.permits_iff fun v => isSymbol_untagged]
  simp only [wildOf_eq_ok_iff, exists_map_eq_iff, Value.isSymbol_iff]

theorem exists_inputOf_iff (h : Once m name) :
    (∃ i, inputOf (field? m name) = .ok i) ↔ Permits m name fun v => ∃ s, v.HasText s := by
  rw [h.permits_iff fun v => exists_congr fun _ => Value.hasText_untagged]
  simp only [inputOf_eq_ok_iff, exists_map_eq_iff, Value.hasText_iff]

theorem machineTypeOf_iff (h : Once m name) {type : MachineType} :
    machineTypeOf (field? m name) = .ok type ↔
      match type with
      | .oneTape => Permits m name (Value.HasText · "1tape")
      | .threeTape => Requires m name (Value.HasText · "3tape") := by
  rw [machineTypeOf_eq_ok_iff]
  cases type with
  | oneTape =>
    dsimp only
    rw [h.permits_iff fun v => Value.hasText_untagged]
    simp only [Value.hasText_iff]
    cases field? m name <;> simp [MachineType.default, MachineType.name]
  | threeTape =>
    dsimp only
    rw [h.requires_iff (fun v hv => hv.not_isNull) fun v => Value.hasText_untagged]
    simp only [Value.hasText_iff]
    cases field? m name <;> simp [MachineType.default, MachineType.name]

theorem exists_startOf_iff (h : Once m name) {states : List State} :
    (∃ q, startOf (field? m name) = .ok q ∧ q ∈ states) ↔
      Requires m name fun v => ∃ q ∈ states, q ≠ "" ∧ v.HasText q := by
  rw [h.requires_iff (fun v ⟨_, _, _, hq⟩ => hq.not_isNull)
    fun v => exists_congr fun q => and_congr_right fun _ => and_congr_right fun _ =>
      Value.hasText_untagged]
  simp only [startOf_eq_ok_iff, Value.hasText_iff]
  constructor
  · rintro ⟨q, ⟨v, hv, htext, hne⟩, hq⟩
    exact ⟨v, hv, q, hq, hne, htext⟩
  · rintro ⟨v, hv, q, hq, hne, htext⟩
    exact ⟨q, ⟨v, hv, htext, hne⟩, hq⟩

theorem stateEntries_iff (h : Once m name) {entries : Dict State Value} :
    stateEntries (field? m name) = .ok entries ↔
      ∃ rows, Requires m name (fun v => v.untagged = .mapping rows) ∧
        List.Forall₂ Enters rows entries.entries := by
  rw [stateEntries_eq_ok_iff]
  refine exists_congr fun rows => and_congr_left' ?_
  rw [h.requires_iff (fun v hv hnull => Value.noConfusion (hv.symm.trans hnull))
    fun v => by rw [Value.untagged_untagged]]
  constructor
  · intro hfield
    exact ⟨_, hfield, rfl⟩
  · rintro ⟨v, hv, hmapping⟩
    obtain ⟨x, -, hx⟩ := h.field?_eq_some_iff.1 hv
    rwa [hv, ← Value.untagged_of_present? hx, Option.some.injEq]

theorem exists_ofMapping_iff (hm : (Value.mapping m).plainKeys = true) :
    (∃ s, ofMapping m = .ok s) ↔
      ∃ type rows states synonyms, Describes m type rows states synonyms := by
  have honce : ∀ name ∈ reserved, Once m name := once_of_plainKeys hm
  have hblank := exists_blankOf_iff (honce "blank" (by decide))
  have hwild := exists_wildOf_iff (honce "wild" (by decide))
  have hinput := exists_inputOf_iff (honce "input" (by decide))
  have htype := honce "type" (by decide)
  have hstart := honce "start state" (by decide)
  have htable := honce "table" (by decide)
  have hrows : ∀ {rows}, Requires m "table" (fun v => v.untagged = .mapping rows) →
      (Value.mapping rows).plainKeys = true := by
    rintro rows ⟨v, hv, hmapping⟩
    rw [← hmapping, Value.plainKeys_untagged]
    exact plainKeys_of_says hm hv
  simp only [ofMapping_eq_ok_iff]
  constructor
  · rintro ⟨s, hb, hw, hq, ht, ⟨entries, he, htab, hmem⟩, hi, -⟩
    obtain ⟨rows, hrow, hentries⟩ := (stateEntries_iff htable).1 he
    obtain ⟨names, hnames, hall⟩ := (exists_tableOf_iff hm (hrows hrow) hentries).1 ⟨_, htab⟩
    refine ⟨s.machineType, rows, entries.keys, names, ?_⟩
    exact {
      blank := hblank.1 ⟨_, hb⟩
      wild := hwild.1 ⟨_, hw⟩
      typed := (machineTypeOf_iff htype).1 ht
      input := hinput.1 ⟨_, hi⟩
      table := hrow
      keys := hasText_keys_of_enters hentries
      distinct := entries.nodup_keys
      start := (exists_startOf_iff hstart).1 ⟨_, hq, hmem⟩
      names := hnames
      entries := hall }
  · rintro ⟨type, rows, states, names, h⟩
    obtain ⟨b, hb⟩ := hblank.2 h.blank
    obtain ⟨w, hw⟩ := hwild.2 h.wild
    obtain ⟨i, hi⟩ := hinput.2 h.input
    obtain ⟨q, hq, hmem⟩ := (exists_startOf_iff hstart).2 h.start
    obtain ⟨entries, hentries, rfl⟩ : ∃ entries : Dict State Value,
        List.Forall₂ Enters rows entries.entries ∧ entries.keys = states := by
      obtain ⟨xs, hxs, rfl⟩ := exists_enters h.keys
      exact ⟨⟨xs, h.distinct⟩, hxs, rfl⟩
    obtain ⟨t, ht⟩ := (exists_tableOf_iff hm (hrows h.table) hentries).2 ⟨names, h.names, h.entries⟩
    exact ⟨⟨_, type, b, w, q, i, t⟩, hb, hw, hq, (machineTypeOf_iff htype).2 h.typed,
      ⟨entries, (stateEntries_iff htable).2 ⟨rows, h.table, hentries⟩, ht, hmem⟩, hi, rfl⟩

theorem exists_ofValue_iff_of_plainKeys {v : Value} (hv : v.plainKeys = true) :
    (∃ s, ofValue v = .ok s) ↔ IsDocument v := by
  rw [← Value.plainKeys_untagged] at hv
  simp only [ofValue_eq_ok_iff, IsDocument]
  constructor
  · rintro ⟨s, m, hm, hs⟩
    rw [hm] at hv
    obtain ⟨type, rows, states, synonyms, h⟩ := (exists_ofMapping_iff hv).1 ⟨s, hs⟩
    exact ⟨m, type, rows, states, synonyms, hm, h⟩
  · rintro ⟨m, type, rows, states, synonyms, hm, h⟩
    rw [hm] at hv
    obtain ⟨s, hs⟩ := (exists_ofMapping_iff hv).2 ⟨type, rows, states, synonyms, h⟩
    exact ⟨s, m, hm, hs⟩

/-- Of a text only the tags of its keys are in question: no key of it is there twice. -/
theorem exists_parse_iff {text : String} {v : Value} (hread : Yaml.read text.toList = .ok v)
    (huntagged : v.untaggedKeys = true) :
    (∃ s, parse text = .ok s) ↔ isBlankText text.toList = false ∧ IsDocument v := by
  have hv := Value.plainKeys_iff.2 ⟨huntagged, Yaml.distinctKeys_of_read hread⟩
  simp only [parse_eq_ok_iff, hread, Except.ok.injEq, exists_eq_left', exists_and_left,
    exists_ofValue_iff_of_plainKeys hv]

/-- A value whose keys have no tags, and are different from each other as those of a mapping are, is read if
and only if it is a document. -/
theorem exists_ofValue_iff {v : Value} (huntagged : v.untaggedKeys = true)
    (hdistinct : v.distinctKeys = true) : (∃ s, ofValue v = .ok s) ↔ IsDocument v :=
  exists_ofValue_iff_of_plainKeys (Value.plainKeys_iff.2 ⟨huntagged, hdistinct⟩)

/-- A document for three tapes in which numbers, a truth value and a tag stand for texts. -/
def coerced : Value := .mapping [
  (.string "blank", .string "_"),
  (.string "type", .tagged "!type" (.string "3tape")),
  (.string "start state", .number (.integer 1)),
  (.string "synonyms", .mapping [(.bool true, .mapping [(.string "next", .number (.integer 1))])]),
  (.string "table", .mapping [(.number (.integer 1), .mapping [
    (.string "0__", .string "true"),
    (.number (.integer 111), .string "RRS")])])]

theorem isDocument_coerced :
    coerced.untaggedKeys = true ∧ coerced.distinctKeys = true ∧ IsDocument coerced := by
  have huntagged : coerced.untaggedKeys = true := by decide
  have hdistinct : coerced.distinctKeys = true := by decide
  have hread : (ofValue coerced).toOption.isSome = true := by decide +kernel
  obtain ⟨s, hs⟩ : ∃ s, ofValue coerced = .ok s := by
    cases h : ofValue coerced with
    | error e =>
      rw [h] at hread
      cases hread
    | ok s => exact ⟨s, rfl⟩
  exact ⟨huntagged, hdistinct, (exists_ofValue_iff huntagged hdistinct).1 ⟨s, hs⟩⟩

end Spec

end TapeMachine
