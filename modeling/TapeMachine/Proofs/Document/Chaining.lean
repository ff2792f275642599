import TapeMachine.Proofs.Document.Defects
import TapeMachine.Proofs.Document.Inlining

/-!
# Synonyms that name synonyms

While synonyms are being defined none of them can be used, and where the definition of one is the name of another the
error tells that this is not possible.  For one tape it tells this of such definitions only.  For three tapes it tells
it also of a text that is the name of no synonym, unless the text has three letters, which are looked at one by one.
-/

namespace TapeMachine

open Yaml (Value)

open SpecError (Plain OfPart OfSynonym chainingHint synonymError_eq)

/-! ## Instructions -/

/-- While synonyms with the given names are being defined, a text is taken for one of them if it has the name, and for
several tapes also if it does not have one letter for each tape. -/
def TakenForName (type : MachineType) (names : List String) (s : String) : Prop :=
  type.isMovement s = false ∧ (s ∈ names ∨ type = .threeTape ∧ s.length ≠ 3)

namespace Grammar

variable {ι : Type} {g : Grammar ι} {type : MachineType} {states : List State} {names : List String} {v : Value}

/-- Nothing but a text that is taken for a name is answered in the way that calls for the hint. -/
structure Hints (g : Grammar ι) (type : MachineType) : Prop where
  taken {names : List String} {s : String} : TakenForName type names s →
    g.ofString (.unavailable names) s = .error (unrecognizedString s)
  other {names : List String} {s : String} : ¬ TakenForName type names s →
    FailsWith OfPart (g.ofString (.unavailable names) s)
  ofMapping (m : Mapping) : FailsWith OfPart (g.ofMapping m)
  forms : some g.forms ≠ some chainingHint

theorem hints_single : single.Hints .oneTape where
  taken {names s} h := by
    obtain ⟨hmove, hname | ⟨htype, -⟩⟩ := h
    · have hnone : direction? s = none := by simpa [MachineType.isMovement] using hmove
      show SingleInstruction.ofString _ s = _
      rw [SingleInstruction.ofString, hnone]
      simp only [Synonyms.body?, List.contains_iff_mem, hname, if_true]
      rfl
    · cases htype
  other {names s} h := by
    show FailsWith OfPart (SingleInstruction.ofString _ s)
    unfold SingleInstruction.ofString
    split
    · trivial
    · rename_i hnone
      have hname : s ∉ names := fun hname => h ⟨by simp [MachineType.isMovement, hnone], .inl hname⟩
      simp only [Synonyms.body?, List.contains_iff_mem, hname, if_false]
      trivial
  ofMapping := SingleInstruction.failsWith_ofMapping
  forms := by decide +kernel

theorem exists_directions?_of_badLetter? {s : String} (h : MultiInstruction.badLetter? s.toList = none) :
    ∃ ds, directions? s = some ds := by
  simp only [directions?, mapM_eq_some_iff, exists_forall₂_iff, ← Option.isSome_iff_exists]
  intro c hc
  obtain ⟨i, hi⟩ := List.mem_iff_getElem?.1 hc
  have hall := List.find?_eq_none.1 h (c, i) (List.mk_mem_zipIdx_iff_getElem?.2 hi)
  simpa [Option.isSome_iff_ne_none] using hall

theorem moves_eq_none_iff {s : String} :
    (if s.length = 3 then directions? s else none) = none ↔ MachineType.threeTape.isMovement s = false := by
  by_cases hlength : s.length = 3
  · simp [MachineType.isMovement, hlength]
  · simp [MachineType.isMovement, hlength]

theorem hints_multi (wildcard : Option Symbol) : (multi 3 wildcard).Hints .threeTape where
  taken {names s} h := by
    obtain ⟨hmove, hname⟩ := h
    show MultiInstruction.ofString 3 _ s = _
    rw [MultiInstruction.ofString, moves_eq_none_iff.2 hmove]
    by_cases hmem : s ∈ names
    · simp only [Synonyms.body?, List.contains_iff_mem, hmem, if_true]
      rfl
    · have hlength : s.length ≠ 3 := (hname.resolve_left hmem).2
      simp only [Synonyms.body?, List.contains_iff_mem, hmem, if_false, if_neg hlength]
      rfl
  other {names s} h := by
    show FailsWith OfPart (MultiInstruction.ofString 3 _ s)
    unfold MultiInstruction.ofString
    split
    · trivial
    · rename_i hnone
      have hmove := moves_eq_none_iff.1 hnone
      have hmem : s ∉ names := fun hmem => h ⟨hmove, .inl hmem⟩
      have hlength : s.length = 3 := by
        by_contra hlength
        exact h ⟨hmove, .inr ⟨rfl, hlength⟩⟩
      rw [if_pos hlength] at hnone ⊢
      simp only [Synonyms.body?, List.contains_iff_mem, hmem, if_false]
      cases hbad : MultiInstruction.badLetter? s.toList with
      | some bad => exact failsWith_throw (MultiInstruction.ofPart_invalidMove nofun nofun nofun)
      | none =>
        obtain ⟨ds, hds⟩ := exists_directions?_of_badLetter? hbad
        rw [hnone] at hds
        cases hds
  ofMapping := MultiInstruction.failsWith_ofMapping 3 wildcard
  forms := by
    show some (multi 3 none).forms ≠ some chainingHint
    decide +kernel

/-- A definition is refused with the answer that calls for the hint if it is a text that is taken for a name, and else
with another answer, which does not give the hint either. -/
theorem unavailable_eq_error (hg : g.Hints type) {e : SpecError}
    (h : g.instruction states (.unavailable names) v = .error e) :
    (∃ s, v.untagged = .string s ∧ TakenForName type names s ∧ e = unrecognizedString s) ∨
      (∀ s, v.untagged = .string s → ¬ TakenForName type names s) ∧ e.reason ≠ .unrecognizedString ∧
        e.info ≠ some chainingHint := by
  rcases bind_eq_error_iff.1 h with h | ⟨i, hi, h⟩
  · unfold form at h
    split at h
    · rename_i s hs
      by_cases htaken : TakenForName type names s
      · exact .inl ⟨s, hs, htaken, Except.error.inj (h.symm.trans (hg.taken htaken))⟩
      · have hpart := failsWith_iff.1 (hg.other htaken) e h
        refine .inr ⟨fun s' hs' => ?_, hpart.recognized, hpart.info⟩
        cases hs.symm.trans hs'
        exact htaken
    · rename_i m hm
      have hpart := failsWith_iff.1 (hg.ofMapping m) e h
      exact .inr ⟨fun s hs => (nomatch hm.symm.trans hs), hpart.recognized, hpart.info⟩
    · rename_i hnull
      cases h
      exact .inr ⟨fun s hs => (nomatch hnull.symm.trans hs), nofun, nofun⟩
    · rename_i hstring _ _
      cases h
      exact .inr ⟨fun s hs => absurd hs (hstring s), nofun, hg.forms⟩
  · have hundeclared : ∃ q, undeclaredState q = e := by
      unfold checked at h
      split at h
      · cases h
      · rename_i q _
        split at h
        · cases h
        · exact ⟨q, Except.error.inj h⟩
    obtain ⟨q, rfl⟩ := hundeclared
    refine .inr ⟨fun s hs htaken => ?_, nofun, nofun⟩
    rw [form, hs] at hi
    cases (hg.taken htaken).symm.trans hi

theorem info_synonymError_iff {name : String} {e : SpecError} :
    (synonymError name e).info = some chainingHint ↔ e.reason = .unrecognizedString ∨ e.info = some chainingHint := by
  unfold synonymError
  by_cases hreason : e.reason = .unrecognizedString
  · rw [if_pos hreason]
    exact ⟨fun _ => .inl hreason, fun _ => rfl⟩
  · rw [if_neg hreason]
    exact ⟨.inr, fun h => h.resolve_left hreason⟩

theorem exists_foldlM_addSynonym_iff {m : Mapping} {d : Dict String ι} :
    (∃ d', m.foldlM (g.addSynonym states names) d = .ok d') ↔ ∀ y ∈ m, ∃ x, g.Defines states names y x := by
  induction m generalizing d with
  | nil => exact ⟨fun _ _ hy => (nomatch hy), fun _ => ⟨d, rfl⟩⟩
  | cons y m ih =>
    simp only [List.foldlM_cons, bind_eq_ok_iff, addSynonym_eq_ok_iff, List.forall_mem_cons]
    constructor
    · rintro ⟨d', _, ⟨x, hx, rfl⟩, hm⟩
      exact ⟨⟨x, hx⟩, ih.1 ⟨d', hm⟩⟩
    · rintro ⟨⟨x, hx⟩, hm⟩
      obtain ⟨d', hd'⟩ := (ih (d := d.insert x.1 x.2)).2 hm
      exact ⟨d', _, ⟨x, hx, rfl⟩, hd'⟩

theorem addSynonym_eq_error_naming_iff {entry : Value × Value} {d : Dict String ι} {name : String} {e : SpecError} :
    (g.addSynonym states names d entry = .error e ∧ e.synonym = some name) ↔
      entry.1.HasText name ∧
        ∃ e', g.instruction states (.unavailable names) entry.2 = .error e' ∧ synonymError name e' = e := by
  rw [addSynonym_eq_error_iff, Value.hasText_iff]
  constructor
  · rintro ⟨h | ⟨name', htext, e', he', rfl⟩, hname⟩
    · have hplain := failsWith_iff.1 (failsWith_synonymName entry.1) e h
      cases hplain.synonym.symm.trans hname
    · cases (synonymError_eq name' e').2.2.2.1.symm.trans hname
      exact ⟨htext, e', he', rfl⟩
  · rintro ⟨htext, e', he', rfl⟩
    exact ⟨.inr ⟨name, htext, e', he', rfl⟩, (synonymError_eq name e').2.2.2.1⟩

theorem synonyms_eq_error_iff {m : Mapping} {name : String} {e : SpecError} :
    (g.synonyms states (some (.mapping m)) = .error e ∧ e.synonym = some name) ↔
      ∃ before key body after e', m = before ++ (key, body) :: after ∧ key.HasText name ∧
        (∀ y ∈ before, ∃ x, g.Defines states (m.filterMap (·.1.text?)) y x) ∧
        g.instruction states (.unavailable (m.filterMap (·.1.text?))) body = .error e' ∧ synonymError name e' = e := by
  rw [synonyms]
  constructor
  · rintro ⟨h, hname⟩
    obtain ⟨before, ⟨key, body⟩, after, d, hm, hbefore, hadd⟩ := foldlM_eq_error_iff.1 h
    obtain ⟨htext, e', he', he⟩ := addSynonym_eq_error_naming_iff.1 ⟨hadd, hname⟩
    exact ⟨before, key, body, after, e', hm, htext, exists_foldlM_addSynonym_iff.1 ⟨d, hbefore⟩, he', he⟩
  · rintro ⟨before, key, body, after, e', hm, htext, hbefore, he', he⟩
    obtain ⟨d, hd⟩ := (exists_foldlM_addSynonym_iff (d := .empty)).2 hbefore
    have hadd : g.addSynonym states _ d (key, body) = .error e ∧ e.synonym = some name :=
      addSynonym_eq_error_naming_iff.2 ⟨htext, e', he', he⟩
    obtain ⟨hadd, hname⟩ := hadd
    exact ⟨foldlM_eq_error_iff.2 ⟨before, (key, body), after, d, hm, hd, hadd⟩, hname⟩

end Grammar

/-! ## Tables -/

/-- The first entry that is refused, given how definitions are read, and the error of its body. -/
def FirstRefused (read : Value → Except SpecError Instruction) (synonyms : Mapping) (name : String) (body : Value)
    (e : SpecError) : Prop :=
  ∃ before key after, synonyms = before ++ (key, body) :: after ∧ key.HasText name ∧
    (∀ y ∈ before, (∃ n, y.1.HasText n) ∧ ∃ i, read y.2 = .ok i) ∧ read body = .error e

section
variable {ι β : Type} {r : RowReader ι β} {entries : Dict State Value} {name : String} {e : SpecError}

/-- In a table only the definitions of synonyms have errors that name a synonym. -/
theorem RowReader.rows_eq_error_iff (hr : r.Sound) {v? : Option Value} :
    (r.rows v? entries = .error e ∧ e.synonym = some name) ↔
      r.grammar.synonyms entries.keys v? = .error e ∧ e.synonym = some name := by
  refine and_congr_left fun hname => ?_
  rw [rows, bind_eq_error_iff]
  refine or_iff_left ?_
  rintro ⟨syn, -, herror⟩
  obtain ⟨_, x, _, -, -, hrow⟩ := Dict.traverse_eq_error_iff.1 herror
  cases (failsWith_iff.1 (hr.row _ _ x.1 x.2) e hrow).synonym.symm.trans hname

theorem RowReader.rows_eq_error_iff_firstRefused (hr : r.Sound) {synonyms : Mapping} (f : ι → Instruction) :
    (r.rows (some (.mapping synonyms)) entries = .error e ∧ e.synonym = some name) ↔
      ∃ body e', FirstRefused (fun v => f <$> r.grammar.instruction entries.keys
        (.unavailable (synonyms.filterMap (·.1.text?))) v) synonyms name body e' ∧
          Grammar.synonymError name e' = e := by
  rw [rows_eq_error_iff hr, Grammar.synonyms_eq_error_iff]
  have hdefines : ∀ y, (∃ x, r.grammar.Defines entries.keys (synonyms.filterMap (·.1.text?)) y x) ↔
      (∃ n, y.1.HasText n) ∧ ∃ i, f <$> r.grammar.instruction entries.keys
        (.unavailable (synonyms.filterMap (·.1.text?))) y.2 = .ok i := by
    intro y
    simp only [Grammar.Defines, Value.hasText_iff, map_eq_ok_iff]
    constructor
    · rintro ⟨x, htext, hi⟩
      exact ⟨⟨x.1, htext⟩, _, x.2, hi, rfl⟩
    · rintro ⟨⟨n, htext⟩, _, i, hi, -⟩
      exact ⟨(n, i), htext, hi⟩
  simp only [FirstRefused, hdefines, map_eq_error_iff]
  constructor
  · rintro ⟨before, key, body, after, e', hm, htext, hbefore, he', he⟩
    exact ⟨body, e', ⟨before, key, after, hm, htext, hbefore, he'⟩, he⟩
  · rintro ⟨body, e', ⟨before, key, after, hm, htext, hbefore, he'⟩, he⟩
    exact ⟨before, key, body, after, e', hm, htext, hbefore, he', he⟩

end

/-! ## Documents -/

namespace Spec

variable {v body : Value} {m synonyms : Mapping} {wild : Option Symbol} {type : MachineType} {states : List State}
  {names : List String} {name : String} {entries : Dict State Value} {e : SpecError}

/-- The definition of a synonym, as it is read where the synonyms have the given names. -/
def readBody (type : MachineType) (wild : Option Symbol) (states : List State) (names : List String) (v : Value) :
    Except SpecError Instruction :=
  match type with
  | .oneTape => .single <$> Grammar.single.instruction states (.unavailable names) v
  | .threeTape => .multi <$> (Grammar.multi 3 wild).instruction states (.unavailable names) v

/-- The document is refused for the body of a synonym, which has the given error: what is read before it is read, and
it is no instruction. -/
def RefusedFor (v : Value) (type : MachineType) (synonyms : Mapping) (name : String) (body : Value) (e : SpecError) :
    Prop :=
  ∃ m wild entries, v.untagged = .mapping m ∧ Heads m wild type entries ∧
    Field m "synonyms" (some (.mapping synonyms)) ∧
    FirstRefused (readBody type wild entries.keys (synonyms.filterMap (·.1.text?))) synonyms name body e

theorem readBody_eq_error (h : readBody type wild states names body = .error e) :
    (∃ s, body.untagged = .string s ∧ TakenForName type names s ∧ e = unrecognizedString s) ∨
      (∀ s, body.untagged = .string s → ¬ TakenForName type names s) ∧ e.reason ≠ .unrecognizedString ∧
        e.info ≠ some chainingHint := by
  cases type with
  | oneTape => exact Grammar.unavailable_eq_error Grammar.hints_single (map_eq_error_iff.1 h)
  | threeTape => exact Grammar.unavailable_eq_error (Grammar.hints_multi wild) (map_eq_error_iff.1 h)

theorem tableOf_eq_error_iff :
    (tableOf type wild (some (.mapping synonyms)) entries = .error e ∧ e.synonym = some name) ↔
      ∃ body e', FirstRefused (readBody type wild entries.keys (synonyms.filterMap (·.1.text?))) synonyms name body e' ∧
        Grammar.synonymError name e' = e := by
  cases type with
  | oneTape =>
    rw [tableOf_oneTape_eq_error_iff]
    exact RowReader.rows_eq_error_iff_firstRefused RowReader.sound_single .single
  | threeTape =>
    rw [tableOf_threeTape_eq_error_iff]
    exact RowReader.rows_eq_error_iff_firstRefused (RowReader.sound_multi 3 wild) .multi

/-- An error names a synonym if and only if the document is refused for the body of this synonym. -/
theorem ofValue_eq_error_iff :
    (ofValue v = .error e ∧ e.synonym = some name) ↔
      ∃ type synonyms body e', RefusedFor v type synonyms name body e' ∧ Grammar.synonymError name e' = e := by
  constructor
  · rintro ⟨h, hname⟩
    rcases ofValue_eq_error h with ⟨-, -, hnone, -⟩ | ⟨m, hm, h⟩
    · cases hnone.symm.trans hname
    · have hplain : ¬ Plain e := fun he => nomatch he.synonym.symm.trans hname
      obtain ⟨wild, type, entries, hheads, htable⟩ := (plain_or_tableOf h).resolve_left hplain
      obtain ⟨before, key, x, after, hfield, -⟩ := tableOf_stops_synonym htable hname
      rw [hfield] at htable
      obtain ⟨body, e', hfirst, he⟩ := tableOf_eq_error_iff.1 ⟨htable, hname⟩
      exact ⟨type, _, body, e', ⟨m, wild, entries, hm, hheads, field?_eq_some_iff.1 hfield, hfirst⟩, he⟩
  · rintro ⟨type, synonyms, body, e', ⟨m, wild, entries, hm, hheads, hfield, hfirst⟩, he⟩
    obtain ⟨htable, hname⟩ := tableOf_eq_error_iff.2 ⟨body, e', hfirst, he⟩
    rw [← field?_eq_some_iff.2 hfield] at htable
    exact ⟨(ofValue_of_untagged hm).trans (ofMapping_of_tableOf hheads htable), hname⟩

theorem mem_names_iff {s : String} : s ∈ synonyms.filterMap (·.1.text?) ↔ ∃ u, Says synonyms s u := by
  simp only [List.mem_filterMap, Says, ← Value.hasText_iff]
  constructor
  · rintro ⟨⟨key, u⟩, hmem, htext⟩
    exact ⟨u, key, hmem, htext⟩
  · rintro ⟨u, key, hmem, htext⟩
    exact ⟨(key, u), hmem, htext⟩

/-- A document that is refused for the body of a synonym is told that no synonym can be defined by another one if and
only if the body is a text, and not movements, that is the name of a synonym; or, for three tapes, that does not have
three letters.  In both cases the error has this text.  An error names a synonym only if the document is refused for
its body. -/
theorem hint_of_refusedFor (v : Value) :
    (∀ type synonyms name body e', RefusedFor v type synonyms name body e' → ∃ e,
      ofValue v = .error e ∧ e.synonym = some name ∧
      (e.info = some chainingHint ↔ ∃ s, body.untagged = .string s ∧ type.isMovement s = false ∧
        ((∃ u, Says synonyms s u) ∨ type = .threeTape ∧ s.length ≠ 3)) ∧
      ∀ s, body.untagged = .string s → e.info = some chainingHint →
        e.reason = .unrecognizedString ∧ e.problem = some s) ∧
    ∀ e name, ofValue v = .error e → e.synonym = some name →
      ∃ type synonyms body e', RefusedFor v type synonyms name body e' := by
  constructor
  · intro type synonyms name body e' h
    obtain ⟨herror, hname⟩ := ofValue_eq_error_iff.2 ⟨type, synonyms, body, e', h, rfl⟩
    obtain ⟨m, wild, entries, -, -, -, _, _, _, -, -, -, hbody⟩ := h
    obtain ⟨hreason, -, -, -, hproblem⟩ := synonymError_eq name e'
    have htaken : ∀ s, TakenForName type (synonyms.filterMap (·.1.text?)) s ↔
        type.isMovement s = false ∧ ((∃ u, Says synonyms s u) ∨ type = .threeTape ∧ s.length ≠ 3) := fun s => by
      rw [TakenForName, mem_names_iff]
    simp only [← htaken]
    refine ⟨_, herror, hname, ?_⟩
    rw [Grammar.info_synonymError_iff]
    rcases readBody_eq_error hbody with ⟨s, hs, hnamed, rfl⟩ | ⟨hnot, hother, hinfo⟩
    · refine ⟨⟨fun _ => ⟨s, hs, hnamed⟩, fun _ => .inl rfl⟩, fun s' hs' _ => ⟨hreason, ?_⟩⟩
      cases hs.symm.trans hs'
      exact hproblem
    · have hsilent : ¬ (e'.reason = .unrecognizedString ∨ e'.info = some chainingHint) := not_or.2 ⟨hother, hinfo⟩
      exact ⟨⟨fun h => absurd h hsilent, fun ⟨s, hs, hnamed⟩ => absurd hnamed (hnot s hs)⟩,
        fun _ _ h => absurd h hsilent⟩
  · intro e name h hname
    obtain ⟨type, synonyms, body, e', h, -⟩ := ofValue_eq_error_iff.1 ⟨h, hname⟩
    exact ⟨type, synonyms, body, e', h⟩

/-- The fields of a document for three tapes, of which one is the start and has no row. -/
def fieldsWith (synonyms : Mapping) : Mapping := [
  (.string "blank", .string "_"),
  (.string "start state", .string "a"),
  (.string "type", .string "3tape"),
  (.string "synonyms", .mapping synonyms),
  (.string "table", .mapping [(.string "a", .null)])]

theorem heads_fieldsWith (synonyms : Mapping) :
    Heads (fieldsWith synonyms) none .threeTape ⟨[("a", .null)], by decide⟩ where
  blank := ⟨'_', rfl⟩
  wild := rfl
  start := ⟨"a", rfl⟩
  type := rfl
  entries := rfl

theorem field_fieldsWith (synonyms : Mapping) :
    Field (fieldsWith synonyms) "synonyms" (some (.mapping synonyms)) :=
  field?_eq_some_iff.1 rfl

/-- The second synonym is defined by the first, under a tag. -/
def chainedSynonyms : Mapping := [
  (.string "back", .string "LLL"),
  (.string "again", .tagged "!again" (.string "back"))]

theorem refusedFor_chainedSynonyms :
    RefusedFor (.mapping (fieldsWith chainedSynonyms)) .threeTape chainedSynonyms "again"
      (.tagged "!again" (.string "back")) (unrecognizedString "back") := by
  refine ⟨_, none, _, rfl, heads_fieldsWith _, field_fieldsWith _, [_], .string "again", [], rfl, .string _, ?_, rfl⟩
  exact List.forall_mem_singleton.2 ⟨⟨"back", .string _⟩, _, rfl⟩

theorem hint_of_refusedFor_chainedSynonyms :
    ∃ e, ofValue (.mapping (fieldsWith chainedSynonyms)) = .error e ∧ e.synonym = some "again" ∧
      e.info = some chainingHint ∧ e.reason = .unrecognizedString ∧ e.problem = some "back" := by
  obtain ⟨e, herror, hname, hhint, htext⟩ :=
    (hint_of_refusedFor (.mapping (fieldsWith chainedSynonyms))).1 _ _ _ _ _ refusedFor_chainedSynonyms
  have hinfo : e.info = some chainingHint :=
    hhint.2 ⟨"back", rfl, by decide, .inl ⟨_, .string "back", List.mem_cons_self, .string _⟩⟩
  exact ⟨e, herror, hname, hinfo, htext "back" rfl hinfo⟩

/-- The only synonym is defined by a text with two letters. -/
def straySynonyms : Mapping := [(.string "go", .string "RR")]

theorem refusedFor_straySynonyms :
    RefusedFor (.mapping (fieldsWith straySynonyms)) .threeTape straySynonyms "go" (.string "RR")
      (unrecognizedString "RR") :=
  ⟨_, none, _, rfl, heads_fieldsWith _, field_fieldsWith _, [], .string "go", [], rfl, .string _, nofun, rfl⟩

/-- The hint is also given where no synonym is named. -/
theorem not_forall_hint_iff_named :
    ¬ ∀ (v : Value) (type : MachineType) (synonyms : Mapping) (name : String) (body : Value) (e' e : SpecError),
      RefusedFor v type synonyms name body e' → ofValue v = .error e → e.synonym = some name →
        (e.info = some chainingHint ↔
          ∃ s, body.untagged = .string s ∧ type.isMovement s = false ∧ ∃ u, Says synonyms s u) := by
  intro h
  obtain ⟨herror, hname⟩ := ofValue_eq_error_iff.2 ⟨_, _, _, _, refusedFor_straySynonyms, rfl⟩
  obtain ⟨s, hs, -, u, key, hmem, htext⟩ := (h _ _ _ _ _ _ _ refusedFor_straySynonyms herror hname).1 rfl
  obtain rfl : "RR" = s := Value.string.inj hs
  obtain rfl : key = .string "go" := (Prod.mk.inj (List.mem_singleton.1 hmem)).1
  exact absurd (Value.hasText_iff.1 htext) (by decide)

end Spec

end TapeMachine
