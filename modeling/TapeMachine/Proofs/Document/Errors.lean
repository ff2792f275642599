import TapeMachine.Proofs.Document.Fields
import TapeMachine.Proofs.Failure

/-!
# What an error tells of its place

An error says in which synonym, state or transition it is, or none of these.  An instruction is read without knowing
where it stands, so its errors have no place; the place is added where a synonym is defined or a row is read.  An error
in a synonym names the synonym and no state; an error in a row names the state, and the symbol too if it is in an
instruction.  Only an instruction can lead to a state that is not declared.
-/

namespace TapeMachine

open Yaml (Value)

/-! ## Kinds of errors -/

namespace SpecError

/-- An error without a place; it is about something that the document says. -/
structure Unplaced (e : SpecError) : Prop where
  state : e.state = none
  symbol : e.symbol = none
  synonym : e.synonym = none
  content : e.reason ≠ .emptyDocument

/-- An error that is not about a next state. -/
structure Plain (e : SpecError) : Prop extends Unplaced e where
  declared : e.reason ≠ .undeclaredState

/-- What is told of a synonym that is defined by another one. -/
def chainingHint : String := "Note that a synonym cannot be defined using another synonym"

/-- An error of a part of an instruction, which is not about a text that might be a synonym. -/
structure OfPart (e : SpecError) : Prop extends Plain e where
  recognized : e.reason ≠ .unrecognizedString
  info : e.info ≠ some chainingHint

/-- An error of an instruction where the given states are declared. -/
structure OfInstruction (states : List State) (e : SpecError) : Prop extends Unplaced e where
  undeclared : e.reason = .undeclaredState → ∃ q, q ∉ states ∧ e.problem = some q

/-- An error in the definition of a synonym. -/
inductive OfSynonym (states : List State) (name : String) : SpecError → Prop
  | mk {e : SpecError} : OfInstruction states e → OfSynonym states name (Grammar.synonymError name e)

/-- An error in the row of a state. -/
inductive OfRow (states : List State) (state : State) : SpecError → Prop
  | row {e : SpecError} : Plain e → OfRow states state (e.inState state)
  | transition {e : SpecError} (symbol : String) : OfInstruction states e →
      OfRow states state (e.inTransition state symbol)

variable {states : List State} {e : SpecError}

theorem plain_mk {reason : Reason} {problem info suggestion : Option String} (hcontent : reason ≠ .emptyDocument)
    (hdeclared : reason ≠ .undeclaredState) : Plain { reason, problem, info, suggestion } :=
  ⟨⟨rfl, rfl, rfl, hcontent⟩, hdeclared⟩

theorem ofPart_mk {reason : Reason} {problem info suggestion : Option String} (hcontent : reason ≠ .emptyDocument)
    (hdeclared : reason ≠ .undeclaredState) (hrecognized : reason ≠ .unrecognizedString)
    (hinfo : info ≠ some chainingHint) : OfPart { reason, problem, info, suggestion } :=
  ⟨plain_mk hcontent hdeclared, hrecognized, hinfo⟩

theorem head?_toList_append {s t u : String} {c : Char} (hs : s.toList.head? = some c) :
    (s ++ t ++ u).toList.head? = some c := by
  rw [String.toList_append, String.toList_append, List.append_assoc, List.head?_append, hs]
  rfl

theorem ne_chainingHint {s : String} {c : Char} (hs : s.toList.head? = some c) (hc : c ≠ 'N') :
    some s ≠ some chainingHint := by
  intro h
  rw [Option.some.inj h] at hs
  exact hc (Option.some.inj hs).symm

theorem Plain.ofInstruction (h : Plain e) : OfInstruction states e :=
  ⟨h.toUnplaced, fun hreason => absurd hreason h.declared⟩

theorem synonymError_eq (name : String) (e : SpecError) :
    (Grammar.synonymError name e).reason = e.reason ∧ (Grammar.synonymError name e).state = e.state ∧
      (Grammar.synonymError name e).symbol = e.symbol ∧ (Grammar.synonymError name e).synonym = some name ∧
      (Grammar.synonymError name e).problem = e.problem := by
  unfold Grammar.synonymError
  by_cases hreason : e.reason = .unrecognizedString
  · rw [if_pos hreason]
    exact ⟨rfl, rfl, rfl, rfl, rfl⟩
  · rw [if_neg hreason]
    exact ⟨rfl, rfl, rfl, rfl, rfl⟩

theorem OfSynonym.synonym {name : String} (h : OfSynonym states name e) : e.synonym = some name := by
  cases h with
  | mk he => exact (synonymError_eq name _).2.2.2.1

theorem OfSynonym.unplaced {name : String} (h : OfSynonym states name e) : e.state = none ∧ e.symbol = none := by
  cases h with
  | mk he =>
    obtain ⟨-, hstate, hsymbol, -, -⟩ := synonymError_eq name _
    exact ⟨hstate.trans he.state, hsymbol.trans he.symbol⟩

theorem OfRow.state {state : State} (h : OfRow states state e) : e.state = some state := by
  cases h <;> rfl

theorem OfRow.synonym {state : State} (h : OfRow states state e) : e.synonym = none := by
  cases h with
  | row he => exact he.synonym
  | transition symbol he => exact he.synonym

/-- An error of a table with the given states, or of its synonyms. -/
inductive OfTable (states : List State) (e : SpecError) : Prop
  | plain : Plain e → OfTable states e
  | synonym {name : String} : OfSynonym states name e → OfTable states e
  | row {state : State} : OfRow states state e → OfTable states e

theorem OfTable.content (h : OfTable states e) : e.reason ≠ .emptyDocument := by
  cases h with
  | plain he => exact he.content
  | synonym he =>
    cases he with
    | @mk e' he =>
      rw [(synonymError_eq _ e').1]
      exact he.content
  | row he =>
    cases he with
    | row he => exact he.content
    | transition symbol he => exact he.content

/-- A symbol is named together with its state, and no synonym together with a state. -/
theorem OfTable.place (h : OfTable states e) :
    (e.synonym = none ∨ e.state = none) ∧ (e.state = none → e.symbol = none) := by
  cases h with
  | plain he => exact ⟨.inl he.synonym, fun _ => he.symbol⟩
  | synonym he => exact ⟨.inr he.unplaced.1, fun _ => he.unplaced.2⟩
  | row he =>
    refine ⟨.inl he.synonym, fun hstate => ?_⟩
    rw [he.state] at hstate
    cases hstate

theorem OfTable.undeclared (h : OfTable states e) (hreason : e.reason = .undeclaredState) :
    (∃ q, q ∉ states ∧ e.problem = some q) ∧ (e.state ≠ none ∧ e.symbol ≠ none ∨ e.synonym ≠ none) := by
  cases h with
  | plain he => exact absurd hreason he.declared
  | synonym he =>
    refine ⟨?_, .inr (by simp [he.synonym])⟩
    cases he with
    | mk he =>
      obtain ⟨hsame, -, -, -, hproblem⟩ := synonymError_eq _ _
      rw [hproblem]
      exact he.undeclared (hsame.symm.trans hreason)
  | row he =>
    cases he with
    | row he => exact absurd hreason he.declared
    | transition symbol he => exact ⟨he.undeclared hreason, .inl ⟨nofun, nofun⟩⟩

end SpecError

open SpecError (Plain OfPart OfInstruction OfSynonym OfRow OfTable plain_mk ofPart_mk ne_chainingHint
  head?_toList_append)

/-! ## Instructions -/

variable {ι : Type}

theorem failsWith_body? (syn : Synonyms ι) (name : String) : FailsWith Plain (syn.body? name) := by
  unfold Synonyms.body?
  split
  · split
    · exact failsWith_error (plain_mk nofun nofun)
    · trivial
  · trivial

theorem failsWith_nextState (v : Value) : FailsWith OfPart (nextState v) := by
  unfold nextState
  split
  · trivial
  · split
    · trivial
    · exact failsWith_error (ofPart_mk nofun nofun nofun nofun)

theorem failsWith_instructionKey (key : Value) : FailsWith OfPart (instructionKey key) := by
  unfold instructionKey
  split
  · trivial
  · exact failsWith_error (ofPart_mk nofun nofun nofun nofun)

namespace SingleInstruction

theorem failsWith_ofString (syn : Synonyms SingleInstruction) (s : String) :
    FailsWith Plain (ofString syn s) := by
  unfold ofString
  split
  · trivial
  · refine (failsWith_body? syn s).bind fun body? => ?_
    split <;> trivial

theorem failsWith_ofEntry (entry : Value × Value) : FailsWith OfPart (Part.ofEntry entry) := by
  refine (failsWith_instructionKey entry.1).bind fun key => ?_
  split
  · trivial
  · split
    · trivial
    · exact failsWith_throw (ofPart_mk nofun nofun nofun (by decide))

theorem failsWith_writeOf (v : Value) : FailsWith OfPart (writeOf v) := by
  unfold writeOf
  split
  · trivial
  · split
    · trivial
    · exact failsWith_error (ofPart_mk nofun nofun nofun (by decide))

theorem failsWith_ofMapping (m : Mapping) : FailsWith OfPart (ofMapping m) := by
  refine (failsWith_mapM failsWith_ofEntry m).bind fun parts => ?_
  split
  · exact failsWith_throw (ofPart_mk nofun nofun nofun (by decide))
  · exact (failsWith_writeOf _).bind fun write => (failsWith_nextState _).bind fun next => trivial
  · exact failsWith_throw (ofPart_mk nofun nofun nofun (by decide))

end SingleInstruction

namespace MultiInstruction

variable (tapes : Nat) (wildcard : Option Symbol)

theorem ofPart_invalidMove {reason : Reason} {tape : Nat} {letter : Char} (hcontent : reason ≠ .emptyDocument)
    (hdeclared : reason ≠ .undeclaredState) (hrecognized : reason ≠ .unrecognizedString) :
    OfPart (invalidMove reason tape letter) :=
  ofPart_mk hcontent hdeclared hrecognized (ne_chainingHint (head?_toList_append (c := 'T') rfl) (by decide))

theorem failsWith_ofString (syn : Synonyms MultiInstruction) (s : String) :
    FailsWith Plain (ofString tapes syn s) := by
  unfold ofString
  split
  · trivial
  · refine (failsWith_body? syn s).bind fun body? => ?_
    split
    · trivial
    · split
      · exact failsWith_throw (plain_mk nofun nofun)
      · exact failsWith_throw (plain_mk nofun nofun)

theorem failsWith_writeOf (v : Value) : FailsWith OfPart (writeOf tapes wildcard v) := by
  unfold writeOf
  split
  · trivial
  · exact failsWith_error (ofPart_mk nofun nofun nofun (ne_chainingHint (head?_toList_append (c := 'E') rfl) (by decide)))

theorem failsWith_movesOf (v : Value) : FailsWith OfPart (movesOf tapes v) := by
  unfold movesOf
  split
  · refine failsWith_mapM (fun (c, tape) => ?_) _
    dsimp only
    split
    · trivial
    · exact failsWith_error (ofPart_invalidMove nofun nofun nofun)
  · exact failsWith_error (ofPart_mk nofun nofun nofun (ne_chainingHint (head?_toList_append (c := 'E') rfl) (by decide)))

theorem failsWith_addEntry (i : MultiInstruction) (entry : Value × Value) :
    FailsWith OfPart (addEntry tapes wildcard i entry) := by
  refine (failsWith_instructionKey entry.1).bind fun key => ?_
  dsimp only
  split
  · exact failsWith_throw (ofPart_mk nofun nofun nofun (by decide))
  · split
    · trivial
    · split
      · exact (failsWith_writeOf tapes wildcard _).bind fun _ => trivial
      · split
        · exact (failsWith_movesOf tapes _).bind fun _ => trivial
        · exact (failsWith_nextState _).bind fun _ => trivial

theorem failsWith_ofMapping (m : Mapping) : FailsWith OfPart (ofMapping tapes wildcard m) :=
  failsWith_foldlM (failsWith_addEntry tapes wildcard) m _

end MultiInstruction

namespace Grammar

/-- What the grammar itself finds wrong has no place and is not about a next state. -/
structure Sound (g : Grammar ι) : Prop where
  ofString : ∀ syn s, FailsWith Plain (g.ofString syn s)
  ofMapping : ∀ m, FailsWith OfPart (g.ofMapping m)

theorem sound_single : single.Sound :=
  ⟨SingleInstruction.failsWith_ofString, SingleInstruction.failsWith_ofMapping⟩

theorem sound_multi (tapes : Nat) (wildcard : Option Symbol) : (multi tapes wildcard).Sound :=
  ⟨MultiInstruction.failsWith_ofString tapes, MultiInstruction.failsWith_ofMapping tapes wildcard⟩

variable {g : Grammar ι}

theorem failsWith_instruction (hg : g.Sound) (states : List State) (syn : Synonyms ι) (v : Value) :
    FailsWith (OfInstruction states) (g.instruction states syn v) := by
  have hform : FailsWith Plain (g.form syn v) := by
    unfold form
    split
    · exact hg.ofString _ _
    · exact (hg.ofMapping _).mono fun _ he => he.toPlain
    · exact failsWith_error (plain_mk nofun nofun)
    · exact failsWith_error (plain_mk nofun nofun)
  refine (hform.mono fun _ he => he.ofInstruction).bind fun i => ?_
  unfold checked
  split
  · trivial
  · rename_i q _
    by_cases hq : q ∈ states
    · rw [if_pos hq]
      trivial
    · rw [if_neg hq]
      exact failsWith_error ⟨⟨rfl, rfl, rfl, nofun⟩, fun _ => ⟨q, hq, rfl⟩⟩

theorem failsWith_synonymName (key : Value) : FailsWith Plain (synonymName key) := by
  unfold synonymName
  split
  · trivial
  · exact failsWith_error (plain_mk nofun nofun)

theorem addSynonym_eq_error_iff {states : List State} {names : List String} {d : Dict String ι} {entry : Value × Value}
    {e : SpecError} :
    g.addSynonym states names d entry = .error e ↔ synonymName entry.1 = .error e ∨
      ∃ name, entry.1.text? = some name ∧
        ∃ e', g.instruction states (.unavailable names) entry.2 = .error e' ∧ synonymError name e' = e := by
  simp only [addSynonym, bind_eq_error_iff, synonymName_eq_ok_iff, mapError_eq_error_iff, pure_ne_error, and_false,
    exists_false, or_false]

theorem addSynonym_eq_error {states : List State} {names : List String} {d : Dict String ι} {entry : Value × Value}
    {e : SpecError} (hg : g.Sound) (h : g.addSynonym states names d entry = .error e) :
    Plain e ∨ ∃ name, entry.1.text? = some name ∧ OfSynonym states name e := by
  rcases addSynonym_eq_error_iff.1 h with h | ⟨name, hname, e', he', rfl⟩
  · exact .inl (failsWith_iff.1 (failsWith_synonymName entry.1) e h)
  · exact .inr ⟨name, hname, .mk (failsWith_iff.1 (failsWith_instruction hg states _ entry.2) e' he')⟩

theorem failsWith_synonyms (hg : g.Sound) (states : List State) (v? : Option Value) :
    FailsWith (OfTable states) (g.synonyms states v?) := by
  have hadd : ∀ names d entry, FailsWith (OfTable states) (g.addSynonym states names d entry) := by
    refine fun names d entry => failsWith_iff.2 fun e he => ?_
    rcases addSynonym_eq_error hg he with he | ⟨name, -, he⟩
    · exact .plain he
    · exact .synonym he
  unfold synonyms
  split
  · trivial
  · exact failsWith_foldlM (hadd _) _ _
  · exact failsWith_error (.plain (plain_mk nofun nofun))

end Grammar

/-! ## Tables -/

theorem failsWith_stateEntries (v? : Option Value) : FailsWith Plain (stateEntries v?) := by
  have hadd : ∀ d entry, FailsWith Plain (addState d entry) := by
    intro d entry
    unfold addState
    split
    · exact failsWith_error (plain_mk nofun nofun)
    · split
      · trivial
      · exact failsWith_error (plain_mk nofun nofun)
  unfold stateEntries
  split
  · exact failsWith_error (plain_mk nofun nofun)
  · exact failsWith_foldlM hadd _ _
  · exact failsWith_error (plain_mk nofun nofun)

variable {states : List State} {state : State}

theorem failsWith_row? (v : Value) : FailsWith (OfRow states state) (row? state v) := by
  unfold row?
  split
  · trivial
  · trivial
  · trivial
  · exact failsWith_error (.row (plain_mk nofun nofun))

namespace SingleTable

variable {syn : Dict String SingleInstruction}

theorem failsWith_addEntry (row : Dict Symbol SingleInstruction) (entry : Value × Value) :
    FailsWith (OfRow states state) (addEntry states syn state row entry) := by
  have hkeys : FailsWith Plain (keySymbols entry.1) := by
    unfold keySymbols
    split
    · trivial
    · exact failsWith_error (plain_mk nofun nofun)
  have hsymbol : ∀ i row c, FailsWith (OfRow states state) (addSymbol state i row c) := by
    intro i row c
    unfold addSymbol
    split
    · trivial
    · exact failsWith_error (.row (plain_mk nofun nofun))
  refine FailsWith.bind ?_ fun symbols => FailsWith.bind ?_ fun i => failsWith_foldlM (hsymbol i) symbols row
  · exact hkeys.mapError fun _ he => .transition _ he.ofInstruction
  · exact (Grammar.failsWith_instruction Grammar.sound_single _ _ entry.2).mapError fun _ he => .transition _ he

theorem failsWith_row (v : Value) : FailsWith (OfRow states state) (row states syn state v) := by
  refine (failsWith_row? v).bind fun m? => ?_
  split
  · trivial
  · exact (failsWith_foldlM failsWith_addEntry _ _).bind fun _ => trivial

end SingleTable

namespace MultiTable

variable {tapes : Nat} {wildcard : Option Symbol} {syn : Dict String MultiInstruction}

theorem failsWith_addEntry (rules : List Rule) (entry : Value × Value) :
    FailsWith (OfRow states state) (addEntry tapes wildcard states syn state rules entry) := by
  unfold addEntry
  split
  · exact failsWith_throw (.row (plain_mk nofun nofun))
  · split
    · exact failsWith_throw (.row (plain_mk nofun nofun))
    · refine FailsWith.bind ?_ fun _ => trivial
      exact (Grammar.failsWith_instruction (Grammar.sound_multi tapes wildcard) _ _ entry.2).mapError
        fun _ he => .transition _ he

theorem failsWith_row (v : Value) : FailsWith (OfRow states state) (row tapes wildcard states syn state v) := by
  refine (failsWith_row? v).bind fun m? => ?_
  split
  · trivial
  · exact (failsWith_foldlM failsWith_addEntry _ _).bind fun _ => trivial

end MultiTable

/-! ## Synonyms and rows

The table is read in the same way for one tape and for several: first the synonyms, then one row after the other.
-/

/-- How the rows of a kind of table are read. -/
structure RowReader (ι β : Type) where
  grammar : Grammar ι
  row : List State → Dict String ι → State → Value → Except SpecError β

namespace RowReader

variable {β : Type}

def rows (r : RowReader ι β) (synonyms : Option Value) (entries : Dict State Value) :
    Except SpecError (Dict State β) := do
  let syn ← r.grammar.synonyms entries.keys synonyms
  entries.traverse (r.row entries.keys syn)

/-- The errors of rows have a place, and there are a row and a definition of a synonym without an error. -/
structure Sound (r : RowReader ι β) : Prop where
  grammar : r.grammar.Sound
  row : ∀ states syn state v, FailsWith (OfRow states state) (r.row states syn state v)
  null : ∀ states syn state, ∃ y, r.row states syn state .null = .ok y
  body : ∃ v, ∀ states names, ∃ i, r.grammar.instruction states (.unavailable names) v = .ok i

def single : RowReader SingleInstruction (Option (Dict Symbol SingleInstruction)) where
  grammar := .single
  row := SingleTable.row

def multi (tapes : Nat) (wildcard : Option Symbol) : RowReader MultiInstruction (Option (List Rule)) where
  grammar := .multi tapes wildcard
  row := MultiTable.row tapes wildcard

theorem sound_single : single.Sound where
  grammar := Grammar.sound_single
  row _ _ _ := SingleTable.failsWith_row
  null _ _ _ := ⟨none, rfl⟩
  body := ⟨.string "L", fun _ _ => ⟨⟨none, .left, none⟩, rfl⟩⟩

theorem sound_multi (tapes : Nat) (wildcard : Option Symbol) : (multi tapes wildcard).Sound where
  grammar := Grammar.sound_multi tapes wildcard
  row _ _ _ := MultiTable.failsWith_row
  null _ _ _ := ⟨none, rfl⟩
  body := ⟨.mapping [], fun _ _ => ⟨⟨none, none, none⟩, rfl⟩⟩

theorem failsWith_rows {r : RowReader ι β} (hr : r.Sound) (synonyms : Option Value) (entries : Dict State Value) :
    FailsWith (OfTable entries.keys) (r.rows synonyms entries) := by
  refine (Grammar.failsWith_synonyms hr.grammar _ _).bind fun syn => ?_
  exact failsWith_traverse (fun state v => (hr.row _ syn state v).mono fun _ he => .row he) entries

end RowReader

section
variable {wild : Option Symbol} {synonyms : Option Value} {entries : Dict State Value} {e : SpecError}

theorem tableOf_oneTape_eq_error_iff :
    Spec.tableOf .oneTape wild synonyms entries = .error e ↔ RowReader.single.rows synonyms entries = .error e := by
  simp [Spec.tableOf, SingleTable.ofEntries, RowReader.rows, RowReader.single, bind_eq_error_iff, map_eq_error_iff]

theorem tableOf_threeTape_eq_error_iff :
    Spec.tableOf .threeTape wild synonyms entries = .error e ↔
      (RowReader.multi 3 wild).rows synonyms entries = .error e := by
  simp [Spec.tableOf, MultiTable.ofEntries, RowReader.rows, RowReader.multi, bind_eq_error_iff, map_eq_error_iff,
    MachineType.tapes]

end

theorem exists_rowReader (type : MachineType) (wild : Option Symbol) :
    ∃ (ι β : Type) (r : RowReader ι β), r.Sound ∧ ∀ synonyms entries e,
      Spec.tableOf type wild synonyms entries = .error e ↔ r.rows synonyms entries = .error e := by
  cases type with
  | oneTape => exact ⟨_, _, .single, RowReader.sound_single, fun _ _ _ => tableOf_oneTape_eq_error_iff⟩
  | threeTape => exact ⟨_, _, .multi 3 wild, RowReader.sound_multi 3 wild, fun _ _ _ => tableOf_threeTape_eq_error_iff⟩

theorem failsWith_tableOf (type : MachineType) (wild : Option Symbol) (synonyms : Option Value)
    (entries : Dict State Value) : FailsWith (OfTable entries.keys) (Spec.tableOf type wild synonyms entries) := by
  obtain ⟨ι, β, r, hr, hrows⟩ := exists_rowReader type wild
  refine failsWith_iff.2 fun e he => ?_
  exact failsWith_iff.1 (r.failsWith_rows hr synonyms entries) e ((hrows _ _ _).1 he)

/-! ## Fields -/

namespace Spec

theorem failsWith_blankOf (v? : Option Value) : FailsWith Plain (blankOf v?) := by
  unfold blankOf
  split
  · exact failsWith_error (plain_mk nofun nofun)
  · split
    · trivial
    · exact failsWith_error (plain_mk nofun nofun)

theorem failsWith_wildOf (v? : Option Value) : FailsWith Plain (wildOf v?) := by
  unfold wildOf
  split
  · trivial
  · split
    · trivial
    · exact failsWith_error (plain_mk nofun nofun)

theorem failsWith_startOf (v? : Option Value) : FailsWith Plain (startOf v?) := by
  unfold startOf
  split
  · trivial
  · exact failsWith_error (plain_mk nofun nofun)

theorem failsWith_machineTypeOf (v? : Option Value) : FailsWith Plain (machineTypeOf v?) := by
  unfold machineTypeOf
  split
  · trivial
  · split
    · trivial
    · exact failsWith_error (plain_mk nofun nofun)

theorem failsWith_inputOf (v? : Option Value) : FailsWith Plain (inputOf v?) := by
  unfold inputOf
  split
  · trivial
  · split
    · trivial
    · exact failsWith_error (plain_mk nofun nofun)

theorem failsWith_declaredStart (start : State) (entries : Dict State Value) :
    FailsWith Plain (declaredStart start entries) := by
  unfold declaredStart
  split
  · trivial
  · exact failsWith_error (plain_mk nofun nofun)

/-! ## Documents -/

variable {m : Mapping} {wild : Option Symbol} {type : MachineType} {entries : Dict State Value} {e : SpecError}

/-- The fields of a document that are read before its synonyms and its rows. -/
structure Heads (m : Mapping) (wild : Option Symbol) (type : MachineType) (entries : Dict State Value) : Prop where
  blank : ∃ blank, blankOf (field? m "blank") = .ok blank
  wild : wildOf (field? m "wild") = .ok wild
  start : ∃ start, startOf (field? m "start state") = .ok start
  type : machineTypeOf (field? m "type") = .ok type
  entries : stateEntries (field? m "table") = .ok entries

theorem ofMapping_of_tableOf (h : Heads m wild type entries)
    (herror : tableOf type wild (field? m "synonyms") entries = .error e) : ofMapping m = .error e := by
  obtain ⟨blank, hblank⟩ := h.blank
  obtain ⟨start, hstart⟩ := h.start
  rw [ofMapping, hblank, h.wild, hstart, h.type, h.entries]
  simp only [bind, Except.bind, herror]

/-- What is wrong after these fields is in the table or the synonyms, or has no place. -/
theorem plain_or_tableOf_of_heads (hheads : Heads m wild type entries) (h : ofMapping m = .error e) :
    Plain e ∨ tableOf type wild (field? m "synonyms") entries = .error e := by
  obtain ⟨blank, hblank⟩ := hheads.blank
  obtain ⟨start, hstart⟩ := hheads.start
  rw [ofMapping, hblank, hheads.wild, hstart, hheads.type, hheads.entries] at h
  replace h : (do
      let table ← tableOf type wild (field? m "synonyms") entries
      declaredStart start entries
      let input ← inputOf (field? m "input")
      return ⟨(field? m "name").bind Value.text?, type, blank, wild, start, input, table⟩ : Except SpecError Spec) =
    .error e := h
  rcases bind_eq_error_iff.1 h with h | ⟨table, -, h⟩
  · exact .inr h
  · refine .inl (failsWith_iff.1 ?_ e h)
    exact (failsWith_declaredStart start entries).bind fun _ => (failsWith_inputOf _).bind fun _ => trivial

theorem plain_or_tableOf (h : ofMapping m = .error e) :
    Plain e ∨ ∃ wild type entries, Heads m wild type entries ∧
      tableOf type wild (field? m "synonyms") entries = .error e := by
  rcases bind_eq_error_iff.1 h with h' | ⟨blank, hblank, h'⟩
  · exact .inl (failsWith_iff.1 (failsWith_blankOf _) e h')
  rcases bind_eq_error_iff.1 h' with h' | ⟨wild, hwild, h'⟩
  · exact .inl (failsWith_iff.1 (failsWith_wildOf _) e h')
  rcases bind_eq_error_iff.1 h' with h' | ⟨start, hstart, h'⟩
  · exact .inl (failsWith_iff.1 (failsWith_startOf _) e h')
  rcases bind_eq_error_iff.1 h' with h' | ⟨type, htype, h'⟩
  · exact .inl (failsWith_iff.1 (failsWith_machineTypeOf _) e h')
  rcases bind_eq_error_iff.1 h' with h' | ⟨entries, hentries, -⟩
  · exact .inl (failsWith_iff.1 (failsWith_stateEntries _) e h')
  have hheads : Heads m wild type entries := ⟨⟨blank, hblank⟩, hwild, ⟨start, hstart⟩, htype, hentries⟩
  exact (plain_or_tableOf_of_heads hheads h).imp_right fun h => ⟨wild, type, entries, hheads, h⟩

end Spec

end TapeMachine
