import Mathlib.Data.List.Nodup
import TapeMachine.Document.Rows
import TapeMachine.Proofs.Document.Instruction

/-!
# Which tables are read

For each part of a table, when it is read and with which result.  `Reads` relates an entry of a row to
what it stands for: symbols with an instruction, or a rule.
-/

namespace TapeMachine

open Yaml (Value)

/-! ## States -/

theorem addState_eq_ok_iff {d d' : Dict State Value} {e : Value × Value} :
    addState d e = .ok d' ↔
      ∃ x : State × Value, (e.1.text? = some x.1 ∧ x.2 = e.2.untagged) ∧
        d'.entries = d.entries ++ [x] := by
  unfold addState
  cases hk : e.1.text? with
  | none => simp
  | some s =>
    have hadd : (∃ x : State × Value, (some s = some x.1 ∧ x.2 = e.2.untagged) ∧
        d'.entries = d.entries ++ [x]) ↔ d.add? s e.2.untagged = some d' := by
      rw [Dict.add?_eq_some_iff_entries]
      constructor
      · rintro ⟨⟨s', v⟩, ⟨hs, rfl⟩, hd'⟩
        cases hs
        exact hd'
      · exact fun hd' => ⟨(s, e.2.untagged), ⟨rfl, rfl⟩, hd'⟩
    rw [hadd]
    dsimp only
    cases d.add? s e.2.untagged <;> simp

theorem stateEntries_eq_ok_iff {v? : Option Value} {d : Dict State Value} :
    stateEntries v? = .ok d ↔
      ∃ m, v? = some (.mapping m) ∧
        List.Forall₂ (fun e x => e.1.text? = some x.1 ∧ x.2 = e.2.untagged) m d.entries := by
  unfold stateEntries
  match v? with
  | none => simp
  | some v =>
    cases v with
    | mapping m =>
      have hfold : m.foldlM addState .empty = .ok d ↔ _ :=
        Dict.foldlM_eq_ok_iff (f := addState) fun _ _ _ => addState_eq_ok_iff
      simp only [hfold, Option.some.injEq, Value.mapping.injEq, exists_eq_left', Dict.entries_empty,
        List.nil_append, List.flatMap_singleton']
      exact ⟨fun ⟨xs, h, hd⟩ => hd ▸ h, fun h => ⟨_, h, rfl⟩⟩
    | _ => simp

theorem row?_eq_ok_iff {state : State} {v : Value} {r : Option Mapping} :
    row? state v = .ok r ↔
      (v = .null ∨ v = .mapping []) ∧ r = none ∨ ∃ m, m ≠ [] ∧ v = .mapping m ∧ r = some m := by
  unfold row?
  split
  · simp [eq_comm (a := r)]
  · simp [eq_comm (a := r)]
  · rename_i m hm
    simp [eq_comm (a := r)]
    grind
  · rename_i h₁ h₂ h₃
    simp
    grind

/-! ## One tape -/

namespace SingleTable

variable {states : List State} {syn : Dict String SingleInstruction} {state : State}

/-- An entry of a row stands for some symbols with one instruction. -/
def Reads (states : List State) (syn : Dict String SingleInstruction) (e : Value × Value)
    (x : List Symbol × SingleInstruction) : Prop :=
  keySymbols? e.1 = some x.1 ∧ Grammar.single.instruction states (.resolved syn) e.2 = .ok x.2

/-- The transitions that some symbols with one instruction stand for. -/
def spread (x : List Symbol × SingleInstruction) : List (Symbol × SingleInstruction) :=
  x.1.map (·, x.2)

theorem addSymbol_eq_ok_iff {i : SingleInstruction} {row row' : Dict Symbol SingleInstruction}
    {c : Symbol} :
    addSymbol state i row c = .ok row' ↔ row'.entries = row.entries ++ [(c, i)] := by
  rw [← Dict.add?_eq_some_iff_entries, addSymbol]
  cases row.add? c i <;> simp

theorem addEntry_eq_ok_iff {row row' : Dict Symbol SingleInstruction} {e : Value × Value} :
    addEntry states syn state row e = .ok row' ↔
      ∃ x, Reads states syn e x ∧ row'.entries = row.entries ++ spread x := by
  have hkeys : ∀ symbols, keySymbols e.1 = .ok symbols ↔ keySymbols? e.1 = some symbols := by
    intro symbols
    unfold keySymbols
    cases keySymbols? e.1 <;> simp
  have hfold : ∀ (symbols : List Symbol) (i : SingleInstruction),
      symbols.foldlM (addSymbol state i) row = .ok row' ↔
        row'.entries = row.entries ++ symbols.map (·, i) := by
    intro symbols i
    rw [Dict.foldlM_eq_ok_iff (f := addSymbol state i) (S := fun c x => (c, i) = x) (g := ([·]))
      (by simp [addSymbol_eq_ok_iff])]
    simp only [← List.forall₂_map_left_iff (f := (·, i)) (R := Eq), List.forall₂_eq_eq_eq,
      exists_eq_left', List.flatMap_singleton']
  simp only [addEntry, bind_eq_ok_iff, mapError_eq_ok_iff, hkeys, hfold, Reads]
  constructor
  · rintro ⟨symbols, hs, i, hi, h⟩
    exact ⟨(symbols, i), ⟨hs, hi⟩, h⟩
  · rintro ⟨⟨symbols, i⟩, ⟨hs, hi⟩, h⟩
    exact ⟨symbols, hs, i, hi, h⟩

theorem row_eq_ok_iff {v : Value} {r : Option (Dict Symbol SingleInstruction)} :
    row states syn state v = .ok r ↔
      (v = .null ∨ v = .mapping []) ∧ r = none ∨
      ∃ m xs d, m ≠ [] ∧ v = .mapping m ∧ List.Forall₂ (Reads states syn) m xs ∧
        d.entries = xs.flatMap spread ∧ r = some d := by
  have hfold : ∀ (m : Mapping) (d : Dict Symbol SingleInstruction),
      m.foldlM (addEntry states syn state) .empty = .ok d ↔
        ∃ xs, List.Forall₂ (Reads states syn) m xs ∧ d.entries = xs.flatMap spread := by
    intro m d
    rw [Dict.foldlM_eq_ok_iff (f := addEntry states syn state) fun _ _ _ => addEntry_eq_ok_iff]
    rfl
  simp only [row, bind_eq_ok_iff, row?_eq_ok_iff]
  constructor
  · intro h
    rcases h with ⟨_, ⟨hv, rfl⟩ | ⟨m, hm, hv, rfl⟩, h⟩
    · exact .inl ⟨hv, (pure_eq_ok_iff.1 h).symm⟩
    · simp only [bind_eq_ok_iff, pure_eq_ok_iff, hfold] at h
      obtain ⟨d, ⟨xs, hxs, hd⟩, rfl⟩ := h
      exact .inr ⟨m, xs, d, hm, hv, hxs, hd, rfl⟩
  · intro h
    rcases h with ⟨hv, rfl⟩ | ⟨m, xs, d, hm, hv, hxs, hd, rfl⟩
    · exact ⟨none, .inl ⟨hv, rfl⟩, pure_eq_ok_iff.2 rfl⟩
    · refine ⟨some m, .inr ⟨m, hm, hv, rfl⟩, ?_⟩
      simp only [bind_eq_ok_iff, pure_eq_ok_iff, hfold]
      exact ⟨d, ⟨xs, hxs, hd⟩, rfl⟩

theorem ofEntries_eq_ok_iff {entries : Dict State Value} {t : SingleTable} :
    ofEntries syn entries = .ok t ↔
      entries.traverse (row entries.keys syn) = .ok t.states := by
  simp only [ofEntries, bind_eq_ok_iff, pure_eq_ok_iff]
  exact ⟨fun ⟨d, hd, ht⟩ => ht ▸ hd, fun h => ⟨t.states, h, rfl⟩⟩

end SingleTable

/-! ## Several tapes -/

namespace MultiTable

variable {tapes : Nat} {wildcard : Option Symbol} {states : List State}
  {syn : Dict String MultiInstruction} {state : State}

/-- An entry of a row stands for a rule. -/
def Reads (tapes : Nat) (wildcard : Option Symbol) (states : List State)
    (syn : Dict String MultiInstruction) (e : Value × Value) (r : Rule) : Prop :=
  keyPattern? tapes e.1 = some r.pattern ∧
    (Grammar.multi tapes wildcard).instruction states (.resolved syn) e.2 = .ok r.instruction

theorem addEntry_eq_ok_iff {rules rules' : List Rule} {e : Value × Value} :
    addEntry tapes wildcard states syn state rules e = .ok rules' ↔
      ∃ r, Reads tapes wildcard states syn e r ∧ r.pattern ∉ rules.map Rule.pattern ∧
        rules' = rules ++ [r] := by
  unfold addEntry
  cases hp : keyPattern? tapes e.1 with
  | none => simp [Reads, hp, throw_ne_ok]
  | some pattern =>
    dsimp only
    by_cases hmem : pattern ∈ rules.map Rule.pattern
    · rw [if_pos hmem, bind_eq_ok_iff]
      constructor
      · rintro ⟨_, h, -⟩
        exact absurd h throw_ne_ok
      · rintro ⟨r, ⟨hr, -⟩, hnot, -⟩
        rw [hp, Option.some.injEq] at hr
        exact absurd (hr ▸ hmem) hnot
    · rw [if_neg hmem]
      simp only [bind_eq_ok_iff, pure_eq_ok_iff, mapError_eq_ok_iff, Reads]
      constructor
      · rintro ⟨i, hi, rfl⟩
        exact ⟨⟨pattern, i⟩, ⟨hp, hi⟩, hmem, rfl⟩
      · rintro ⟨⟨p, i⟩, ⟨hr, hi⟩, -, rfl⟩
        rw [hp, Option.some.injEq] at hr
        exact ⟨i, hi, by rw [hr]⟩

theorem nodup_concat_iff {rules : List Rule} (h : (rules.map Rule.pattern).Nodup) (r : Rule) :
    ((rules ++ [r]).map Rule.pattern).Nodup ↔ r.pattern ∉ rules.map Rule.pattern := by
  rw [List.map_append, List.map_singleton, List.nodup_append_comm, List.singleton_append,
    List.nodup_cons, and_iff_left h]

theorem foldlM_addEntry_eq_ok_iff {m : Mapping} {rules rules' : List Rule}
    (h : (rules.map Rule.pattern).Nodup) :
    m.foldlM (addEntry tapes wildcard states syn state) rules = .ok rules' ↔
      ∃ rs, List.Forall₂ (Reads tapes wildcard states syn) m rs ∧
        (rules'.map Rule.pattern).Nodup ∧ rules' = rules ++ rs := by
  induction m generalizing rules with
  | nil =>
    simp only [List.foldlM_nil, pure_eq_ok_iff, List.forall₂_nil_left_iff, exists_eq_left,
      List.append_nil]
    exact ⟨fun he => ⟨he ▸ h, he.symm⟩, fun he => he.2.symm⟩
  | cons e m ih =>
    simp only [List.foldlM_cons, bind_eq_ok_iff, addEntry_eq_ok_iff, List.forall₂_cons_left_iff]
    constructor
    · rintro ⟨_, ⟨r, hr, hnew, rfl⟩, hm⟩
      obtain ⟨rs, hrs, hnodup, rfl⟩ := (ih ((nodup_concat_iff h r).2 hnew)).1 hm
      exact ⟨r :: rs, ⟨r, rs, hr, hrs, rfl⟩, hnodup, by simp⟩
    · rintro ⟨_, ⟨r, rs, hr, hrs, rfl⟩, hnodup, rfl⟩
      have hconcat : ((rules ++ [r]).map Rule.pattern).Nodup :=
        hnodup.sublist (List.Sublist.map _ (by simp))
      exact ⟨_, ⟨r, hr, (nodup_concat_iff h r).1 hconcat, rfl⟩,
        (ih hconcat).2 ⟨rs, hrs, hnodup, by simp⟩⟩

theorem row_eq_ok_iff {v : Value} {r : Option (List Rule)} :
    row tapes wildcard states syn state v = .ok r ↔
      (v = .null ∨ v = .mapping []) ∧ r = none ∨
      ∃ m rules, m ≠ [] ∧ v = .mapping m ∧
        List.Forall₂ (Reads tapes wildcard states syn) m rules ∧
        (rules.map Rule.pattern).Nodup ∧ r = some rules := by
  have hfold : ∀ (m : Mapping) (rules : List Rule),
      m.foldlM (addEntry tapes wildcard states syn state) [] = .ok rules ↔
        List.Forall₂ (Reads tapes wildcard states syn) m rules ∧
          (rules.map Rule.pattern).Nodup := by
    intro m rules
    rw [foldlM_addEntry_eq_ok_iff (show (List.map Rule.pattern []).Nodup from List.nodup_nil)]
    simp
  simp only [row, bind_eq_ok_iff, row?_eq_ok_iff]
  constructor
  · intro h
    rcases h with ⟨_, ⟨hv, rfl⟩ | ⟨m, hm, hv, rfl⟩, h⟩
    · exact .inl ⟨hv, (pure_eq_ok_iff.1 h).symm⟩
    · simp only [bind_eq_ok_iff, pure_eq_ok_iff, hfold] at h
      obtain ⟨rules, ⟨hrules, hnodup⟩, rfl⟩ := h
      exact .inr ⟨m, rules, hm, hv, hrules, hnodup, rfl⟩
  · intro h
    rcases h with ⟨hv, rfl⟩ | ⟨m, rules, hm, hv, hrules, hnodup, rfl⟩
    · exact ⟨none, .inl ⟨hv, rfl⟩, pure_eq_ok_iff.2 rfl⟩
    · refine ⟨some m, .inr ⟨m, hm, hv, rfl⟩, ?_⟩
      simp only [bind_eq_ok_iff, pure_eq_ok_iff, hfold]
      exact ⟨rules, ⟨hrules, hnodup⟩, rfl⟩

theorem ofEntries_eq_ok_iff {entries : Dict State Value} {t : MultiTable} :
    ofEntries tapes wildcard syn entries = .ok t ↔
      t.tapes = tapes ∧ t.wildcard = wildcard ∧
        entries.traverse (row tapes wildcard entries.keys syn) = .ok t.states := by
  simp only [ofEntries, bind_eq_ok_iff, pure_eq_ok_iff]
  constructor
  · rintro ⟨d, hd, rfl⟩
    exact ⟨rfl, rfl, hd⟩
  · rintro ⟨rfl, rfl, h⟩
    exact ⟨t.states, h, rfl⟩

end MultiTable

end TapeMachine
