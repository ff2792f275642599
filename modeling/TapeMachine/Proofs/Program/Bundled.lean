import Mathlib.Data.List.Nodup
import TapeMachine.Program
import TapeMachine.Proofs.Success

/-!
# Bundled programs by their names

A program is found by reading the one document that has its name.
-/

namespace TapeMachine.Program

theorem id_of_ofDocument? {id source : String} {p : Program} (h : ofDocument? id source = some p) : p.id = id := by
  unfold ofDocument? at h
  cases hs : Spec.parse source with
  | error e =>
    rw [hs] at h
    cases h
  | ok s =>
    rw [hs] at h
    cases h
    rfl

/-- The documents are a variable here: otherwise they are all read to check this. -/
theorem find?_filterMap_ofDocument? {documents : List (String × String)} (hids : (documents.map Prod.fst).Nodup)
    {id source : String} (h : (id, source) ∈ documents) :
    (documents.filterMap fun (id, source) => ofDocument? id source).find? (·.id == id) = ofDocument? id source := by
  rw [List.find?_filterMap]
  cases hfind : documents.find? fun a => (ofDocument? a.1 a.2).any (·.id == id) with
  | none =>
    have hother := List.find?_eq_none.1 hfind _ h
    cases hp : ofDocument? id source with
    | none => rfl
    | some p =>
      rw [hp, Option.any_some, id_of_ofDocument? hp, beq_self_eq_true] at hother
      exact absurd rfl hother
  | some a =>
    have hsome := List.find?_some hfind
    obtain ⟨p, hp, hid⟩ := (Option.any_eq_true _ _).1 hsome
    have hname : a.1 = id := (id_of_ofDocument? hp).symm.trans (beq_iff_eq.1 hid)
    obtain rfl := List.inj_on_of_nodup_map hids (List.mem_of_find?_eq_some hfind) h hname
    rfl

theorem byId?_of_mem {id source : String} (h : (id, source) ∈ documents) : byId? id = ofDocument? id source :=
  find?_filterMap_ofDocument? (by decide) h

theorem exists_byId?_of_parse {α : Type} {id source : String} (h : (id, source) ∈ documents)
    {f : Spec → α} {y : α} (hread : (Spec.parse source).toOption.map f = some y) :
    ∃ p, byId? id = some p ∧ f p.spec = y := by
  obtain ⟨s, hs, hy⟩ := exists_of_toOption_map hread
  refine ⟨⟨id, source, s⟩, ?_, hy⟩
  rw [byId?_of_mem h, ofDocument?, hs]

theorem exists_byId?_of_spec {id source : String} (h : (id, source) ∈ documents) {s : Spec}
    (hread : (Spec.parse source).toOption = some s) : ∃ p, byId? id = some p ∧ p.spec = s := by
  have hmap : (Spec.parse source).toOption.map (fun s => s) = some s := by rw [hread, Option.map_some]
  exact exists_byId?_of_parse h hmap

theorem initial_withInput_eq (s : Spec) (input : List Symbol) :
    (s.withInput (String.ofList input)).initial =
      ⟨s.start, .new s.blank input :: .replicate (s.tapes - 1) (.new s.blank []), 0⟩ := by
  simp [Spec.initial, Spec.initialTapes, Spec.tapes, Spec.inputSymbols, Spec.withInput]

theorem initial_withInput {s : Spec} (h : s.machineType = .oneTape) (input : List Symbol) :
    (s.withInput (String.ofList input)).initial = ⟨s.start, [.new s.blank input], 0⟩ := by
  rw [initial_withInput_eq, Spec.tapes, h]
  rfl

end TapeMachine.Program
