import TapeMachine.Document.Fields
import TapeMachine.Proofs.Success

/-!
# Which instructions are read

For each function of the grammar, when it succeeds and with which instruction.  A mapping is described by
what it says under a name: `presents` are the values, nulls left out, of the entries with that name.
-/

namespace TapeMachine

open Yaml (Value)

/-! ## Scalars -/

namespace Yaml.Value

variable {u v : Value}

theorem present?_eq_none_iff : v.present? = none ↔ v.untagged = .null := by
  unfold present?
  split <;> simp_all

theorem present?_eq_some_iff : v.present? = some u ↔ v.untagged = u ∧ u ≠ .null := by
  unfold present?
  split
  · rename_i h
    rw [h]
    grind
  · rename_i h
    grind

theorem untagged_of_present? (h : v.present? = some u) : u.untagged = u := by
  obtain ⟨rfl, -⟩ := present?_eq_some_iff.1 h
  exact untagged_untagged v

theorem text?_of_present? (h : v.present? = some u) : u.text? = v.text? := by
  obtain ⟨rfl, -⟩ := present?_eq_some_iff.1 h
  exact text?_untagged v

theorem text?_of_present?_eq_none (h : v.present? = none) : v.text? = none := by
  rw [← text?_untagged, present?_eq_none_iff.1 h]
  rfl

theorem present?_of_text? {s : String} (h : v.text? = some s) : v.present? = some v.untagged := by
  refine present?_eq_some_iff.2 ⟨rfl, fun hnull => ?_⟩
  rw [← text?_untagged, hnull] at h
  cases h

theorem symbol?_eq_some_iff {c : Symbol} : v.symbol? = some c ↔ v.text? = some (String.singleton c) := by
  have h : ∀ s : String, soleChar? s = some c ↔ s = String.singleton c := by
    intro s
    rw [soleChar?_eq_some_iff, ← String.toList_inj, String.toList_singleton]
  simp only [symbol?, Option.bind_eq_some_iff, h, exists_eq_right]

end Yaml.Value

theorem direction?_eq_some_iff {s : String} {d : Direction} :
    direction? s = some d ↔ s = String.singleton d.letter := by
  simp only [direction?, Option.bind_eq_some_iff, Direction.ofLetter?_eq_some_iff,
    soleChar?_eq_some_iff, exists_eq_right, ← String.toList_inj, String.toList_singleton]

theorem mapM_ofLetter?_eq_some_iff {cs : List Char} {ds : List Direction} :
    cs.mapM Direction.ofLetter? = some ds ↔ cs = ds.map Direction.letter := by
  rw [mapM_eq_some_iff]
  simp only [Direction.ofLetter?_eq_some_iff]
  rw [← List.forall₂_map_right_iff (f := Direction.letter), List.forall₂_eq_eq_eq]

theorem directions?_eq_some_iff {s : String} {ds : List Direction} :
    directions? s = some ds ↔ s.toList = ds.map Direction.letter :=
  mapM_ofLetter?_eq_some_iff

theorem nextState_eq_ok_iff {v : Value} {n : Option State} :
    nextState v = .ok n ↔
      v.untagged = .null ∧ n = none ∨ ∃ s, v.text? = some s ∧ n = some s := by
  unfold nextState
  cases hv : v.present? with
  | none =>
    have hnull := Value.present?_eq_none_iff.1 hv
    simp [hnull, Value.text?_of_present?_eq_none hv, eq_comm]
  | some u =>
    have hne : v.untagged ≠ .null := by
      rw [ne_eq, ← Value.present?_eq_none_iff, hv]
      exact Option.some_ne_none u
    simp only [Value.text?_of_present? hv, hne, false_and, false_or]
    cases v.text? with
    | none => simp
    | some s => simp [eq_comm]

/-! ## Synonyms -/

namespace Synonyms

variable {ι : Type}

theorem body?_unavailable_eq_ok_iff {names : List String} {s : String} {r : Option ι} :
    (unavailable names).body? s = .ok r ↔ s ∉ names ∧ r = none := by
  unfold body?
  by_cases h : s ∈ names
  · simp [h]
  · simp [h, eq_comm]

theorem body?_resolved_eq_ok_iff {d : Dict String ι} {s : String} {r : Option ι} :
    (resolved d).body? s = .ok r ↔ r = d.get? s := by
  unfold body?
  rw [Except.ok.injEq, eq_comm]

end Synonyms

/-! ## One tape -/

namespace SingleInstruction

theorem ofString_eq_ok_iff {syn : Synonyms SingleInstruction} {s : String} {i : SingleInstruction} :
    ofString syn s = .ok i ↔
      (∃ d, direction? s = some d ∧ i = ⟨none, d, none⟩) ∨
      direction? s = none ∧ ∃ r, syn.body? s = .ok r ∧ i = r.getD ⟨none, .stay, some s⟩ := by
  unfold ofString
  cases hd : direction? s with
  | some d => simp [eq_comm]
  | none =>
    simp only [bind_eq_ok_iff, reduceCtorEq, false_and, exists_false, false_or, true_and]
    refine exists_congr fun r => and_congr_right fun _ => ?_
    cases r with
    | none => exact pure_eq_ok_iff.trans eq_comm
    | some j => exact pure_eq_ok_iff.trans eq_comm

/-- The movements that the keys of a mapping name, with their values. -/
def movesIn (m : Mapping) : List (Direction × Value) :=
  m.filterMap fun e => (e.1.text?.bind direction?).map (·, e.2)

/-- The values that a mapping has under `write`. -/
def writesIn (m : Mapping) : List Value := (m.filter (·.1.text? == some "write")).map Prod.snd

theorem ofEntry_eq_ok_iff {e : Value × Value} {p : Part} :
    Part.ofEntry e = .ok p ↔
      ∃ k, e.1.text? = some k ∧
        (k = "write" ∧ p = .write e.2 ∨ ∃ d, direction? k = some d ∧ p = .move d e.2) := by
  have hwrite : direction? "write" = none := by decide
  unfold Part.ofEntry instructionKey
  cases e.1.text? with
  | none => simp [bind_eq_ok_iff]
  | some k =>
    simp only [bind_eq_ok_iff, Except.ok.injEq, exists_eq_left', Option.some.injEq]
    by_cases hk : k = "write"
    · subst hk
      simp [pure_eq_ok_iff, hwrite, eq_comm (a := p)]
    · cases hd : direction? k with
      | none => simp [hk, throw_ne_ok]
      | some d => simp [hk, pure_eq_ok_iff, eq_comm (a := p)]

theorem moves_of_parts {m : Mapping} {parts : List Part}
    (h : List.Forall₂ (fun e p => Part.ofEntry e = .ok p) m parts) :
    parts.filterMap Part.move? = movesIn m ∧ parts.filterMap Part.write? = writesIn m := by
  have hwrite : direction? "write" = none := by decide
  induction h with
  | nil => exact ⟨rfl, rfl⟩
  | @cons e p m parts hp _ ih =>
    obtain ⟨k, hk, ⟨rfl, rfl⟩ | ⟨d, hd, rfl⟩⟩ := ofEntry_eq_ok_iff.1 hp
    · simpa [movesIn, writesIn, hk, hwrite, Part.move?, Part.write?, List.filterMap_cons] using ih
    · have hne : k ≠ "write" := by
        rintro rfl
        rw [hwrite] at hd
        cases hd
      simpa [movesIn, writesIn, hk, hd, hne, Part.move?, Part.write?, List.filterMap_cons] using ih

theorem writeOf_eq_ok_iff {v : Value} {w : Option Symbol} :
    writeOf v = .ok w ↔ v.present?.map Value.symbol? = w.map some := by
  unfold writeOf
  cases v.present? with
  | none => cases w <;> simp
  | some u =>
    cases hu : u.symbol? with
    | none => cases w <;> simp [hu]
    | some c => cases w <;> simp [hu]

theorem present?_writesIn (m : Mapping) :
    ((writesIn m).getLast?.getD .null).present? = Spec.field? m "write" := by
  rw [writesIn, Spec.field?, List.getLast?_map]
  cases (m.filter (·.1.text? == some "write")).getLast? <;> rfl

theorem ofMapping_eq_ok_iff {m : Mapping} {i : SingleInstruction} :
    ofMapping m = .ok i ↔
      (∀ e ∈ m, ∃ k, e.1.text? = some k ∧ (k = "write" ∨ ∃ d, direction? k = some d)) ∧
      (∃ x, movesIn m = [(i.move, x)] ∧ nextState x = .ok i.next) ∧
      (Spec.field? m "write").map Value.symbol? = i.write.map some := by
  have hparts : (∃ parts, List.Forall₂ (fun e p => Part.ofEntry e = .ok p) m parts) ↔
      ∀ e ∈ m, ∃ k, e.1.text? = some k ∧ (k = "write" ∨ ∃ d, direction? k = some d) := by
    rw [exists_forall₂_iff]
    refine forall₂_congr fun e _ => ?_
    simp only [ofEntry_eq_ok_iff]
    constructor
    · intro h
      rcases h with ⟨p, k, hk, ⟨rfl, -⟩ | ⟨d, hd, -⟩⟩
      · exact ⟨_, hk, .inl rfl⟩
      · exact ⟨k, hk, .inr ⟨d, hd⟩⟩
    · intro h
      rcases h with ⟨k, hk, rfl | ⟨d, hd⟩⟩
      · exact ⟨_, _, hk, .inl ⟨rfl, rfl⟩⟩
      · exact ⟨_, k, hk, .inr ⟨d, hd, rfl⟩⟩
  rw [← hparts, ← present?_writesIn, ← writeOf_eq_ok_iff]
  simp only [ofMapping, bind_eq_ok_iff, mapM_eq_ok_iff]
  constructor
  · rintro ⟨parts, hp, h⟩
    obtain ⟨hmoves, hwrites⟩ := moves_of_parts hp
    rw [hmoves, hwrites] at h
    refine ⟨⟨parts, hp⟩, ?_⟩
    split at h
    · exact absurd h throw_ne_ok
    · rename_i d x hx
      simp only [bind_eq_ok_iff, pure_eq_ok_iff] at h
      obtain ⟨w, hw, n, hn, rfl⟩ := h
      exact ⟨⟨x, hx, hn⟩, hw⟩
    · exact absurd h throw_ne_ok
  · rintro ⟨⟨parts, hp⟩, ⟨x, hx, hn⟩, hw⟩
    obtain ⟨hmoves, hwrites⟩ := moves_of_parts hp
    refine ⟨parts, hp, ?_⟩
    rw [hmoves, hwrites, hx]
    simp only [bind_eq_ok_iff, pure_eq_ok_iff]
    exact ⟨i.write, hw, i.next, hn, rfl⟩

end SingleInstruction

/-! ## Several tapes -/

/-- The values, nulls left out, that a mapping has under a name. -/
def presents (m : Mapping) (name : String) : List Value :=
  m.filterMap fun e => if e.1.text? = some name then e.2.present? else none

theorem presents_singleton {e : Value × Value} {k : String} (h : e.1.text? = some k) (name : String) :
    presents [e] name = if k = name then e.2.present?.toList else [] := by
  by_cases hk : k = name
  · cases hv : e.2.present? <;> simp [presents, h, hk, hv]
  · simp [presents, h, hk]

theorem presents_append (m m' : Mapping) (name : String) :
    presents (m ++ m') name = presents m name ++ presents m' name := List.filterMap_append

namespace MultiInstruction

variable {tapes : Nat} {wildcard : Option Symbol}

theorem ofString_eq_ok_iff {syn : Synonyms MultiInstruction} {s : String} {i : MultiInstruction} :
    ofString tapes syn s = .ok i ↔
      (s.length = tapes ∧ ∃ ds, directions? s = some ds ∧ i = ⟨none, some ds, none⟩) ∨
      (s.length = tapes → directions? s = none) ∧ syn.body? s = .ok (some i) := by
  have hmoves : ∀ ds, (if s.length = tapes then directions? s else none) = some ds ↔
      s.length = tapes ∧ directions? s = some ds := by
    intro ds
    by_cases hs : s.length = tapes <;> simp [hs]
  unfold ofString
  cases hx : (if s.length = tapes then directions? s else none) with
  | some ds =>
    obtain ⟨hs, hd⟩ := (hmoves ds).1 hx
    simp [hs, hd, eq_comm (a := i)]
  | none =>
    have hnone : s.length = tapes → directions? s = none := by
      intro hs
      rwa [if_pos hs] at hx
    have hleft : ¬ (s.length = tapes ∧ ∃ ds, directions? s = some ds ∧ i = ⟨none, some ds, none⟩) := by
      rintro ⟨hs, ds, hd, -⟩
      rw [hnone hs] at hd
      cases hd
    rw [or_iff_right hleft, and_iff_right hnone, bind_eq_ok_iff]
    constructor
    · rintro ⟨r, hr, h⟩
      cases r with
      | some j => rwa [← pure_eq_ok_iff.1 h]
      | none =>
        simp only at h
        split at h
        · exact absurd h throw_ne_ok
        · exact absurd h throw_ne_ok
    · exact fun h => ⟨some i, h, rfl⟩

theorem writeOf_eq_ok_iff {v : Value} {ws : List (Option Symbol)} :
    writeOf tapes wildcard v = .ok ws ↔
      (charsOf v).length = tapes ∧
        ws = (charsOf v).map fun c => if some c = wildcard then none else some c := by
  unfold writeOf
  by_cases h : (charsOf v).length = tapes
  · simp [h, eq_comm (a := ws)]
  · simp [h]

theorem movesOf_eq_ok_iff {v : Value} {ds : List Direction} :
    movesOf tapes v = .ok ds ↔ (charsOf v).length = tapes ∧ charsOf v = ds.map Direction.letter := by
  unfold movesOf
  by_cases h : (charsOf v).length = tapes
  · have hletters : charsOf v = ds.map Direction.letter ↔
        List.Forall₂ (fun x d => x.1 = d.letter) (charsOf v).zipIdx ds := by
      conv_lhs => rw [← List.zipIdx_map_fst 0 (charsOf v), ← List.forall₂_eq_eq_eq]
      rw [List.forall₂_map_left_iff, List.forall₂_map_right_iff]
    rw [if_pos h, mapM_eq_ok_iff, and_iff_right h, hletters]
    refine ⟨fun hds => hds.imp fun x d hx => ?_, fun hds => hds.imp fun x d hx => ?_⟩
    · rw [← Direction.ofLetter?_eq_some_iff]
      cases hd : Direction.ofLetter? x.1 with
      | none => simp [hd] at hx
      | some d' => simpa [hd] using hx
    · rw [← Direction.ofLetter?_eq_some_iff] at hx
      simp [hx]
  · simp [h]

/-- What the entries of a mapping add to an instruction: under each name the last value that is not null
counts, and each such value has to be well-formed. -/
def Adds (tapes : Nat) (wildcard : Option Symbol) (m : Mapping) (i j : MultiInstruction) : Prop :=
  (∀ e ∈ m, ∃ k ∈ ["write", "move", "next"], e.1.text? = some k) ∧
  ∃ wss dss ss,
    List.Forall₂ (fun v ws => writeOf tapes wildcard v = .ok ws) (presents m "write") wss ∧
    List.Forall₂ (fun v ds => movesOf tapes v = .ok ds) (presents m "move") dss ∧
    List.Forall₂ (fun v s => v.text? = some s) (presents m "next") ss ∧
    j = ⟨wss.getLast?.or i.write, dss.getLast?.or i.moves, ss.getLast?.or i.next⟩

theorem adds_nil {i j : MultiInstruction} : Adds tapes wildcard [] i j ↔ j = i := by
  constructor
  · rintro ⟨-, wss, dss, ss, hw, hd, hs, rfl⟩
    cases hw
    cases hd
    cases hs
    rfl
  · rintro rfl
    exact ⟨by simp, [], [], [], .nil, .nil, .nil, rfl⟩

theorem adds_append {m m' : Mapping} {i j : MultiInstruction} :
    Adds tapes wildcard (m ++ m') i j ↔
      ∃ k, Adds tapes wildcard m i k ∧ Adds tapes wildcard m' k j := by
  simp only [Adds, presents_append, forall₂_append_left_iff, List.forall_mem_append]
  constructor
  · rintro ⟨⟨hm, hm'⟩, _, _, _, ⟨w, w', hw, hw', rfl⟩, ⟨d, d', hd, hd', rfl⟩, ⟨s, s', hs, hs', rfl⟩, rfl⟩
    refine ⟨_, ⟨hm, w, d, s, hw, hd, hs, rfl⟩, hm', w', d', s', hw', hd', hs', ?_⟩
    simp only [List.getLast?_append, Option.or_assoc]
  · rintro ⟨_, ⟨hm, w, d, s, hw, hd, hs, rfl⟩, hm', w', d', s', hw', hd', hs', rfl⟩
    refine ⟨⟨hm, hm'⟩, _, _, _, ⟨w, w', hw, hw', rfl⟩, ⟨d, d', hd, hd', rfl⟩, ⟨s, s', hs, hs', rfl⟩, ?_⟩
    simp only [List.getLast?_append, Option.or_assoc]

theorem addEntry_eq_ok_iff {e : Value × Value} {i j : MultiInstruction} :
    addEntry tapes wildcard i e = .ok j ↔ Adds tapes wildcard [e] i j := by
  unfold addEntry instructionKey
  cases hk : e.1.text? with
  | none => simp [Adds, hk, bind_eq_ok_iff]
  | some k =>
    simp only [bind_eq_ok_iff, Except.ok.injEq, exists_eq_left']
    by_cases hmem : k ∈ ["write", "move", "next"]
    · rw [Adds, and_iff_right (by simpa [hk] using hmem)]
      simp only [hmem, presents_singleton hk]
      cases hv : e.2.present? with
      | none => simp [pure_eq_ok_iff, eq_comm (a := j)]
      | some v =>
        obtain ⟨hself, hnull⟩ := Value.present?_eq_some_iff.1 hv
        simp only [List.mem_cons, List.not_mem_nil, or_false] at hmem
        rcases hmem with rfl | rfl | rfl
        · simp [List.forall₂_cons_left_iff, map_eq_ok_iff]
        · simp [List.forall₂_cons_left_iff, map_eq_ok_iff]
        · have huntagged : v.untagged ≠ .null := by rwa [Value.untagged_of_present? hv]
          simp [List.forall₂_cons_left_iff, map_eq_ok_iff, nextState_eq_ok_iff, huntagged]
    · constructor
      · intro h
        rw [if_pos hmem, bind_eq_ok_iff] at h
        obtain ⟨_, h, -⟩ := h
        exact absurd h throw_ne_ok
      · rintro ⟨hkeys, -⟩
        obtain ⟨k', hk', hek⟩ := hkeys e List.mem_cons_self
        rw [hk, Option.some.injEq] at hek
        exact absurd (hek ▸ hk') hmem

theorem ofMapping_eq_ok_iff {m : Mapping} {i : MultiInstruction} :
    ofMapping tapes wildcard m = .ok i ↔ Adds tapes wildcard m ⟨none, none, none⟩ i := by
  have hfold : ∀ i j, m.foldlM (addEntry tapes wildcard) i = .ok j ↔ Adds tapes wildcard m i j := by
    induction m with
    | nil => exact fun i j => by rw [List.foldlM_nil, pure_eq_ok_iff, adds_nil, eq_comm]
    | cons e m ih =>
      intro i j
      rw [List.foldlM_cons, bind_eq_ok_iff, ← List.singleton_append, adds_append]
      simp only [addEntry_eq_ok_iff, ih]
  exact hfold _ i

end MultiInstruction

/-! ## Both grammars -/

namespace Grammar

variable {ι : Type} {g : Grammar ι} {states : List State}

theorem form_eq_ok_iff {syn : Synonyms ι} {v : Value} {i : ι} :
    g.form syn v = .ok i ↔
      (∃ s, v.untagged = .string s ∧ g.ofString syn s = .ok i) ∨
      ∃ m, v.untagged = .mapping m ∧ g.ofMapping m = .ok i := by
  unfold form
  cases v.untagged <;> simp

theorem instruction_eq_ok_iff {syn : Synonyms ι} {v : Value} {i : ι} :
    g.instruction states syn v = .ok i ↔
      g.form syn v = .ok i ∧ ∀ q, g.next i = some q → q ∈ states := by
  have hchecked : ∀ j, g.checked states j = .ok i ↔ j = i ∧ ∀ q, g.next i = some q → q ∈ states := by
    intro j
    unfold checked
    cases hj : g.next j with
    | none =>
      simp only [Except.ok.injEq]
      exact ⟨fun h => ⟨h, fun q hq => by rw [← h, hj] at hq; cases hq⟩, fun h => h.1⟩
    | some q =>
      by_cases hq : q ∈ states
      · simp only [hq, if_true, Except.ok.injEq]
        refine ⟨fun h => ⟨h, fun q' hq' => ?_⟩, fun h => h.1⟩
        rw [← h, hj, Option.some.injEq] at hq'
        exact hq' ▸ hq
      · simp only [hq, if_false, reduceCtorEq, false_iff, not_and]
        rintro rfl h
        exact hq (h q hj)
  simp only [instruction, bind_eq_ok_iff, hchecked]
  constructor
  · rintro ⟨j, hj, rfl, hq⟩
    exact ⟨hj, hq⟩
  · rintro ⟨hi, hq⟩
    exact ⟨i, hi, rfl, hq⟩

/-- An entry of the synonyms is read if its key has a text and its body is an instruction. -/
def Defines (g : Grammar ι) (states : List State) (names : List String) (e : Value × Value)
    (x : String × ι) : Prop :=
  e.1.text? = some x.1 ∧ g.instruction states (.unavailable names) e.2 = .ok x.2

theorem synonymName_eq_ok_iff {key : Value} {name : String} :
    synonymName key = .ok name ↔ key.text? = some name := by
  unfold synonymName
  cases key.text? <;> simp

theorem addSynonym_eq_ok_iff {names : List String} {d d' : Dict String ι} {e : Value × Value} :
    g.addSynonym states names d e = .ok d' ↔
      ∃ x, g.Defines states names e x ∧ d' = d.insert x.1 x.2 := by
  simp only [addSynonym, bind_eq_ok_iff, synonymName_eq_ok_iff, mapError_eq_ok_iff, pure_eq_ok_iff, Defines]
  constructor
  · rintro ⟨name, hn, i, hi, rfl⟩
    exact ⟨(name, i), ⟨hn, hi⟩, rfl⟩
  · rintro ⟨⟨name, i⟩, ⟨hn, hi⟩, rfl⟩
    exact ⟨name, hn, i, hi, rfl⟩

theorem synonyms_eq_ok_iff {v? : Option Value} {d : Dict String ι} :
    g.synonyms states v? = .ok d ↔
      v? = none ∧ d = .empty ∨
      ∃ m xs, v? = some (.mapping m) ∧
        List.Forall₂ (g.Defines states (m.filterMap (·.1.text?))) m xs ∧ d = Dict.ofList xs := by
  have hfold : ∀ (names : List String) (m : Mapping) (d₀ : Dict String ι),
      m.foldlM (g.addSynonym states names) d₀ = .ok d ↔
        ∃ xs, List.Forall₂ (g.Defines states names) m xs ∧
          d = xs.foldl (fun d x => d.insert x.1 x.2) d₀ := by
    intro names m
    induction m with
    | nil => simp [pure_eq_ok_iff, eq_comm (a := d)]
    | cons e m ih =>
      intro d₀
      simp only [List.foldlM_cons, bind_eq_ok_iff, addSynonym_eq_ok_iff, ih,
        List.forall₂_cons_left_iff]
      constructor
      · rintro ⟨_, ⟨x, hx, rfl⟩, xs, hxs, rfl⟩
        exact ⟨x :: xs, ⟨x, xs, hx, hxs, rfl⟩, rfl⟩
      · rintro ⟨_, ⟨x, xs, hx, hxs, rfl⟩, rfl⟩
        exact ⟨_, ⟨x, hx, rfl⟩, xs, hxs, rfl⟩
  unfold synonyms
  match v? with
  | none => simp [eq_comm (a := d)]
  | some v =>
    cases v with
    | mapping m => simp [hfold, Dict.ofList]
    | _ => simp

end Grammar

end TapeMachine
