import TapeMachine.Proofs.Document.Names

/-!
# Which instructions are accepted

An instruction is read, and leads to a declared state if it leads anywhere, if and only if it has a form of
the grammar.  What the reader knows of the synonyms has to agree with the scope: a name in scope has a body
where synonyms can be used and is an error where they cannot, and other names are no synonyms.
-/

namespace TapeMachine

open Yaml (Value)

variable {σ : Scope}

/-! ## Synonyms in scope -/

section Agree
variable {ι : Type} {g : Grammar ι}

structure Synonyms.Agree (g : Grammar ι) (σ : Scope) (syn : Synonyms ι) : Prop where
  fresh : ∀ s, s ∉ σ.synonyms → syn.body? s = .ok none
  used : ∀ s ∈ σ.synonyms, σ.usable = true →
    ∃ i, syn.body? s = .ok (some i) ∧ ∀ q, g.next i = some q → q ∈ σ.states
  barred : ∀ s ∈ σ.synonyms, σ.usable = false → ∀ r, syn.body? s ≠ .ok r

theorem Synonyms.agree_unavailable (states : List State) (names : List String) :
    Agree g ⟨states, names, false⟩ (.unavailable names) where
  fresh _ hs := body?_unavailable_eq_ok_iff.2 ⟨hs, rfl⟩
  used _ _ h := nomatch h
  barred _ hs _ _ hr := (body?_unavailable_eq_ok_iff.1 hr).1 hs

/-- The body of a name in scope, or none for another name, if there is an answer at all. -/
theorem Synonyms.Agree.of_body? {syn : Synonyms ι} (h : Agree g σ syn) {s : String} {r : Option ι}
    (hr : syn.body? s = .ok r) :
    s ∉ σ.synonyms ∧ r = none ∨ s ∈ σ.synonyms ∧ σ.usable = true ∧ r.isSome = true := by
  by_cases hs : s ∈ σ.synonyms
  · cases husable : σ.usable with
    | false => exact absurd hr (h.barred s hs husable r)
    | true =>
      obtain ⟨i, hi, -⟩ := h.used s hs husable
      rw [hr, Except.ok.injEq] at hi
      exact .inr ⟨hs, rfl, hi ▸ rfl⟩
  · rw [h.fresh s hs, Except.ok.injEq] at hr
    exact .inl ⟨hs, hr.symm⟩

/-- An instruction is a string or a mapping, and leads to a declared state if it leads anywhere. -/
theorem Grammar.exists_instruction_iff_form {states : List State} {syn : Synonyms ι} {v : Value} :
    (∃ i, g.instruction states syn v = .ok i) ↔
      (∃ s, v.untagged = .string s ∧
        ∃ i, g.ofString syn s = .ok i ∧ ∀ q, g.next i = some q → q ∈ states) ∨
      ∃ m, v.untagged = .mapping m ∧
        ∃ i, g.ofMapping m = .ok i ∧ ∀ q, g.next i = some q → q ∈ states := by
  simp only [instruction_eq_ok_iff, form_eq_ok_iff]
  constructor
  · intro h
    rcases h with ⟨i, ⟨s, hs, hi⟩ | ⟨m, hm, hi⟩, hnext⟩
    · exact .inl ⟨s, hs, i, hi, hnext⟩
    · exact .inr ⟨m, hm, i, hi, hnext⟩
  · intro h
    rcases h with ⟨s, hs, i, hi, hnext⟩ | ⟨m, hm, i, hi, hnext⟩
    · exact ⟨i, .inl ⟨s, hs, hi⟩, hnext⟩
    · exact ⟨i, .inr ⟨m, hm, hi⟩, hnext⟩

end Agree

/-! ## Parts of both grammars -/

theorem exists_nextState_iff {v : Value} :
    (∃ n, nextState v = .ok n ∧ ∀ q, n = some q → q ∈ σ.states) ↔ v.IsNull ∨ σ.Declared v := by
  simp only [nextState_eq_ok_iff, Scope.Declared, Value.hasText_iff]
  constructor
  · intro h
    rcases h with ⟨n, ⟨hnull, -⟩ | ⟨s, hs, rfl⟩, hn⟩
    · exact .inl hnull
    · exact .inr ⟨s, hn s rfl, hs⟩
  · intro h
    rcases h with hnull | ⟨q, hq, hs⟩
    · exact ⟨none, .inl ⟨hnull, rfl⟩, nofun⟩
    · refine ⟨some q, .inr ⟨q, hs, rfl⟩, ?_⟩
      rintro _ ⟨⟩
      exact hq

theorem isSymbol_untagged {v : Value} : v.untagged.IsSymbol ↔ v.IsSymbol :=
  exists_congr fun _ => Value.hasText_untagged

theorem declared_untagged {v : Value} : σ.Declared v.untagged ↔ σ.Declared v :=
  exists_congr fun _ => and_congr_right fun _ => Value.hasText_untagged

theorem exists_map_eq_iff {α β : Type} {o : Option α} {f : α → Option β} :
    (∃ w : Option β, o.map f = w.map some) ↔ ∀ a, o = some a → ∃ b, f a = some b := by
  constructor
  · rintro ⟨w, hw⟩ a rfl
    obtain ⟨b, -, hb⟩ := Option.map_eq_some_iff.1 hw.symm
    exact ⟨b, hb.symm⟩
  · intro h
    cases o with
    | none => exact ⟨none, rfl⟩
    | some a =>
      obtain ⟨b, hb⟩ := h a rfl
      exact ⟨some b, congrArg some hb⟩

/-! ## One tape -/

namespace SingleInstruction

theorem exists_direction?_iff {s : String} : (∃ d, direction? s = some d) ↔ s ∈ ["L", "R", "S"] := by
  simp only [direction?_eq_some_iff]
  constructor
  · rintro ⟨d, rfl⟩
    cases d <;> decide
  · intro hs
    simp only [List.mem_cons, List.not_mem_nil, or_false] at hs
    rcases hs with rfl | rfl | rfl
    · exact ⟨.left, rfl⟩
    · exact ⟨.right, rfl⟩
    · exact ⟨.stay, rfl⟩

theorem exists_ofString_iff {syn : Synonyms SingleInstruction}
    (hsyn : Synonyms.Agree Grammar.single σ syn) {s : String} :
    (∃ i, ofString syn s = .ok i ∧ ∀ q, i.next = some q → q ∈ σ.states) ↔
      s ∈ ["L", "R", "S"] ∨ (σ.usable = true ∧ s ∈ σ.synonyms) ∨ s ∉ σ.synonyms ∧ s ∈ σ.states := by
  simp only [ofString_eq_ok_iff]
  constructor
  · intro h
    rcases h with ⟨i, ⟨d, hd, -⟩ | ⟨-, r, hr, rfl⟩, hnext⟩
    · exact .inl (exists_direction?_iff.1 ⟨d, hd⟩)
    · rcases hsyn.of_body? hr with ⟨hs, rfl⟩ | ⟨hs, husable, -⟩
      · exact .inr (.inr ⟨hs, hnext s rfl⟩)
      · exact .inr (.inl ⟨husable, hs⟩)
  · intro h
    cases hd : direction? s with
    | some d => exact ⟨⟨none, d, none⟩, .inl ⟨d, rfl, rfl⟩, nofun⟩
    | none =>
      have hletter : s ∉ ["L", "R", "S"] := by
        rw [← exists_direction?_iff, hd]
        exact fun ⟨_, h⟩ => by cases h
      rcases h with h | ⟨husable, hs⟩ | ⟨hs, hq⟩
      · exact absurd h hletter
      · obtain ⟨i, hi, hnext⟩ := hsyn.used s hs husable
        exact ⟨i, .inr ⟨rfl, some i, hi, rfl⟩, hnext⟩
      · refine ⟨⟨none, .stay, some s⟩, .inr ⟨rfl, none, hsyn.fresh s hs, rfl⟩, ?_⟩
        rintro _ ⟨⟩
        exact hq

theorem mem_movesIn {m : Mapping} {d : Direction} {x : Value} :
    (d, x) ∈ movesIn m ↔ Says m (String.singleton d.letter) x := by
  simp only [movesIn, List.mem_filterMap, Says, Value.hasText_iff, Option.map_eq_some_iff,
    Option.bind_eq_some_iff, direction?_eq_some_iff, Prod.mk.injEq]
  constructor
  · rintro ⟨⟨key, v⟩, hmem, d', ⟨s, hs, rfl⟩, rfl, rfl⟩
    exact ⟨key, hmem, hs⟩
  · rintro ⟨key, hmem, hs⟩
    exact ⟨(key, x), hmem, d, ⟨_, hs, rfl⟩, rfl, rfl⟩

theorem letter_mem_reserved (d : Direction) : String.singleton d.letter ∈ reserved := by
  cases d <;> decide

theorem nodup_movesIn {m : Mapping} (hm : (Value.mapping m).plainKeys = true) :
    ((movesIn m).map Prod.fst).Nodup := by
  refine List.pairwise_map.2 ?_
  refine List.pairwise_filterMap.2 ?_
  refine (List.pairwise_iff_forall_sublist.2 fun {e e'} hsub => ?_)
  rintro ⟨d, x⟩ hx ⟨d', x'⟩ hx' (rfl : d = d')
  obtain ⟨_, hd, ⟨⟩⟩ := Option.map_eq_some_iff.1 hx
  obtain ⟨_, hd', ⟨⟩⟩ := Option.map_eq_some_iff.1 hx'
  obtain ⟨s, hs, hds⟩ := Option.bind_eq_some_iff.1 hd
  obtain ⟨s', hs', hds'⟩ := Option.bind_eq_some_iff.1 hd'
  rw [direction?_eq_some_iff] at hds hds'
  have honce := once_of_plainKeys hm _ (letter_mem_reserved d)
  exact List.pairwise_iff_forall_sublist.1 honce hsub (hds ▸ hs) (hds' ▸ hs')

theorem movesIn_eq_singleton_iff {m : Mapping} (hm : (Value.mapping m).plainKeys = true)
    {d : Direction} {x : Value} :
    movesIn m = [(d, x)] ↔ Says m (String.singleton d.letter) x ∧
      ∀ d' x', Says m (String.singleton d'.letter) x' → d' = d := by
  simp only [← mem_movesIn]
  constructor
  · intro h
    simp [h]
  · rintro ⟨hmem, honly⟩
    have hnodup := nodup_movesIn hm
    have hall : ∀ y ∈ (movesIn m).map Prod.fst, y = d := by
      intro y hy
      obtain ⟨⟨d', x'⟩, hmem', rfl⟩ := List.mem_map.1 hy
      exact honly d' x' hmem'
    match hl : movesIn m with
    | [] =>
      rw [hl] at hmem
      cases hmem
    | [y] =>
      rw [hl, List.mem_singleton] at hmem
      rw [hmem]
    | y :: z :: l =>
      rw [hl] at hnodup hall
      refine absurd ?_ (List.nodup_cons.1 hnodup).1
      rw [hall y.1 (by simp), ← hall z.1 (by simp)]
      simp

theorem exists_movesIn_iff {m : Mapping} (hm : (Value.mapping m).plainKeys = true)
    {P : Value → Prop} :
    (∃ d x, movesIn m = [(d, x)] ∧ P x) ↔
      ∃ d ∈ ["L", "R", "S"], (∃ x, Says m d x ∧ P x) ∧
        ∀ d' ∈ ["L", "R", "S"], ∀ x, Says m d' x → d' = d := by
  simp only [← exists_direction?_iff, direction?_eq_some_iff, movesIn_eq_singleton_iff hm]
  constructor
  · rintro ⟨d, x, ⟨hx, honly⟩, hP⟩
    refine ⟨_, ⟨d, rfl⟩, ⟨x, hx, hP⟩, ?_⟩
    rintro _ ⟨d', rfl⟩ x' hx'
    rw [honly d' x' hx']
  · rintro ⟨_, ⟨d, rfl⟩, ⟨x, hx, hP⟩, honly⟩
    refine ⟨d, x, ⟨hx, fun d' x' hx' => ?_⟩, hP⟩
    have hletter := direction?_eq_some_iff.2 (honly _ ⟨d', rfl⟩ x' hx').symm
    rw [direction?_eq_some_iff.2 rfl, Option.some.injEq] at hletter
    exact hletter.symm

theorem exists_ofMapping_iff {m : Mapping} (hm : (Value.mapping m).plainKeys = true) :
    (∃ i, ofMapping m = .ok i ∧ ∀ q, i.next = some q → q ∈ σ.states) ↔
      (∀ e ∈ m, ∃ k ∈ ["write", "L", "R", "S"], e.1.HasText k) ∧
      (∃ d ∈ ["L", "R", "S"], (∃ x, Says m d x ∧ (x.IsNull ∨ σ.Declared x)) ∧
        ∀ d' ∈ ["L", "R", "S"], ∀ x, Says m d' x → d' = d) ∧
      Permits m "write" Value.IsSymbol := by
  have hkeys : ∀ e : Value × Value,
      (∃ k, e.1.text? = some k ∧ (k = "write" ∨ ∃ d, direction? k = some d)) ↔
        ∃ k ∈ ["write", "L", "R", "S"], e.1.HasText k := by
    intro e
    simp only [exists_direction?_iff, Value.hasText_iff]
    exact exists_congr fun k => and_comm.trans (and_congr_left' List.mem_cons.symm)
  have hwrite := (once_of_plainKeys hm "write" (by decide)).permits_iff
    (P := Value.IsSymbol) fun v => isSymbol_untagged
  simp only [Value.isSymbol_iff, ← exists_map_eq_iff] at hwrite
  rw [← exists_movesIn_iff hm, hwrite]
  simp only [ofMapping_eq_ok_iff, hkeys, ← exists_nextState_iff]
  constructor
  · rintro ⟨i, ⟨hk, ⟨x, hx, hn⟩, hw⟩, hnext⟩
    exact ⟨hk, ⟨i.move, x, hx, i.next, hn, hnext⟩, i.write, hw⟩
  · rintro ⟨hk, ⟨d, x, hx, n, hn, hnext⟩, w, hw⟩
    exact ⟨⟨w, d, n⟩, ⟨hk, ⟨x, hx, hn⟩, hw⟩, hnext⟩

theorem exists_instruction_iff {syn : Synonyms SingleInstruction}
    (hsyn : Synonyms.Agree Grammar.single σ syn) {v : Value} (hv : v.plainKeys = true) :
    (∃ i, Grammar.single.instruction σ.states syn v = .ok i) ↔ SingleForm σ v := by
  rw [Grammar.exists_instruction_iff_form]
  constructor
  · intro h
    rcases h with ⟨s, hs, h⟩ | ⟨m, hm, h⟩
    · rcases (exists_ofString_iff hsyn).1 h with h | ⟨husable, h⟩ | ⟨hno, h⟩
      · exact .direction hs h
      · exact .synonym hs husable h
      · exact .state hs hno h
    · rw [← Value.plainKeys_untagged, hm] at hv
      obtain ⟨hk, ⟨d, hd, hx, honly⟩, hw⟩ := (exists_ofMapping_iff hv).1 h
      exact .mapping hm hk hd hx honly hw
  · intro h
    rcases h with ⟨hs, h⟩ | ⟨hs, husable, h⟩ | ⟨hs, hno, h⟩ | ⟨hm, hk, hd, hx, honly, hw⟩
    · exact .inl ⟨_, hs, (exists_ofString_iff hsyn).2 (.inl h)⟩
    · exact .inl ⟨_, hs, (exists_ofString_iff hsyn).2 (.inr (.inl ⟨husable, h⟩))⟩
    · exact .inl ⟨_, hs, (exists_ofString_iff hsyn).2 (.inr (.inr ⟨hno, h⟩))⟩
    · rw [← Value.plainKeys_untagged, hm] at hv
      exact .inr ⟨_, hm, (exists_ofMapping_iff hv).2 ⟨hk, ⟨_, hd, hx, honly⟩, hw⟩⟩

end SingleInstruction

/-! ## Three tapes -/

namespace MultiInstruction

variable {wildcard : Option Symbol}

theorem isMoves_iff {s : String} :
    IsMoves s ↔ s.length = 3 ∧ ∃ ds : List Direction, s.toList = ds.map Direction.letter := by
  have hletters : (∀ c ∈ s.toList, c ∈ ['L', 'R', 'S']) ↔
      ∃ ds, List.Forall₂ (fun c d => c = Direction.letter d) s.toList ds := by
    rw [exists_forall₂_iff]
    refine forall₂_congr fun c _ => ?_
    constructor
    · intro hc
      simp only [List.mem_cons, List.not_mem_nil, or_false] at hc
      rcases hc with rfl | rfl | rfl
      · exact ⟨.left, rfl⟩
      · exact ⟨.right, rfl⟩
      · exact ⟨.stay, rfl⟩
    · rintro ⟨d, rfl⟩
      cases d <;> decide
  rw [IsMoves, hletters]
  simp only [← List.forall₂_map_right_iff (f := Direction.letter) (R := Eq), List.forall₂_eq_eq_eq]

theorem exists_ofString_iff {syn : Synonyms MultiInstruction}
    (hsyn : Synonyms.Agree (Grammar.multi 3 wildcard) σ syn) {s : String} :
    (∃ i, ofString 3 syn s = .ok i ∧ ∀ q, i.next = some q → q ∈ σ.states) ↔
      IsMoves s ∨ (σ.usable = true ∧ s ∈ σ.synonyms) := by
  simp only [ofString_eq_ok_iff, isMoves_iff, ← directions?_eq_some_iff]
  constructor
  · intro h
    rcases h with ⟨i, ⟨hlength, ds, hds, -⟩ | ⟨-, hbody⟩, -⟩
    · exact .inl ⟨hlength, ds, hds⟩
    · rcases hsyn.of_body? hbody with ⟨-, h⟩ | ⟨hs, husable, -⟩
      · cases h
      · exact .inr ⟨husable, hs⟩
  · intro h
    by_cases hmoves : s.length = 3 ∧ ∃ ds, directions? s = some ds
    · obtain ⟨hlength, ds, hds⟩ := hmoves
      exact ⟨⟨none, some ds, none⟩, .inl ⟨hlength, ds, hds, rfl⟩, nofun⟩
    · obtain ⟨husable, hs⟩ := h.resolve_left hmoves
      obtain ⟨i, hi, hnext⟩ := hsyn.used s hs husable
      refine ⟨i, .inr ⟨fun hlength => ?_, hi⟩, hnext⟩
      exact Option.eq_none_iff_forall_ne_some.2 fun ds hds => hmoves ⟨hlength, ds, hds⟩

theorem length_charsOf_iff {v : Value} {n : Nat} (hn : n ≠ 0) :
    (charsOf v).length = n ↔ ∃ s, v.HasText s ∧ s.length = n := by
  simp only [charsOf, Value.hasText_iff]
  cases v.text? with
  | none => simp [hn.symm]
  | some s => simp [String.length_toList]

theorem exists_writeOf_iff {v : Value} :
    (∃ ws, writeOf 3 wildcard v = .ok ws) ↔ ∃ s, v.HasText s ∧ s.length = 3 := by
  simp only [writeOf_eq_ok_iff, exists_and_left, exists_eq, and_true]
  exact length_charsOf_iff (by decide)

theorem exists_movesOf_iff {v : Value} :
    (∃ ds, movesOf 3 v = .ok ds) ↔ ∃ s, v.HasText s ∧ IsMoves s := by
  simp only [movesOf_eq_ok_iff, isMoves_iff, charsOf, Value.hasText_iff, exists_and_left]
  cases v.text? with
  | none => simp
  | some s => simp [String.length_toList]

theorem hasText_and_untagged {v : Value} {P : String → Prop} :
    (∃ s, v.untagged.HasText s ∧ P s) ↔ ∃ s, v.HasText s ∧ P s :=
  exists_congr fun _ => and_congr_left' Value.hasText_untagged

theorem exists_forall₂_toList_iff {α β : Type} {o : Option α} {R : α → β → Prop} :
    (∃ ys, List.Forall₂ R o.toList ys) ↔ ∀ a, o = some a → ∃ b, R a b := by
  simp [exists_forall₂_iff]

theorem exists_ofMapping_iff {m : Mapping} (hm : (Value.mapping m).plainKeys = true) :
    (∃ i, ofMapping 3 wildcard m = .ok i ∧ ∀ q, i.next = some q → q ∈ σ.states) ↔
      (∀ e ∈ m, ∃ k ∈ ["write", "move", "next"], e.1.HasText k) ∧
      Permits m "write" (fun x => ∃ s, x.HasText s ∧ s.length = 3) ∧
      Permits m "move" (fun x => ∃ s, x.HasText s ∧ IsMoves s) ∧
      Permits m "next" σ.Declared := by
  have hwrite := once_of_plainKeys hm "write" (by decide)
  have hmove := once_of_plainKeys hm "move" (by decide)
  have hnext := once_of_plainKeys hm "next" (by decide)
  have hw : Permits m "write" (fun x => ∃ s, x.HasText s ∧ s.length = 3) ↔
      ∃ wss, List.Forall₂ (fun v ws => writeOf 3 wildcard v = .ok ws) (presents m "write") wss := by
    rw [hwrite.permits_iff fun v => hasText_and_untagged, hwrite.presents, exists_forall₂_toList_iff]
    simp only [exists_writeOf_iff]
  have hd : Permits m "move" (fun x => ∃ s, x.HasText s ∧ IsMoves s) ↔
      ∃ dss, List.Forall₂ (fun v ds => movesOf 3 v = .ok ds) (presents m "move") dss := by
    rw [hmove.permits_iff fun v => hasText_and_untagged, hmove.presents, exists_forall₂_toList_iff]
    simp only [exists_movesOf_iff]
  rw [hw, hd, hnext.permits_iff fun v => declared_untagged]
  simp only [Value.hasText_iff, ofMapping_eq_ok_iff, Adds, hnext.presents]
  constructor
  · rintro ⟨_, ⟨hk, wss, dss, ss, hw, hd, hs, rfl⟩, hq⟩
    refine ⟨hk, ⟨wss, hw⟩, ⟨dss, hd⟩, fun v hv => ?_⟩
    rw [hv, Option.toList_some, List.forall₂_cons_left_iff] at hs
    obtain ⟨s, ss, hs, hnil, rfl⟩ := hs
    cases hnil
    exact ⟨s, hq s rfl, Value.hasText_iff.2 hs⟩
  · rintro ⟨hk, ⟨wss, hw⟩, ⟨dss, hd⟩, hq⟩
    cases hv : Spec.field? m "next" with
    | none =>
      refine ⟨_, ⟨hk, wss, dss, [], hw, hd, .nil, rfl⟩, fun q hq => ?_⟩
      cases hq
    | some v =>
      obtain ⟨q, hmem, htext⟩ := hq v hv
      refine ⟨_, ⟨hk, wss, dss, [q], hw, hd, .cons (Value.hasText_iff.1 htext) .nil, rfl⟩, ?_⟩
      rintro _ ⟨⟩
      exact hmem

theorem exists_instruction_iff {syn : Synonyms MultiInstruction}
    (hsyn : Synonyms.Agree (Grammar.multi 3 wildcard) σ syn) {v : Value} (hv : v.plainKeys = true) :
    (∃ i, (Grammar.multi 3 wildcard).instruction σ.states syn v = .ok i) ↔ MultiForm σ v := by
  rw [Grammar.exists_instruction_iff_form]
  constructor
  · intro h
    rcases h with ⟨s, hs, h⟩ | ⟨m, hm, h⟩
    · rcases (exists_ofString_iff hsyn).1 h with h | ⟨husable, h⟩
      · exact .moves hs h
      · exact .synonym hs husable h
    · rw [← Value.plainKeys_untagged, hm] at hv
      obtain ⟨hk, hw, hd, hq⟩ := (exists_ofMapping_iff hv).1 h
      exact .mapping hm hk hw hd hq
  · intro h
    rcases h with ⟨hs, h⟩ | ⟨hs, husable, h⟩ | ⟨hm, hk, hw, hd, hq⟩
    · exact .inl ⟨_, hs, (exists_ofString_iff hsyn).2 (.inl h)⟩
    · exact .inl ⟨_, hs, (exists_ofString_iff hsyn).2 (.inr ⟨husable, h⟩)⟩
    · rw [← Value.plainKeys_untagged, hm] at hv
      exact .inr ⟨_, hm, (exists_ofMapping_iff hv).2 ⟨hk, hw, hd, hq⟩⟩

end MultiInstruction

end TapeMachine
