import TapeMachine.Proofs.Success
import TapeMachine.Yaml.Reading

/-!
# Keys of mappings

No mapping that is read has two keys that are the same, at any depth: a key is compared with those before it
when its entry is read.  The interpreter counts the references it follows, so what holds of a value it
returns is stated for every count (`Yields`) and derived along the computation.
-/

namespace TapeMachine.Yaml

/-! ## Values with distinct keys -/

namespace Value

mutual

/-- Whether the keys of every mapping in the value are different from each other. -/
def distinctKeys : Value → Bool
  | .sequence items => distinctItems items
  | .mapping m => decide (m.Pairwise fun e e' => e.1.same e'.1 = false) && distinctEntries m
  | .tagged _ v => distinctKeys v
  | _ => true

def distinctItems : List Value → Bool
  | [] => true
  | v :: items => distinctKeys v && distinctItems items

def distinctEntries : List (Value × Value) → Bool
  | [] => true
  | (key, v) :: m => distinctKeys key && distinctKeys v && distinctEntries m

end

theorem distinctItems_iff {items : List Value} :
    distinctItems items = true ↔ ∀ v ∈ items, v.distinctKeys = true := by
  induction items with
  | nil => simp [distinctItems]
  | cons v items ih => simp [distinctItems, ih]

theorem distinctEntries_iff {m : List (Value × Value)} :
    distinctEntries m = true ↔ ∀ e ∈ m, e.1.distinctKeys = true ∧ e.2.distinctKeys = true := by
  induction m with
  | nil => simp [distinctEntries]
  | cons e m ih =>
    obtain ⟨key, v⟩ := e
    simp [distinctEntries, ih]

theorem distinctKeys_mapping_iff {m : List (Value × Value)} :
    (mapping m).distinctKeys = true ↔
      (m.Pairwise fun e e' => e.1.same e'.1 = false) ∧ distinctEntries m = true := by
  rw [distinctKeys, Bool.and_eq_true, decide_eq_true_iff]

end Value

/-! ## Scalars -/

/-- A value without a mapping in it. -/
def Value.IsScalar : Value → Prop
  | .sequence _ => False
  | .mapping _ => False
  | .tagged _ v => v.IsScalar
  | _ => True

theorem Value.IsScalar.distinctKeys {v : Value} (h : v.IsScalar) : v.distinctKeys = true := by
  fun_induction Value.IsScalar v with
  | case1 => exact h.elim
  | case2 => exact h.elim
  | case3 _ v ih => exact ih h
  | case4 v hs hm ht =>
    cases v with
    | sequence items => exact absurd rfl (hs items)
    | mapping m => exact absurd rfl (hm m)
    | tagged t v => exact absurd rfl (ht t v)
    | _ => rfl

theorem isScalar_of_toValue {r : Resolved} {v : Value} (hr : ∀ u, r = .value u → u.IsScalar)
    (h : r.toValue = .ok v) : v.IsScalar := by
  cases r with
  | value u =>
    rw [Resolved.toValue, Except.ok.injEq] at h
    exact h ▸ hr u rfl
  | tooWide i => cases h

theorem isScalar_of_resolveInteger? {s : String} {v : Value}
    (h : resolveInteger? s = some (.value v)) : v.IsScalar := by
  obtain ⟨i, -, h⟩ := Option.bind_eq_some_iff.1 h
  split at h
  · cases h
    trivial
  · split at h <;> cases h

theorem isScalar_of_resolvePlain {s : String} {v : Value} (h : resolvePlain s = .value v) :
    v.IsScalar := by
  unfold resolvePlain at h
  split at h
  · cases h
    trivial
  · split at h
    · cases h
      trivial
    · split at h
      · rename_i r hr
        exact isScalar_of_resolveInteger? (h ▸ hr)
      · split at h <;> cases h <;> trivial

theorem isScalar_of_readUntagged {style : Style} {s : String} {v : Value}
    (h : readUntagged style s = .ok v) : v.IsScalar := by
  cases style with
  | plain => exact isScalar_of_toValue (fun _ hu => isScalar_of_resolvePlain hu) h
  | quoted =>
    cases h
    trivial

theorem isScalar_of_readTagged {tag : Tag} {s : String} {v : Value} (h : readTagged s tag = .ok v) :
    v.IsScalar := by
  unfold readTagged at h
  split at h
  · split at h <;> cases h
    trivial
  · split at h
    · rename_i r hr
      exact isScalar_of_toValue (fun u hu => isScalar_of_resolveInteger? (hu ▸ hr)) h
    · cases h
  · split at h <;> cases h
    trivial
  · split at h <;> cases h
    trivial
  · cases h
    trivial

theorem isScalar_of_readScalar {tag : Option Tag} {style : Style} {s : String} {v : Value}
    (h : readScalar tag style s = .ok v) : v.IsScalar := by
  unfold readScalar at h
  split at h
  · exact isScalar_of_readUntagged h
  · cases hu : readUntagged style s with
    | error e =>
      rw [hu] at h
      cases h
    | ok u =>
      rw [hu] at h
      cases h
      show u.IsScalar
      exact isScalar_of_readUntagged hu
  · exact isScalar_of_readTagged h
  · exact isScalar_of_readUntagged h

/-! ## The interpreter -/

namespace Interpreter

variable {α β : Type} {P : α → Prop} {Q : β → Prop}

/-- Whatever is returned satisfies `P`. -/
def Yields (x : Interpreter α) (P : α → Prop) : Prop :=
  ∀ count a count', x.run count = .ok (a, count') → P a

theorem yields_pure {a : α} (h : P a) : Yields (pure a) P := by
  intro count a' count' hrun
  rw [StateT.run_pure, pure_eq_ok_iff] at hrun
  cases hrun
  exact h

theorem yields_throw {e : ReadError} : Yields (throw e) P := by
  intro count a count' hrun
  cases hrun

theorem yields_bind {x : Interpreter α} {f : α → Interpreter β} (hx : Yields x P)
    (hf : ∀ a, P a → Yields (f a) Q) : Yields (x >>= f) Q := by
  intro count b count' hrun
  rw [StateT.run_bind, bind_eq_ok_iff] at hrun
  obtain ⟨⟨a, next⟩, ha, hb⟩ := hrun
  exact hf a (hx count a next ha) next b count' hb

theorem yields_of_bind {x : Interpreter α} {f : α → Interpreter β} (hf : ∀ a, Yields (f a) Q) :
    Yields (x >>= f) Q :=
  yields_bind (P := fun _ => True) (fun _ _ _ _ => trivial) fun a _ => hf a

theorem yields_map {x : Interpreter α} {f : α → β} (hx : Yields x P) (hf : ∀ a, P a → Q (f a)) :
    Yields (f <$> x) Q := by
  intro count b count' hrun
  rw [StateT.run_map, map_eq_ok_iff] at hrun
  obtain ⟨⟨a, next⟩, ha, hb⟩ := hrun
  cases hb
  exact hf a (hx count a next ha)

variable {read : Path → Node → Interpreter Value}
  (hread : ∀ path node, Yields (read path node) (Value.distinctKeys · = true))

include hread

theorem yields_items (path : Path) (i : Nat) (nodes : List Node) :
    Yields (items read path i nodes) fun vs => ∀ v ∈ vs, v.distinctKeys = true := by
  induction nodes generalizing i with
  | nil => exact yields_pure nofun
  | cons node nodes ih =>
    refine yields_bind (hread _ node) fun v hv => yields_bind (ih (i + 1)) fun vs hvs => ?_
    exact yields_pure (List.forall_mem_cons.2 ⟨hv, hvs⟩)

theorem yields_entries (mark : Mark) (path : Path) (before : List (Value × Value))
    (nodes : List Node) (hbefore : (Value.mapping before.reverse).distinctKeys = true) :
    Yields (entries read mark path before nodes) fun m => (Value.mapping m).distinctKeys = true := by
  fun_induction entries read mark path before nodes with
  | case1 before => exact yields_pure hbefore
  | case2 before node => exact yields_of_bind fun _ => yields_pure hbefore
  | case3 before node next nodes ih =>
    refine yields_bind (hread path node) fun key hkey => ?_
    cases hfind : before.find? (·.1.same key) with
    | some known => exact yields_throw
    | none =>
      refine yields_bind (hread _ next) fun v hv => ih key v ?_
      obtain ⟨hpair, hentries⟩ := Value.distinctKeys_mapping_iff.1 hbefore
      rw [List.reverse_cons]
      refine Value.distinctKeys_mapping_iff.2 ⟨?_, ?_⟩
      · refine List.pairwise_append.2 ⟨hpair, List.pairwise_singleton _ _, fun e he e' he' => ?_⟩
        rw [List.mem_singleton.1 he']
        simpa using List.find?_eq_none.1 hfind e (List.mem_reverse.1 he)
      · rw [Value.distinctEntries_iff] at hentries ⊢
        refine List.forall_mem_append.2 ⟨hentries, fun e he => ?_⟩
        rw [List.mem_singleton.1 he]
        exact ⟨hkey, hv⟩

omit hread

/-- One level of the interpretation, given the level below where there is one. -/
theorem yields_interpret_of {refs : References} {depth : Nat}
    (hbelow : ∀ d, depth = d + 1 → ∀ path node,
      Yields (interpret refs d path node) (Value.distinctKeys · = true))
    (path : Path) (node : Node) :
    Yields (interpret refs depth path node) (Value.distinctKeys · = true) := by
  unfold interpret
  refine yields_of_bind fun x => ?_
  obtain ⟨path, node⟩ := x
  cases node with
  | scalar mark properties style text =>
    dsimp only
    cases hv : readScalar (properties.tag.map Tag.ofOctets) style text with
    | ok v => exact yields_pure (isScalar_of_readScalar hv).distinctKeys
    | error refusal => exact yields_throw
  | collection mark properties kind nodes =>
    cases depth with
    | zero => exact yields_throw
    | succ depth =>
      have hread := hbelow depth rfl
      cases kind with
      | sequence =>
        refine yields_bind (P := (Value.distinctKeys · = true)) ?_ fun v hv => yields_pure ?_
        · exact yields_map (yields_items hread path 0 nodes) fun _ hvs => Value.distinctItems_iff.2 hvs
        · split
          · exact hv
          · exact hv
      | mapping =>
        refine yields_bind (P := (Value.distinctKeys · = true)) ?_ fun v hv => yields_pure ?_
        · exact yields_map (yields_entries hread mark path [] nodes rfl) fun _ hm => hm
        · split
          · exact hv
          · exact hv
  | reference mark number => exact yields_throw
  | broken fault => exact yields_throw

theorem yields_interpret (refs : References) (depth : Nat) (path : Path) (node : Node) :
    Yields (interpret refs depth path node) (Value.distinctKeys · = true) := by
  induction depth generalizing path node with
  | zero => exact yields_interpret_of (fun d hd => absurd hd.symm (Nat.succ_ne_zero d)) path node
  | succ depth ih =>
    refine yields_interpret_of (fun d hd => ?_) path node
    rw [← Nat.succ.inj hd]
    exact ih

end Interpreter

/-! ## Documents -/

theorem distinctKeys_of_read {text : List Char} {v : Value} (h : read text = .ok v) :
    v.distinctKeys = true := by
  unfold read Document.value at h
  dsimp only at h
  split at h
  · obtain ⟨u, hu, h⟩ := bind_eq_ok_iff.1 h
    split at h
    · cases h
    · split at h
      · cases h
      · rw [← pure_eq_ok_iff.1 h, ← pure_eq_ok_iff.1 hu]
        rfl
  · obtain ⟨u, hu, h⟩ := bind_eq_ok_iff.1 h
    split at h
    · cases h
    · split at h
      · cases h
      · rw [← pure_eq_ok_iff.1 h]
        obtain ⟨⟨w, count⟩, hrun, rfl⟩ := map_eq_ok_iff.1 hu
        exact Interpreter.yields_interpret _ _ _ _ _ _ _ hrun

end TapeMachine.Yaml
