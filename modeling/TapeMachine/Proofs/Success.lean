import Mathlib.Data.List.Forall2
import TapeMachine.Dict

/-!
# Computations that succeed

When a sequence, a traversal or a fold of computations that can fail succeeds, and with which result.
Traversals are described by `List.Forall₂`: the inputs and the results correspond one by one.
-/

namespace TapeMachine

variable {ε ε' α β γ κ : Type}

theorem bind_eq_ok_iff {x : Except ε α} {f : α → Except ε β} {b : β} :
    (x >>= f) = .ok b ↔ ∃ a, x = .ok a ∧ f a = .ok b := by
  cases x with
  | error e => simp [bind, Except.bind]
  | ok a => simp [bind, Except.bind]

theorem pure_eq_ok_iff {a b : α} : (pure a : Except ε α) = .ok b ↔ a = b := by
  simp [pure, Except.pure]

theorem map_eq_ok_iff {f : α → β} {x : Except ε α} {b : β} :
    f <$> x = .ok b ↔ ∃ a, x = .ok a ∧ b = f a := by
  cases x with
  | error e => simp
  | ok a => simp [eq_comm (a := b)]

theorem throw_ne_ok {e : ε} {a : α} : (throw e : Except ε α) ≠ .ok a := by
  simp [throw, throwThe, MonadExceptOf.throw]

theorem mapError_eq_ok_iff {x : Except ε α} {f : ε → ε'} {a : α} :
    x.mapError f = .ok a ↔ x = .ok a := by
  cases x <;> simp [Except.mapError]

theorem exists_of_toOption_map {x : Except ε α} {f : α → β} {b : β} (h : x.toOption.map f = some b) :
    ∃ a, x = .ok a ∧ f a = b := by
  cases x with
  | error e => cases h
  | ok a => exact ⟨a, rfl, Option.some.inj h⟩

theorem mapM_eq_ok_iff {f : α → Except ε β} {xs : List α} {ys : List β} :
    xs.mapM f = .ok ys ↔ List.Forall₂ (fun x y => f x = .ok y) xs ys := by
  induction xs generalizing ys with
  | nil => rw [List.mapM_nil, pure_eq_ok_iff, List.forall₂_nil_left_iff, eq_comm]
  | cons x xs ih =>
    simp only [List.mapM_cons, bind_eq_ok_iff, pure_eq_ok_iff, ih, List.forall₂_cons_left_iff]
    constructor
    · rintro ⟨y, hy, ys, hys, rfl⟩
      exact ⟨y, ys, hy, hys, rfl⟩
    · rintro ⟨y, ys, hy, hys, rfl⟩
      exact ⟨y, hy, ys, hys, rfl⟩

theorem mapM_eq_some_iff {f : α → Option β} {xs : List α} {ys : List β} :
    xs.mapM f = some ys ↔ List.Forall₂ (fun x y => f x = some y) xs ys := by
  induction xs generalizing ys with
  | nil => simp [List.forall₂_nil_left_iff, eq_comm]
  | cons x xs ih =>
    simp only [List.mapM_cons, List.forall₂_cons_left_iff, Option.bind_eq_bind,
      Option.bind_eq_some_iff, ih, Option.pure_def, Option.some.injEq]
    constructor
    · rintro ⟨y, hy, ys, hys, rfl⟩
      exact ⟨y, ys, hy, hys, rfl⟩
    · rintro ⟨y, ys, hy, hys, rfl⟩
      exact ⟨y, hy, ys, hys, rfl⟩

theorem exists_forall₂_iff {R : α → β → Prop} {xs : List α} :
    (∃ ys, List.Forall₂ R xs ys) ↔ ∀ x ∈ xs, ∃ y, R x y := by
  induction xs with
  | nil => simp
  | cons x xs ih =>
    simp only [List.forall₂_cons_left_iff, List.forall_mem_cons, ← ih]
    constructor
    · rintro ⟨_, y, ys, hy, hys, rfl⟩
      exact ⟨⟨y, hy⟩, ys, hys⟩
    · rintro ⟨⟨y, hy⟩, ys, hys⟩
      exact ⟨_, y, ys, hy, hys, rfl⟩

theorem forall₂_append_left_iff {R : α → β → Prop} {xs xs' : List α} {zs : List β} :
    List.Forall₂ R (xs ++ xs') zs ↔
      ∃ ys ys', List.Forall₂ R xs ys ∧ List.Forall₂ R xs' ys' ∧ zs = ys ++ ys' := by
  induction xs generalizing zs with
  | nil => simp
  | cons x xs ih =>
    simp only [List.cons_append, List.forall₂_cons_left_iff, ih]
    constructor
    · rintro ⟨y, _, hy, ⟨ys, ys', hys, hys', rfl⟩, rfl⟩
      exact ⟨y :: ys, ys', ⟨y, ys, hy, hys, rfl⟩, hys', rfl⟩
    · rintro ⟨_, ys', ⟨y, ys, hy, hys, rfl⟩, hys', rfl⟩
      exact ⟨y, ys ++ ys', hy, ⟨ys, ys', hys, hys', rfl⟩, rfl⟩

theorem exists_of_mem_right {R : α → β → Prop} {xs : List α} {ys : List β}
    (h : List.Forall₂ R xs ys) {y : β} (hy : y ∈ ys) : ∃ x ∈ xs, R x y := by
  induction h with
  | nil => cases hy
  | cons hxy _ ih =>
    rcases List.mem_cons.1 hy with rfl | hy
    · exact ⟨_, List.mem_cons_self, hxy⟩
    · obtain ⟨x, hx, hR⟩ := ih hy
      exact ⟨x, List.mem_cons_of_mem _ hx, hR⟩

theorem exists_of_mem_left {R : α → β → Prop} {xs : List α} {ys : List β}
    (h : List.Forall₂ R xs ys) {x : α} (hx : x ∈ xs) : ∃ y ∈ ys, R x y :=
  exists_of_mem_right h.flip hx

theorem exists_forall₂_and {R : α → β → Prop} {S : α → γ → Prop} {xs : List α} {ys : List β}
    (h : List.Forall₂ R xs ys) (hS : ∀ x ∈ xs, ∃ z, S x z) :
    ∃ ws : List (β × γ), List.Forall₂ (fun x w => R x w.1 ∧ S x w.2) xs ws ∧ ws.map Prod.fst = ys := by
  induction h with
  | nil => exact ⟨[], .nil, rfl⟩
  | @cons x y xs ys hxy _ ih =>
    obtain ⟨z, hz⟩ := hS x List.mem_cons_self
    obtain ⟨ws, hws, hfst⟩ := ih fun x hx => hS x (List.mem_cons_of_mem _ hx)
    exact ⟨(y, z) :: ws, .cons ⟨hxy, hz⟩ hws, congrArg (y :: ·) hfst⟩

theorem map_eq_map_of_forall₂ {f : α → γ} {g : β → γ} {xs : List α} {ys : List β}
    (h : List.Forall₂ (fun x y => f x = g y) xs ys) : xs.map f = ys.map g := by
  rw [← List.forall₂_eq_eq_eq, List.forall₂_map_left_iff, List.forall₂_map_right_iff]
  exact h

theorem exists_append_of_forall₂ {R : α → β → Prop} {xs : List α} {before after : List β} {y : β}
    (h : List.Forall₂ R xs (before ++ y :: after)) :
    ∃ before' x after', xs = before' ++ x :: after' ∧ List.Forall₂ R before' before ∧ R x y ∧
      List.Forall₂ R after' after := by
  obtain ⟨before', rest, hbefore, hrest, rfl⟩ := forall₂_append_left_iff.1 h.flip
  obtain ⟨x, after', hx, hafter, rfl⟩ := List.forall₂_cons_left_iff.1 hrest
  exact ⟨before', x, after', rfl, hbefore.flip, hx, hafter.flip⟩

theorem exists_getLast?_of_forall₂ {R : α → β → Prop} {xs : List α} {ys : List β}
    (h : List.Forall₂ R xs ys) {y : β} (hy : ys.getLast? = some y) :
    ∃ x, xs.getLast? = some x ∧ R x y := by
  obtain ⟨before, rfl⟩ := List.getLast?_eq_some_iff.1 hy
  obtain ⟨before', x, _, rfl, -, hx, hnil⟩ := exists_append_of_forall₂ h
  cases hnil
  exact ⟨x, List.getLast?_concat, hx⟩

/-- The first of the results with a property comes from an input before which none has it. -/
theorem exists_append_of_find? {R : α → β → Prop} {xs : List α} {ys : List β}
    (h : List.Forall₂ R xs ys) {p : β → Bool} {y : β} (hy : ys.find? p = some y) :
    ∃ before x after, xs = before ++ x :: after ∧ R x y ∧ p y = true ∧
      ∀ x' ∈ before, ∃ y', R x' y' ∧ p y' = false := by
  obtain ⟨hp, before, after, rfl, hbefore⟩ := List.find?_eq_some_iff_append.1 hy
  obtain ⟨before', x, after', rfl, hR, hx, -⟩ := exists_append_of_forall₂ h
  refine ⟨before', x, after', rfl, hx, hp, fun x' hx' => ?_⟩
  obtain ⟨y', hy', hR'⟩ := exists_of_mem_left hR hx'
  exact ⟨y', hR', by simpa using hbefore y' hy'⟩

namespace Dict

/-! ## Dictionaries -/

theorem traverseEntries_eq_ok_iff {f : κ → α → Except ε β} {xs : List (κ × α)}
    {r : { ys : List (κ × β) // ys.map Prod.fst = xs.map Prod.fst }} :
    traverseEntries f xs = .ok r ↔
      List.Forall₂ (fun x y => y.1 = x.1 ∧ f x.1 x.2 = .ok y.2) xs r.1 := by
  induction xs with
  | nil =>
    obtain ⟨ys, h⟩ := r
    obtain rfl := List.map_eq_nil_iff.1 h
    simp [traverseEntries]
  | cons x xs ih =>
    obtain ⟨ys, h⟩ := r
    simp only [traverseEntries, bind_eq_ok_iff, pure_eq_ok_iff, Subtype.mk.injEq,
      List.forall₂_cons_left_iff]
    constructor
    · rintro ⟨w, hw, r, hr, rfl⟩
      exact ⟨_, _, ⟨rfl, hw⟩, ih.1 hr, rfl⟩
    · rintro ⟨⟨k, w⟩, zs, ⟨rfl, hw⟩, hzs, rfl⟩
      exact ⟨w, hw, ⟨zs, (List.cons.inj h).2⟩, ih.2 hzs, rfl⟩

theorem traverse_eq_ok_iff {f : κ → α → Except ε β} {d : Dict κ α} {e : Dict κ β} :
    d.traverse f = .ok e ↔
      List.Forall₂ (fun x y => y.1 = x.1 ∧ f x.1 x.2 = .ok y.2) d.entries e.entries := by
  simp only [traverse, bind_eq_ok_iff, pure_eq_ok_iff, traverseEntries_eq_ok_iff]
  constructor
  · rintro ⟨r, hr, rfl⟩
    exact hr
  · intro h
    have hkeys : List.Forall₂ (fun x y => x = y) (e.entries.map Prod.fst) (d.entries.map Prod.fst) := by
      rw [List.forall₂_map_left_iff, List.forall₂_map_right_iff]
      exact h.flip.imp fun _ _ hxy => hxy.1
    rw [List.forall₂_eq_eq_eq] at hkeys
    exact ⟨⟨e.entries, hkeys⟩, h, rfl⟩

theorem traverse_map {α' : Type} {f : κ → α → Except ε β} {f' : κ → α' → Except ε β} {g : κ → α → α'} {d : Dict κ α}
    {e : Dict κ β} (h : d.traverse f = .ok e)
    (hg : ∀ k v w, (k, v) ∈ d.entries → f k v = .ok w → f' k (g k v) = .ok w) :
    (d.map g).traverse f' = .ok e := by
  rw [traverse_eq_ok_iff, map, List.forall₂_map_left_iff]
  have hrows := (List.forall₂_and_left _ _).2 ⟨fun _ hx => hx, traverse_eq_ok_iff.1 h⟩
  exact hrows.imp fun x y hxy => ⟨hxy.2.1, hg x.1 x.2 y.2 hxy.1 hxy.2.2⟩

theorem exists_traverse_iff {f : κ → α → Except ε β} {d : Dict κ α} :
    (∃ e, d.traverse f = .ok e) ↔ ∀ x ∈ d.entries, ∃ w, f x.1 x.2 = .ok w := by
  constructor
  · rintro ⟨e, he⟩ x hx
    obtain ⟨y, -, -, hy⟩ := exists_of_mem_left (traverse_eq_ok_iff.1 he) hx
    exact ⟨y.2, hy⟩
  · intro h
    have hpairs : ∀ x ∈ d.entries, ∃ y : κ × β, y.1 = x.1 ∧ f x.1 x.2 = .ok y.2 := by
      intro x hx
      obtain ⟨w, hw⟩ := h x hx
      exact ⟨(x.1, w), rfl, hw⟩
    obtain ⟨ys, hys⟩ := exists_forall₂_iff.2 hpairs
    have hkeys : ys.map Prod.fst = d.keys := by
      rw [← List.forall₂_eq_eq_eq, keys, List.forall₂_map_left_iff, List.forall₂_map_right_iff]
      exact hys.flip.imp fun _ _ hxy => hxy.1
    exact ⟨⟨ys, hkeys ▸ d.nodup_keys⟩, traverse_eq_ok_iff.2 hys⟩

theorem keys_traverse {f : κ → α → Except ε β} {d : Dict κ α} {e : Dict κ β}
    (h : d.traverse f = .ok e) : e.keys = d.keys := by
  simp only [traverse, bind_eq_ok_iff, pure_eq_ok_iff] at h
  obtain ⟨⟨ys, hys⟩, -, rfl⟩ := h
  exact hys

theorem exists_of_mem_traverse {f : κ → α → Except ε β} {d : Dict κ α} {e : Dict κ β}
    (h : d.traverse f = .ok e) {k : κ} {w : β} (hk : (k, w) ∈ e.entries) :
    ∃ v, (k, v) ∈ d.entries ∧ f k v = .ok w := by
  obtain ⟨⟨k', v⟩, hmem, hkey, hw⟩ := exists_of_mem_right (traverse_eq_ok_iff.1 h) hk
  obtain rfl : k = k' := hkey
  exact ⟨v, hmem, hw⟩

/-- A fold whose steps append to the entries of a dictionary. -/
theorem foldlM_eq_ok_iff {f : Dict κ β → α → Except ε (Dict κ β)} {S : α → γ → Prop}
    {g : γ → List (κ × β)}
    (hf : ∀ d a d', f d a = .ok d' ↔ ∃ x, S a x ∧ d'.entries = d.entries ++ g x)
    {m : List α} {d d' : Dict κ β} :
    m.foldlM f d = .ok d' ↔
      ∃ xs, List.Forall₂ S m xs ∧ d'.entries = d.entries ++ xs.flatMap g := by
  induction m generalizing d with
  | nil =>
    simp only [List.foldlM_nil, pure_eq_ok_iff, List.forall₂_nil_left_iff, exists_eq_left,
      List.flatMap_nil, List.append_nil]
    exact ⟨fun h => h ▸ rfl, fun h => (ext_entries h).symm⟩
  | cons a m ih =>
    simp only [List.foldlM_cons, bind_eq_ok_iff, hf, ih, List.forall₂_cons_left_iff]
    constructor
    · rintro ⟨e, ⟨x, hx, he⟩, xs, hxs, hd'⟩
      exact ⟨x :: xs, ⟨x, xs, hx, hxs, rfl⟩, by simp [hd', he]⟩
    · rintro ⟨_, ⟨x, xs, hx, hxs, rfl⟩, hd'⟩
      rw [List.flatMap_cons, ← List.append_assoc] at hd'
      -- the entries so far are an initial part of those of `d'`
      have hnodup : ((d.entries ++ g x).map Prod.fst).Nodup := by
        have h := d'.nodup_keys
        rw [hd', List.map_append] at h
        exact (List.nodup_append.1 h).1
      exact ⟨⟨d.entries ++ g x, hnodup⟩, ⟨x, hx, rfl⟩, xs, hxs, hd'⟩

variable [DecidableEq κ]

/-- The keys of a dictionary are distinct, so whatever has one more entry was allowed to get it. -/
theorem add?_eq_some_iff_entries {d e : Dict κ α} {k : κ} {v : α} :
    d.add? k v = some e ↔ e.entries = d.entries ++ [(k, v)] := by
  refine add?_eq_some_iff.trans (and_iff_right_of_imp fun he hk => ?_)
  have h := e.nodup_keys
  rw [he, List.map_append, List.nodup_append] at h
  exact h.2.2 k hk k (by simp) rfl

theorem lookup_cons_eq_ite (x : κ × α) (xs : List (κ × α)) (k : κ) :
    (x :: xs).lookup k = if k = x.1 then some x.2 else xs.lookup k := by
  obtain ⟨a, b⟩ := x
  by_cases h : k = a
  · simp [h]
  · simp [List.lookup_cons, h, beq_eq_false_iff_ne.2 h]

theorem replaced_cons (x : κ × α) (xs : List (κ × α)) (k : κ) (v : α) :
    replaced (x :: xs) k v = (if x.1 = k then (k, v) else x) :: replaced xs k v := rfl

theorem lookup_replaced_of_ne (xs : List (κ × α)) (v : α) {k l : κ} (h : l ≠ k) :
    (replaced xs k v).lookup l = xs.lookup l := by
  induction xs with
  | nil => rfl
  | cons x xs ih =>
    rw [replaced_cons, lookup_cons_eq_ite, lookup_cons_eq_ite, ih]
    by_cases hx : x.1 = k <;> simp [hx, h]

theorem lookup_replaced_self {xs : List (κ × α)} {k : κ} (v : α) (h : k ∈ xs.map Prod.fst) :
    (replaced xs k v).lookup k = some v := by
  induction xs with
  | nil => cases h
  | cons x xs ih =>
    rw [replaced_cons, lookup_cons_eq_ite]
    by_cases hx : x.1 = k
    · simp [hx]
    · rcases List.mem_cons.1 h with hk | hk
      · exact absurd hk.symm hx
      · simp [hx, Ne.symm hx, ih hk]

theorem get?_insert (d : Dict κ α) (k : κ) (v : α) (l : κ) :
    (d.insert k v).get? l = if l = k then some v else d.get? l := by
  by_cases hl : l = k
  · subst hl
    rw [if_pos rfl]
    by_cases h : l ∈ d.keys
    · rw [insert, dif_pos h]
      exact lookup_replaced_self v h
    · have hnone : d.entries.lookup l = none := get?_eq_none_iff.2 h
      simp [insert, h, get?, push, List.lookup_append, hnone]
  · rw [if_neg hl]
    by_cases h : k ∈ d.keys
    · rw [insert, dif_pos h]
      exact lookup_replaced_of_ne d.entries v hl
    · simp [insert, h, get?, push, List.lookup_append, lookup_cons_eq_ite, hl]

theorem mem_of_lookup {xs : List (κ × α)} {k : κ} {v : α} (h : xs.lookup k = some v) :
    (k, v) ∈ xs := by
  obtain ⟨l, l', rfl, -⟩ := List.lookup_eq_some_iff.1 h
  simp

theorem entries_ofList {xs : List (κ × α)} (h : (xs.map Prod.fst).Nodup) : (ofList xs).entries = xs := by
  have hfold : ∀ d : Dict κ α, ((d.entries ++ xs).map Prod.fst).Nodup →
      (xs.foldl (fun d x => d.insert x.1 x.2) d).entries = d.entries ++ xs := by
    clear h
    induction xs with
    | nil => exact fun d _ => (List.append_nil _).symm
    | cons x xs ih =>
      intro d hd
      have hnew : x.1 ∉ d.keys := by
        intro hx
        rw [List.map_append, List.nodup_append] at hd
        exact hd.2.2 x.1 hx x.1 (by simp) rfl
      have hentries := entries_insert_of_not_mem x.2 hnew
      rw [← List.singleton_append, ← List.append_assoc] at hd
      rw [List.foldl_cons, ih _ (hentries ▸ hd), hentries, List.append_assoc, List.singleton_append]
  exact hfold empty h

/-- Of the values that are given to a key the last one counts. -/
theorem get?_ofList (xs : List (κ × α)) (k : κ) : (ofList xs).get? k = xs.reverse.lookup k := by
  have hfold : ∀ (d : Dict κ α), (xs.foldl (fun d x => d.insert x.1 x.2) d).get? k =
      (xs.reverse.lookup k).or (d.get? k) := by
    induction xs with
    | nil => exact fun d => rfl
    | cons x xs ih =>
      intro d
      rw [List.foldl_cons, ih, get?_insert, List.reverse_cons, List.lookup_append]
      by_cases hk : k = x.1
      · simp [lookup_cons_eq_ite, hk]
      · simp [lookup_cons_eq_ite, hk]
  rw [ofList, hfold]
  exact Option.or_none

end Dict

end TapeMachine
