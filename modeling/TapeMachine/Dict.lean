/-!
# Dictionaries in order of declaration

A dictionary is the list of its entries, with distinct keys, in the order in which the keys were first
given.  Giving a value to a known key replaces the value where it stands, and a new key comes last.
-/

namespace TapeMachine

structure Dict (κ α : Type) where
  entries : List (κ × α)
  nodup_keys : (entries.map Prod.fst).Nodup
deriving DecidableEq

namespace Dict

variable {κ α β ε : Type}

def keys (d : Dict κ α) : List κ := d.entries.map Prod.fst

def values (d : Dict κ α) : List α := d.entries.map Prod.snd

def size (d : Dict κ α) : Nat := d.entries.length

theorem ext_entries {d e : Dict κ α} (h : d.entries = e.entries) : d = e := by
  cases d; cases e; cases h; rfl

/-! ## Building -/

def empty : Dict κ α := ⟨[], List.nodup_nil⟩

@[simp] theorem entries_empty : (empty : Dict κ α).entries = [] := rfl

/-- A new entry at the end. -/
def push (d : Dict κ α) (k : κ) (v : α) (h : k ∉ d.keys) : Dict κ α where
  entries := d.entries ++ [(k, v)]
  nodup_keys := by
    rw [List.map_append, List.nodup_append]
    refine ⟨d.nodup_keys, by simp, ?_⟩
    intro a ha b hb
    simp only [List.map_cons, List.map_nil, List.mem_singleton] at hb
    rintro rfl
    exact h (hb ▸ ha)

theorem keys_mapped (f : κ → α → β) (xs : List (κ × α)) :
    (xs.map fun x => (x.1, f x.1 x.2)).map Prod.fst = xs.map Prod.fst := by
  rw [List.map_map]
  exact List.map_congr_left fun _ _ => rfl

/-- The same keys, with values made from the key and the old value. -/
def map (f : κ → α → β) (d : Dict κ α) : Dict κ β :=
  ⟨d.entries.map fun x => (x.1, f x.1 x.2), (keys_mapped f d.entries).symm ▸ d.nodup_keys⟩

@[simp] theorem keys_map (f : κ → α → β) (d : Dict κ α) : (d.map f).keys = d.keys :=
  keys_mapped f d.entries

theorem values_map (f : α → β) (d : Dict κ α) : (d.map fun _ v => f v).values = d.values.map f := by
  rw [values, values, map, List.map_map, List.map_map]
  rfl

/-- The entries with new values, in order, up to the first failure. -/
def traverseEntries (f : κ → α → Except ε β) :
    (xs : List (κ × α)) → Except ε { ys : List (κ × β) // ys.map Prod.fst = xs.map Prod.fst }
  | [] => .ok ⟨[], rfl⟩
  | (k, v) :: xs => do
    let w ← f k v
    let ⟨ys, h⟩ ← traverseEntries f xs
    return ⟨(k, w) :: ys, congrArg (k :: ·) h⟩

/-- The same keys with new values, unless one of them cannot be made: then the first failure. -/
def traverse (f : κ → α → Except ε β) (d : Dict κ α) : Except ε (Dict κ β) := do
  let ⟨ys, h⟩ ← traverseEntries f d.entries
  return ⟨ys, h.symm ▸ d.nodup_keys⟩

variable [DecidableEq κ]

/-- The entries with `v` as the value of `k`. -/
def replaced (xs : List (κ × α)) (k : κ) (v : α) : List (κ × α) :=
  xs.map fun x => if x.1 = k then (k, v) else x

theorem keys_replaced (xs : List (κ × α)) (k : κ) (v : α) :
    (replaced xs k v).map Prod.fst = xs.map Prod.fst := by
  rw [replaced, List.map_map]
  refine List.map_congr_left fun x _ => ?_
  by_cases h : x.1 = k <;> simp [h]

/-- A new value for a known key. -/
def replace (d : Dict κ α) (k : κ) (v : α) : Dict κ α :=
  ⟨replaced d.entries k v, (keys_replaced d.entries k v).symm ▸ d.nodup_keys⟩

def insert (d : Dict κ α) (k : κ) (v : α) : Dict κ α :=
  if h : k ∈ d.keys then d.replace k v else d.push k v h

/-- The dictionary with one more key, if the key is new. -/
def add? (d : Dict κ α) (k : κ) (v : α) : Option (Dict κ α) :=
  if h : k ∈ d.keys then none else some (d.push k v h)

/-- The entries given one after the other. -/
def ofList (xs : List (κ × α)) : Dict κ α := xs.foldl (fun d x => d.insert x.1 x.2) empty

theorem keys_insert_of_mem {d : Dict κ α} {k : κ} (v : α) (h : k ∈ d.keys) :
    (d.insert k v).keys = d.keys := by
  rw [insert, dif_pos h]
  exact keys_replaced d.entries k v

theorem entries_insert_of_not_mem {d : Dict κ α} {k : κ} (v : α) (h : k ∉ d.keys) :
    (d.insert k v).entries = d.entries ++ [(k, v)] := by
  rw [insert, dif_neg h]
  rfl

theorem keys_insert_of_not_mem {d : Dict κ α} {k : κ} (v : α) (h : k ∉ d.keys) :
    (d.insert k v).keys = d.keys ++ [k] := by
  rw [keys, entries_insert_of_not_mem v h, List.map_append]
  rfl

theorem add?_eq_none_iff {d : Dict κ α} {k : κ} {v : α} : d.add? k v = none ↔ k ∈ d.keys := by
  unfold add?
  split <;> simp_all

theorem add?_eq_some_iff {d e : Dict κ α} {k : κ} {v : α} :
    d.add? k v = some e ↔ k ∉ d.keys ∧ e.entries = d.entries ++ [(k, v)] := by
  unfold add?
  split
  · simp_all
  · rename_i h
    simp only [Option.some.injEq, h, not_false_eq_true, true_and]
    exact ⟨fun he => he ▸ rfl, fun he => ext_entries he.symm⟩

/-! ## Looking up -/

def get? (d : Dict κ α) (k : κ) : Option α := d.entries.lookup k

def contains (d : Dict κ α) (k : κ) : Bool := decide (k ∈ d.keys)

@[simp] theorem contains_eq_true {d : Dict κ α} {k : κ} : d.contains k = true ↔ k ∈ d.keys := by
  simp [contains]

theorem lookup_isSome_iff (xs : List (κ × α)) (k : κ) :
    (xs.lookup k).isSome ↔ k ∈ xs.map Prod.fst := by
  induction xs with
  | nil => simp
  | cons x xs ih =>
    obtain ⟨a, b⟩ := x
    by_cases h : k = a
    · subst h; simp
    · have hb : (k == a) = false := by simpa using h
      simp [List.lookup_cons, hb, ih, h]

theorem lookup_eq_some_iff {xs : List (κ × α)} (hd : (xs.map Prod.fst).Nodup) {k : κ} {v : α} :
    xs.lookup k = some v ↔ (k, v) ∈ xs := by
  induction xs with
  | nil => simp
  | cons x xs ih =>
    obtain ⟨a, b⟩ := x
    simp only [List.map_cons, List.nodup_cons] at hd
    rw [List.mem_cons]
    by_cases h : k = a
    · subst h
      have : (k, v) ∉ xs := fun hm => hd.1 (List.mem_map.2 ⟨_, hm, rfl⟩)
      simp [this, eq_comm]
    · have hb : (k == a) = false := by simpa using h
      simp [List.lookup_cons, hb, h, ih hd.2]

theorem lookup_mapped (f : κ → α → β) (xs : List (κ × α)) (k : κ) :
    (xs.map fun x => (x.1, f x.1 x.2)).lookup k = (xs.lookup k).map (f k) := by
  induction xs with
  | nil => rfl
  | cons x xs ih =>
    obtain ⟨a, b⟩ := x
    by_cases h : k = a
    · subst h; simp
    · have hb : (k == a) = false := by simpa using h
      simp [List.lookup_cons, hb, ih]

theorem isSome_get? (d : Dict κ α) (k : κ) : (d.get? k).isSome ↔ k ∈ d.keys :=
  lookup_isSome_iff d.entries k

theorem get?_eq_none_iff {d : Dict κ α} {k : κ} : d.get? k = none ↔ k ∉ d.keys := by
  rw [← isSome_get?, Option.not_isSome_iff_eq_none]

theorem get?_eq_some_iff {d : Dict κ α} {k : κ} {v : α} :
    d.get? k = some v ↔ (k, v) ∈ d.entries :=
  lookup_eq_some_iff d.nodup_keys

theorem mem_values_iff {d : Dict κ α} {v : α} : v ∈ d.values ↔ ∃ k, d.get? k = some v := by
  simp only [values, List.mem_map, get?_eq_some_iff, Prod.exists, exists_eq_right]

theorem get?_eq_find? (d : Dict κ α) (k : κ) :
    d.get? k = (d.entries.find? (·.1 == k)).map Prod.snd := by
  rw [get?]
  induction d.entries with
  | nil => rfl
  | cons x xs ih =>
    obtain ⟨a, b⟩ := x
    rw [List.lookup_cons, List.find?_cons, ih, Bool.beq_comm]
    cases a == k <;> rfl

@[simp] theorem get?_map (f : κ → α → β) (d : Dict κ α) (k : κ) :
    (d.map f).get? k = (d.get? k).map (f k) :=
  lookup_mapped f d.entries k

end Dict

end TapeMachine
