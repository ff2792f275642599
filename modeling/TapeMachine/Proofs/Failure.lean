import TapeMachine.Dict

/-!
# Computations that fail

What the errors of a computation have in common is shown by going through the computations that it is made of.  An
error of a fold or of a traversal is that of the first element at which there is one, and does not depend on what comes
after it.
-/

namespace TapeMachine

variable {ε ε' α β κ : Type} {P : ε → Prop}

/-- If the computation fails, then with an error that has the property. -/
def FailsWith (P : ε → Prop) : Except ε α → Prop
  | .ok _ => True
  | .error e => P e

theorem failsWith_iff {x : Except ε α} : FailsWith P x ↔ ∀ e, x = .error e → P e := by
  cases x with
  | ok a => exact ⟨fun _ _ h => (nomatch h), fun _ => trivial⟩
  | error e => exact ⟨fun h _ he => Except.error.inj he ▸ h, fun h => h e rfl⟩

theorem exists_of_mapError {x : Except ε α} {f : ε → ε'} {y : ε'}
    (h : (x.mapError f).map (fun _ => ()) = .error y) : ∃ e, x = .error e ∧ f e = y := by
  cases x with
  | ok a => cases h
  | error e => exact ⟨e, rfl, Except.error.inj h⟩

theorem failsWith_error {e : ε} (h : P e) : FailsWith P (.error e : Except ε α) := h

theorem failsWith_throw {e : ε} (h : P e) : FailsWith P (throw e : Except ε α) := h

theorem FailsWith.mono {x : Except ε α} {Q : ε → Prop} (hx : FailsWith P x) (hPQ : ∀ e, P e → Q e) :
    FailsWith Q x := by
  cases x with
  | ok a => trivial
  | error e => exact hPQ e hx

theorem FailsWith.bind {x : Except ε α} {f : α → Except ε β} (hx : FailsWith P x)
    (hf : ∀ a, FailsWith P (f a)) : FailsWith P (x >>= f) := by
  cases x with
  | ok a => exact hf a
  | error e => exact hx

theorem FailsWith.map {x : Except ε α} {f : α → β} (hx : FailsWith P x) : FailsWith P (x.map f) := by
  cases x with
  | ok a => trivial
  | error e => exact hx

theorem FailsWith.mapError {x : Except ε α} {f : ε → ε'} {Q : ε' → Prop} (hx : FailsWith P x)
    (hf : ∀ e, P e → Q (f e)) : FailsWith Q (x.mapError f) := by
  cases x with
  | ok a => trivial
  | error e => exact hf e hx

theorem failsWith_mapM {f : α → Except ε β} (hf : ∀ a, FailsWith P (f a)) (as : List α) :
    FailsWith P (as.mapM f) := by
  induction as with
  | nil => trivial
  | cons a as ih =>
    rw [List.mapM_cons]
    exact (hf a).bind fun b => ih.bind fun bs => trivial

theorem failsWith_foldlM_of_mem {f : β → α → Except ε β} {as : List α} (hf : ∀ a ∈ as, ∀ b, FailsWith P (f b a))
    (b : β) : FailsWith P (as.foldlM f b) := by
  induction as generalizing b with
  | nil => trivial
  | cons a as ih =>
    obtain ⟨ha, has⟩ := List.forall_mem_cons.1 hf
    rw [List.foldlM_cons]
    exact (ha b).bind (ih has)

theorem failsWith_foldlM {f : β → α → Except ε β} (hf : ∀ b a, FailsWith P (f b a)) (as : List α) (b : β) :
    FailsWith P (as.foldlM f b) :=
  failsWith_foldlM_of_mem (fun a _ b => hf b a) b

theorem failsWith_traverse {f : κ → α → Except ε β} (hf : ∀ k v, FailsWith P (f k v)) (d : Dict κ α) :
    FailsWith P (d.traverse f) := by
  have hentries : ∀ xs : List (κ × α), FailsWith P (Dict.traverseEntries f xs) := by
    intro xs
    induction xs with
    | nil => trivial
    | cons x xs ih =>
      rw [Dict.traverseEntries]
      exact (hf x.1 x.2).bind fun w => ih.bind fun ys => trivial
  exact (hentries d.entries).bind fun ys => trivial

/-! ## Where a computation fails -/

theorem bind_eq_error_iff {x : Except ε α} {f : α → Except ε β} {e : ε} :
    (x >>= f) = .error e ↔ x = .error e ∨ ∃ a, x = .ok a ∧ f a = .error e := by
  cases x with
  | error e' => simp [bind, Except.bind]
  | ok a => simp [bind, Except.bind]

theorem pure_ne_error {a : α} {e : ε} : (pure a : Except ε α) ≠ .error e := nofun

theorem map_eq_error_iff {x : Except ε α} {f : α → β} {e : ε} : f <$> x = .error e ↔ x = .error e := by
  cases x <;> simp [Functor.map, Except.map]

theorem mapError_eq_error_iff {x : Except ε α} {f : ε → ε'} {e : ε'} :
    x.mapError f = .error e ↔ ∃ e', x = .error e' ∧ f e' = e := by
  cases x with
  | ok a => exact ⟨nofun, fun ⟨_, h, _⟩ => nomatch h⟩
  | error e' => exact ⟨fun h => ⟨e', rfl, Except.error.inj h⟩, fun ⟨_, h, he⟩ => Except.error.inj h ▸ congrArg _ he⟩

theorem foldlM_eq_error_iff {f : β → α → Except ε β} {as : List α} {b : β} {e : ε} :
    as.foldlM f b = .error e ↔
      ∃ before a after b', as = before ++ a :: after ∧ before.foldlM f b = .ok b' ∧ f b' a = .error e := by
  constructor
  · intro h
    induction as generalizing b with
    | nil => exact absurd h pure_ne_error
    | cons a as ih =>
      rw [List.foldlM_cons, bind_eq_error_iff] at h
      rcases h with h | ⟨b', hb', h⟩
      · exact ⟨[], a, as, b, rfl, rfl, h⟩
      · obtain ⟨before, a', after, b'', rfl, hbefore, h⟩ := ih h
        refine ⟨a :: before, a', after, b'', rfl, ?_, h⟩
        rw [List.foldlM_cons, hb']
        exact hbefore
  · rintro ⟨before, a, after, b', rfl, hbefore, h⟩
    rw [List.foldlM_append, hbefore]
    show (a :: after).foldlM f b' = .error e
    rw [List.foldlM_cons, h]
    rfl

namespace Dict

theorem traverseEntries_eq_error_iff {f : κ → α → Except ε β} {xs : List (κ × α)} {e : ε} :
    traverseEntries f xs = .error e ↔
      ∃ before x after, xs = before ++ x :: after ∧ (∀ y ∈ before, ∃ w, f y.1 y.2 = .ok w) ∧ f x.1 x.2 = .error e := by
  constructor
  · intro h
    induction xs with
    | nil => cases h
    | cons x xs ih =>
      rw [traverseEntries, bind_eq_error_iff] at h
      rcases h with h | ⟨w, hw, h⟩
      · exact ⟨[], x, xs, rfl, nofun, h⟩
      · rcases bind_eq_error_iff.1 h with h | ⟨ys, -, h⟩
        · obtain ⟨before, x', after, rfl, hbefore, h⟩ := ih h
          exact ⟨x :: before, x', after, rfl, List.forall_mem_cons.2 ⟨⟨w, hw⟩, hbefore⟩, h⟩
        · exact absurd h pure_ne_error
  · rintro ⟨before, x, after, rfl, hbefore, h⟩
    induction before with
    | nil =>
      rw [List.nil_append, traverseEntries, h]
      rfl
    | cons y before ih =>
      obtain ⟨⟨w, hw⟩, hbefore⟩ := List.forall_mem_cons.1 hbefore
      rw [List.cons_append, traverseEntries, hw, ih hbefore]
      rfl

/-- A traversal stops at the first value that cannot be made. -/
theorem traverse_eq_error_iff {f : κ → α → Except ε β} {d : Dict κ α} {e : ε} :
    d.traverse f = .error e ↔
      ∃ before x after, d.entries = before ++ x :: after ∧ (∀ y ∈ before, ∃ w, f y.1 y.2 = .ok w) ∧
        f x.1 x.2 = .error e := by
  rw [← traverseEntries_eq_error_iff, traverse, bind_eq_error_iff]
  exact or_iff_left fun ⟨_, _, h⟩ => absurd h pure_ne_error

end Dict

end TapeMachine
