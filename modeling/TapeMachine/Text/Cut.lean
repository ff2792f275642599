/-!
# Cutting texts

A text divided at the first place where another one occurs in it, and a text without the copies of
another one at its end.
-/

namespace TapeMachine.Text

/-- What stands before and after the first occurrence. -/
def cut? (mark : List Char) : List Char → Option (List Char × List Char)
  | [] => (mark.isPrefixOf? []).map ([], ·)
  | c :: cs =>
    match mark.isPrefixOf? (c :: cs) with
    | some rest => some ([], rest)
    | none => (cut? mark cs).map fun (before, after) => (c :: before, after)

/-- Drops `mark` from the start of the text as often as it stands there, at most `n` times. -/
def dropMarks (mark : List Char) : (n : Nat) → List Char → List Char
  | 0, cs => cs
  | n + 1, cs =>
    match mark.isPrefixOf? cs with
    | some rest => dropMarks mark n rest
    | none => cs

/-- The text without the copies of `mark` at its end. -/
def trimEndMarks (mark cs : List Char) : List Char :=
  (dropMarks mark.reverse cs.length cs.reverse).reverse

theorem append_of_isPrefixOf? {xs ys rest : List Char} (h : xs.isPrefixOf? ys = some rest) :
    xs ++ rest = ys := by
  induction xs generalizing ys with
  | nil => exact (Option.some.inj h).symm
  | cons x xs ih =>
    cases ys with
    | nil => cases h
    | cons y ys =>
      change (if x == y then xs.isPrefixOf? ys else none) = some rest at h
      split at h
      · rename_i hxy
        rw [List.cons_append, ih h, eq_of_beq hxy]
      · cases h

theorem append_of_cut? {mark cs before after : List Char} (h : cut? mark cs = some (before, after)) :
    before ++ mark ++ after = cs := by
  induction cs generalizing before after with
  | nil =>
    obtain ⟨rest, hr, he⟩ := Option.map_eq_some_iff.1 h
    cases he
    exact append_of_isPrefixOf? hr
  | cons c cs ih =>
    unfold cut? at h
    split at h
    · rename_i hr
      cases h
      exact append_of_isPrefixOf? hr
    · obtain ⟨⟨b, a⟩, hc, he⟩ := Option.map_eq_some_iff.1 h
      cases he
      simpa using ih hc

theorem isPrefixOf?_eq_some_iff {xs ys rest : List Char} :
    xs.isPrefixOf? ys = some rest ↔ xs ++ rest = ys := by
  refine ⟨append_of_isPrefixOf?, ?_⟩
  rintro rfl
  induction xs with
  | nil => rfl
  | cons x xs ih =>
    change (if x == x then xs.isPrefixOf? (xs ++ rest) else none) = some rest
    rw [beq_self_eq_true, if_pos rfl, ih]

theorem cut?_of_isPrefixOf? {mark cs rest : List Char} (h : mark.isPrefixOf? cs = some rest) :
    cut? mark cs = some ([], rest) := by
  cases cs with
  | nil => rw [cut?, h, Option.map_some]
  | cons c cs => rw [cut?, h]

/-- A mark that ends in a character it does not have before is found where it first stands. -/
theorem cut?_append {init before : List Char} {last : Char} (hlast : last ∉ init)
    (hbefore : ¬ init ++ [last] <:+: before) (rest : List Char) :
    cut? (init ++ [last]) (before ++ (init ++ [last] ++ rest)) = some (before, rest) := by
  induction before with
  | nil => exact cut?_of_isPrefixOf? (isPrefixOf?_eq_some_iff.2 rfl)
  | cons c before ih =>
    have hnone : (init ++ [last]).isPrefixOf? (c :: before ++ (init ++ [last] ++ rest)) = none := by
      refine Option.eq_none_iff_forall_ne_some.2 fun tail htail => ?_
      have hmark : init ++ [last] <+: c :: before ++ (init ++ [last] ++ rest) :=
        ⟨tail, isPrefixOf?_eq_some_iff.1 htail⟩
      rcases List.prefix_or_prefix_of_prefix hmark (List.prefix_append _ _) with hinside | hacross
      · exact hbefore hinside.isInfix
      · -- the mark would end in the mark that follows, before its last character
        obtain ⟨p, hp⟩ := hacross
        have hnext : p <+: init ++ ([last] ++ rest) := by
          rw [← List.prefix_append_right_inj (c :: before), hp, ← List.append_assoc init]
          exact hmark
        have hlength : p.length ≤ init.length := by
          have := congrArg List.length hp
          simp only [List.length_append, List.length_cons, List.length_nil] at this
          omega
        have hinit : p <+: init := List.prefix_of_prefix_length_le hnext (List.prefix_append _ _) hlength
        have hmem : last ∈ p := by
          have hne : p ≠ [] := by
            rintro rfl
            exact hbefore ⟨[], [], by simpa using hp.symm⟩
          rw [← List.dropLast_concat_getLast hne, ← List.append_assoc] at hp
          have hsame := List.append_inj_right' hp rfl
          rw [← (List.cons.inj hsame).1]
          exact List.getLast_mem hne
        exact hlast (hinit.subset hmem)
    rw [List.cons_append] at hnone ⊢
    rw [cut?, hnone, ih fun h => hbefore (h.trans (List.suffix_cons c before).isInfix)]
    rfl

theorem dropMarks_suffix (mark : List Char) (n : Nat) (cs : List Char) : dropMarks mark n cs <:+ cs := by
  induction n generalizing cs with
  | zero => exact List.suffix_rfl
  | succ n ih =>
    rw [dropMarks]
    cases hmark : mark.isPrefixOf? cs with
    | none => exact List.suffix_rfl
    | some rest =>
      rw [← isPrefixOf?_eq_some_iff.1 hmark]
      exact (ih rest).trans (List.suffix_append _ _)

theorem trimEndMarks_prefix (mark cs : List Char) : trimEndMarks mark cs <+: cs := by
  rw [trimEndMarks, ← List.reverse_suffix, List.reverse_reverse]
  exact dropMarks_suffix _ _ _

end TapeMachine.Text
