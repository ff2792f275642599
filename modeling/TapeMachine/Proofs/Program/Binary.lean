import Mathlib.Data.List.DropRight
import TapeMachine.Proofs.Machine.Execution

/-!
# Binary words

The words that the bundled machines for binary numbers are for, with the most significant digit first, and
how they stand on a tape while the head goes over them.  A machine that does nothing on the digits but go to
the right is an automaton that reads the word.
-/

namespace TapeMachine

/-- The digits of a binary number, the most significant one first. -/
abbrev Word := List Bool

namespace Word

def digit : Bool → Symbol
  | false => '0'
  | true => '1'

def digits (w : Word) : List Symbol := w.map digit

/-- The number that a word writes; the empty word writes 0. -/
def value (w : Word) : Nat := w.foldl (fun n b => 2 * n + b.toNat) 0

@[simp] theorem digits_cons (b : Bool) (w : Word) : digits (b :: w) = digit b :: digits w := rfl

@[simp] theorem digits_append (u v : Word) : digits (u ++ v) = digits u ++ digits v := List.map_append

@[simp] theorem digits_replicate (k : Nat) (b : Bool) : digits (.replicate k b) = .replicate k (digit b) :=
  List.map_replicate

@[simp] theorem length_digits (w : Word) : (digits w).length = w.length := List.length_map digit

theorem digit_ne_blank (b : Bool) : digit b ≠ ' ' := by cases b <;> decide

theorem ne_blank_of_mem_digits {w : Word} {c : Symbol} (h : c ∈ digits w) : c ≠ ' ' := by
  obtain ⟨b, -, rfl⟩ := List.mem_map.1 h
  exact digit_ne_blank b

theorem value_concat (w : Word) (b : Bool) : value (w ++ [b]) = 2 * value w + b.toNat := by
  rw [value, List.foldl_append]
  rfl

/-! ## The next number -/

/-- A word with `k` ones at its end, and the word that writes the next number: the ones are turned into
zeros, and the zero before them into a one; where there is no zero, a one is put in front. -/
inductive Next : Word → (k : Nat) → Word → Prop
  | carry (u : Word) (k : Nat) : Next (u ++ false :: .replicate k true) k (u ++ true :: .replicate k false)
  | grow (k : Nat) : Next (.replicate k true) k (true :: .replicate k false)

theorem append_cons_replicate_succ (u : Word) (b c : Bool) (k : Nat) :
    u ++ b :: List.replicate (k + 1) c = (u ++ b :: List.replicate k c) ++ [c] := by
  rw [List.replicate_succ', List.append_assoc, List.cons_append]

theorem exists_next (w : Word) : ∃ k v, Next w k v := by
  -- From the end of the word: a zero is where the carry ends, and a one carries on.
  induction w using List.reverseRecOn with
  | nil => exact ⟨0, _, .grow 0⟩
  | append_singleton w b ih =>
    cases b with
    | false => exact ⟨0, _, .carry w 0⟩
    | true =>
      obtain ⟨k, v, hv⟩ := ih
      cases hv with
      | carry u =>
        refine ⟨k + 1, u ++ true :: .replicate (k + 1) false, ?_⟩
        rw [← append_cons_replicate_succ]
        exact .carry u (k + 1)
      | grow =>
        refine ⟨k + 1, true :: .replicate (k + 1) false, ?_⟩
        rw [← List.replicate_succ']
        exact .grow (k + 1)

theorem value_carry (u : Word) (k : Nat) :
    value (u ++ true :: .replicate k false) = value (u ++ false :: .replicate k true) + 1 := by
  induction k with
  | zero =>
    rw [List.replicate_zero, List.replicate_zero, value_concat, value_concat]
    rfl
  | succ k ih =>
    rw [append_cons_replicate_succ, append_cons_replicate_succ, value_concat, value_concat, ih]
    simp only [Bool.toNat_false, Bool.toNat_true]
    omega

theorem Next.value {w v : Word} {k : Nat} (h : Next w k v) : value v = value w + 1 := by
  cases h with
  | carry u => exact value_carry u k
  | grow => exact value_carry [] k

end Word

/-! ## Words on a tape -/

namespace Tape

/-- The visited cells without the blanks at both ends. -/
def trimmed (t : Tape) : List Symbol := (t.contents.dropWhile (· == t.blank)).rdropWhile (· == t.blank)

/-- The head on the first of the cells `rest`, with the cells `before` behind it, the nearest first. -/
def rightward (blank : Symbol) (before rest : List Symbol) (position : Int) : Tape :=
  ⟨blank, before, rest.headD blank, rest.tail, position⟩

/-- The head on the first of the cells `rest`, the nearest first, with the cells `after` behind it. -/
def leftward (blank : Symbol) (rest after : List Symbol) (position : Int) : Tape :=
  ⟨blank, rest.tail, rest.headD blank, after, position⟩

variable (blank : Symbol)

theorem new_eq_rightward (input : List Symbol) :
    new blank input = rightward blank [] input 0 := by
  cases input <;> rfl

theorem right_rightward (before : List Symbol) (c : Symbol) (rest : List Symbol) (position : Int) :
    (rightward blank before (c :: rest) position).right = rightward blank (c :: before) rest (position + 1) := by
  cases rest <;> rfl

/-- The cells do not depend on how far the head has gone over them. -/
theorem cell_rightward_append (cs before rest : List Symbol) (position i : Int) :
    (rightward blank (cs.reverse ++ before) rest (position + cs.length)).cell i =
      (rightward blank before (cs ++ rest) position).cell i := by
  induction cs generalizing before position with
  | nil =>
    rw [List.length_nil, Int.natCast_zero, Int.add_zero]
    rfl
  | cons c cs ih =>
    have hposition : position + ((c :: cs).length : Int) = position + 1 + cs.length := by
      rw [List.length_cons]
      omega
    rw [hposition, List.reverse_cons, List.append_assoc, List.singleton_append, ih, List.cons_append,
      ← right_rightward, cell_right]

theorem left_rightward_nil (before : List Symbol) (position : Int) :
    (rightward blank before [] position).left = leftward blank before [blank] (position - 1) := by
  cases before <;> rfl

theorem left_write_leftward (rest after : List Symbol) (position : Int) (c : Symbol) :
    ((leftward blank rest after position).write c).left =
      leftward blank rest.tail (c :: after) (position - 1) := by
  cases rest with
  | nil => rfl
  | cons d rest => cases rest <;> rfl

theorem contents_leftward (rest after : List Symbol) (position : Int) :
    ∃ n, (leftward blank rest after position).contents = .replicate n blank ++ rest.reverse ++ after := by
  cases rest with
  | nil => exact ⟨1, rfl⟩
  | cons c rest =>
    refine ⟨0, ?_⟩
    show rest.reverse ++ c :: after = [] ++ (c :: rest).reverse ++ after
    rw [List.reverse_cons, List.nil_append, List.append_assoc]
    rfl

theorem trimmed_of_contents {t : Tape} {m n : Nat} {cs : List Symbol} (hne : cs ≠ [])
    (hcs : ∀ c ∈ cs, c ≠ t.blank)
    (h : t.contents = .replicate m t.blank ++ cs ++ .replicate n t.blank) : t.trimmed = cs := by
  have hblank : ∀ k, ∀ c ∈ List.replicate k t.blank, (c == t.blank) = true :=
    fun k c hc => beq_iff_eq.2 (List.eq_of_mem_replicate hc)
  have hhead : (cs ++ List.replicate n t.blank).dropWhile (· == t.blank) = cs ++ List.replicate n t.blank := by
    obtain ⟨c, rest, rfl⟩ := List.exists_cons_of_ne_nil hne
    exact List.dropWhile_cons_of_neg (by simpa using hcs c List.mem_cons_self)
  have hlast : cs.rdropWhile (· == t.blank) = cs :=
    List.rdropWhile_eq_self_iff.2 fun hne => by simpa using hcs _ (List.getLast_mem hne)
  rw [trimmed, h, List.append_assoc, List.dropWhile_append_of_pos (hblank m), hhead, List.rdropWhile,
    List.reverse_append, List.dropWhile_append_of_pos (by simp)]
  exact hlast

end Tape

/-! ## Reading a word -/

section

open Word

variable {σ : Type} {t : SingleTable} (state : σ → State) (f : σ → Bool → σ)

/-- If the instructions for the digits go to the right and only change the state, the machine gets to the end
of the word in the state that the word leads to. -/
theorem SingleTable.executes_word
    (h : ∀ q b, ∃ next, t.get? (state q) (digit b) = some ⟨none, .right, next⟩ ∧
      next.getD (state q) = state (f q b))
    (w : Word) (q : σ) (blank : Symbol) (before : List Symbol) (position : Int) (steps : Nat) :
    (Table.single t).control.Executes w.length
      ⟨state q, [.rightward blank before (digits w) position], steps⟩
      ⟨state (w.foldl f q), [.rightward blank ((digits w).reverse ++ before) [] (position + w.length)],
        steps + w.length⟩ := by
  -- The digits that the head has gone over are behind it, the last of them nearest.
  induction w generalizing q before position steps with
  | nil =>
    rw [List.length_nil, Int.natCast_zero, Int.add_zero]
    exact .refl _ _
  | cons b w ih =>
    obtain ⟨next, hget, hnext⟩ := h q b
    have hstep : (Table.single t).control.step
        ⟨state q, [.rightward blank before (digit b :: digits w) position], steps⟩ =
          .done (.single ⟨none, .right, next⟩)
            ⟨state (f q b), [.rightward blank (digit b :: before) (digits w) (position + 1)], steps + 1⟩ := by
      rw [← hnext, ← Tape.right_rightward]
      exact SingleTable.step_of_get? hget steps
    have hposition : position + 1 + (w.length : Int) = position + ((b :: w).length : Int) := by
      rw [List.length_cons]
      omega
    have hsteps : steps + 1 + w.length = steps + (b :: w).length := by
      rw [List.length_cons]
      omega
    have hrest := ih (f q b) (digit b :: before) (position + 1) (steps + 1)
    rw [hposition, hsteps] at hrest
    rw [digits_cons, List.reverse_cons, List.append_assoc, List.foldl_cons]
    exact .cons hstep hrest

end

end TapeMachine
