import TapeMachine.Proofs.Machine.Execution
import TapeMachine.Proofs.Program.Binary
import TapeMachine.Proofs.Program.Bundled

/-!
# Adding one

The machine for adding one goes to the right until it is beyond the last digit, turns round, and goes back
to the left as long as there are ones, which it turns into zeros.  There it writes a one, over the last zero
of the word or, if there is none, on the blank before its first digit.
-/

namespace TapeMachine.Program

open Word

/-- What the document says, with a row for each of its states. -/
def incrementTable : SingleTable where
  states := ⟨[
    ("right", some ⟨[('1', ⟨none, .right, none⟩), ('0', ⟨none, .right, none⟩),
      (' ', ⟨none, .left, some "carry"⟩)], by decide⟩),
    ("carry", some ⟨[('1', ⟨some '0', .left, some "carry"⟩), ('0', ⟨some '1', .left, some "done"⟩),
      (' ', ⟨some '1', .left, some "done"⟩)], by decide⟩),
    ("done", none)], by decide⟩

theorem exists_binaryIncrement : ∃ p, byId? "binary-increment" = some p ∧ p.spec.machineType = .oneTape ∧
    p.spec.blank = ' ' ∧ p.spec.start = "right" ∧ p.spec.table = .single incrementTable := by
  have hread : (Spec.parse binaryIncrement).toOption.map
      (fun s => (s.machineType, s.blank, s.start, s.table)) =
        some (.oneTape, ' ', "right", .single incrementTable) := by
    decide +kernel
  have hmem : ("binary-increment", binaryIncrement) ∈ documents := .head _
  obtain ⟨p, hp, hparts⟩ := exists_byId?_of_parse hmem hread
  simp only [Prod.mk.injEq] at hparts
  exact ⟨p, hp, hparts⟩

namespace Increment

abbrev control : Control := (Table.single incrementTable).control

variable (position : Int) (steps : Nat)

/-! ## To the right -/

theorem step_turn (before : List Symbol) :
    control.step ⟨"right", [.rightward ' ' before [] position], steps⟩ =
      .done (.single ⟨none, .left, some "carry"⟩)
        ⟨"carry", [.leftward ' ' before [' '] (position - 1)], steps + 1⟩ := by
  have hget : incrementTable.get? "right" ' ' = some ⟨none, .left, some "carry"⟩ := by decide
  rw [← Tape.left_rightward_nil]
  exact SingleTable.step_of_get? hget steps

theorem executes_right (w : Word) (before : List Symbol) :
    control.Executes w.length ⟨"right", [.rightward ' ' before (digits w) position], steps⟩
      ⟨"right", [.rightward ' ' ((digits w).reverse ++ before) [] (position + w.length)], steps + w.length⟩ := by
  have hget : ∀ (_ : Unit) b, ∃ next, incrementTable.get? "right" (digit b) = some ⟨none, .right, next⟩ ∧
      next.getD "right" = "right" := by
    intro _ b
    refine ⟨none, ?_, rfl⟩
    cases b <;> decide
  exact SingleTable.executes_word (fun _ => "right") (fun q _ => q) hget w () ' ' before position steps

/-! ## To the left -/

theorem step_one (rest after : List Symbol) :
    control.step ⟨"carry", [.leftward ' ' ('1' :: rest) after position], steps⟩ =
      .done (.single ⟨some '0', .left, some "carry"⟩)
        ⟨"carry", [.leftward ' ' rest ('0' :: after) (position - 1)], steps + 1⟩ := by
  have hget : incrementTable.get? "carry" '1' = some ⟨some '0', .left, some "carry"⟩ := by decide
  have hmove := Tape.left_write_leftward ' ' ('1' :: rest) after position '0'
  rw [List.tail_cons] at hmove
  rw [← hmove]
  exact SingleTable.step_of_get? hget steps

theorem step_last {rest : List Symbol} (hrest : rest = [] ∨ ∃ tail, rest = '0' :: tail) (after : List Symbol) :
    control.step ⟨"carry", [.leftward ' ' rest after position], steps⟩ =
      .done (.single ⟨some '1', .left, some "done"⟩)
        ⟨"done", [.leftward ' ' rest.tail ('1' :: after) (position - 1)], steps + 1⟩ := by
  have hget : incrementTable.get? "carry" (rest.headD ' ') = some ⟨some '1', .left, some "done"⟩ := by
    obtain rfl | ⟨tail, rfl⟩ := hrest
    · decide
    · rfl
  rw [← Tape.left_write_leftward]
  exact SingleTable.step_of_get? hget steps

theorem executes_carry (k : Nat) (rest after : List Symbol) :
    control.Executes k ⟨"carry", [.leftward ' ' (.replicate k '1' ++ rest) after position], steps⟩
      ⟨"carry", [.leftward ' ' rest (.replicate k '0' ++ after) (position - k)], steps + k⟩ := by
  induction k generalizing after position steps with
  | zero =>
    rw [Int.natCast_zero, Int.sub_zero]
    exact .refl _ _
  | succ k ih =>
    have hposition : position - 1 - (k : Int) = position - ((k + 1 : Nat) : Int) := by omega
    have hrest := ih (position - 1) (steps + 1) ('0' :: after)
    rw [hposition, Nat.add_right_comm] at hrest
    rw [List.replicate_succ, List.cons_append, List.replicate_succ', List.append_assoc]
    exact .cons (step_one position steps _ after) hrest

/-! ## The whole run -/

/-- The digits as the head meets them on its way back. -/
theorem exists_reverse_digits {w v : Word} {k : Nat} (h : Next w k v) :
    ∃ rest, (digits w).reverse = .replicate k '1' ++ rest ∧ (rest = [] ∨ ∃ tail, rest = '0' :: tail) ∧
      digits v = rest.tail.reverse ++ '1' :: .replicate k '0' := by
  cases h with
  | carry u =>
    refine ⟨'0' :: (digits u).reverse, ?_, .inr ⟨_, rfl⟩, ?_⟩
    · simp [digit]
    · simp [digit]
  | grow =>
    refine ⟨[], ?_, .inl rfl, ?_⟩
    · simp [digit]
    · simp [digit]

theorem exists_executes {w v : Word} {k : Nat} (h : Next w k v) : ∃ t,
    control.Executes (w.length + k + 2) ⟨"right", [.new ' ' (digits w)], 0⟩ ⟨"done", [t], w.length + k + 2⟩ ∧
      t.blank = ' ' ∧ t.trimmed = digits v := by
  obtain ⟨rest, hreverse, hrest, hv⟩ := exists_reverse_digits h
  -- Over the word, round, back over the ones at its end, and the one that is written last.
  have hscan := executes_right 0 0 w []
  rw [← Tape.new_eq_rightward, List.append_nil, hreverse] at hscan
  have hturn := step_turn (0 + w.length) (0 + w.length) (.replicate k '1' ++ rest)
  have hcarry := executes_carry (0 + w.length - 1) (0 + w.length + 1) k rest [' ']
  have hlast := step_last (0 + w.length - 1 - k) (0 + w.length + 1 + k) hrest (.replicate k '0' ++ [' '])
  have hall := hscan.append (.cons hturn (hcarry.append (.single hlast)))
  have hsteps : 0 + w.length + 1 + k + 1 = w.length + k + 2 := by omega
  rw [hsteps] at hall
  refine ⟨_, hall, rfl, ?_⟩
  obtain ⟨n, hcontents⟩ := Tape.contents_leftward ' ' rest.tail ('1' :: (.replicate k '0' ++ [' ']))
    (0 + w.length - 1 - k - 1)
  refine Tape.trimmed_of_contents (m := n) (n := 1) ?_ (fun c => ne_blank_of_mem_digits) (hcontents.trans ?_)
  · rw [hv]
    exact List.append_ne_nil_of_right_ne_nil _ (List.cons_ne_nil _ _)
  · rw [hv]
    simp [Tape.leftward]

example : (control.run 8 ⟨"right", [.new ' ' ['1', '0', '1', '1']], 0⟩).2.tapes.map Tape.trimmed =
    [['1', '1', '0', '0']] := by decide

end Increment

/-- The bundled machine adds one to every binary number.  It takes two steps more than the word has digits and
ones at its end: with a smaller budget it is still running, and with any other budget it has halted, and the
tape holds the next number and nothing else. -/
theorem binaryIncrement_halts :
    ∃ p, byId? "binary-increment" = some p ∧ ∀ w : Word, (∃ k v, Next w k v) ∧ ∀ k v, Next w k v →
      value v = value w + 1 ∧ ∃ last t,
        (∀ m < w.length + k + 2,
          (p.spec.table.control.perform (p.spec.withInput (String.ofList (digits w))).initial (.run m)).1 =
            .stepLimit m) ∧
        (∀ m, w.length + k + 2 ≤ m →
          p.spec.table.control.perform (p.spec.withInput (String.ofList (digits w))).initial (.run m) =
            (.halted (w.length + k + 2), last)) ∧
        last.state = "done" ∧ last.tapes = [t] ∧ t.blank = ' ' ∧ t.trimmed = digits v := by
  obtain ⟨p, hp, htype, hblank, hstart, htable⟩ := exists_binaryIncrement
  refine ⟨p, hp, fun w => ⟨exists_next w, fun k v hnext => ⟨hnext.value, ?_⟩⟩⟩
  obtain ⟨t, hexecutes, ht, htrimmed⟩ := Increment.exists_executes hnext
  have hhalted : Increment.control.isHalted ⟨"done", [t], w.length + k + 2⟩ = true :=
    SingleTable.isHalted_of_get? (by decide) _
  obtain ⟨hbefore, hafter⟩ := hexecutes.perform_run hhalted
  rw [initial_withInput htype, hblank, hstart, htable]
  refine ⟨⟨"done", [t], w.length + k + 2⟩, t, fun m hm => ?_, fun m hm => ?_, rfl, rfl, ht, htrimmed⟩
  · rw [hbefore m hm, Nat.zero_add]
  · rw [hafter m hm, Nat.zero_add]

/-- From seven to eight, for which there is no digit yet. -/
theorem binaryIncrement_halts_seven :
    ∃ p last t, byId? "binary-increment" = some p ∧
      (p.spec.table.control.perform (p.spec.withInput "111").initial (.run 7)).1 = .stepLimit 7 ∧
      p.spec.table.control.perform (p.spec.withInput "111").initial (.run 10) = (.halted 8, last) ∧
      last.state = "done" ∧ last.tapes = [t] ∧ t.trimmed = ['1', '0', '0', '0'] := by
  obtain ⟨p, hp, hall⟩ := binaryIncrement_halts
  obtain ⟨-, hnext⟩ := hall [true, true, true]
  obtain ⟨-, last, t, hbefore, hafter, hstate, htapes, -, ht⟩ := hnext 3 _ (.grow 3)
  exact ⟨p, last, t, hp, hbefore 7 (by decide), hafter 10 (by decide), hstate, htapes, ht⟩

end TapeMachine.Program
