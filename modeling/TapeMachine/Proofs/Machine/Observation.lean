import TapeMachine.Session

/-!
# What an observer is told

An observer is called in the middle of a step, while the tapes are being changed.  What it is told
nevertheless depends on nothing but the configuration before the step, and can be written down as a list;
the list of a run is that of its steps, one after the other.  Read backwards, the list accounts for the
machine: its writes, moves and changes lead from the configuration at the start to the one at the end, and
it selects as many instructions as steps are counted.
-/

namespace TapeMachine

/-! ## The events of a step -/

/-- What is observed of an action on the tape `t`. -/
def Action.events (a : Action) (index : Nat) (t : Tape) : List Event :=
  (a.write.toList.map fun c => .written index t.read c) ++ [.moved index a.move]

namespace Instruction

def selection (i : Instruction) (c : Config) : Event := .selected c.state c.symbols i

/-- What is observed of the instruction, in order. -/
def events (i : Instruction) (c : Config) : List Event :=
  i.selection c ::
    ((c.tapes.mapIdx fun index t => (i.actionFor index).events index t).flatten ++
      i.next.toList.map (.changed c.state))

end Instruction

/-- What is observed of an attempt to step. -/
def Step.events (c : Config) : Step → List Event
  | .halted => []
  | .misfit i => [i.selection c]
  | .done i _ => i.events c

/-! ## Telling an observer of a list of events -/

namespace Observer

variable {σ : Type}

/-- What the observer makes of an event. -/
def notify (o : Observer σ) (s : σ) : Event → σ
  | .selected state symbols i => o.selected state symbols i s
  | .written tape previous symbol => o.written tape previous symbol s
  | .moved tape d => o.moved tape d s
  | .changed source target => o.changed source target s

theorem toList_foldl_recorder (es : List Event) (s : Array Event) :
    (es.foldl recorder.notify s).toList = s.toList ++ es := by
  induction es generalizing s with
  | nil => exact (List.append_nil _).symm
  | cons e es ih =>
    have hpush : (recorder.notify s e).toList = s.toList ++ [e] := by
      cases e <;> exact Array.toList_push
    rw [List.foldl_cons, ih, hpush, List.append_assoc, List.singleton_append]

end Observer

section Telling

variable {σ : Type} (o : Observer σ) (r : Control)

theorem Action.applyWith_eq (a : Action) (index : Nat) (t : Tape) (s : σ) :
    a.applyWith o index t s = (a.apply t, (a.events index t).foldl o.notify s) := by
  obtain ⟨write, move⟩ := a
  cases write <;> rfl

/-- The events of a tape depend on that tape alone, so they can be told from the tapes before the step. -/
theorem Instruction.applyWith_eq (i : Instruction) (index : Nat) (ts : List Tape) (s : σ) :
    i.applyWith o index ts s =
      (ts.mapIdx fun k t => (i.actionFor (index + k)).apply t,
        (ts.mapIdx fun k t => (i.actionFor (index + k)).events (index + k) t).flatten.foldl o.notify s) := by
  induction ts generalizing index s with
  | nil => rfl
  | cons t ts ih =>
    have hindex : ∀ k, index + 1 + k = index + (k + 1) := by omega
    simp only [applyWith, Action.applyWith_eq, ih, hindex, List.mapIdx_cons, List.flatten_cons,
      List.foldl_append, Nat.add_zero]

namespace Control

theorem stepWith_eq (c : Config) (s : σ) :
    r.stepWith o c s = (r.step c, ((r.step c).events c).foldl o.notify s) := by
  cases hi : r.next? c with
  | none => simp only [stepWith, step, hi, Step.events, List.foldl_nil]
  | some i =>
    rw [step_of_next? hi]
    by_cases hfits : i.fits c.tapes.length = true
    · cases hnext : i.next with
      | none =>
        simp [stepWith, hi, hfits, Instruction.applyWith_eq, hnext, Step.events, Instruction.events,
          Instruction.selection, Observer.notify, Instruction.execute, Instruction.target]
      | some q =>
        simp [stepWith, hi, hfits, Instruction.applyWith_eq, hnext, Step.events, Instruction.events,
          Instruction.selection, Observer.notify, Instruction.execute, Instruction.target]
    · simp [stepWith, hi, hfits, Step.events, Instruction.selection, Observer.notify]

theorem events_eq (c : Config) : r.events c = (r.step c).events c := by
  rw [events, stepWith_eq, Observer.toList_foldl_recorder]
  exact List.nil_append _

theorem stepWith_eq_events (c : Config) (s : σ) :
    r.stepWith o c s = (r.step c, (r.events c).foldl o.notify s) := by
  rw [stepWith_eq, events_eq]

/-! ## The events of a run -/

/-- The configurations in which a run of at most `n` steps attempts a step. -/
def attempts (n : Nat) (c : Config) : List Config := (c :: r.trace n c).take n

theorem attempts_succ_of_done {c next : Config} {i : Instruction} (h : r.step c = .done i next) (n : Nat) :
    r.attempts (n + 1) c = c :: r.attempts n next := by
  rw [attempts, trace, h, List.take_succ_cons, attempts]

theorem attempts_succ_of_ne_done {c : Config} (h : ∀ i next, r.step c ≠ .done i next) (n : Nat) :
    r.attempts (n + 1) c = [c] := by
  have htrace : r.trace (n + 1) c = [] := by
    cases hs : r.step c with
    | halted => rw [trace, hs]
    | misfit i => rw [trace, hs]
    | done i next => exact absurd hs (h i next)
  rw [attempts, htrace, List.take_succ_cons, List.take_nil]

theorem runWith_eq (n : Nat) (c : Config) (s : σ) :
    r.runWith o n c s = (r.run n c, ((r.attempts n c).flatMap r.events).foldl o.notify s) := by
  induction n generalizing c s with
  | zero => rfl
  | succ n ih =>
    rw [runWith, run, stepWith_eq_events]
    cases hs : r.step c with
    | halted => rw [attempts_succ_of_ne_done r (by simp [hs]), List.flatMap_singleton]
    | misfit i => rw [attempts_succ_of_ne_done r (by simp [hs]), List.flatMap_singleton]
    | done i next =>
      rw [attempts_succ_of_done r hs, List.flatMap_cons, List.foldl_append]
      exact ih next _

/-! ## The events of a session -/

/-- The configurations in which an operation attempts a step. -/
def attemptsOf (c : Config) : Operation → List Config
  | .step => [c]
  | .run n => r.attempts n c
  | .edit _ _ => []

/-- The configurations in which a list of operations attempts a step. -/
def attemptsAll : List Operation → Config → List Config
  | [], _ => []
  | op :: ops, c =>
    if (r.perform c op).1 = .misfit then r.attemptsOf c op
    else r.attemptsOf c op ++ attemptsAll ops (r.perform c op).2

theorem performWith_eq (c : Config) (s : σ) (op : Operation) :
    r.performWith o c s op =
      (r.perform c op, ((r.attemptsOf c op).flatMap r.events).foldl o.notify s) := by
  cases op with
  | step =>
    rw [performWith, perform, stepWith_eq_events, attemptsOf, List.flatMap_singleton]
    cases r.step c <;> rfl
  | run n =>
    rw [performWith, perform, runWith_eq, attemptsOf]
    rcases r.run n c with ⟨ending, last⟩
    cases ending <;> rfl
  | edit tape e => rfl

theorem sessionWith_eq (ops : List Operation) (c : Config) (s : σ) :
    r.sessionWith o ops c s =
      (r.session ops c, ((r.attemptsAll ops c).flatMap r.events).foldl o.notify s) := by
  induction ops generalizing c s with
  | nil => rfl
  | cons op ops ih =>
    rw [sessionWith, performWith_eq]
    by_cases h : (r.perform c op).1 = .misfit
    · rw [session_cons_of_misfit ops h, attemptsAll, if_pos h]
      exact if_pos h
    · rw [session_cons_of_ne_misfit ops h, attemptsAll, if_neg h, List.flatMap_append, List.foldl_append]
      have hrest := ih (r.perform c op).2 (((r.attemptsOf c op).flatMap r.events).foldl o.notify s)
      simp only [hrest, if_neg h]

theorem observedAll_eq (ops : List Operation) (c : Config) :
    r.observedAll ops c = (r.attemptsAll ops c).flatMap r.events := by
  rw [observedAll, sessionWith_eq, Observer.toList_foldl_recorder]
  exact List.nil_append _

end Control

end Telling

/-! ## Replaying -/

/-- Whether the operation is done to a tape by the caller. -/
def Operation.isEdit : Operation → Bool
  | .step => false
  | .run _ => false
  | .edit _ _ => true

/-- What is seen of a machine: its state and its tapes. -/
def Config.view (c : Config) : State × List Tape := (c.state, c.tapes)

/-- What is seen after an event. -/
def Event.replay (v : State × List Tape) : Event → State × List Tape
  | .selected _ _ _ => v
  | .written tape _ symbol => (v.1, v.2.modify tape (·.write symbol))
  | .moved tape d => (v.1, v.2.modify tape (·.move d))
  | .changed _ target => (target, v.2)

def Event.isSelected : Event → Bool
  | .selected _ _ _ => true
  | .written _ _ _ => false
  | .moved _ _ => false
  | .changed _ _ => false

/-- The events lead from what was seen of the machine to what is seen of it, and select an instruction for
every step that was counted. -/
structure Accounts (es : List Event) (c last : Config) : Prop where
  view : es.foldl Event.replay c.view = last.view
  steps : last.steps = c.steps + es.countP Event.isSelected

namespace Accounts

variable {c next last : Config} {es fs : List Event}

theorem nil (c : Config) : Accounts [] c c := ⟨rfl, rfl⟩

theorem append (h : Accounts es c next) (h' : Accounts fs next last) : Accounts (es ++ fs) c last where
  view := by rw [List.foldl_append, h.view, h'.view]
  steps := by
    have hnext := h.steps
    have hlast := h'.steps
    rw [List.countP_append]
    omega

end Accounts

theorem modify_append_cons {α : Type} (f : α → α) (xs ys : List α) (x : α) :
    (xs ++ x :: ys).modify xs.length f = xs ++ f x :: ys := by
  rw [List.modify_eq_take_drop, List.take_left, List.drop_left, List.modifyHead_cons]

/-- The events of an action do to the tape with their number what the action does, and leave the others. -/
theorem Action.foldl_replay_events (a : Action) (state : State) (ts us : List Tape) (t : Tape) :
    (a.events ts.length t).foldl Event.replay (state, ts ++ t :: us) = (state, ts ++ a.apply t :: us) := by
  obtain ⟨write, move⟩ := a
  cases write with
  | none =>
    show (state, (ts ++ t :: us).modify ts.length (·.move move)) = _
    rw [modify_append_cons]
    rfl
  | some c =>
    show (state, ((ts ++ t :: us).modify ts.length (·.write c)).modify ts.length (·.move move)) = _
    rw [modify_append_cons, modify_append_cons]
    rfl

namespace Instruction

/-- Tape by tape: `ts` are the tapes that are done. -/
theorem foldl_replay_tapes (i : Instruction) (state : State) (ts us : List Tape) :
    (us.mapIdx fun k t =>
        (i.actionFor (ts.length + k)).events (ts.length + k) t).flatten.foldl Event.replay (state, ts ++ us) =
      (state, ts ++ us.mapIdx fun k t => (i.actionFor (ts.length + k)).apply t) := by
  induction us generalizing ts with
  | nil => rfl
  | cons t us ih =>
    have hindex : ∀ k, ts.length + 1 + k = ts.length + (k + 1) := by omega
    have hrest := ih (ts ++ [(i.actionFor ts.length).apply t])
    simp only [List.length_append, List.length_singleton, List.append_assoc, List.singleton_append,
      hindex] at hrest
    simp only [List.mapIdx_cons, List.flatten_cons, List.foldl_append, Nat.add_zero,
      Action.foldl_replay_events]
    exact hrest

theorem countP_isSelected_events (i : Instruction) (c : Config) :
    (i.events c).countP Event.isSelected = 1 := by
  have hactions : ∀ e ∈ (c.tapes.mapIdx fun k t => (i.actionFor k).events k t).flatten,
      e.isSelected ≠ true := by
    intro e he
    obtain ⟨es, hes, he⟩ := List.mem_flatten.1 he
    obtain ⟨k, hk, rfl⟩ := List.mem_mapIdx.1 hes
    rcases List.mem_append.1 he with he | he
    · obtain ⟨w, -, rfl⟩ := List.mem_map.1 he
      exact Bool.false_ne_true
    · rw [List.mem_singleton.1 he]
      exact Bool.false_ne_true
  have hchange : ∀ e ∈ i.next.toList.map (Event.changed c.state), e.isSelected ≠ true := by
    intro e he
    obtain ⟨q, -, rfl⟩ := List.mem_map.1 he
    exact Bool.false_ne_true
  rw [events, List.countP_cons_of_pos rfl, List.countP_append, List.countP_eq_zero.2 hactions,
    List.countP_eq_zero.2 hchange]

theorem accounts_execute (i : Instruction) (c : Config) : Accounts (i.events c) c (i.execute c) where
  view := by
    have htapes := i.foldl_replay_tapes c.state [] c.tapes
    simp only [List.length_nil, Nat.zero_add, List.nil_append] at htapes
    rw [events, List.foldl_cons, List.foldl_append]
    show (i.next.toList.map (Event.changed c.state)).foldl Event.replay
      ((c.tapes.mapIdx fun k t => (i.actionFor k).events k t).flatten.foldl Event.replay (c.state, c.tapes)) =
        (i.target c.state, c.tapes.mapIdx fun k t => (i.actionFor k).apply t)
    rw [htapes, target]
    cases i.next <;> rfl
  steps := by rw [countP_isSelected_events, steps_execute]

end Instruction

/-! ## Tables whose instructions are for their tapes -/

namespace Table.Fitting

variable {t : Table} {c : Config}

theorem step_cases (ht : t.Fitting) (hc : c.tapes.length = t.tapes) :
    t.control.step c = .halted ∨ ∃ i, t.control.step c = .done i (i.execute c) := by
  cases hi : t.control.next? c with
  | none =>
    left
    rw [Control.step, hi]
  | some i => exact .inr ⟨i, ht.control.step_of_next? hc hi⟩

/-- What a run keeps: its log accounts for it, it ends with as many tapes, and so does each of its steps. -/
theorem accounts_run (ht : t.Fitting) (hc : c.tapes.length = t.tapes) (n : Nat) :
    Accounts ((t.control.attempts n c).flatMap t.control.events) c (t.control.run n c).2 ∧
      (t.control.run n c).1 ≠ .misfit ∧ (t.control.run n c).2.tapes.length = t.tapes ∧
      ∀ d ∈ t.control.attempts n c, d.tapes.length = t.tapes := by
  induction n generalizing c with
  | zero =>
    refine ⟨.nil c, ?_, hc, fun d hd => ?_⟩
    · rw [Control.run_zero]
      cases t.control.isHalted c <;> exact nofun
    · cases hd
  | succ n ih =>
    rcases ht.step_cases hc with hs | ⟨i, hs⟩
    · rw [Control.attempts_succ_of_ne_done _ (by simp [hs]), List.flatMap_singleton, Control.events_eq, hs,
        Control.run_of_isHalted (Control.step_eq_halted_iff.1 hs)]
      refine ⟨.nil c, nofun, hc, fun d hd => ?_⟩
      rw [List.mem_singleton.1 hd]
      exact hc
    · have hnext : (i.execute c).tapes.length = t.tapes := (i.length_tapes_execute c).trans hc
      obtain ⟨haccounts, hending, hlast, hattempts⟩ := ih hnext
      rw [Control.attempts_succ_of_done _ hs, List.flatMap_cons, Control.events_eq, hs,
        Control.run_succ_of_done hs]
      refine ⟨(i.accounts_execute c).append haccounts, hending, hlast, fun d hd => ?_⟩
      rcases List.mem_cons.1 hd with rfl | hd
      · exact hc
      · exact hattempts d hd

theorem accounts_perform (ht : t.Fitting) (hc : c.tapes.length = t.tapes) {op : Operation}
    (hop : op.isEdit = false) :
    Accounts ((t.control.attemptsOf c op).flatMap t.control.events) c (t.control.perform c op).2 ∧
      (t.control.perform c op).1 ≠ .misfit ∧ (t.control.perform c op).2.tapes.length = t.tapes ∧
      ∀ d ∈ t.control.attemptsOf c op, d.tapes.length = t.tapes := by
  cases op with
  | step =>
    have hattempt : ∀ d ∈ [c], d.tapes.length = t.tapes := by
      intro d hd
      rw [List.mem_singleton.1 hd]
      exact hc
    rw [Control.attemptsOf, List.flatMap_singleton, Control.events_eq, Control.perform]
    rcases ht.step_cases hc with hs | ⟨i, hs⟩
    · rw [hs]
      exact ⟨.nil c, Answer.noConfusion, hc, hattempt⟩
    · rw [hs]
      exact ⟨i.accounts_execute c, Answer.noConfusion, (i.length_tapes_execute c).trans hc, hattempt⟩
  | run n =>
    obtain ⟨haccounts, hending, hlast⟩ := ht.accounts_run hc n
    rw [Control.perform]
    rcases hrun : t.control.run n c with ⟨ending, last⟩
    rw [hrun] at haccounts hending hlast
    cases ending with
    | halted => exact ⟨haccounts, Answer.noConfusion, hlast⟩
    | stepLimit => exact ⟨haccounts, Answer.noConfusion, hlast⟩
    | misfit => exact absurd rfl hending
  | edit tape e => cases hop

theorem accounts_session (ht : t.Fitting) (hc : c.tapes.length = t.tapes) {ops : List Operation}
    (hops : ∀ op ∈ ops, op.isEdit = false) :
    Accounts ((t.control.attemptsAll ops c).flatMap t.control.events) c (t.control.session ops c).2 ∧
      .misfit ∉ (t.control.session ops c).1 ∧ ∀ d ∈ t.control.attemptsAll ops c, d.tapes.length = t.tapes := by
  induction ops generalizing c with
  | nil => exact ⟨.nil c, List.not_mem_nil, fun d hd => by cases hd⟩
  | cons op ops ih =>
    obtain ⟨haccounts, hanswer, hnext, hattempts⟩ := ht.accounts_perform hc (hops op List.mem_cons_self)
    obtain ⟨haccounts', hanswers, hattempts'⟩ := ih hnext fun op hop => hops op (List.mem_cons_of_mem _ hop)
    rw [Control.session_cons_of_ne_misfit ops hanswer, Control.attemptsAll, if_neg hanswer,
      List.flatMap_append]
    refine ⟨haccounts.append haccounts', fun hmem => ?_, fun d hd => ?_⟩
    · rcases List.mem_cons.1 hmem with h | h
      · exact hanswer h.symm
      · exact hanswers h
    · rcases List.mem_append.1 hd with hd | hd
      · exact hattempts d hd
      · exact hattempts' d hd

/-- Whoever observes a machine that steps and runs, over a table whose instructions are for its tapes, is told
exactly what happens.  An attempt to step for which there is no instruction shows nothing, and one for which
there is an instruction executes it and shows its events, in order; nothing else is shown.  The answers and
the machine are those without the observer.  Replayed from the first configuration, what was shown gives
the state and the tapes of the last, and it selects as many instructions as steps were counted. -/
theorem observed_faithfully (ht : t.Fitting) (hc : c.tapes.length = t.tapes) {ops : List Operation}
    (hops : ∀ op ∈ ops, op.isEdit = false) {σ : Type} (o : Observer σ) (s : σ) :
    (∀ d ∈ t.control.attemptsAll ops c, ∀ s' : σ,
      (t.control.next? d = none →
        t.control.events d = [] ∧ t.control.stepWith o d s' = (.halted, s')) ∧
      ∀ i, t.control.next? d = some i →
        t.control.events d = i.events d ∧
          t.control.stepWith o d s' = (.done i (i.execute d), (i.events d).foldl o.notify s')) ∧
    t.control.observedAll ops c = (t.control.attemptsAll ops c).flatMap t.control.events ∧
    t.control.sessionWith o ops c s =
      (t.control.session ops c, (t.control.observedAll ops c).foldl o.notify s) ∧
    .misfit ∉ (t.control.session ops c).1 ∧
    (t.control.observedAll ops c).foldl Event.replay c.view = (t.control.session ops c).2.view ∧
    (t.control.session ops c).2.steps =
      c.steps + (t.control.observedAll ops c).countP Event.isSelected := by
  obtain ⟨haccounts, hanswers, hattempts⟩ := ht.accounts_session hc hops
  rw [Control.observedAll_eq]
  refine ⟨fun d hd s' => ⟨fun hd' => ?_, fun i hi => ?_⟩, rfl, Control.sessionWith_eq o _ ops c s, hanswers,
    haccounts.view, haccounts.steps⟩
  · have hstep : t.control.step d = .halted := by rw [Control.step, hd']
    rw [Control.stepWith_eq, Control.events_eq, hstep]
    exact ⟨rfl, rfl⟩
  · have hstep := ht.control.step_of_next? (hattempts d hd) hi
    rw [Control.stepWith_eq, Control.events_eq, hstep]
    exact ⟨rfl, rfl⟩

end Table.Fitting

namespace Table

/-- A table for two tapes that writes a symbol over itself, leaves heads where they are, and names the state
in which it is. -/
def pacing : Table := .multi {
  tapes := 2
  wildcard := none
  states := ⟨[
    ("a", some [
      ⟨['0', ' '], ⟨some [some '0', none], some [.right, .stay], some "a"⟩⟩,
      ⟨['1', ' '], ⟨some [none, some 'x'], none, none⟩⟩]),
    ("b", none)], by decide⟩ }

def pacing.initial : Config := ⟨"a", [Tape.new ' ' ['0', '1'], Tape.new ' ' []], 0⟩

theorem observed_faithfully_pacing :
    pacing.control.observedAll [.step, .run 5] pacing.initial = [
      .selected "a" ['0', ' '] (.multi ⟨some [some '0', none], some [.right, .stay], some "a"⟩),
      .written 0 '0' '0', .moved 0 .right, .moved 1 .stay, .changed "a" "a",
      .selected "a" ['1', ' '] (.multi ⟨some [none, some 'x'], none, none⟩),
      .moved 0 .stay, .written 1 ' ' 'x', .moved 1 .stay] ∧
    (pacing.control.observedAll [.step, .run 5] pacing.initial).foldl Event.replay pacing.initial.view =
      (pacing.control.session [.step, .run 5] pacing.initial).2.view := by
  have hfitting : pacing.Fitting := by decide
  have htapes : pacing.initial.tapes.length = pacing.tapes := rfl
  have hops : ∀ op ∈ [Operation.step, .run 5], op.isEdit = false := by decide
  obtain ⟨-, -, -, -, hview, -⟩ := hfitting.observed_faithfully htapes hops recorder #[]
  exact ⟨by decide, hview⟩

end Table

end TapeMachine
