import Mathlib.Data.Option.Basic
import TapeMachine.CommandLine.Run
import TapeMachine.Proofs.Machine.Budget
import TapeMachine.Proofs.Success

/-!
# Showing a run

With the flag `--debug` the command line does not run the machine, but steps it by itself, writes every
configuration on the way, and decides by itself whether the machine has halted.  The main statement is that
this changes nothing but what it adds: first come the configurations from the initial one to the last, one
for each executed step, and then exactly what is written without the flag.
-/

namespace TapeMachine.CommandLine

/-! ## The flag -/

/-- What the settings of a command line say: each is given at most once. -/
structure Gives (defaultSteps : Nat) (settings : List Setting) (o : Options) : Prop where
  program : atMostOne? (programsOf settings) = some o.program
  named : o.program ≠ some ""
  bundled : atMostOne? (valuesOf .bundled settings) = some o.bundled
  exclusive : (o.program.isNone || o.bundled.isNone) = true
  input : atMostOne? (valuesOf .input settings) = some o.input
  maxSteps : ∃ steps, atMostOne? (valuesOf .maxSteps settings) = some steps ∧
    steps.elim (some defaultSteps) readCount? = some o.maxSteps
  logLevel : ∃ level, atMostOne? (valuesOf .logLevel settings) = some level ∧
    level.getD "warn" = o.logLevel
  debug : flag? .debug settings = some o.debug
  graph : flag? .graph settings = some o.graph
  list : flag? .list settings = some o.list

theorem ofArguments?_eq_some_iff {defaultSteps : Nat} {arguments : List String} {o : Options} :
    Options.ofArguments? defaultSteps arguments = some o ↔
      ∃ settings, readArguments arguments = some settings ∧ Gives defaultSteps settings o := by
  unfold Options.ofArguments?
  simp only [bind, pure, Option.bind_eq_some_iff, Option.guard_eq_some']
  refine exists_congr fun settings => and_congr_right fun _ => ?_
  constructor
  · rintro ⟨program, hprogram, _, hnamed, bundled, hbundled, _, hexclusive, input, hinput, steps, hsteps, h⟩
    -- Only how the number of steps is found differs between the two branches.
    have hrest : ∃ n, steps.elim (some defaultSteps) readCount? = some n ∧
        ∃ level, atMostOne? (valuesOf .logLevel settings) = some level ∧
        ∃ debug, flag? .debug settings = some debug ∧ ∃ graph, flag? .graph settings = some graph ∧
        ∃ list, flag? .list settings = some list ∧
          Options.mk program bundled input debug n graph list (level.getD "warn") = o := by
      cases steps with
      | none => simpa [Option.bind_eq_some_iff] using h
      | some s => simpa [Option.bind_eq_some_iff] using h
    obtain ⟨n, hn, level, hlevel, debug, hdebug, graph, hgraph, list, hlist, rfl⟩ := hrest
    exact ⟨hprogram, hnamed, hbundled, hexclusive, hinput, ⟨steps, hsteps, hn⟩, ⟨level, hlevel, rfl⟩, hdebug,
      hgraph, hlist⟩
  · rintro ⟨hprogram, hnamed, hbundled, hexclusive, hinput, ⟨steps, hsteps, hn⟩, ⟨level, hlevel, hlog⟩, hdebug,
      hgraph, hlist⟩
    refine ⟨_, hprogram, (), hnamed, _, hbundled, (), hexclusive, _, hinput, steps, hsteps, ?_⟩
    cases steps with
    | none =>
      rw [Option.elim_none, Option.some.injEq] at hn
      simp only [hlevel, hdebug, hgraph, hlist, hn, hlog, Option.bind_some]
    | some s =>
      rw [Option.elim_some] at hn
      simp only [hlevel, hdebug, hgraph, hlist, hn, hlog, Option.bind_some]

theorem readArguments_debug (arguments : List String) :
    readArguments ("--debug" :: arguments) = (readArguments arguments).map (.flag .debug :: ·) := by
  have hletters : "--debug".toList = ['-', '-', 'd', 'e', 'b', 'u', 'g'] := by decide
  have hlong : readLong ['d', 'e', 'b', 'u', 'g'] = some ([.flag .debug], none) := by decide
  rw [readArguments, hletters]
  show readArguments.withNext (readLong ['d', 'e', 'b', 'u', 'g']) arguments = _
  rw [hlong, readArguments.withNext]
  rfl

theorem flag?_cons_self {f : Flag} {settings : List Setting} (h : flag? f settings = some false) :
    flag? f (.flag f :: settings) = some true := by
  have hnone : settings.filter (· = .flag f) = [] := by
    unfold flag? at h
    generalize settings.filter (· = .flag f) = given at h ⊢
    match given with
    | [] => rfl
    | [_] => cases h
    | _ :: _ :: _ => cases h
  have hself : (Setting.flag f :: settings).filter (· = .flag f) =
      .flag f :: settings.filter (· = .flag f) := List.filter_cons_of_pos (decide_eq_true rfl)
  rw [flag?, hself, hnone]
  rfl

theorem flag?_cons_of_ne {f g : Flag} (h : f ≠ g) (settings : List Setting) :
    flag? g (.flag f :: settings) = flag? g settings := by
  have hother : (Setting.flag f :: settings).filter (· = .flag g) = settings.filter (· = .flag g) :=
    List.filter_cons_of_neg (by simpa using h)
  rw [flag?, hother, flag?]

/-- In front of other arguments the flag asks for the configurations, and for nothing else. -/
theorem ofArguments?_debug {defaultSteps : Nat} {arguments : List String} {o : Options}
    (h : Options.ofArguments? defaultSteps arguments = some o) (hdebug : o.debug = false) :
    Options.ofArguments? defaultSteps ("--debug" :: arguments) = some { o with debug := true } := by
  obtain ⟨settings, hsettings, hgives⟩ := ofArguments?_eq_some_iff.1 h
  refine ofArguments?_eq_some_iff.2 ⟨.flag .debug :: settings, ?_, ?_⟩
  · rw [readArguments_debug, hsettings]
    rfl
  · exact { hgives with
      debug := flag?_cons_self (hgives.debug.trans (congrArg some hdebug))
      graph := (flag?_cons_of_ne (by decide) settings).trans hgives.graph
      list := (flag?_cons_of_ne (by decide) settings).trans hgives.list }

/-! ## The machine -/

theorem valid_of_parseFrom {source text : String} {s : Spec} (h : parseFrom source text = .ok s) : s.Valid := by
  obtain ⟨-, v, -, hv⟩ := Spec.parse_eq_ok_iff.1 (mapError_eq_ok_iff.1 h)
  exact Spec.valid_of_ofValue hv

theorem valid_of_mem_all {p : Program} (h : p ∈ Program.all) : p.spec.Valid := by
  obtain ⟨⟨id, source⟩, -, hp⟩ := List.mem_filterMap.1 h
  change Program.ofDocument? id source = some p at hp
  unfold Program.ofDocument? at hp
  cases hs : Spec.parse source with
  | error e =>
    rw [hs] at hp
    cases hp
  | ok s =>
    rw [hs] at hp
    obtain ⟨-, v, -, hv⟩ := Spec.parse_eq_ok_iff.1 hs
    cases hp
    exact Spec.valid_of_ofValue hv

theorem mem_all_of_byId? {id : String} {p : Program} (h : Program.byId? id = some p) : p ∈ Program.all := by
  rw [Program.byId?] at h
  exact List.mem_of_find?_eq_some h

theorem exists_of_loadBundled {f : String → Except Failure Spec} (hf : f = loadBundled) {id : String}
    {s : Spec} (h : f id = .ok s) : ∃ p, Program.byId? id = some p ∧ p.spec = s := by
  -- The function is opened before it is applied, and the search is made a variable: otherwise the bundled
  -- documents are read again to check this.
  delta loadBundled at hf
  generalize Program.byId? = find at hf ⊢
  subst hf
  dsimp only at h
  cases hp : find id with
  | none =>
    rw [hp] at h
    cases h
  | some p =>
    rw [hp] at h
    cases h
    exact ⟨p, rfl, rfl⟩

theorem valid_of_load {w : World} {o : Options} {s : Spec} (h : load w o = .ok s) : s.Valid := by
  unfold load at h
  cases hbundled : o.bundled with
  | some id =>
    rw [hbundled] at h
    obtain ⟨p, hp, rfl⟩ := exists_of_loadBundled rfl h
    exact valid_of_mem_all (mem_all_of_byId? hp)
  | none =>
    cases hprogram : o.program with
    | some path =>
      rw [hbundled, hprogram] at h
      obtain ⟨_, -, h⟩ := bind_eq_ok_iff.1 h
      obtain ⟨_, -, h⟩ := bind_eq_ok_iff.1 h
      exact valid_of_parseFrom h
    | none =>
      rw [hbundled, hprogram] at h
      obtain ⟨_, -, h⟩ := bind_eq_ok_iff.1 h
      exact valid_of_parseFrom h

theorem exists_prepared_eq (o : Options) (s : Spec) : ∃ input, prepared o s = { s with input := input } := by
  unfold prepared
  cases o.input with
  | none => exact ⟨s.input, rfl⟩
  | some input => exact ⟨some input, rfl⟩

/-! ## The configurations on the way -/

section
variable (r : Control) (n : Nat) (c : Config)

theorem cons_trace_eq_map :
    c :: r.trace n c = (List.range ((r.trace n c).length + 1)).map fun j => r.advance^[j] c := by
  induction n generalizing c with
  | zero => rfl
  | succ n ih =>
    cases hs : r.step c with
    | halted =>
      rw [Control.trace, hs]
      rfl
    | misfit i =>
      rw [Control.trace, hs]
      rfl
    | done i next =>
      have htrace : r.trace (n + 1) c = next :: r.trace n next := by rw [Control.trace, hs]
      have hnext : ∀ j, r.advance^[j + 1] c = r.advance^[j] next := by
        intro j
        rw [Function.iterate_succ_apply, Control.advance_of_done hs]
      rw [htrace, List.length_cons, List.range_succ_eq_map, List.map_cons, List.map_map]
      simp only [Function.comp_def, Nat.succ_eq_add_one, hnext]
      rw [← ih next]
      rfl

theorem getLast?_cons_trace : (c :: r.trace n c).getLast? = some (r.run n c).2 := by
  induction n generalizing c with
  | zero => rfl
  | succ n ih =>
    cases hs : r.step c with
    | halted =>
      rw [Control.trace, Control.run, hs]
      rfl
    | misfit i =>
      rw [Control.trace, Control.run, hs]
      rfl
    | done i next =>
      have htrace : r.trace (n + 1) c = next :: r.trace n next := by rw [Control.trace, hs]
      rw [htrace, Control.run_succ_of_done hs, List.getLast?_cons_cons]
      exact ih next

/-- A run knows whether it has halted without a look at its last configuration. -/
theorem fst_run_beq_halted : ((r.run n c).1 == .halted) = r.isHalted (r.run n c).2 := by
  induction n generalizing c with
  | zero =>
    rw [Control.run_zero]
    cases r.isHalted c <;> rfl
  | succ n ih =>
    cases hs : r.step c with
    | halted =>
      have hhalted := Control.step_eq_halted_iff.1 hs
      rw [Control.run_of_isHalted hhalted, hhalted]
      rfl
    | misfit i =>
      obtain ⟨hi, -⟩ := Control.step_eq_misfit_iff.1 hs
      rw [Control.run, hs, Control.isHalted, hi]
      rfl
    | done i next =>
      rw [Control.run_succ_of_done hs]
      exact ih next

theorem plainRun_eq : plainRun r n c = summary (r.isHalted (r.run n c).2) (r.run n c).2 := by
  rw [← fst_run_beq_halted]
  rfl

/-- The run that is shown ends with what the other run writes. -/
theorem shownRun_eq : shownRun r n c = (c :: r.trace n c).map Config.display ++ plainRun r n c := by
  rw [plainRun_eq, shownRun, getLast?_cons_trace]
  rfl

end

/-! ## The two executions -/

theorem execute_of_load {w : World} {o : Options} {s : Spec} (hlist : o.list = false)
    (hgraph : o.graph = false) (hload : load w o = .ok s) :
    execute w o = .done
      (if o.debug then shownRun s.table.control o.maxSteps (prepared o s).initial
        else plainRun s.table.control o.maxSteps (prepared o s).initial)
      (warningLines o (prepared o s)) := by
  obtain ⟨input, hprepared⟩ := exists_prepared_eq o s
  have htable : (prepared o s).table = s.table := by rw [hprepared]
  simp only [execute, hlist, hload, output, hgraph, htable, Bool.false_eq_true, if_false]

theorem run_eq_execute {w : World} {o : Options} {arguments : List String}
    (ho : Options.ofArguments? Control.defaultSteps arguments = some o) :
    run { w with arguments := arguments } = execute w o := by
  unfold run
  rw [ho]
  rfl

/-- A machine that could be loaded is run for at most as many steps as are asked for.  Without the
configurations, the output is a line that tells how the run ended, in which state and after how many steps,
and a line for each tape.  With the configurations, first come the initial one and the one after each
executed step, and then exactly the same lines.  Warnings and exit code are the same.  Arguments that ask for
no configurations ask for them, and for nothing else, with the flag in front. -/
theorem shown_execution {w : World} {o : Options} {s : Spec} (hlist : o.list = false) (hgraph : o.graph = false)
    (hload : load w o = .ok s) :
    (∃ (steps : ℕ) (last : Config) (lines warnings : List String),
      (steps : ℕ∞) = min (o.maxSteps : ℕ∞) (s.table.control.haltingTime (prepared o s).initial) ∧
      s.table.control.session (List.replicate steps .step) (prepared o s).initial =
        (List.replicate steps (.stepped true), last) ∧
      last.steps = steps ∧
      lines =
        (if s.table.control.isHalted last then
          "Halted in state \u0060" ++ last.state ++ "\u0060 after " ++ toString steps ++ " steps."
        else "Stopped after " ++ toString steps ++ " steps in state \u0060" ++ last.state ++
          "\u0060 (step limit).") ::
        last.tapes.map Tape.display ∧
      execute w { o with debug := false } = .done lines warnings ∧
      execute w { o with debug := true } = .done
        ((List.range (steps + 1)).map
          (fun j => (s.table.control.advance^[j] (prepared o s).initial).display) ++ lines) warnings ∧
      (execute w { o with debug := true }).standardOutput =
        String.join ((List.range (steps + 1)).map fun j =>
          (s.table.control.advance^[j] (prepared o s).initial).display ++ "\n") ++
        (execute w { o with debug := false }).standardOutput ∧
      (execute w { o with debug := true }).errorLines = (execute w { o with debug := false }).errorLines ∧
      (execute w { o with debug := true }).code = (execute w { o with debug := false }).code) ∧
    (∀ debug arguments, Options.ofArguments? Control.defaultSteps arguments = some { o with debug := debug } →
      run { w with arguments := arguments } = execute w { o with debug := debug }) ∧
    ∀ arguments, Options.ofArguments? Control.defaultSteps arguments = some { o with debug := false } →
      Options.ofArguments? Control.defaultSteps ("--debug" :: arguments) = some { o with debug := true } := by
  obtain ⟨input, hprepared⟩ := exists_prepared_eq o s
  have hvalid : s.Valid := valid_of_load hload
  have htapes : (prepared o s).initial.tapes.length = s.table.control.tapes := by
    rw [hprepared]
    exact (hvalid.admits_initial input).tapes
  obtain ⟨steps, hsteps, hsession, hcount⟩ :=
    hvalid.table.fitting.control.exists_session_run htapes o.maxSteps
  have hzero : (prepared o s).initial.steps + steps = steps := Nat.zero_add steps
  rw [hzero] at hcount
  have hlength : (s.table.control.trace o.maxSteps (prepared o s).initial).length = steps := by
    have hrun := Control.steps_run s.table.control o.maxSteps (prepared o s).initial
    omega
  have hplain : execute w { o with debug := false } = .done
      (plainRun s.table.control o.maxSteps (prepared o s).initial) (warningLines o (prepared o s)) :=
    execute_of_load (o := { o with debug := false }) hlist hgraph hload
  have hshown : execute w { o with debug := true } = .done
      (shownRun s.table.control o.maxSteps (prepared o s).initial) (warningLines o (prepared o s)) :=
    execute_of_load (o := { o with debug := true }) hlist hgraph hload
  rw [shownRun_eq, cons_trace_eq_map, hlength, List.map_map] at hshown
  refine ⟨⟨steps, _, _, _, hsteps, hsession, hcount, ?_, hplain, hshown, ?_, ?_, ?_⟩,
    fun _ _ => run_eq_execute, fun _ ho => ofArguments?_debug (o := { o with debug := false }) ho rfl⟩
  · rw [plainRun_eq, summary, hcount]
    rfl
  · rw [hshown, hplain]
    simp only [Outcome.standardOutput, List.map_append, String.join_append, List.map_map, Function.comp_def]
  · rw [hshown, hplain]
    rfl
  · rw [hshown, hplain]
    rfl

/-- Two steps are asked of a machine that reads ones from left to right. -/
def scanning : World where
  arguments := ["-i", "11", "--max-steps", "2"]
  standardInput := "blank: 0\nstart state: a\ntable:\n  a: \x7b1: R\x7d\n".toUTF8
  file _ := .error .notFound

def scanningOptions : Options where
  program := none
  bundled := none
  input := some "11"
  debug := false
  maxSteps := 2
  graph := false
  list := false
  logLevel := "warn"

theorem ofArguments?_scanning :
    Options.ofArguments? Control.defaultSteps scanning.arguments = some scanningOptions := by
  have hinput : readShort ['i'] = some ([], some .input) := by decide
  have hsteps : readLong "max-steps".toList = some ([], some .maxSteps) := by decide +kernel
  refine ofArguments?_eq_some_iff.2 ⟨[.option .input "11", .option .maxSteps "2"], ?_, ?_⟩
  · rw [scanning, readArguments]
    show readArguments.withNext (readShort ['i']) ["11", "--max-steps", "2"] = _
    rw [hinput, readArguments.withNext, readArguments]
    show Option.map _ (readArguments.withNext (readLong "max-steps".toList) ["2"]) = _
    rw [hsteps, readArguments.withNext, readArguments]
    rfl
  · exact {
      program := rfl
      named := by decide
      bundled := rfl
      exclusive := rfl
      input := rfl
      maxSteps := ⟨some "2", rfl, by decide⟩
      logLevel := ⟨none, rfl, rfl⟩
      debug := rfl
      graph := rfl
      list := rfl }

theorem exists_load_scanning :
    ∃ s, load scanning scanningOptions = .ok s ∧
      s.table.control.isHalted (s.table.control.advance^[1] (prepared scanningOptions s).initial) = false ∧
      (List.range 3).map (fun j =>
        (s.table.control.advance^[j] (prepared scanningOptions s).initial).display) =
          ["a [1]1", "a 1[1]", "a 11[0]"] := by
  have h : (load scanning scanningOptions).toOption.map (fun s =>
      (s.table.control.isHalted (s.table.control.advance^[1] (prepared scanningOptions s).initial),
        (List.range 3).map fun j =>
          (s.table.control.advance^[j] (prepared scanningOptions s).initial).display)) =
      some (false, ["a [1]1", "a 1[1]", "a 11[0]"]) := by decide +kernel
  obtain ⟨s, hs, hparts⟩ := exists_of_toOption_map h
  rw [Prod.mk.injEq] at hparts
  exact ⟨s, hs, hparts⟩

/-- The second step is the last one that is asked for, and it leads to a halting configuration; with one step
less the run is stopped. -/
theorem shown_execution_scanning :
    scanningOptions.list = false ∧ scanningOptions.graph = false ∧
      (∃ s, load scanning scanningOptions = .ok s) ∧
      run scanning = execute scanning scanningOptions ∧
      run { scanning with arguments := "--debug" :: scanning.arguments } =
        execute scanning { scanningOptions with debug := true } ∧
      (execute scanning scanningOptions).standardOutput =
        "Halted in state \u0060a\u0060 after 2 steps.\n11[0]\n" ∧
      (execute scanning { scanningOptions with debug := true }).standardOutput =
        "a [1]1\na 1[1]\na 11[0]\nHalted in state \u0060a\u0060 after 2 steps.\n11[0]\n" ∧
      (execute scanning { scanningOptions with maxSteps := 1 }).standardOutput =
        "Stopped after 1 steps in state \u0060a\u0060 (step limit).\n1[1]\n" ∧
      (execute scanning { scanningOptions with maxSteps := 1, debug := true }).standardOutput =
        "a [1]1\na 1[1]\nStopped after 1 steps in state \u0060a\u0060 (step limit).\n1[1]\n" := by
  obtain ⟨s, hs, hrunning, hdisplays⟩ := exists_load_scanning
  obtain ⟨⟨steps, -, -, -, hsteps, -, -, -, -, -, houtput, -, -⟩, hrun, hflag⟩ :=
    shown_execution (w := scanning) (o := scanningOptions) rfl rfl hs
  have hlate : ((2 : ℕ) : ℕ∞) ≤ s.table.control.haltingTime (prepared scanningOptions s).initial :=
    Order.add_one_le_of_lt (Control.lt_haltingTime_iff.2 hrunning)
  have htwo : steps = 2 := Nat.cast_injective (hsteps.trans (min_eq_left hlate))
  have hplain : (execute scanning scanningOptions).standardOutput =
      "Halted in state \u0060a\u0060 after 2 steps.\n11[0]\n" := by decide +kernel
  refine ⟨rfl, rfl, ⟨s, hs⟩, hrun false _ ofArguments?_scanning, hrun true _ (hflag _ ofArguments?_scanning),
    hplain, houtput.trans ?_, by decide +kernel, by decide +kernel⟩
  have hlines : (List.range (steps + 1)).map (fun j =>
      (s.table.control.advance^[j] (prepared scanningOptions s).initial).display ++ "\n") =
      ["a [1]1", "a 1[1]", "a 11[0]"].map (· ++ "\n") := by
    rw [htwo, ← hdisplays, List.map_map]
    rfl
  rw [hlines]
  exact (congrArg _ hplain).trans (by decide)

end TapeMachine.CommandLine
