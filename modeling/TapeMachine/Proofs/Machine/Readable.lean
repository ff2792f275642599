import TapeMachine.Analysis
import TapeMachine.Document.Parse
import TapeMachine.Proofs.FirstOccurrences
import TapeMachine.Proofs.Success

/-!
# Which symbols of the input are read

The warning of unreadable symbols looks at the first places of the patterns only.  A machine looks its instruction up
by all the symbols under its heads, and of several rules that read them it takes the first.  The two agree: a pattern
with the symbol, or a wildcard, in its first place reads that symbol together with its own further symbols, so that an
instruction is found, be it that of an earlier rule; and an instruction is only found by a pattern that reads the
symbol in its first place.
-/

namespace TapeMachine

/-! ## Patterns -/

namespace Pattern

variable {w : Option Symbol} {p : Pattern} {c : Symbol}

theorem reads_self (w : Option Symbol) (p : Pattern) : p.reads w p = true :=
  reads_iff.2 ⟨rfl, fun _ _ => .inr rfl⟩

theorem exists_reads_iff :
    (∃ symbols, symbols.head? = some c ∧ p.reads w symbols = true) ↔
      ∃ expected, p.head? = some expected ∧ (some expected = w ∨ expected = c) := by
  cases p with
  | nil =>
    constructor
    · rintro ⟨symbols, hhead, hreads⟩
      rw [List.eq_nil_of_length_eq_zero (length_eq_of_reads hreads).symm] at hhead
      cases hhead
    · rintro ⟨_, hhead, -⟩
      cases hhead
  | cons expected p =>
    simp only [List.head?_cons, Option.some.injEq, exists_eq_left']
    constructor
    · rintro ⟨symbols, hhead, hreads⟩
      obtain ⟨rest, rfl⟩ := List.head?_eq_some_iff.1 hhead
      rw [reads_cons_cons, Bool.and_eq_true, Bool.or_eq_true, beq_iff_eq, beq_iff_eq] at hreads
      exact hreads.1
    · intro hfirst
      refine ⟨c :: p, rfl, ?_⟩
      rw [reads_cons_cons, reads_self, Bool.and_true, Bool.or_eq_true, beq_iff_eq, beq_iff_eq]
      exact hfirst

end Pattern

/-! ## Tables -/

namespace Table

variable {t : Table} {state : State} {symbols : List Symbol} {c : Symbol}

/-- An instruction is found if some pattern of the state reads the symbols, although it need not be that of the
transition with this pattern. -/
theorem isSome_lookup_iff :
    (t.lookup state symbols).isSome = true ↔
      ∃ r ∈ t.transitions state, r.pattern.reads t.wildcard symbols = true := by
  cases t with
  | single t =>
    simp only [Option.isSome_iff_exists, lookup_single_eq_some_iff, mem_transitions_single, wildcard,
      SingleTable.get?, Option.bind_eq_some_iff, Option.join_eq_some_iff, Dict.get?_eq_some_iff]
    constructor
    · rintro ⟨_, c, i, rfl, ⟨row, hrow, hi⟩, rfl⟩
      exact ⟨_, ⟨row, hrow, (c, i), hi, rfl⟩, Pattern.reads_self none [c]⟩
    · rintro ⟨_, ⟨row, hrow, x, hx, rfl⟩, hreads⟩
      exact ⟨_, x.1, x.2, (Pattern.reads_none_iff.1 hreads).symm, ⟨row, hrow, hx⟩, rfl⟩
  | multi t =>
    simp only [mem_transitions_multi, lookup, Option.isSome_map, MultiTable.find?, wildcard]
    rcases hrow : t.states.get? state with _ | _ | rules
    · simp
    · simp
    · simp only [Option.join_some, Option.bind_some, List.find?_isSome, Option.some.injEq, exists_eq_left']
      constructor
      · rintro ⟨rule, hrule, hreads⟩
        exact ⟨_, ⟨rule, hrule, rfl⟩, hreads⟩
      · rintro ⟨_, ⟨rule, hrule, rfl⟩, hreads⟩
        exact ⟨rule, hrule, hreads⟩

theorem mem_rows_iff {ρ : Type} {states : Dict State (Option ρ)} {row : ρ} :
    row ∈ states.values.filterMap id ↔ ∃ state, states.get? state = some (some row) := by
  rw [List.mem_filterMap]
  simp only [id_eq, exists_eq_right]
  exact Dict.mem_values_iff

/-- No instruction is found for symbols that begin with the given one. -/
def Ignores (t : Table) (c : Symbol) : Prop :=
  ∀ state symbols, symbols.head? = some c → t.lookup state symbols = none

theorem mem_symbols_iff {t : SingleTable} :
    c ∈ t.symbols ↔ ∃ state, ∃ r ∈ (single t).transitions state, r.pattern.head? = some c := by
  simp only [SingleTable.symbols, List.mem_flatMap, mem_rows_iff, Dict.keys, List.mem_map, mem_transitions_single]
  constructor
  · rintro ⟨row, ⟨state, hrow⟩, x, hx, rfl⟩
    exact ⟨state, _, ⟨row, hrow, x, hx, rfl⟩, rfl⟩
  · rintro ⟨state, _, ⟨row, hrow, x, hx, rfl⟩, hhead⟩
    exact ⟨row, ⟨state, hrow⟩, x, hx, Option.some.inj hhead⟩

theorem mem_firstSymbols_iff {t : MultiTable} :
    c ∈ t.firstSymbols ↔ ∃ state, ∃ r ∈ (multi t).transitions state, r.pattern.head? = some c := by
  rw [MultiTable.firstSymbols, List.mem_filterMap]
  simp only [List.mem_flatten, mem_rows_iff, mem_transitions_multi]
  constructor
  · rintro ⟨rule, ⟨rules, ⟨state, hrules⟩, hrule⟩, hhead⟩
    exact ⟨state, _, ⟨rules, hrules, rule, hrule, rfl⟩, hhead⟩
  · rintro ⟨state, _, ⟨rules, hrules, rule, hrule, rfl⟩, hhead⟩
    exact ⟨rule, ⟨rules, ⟨state, hrules⟩, hrule⟩, hhead⟩

/-- Whatever kind of table it is, the symbols are those in the first places, unless a wildcard is among them. -/
theorem exists_readable?_iff :
    (∃ readable, t.readable? = some readable ∧ c ∉ readable) ↔
      ∀ state, ∀ r ∈ t.transitions state, ∀ expected, r.pattern.head? = some expected →
        some expected ≠ t.wildcard ∧ expected ≠ c := by
  cases t with
  | single t =>
    simp only [readable?, Option.some.injEq, exists_eq_left', mem_symbols_iff]
    constructor
    · intro hnone state r hr expected hhead
      refine ⟨Option.some_ne_none _, ?_⟩
      rintro rfl
      exact hnone ⟨state, r, hr, hhead⟩
    · rintro hall ⟨state, r, hr, hhead⟩
      exact (hall state r hr c hhead).2 rfl
  | multi t =>
    simp only [readable?, Option.ite_none_left_eq_some, Option.some.injEq, Option.any_eq_true,
      List.contains_iff_mem, mem_firstSymbols_iff]
    constructor
    · rintro ⟨_, ⟨hwild, rfl⟩, hnone⟩ state r hr expected hhead
      refine ⟨fun hw => hwild ⟨expected, hw.symm, state, r, hr, hhead⟩, ?_⟩
      rintro rfl
      exact hnone (mem_firstSymbols_iff.2 ⟨state, r, hr, hhead⟩)
    · intro hall
      refine ⟨_, ⟨?_, rfl⟩, fun hc => ?_⟩
      · rintro ⟨w, hw, state, r, hr, hhead⟩
        exact (hall state r hr w hhead).1 hw.symm
      · obtain ⟨state, r, hr, hhead⟩ := mem_firstSymbols_iff.1 hc
        exact (hall state r hr c hhead).2 rfl

theorem exists_readable?_iff_ignores :
    (∃ readable, t.readable? = some readable ∧ c ∉ readable) ↔ t.Ignores c := by
  rw [exists_readable?_iff]
  constructor
  · intro hnone state symbols hhead
    rw [← Option.not_isSome_iff_eq_none, isSome_lookup_iff]
    rintro ⟨r, hr, hreads⟩
    obtain ⟨expected, hexpected, hfirst⟩ := Pattern.exists_reads_iff.1 ⟨symbols, hhead, hreads⟩
    obtain ⟨hwild, hne⟩ := hnone state r hr expected hexpected
    exact hfirst.elim hwild hne
  · intro hignores state r hr expected hexpected
    refine not_or.1 fun hfirst => ?_
    obtain ⟨symbols, hhead, hreads⟩ := Pattern.exists_reads_iff.2 ⟨expected, hexpected, hfirst⟩
    have hfound := isSome_lookup_iff.2 ⟨r, hr, hreads⟩
    rw [hignores state symbols hhead] at hfound
    cases hfound

end Table

/-! ## Warnings -/

namespace Spec

theorem mem_unreadableSymbols_iff {s : Spec} {c : Symbol} :
    c ∈ s.unreadableSymbols ↔ c ∈ s.inputSymbols ∧ c ≠ s.blank ∧ s.table.Ignores c := by
  rw [mem_unreadableSymbols, Table.exists_readable?_iff_ignores]

theorem unreadableSymbols_of_readable? {s : Spec} {readable : List Symbol}
    (h : s.table.readable? = some readable) :
    s.unreadableSymbols = ((s.inputSymbols.filter fun c => c != s.blank && !readable.contains c).mergeSort
      (·.toNat ≤ ·.toNat)).eraseDups := by
  rw [unreadableSymbols, h]
  rfl

theorem pairwise_eraseDups_mergeSort (cs : List Symbol) :
    (cs.mergeSort (·.toNat ≤ ·.toNat)).eraseDups.Pairwise fun c c' => c.toNat < c'.toNat := by
  have hsorted : (cs.mergeSort (·.toNat ≤ ·.toNat)).eraseDups.Pairwise
      fun c c' => decide (c.toNat ≤ c'.toNat) = true := by
    refine List.Pairwise.sublist (eraseDups_sublist _) (List.pairwise_mergeSort ?_ ?_ _)
    · intro a b c hab hbc
      rw [decide_eq_true_iff] at hab hbc ⊢
      exact Nat.le_trans hab hbc
    · intro a b
      simpa using Nat.le_total a.toNat b.toNat
  refine (hsorted.and (nodup_eraseDups _)).imp ?_
  rintro c c' ⟨hle, hne⟩
  have hcode : c.toNat ≠ c'.toNat := Char.toNat_inj.not.2 hne
  exact Nat.lt_of_le_of_ne (of_decide_eq_true hle) hcode

theorem pairwise_unreadableSymbols (s : Spec) :
    s.unreadableSymbols.Pairwise fun c c' => c.toNat < c'.toNat := by
  cases hreadable : s.table.readable? with
  | none =>
    rw [unreadableSymbols, hreadable]
    exact .nil
  | some readable =>
    rw [unreadableSymbols_of_readable? hreadable]
    exact pairwise_eraseDups_mergeSort _

theorem unreadableSymbols_mem_warnings_iff {s : Spec} {cs : List Symbol} :
    .unreadableSymbols cs ∈ s.warnings ↔ cs ≠ [] ∧ cs = s.unreadableSymbols := by
  simp only [warnings, List.mem_append, List.mem_ite_nil_left, List.mem_singleton, reduceCtorEq, and_false,
    false_or, Warning.unreadableSymbols.injEq, List.isEmpty_iff]
  constructor
  · rintro ⟨hne, rfl⟩
    exact ⟨hne, rfl⟩
  · rintro ⟨hne, rfl⟩
    exact ⟨hne, rfl⟩

/-- The warning of unreadable symbols is given if and only if the input has a symbol other than the blank for which no
instruction is found, in whatever state and whatever the other heads read.  It then lists all of these symbols and
no others, in order of their code points and each once, and only the warning of unreachable states comes before it. -/
theorem unreadable_warning (s : Spec) :
    ((∃ cs, .unreadableSymbols cs ∈ s.warnings) ↔
      ∃ c ∈ s.inputSymbols, c ≠ s.blank ∧ s.table.Ignores c) ∧
    ∀ cs, .unreadableSymbols cs ∈ s.warnings →
      (∀ c, c ∈ cs ↔ c ∈ s.inputSymbols ∧ c ≠ s.blank ∧ s.table.Ignores c) ∧
      (cs.Pairwise fun c c' => c.toNat < c'.toNat) ∧
      (s.warnings = [.unreadableSymbols cs] ∨
        ∃ states, s.warnings = [.unreachableStates states, .unreadableSymbols cs]) := by
  simp only [unreadableSymbols_mem_warnings_iff]
  constructor
  · constructor
    · rintro ⟨_, hne, rfl⟩
      obtain ⟨c, hc⟩ := List.exists_mem_of_ne_nil _ hne
      exact ⟨c, mem_unreadableSymbols_iff.1 hc⟩
    · rintro ⟨c, hc⟩
      exact ⟨_, List.ne_nil_of_mem (mem_unreadableSymbols_iff.2 hc), rfl⟩
  · rintro _ ⟨hne, rfl⟩
    refine ⟨fun c => mem_unreadableSymbols_iff, pairwise_unreadableSymbols s, ?_⟩
    have hlast : s.unreadableSymbols.isEmpty = false := by simpa using hne
    rw [warnings, hlast]
    by_cases hfirst : s.unreachableStates.isEmpty = true
    · rw [if_pos hfirst]
      exact .inl rfl
    · rw [if_neg hfirst]
      exact .inr ⟨_, rfl⟩

/-- A document for three tapes with a wildcard in second place and a state that is not reached. -/
def selective : String := "\n".intercalate [
  "blank: _",
  "wild: '*'",
  "type: 3tape",
  "start state: a",
  "table: \x7ba: \x7b0*_: RRR, 00_: LLL\x7d, c: \x7b1*1: SSS\x7d\x7d"]

theorem unreadable_warning_selective :
    ∃ s, parse selective = .ok s ∧
      (s.withInput "b1_0ab").warnings = [.unreachableStates ["c"], .unreadableSymbols ['a', 'b']] ∧
      s.table.Ignores 'b' ∧ ¬ s.table.Ignores '1' := by
  have hread : (parse selective).toOption.map (fun s => (s.unreachableStates, s.blank, s.table.readable?)) =
      some (["c"], '_', some ['0', '0', '1']) := by
    decide +kernel
  obtain ⟨s, hs, hall⟩ := exists_of_toOption_map hread
  obtain ⟨hunreachable, hrest⟩ := Prod.mk.inj hall
  obtain ⟨hblank, hreadable⟩ := Prod.mk.inj hrest
  replace hreadable : (s.withInput "b1_0ab").table.readable? = some ['0', '0', '1'] := hreadable
  have hunreadable : (s.withInput "b1_0ab").unreadableSymbols = ['a', 'b'] := by
    have hsort : ['b', 'a', 'b'].mergeSort (·.toNat ≤ ·.toNat) = ['a', 'b', 'b'] := by simp [List.mergeSort]
    have hfilter : (s.withInput "b1_0ab").inputSymbols.filter
        (fun c => c != (s.withInput "b1_0ab").blank && !(['0', '0', '1'].contains c)) = ['b', 'a', 'b'] := by
      rw [show (s.withInput "b1_0ab").blank = '_' from hblank]
      show "b1_0ab".toList.filter _ = _
      decide
    rw [unreadableSymbols_of_readable? hreadable, hfilter, hsort]
    decide
  have hwarnings : (s.withInput "b1_0ab").warnings =
      [.unreachableStates ["c"], .unreadableSymbols ['a', 'b']] := by
    rw [warnings, hunreadable, show (s.withInput "b1_0ab").unreachableStates = ["c"] from hunreachable]
    rfl
  have hmem : .unreadableSymbols ['a', 'b'] ∈ (s.withInput "b1_0ab").warnings := by
    rw [hwarnings]
    exact List.mem_cons_of_mem _ (List.mem_singleton.2 rfl)
  obtain ⟨hsymbols, -, -⟩ := (unreadable_warning (s.withInput "b1_0ab")).2 _ hmem
  refine ⟨s, hs, hwarnings, ((hsymbols 'b').1 (by decide)).2.2, fun hignores => ?_⟩
  have hother : '1' ≠ (s.withInput "b1_0ab").blank := by
    rw [show (s.withInput "b1_0ab").blank = '_' from hblank]
    decide
  have hinput : '1' ∈ "b1_0ab".toList := by decide
  have hlisted := (hsymbols '1').2 ⟨hinput, hother, hignores⟩
  exact absurd hlisted (by decide)

end Spec

end TapeMachine
