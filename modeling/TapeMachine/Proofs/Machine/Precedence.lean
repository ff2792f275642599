import TapeMachine.Proofs.Document.Validity
import TapeMachine.Proofs.Graph.Control
import TapeMachine.Proofs.Machine.Readable

/-!
# The order of the rules

Of the rules of a state the first that reads the symbols is taken, so that their order may matter.  It does not
matter between rules that never read the same symbols, and a rule after one that reads all that it reads is never
taken.  Both can be told from the patterns: two patterns read the same symbols for once unless they are apart
(`Pattern.apart_iff`), and a pattern reads all that another one reads if and only if it covers it
(`Pattern.covers_iff`).
-/

namespace TapeMachine

/-! ## Patterns -/

namespace Pattern

variable {w : Option Symbol} {p q : Pattern} {c d : Symbol}

/-- Their lengths differ, or their characters in some place, and neither of these is the wildcard. -/
def Apart (w : Option Symbol) (p q : Pattern) : Prop :=
  p.length ≠ q.length ∨
    ∃ (j : Nat) (c d : Symbol), p[j]? = some c ∧ q[j]? = some d ∧ c ≠ d ∧ some c ≠ w ∧ some d ≠ w

/-- Their lengths are equal, and in each place the first has the wildcard or the character of the second. -/
def Covers (w : Option Symbol) (p q : Pattern) : Prop :=
  p.length = q.length ∧ ∀ (j : Nat) (c d : Symbol), p[j]? = some c → q[j]? = some d → some c = w ∨ c = d

theorem covers_iff_reads : Covers w p q ↔ p.reads w q = true := by
  rw [reads_iff, Covers]
  refine and_congr_right fun hlength => ⟨fun h j hj => ?_, fun h j c d hc hd => ?_⟩
  · rw [List.getElem?_eq_getElem hj, List.getElem?_eq_getElem (hlength ▸ hj)]
    exact (h j _ _ (List.getElem?_eq_getElem hj) (List.getElem?_eq_getElem (hlength ▸ hj))).imp_right
      (congrArg some)
  · have hj : j < p.length := (List.getElem?_eq_some_iff.1 hc).1
    simpa [hc, hd] using h j hj

/-- Since a pattern reads itself, one that covers it has to read it. -/
theorem covers_iff : Covers w p q ↔ ∀ xs, q.reads w xs = true → p.reads w xs = true := by
  refine ⟨fun ⟨hlength, h⟩ xs hxs => ?_, fun h => covers_iff_reads.2 (h q (reads_self w q))⟩
  obtain ⟨hq, hreads⟩ := reads_iff.1 hxs
  refine reads_iff.2 ⟨hlength.trans hq, fun j hj => ?_⟩
  have hj' : j < q.length := hlength ▸ hj
  have hc : p[j]? = some p[j] := List.getElem?_eq_getElem hj
  have hd : q[j]? = some q[j] := List.getElem?_eq_getElem hj'
  rcases h j _ _ hc hd with hwild | heq
  · exact .inl (hc.trans hwild)
  · rw [hc, heq, ← hd]
    exact hreads j hj'

theorem Apart.reads_eq_false (h : Apart w p q) {xs : List Symbol} (hp : p.reads w xs = true) :
    q.reads w xs = false := by
  rw [← Bool.not_eq_true]
  intro hq
  rw [reads_iff] at hp hq
  rcases h with hlength | ⟨j, c, d, hc, hd, hne, hcw, hdw⟩
  · exact hlength (hp.1.trans hq.1.symm)
  · have hj : j < p.length := (List.getElem?_eq_some_iff.1 hc).1
    have hj' : j < q.length := (List.getElem?_eq_some_iff.1 hd).1
    have hpx : some c = xs[j]? := hc ▸ (hp.2 j hj).resolve_left (hc ▸ hcw)
    have hqx : some d = xs[j]? := hd ▸ (hq.2 j hj').resolve_left (hd ▸ hdw)
    exact hne (Option.some.inj (hpx.trans hqx.symm))

theorem apart_cons_cons_iff :
    Apart w (c :: p) (d :: q) ↔ (c ≠ d ∧ some c ≠ w ∧ some d ≠ w) ∨ Apart w p q := by
  simp only [Apart, List.length_cons, ne_eq, Nat.add_right_cancel_iff]
  constructor
  · rintro (hlength | ⟨_ | j, c', d', hc, hd, h⟩)
    · exact .inr (.inl hlength)
    · cases hc
      cases hd
      exact .inl h
    · exact .inr (.inr ⟨j, c', d', hc, hd, h⟩)
  · rintro (h | hlength | ⟨j, h⟩)
    · exact .inr ⟨0, c, d, rfl, rfl, h⟩
    · exact .inl hlength
    · exact .inr ⟨j + 1, h⟩

/-- In a place where they are not apart one of the patterns has the wildcard, so that the character of the other
one will do for both, or they have the same character. -/
theorem apart_iff : Apart w p q ↔ ∀ xs, p.reads w xs = true → q.reads w xs = false := by
  refine ⟨fun h xs hp => h.reads_eq_false hp, fun h => ?_⟩
  by_contra hnot
  suffices ∃ xs, p.reads w xs = true ∧ q.reads w xs = true by
    obtain ⟨xs, hp, hq⟩ := this
    rw [h xs hp] at hq
    cases hq
  clear h
  induction p generalizing q with
  | nil =>
    cases q with
    | nil => exact ⟨[], rfl, rfl⟩
    | cons d q => exact absurd (.inl (by simp)) hnot
  | cons c p ih =>
    cases q with
    | nil => exact absurd (.inl (by simp)) hnot
    | cons d q =>
      rw [apart_cons_cons_iff, not_or] at hnot
      obtain ⟨xs, hp, hq⟩ := ih hnot.2
      by_cases hc : some c = w
      · exact ⟨d :: xs, by simp [hc, hp], by simp [hq]⟩
      · refine ⟨c :: xs, by simp [hp], ?_⟩
        by_cases hd : some d = w
        · simp [hd, hq]
        · have hcd : c = d := by
            by_contra hne
            exact hnot.1 ⟨hne, hc, hd⟩
          simp [hcd, hq]

theorem apart_none_iff : Apart none p q ↔ p ≠ q := by
  rw [apart_iff]
  constructor
  · rintro h rfl
    have hself := h p (reads_self none p)
    rw [reads_self] at hself
    cases hself
  · intro hne xs hp
    rw [← Bool.not_eq_true, reads_none_iff]
    rintro rfl
    exact hne (reads_none_iff.1 hp)

end Pattern

/-! ## The first that holds -/

section
variable {α : Type} {f : α → Bool} {a b : α} {xs ys zs : List α}

theorem find?_exchange (xs : List α) (h : f a = true → f b = false) :
    (xs ++ b :: a :: ys).find? f = (xs ++ a :: b :: ys).find? f := by
  simp only [List.find?_append, List.find?_cons]
  cases ha : f a with
  | false => cases f b <;> rfl
  | true => rw [h ha]

theorem find?_perm (hxs : xs.Pairwise fun a b => f a = true → f b = false) (h : ys.Perm xs) :
    ys.find? f = xs.find? f := by
  have hsymm : ∀ {a b : α}, (f a = true → f b = false) → f b = true → f a = false := by
    intro a b hab hb
    rw [← Bool.not_eq_true]
    intro ha
    rw [hab ha] at hb
    cases hb
  induction h with
  | nil => rfl
  | cons a _ ih =>
    rw [List.find?_cons, List.find?_cons, ih hxs.tail]
  | swap a b l =>
    obtain ⟨hab, -⟩ := List.pairwise_cons.1 hxs
    exact find?_exchange [] (hab b List.mem_cons_self)
  | trans _ h₂ ih₁ ih₂ =>
    exact (ih₁ ((h₂.pairwise_iff hsymm).2 hxs)).trans (ih₂ hxs)

theorem find?_of_covered (h : f b = true → f a = true) :
    (xs ++ a :: (ys ++ zs)).find? f = (xs ++ a :: (ys ++ b :: zs)).find? f := by
  simp only [List.find?_append, List.find?_cons]
  cases ha : f a with
  | true => rfl
  | false =>
    have hb : f b = false := by
      rw [← Bool.not_eq_true]
      intro hb
      rw [h hb] at ha
      cases ha
    rw [hb]

theorem findIdx?_ne_of_covered (h : f b = true → f a = true) :
    (xs ++ a :: (ys ++ b :: zs)).findIdx? f ≠ some (xs.length + 1 + ys.length) := by
  intro hfound
  obtain ⟨_, hb, hbefore⟩ := List.findIdx?_eq_some_iff_getElem.1 hfound
  have ha := hbefore xs.length (by omega)
  simp only [List.getElem_append, List.getElem_cons] at ha hb
  grind

end

/-! ## Tables -/

/-- Both tables have the same instructions, so that machines that are driven by them, or by their graphs, cannot be
told apart. -/
structure Table.ActsAs (t u : Table) : Prop where
  lookup : ∀ state symbols, t.lookup state symbols = u.lookup state symbols
  start : ∀ state tapes, t.control.start state tapes = u.control.start state tapes
  run : ∀ n c, t.control.run n c = u.control.run n c
  session : ∀ {σ : Type} (o : Observer σ) (os : List Operation) (c : Config) (s : σ),
    t.control.sessionWith o os c s = u.control.sessionWith o os c s
  graph : ∀ {σ : Type} (o : Observer σ) (os : List Operation) (c : Config) (s : σ),
    t.graph.control.sessionWith o os c s = u.graph.control.sessionWith o os c s

theorem Table.ActsAs.of_control_eq {t u : Table} (h : t.control = u.control) : t.ActsAs u where
  lookup state symbols := congrArg (·.lookup state symbols) h
  start state tapes := by rw [h]
  run n c := by rw [h]
  session o os c s := by rw [h]
  graph o os c s := by rw [StateGraph.control_graph, StateGraph.control_graph, h]

namespace MultiTable

/-- The rules of a state, of which there may be none. -/
def rules (t : MultiTable) (state : State) : List Rule := (t.states.get? state).join.getD []

/-- The table with other rules for a state. -/
def withRules (t : MultiTable) (state : State) (rules : List Rule) : MultiTable :=
  { t with states := t.states.insert state (some rules) }

/-- The place of the rule that is taken. -/
def chosen? (t : MultiTable) (state : State) (symbols : List Symbol) : Option Nat :=
  (t.rules state).findIdx? (·.pattern.reads t.wildcard symbols)

variable {t : MultiTable} {state : State} {rules : List Rule}

theorem find?_eq_rules (t : MultiTable) (state : State) (symbols : List Symbol) :
    t.find? state symbols = (t.rules state).find? (·.pattern.reads t.wildcard symbols) := by
  rw [find?, MultiTable.rules]
  cases (t.states.get? state).join <;> rfl

theorem find?_eq_chosen (t : MultiTable) (state : State) (symbols : List Symbol) :
    t.find? state symbols = (t.chosen? state symbols).bind ((t.rules state)[·]?) := by
  rw [find?_eq_rules, chosen?, List.find?_eq_bind_findIdx?_getElem?]

theorem rules_withRules (t : MultiTable) (state : State) (rules : List Rule) (s : State) :
    (t.withRules state rules).rules s = if s = state then rules else t.rules s := by
  rw [MultiTable.rules, withRules, Dict.get?_insert]
  by_cases hs : s = state
  · rw [if_pos hs, if_pos hs]
    rfl
  · rw [if_neg hs, if_neg hs]
    rfl

theorem actsAs_withRules
    (h : ∀ symbols, rules.find? (·.pattern.reads t.wildcard symbols) =
      (t.rules state).find? (·.pattern.reads t.wildcard symbols)) :
    (Table.multi (t.withRules state rules)).ActsAs (.multi t) := by
  have hfind : ∀ s symbols, (t.withRules state rules).find? s symbols = t.find? s symbols := by
    intro s symbols
    rw [find?_eq_rules, find?_eq_rules, rules_withRules]
    by_cases hs : s = state
    · rw [if_pos hs, hs]
      exact h symbols
    · rw [if_neg hs]
      rfl
  have hlookup : (Table.multi (t.withRules state rules)).lookup = (Table.multi t).lookup := by
    funext s symbols
    exact congrArg (Option.map _) (hfind s symbols)
  exact Table.ActsAs.of_control_eq (congrArg (Control.mk t.tapes) hlookup)

theorem pairwise_apart (ht : (Table.multi t).Valid) (hwild : t.wildcard = none) (state : State) :
    (t.rules state).Pairwise fun a b => a.pattern.Apart t.wildcard b.pattern := by
  have hpatterns : ((t.rules state).map Rule.pattern).Nodup := by
    have hdistinct := ht.distinct state
    rwa [Table.transitions, List.map_map] at hdistinct
  rw [hwild]
  exact (List.pairwise_map.1 hpatterns).imp Pattern.apart_none_iff.2

/-- Two rules of a state that stand side by side may change places if their patterns are apart, so that without a
wildcard the rules of a state that are read from a document may be in any order.  A rule that comes after one that
covers it is never the one that is taken, for this one reads all that it reads, and it may be left out. -/
theorem order_of_rules (t : MultiTable) (state : State) :
    (∀ before first second after, t.rules state = before ++ first :: second :: after →
      first.pattern.Apart t.wildcard second.pattern →
        (Table.multi (t.withRules state (before ++ second :: first :: after))).ActsAs (.multi t)) ∧
    (∀ text s, Spec.parse text = .ok s → s.wild = none → s.table = .multi t →
      ∀ rules, rules.Perm (t.rules state) → (Table.multi (t.withRules state rules)).ActsAs (.multi t)) ∧
    (∀ symbols, t.find? state symbols = (t.chosen? state symbols).bind ((t.rules state)[·]?)) ∧
    ∀ before first middle second after, t.rules state = before ++ first :: (middle ++ second :: after) →
      first.pattern.Covers t.wildcard second.pattern →
        (∀ symbols, second.pattern.reads t.wildcard symbols = true →
          first.pattern.reads t.wildcard symbols = true) ∧
        (∀ symbols, t.chosen? state symbols ≠ some (before.length + 1 + middle.length)) ∧
        (Table.multi (t.withRules state (before ++ first :: (middle ++ after)))).ActsAs (.multi t) := by
  refine ⟨fun before first second after hrules hapart => ?_, fun text s hs hwild htable rules hrules => ?_,
    find?_eq_chosen t state, fun before first middle second after hrules hcovers => ?_⟩
  · refine actsAs_withRules fun symbols => ?_
    rw [hrules]
    exact find?_exchange before hapart.reads_eq_false
  · have hvalid : s.Valid := Spec.valid_of_parse hs
    have hnone : t.wildcard = none := (hvalid.wildcard t htable).trans hwild
    have hpairwise := pairwise_apart (htable ▸ hvalid.table) hnone state
    refine actsAs_withRules fun symbols => find?_perm (hpairwise.imp ?_) hrules
    exact fun hapart => hapart.reads_eq_false
  · have hreads := Pattern.covers_iff.1 hcovers
    refine ⟨hreads, fun symbols => ?_, actsAs_withRules fun symbols => ?_⟩
    · rw [chosen?, hrules]
      exact findIdx?_ne_of_covered (hreads symbols)
    · rw [hrules]
      exact find?_of_covered (hreads symbols)

/-- The first two rules are apart in their first place, and the first covers the third. -/
def overlapping : MultiTable where
  tapes := 2
  wildcard := some '*'
  states := ⟨[("a", some [
    ⟨['0', '*'], ⟨some [some '1', none], none, none⟩⟩,
    ⟨['1', '*'], ⟨none, some [.right, .stay], some "b"⟩⟩,
    ⟨['0', '1'], ⟨none, some [.left], none⟩⟩]), ("b", none)], by decide⟩

/-- A document for three tapes without a wildcard. -/
def literal : String := "\n".intercalate [
  "blank: _",
  "type: 3tape",
  "start state: a",
  "table: \x7ba: \x7bx__: RRR, y__: \x7bwrite: x__, next: b\x7d\x7d, b: \x7d"]

theorem order_of_rules_overlapping :
    (∃ first second third, overlapping.rules "a" = [first, second, third] ∧
      (Table.multi (overlapping.withRules "a" [second, first, third])).ActsAs (.multi overlapping) ∧
      (Table.multi (overlapping.withRules "a" [first, second])).ActsAs (.multi overlapping) ∧
      ∀ symbols, overlapping.chosen? "a" symbols ≠ some 2) ∧
    ∃ s t, Spec.parse literal = .ok s ∧ s.table = .multi t ∧ (t.rules "a").length = 2 ∧
      (Table.multi (t.withRules "a" (t.rules "a").reverse)).ActsAs (.multi t) := by
  constructor
  · obtain ⟨hexchange, -, -, hcovered⟩ := order_of_rules overlapping "a"
    have hapart : Pattern.Apart (some '*') ['0', '*'] ['1', '*'] :=
      .inr ⟨0, '0', '1', rfl, rfl, by decide, by decide, by decide⟩
    have hcovers : Pattern.Covers (some '*') ['0', '*'] ['0', '1'] := Pattern.covers_iff_reads.2 (by decide)
    obtain ⟨-, hchosen, hwithout⟩ := hcovered [] _ [_] _ [] rfl hcovers
    exact ⟨_, _, _, rfl, hexchange [] _ _ [_] rfl hapart, hwithout, hchosen⟩
  · have hread : (Spec.parse literal).toOption.map (fun s => (s.wild, s.table.tapes, (s.table.transitions "a").length)) =
        some (none, 3, 2) := by
      decide +kernel
    obtain ⟨s, hs, hparts⟩ := exists_of_toOption_map hread
    obtain ⟨hwild, htapes, hlength⟩ : s.wild = none ∧ s.table.tapes = 3 ∧ (s.table.transitions "a").length = 2 := by
      simpa using hparts
    cases htable : s.table with
    | single t =>
      rw [htable] at htapes
      cases htapes
    | multi t =>
      rw [htable, Table.transitions, List.length_map] at hlength
      obtain ⟨-, hperm, -⟩ := order_of_rules t "a"
      exact ⟨s, t, hs, htable, hlength, hperm literal s hs hwild htable _ (List.reverse_perm _)⟩

end MultiTable

end TapeMachine
