import Mathlib.Data.List.GetD
import Mathlib.Data.List.Induction
import Mathlib.Logic.Function.Basic
import Mathlib.Order.Bounds.Basic
import TapeMachine.Session

/-!
# The extent of a tape

A ribbon is a tape without a representation: a function on all integers, and the place of the head on it.
A tape keeps a stretch of the ribbon on which the same is done, from the leftmost place to the rightmost
one.  The main statement says which places these are, those of the input and those where the head has
been, and that everything that can be read of the tape is what the ribbon holds there.
-/

namespace TapeMachine

/-! ## Ribbons -/

structure Ribbon where
  cell : Int → Symbol
  head : Int

namespace Ribbon

/-- The input from the head on, and the blank elsewhere. -/
def new (blank : Symbol) (input : List Symbol) : Ribbon where
  cell i := if 0 ≤ i then input.getD i.toNat blank else blank
  head := 0

def apply (r : Ribbon) : TapeEdit → Ribbon
  | .write c => { r with cell := Function.update r.cell r.head c }
  | .left => { r with head := r.head - 1 }
  | .right => { r with head := r.head + 1 }
  | .stay => r
  | .move d => { r with head := r.head + d.offset }

def applyAll (r : Ribbon) (es : List TapeEdit) : Ribbon := es.foldl apply r

/-- The places where the head has been, from before the first operation until after the last. -/
def visited (r : Ribbon) (es : List TapeEdit) : Set Int := {p | ∃ es', es' <+: es ∧ (r.applyAll es').head = p}

/-- The first and the last place of the input, and the places where the head has been; also an empty input
has a first place. -/
def extent (blank : Symbol) (input : List Symbol) (es : List TapeEdit) : Set Int :=
  {0, max (input.length : Int) 1 - 1} ∪ (new blank input).visited es

/-- The cells from `first` to `last`. -/
def segment (r : Ribbon) (first last : Int) : List Symbol :=
  (List.range (last - first + 1).toNat).map fun (i : Nat) => r.cell (first + i)

theorem applyAll_concat (r : Ribbon) (es : List TapeEdit) (e : TapeEdit) :
    r.applyAll (es ++ [e]) = (r.applyAll es).apply e := by
  rw [applyAll, List.foldl_append]
  rfl

theorem visited_nil (r : Ribbon) : r.visited [] = {r.head} := by
  ext p
  simp only [visited, List.prefix_nil, exists_eq_left, Set.mem_ofPred_eq, Set.mem_singleton_iff]
  exact eq_comm

theorem visited_concat (r : Ribbon) (es : List TapeEdit) (e : TapeEdit) :
    r.visited (es ++ [e]) = insert (r.applyAll (es ++ [e])).head (r.visited es) := by
  ext p
  simp only [visited, List.prefix_concat_iff, or_and_right, exists_or, exists_eq_left, Set.mem_ofPred_eq,
    Set.mem_insert_iff]
  exact or_congr_left eq_comm

theorem extent_nil (blank : Symbol) (input : List Symbol) :
    extent blank input [] = {0, max (input.length : Int) 1 - 1} := by
  rw [extent, visited_nil, Set.union_eq_left, Set.singleton_subset_iff]
  exact Set.mem_insert 0 _

theorem extent_concat (blank : Symbol) (input : List Symbol) (es : List TapeEdit) (e : TapeEdit) :
    extent blank input (es ++ [e]) =
      insert ((new blank input).applyAll (es ++ [e])).head (extent blank input es) := by
  rw [extent, visited_concat, Set.union_insert]
  rfl

theorem segment_of_lt (r : Ribbon) {first last : Int} (h : last < first) : r.segment first last = [] := by
  have hlength : (last - first + 1).toNat = 0 := by omega
  rw [segment, hlength]
  rfl

theorem segment_append (r : Ribbon) {first middle last : Int} (h₁ : first ≤ middle) (h₂ : middle ≤ last + 1) :
    r.segment first (middle - 1) ++ r.segment middle last = r.segment first last := by
  obtain ⟨m, hm⟩ := Int.eq_ofNat_of_zero_le (Int.sub_nonneg_of_le h₁)
  obtain ⟨n, hn⟩ := Int.eq_ofNat_of_zero_le (Int.sub_nonneg_of_le h₂)
  have hleft : (middle - 1 - first + 1).toNat = m := by omega
  have hright : (last - middle + 1).toNat = n := by omega
  have hboth : (last - first + 1).toNat = m + n := by omega
  have hplace : ∀ i : Nat, first + ((m + i : Nat) : Int) = middle + i := by omega
  simp only [segment, hleft, hright, hboth, List.range_add, List.map_append, List.map_map, Function.comp_def,
    hplace]

theorem segment_eq_cons (r : Ribbon) {first last : Int} (h : first ≤ last) :
    r.segment first last = r.cell first :: r.segment (first + 1) last := by
  have hone : r.segment first (first + 1 - 1) = [r.cell first] := by
    have hlength : (first + 1 - 1 - first + 1).toNat = 1 := by omega
    rw [segment, hlength]
    exact congrArg (fun i => [r.cell i]) (Int.add_zero first)
  rw [← r.segment_append (show first ≤ first + 1 by omega) (show first + 1 ≤ last + 1 by omega), hone]
  rfl

end Ribbon

namespace Tape

def applyAll (t : Tape) (es : List TapeEdit) : Tape := es.foldl (fun t e => e.apply t) t

theorem applyAll_concat (t : Tape) (es : List TapeEdit) (e : TapeEdit) :
    t.applyAll (es ++ [e]) = e.apply (t.applyAll es) := by
  rw [applyAll, List.foldl_append]
  rfl

/-! ## The visited cells -/

theorem length_before_left (t : Tape) : t.left.before.length = t.before.length - 1 := by
  unfold left
  cases t.before <;> rfl

theorem length_after_left (t : Tape) : t.left.after.length = t.after.length + 1 := by
  unfold left
  cases t.before <;> rfl

theorem length_before_right (t : Tape) : t.right.before.length = t.before.length + 1 := by
  unfold right
  cases t.after <;> rfl

theorem length_after_right (t : Tape) : t.right.after.length = t.after.length - 1 := by
  unfold right
  cases t.after <;> rfl

/-- The visited cells of a tape are those of a ribbon from `lo` to `hi`, and all other cells agree too. -/
structure Covers (t : Tape) (r : Ribbon) (lo hi : Int) : Prop where
  position : t.position = r.head
  cell : ∀ i, t.cell i = r.cell i
  before : (t.before.length : Int) = r.head - lo
  after : (t.after.length : Int) = hi - r.head

theorem covers_new (blank : Symbol) (input : List Symbol) :
    (new blank input).Covers (.new blank input) 0 (max (input.length : Int) 1 - 1) where
  position := position_new blank input
  cell := cell_new blank input
  before := by cases input <;> rfl
  after := by
    cases input with
    | nil => rfl
    | cons c cs =>
      show (cs.length : Int) = max ((cs.length + 1 : Nat) : Int) 1 - 1 - 0
      omega

section
variable {t : Tape} {r : Ribbon} {lo hi : Int}

theorem Covers.stay (h : t.Covers r lo hi) : t.Covers r (min r.head lo) (max r.head hi) := by
  obtain ⟨hposition, hcell, hbefore, hafter⟩ := h
  have hlo : min r.head lo = lo := by omega
  have hhi : max r.head hi = hi := by omega
  rw [hlo, hhi]
  exact ⟨hposition, hcell, hbefore, hafter⟩

theorem Covers.write (h : t.Covers r lo hi) (c : Symbol) :
    (t.write c).Covers (r.apply (.write c)) (min r.head lo) (max r.head hi) := by
  refine ⟨h.position, fun i => ?_, h.stay.before, h.stay.after⟩
  show (t.write c).cell i = Function.update r.cell r.head c i
  rw [cell_write, h.position, h.cell, Function.update_apply]

theorem Covers.left (h : t.Covers r lo hi) :
    t.left.Covers (r.apply .left) (min (r.head - 1) lo) (max (r.head - 1) hi) := by
  obtain ⟨hposition, hcell, hbefore, hafter⟩ := h
  refine ⟨?_, fun i => (cell_left t i).trans (hcell i), ?_, ?_⟩
  · rw [position_left, hposition]
    rfl
  · rw [length_before_left]
    show _ = r.head - 1 - min (r.head - 1) lo
    omega
  · rw [length_after_left]
    show _ = max (r.head - 1) hi - (r.head - 1)
    omega

theorem Covers.right (h : t.Covers r lo hi) :
    t.right.Covers (r.apply .right) (min (r.head + 1) lo) (max (r.head + 1) hi) := by
  obtain ⟨hposition, hcell, hbefore, hafter⟩ := h
  refine ⟨?_, fun i => (cell_right t i).trans (hcell i), ?_, ?_⟩
  · rw [position_right, hposition]
    rfl
  · rw [length_before_right]
    show _ = r.head + 1 - min (r.head + 1) lo
    omega
  · rw [length_after_right]
    show _ = max (r.head + 1) hi - (r.head + 1)
    omega

/-- An operation lets the visited cells grow to where the head is after it. -/
theorem Covers.apply (h : t.Covers r lo hi) (e : TapeEdit) :
    (e.apply t).Covers (r.apply e) (min (r.apply e).head lo) (max (r.apply e).head hi) := by
  cases e with
  | write c => exact h.write c
  | left => exact h.left
  | right => exact h.right
  | stay => exact h.stay
  | move d =>
    cases d with
    | left => exact h.left
    | right => exact h.right
    | stay =>
      show t.Covers { r with head := r.head + 0 } (min (r.head + 0) lo) (max (r.head + 0) hi)
      rw [Int.add_zero]
      exact h.stay

end

/-! ## What is read of a tape -/

theorem readRange_eq_segment {t : Tape} {r : Ribbon} (hposition : t.position = r.head)
    (hcell : ∀ i, t.cell i = r.cell i) (first last : Int) :
    t.readRange first last = r.segment (r.head + first) (r.head + last) := by
  have hlength : (r.head + last - (r.head + first) + 1).toNat = (last - first + 1).toNat := by omega
  rw [readRange, Ribbon.segment, hlength]
  refine List.map_congr_left fun i _ => ?_
  rw [readOffset_eq_cell, hcell, hposition, Int.add_assoc]

theorem reverse_before_eq_readRange (t : Tape) : t.before.reverse = t.readRange (-t.before.length) (-1) := by
  refine List.ext_getElem ?_ fun n hn _ => ?_
  · rw [List.length_reverse, readRange, List.length_map, List.length_range]
    omega
  · rw [List.length_reverse] at hn
    have hplace : (-(t.before.length : Int) + n) = Int.negSucc (t.before.length - 1 - n) := by omega
    simp only [readRange, List.getElem_reverse, List.getElem_map, List.getElem_range, hplace, readOffset]
    exact (List.getD_eq_getElem _ _ (by omega)).symm

theorem cons_after_eq_readRange (t : Tape) : t.head :: t.after = t.readRange 0 t.after.length := by
  refine List.ext_getElem ?_ fun n hn _ => ?_
  · rw [List.length_cons, readRange, List.length_map, List.length_range]
    omega
  · simp only [readRange, List.getElem_map, List.getElem_range, Int.zero_add]
    exact (List.getD_eq_getElem _ t.blank hn).symm

/-- What is read of a tape is what a ribbon holds, and the visited cells are those from `lo` to `hi`. -/
structure Shows (t : Tape) (r : Ribbon) (lo hi : Int) : Prop where
  position : t.position = r.head
  read : t.read = r.cell r.head
  readOffset : ∀ k, t.readOffset k = r.cell (r.head + k)
  readRange : ∀ first last, t.readRange first last = r.segment (r.head + first) (r.head + last)
  readRange_of_lt : ∀ first last, last < first → t.readRange first last = []
  cell : ∀ i, t.cell i = r.cell i
  contents : t.contents = r.segment lo hi
  snapshot : t.snapshot = ⟨r.segment lo (r.head - 1), r.segment r.head hi⟩
  snapshot_append : t.snapshot.before ++ t.snapshot.fromHead = t.contents
  fromHead : t.snapshot.fromHead.head? = some (r.cell r.head)
  display : t.display = String.ofList
    (r.segment lo (r.head - 1) ++ '[' :: r.cell r.head :: ']' :: r.segment (r.head + 1) hi)

theorem Covers.shows {t : Tape} {r : Ribbon} {lo hi : Int} (h : t.Covers r lo hi) : t.Shows r lo hi := by
  obtain ⟨hposition, hcell, hbefore, hafter⟩ := h
  have hrange := readRange_eq_segment hposition hcell
  have hhead : t.head = r.cell r.head := by
    rw [← hcell, ← hposition]
    exact (cell_position t).symm
  have hleft : t.before.reverse = r.segment lo (r.head - 1) := by
    have hlo : r.head + -(t.before.length : Int) = lo := by omega
    rw [reverse_before_eq_readRange, hrange, hlo]
    rfl
  have hright : t.head :: t.after = r.segment r.head hi := by
    have hhi : r.head + (t.after.length : Int) = hi := by omega
    rw [cons_after_eq_readRange, hrange, hhi, Int.add_zero]
  have htail : t.after = r.segment (r.head + 1) hi := by
    rw [r.segment_eq_cons (by omega)] at hright
    exact (List.cons.inj hright).2
  exact {
    position := hposition
    read := hhead
    readOffset k := by rw [readOffset_eq_cell, hcell, hposition]
    readRange := hrange
    readRange_of_lt first last h := by rw [hrange, r.segment_of_lt (by omega)]
    cell := hcell
    contents := by rw [contents, hleft, hright, r.segment_append (by omega) (by omega)]
    snapshot := by rw [snapshot, hleft, hright]
    snapshot_append := rfl
    fromHead := congrArg some hhead
    display := by rw [display, hleft, hhead, ← htail] }

/-! ## All operations -/

theorem exists_covers_applyAll (blank : Symbol) (input : List Symbol) (es : List TapeEdit) :
    ∃ lo hi, IsLeast (Ribbon.extent blank input es) lo ∧ IsGreatest (Ribbon.extent blank input es) hi ∧
      ((new blank input).applyAll es).Covers ((Ribbon.new blank input).applyAll es) lo hi := by
  -- The last operation is taken off: what it adds to the extent is the place of the head after it.
  induction es using List.reverseRecOn with
  | nil =>
    have hlast : 0 ≤ max (input.length : Int) 1 - 1 := by omega
    rw [Ribbon.extent_nil]
    refine ⟨0, _, ⟨by simp, ?_⟩, ⟨by simp, ?_⟩, covers_new blank input⟩
    · rintro p (rfl | rfl)
      · exact le_refl 0
      · exact hlast
    · rintro p (rfl | rfl)
      · exact hlast
      · exact le_refl _
  | append_singleton es e ih =>
    obtain ⟨lo, hi, hlo, hhi, hcovers⟩ := ih
    have hlast := hcovers.apply e
    rw [← Ribbon.applyAll_concat, ← applyAll_concat] at hlast
    rw [Ribbon.extent_concat]
    exact ⟨_, _, hlo.insert _, hhi.insert _, hlast⟩

/-- Whatever is done to a new tape, it is read as the ribbon on which the same is done, and its visited
cells reach exactly from the leftmost to the rightmost place of the input and of the head so far. -/
theorem shows_applyAll (blank : Symbol) (input : List Symbol) (es : List TapeEdit) :
    ∃ lo hi, IsLeast (Ribbon.extent blank input es) lo ∧ IsGreatest (Ribbon.extent blank input es) hi ∧
      ((new blank input).applyAll es).Shows ((Ribbon.new blank input).applyAll es) lo hi := by
  obtain ⟨lo, hi, hlo, hhi, hcovers⟩ := exists_covers_applyAll blank input es
  exact ⟨lo, hi, hlo, hhi, hcovers.shows⟩

end Tape

end TapeMachine
