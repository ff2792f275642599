import TapeMachine.Proofs.Machine.Extent
import TapeMachine.Tape.Address

/-!
# Addressing by words

Counted from the head, every word finds the cell at the exact integer.  Counted from the start, a place is
found if its distance from the head is a word, which it is for all visited places and for many more, and
then the cell is the one at exactly this place.  With the head to the right of the start, the least word is
too far away, and with the head to the left the greatest one is: asked for these, the tape has no answer.
-/

namespace TapeMachine

/-! ## Words -/

theorem toNat_magnitude (k : Int64) : (magnitude k).toNat = k.toInt.natAbs := by
  have hle := k.le_toInt
  have hlt := k.toInt_lt
  refine UInt64.toNat_ofNat_of_lt' ?_
  show k.toInt.natAbs < 18446744073709551616
  omega

theorem toNat_magnitude_add_one (k : Int64) : (magnitude k + 1).toNat = k.toInt.natAbs + 1 := by
  have hle := k.le_toInt
  have hlt := k.toInt_lt
  rw [UInt64.toNat_add, toNat_magnitude]
  refine Nat.mod_eq_of_lt ?_
  show k.toInt.natAbs + 1 < 18446744073709551616
  omega

/-- The integers that are words. -/
def FitsWord (k : Int) : Prop := Int64.minValue.toInt ≤ k ∧ k ≤ Int64.maxValue.toInt

theorem fitsWord_toInt (k : Int64) : FitsWord k.toInt := ⟨k.minValue_le_toInt, k.toInt_le⟩

theorem fitsWord_iff {k : Int} : FitsWord k ↔ -9223372036854775808 ≤ k ∧ k ≤ 9223372036854775807 := Iff.rfl

theorem difference?_eq_none_iff {a b : Int64} : difference? a b = none ↔ ¬ FitsWord (a.toInt - b.toInt) := by
  have hflag : a.toBitVec.ssubOverflow b.toBitVec = true ↔ ¬ FitsWord (a.toInt - b.toInt) := by
    have hoverflow : a.toBitVec.ssubOverflow b.toBitVec = true ↔
        9223372036854775808 ≤ a.toInt - b.toInt ∨ a.toInt - b.toInt < -9223372036854775808 := by
      simp [BitVec.ssubOverflow]
    rw [hoverflow, fitsWord_iff]
    omega
  rw [← hflag, difference?]
  cases a.toBitVec.ssubOverflow b.toBitVec <;> simp

theorem difference?_eq_some_iff {a b k : Int64} : difference? a b = some k ↔ k.toInt = a.toInt - b.toInt := by
  cases hflag : a.toBitVec.ssubOverflow b.toBitVec with
  | true =>
    have hnone : difference? a b = none := by rw [difference?, hflag, if_pos rfl]
    rw [hnone]
    constructor
    · intro hsome
      cases hsome
    · intro hk
      exact absurd (hk ▸ fitsWord_toInt k) (difference?_eq_none_iff.1 hnone)
  | false =>
    have hexact : (a - b).toInt = a.toInt - b.toInt := BitVec.toInt_sub_of_not_ssubOverflow (by simp [hflag])
    rw [difference?, hflag, ← hexact, Int64.toInt_inj]
    simp [eq_comm]

theorem fromEnd?_reverse (cells : List Symbol) {n : UInt64} {i : Nat} (h : n.toNat = i + 1) :
    fromEnd? cells.reverse n = cells[i]? := by
  rw [fromEnd?, List.length_reverse, h]
  split
  · rw [List.getElem?_reverse (by omega)]
    congr 1
    omega
  · exact (List.getElem?_eq_none (by omega)).symm

namespace Tape

theorem readAt_eq_readOffset (t : Tape) (k : Int64) : t.readAt k = t.readOffset k.toInt := by
  unfold readAt
  match hk : k.toInt with
  | .ofNat n =>
    have hsign : 0 ≤ k := Int64.le_iff_toInt_le.mpr (hk ▸ Int.natCast_nonneg n)
    have hn : (magnitude k + 1).toNat = n + 1 := by rw [toNat_magnitude_add_one, hk]; rfl
    rw [if_pos hsign, fromEnd?_reverse _ hn, ← List.getD_eq_getElem?_getD]
    rfl
  | .negSucc n =>
    have hsign : ¬ 0 ≤ k := by
      rw [Int64.le_iff_toInt_le, hk, Int64.toInt_zero]
      exact Int.not_le.mpr (Int.negSucc_lt_zero n)
    have hn : (magnitude k).toNat = n + 1 := by rw [toNat_magnitude, hk]; rfl
    rw [if_neg hsign, fromEnd?_reverse _ hn, ← List.getD_eq_getElem?_getD]
    rfl

theorem readOffset_eq_blank {t : Tape} {k : Int} (h : k < -t.before.length ∨ (t.after.length : Int) < k) :
    t.readOffset k = t.blank := by
  match k with
  | .ofNat n =>
    refine List.getD_eq_default _ _ ?_
    rw [Int.ofNat_eq_natCast] at h
    rw [List.length_cons]
    omega
  | .negSucc n => exact List.getD_eq_default _ _ (by omega)

theorem blank_apply (t : Tape) (e : TapeEdit) : (e.apply t).blank = t.blank := by
  have hleft : t.left.blank = t.blank := by unfold left; split <;> rfl
  have hright : t.right.blank = t.blank := by unfold right; split <;> rfl
  cases e with
  | write c => rfl
  | left => exact hleft
  | right => exact hright
  | stay => rfl
  | move d =>
    cases d with
    | left => exact hleft
    | right => exact hright
    | stay => rfl

theorem blank_applyAll (t : Tape) (es : List TapeEdit) : (t.applyAll es).blank = t.blank := by
  induction es generalizing t with
  | nil => rfl
  | cons e es ih => exact (ih (e.apply t)).trans (blank_apply t e)

/-! ## The visited cells -/

/-- The visited cells can lie in memory: there are no more of them than the greatest word counts, which is also
the greatest size of a vector. -/
def Stored (t : Tape) : Prop := (t.contents.length : Int) ≤ Int64.maxValue.toInt

section
variable {t : Tape} {r : Ribbon} {lo hi : Int}

theorem Covers.length_contents (h : t.Covers r lo hi) : (t.contents.length : Int) = hi - lo + 1 := by
  have hbefore := h.before
  have hafter := h.after
  rw [contents, List.length_append, List.length_reverse, List.length_cons]
  omega

theorem Covers.head_mem (h : t.Covers r lo hi) : lo ≤ r.head ∧ r.head ≤ hi := by
  have hbefore := h.before
  have hafter := h.after
  omega

/-- Any two visited places are as far from each other as a word can tell. -/
theorem Covers.fitsWord_sub (h : t.Covers r lo hi) (hstored : t.Stored) {p q : Int} (hp : lo ≤ p ∧ p ≤ hi)
    (hq : lo ≤ q ∧ q ≤ hi) : FitsWord (p - q) := by
  have hlength : hi - lo + 1 ≤ Int64.maxValue.toInt := h.length_contents ▸ hstored
  have hmax : Int64.maxValue.toInt = 9223372036854775807 := rfl
  rw [fitsWord_iff]
  omega

theorem Covers.toInt_ofInt (h : t.Covers r lo hi) (hstored : t.Stored) (hlo : lo ≤ 0) (hhi : 0 ≤ hi) {p : Int}
    (hp : lo ≤ p ∧ p ≤ hi) : (Int64.ofInt p).toInt = p := by
  obtain ⟨hmin, hmax⟩ := h.fitsWord_sub hstored hp ⟨hlo, hhi⟩
  rw [Int.sub_zero] at hmin hmax
  exact Int64.toInt_ofInt_of_le hmin (Int.lt_add_one_of_le hmax)

theorem Covers.toInt_position (h : t.Covers r lo hi) (hstored : t.Stored) (hlo : lo ≤ 0) (hhi : 0 ≤ hi) :
    (Int64.ofInt t.position).toInt = r.head := by
  rw [h.position, h.toInt_ofInt hstored hlo hhi h.head_mem]

theorem Covers.cell_eq_blank (h : t.Covers r lo hi) {i : Int} (hout : i < lo ∨ hi < i) :
    r.cell i = t.blank := by
  have hbefore := h.before
  have hafter := h.after
  rw [← h.cell i, Tape.cell, h.position]
  exact readOffset_eq_blank (by omega)

theorem Covers.readAt (h : t.Covers r lo hi) (k : Int64) : t.readAt k = r.cell (r.head + k.toInt) := by
  rw [readAt_eq_readOffset, readOffset_eq_cell, h.cell, h.position]

theorem Covers.cellAt?_eq_none_iff (h : t.Covers r lo hi) (hstored : t.Stored) (hlo : lo ≤ 0) (hhi : 0 ≤ hi)
    {i : Int64} : t.cellAt? i = none ↔ ¬ FitsWord (i.toInt - r.head) := by
  rw [Tape.cellAt?, Option.map_eq_none_iff, difference?_eq_none_iff, h.toInt_position hstored hlo hhi]

theorem Covers.cellAt?_of_fitsWord (h : t.Covers r lo hi) (hstored : t.Stored) (hlo : lo ≤ 0) (hhi : 0 ≤ hi)
    {i : Int64} (hi' : FitsWord (i.toInt - r.head)) : t.cellAt? i = some (r.cell i.toInt) := by
  have hposition := h.toInt_position hstored hlo hhi
  obtain ⟨k, hk⟩ := Option.ne_none_iff_exists'.1
    (mt difference?_eq_none_iff.1 (not_not_intro (hposition.symm ▸ hi')))
  have hdistance : k.toInt = i.toInt - r.head := by rw [difference?_eq_some_iff.1 hk, hposition]
  rw [Tape.cellAt?, hk, Option.map_some, h.readAt, hdistance, show r.head + (i.toInt - r.head) = i.toInt by omega]

end

/-! ## Every word -/

/-- The places of a tape that were visited are those from `lo` to `hi`, each of which is a word.  For a word
that is counted from the head the cell is the one of the ribbon at the exact sum, and nothing that is
computed for it overflows.  For a word that is counted from the start, the distance from the head is
computed first: the cell is found exactly if this is a word, and is then the one of the ribbon at this place.
All visited places are found in this way. -/
structure Addressed (t : Tape) (r : Ribbon) (blank : Symbol) (lo hi : Int) : Prop where
  place : ∀ p, lo ≤ p → p ≤ hi → (Int64.ofInt p).toInt = p
  position : (Int64.ofInt t.position).toInt = r.head
  distance : ∀ k : Int64, (magnitude k + 1).toNat = k.toInt.natAbs + 1
  readAt : ∀ k : Int64, t.readAt k = r.cell (r.head + k.toInt)
  readAt_outside : ∀ k : Int64, r.head + k.toInt < lo ∨ hi < r.head + k.toInt → t.readAt k = blank
  overflow : ∀ i : Int64, t.cellAt? i = none ↔ ¬ FitsWord (i.toInt - r.head)
  cellAt? : ∀ i : Int64, FitsWord (i.toInt - r.head) → t.cellAt? i = some (r.cell i.toInt)
  cellAt?_inside : ∀ i : Int64, lo ≤ i.toInt → i.toInt ≤ hi → t.cellAt? i = some (r.cell i.toInt)
  cellAt?_outside : ∀ i : Int64, i.toInt < lo ∨ hi < i.toInt → ∀ c ∈ t.cellAt? i, c = blank

/-- Whatever was done to a new tape, each cell can be asked for by its distance from the head, and by its
place, which is answered unless the head is too far from it. -/
theorem addressed_applyAll (blank : Symbol) (input : List Symbol) (es : List TapeEdit)
    (hstored : ((new blank input).applyAll es).Stored) :
    ∃ lo hi, IsLeast (Ribbon.extent blank input es) lo ∧ IsGreatest (Ribbon.extent blank input es) hi ∧
      ((new blank input).applyAll es).Addressed ((Ribbon.new blank input).applyAll es) blank lo hi := by
  obtain ⟨lo, hi, hleast, hgreatest, h⟩ := exists_covers_applyAll blank input es
  have hstart : (0 : Int) ∈ Ribbon.extent blank input es := .inl (.inl rfl)
  have hlo : lo ≤ 0 := hleast.2 hstart
  have hhi : 0 ≤ hi := hgreatest.2 hstart
  have hblank : ((new blank input).applyAll es).blank = blank :=
    (blank_applyAll _ es).trans (by cases input <;> rfl)
  refine ⟨lo, hi, hleast, hgreatest, {
    place p hfirst hlast := h.toInt_ofInt hstored hlo hhi ⟨hfirst, hlast⟩
    position := h.toInt_position hstored hlo hhi
    distance := toNat_magnitude_add_one
    readAt := h.readAt
    readAt_outside k hout := by rw [h.readAt, h.cell_eq_blank hout, hblank]
    overflow i := h.cellAt?_eq_none_iff hstored hlo hhi
    cellAt? i := h.cellAt?_of_fitsWord hstored hlo hhi
    cellAt?_inside i hfirst hlast :=
      h.cellAt?_of_fitsWord hstored hlo hhi (h.fitsWord_sub hstored ⟨hfirst, hlast⟩ h.head_mem)
    cellAt?_outside i hout c hc := ?_ }⟩
  have hword : FitsWord (i.toInt - ((Ribbon.new blank input).applyAll es).head) := by
    by_contra hfar
    rw [(h.cellAt?_eq_none_iff hstored hlo hhi).2 hfar] at hc
    cases hc
  rw [h.cellAt?_of_fitsWord hstored hlo hhi hword, h.cell_eq_blank hout, hblank] at hc
  exact (Option.some.inj hc).symm

/-- One place to the right of the start: of the two least words the second one is answered, and both can be
asked for by the distance from the head. -/
theorem addressed_applyAll_minValue :
    ((new '_' ['a', 'b']).applyAll [.right]).Stored ∧
      ((new '_' ['a', 'b']).applyAll [.right]).cellAt? .minValue = none ∧
      ((new '_' ['a', 'b']).applyAll [.right]).cellAt? (.minValue + 1) = some '_' ∧
      ((new '_' ['a', 'b']).applyAll [.right]).cellAt? 0 = some 'a' ∧
      ((new '_' ['a', 'b']).applyAll [.right]).readAt .minValue = '_' ∧
      ((new '_' ['a', 'b']).applyAll [.right]).readAt (-1) = 'a' := by
  have hstored : ((new '_' ['a', 'b']).applyAll [.right]).Stored := by
    unfold Stored
    decide
  obtain ⟨lo, hi, -, -, h⟩ := addressed_applyAll '_' ['a', 'b'] [.right] hstored
  have hhead : ((Ribbon.new '_' ['a', 'b']).applyAll [.right]).head = 1 := rfl
  refine ⟨hstored, (h.overflow _).2 ?_, (h.cellAt? _ ?_).trans rfl, (h.cellAt? _ ?_).trans rfl,
    (h.readAt _).trans rfl, (h.readAt _).trans rfl⟩
  all_goals
    rw [hhead, fitsWord_iff]
    decide

/-- The least word is a place like any other one, which is blank, but the tape has no answer. -/
theorem not_answered_minValue :
    ((new '_' ['a', 'b']).applyAll [.right]).Stored ∧
      ((Ribbon.new '_' ['a', 'b']).applyAll [.right]).cell Int64.minValue.toInt = '_' ∧
      ((new '_' ['a', 'b']).applyAll [.right]).cellAt? .minValue = none := by
  unfold Stored
  decide

end Tape
end TapeMachine
