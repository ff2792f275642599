import Mathlib
import TapeMachine.Document.Scalar
import TapeMachine.Proofs.Document.Names
import TapeMachine.Yaml.Reading

/-!
# Plain scalars

What becomes of the text of a plain scalar.  The value of an integer is written in decimal digits, so its
text is the one that was typed only if this was typed in the same way, and an integer that is too long for a
value may be taken for a floating-point number.
-/

namespace TapeMachine.Yaml

open TapeMachine.Number (Binary64)

/-! ## Decimal digits -/

/-- The value of the digits so far with one more digit. -/
def appendDigit? (base n : Nat) (c : Char) : Option Nat :=
  (hexDigit? c).bind fun d => if d < base then some (base * n + d) else none

theorem natOfDigits?_of_ne_nil {base : Nat} {cs : List Char} (h : cs ≠ []) :
    natOfDigits? base cs = cs.foldlM (appendDigit? base) 0 := by
  rw [natOfDigits?, if_neg (by simpa using h)]
  rfl

theorem isDigit_iff {c : Char} : c.isDigit = true ↔ 48 ≤ c.toNat ∧ c.toNat ≤ 57 := by
  rw [Char.isDigit, Bool.and_eq_true, decide_eq_true_iff, decide_eq_true_iff]
  rfl

theorem appendDigit?_eq_some_iff {n m : Nat} {c : Char} :
    appendDigit? 10 n c = some m ↔ c.isDigit = true ∧ m = 10 * n + (c.toNat - 48) := by
  rw [isDigit_iff]
  unfold appendDigit? hexDigit?
  simp only [Bool.and_eq_true, decide_eq_true_iff]
  split
  · rename_i hc
    have hlt : c.toNat - 48 < 10 := by omega
    simp [hlt, hc, eq_comm]
  · rename_i hc
    have hwide : ∀ d : Nat,
        (some (d + 10)).bind (fun d => if d < 10 then some (10 * n + d) else none) = none := by
      intro d
      simp
    simp only [hc, false_and, iff_false]
    split
    · rw [hwide]
      exact Option.some_ne_none m |>.symm
    · split
      · rw [hwide]
        exact Option.some_ne_none m |>.symm
      · exact Option.some_ne_none m |>.symm

theorem digitChar_of_isDigit {c : Char} (h : c.isDigit = true) : Nat.digitChar (c.toNat - 48) = c := by
  rw [isDigit_iff] at h
  apply Char.toNat_inj.1
  rw [Nat.toNat_digitChar_of_lt_ten (by omega)]
  omega

theorem foldlM_cons_eq_some_iff {c : Char} {cs : List Char} {n m : Nat} :
    (c :: cs).foldlM (appendDigit? 10) n = some m ↔
      c.isDigit = true ∧ cs.foldlM (appendDigit? 10) (10 * n + (c.toNat - 48)) = some m := by
  rw [List.foldlM_cons, Option.bind_eq_bind, Option.bind_eq_some_iff]
  constructor
  · rintro ⟨k, hk, hm⟩
    obtain ⟨hc, rfl⟩ := appendDigit?_eq_some_iff.1 hk
    exact ⟨hc, hm⟩
  · rintro ⟨hc, hm⟩
    exact ⟨_, appendDigit?_eq_some_iff.2 ⟨hc, rfl⟩, hm⟩

/-- The digits read so far are the decimal of their value, if that is not zero. -/
theorem toDigits_append_of_foldlM {cs : List Char} {n m : Nat} (hn : 0 < n)
    (h : cs.foldlM (appendDigit? 10) n = some m) : Nat.toDigits 10 n ++ cs = Nat.toDigits 10 m := by
  induction cs generalizing n with
  | nil =>
    cases h
    exact List.append_nil _
  | cons c cs ih =>
    obtain ⟨hc, hm⟩ := foldlM_cons_eq_some_iff.1 h
    have hdigit := isDigit_iff.1 hc
    have hlt : c.toNat - 48 < 10 := by omega
    have hstep : Nat.toDigits 10 n ++ [c] = Nat.toDigits 10 (10 * n + (c.toNat - 48)) := by
      rw [← Nat.toDigits_append_toDigits (by decide) hn hlt, Nat.toDigits_of_lt_base hlt,
        digitChar_of_isDigit hc]
    rw [← ih (by omega) hm, ← hstep, List.append_assoc, List.singleton_append]

theorem natOfDigits?_eq_some {cs : List Char} (hne : cs ≠ []) (h : ∀ c ∈ cs, c.isDigit = true) :
    natOfDigits? 10 cs = some (Nat.ofDigitChars 10 cs 0) := by
  have hfold : ∀ n, cs.foldlM (appendDigit? 10) n = some (Nat.ofDigitChars 10 cs n) := by
    clear hne
    induction cs with
    | nil => exact fun n => rfl
    | cons c cs ih =>
      intro n
      obtain ⟨hc, hcs⟩ := List.forall_mem_cons.1 h
      exact foldlM_cons_eq_some_iff.2 ⟨hc, ih hcs _⟩
  rw [natOfDigits?_of_ne_nil hne, hfold]

theorem natOfDigits?_toDigits (n : Nat) : natOfDigits? 10 (Nat.toDigits 10 n) = some n := by
  rw [natOfDigits?_eq_some Nat.toDigits_ne_nil, Nat.ofDigitChars_ten_toDigits]
  exact fun c hc => Nat.isDigit_of_mem_toDigits (by decide) (by decide) hc

theorem isDigit_of_foldlM {cs : List Char} {n m : Nat} (h : cs.foldlM (appendDigit? 10) n = some m) :
    ∀ c ∈ cs, c.isDigit = true := by
  induction cs generalizing n with
  | nil => exact nofun
  | cons c cs ih =>
    obtain ⟨hc, hm⟩ := foldlM_cons_eq_some_iff.1 h
    exact List.forall_mem_cons.2 ⟨hc, ih hm⟩

theorem ne_nil_of_natOfDigits? {base : Nat} {cs : List Char} {n : Nat} (h : natOfDigits? base cs = some n) :
    cs ≠ [] := by
  rintro rfl
  cases h

theorem toDigits_of_natOfDigits? {cs : List Char} {n : Nat} (h : natOfDigits? 10 cs = some n)
    (hzero : cs = ['0'] ∨ cs.head? ≠ some '0') : Nat.toDigits 10 n = cs := by
  have hne := ne_nil_of_natOfDigits? h
  rw [natOfDigits?_of_ne_nil hne] at h
  rcases hzero with rfl | hhead
  · cases h
    rfl
  · obtain ⟨c, cs, rfl⟩ := List.exists_cons_of_ne_nil hne
    obtain ⟨hc, hn⟩ := foldlM_cons_eq_some_iff.1 h
    have hdigit := isDigit_iff.1 hc
    have hlt : c.toNat - 48 < 10 := by omega
    have hpos : 0 < 10 * 0 + (c.toNat - 48) := by
      have hne0 : c.toNat ≠ 48 := by
        intro h48
        have hc0 : c = '0' := Char.toNat_inj.1 h48
        exact hhead (congrArg some hc0)
      omega
    rw [← toDigits_append_of_foldlM hpos hn, Nat.mul_zero, Nat.zero_add, Nat.toDigits_of_lt_base hlt,
      digitChar_of_isDigit hc]
    rfl

/-! ## Integers -/

theorem basedNat?_eq_none {cs : List Char} (h : ∀ c ∈ ['x', 'o', 'b'], c ∉ cs) : basedNat? cs = none := by
  unfold basedNat?
  split
  · exact absurd (by simp) (h 'x' (by simp))
  · exact absurd (by simp) (h 'o' (by simp))
  · exact absurd (by simp) (h 'b' (by simp))
  · rfl

theorem magnitude?_eq_some {padded : Bool} {cs : List Char} {n : Nat}
    (hmark : ∀ c ∈ ['x', 'o', 'b'], c ∉ cs) (h : magnitude? padded cs = some n) :
    padded = false ∧ natOfDigits? 10 cs = some n := by
  rw [magnitude?, basedNat?_eq_none hmark, Option.none_or] at h
  cases padded with
  | true => cases h
  | false => exact ⟨rfl, h⟩

theorem eq_zero_or_head?_ne {cs : List Char} {n : Nat} (h : natOfDigits? 10 cs = some n)
    (hpadded : isPadded ('-' :: cs) = false) : cs = ['0'] ∨ cs.head? ≠ some '0' := by
  have hne := ne_nil_of_natOfDigits? h
  rw [natOfDigits?_of_ne_nil hne] at h
  obtain ⟨c, cs, rfl⟩ := List.exists_cons_of_ne_nil hne
  by_cases hc : c = '0'
  · subst hc
    cases cs with
    | nil => exact .inl rfl
    | cons d ds =>
      have hdigits := (List.forall_mem_cons.1 (isDigit_of_foldlM h)).2
      have hall : (d :: ds).all Char.isDigit = true := List.all_eq_true.2 hdigits
      exact absurd hall (Bool.eq_false_iff.1 hpadded)
  · exact .inr fun hhead => hc (Option.some.inj hhead)

theorem isPadded_cons_sign {cs : List Char} (hminus : ∀ ds, cs ≠ '-' :: ds) (hplus : ∀ ds, cs ≠ '+' :: ds) :
    isPadded cs = isPadded ('-' :: cs) := by
  unfold isPadded
  split
  · exact absurd rfl (hminus _)
  · exact absurd rfl (hplus _)
  · rfl

/-- An integer is written as it was typed if it has no plus sign, is in no other base, and is not minus
zero. -/
theorem toString_eq_iff {s : String} {i : Int} (h : intOfText? s.toList = some i) :
    toString i = s ↔ ¬ (s = "-0" ∨ ∃ c ∈ s.toList, c ∈ ['+', 'x', 'o', 'b']) := by
  constructor
  · rintro hi (rfl | ⟨c, hc, hmark⟩)
    · have hzero : i = 0 := Option.some.inj (h.symm.trans (by decide))
      rw [hzero] at hi
      exact absurd hi (by decide)
    · rw [← hi] at hc
      have hdigit := isDigit_or_sign_of_mem_toString hc
      simp only [List.mem_cons, List.not_mem_nil, or_false] at hmark
      rcases hmark with rfl | rfl | rfl | rfl <;> revert hdigit <;> decide
  · intro hplain
    obtain ⟨hzero, hmarks⟩ := not_or.1 hplain
    have hmark : ∀ c ∈ ['+', 'x', 'o', 'b'], c ∉ s.toList := fun c hc hmem => hmarks ⟨c, hmem, hc⟩
    have hdecimal : ∀ {padded : Bool} {ds : List Char} {n : Nat}, (∀ c ∈ ds, c ∈ s.toList) →
        magnitude? padded ds = some n → padded = false ∧ natOfDigits? 10 ds = some n := by
      intro padded ds n hds hn
      refine magnitude?_eq_some (fun c hc hmem => ?_) hn
      exact hmark c (List.mem_cons_of_mem _ hc) (hds c hmem)
    unfold intOfText? at h
    split at h
    · rename_i ds hs
      exact absurd (hs ▸ List.mem_cons_self) (hmark '+' (by simp))
    · rename_i ds hs
      obtain ⟨_, hk, rfl⟩ := Option.map_eq_some_iff.1 h
      obtain ⟨n, hn, hk⟩ := Option.bind_eq_some_iff.1 hk
      cases hk
      obtain ⟨hpadded, hn⟩ := hdecimal (fun c hc => hs ▸ List.mem_cons_of_mem _ hc) hn
      rw [hs] at hpadded
      have hne : ds ≠ ['0'] := by
        rintro rfl
        exact hzero (String.toList_inj.1 hs)
      have hdigits := toDigits_of_natOfDigits? hn (.inr ((eq_zero_or_head?_ne hn hpadded).resolve_left hne))
      cases n with
      | zero => exact absurd hdigits.symm hne
      | succ n =>
        have hneg : toString (-((n + 1 : Nat) : Int)) = "-" ++ (n + 1).repr := rfl
        rw [← String.toList_inj, hneg, Nat.repr, hdigits, String.toList_append, String.toList_ofList,
          String.toList_ofList, hs]
        rfl
    · rename_i hplus hminus
      obtain ⟨n, hn, rfl⟩ := Option.map_eq_some_iff.1 h
      obtain ⟨hpadded, hn⟩ := hdecimal (fun c hc => hc) hn
      rw [isPadded_cons_sign hminus hplus] at hpadded
      have hdigits := toDigits_of_natOfDigits? hn (eq_zero_or_head?_ne hn hpadded)
      have hnat : toString (Int.ofNat n) = n.repr := rfl
      rw [← String.toList_inj, hnat, Nat.repr, String.toList_ofList, hdigits]

/-! ## Scalars -/

/-- A scalar whose value is not written as it was typed: a truth value with capital letters, or an integer
with a plus sign or in another base, or minus zero. -/
def Respelled (s : String) : Prop :=
  s ∈ ["True", "TRUE", "False", "FALSE"] ∨
    (∃ i, intOfText? s.toList = some i ∧ isNarrow i = true) ∧
      (s = "-0" ∨ ∃ c ∈ s.toList, c ∈ ['+', 'x', 'o', 'b'])

theorem boolOfText?_eq_some {s : String} {b : Bool} (h : boolOfText? s = some b) :
    (b = true ∧ s ∈ ["true", "True", "TRUE"]) ∨ (b = false ∧ s ∈ ["false", "False", "FALSE"]) := by
  unfold boolOfText? at h
  split at h
  · rename_i hs
    refine .inl ⟨(Option.some.inj h).symm, ?_⟩
    simpa [or_assoc] using hs
  · split at h
    · rename_i hs
      refine .inr ⟨(Option.some.inj h).symm, ?_⟩
      simpa [or_assoc] using hs
    · cases h

theorem resolveInteger?_eq_some_value_iff {s : String} {v : Value} :
    resolveInteger? s = some (.value v) ↔
      ∃ i, intOfText? s.toList = some i ∧ isNarrow i = true ∧ v = .number (.integer i) := by
  unfold resolveInteger?
  rw [Option.bind_eq_some_iff]
  refine exists_congr fun i => and_congr_right fun _ => ?_
  by_cases hi : isNarrow i = true
  · simp [hi, eq_comm]
  · simp only [hi]
    by_cases hw : isWide i = true <;> simp [hw]

theorem toValue_eq_ok_iff {r : Resolved} {v : Value} : r.toValue = .ok v ↔ r = .value v := by
  cases r with
  | value u => simp [Resolved.toValue]
  | tooWide i => simp [Resolved.toValue]

theorem not_respelled_of_intOfText? {s : String} (hs : s ∉ ["True", "TRUE", "False", "FALSE"])
    (h : ∀ i, intOfText? s.toList = some i → isNarrow i = false) : ¬ Respelled s := by
  rintro (hmem | ⟨⟨i, hi, hnarrow⟩, -⟩)
  · exact hs hmem
  · rw [h i hi] at hnarrow
    cases hnarrow

theorem boolText_eq_iff {s : String} {b : Bool} (h : boolOfText? s = some b) :
    (if b then "true" else "false") = s ↔ ¬ Respelled s := by
  rcases boolOfText?_eq_some h with ⟨rfl, hs⟩ | ⟨rfl, hs⟩
  · simp only [List.mem_cons, List.not_mem_nil, or_false] at hs
    rcases hs with rfl | rfl | rfl
    · refine iff_of_true rfl (not_respelled_of_intOfText? (by decide) fun i hi => ?_)
      cases hi
    · exact iff_of_false (by decide) (not_not.2 (.inl (by decide)))
    · exact iff_of_false (by decide) (not_not.2 (.inl (by decide)))
  · simp only [List.mem_cons, List.not_mem_nil, or_false] at hs
    rcases hs with rfl | rfl | rfl
    · refine iff_of_true rfl (not_respelled_of_intOfText? (by decide) fun i hi => ?_)
      cases hi
    · exact iff_of_false (by decide) (not_not.2 (.inl (by decide)))
    · exact iff_of_false (by decide) (not_not.2 (.inl (by decide)))

theorem not_mem_of_boolOfText? {s : String} (h : boolOfText? s = none) :
    s ∉ ["True", "TRUE", "False", "FALSE"] := by
  intro hs
  simp only [List.mem_cons, List.not_mem_nil, or_false] at hs
  rcases hs with rfl | rfl | rfl | rfl <;> cases h

/-- What a plain scalar can be read as. -/
inductive Resolves (s : String) : Value → Prop
  | null : Resolves s .null
  | bool {b : Bool} : boolOfText? s = some b → Resolves s (.bool b)
  | integer {i : Int} : boolOfText? s = none → intOfText? s.toList = some i → isNarrow i = true →
      Resolves s (.number (.integer i))
  | float (x : Binary64) : Resolves s (.number (.float x))
  | string : boolOfText? s = none → resolveInteger? s = none → Resolves s (.string s)

theorem resolves_of_readUntagged {s : String} {v : Value} (h : readUntagged .plain s = .ok v) :
    Resolves s v := by
  have hv : resolvePlain s = .value v := toValue_eq_ok_iff.1 h
  unfold resolvePlain at hv
  split at hv
  · cases hv
    exact .null
  split at hv
  · rename_i b hb
    cases hv
    exact .bool hb
  rename_i hb
  split at hv
  · rename_i x hx
    obtain ⟨i, hi, hnarrow, rfl⟩ := resolveInteger?_eq_some_value_iff.1 (hv ▸ hx)
    exact .integer hb hi hnarrow
  rename_i hx
  split at hv
  · cases hv
    exact .float _
  · cases hv
    exact .string hb hx

theorem text?_of_readUntagged {s r : String} {v : Value} (h : readUntagged .plain s = .ok v)
    (hr : v.text? = some r) : r = s ↔ ¬ Respelled s := by
  cases resolves_of_readUntagged h with
  | null => cases hr
  | float x => cases hr
  | bool hb =>
    rw [← Option.some.inj hr]
    exact boolText_eq_iff hb
  | integer hb hi hnarrow =>
    rw [← Option.some.inj hr, toString_eq_iff hi]
    refine not_congr ⟨fun hmarked => .inr ⟨⟨_, hi, hnarrow⟩, hmarked⟩, fun hrespelled => ?_⟩
    exact (hrespelled.resolve_left (not_mem_of_boolOfText? hb)).2
  | string hb hx =>
    cases hr
    refine iff_of_true rfl (not_respelled_of_intOfText? (not_mem_of_boolOfText? hb) fun i hi => ?_)
    by_contra hnarrow
    rw [Bool.not_eq_false] at hnarrow
    have hsome := resolveInteger?_eq_some_value_iff.2 ⟨i, hi, hnarrow, rfl⟩
    rw [hx] at hsome
    cases hsome

theorem untagged_ne_sequence {s : String} {v : Value} (h : readUntagged .plain s = .ok v)
    (items : List Value) : v.untagged ≠ .sequence items := by
  cases resolves_of_readUntagged h <;> exact Value.noConfusion

/-! ## Long integers -/

theorem toList_toString (n : Nat) : (toString n).toList = Nat.toDigits 10 n := by
  rw [Nat.toString_eq_ofList_toDigits, String.toList_ofList]

theorem isDigit_of_mem_toDigits {n : Nat} {c : Char} (h : c ∈ Nat.toDigits 10 n) : c.isDigit = true :=
  Nat.isDigit_of_mem_toDigits (by decide) (by decide) h

theorem head?_toDigits_ne {n : Nat} (h : 0 < n) : (Nat.toDigits 10 n).head? ≠ some '0' := by
  induction n using Nat.strongRecOn with
  | _ n ih =>
    by_cases hn : n < 10
    · rw [Nat.toDigits_of_lt_base hn, List.head?_cons, ne_eq, Option.some.injEq]
      intro hzero
      have hvalue := Nat.toNat_digitChar_of_lt_ten hn
      rw [hzero, show '0'.toNat = 48 from rfl] at hvalue
      omega
    · rw [Nat.toDigits_of_base_le (by decide) (by omega)]
      obtain ⟨c, cs, hcs⟩ := List.exists_cons_of_ne_nil (Nat.toDigits_ne_nil (n := n / 10) (b := 10))
      have hhead := ih (n / 10) (by omega) (by omega)
      rw [hcs] at hhead ⊢
      exact hhead

section Digits
variable {cs : List Char} (hcs : ∀ c ∈ cs, c.isDigit = true)

include hcs

theorem not_sign_of_digits (ds : List Char) : cs ≠ '-' :: ds ∧ cs ≠ '+' :: ds := by
  constructor
  · rintro rfl
    exact absurd (hcs '-' List.mem_cons_self) (by decide)
  · rintro rfl
    exact absurd (hcs '+' List.mem_cons_self) (by decide)

theorem isPadded_of_digits (hhead : cs.head? ≠ some '0') : isPadded cs = false := by
  have hsign := not_sign_of_digits hcs
  rw [isPadded_cons_sign (fun ds => (hsign ds).1) fun ds => (hsign ds).2]
  unfold isPadded
  dsimp only
  split
  · rename_i d ds hds
    have hzero : cs = '0' :: d :: ds := hds
    rw [hzero] at hhead
    exact absurd List.head?_cons hhead
  · rfl

theorem intOfText?_of_digits {n : Nat} (hhead : cs.head? ≠ some '0') (hn : natOfDigits? 10 cs = some n) :
    intOfText? cs = some (n : Int) := by
  have hsign := not_sign_of_digits hcs
  have hmark : ∀ c ∈ ['x', 'o', 'b'], c ∉ cs := by
    intro c hc hmem
    have hdigit := hcs c hmem
    simp only [List.mem_cons, List.not_mem_nil, or_false] at hc
    rcases hc with rfl | rfl | rfl <;> revert hdigit <;> decide
  unfold intOfText?
  split
  · exact absurd rfl (hsign _).2
  · exact absurd rfl (hsign _).1
  · rw [magnitude?, basedNat?_eq_none hmark, isPadded_of_digits hcs hhead, hn]
    rfl

theorem decimalText?_of_digits (hne : cs ≠ []) : decimalText? cs = some ⟨cs, [], none⟩ := by
  have htake : cs.takeWhile Char.isDigit = cs := List.takeWhile_eq_self_iff.2 hcs
  have hdrop : cs.dropWhile Char.isDigit = [] := List.dropWhile_eq_nil_iff.2 hcs
  rw [decimalText?, htake, hdrop]
  dsimp only
  rw [if_neg (by simpa using hne)]
  rfl

theorem not_special_of_digits : isInfinityText cs = false ∧ isNanText cs = false := by
  have hpoint : ∀ ds, cs ≠ '.' :: ds := by
    rintro ds rfl
    exact absurd (hcs '.' List.mem_cons_self) (by decide)
  simp only [isInfinityText, isNanText, Bool.or_eq_false_iff, beq_eq_false_iff_ne]
  exact ⟨⟨⟨hpoint _, hpoint _⟩, hpoint _⟩, ⟨hpoint _, hpoint _⟩, hpoint _⟩

theorem floatOfText?_of_digits {n : Nat} (hn : natOfDigits? 10 cs = some n) :
    floatOfText? cs = if (Binary64.ofDecimal false n 0).isFinite then some (Binary64.ofDecimal false n 0)
      else none := by
  have hsign := not_sign_of_digits hcs
  obtain ⟨hinfinity, hnan⟩ := not_special_of_digits hcs
  have hdigits : DecimalText.digits ⟨cs, [], none⟩ = n := by
    rw [DecimalText.digits, List.append_nil, hn, Option.getD_some]
  unfold floatOfText?
  split
  · exact absurd rfl (hsign _).2
  · exact absurd rfl (hsign _).1
  · rw [hinfinity, hnan, if_neg Bool.false_ne_true, if_neg Bool.false_ne_true]
    unfold finiteOfText?
    split
    rename_i negative ds hds
    split at hds
    · exact absurd rfl (hsign _).1
    · cases hds
      rw [decimalText?_of_digits hcs (ne_nil_of_natOfDigits? hn)]
      dsimp only
      rw [hdigits]
      rfl

end Digits

/-- Texts that stand for null or a truth value have a letter or a tilde. -/
theorem not_word_of_digits {s : String} (hs : ∀ c ∈ s.toList, c.isDigit = true) :
    isNullText s = false ∧ boolOfText? s = none := by
  have hletter : ∀ word ∈ ["~", "null", "Null", "NULL", "true", "True", "TRUE", "false", "False", "FALSE"],
      word.toList.all Char.isDigit = false := by
    decide
  have hword : ∀ word ∈ ["~", "null", "Null", "NULL", "true", "True", "TRUE", "false", "False", "FALSE"],
      s ≠ word := by
    rintro word hmem rfl
    have hdigits := List.all_eq_true.2 hs
    rw [hletter s hmem] at hdigits
    cases hdigits
  simp only [List.forall_mem_cons] at hword
  simp [isNullText, boolOfText?, hword]

/-- An integer that is too long for a value is an error, a float or a text. -/
theorem resolvePlain_toString {n : Nat} (hn : 2 ^ 64 ≤ n) :
    resolvePlain (toString n) =
      if n < 2 ^ 128 then .tooWide n
      else if (Binary64.ofDecimal false n 0).isFinite then
        .value (.number (.float (Binary64.ofDecimal false n 0)))
      else .value (.string (toString n)) := by
  have hcs : ∀ c ∈ Nat.toDigits 10 n, c.isDigit = true := fun c hc => isDigit_of_mem_toDigits hc
  have hhead := head?_toDigits_ne (show 0 < n by omega)
  have hnat := natOfDigits?_toDigits n
  obtain ⟨hnull, hbool⟩ := not_word_of_digits (toList_toString n ▸ hcs)
  have hempty : (toString n).isEmpty = false := by
    rw [Bool.eq_false_iff, ne_eq, String.isEmpty_iff, ← String.toList_inj, toList_toString]
    exact Nat.toDigits_ne_nil
  have hnarrow : isNarrow (n : Int) = false := by
    simp [isNarrow]
    omega
  have hwide : isWide (n : Int) = decide (n < 2 ^ 128) := by
    have hbelow : -((Nat.pow 2 127 : Nat) : Int) ≤ n := by omega
    have habove : (n : Int) < ((Nat.pow 2 128 : Nat) : Int) ↔ n < 2 ^ 128 := Int.ofNat_lt
    rw [isWide, hnarrow, decide_eq_true hbelow, decide_eq_decide.2 habove]
    rfl
  have hinteger : resolveInteger? (toString n) = if n < 2 ^ 128 then some (.tooWide n) else none := by
    rw [resolveInteger?, toList_toString, intOfText?_of_digits hcs hhead hnat, Option.bind_some, hnarrow,
      hwide]
    by_cases h : n < 2 ^ 128
    · rw [decide_eq_true h, if_pos h]
      rfl
    · rw [decide_eq_false h, if_neg h]
      rfl
  rw [resolvePlain, hempty, hnull, hbool, hinteger, toList_toString, isPadded_of_digits hcs hhead,
    floatOfText?_of_digits hcs hnat]
  by_cases hshort : n < 2 ^ 128
  · rw [if_pos hshort, if_pos hshort]
    rfl
  · rw [if_neg hshort, if_neg hshort]
    by_cases hfinite : (Binary64.ofDecimal false n 0).isFinite = true
    · rw [if_pos hfinite, if_pos hfinite]
      rfl
    · rw [if_neg hfinite, if_neg hfinite]
      rfl

end TapeMachine.Yaml
