import TapeMachine.Proofs.Document.Fields
import TapeMachine.Proofs.Document.Grammar
import TapeMachine.Proofs.Yaml.Keys

/-!
# What a mapping has under a name

The reader goes through the entries of a mapping one after the other, where the grammar asks what a mapping
has under a name.  For plain keys the two agree: the names that mean something are no numbers and no truth
values, so a plain key with such a text can only be that string, and there is at most one.
-/

namespace TapeMachine

open Yaml (Value)

/-! ## Values -/

namespace Yaml.Value

variable {v : Value} {s : String}

theorem hasText_iff : v.HasText s ↔ v.text? = some s := by
  constructor
  · intro h
    induction h with
    | tagged _ ih => exact ih
    | _ => rfl
  · intro h
    fun_induction text? v with
    | case1 t => exact Option.some.inj h ▸ .string t
    | case2 i => exact Option.some.inj h ▸ .integer i
    | case3 b =>
      cases b with
      | false => exact Option.some.inj h ▸ .false
      | true => exact Option.some.inj h ▸ .true
    | case4 _ _ ih => exact .tagged (ih h)
    | case5 => cases h

theorem hasText_untagged : v.untagged.HasText s ↔ v.HasText s := by
  rw [hasText_iff, hasText_iff, text?_untagged]

theorem isSymbol_iff : v.IsSymbol ↔ ∃ c, v.symbol? = some c :=
  exists_congr fun _ => hasText_iff.trans symbol?_eq_some_iff.symm

theorem isNull_iff : v.IsNull ↔ v.present? = none := present?_eq_none_iff.symm

theorem HasText.not_isNull (h : v.HasText s) : ¬ v.IsNull := by
  rw [isNull_iff, present?_of_text? (hasText_iff.1 h)]
  exact Option.some_ne_none _

end Yaml.Value

/-! ## Names -/

/-- The names that mean something in a mapping. -/
def reserved : List String :=
  ["blank", "wild", "start state", "type", "table", "input", "synonyms", "write", "L", "R", "S", "move",
    "next"]

theorem isDigit_or_sign_of_mem_toString {i : Int} {c : Char} (h : c ∈ (toString i).toList) :
    c.isDigit = true ∨ c = '-' := by
  have hdigit : ∀ (n : Nat) (c : Char), c ∈ n.repr.toList → c.isDigit = true := by
    intro n c hc
    rw [Nat.repr, String.toList_ofList] at hc
    exact Nat.isDigit_of_mem_toDigits (by decide) (by decide) hc
  cases i with
  | ofNat n => exact .inl (hdigit n c h)
  | negSucc n =>
    have hsign : toString (Int.negSucc n) = "-" ++ (n + 1).repr := rfl
    rw [hsign, String.toList_append, List.mem_append] at h
    rcases h with h | h
    · exact .inr (by simpa using h)
    · exact .inl (hdigit _ c h)

/-- A text that is the text of no number and of no truth value. -/
def IsWord (s : String) : Prop :=
  s ≠ "true" ∧ s ≠ "false" ∧ ∃ c ∈ s.toList, ¬ (c.isDigit = true ∨ c = '-')

/-- Whether a text is a word, for evaluation. -/
def isWord (s : String) : Bool :=
  s != "true" && s != "false" && s.toList.any fun c => !c.isDigit && c != '-'

theorem isWord_iff {s : String} : isWord s = true ↔ IsWord s := by
  simp [isWord, IsWord, and_assoc]

theorem isWord_of_mem {names : List String} (hall : names.all isWord = true) {name : String} (h : name ∈ names) :
    IsWord name :=
  isWord_iff.1 (List.all_eq_true.1 hall name h)

theorem key_eq_of_isWord {key : Value} {name : String} (hplain : ∀ t w, key ≠ .tagged t w)
    (htext : key.HasText name) (hname : IsWord name) : key = .string name := by
  obtain ⟨htrue, hfalse, c, hc, hletter⟩ := hname
  cases htext with
  | string => rfl
  | integer i => exact absurd (isDigit_or_sign_of_mem_toString hc) hletter
  | true => exact absurd rfl htrue
  | false => exact absurd rfl hfalse
  | tagged => exact absurd rfl (hplain _ _)

namespace Yaml.Value

theorem untaggedEntries_iff {m : Mapping} :
    untaggedEntries m = true ↔
      ∀ e ∈ m, (∀ t w, e.1 ≠ .tagged t w) ∧ e.1.untaggedKeys = true ∧ e.2.untaggedKeys = true := by
  induction m with
  | nil => simp [untaggedEntries]
  | cons e m ih =>
    obtain ⟨key, v⟩ := e
    cases key with
    | tagged t w => simp [untaggedEntries]
    | _ => simp [untaggedEntries, ih, and_assoc]

/-- Whether the keys of every mapping are without tags and different from each other. -/
def plainKeys (v : Value) : Bool := v.untaggedKeys && v.distinctKeys

theorem plainKeys_iff {v : Value} :
    v.plainKeys = true ↔ v.untaggedKeys = true ∧ v.distinctKeys = true := by
  rw [plainKeys, Bool.and_eq_true]

theorem plainKeys_untagged {v : Value} : v.untagged.plainKeys = v.plainKeys := by
  fun_induction untagged v with
  | case1 _ v ih => rw [ih, plainKeys, plainKeys, untaggedKeys, distinctKeys]
  | case2 => rfl

theorem plainKeys_of_mem {m : Mapping} (h : (mapping m).plainKeys = true) {e : Value × Value}
    (he : e ∈ m) : e.2.plainKeys = true := by
  obtain ⟨huntagged, hdistinct⟩ := plainKeys_iff.1 h
  obtain ⟨-, hentries⟩ := distinctKeys_mapping_iff.1 hdistinct
  rw [untaggedKeys, untaggedEntries_iff] at huntagged
  exact plainKeys_iff.2 ⟨(huntagged e he).2.2, (distinctEntries_iff.1 hentries e he).2⟩

end Yaml.Value

/-- No two keys of the mapping have the name as their text. -/
def Once (m : Mapping) (name : String) : Prop :=
  m.Pairwise fun e e' => e.1.text? = some name → e'.1.text? ≠ some name

theorem once_iff_pairwise_keys {m : Mapping} {name : String} :
    Once m name ↔ (m.map Prod.fst).Pairwise fun k k' => k.text? = some name → k'.text? ≠ some name := by
  rw [List.pairwise_map]
  rfl

theorem once_of_isWord {m : Mapping} (huntagged : ∀ e ∈ m, ∀ t w, e.1 ≠ .tagged t w)
    (hdiff : m.Pairwise fun e e' => e.1.same e'.1 = false) {name : String} (hname : IsWord name) : Once m name := by
  have hkey : ∀ e ∈ m, e.1.text? = some name → e.1 = .string name := by
    intro e he htext
    exact key_eq_of_isWord (huntagged e he) (Value.hasText_iff.2 htext) hname
  refine hdiff.imp_of_mem fun he he' hsame htext htext' => ?_
  rw [hkey _ he htext, hkey _ he' htext', Value.same, beq_self_eq_true] at hsame
  cases hsame

theorem once_of_plainKeys {m : Mapping} (h : (Value.mapping m).plainKeys = true) (name : String)
    (hname : name ∈ reserved) : Once m name := by
  obtain ⟨huntagged, hdistinct⟩ := Value.plainKeys_iff.1 h
  rw [Value.untaggedKeys, Value.untaggedEntries_iff] at huntagged
  exact once_of_isWord (fun e he => (huntagged e he).1) (Value.distinctKeys_mapping_iff.1 hdistinct).1
    (isWord_of_mem (by decide) hname)

theorem filter_eq_nil_or_singleton {α : Type} {p : α → Bool} {xs : List α}
    (h : xs.Pairwise fun x y => p x = true → p y ≠ true) :
    xs.filter p = [] ∨ ∃ x, xs.filter p = [x] := by
  have hpair : (xs.filter p).Pairwise fun _ _ => False := by
    refine (h.filter p).imp_of_mem fun hx hy hxy => ?_
    exact hxy (List.mem_filter.1 hx).2 (List.mem_filter.1 hy).2
  match hl : xs.filter p with
  | [] => exact .inl rfl
  | [x] => exact .inr ⟨x, rfl⟩
  | x :: y :: l =>
    rw [hl] at hpair
    exact (List.rel_of_pairwise_cons hpair List.mem_cons_self).elim

theorem says_iff {m : Mapping} {name : String} {v : Value} :
    Says m name v ↔ ∃ e ∈ m.filter (·.1.text? == some name), e.2 = v := by
  simp only [Says, Value.hasText_iff, List.mem_filter, beq_iff_eq]
  constructor
  · rintro ⟨key, hmem, hkey⟩
    exact ⟨(key, v), ⟨hmem, hkey⟩, rfl⟩
  · rintro ⟨⟨key, v⟩, ⟨hmem, hkey⟩, rfl⟩
    exact ⟨key, hmem, hkey⟩

theorem field?_of_ne {before after : Mapping} {key v : Value} {name name' : String} (hkey : key.HasText name)
    (hne : name' ≠ name) (v' : Value) :
    Spec.field? (before ++ (key, v) :: after) name' = Spec.field? (before ++ (key, v') :: after) name' := by
  rw [Value.hasText_iff] at hkey
  have hother : ¬ (key.text? == some name') = true := by
    rw [hkey, beq_iff_eq, Option.some.injEq]
    exact Ne.symm hne
  simp only [Spec.field?, List.filter_append, List.filter_cons, if_neg hother]

theorem Once.filter {m : Mapping} {name : String} (h : Once m name) :
    m.filter (·.1.text? == some name) = [] ∨ ∃ e, m.filter (·.1.text? == some name) = [e] := by
  refine filter_eq_nil_or_singleton (h.imp fun h => ?_)
  simpa only [ne_eq, beq_iff_eq] using h

theorem Once.field?_eq_some_iff {m : Mapping} {name : String} (h : Once m name) {v : Value} :
    Spec.field? m name = some v ↔ ∃ x, Says m name x ∧ x.present? = some v := by
  simp only [Spec.field?, says_iff]
  rcases h.filter with h | ⟨e, h⟩
  · simp [h]
  · simp [h]

theorem Once.field?_eq_none_iff {m : Mapping} {name : String} (h : Once m name) :
    Spec.field? m name = none ↔ ∀ x, Says m name x → x.IsNull := by
  simp only [Spec.field?, says_iff, Value.isNull_iff]
  rcases h.filter with h | ⟨e, h⟩
  · simp [h]
  · simp [h]

theorem Once.presents {m : Mapping} {name : String} (h : Once m name) :
    presents m name = (Spec.field? m name).toList := by
  have hfilter : TapeMachine.presents m name =
      (m.filter (·.1.text? == some name)).filterMap (·.2.present?) := by
    rw [List.filterMap_filter]
    simp [TapeMachine.presents]
  rw [hfilter, Spec.field?]
  rcases h.filter with h | ⟨e, h⟩
  · simp [h]
  · cases hv : e.2.present? <;> simp [h, hv]

theorem Once.requires_iff {m : Mapping} {name : String} (h : Once m name) {P : Value → Prop}
    (hnull : ∀ v, P v → ¬ v.IsNull) (hP : ∀ v, P v.untagged ↔ P v) :
    Requires m name P ↔ ∃ v, Spec.field? m name = some v ∧ P v := by
  simp only [h.field?_eq_some_iff]
  constructor
  · rintro ⟨x, hx, hPx⟩
    refine ⟨x.untagged, ⟨x, hx, Value.present?_eq_some_iff.2 ⟨rfl, hnull x hPx⟩⟩, (hP x).2 hPx⟩
  · rintro ⟨v, ⟨x, hx, hv⟩, hPv⟩
    obtain ⟨rfl, -⟩ := Value.present?_eq_some_iff.1 hv
    exact ⟨x, hx, (hP x).1 hPv⟩

theorem Once.permits_iff {m : Mapping} {name : String} (h : Once m name) {P : Value → Prop}
    (hP : ∀ v, P v.untagged ↔ P v) :
    Permits m name P ↔ ∀ v, Spec.field? m name = some v → P v := by
  simp only [h.field?_eq_some_iff]
  constructor
  · rintro hm v ⟨x, hx, hv⟩
    rcases hm x hx with hnull | hPx
    · rw [Value.isNull_iff, hv] at hnull
      cases hnull
    · obtain ⟨rfl, -⟩ := Value.present?_eq_some_iff.1 hv
      exact (hP x).2 hPx
  · intro hm x hx
    by_cases hnull : x.IsNull
    · exact .inl hnull
    · exact .inr ((hP x).1 (hm _ ⟨x, hx, Value.present?_eq_some_iff.2 ⟨rfl, hnull⟩⟩))

end TapeMachine
