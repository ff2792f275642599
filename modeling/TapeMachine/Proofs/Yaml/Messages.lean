import TapeMachine.Proofs.Yaml.Plain
import TapeMachine.Yaml.Error

/-!
# What a message shows

The message about a text that cannot be read is made of fixed words, of numbers and places, and of texts of
the document: the keys on the way to the place, a key that comes twice, and a scalar that does not have the
form of its tag.  A phrase that ends in a backquote and has no other mark in it than a colon can be found in the
message only if it is in one of these texts; the marks between the parts of a message, and the escapes of a
quoted text, keep the parts from forming it together.
-/

namespace TapeMachine

/-! ## Parts of a list -/

namespace Text

variable {α : Type} {m xs ys : List α} {a sep : α}

theorem not_prefix_append_of_take_ne {n : Nat} (hm : n ≤ m.length) (hxs : n ≤ xs.length)
    (h : m.take n ≠ xs.take n) : ¬ m <+: xs ++ ys := by
  intro hstart
  have hcut : (xs ++ ys).take n = xs.take n := List.take_append_of_le_length hxs
  have htake : m.take n <+: xs.take n := hcut ▸ hstart.take n
  apply h
  apply htake.eq_of_length
  rw [List.length_take_of_le hm, List.length_take_of_le hxs]

theorem not_infix_of_not_mem (ha : a ∈ m) (h : a ∉ xs) : ¬ m <:+: xs := fun hm => h (hm.subset ha)

/-- A part does not cross a separator that it does not have. -/
theorem infix_or_infix_of_append_cons (hsep : sep ∉ m) (h : m <:+: xs ++ sep :: ys) : m <:+: xs ∨ m <:+: ys := by
  have hstart : ∀ q, sep ∉ q → q <+: sep :: ys → q = [] := by
    intro q hq h
    cases q with
    | nil => rfl
    | cons b q =>
      have hb : b = sep := (List.cons_prefix_cons.1 h).1
      exact absurd (hb ▸ List.mem_cons_self) hq
  rcases List.infix_append_iff.1 h with h | h | ⟨p, q, rfl, hp, hq⟩
  · exact .inl h
  · rcases List.infix_cons_iff.1 h with h | h
    · rw [hstart m hsep h]
      exact .inl (List.nil_infix)
    · exact .inr h
  · rw [hstart q (fun hmem => hsep (List.mem_append_right _ hmem)) hq, List.append_nil]
    exact .inl hp.isInfix

theorem infix_of_append_of_not_mem (ha : a ∉ xs) (h : a :: m <:+: xs ++ ys) : a :: m <:+: ys := by
  rcases List.infix_append_iff.1 h with h | h | ⟨p, q, hpq, hp, hq⟩
  · exact absurd h (not_infix_of_not_mem List.mem_cons_self ha)
  · exact h
  · cases p with
    | nil =>
      rw [hpq, List.nil_append]
      exact hq.isInfix
    | cons b p =>
      have hb : a = b := (List.cons.inj hpq).1
      exact absurd (hp.subset (hb ▸ List.mem_cons_self)) ha

theorem not_mem_toList {c : Char} {cs : List Char} (h : c ∉ cs) : c ∉ (String.ofList cs).toList := by
  rwa [String.toList_ofList]

/-! ## Quoted texts -/

theorem not_mem_toDigits_sixteen (n : Nat) : 'i' ∉ Nat.toDigits 16 n := by
  have hdigit : ∀ d < 16, 'i' ≠ Nat.digitChar d := by decide
  induction n using Nat.strongRecOn with
  | _ n ih =>
    by_cases hn : n < 16
    · rw [Nat.toDigits_of_lt_base hn, List.mem_singleton]
      exact hdigit n hn
    · rw [Nat.toDigits_of_base_le (by decide) (by omega), List.mem_append, List.mem_singleton, not_or]
      exact ⟨ih (n / 16) (by omega), hdigit (n % 16) (by omega)⟩

theorem escapeChar_eq (c : Char) :
    escapeChar '"' c = [c] ∨ ∃ tail, escapeChar '"' c = '\\' :: tail ∧ 'i' ∉ tail := by
  by_cases hnamed : c ∈ ['\x00', '\t', '\r', '\n', '\\', '"']
  · right
    fin_cases hnamed <;> exact ⟨_, rfl, by decide⟩
  · simp only [List.mem_cons, List.not_mem_nil, or_false, not_or] at hnamed
    obtain ⟨hnull, htab, hreturn, hbreak, hslash, hquote⟩ := hnamed
    have hescape : escapeChar '"' c = if isShown c then [c] else codePointEscape c := by
      simp [escapeChar, hnull, htab, hreturn, hbreak, hslash, hquote]
    by_cases hshown : isShown c = true
    · exact .inl (hescape.trans (if_pos hshown))
    · refine .inr ⟨_, hescape.trans (if_neg hshown), ?_⟩
      simp [not_mem_toDigits_sixteen]

theorem prefix_of_prefix_escaped {m cs : List Char} (hm : '\\' ∉ m)
    (h : m <+: cs.flatMap (escapeChar '"')) : m <+: cs := by
  induction cs generalizing m with
  | nil => exact h
  | cons c cs ih =>
    cases m with
    | nil => exact List.nil_prefix
    | cons a m =>
      rw [List.flatMap_cons] at h
      rcases escapeChar_eq c with hc | ⟨tail, hc, -⟩
      · rw [hc, List.singleton_append, List.cons_prefix_cons] at h
        obtain ⟨rfl, h⟩ := h
        exact List.cons_prefix_cons.2 ⟨rfl, ih (fun hmem => hm (List.mem_cons_of_mem _ hmem)) h⟩
      · rw [hc, List.cons_append, List.cons_prefix_cons] at h
        exact absurd (h.1 ▸ List.mem_cons_self) hm

/-- What can be found between the quotes is in the text, if no escape can begin it. -/
theorem infix_of_infix_escaped {m cs : List Char} (hm : '\\' ∉ 'i' :: m)
    (h : 'i' :: m <:+: cs.flatMap (escapeChar '"')) : 'i' :: m <:+: cs := by
  induction cs with
  | nil => exact h
  | cons c cs ih =>
    rw [List.flatMap_cons] at h
    rcases escapeChar_eq c with hc | ⟨tail, hc, htail⟩
    · rw [hc, List.singleton_append] at h
      rcases List.infix_cons_iff.1 h with h | h
      · have hstart : 'i' :: m <+: (c :: cs).flatMap (escapeChar '"') := by
          rw [List.flatMap_cons, hc]
          exact h
        exact (prefix_of_prefix_escaped hm hstart).isInfix
      · exact List.infix_cons (ih h)
    · rw [hc] at h
      refine List.infix_cons (ih (infix_of_append_of_not_mem (fun hmem => ?_) h))
      rcases List.mem_cons.1 hmem with h | h
      · exact absurd h (by decide)
      · exact htail h

end Text

/-! ## Numbers and places -/

namespace Yaml

variable {c : Char}

theorem not_mem_toString (hc : c.isDigit = false) (n : Nat) : c ∉ (toString n).toList := by
  intro hmem
  rw [toList_toString] at hmem
  rw [isDigit_of_mem_toDigits hmem] at hc
  cases hc

theorem not_mem_toString_int (hc : c.isDigit = false) (hminus : c ≠ '-') (i : Int) :
    c ∉ (toString i).toList := by
  cases i with
  | ofNat n => exact not_mem_toString hc n
  | negSucc n =>
    have htext : toString (Int.negSucc n) = "-" ++ toString (n + 1) := rfl
    rw [htext, String.toList_append, List.mem_append, not_or]
    exact ⟨fun hmem => hminus (List.mem_singleton.1 hmem), not_mem_toString hc (n + 1)⟩

theorem Mark.not_mem_suffix (hc : c.isDigit = false) (hwords : c ∉ " at line column ".toList) (m : Mark) :
    c ∉ m.suffix.toList := by
  have hpart : ∀ part : List Char, part ⊆ " at line column ".toList → c ∉ part :=
    fun part hpart hmem => hwords (hpart hmem)
  by_cases horigin : m.isOrigin = true
  · rw [suffix, if_pos horigin]
    exact List.not_mem_nil
  · have hsuffix : m.suffix = " at " ++ ("line " ++ toString (m.line + 1) ++ " column " ++
        toString (m.column + 1)) := by
      rw [suffix, if_neg horigin]
      rfl
    rw [hsuffix]
    simp only [String.toList_append, List.mem_append, not_or]
    exact ⟨hpart _ (by decide), ⟨⟨hpart _ (by decide), not_mem_toString hc _⟩, hpart _ (by decide)⟩,
      not_mem_toString hc _⟩

theorem Mark.backquote_not_mem_suffix (m : Mark) : '\u0060' ∉ m.suffix.toList :=
  m.not_mem_suffix (by decide) (Text.not_mem_toList (by decide))

end Yaml

namespace Number

theorem Decimal.colon_not_mem_written (x : Decimal) : ':' ∉ x.written := by
  have hdigits : ':' ∉ Nat.toDigits 10 x.digits := fun hmem =>
    absurd (Yaml.isDigit_of_mem_toDigits hmem) (by decide)
  have hzeros : ∀ n, ':' ∉ zeros n := fun n hmem => absurd (List.eq_of_mem_replicate hmem) (by decide)
  have hexponent : ∀ i : Int, ':' ∉ i.repr.toList := Yaml.not_mem_toString_int (by decide) (by decide)
  have htake : ∀ n, ':' ∉ (Nat.toDigits 10 x.digits).take n := fun n hmem => hdigits (List.mem_of_mem_take hmem)
  have hdrop : ∀ n, ':' ∉ (Nat.toDigits 10 x.digits).drop n := fun n hmem => hdigits (List.mem_of_mem_drop hmem)
  have htail : ':' ∉ (Nat.toDigits 10 x.digits).tail := fun hmem => hdigits (List.mem_of_mem_tail hmem)
  unfold written
  dsimp only
  split
  · simp [hdigits, hzeros]
  · split
    · simp [htake, hdrop]
    · split
      · simp [hdigits, hzeros]
      · split
        · simp [htake, hexponent]
        · simp [htake, htail, hexponent]

theorem Binary64.colon_not_mem_text (x : Binary64) : ':' ∉ x.text.toList := by
  have hsign : ∀ negative, ':' ∉ (sign negative).toList := by
    intro negative
    cases negative
    · exact Text.not_mem_toList (by decide)
    · exact Text.not_mem_toList (by decide)
  cases x with
  | nan => decide
  | infinite negative =>
    rw [text, String.toList_append, List.mem_append, not_or]
    exact ⟨hsign negative, Text.not_mem_toList (by decide)⟩
  | finite negative mantissa exponent =>
    cases mantissa with
    | zero =>
      rw [text, String.toList_append, List.mem_append, not_or]
      exact ⟨hsign negative, Text.not_mem_toList (by decide)⟩
    | succ mantissa =>
      rw [text, String.toList_append, String.toList_ofList, List.mem_append, not_or]
      · exact ⟨hsign negative, Decimal.colon_not_mem_written _⟩
      · exact Nat.succ_ne_zero mantissa

end Number

namespace Yaml

theorem Numeral.colon_not_mem_text (n : Numeral) : ':' ∉ n.text.toList := by
  cases n with
  | integer i => exact not_mem_toString_int (by decide) (by decide) i
  | float x => exact x.colon_not_mem_text

/-! ## Malformed text -/

theorem Problem.backquote_not_mem_message (problem : Problem) : '\u0060' ∉ problem.message.toList := by
  cases problem
  all_goals
    dsimp only [message]
    exact Text.not_mem_toList (by decide)

theorem Construct.backquote_not_mem_message (construct : Construct) :
    '\u0060' ∉ construct.message.toList := by
  cases construct
  all_goals
    dsimp only [message]
    exact Text.not_mem_toList (by decide)

theorem Fault.backquote_not_mem_message (f : Fault) : '\u0060' ∉ f.message.toList := by
  have hplace : '\u0060' ∉ f.placeSuffix.toList := by
    unfold placeSuffix
    split
    · rename_i offset _
      by_cases hoffset : (offset == 0) = true
      · rw [if_pos hoffset]
        exact List.not_mem_nil
      · rw [if_neg hoffset]
        show '\u0060' ∉ (" at position " ++ toString offset).toList
        rw [String.toList_append, List.mem_append, not_or]
        exact ⟨Text.not_mem_toList (by decide), not_mem_toString (by decide) offset⟩
    · exact f.mark.backquote_not_mem_suffix
  have hcontext : '\u0060' ∉ f.contextSuffix.toList := by
    unfold contextSuffix
    cases f.context with
    | none => exact List.not_mem_nil
    | some context =>
      obtain ⟨construct, start⟩ := context
      simp only [String.toList_append, List.mem_append, not_or]
      refine ⟨⟨Text.not_mem_toList (by decide), construct.backquote_not_mem_message⟩, ?_⟩
      by_cases hsame : start.samePlace f.mark = true
      · rw [if_pos hsame]
        exact List.not_mem_nil
      · rw [if_neg hsame]
        exact start.backquote_not_mem_suffix
  rw [message]
  simp only [String.toList_append, List.mem_append, not_or]
  exact ⟨⟨f.problem.backquote_not_mem_message, hplace⟩, hcontext⟩

/-! ## Texts of the document -/

/-- The words before an integer that no value can hold. -/
def opening : List Char := "invalid type: integer \u0060".toList

/-- The keys on the path. -/
def Path.keys (path : Path) : List String :=
  path.filterMap fun
    | .key text => some text
    | _ => none

/-- The texts of the document in the message. -/
def Refusal.shown : Refusal → List String
  | .repeatedKey (.string s) => [s]
  | .repeatedKey _ => []
  | .notOfTag text _ => [text]
  | .tooWide _ => []

/-- The texts of the document in the message. -/
def ReadError.shown : ReadError → List String
  | .content refusal _ path => path.keys ++ refusal.shown
  | .form _ => []
  | .tooManyReferences => []
  | .severalDocuments => []

theorem opening_eq : opening = ['i', 'n', 'v', 'a', 'l', 'i', 'd', ' ', 't', 'y', 'p', 'e', ':', ' ',
    'i', 'n', 't', 'e', 'g', 'e', 'r', ' ', '\u0060'] := String.toList_ofList

theorem opening_append : opening = "invalid type: integer ".toList ++ ['\u0060'] := by decide

theorem backquote_mem_opening : '\u0060' ∈ opening := by
  rw [opening_eq]
  decide

theorem colon_mem_opening : ':' ∈ opening := by
  rw [opening_eq]
  decide

theorem not_mem_opening {c : Char} (h : c ∈ ['.', '[', '"', '\\']) : c ∉ opening := by
  rw [opening_eq]
  fin_cases h <;> decide

namespace Path

theorem infix_of_infix_inside {path : Path} {part : String}
    (h : opening <:+: (describe.inside path ++ part).toList) :
    opening <:+: path.describe.toList ∨ opening <:+: part.toList := by
  cases path with
  | nil =>
    rw [describe.inside, String.empty_append] at h
    exact .inr h
  | cons step path =>
    have hpoint : (describe (step :: path) ++ "." ++ part).toList =
        (describe (step :: path)).toList ++ '.' :: part.toList := by
      simp
    rw [describe.inside, hpoint] at h
    exact Text.infix_or_infix_of_append_cons (not_mem_opening (by decide)) h

theorem infix_describe {path : Path} (h : opening <:+: path.describe.toList) :
    ∃ s ∈ path.keys, opening <:+: s.toList := by
  induction path with
  | nil =>
    rw [describe] at h
    exact absurd h (Text.not_infix_of_not_mem backquote_mem_opening (Text.not_mem_toList (by decide)))
  | cons step path ih =>
    cases step with
    | key text =>
      rw [describe] at h
      rcases infix_of_infix_inside h with h | h
      · obtain ⟨s, hs, hpart⟩ := ih h
        exact ⟨s, List.mem_cons_of_mem _ hs, hpart⟩
      · exact ⟨text, List.mem_cons_self, h⟩
    | unnamed =>
      rw [describe] at h
      rcases infix_of_infix_inside h with h | h
      · exact ih h
      · exact absurd h (Text.not_infix_of_not_mem backquote_mem_opening (Text.not_mem_toList (by decide)))
    | target =>
      rw [describe] at h
      exact ih h
    | index i =>
      have hbracket : (describe (.index i :: path)).toList =
          (describe path).toList ++ '[' :: ((toString i).toList ++ [']']) := by
        rw [describe]
        show (describe path ++ ("[" ++ toString i ++ "]")).toList = _
        simp
      rw [hbracket] at h
      rcases Text.infix_or_infix_of_append_cons (not_mem_opening (by decide)) h with h | h
      · exact ih h
      · refine absurd h (Text.not_infix_of_not_mem backquote_mem_opening ?_)
        rw [List.mem_append, not_or]
        exact ⟨not_mem_toString (by decide) i, by decide⟩

/-- The colon after the path is not the one of the phrase, unless the rest of the phrase follows it. -/
theorem infix_heading_append {path : Path} {rest : List Char}
    (hrest : ¬ "integer \u0060".toList <+: rest) (h : opening <:+: path.heading.toList ++ rest) :
    (∃ s ∈ path.keys, opening <:+: s.toList) ∨ opening <:+: rest := by
  by_cases hroot : (path.describe == ".") = true
  · rw [heading, if_pos hroot] at h
    exact .inr h
  · have hheading : path.heading.toList ++ rest = path.describe.toList ++ ([':', ' '] ++ rest) := by
      rw [heading, if_neg hroot, String.toList_append, List.append_assoc]
      rfl
    rw [hheading] at h
    rcases List.infix_append_iff.1 h with h | h | ⟨p, q, hpq, hp, hq⟩
    · exact .inl (infix_describe h)
    · exact .inr (Text.infix_of_append_of_not_mem (by decide) h)
    · have hcolon : ∀ k < 24, (opening.drop k).head? = some ':' → k = 12 := by
        rw [opening_eq]
        decide
      have hlength : p.length + q.length = 23 := by
        rw [← List.length_append, ← hpq]
        rfl
      have hdrop : opening.drop p.length = q := by rw [hpq, List.drop_left]
      cases q with
      | nil =>
        rw [List.append_nil] at hpq
        rw [← hpq] at hp
        exact .inl (infix_describe hp.isInfix)
      | cons c q =>
        obtain ⟨rfl, hafter⟩ := List.cons_prefix_cons.1 hq
        have hplace := hcolon p.length (by omega) (by rw [hdrop]; rfl)
        have hspace : q = ' ' :: "integer \u0060".toList := by
          rw [hplace] at hdrop
          exact (List.cons.inj hdrop).2.symm
        rw [hspace] at hafter
        exact absurd (List.cons_prefix_cons.1 hafter).2 hrest

theorem infix_heading {path : Path} (h : opening <:+: path.heading.toList) :
    ∃ s ∈ path.keys, opening <:+: s.toList := by
  rw [← List.append_nil path.heading.toList] at h
  rcases infix_heading_append (by decide) h with h | h
  · exact h
  · exact absurd h.length_le (by decide)

end Path

theorem infix_quoted_append {words rest : List Char} {s : String} (hwords : '\u0060' ∉ words)
    (hrest : '\u0060' ∉ rest) (h : opening <:+: words ++ ((Text.quoted s).toList ++ rest)) :
    opening <:+: s.toList := by
  have hquoted : (Text.quoted s).toList ++ rest =
      '"' :: (s.toList.flatMap (Text.escapeChar '"') ++ '"' :: rest) := by
    simp [Text.quoted, Text.quoteWith]
  rw [hquoted] at h
  rcases Text.infix_or_infix_of_append_cons (not_mem_opening (by decide)) h with h | h
  · exact absurd h (Text.not_infix_of_not_mem backquote_mem_opening hwords)
  · rcases Text.infix_or_infix_of_append_cons (not_mem_opening (by decide)) h with h | h
    · exact Text.infix_of_infix_escaped (by decide) h
    · exact absurd h (Text.not_infix_of_not_mem backquote_mem_opening hrest)

theorem Refusal.infix_repeatedKey {key : Value} {mark : Mark}
    (h : opening <:+: (Refusal.repeatedKey key).message.toList ++ mark.suffix.toList) :
    ∃ s ∈ (Refusal.repeatedKey key).shown, opening <:+: s.toList := by
  have hcolon : ':' ∉ mark.suffix.toList := mark.not_mem_suffix (by decide) (Text.not_mem_toList (by decide))
  have hplain : ∀ words : String, ':' ∉ words.toList →
      ¬ opening <:+: ("duplicate entry " ++ words).toList ++ mark.suffix.toList := by
    intro words hwords
    refine Text.not_infix_of_not_mem colon_mem_opening ?_
    simp only [String.toList_append, List.mem_append, not_or]
    exact ⟨⟨Text.not_mem_toList (by decide), hwords⟩, hcolon⟩
  cases key with
  | string s =>
    refine ⟨s, List.mem_cons_self, ?_⟩
    have hmessage : (Refusal.repeatedKey (.string s)).message.toList ++ mark.suffix.toList =
        "duplicate entry with key ".toList ++ ((Text.quoted s).toList ++ mark.suffix.toList) := by
      have hwords : "duplicate entry with key ".toList = "duplicate entry ".toList ++ "with key ".toList := by
        decide
      unfold message describeKey
      rw [hwords]
      simp only [String.toList_append, List.append_assoc]
    rw [hmessage] at h
    exact infix_quoted_append (Text.not_mem_toList (by decide)) mark.backquote_not_mem_suffix h
  | number n =>
    refine absurd h (hplain ("with key " ++ n.text) ?_)
    rw [String.toList_append, List.mem_append, not_or]
    exact ⟨Text.not_mem_toList (by decide), n.colon_not_mem_text⟩
  | bool b => exact absurd h (hplain (describeKey (.bool b)) (by cases b <;> decide))
  | null => exact absurd h (hplain "with null key" (Text.not_mem_toList (by decide)))
  | sequence items => exact absurd h (hplain "in YAML map" (Text.not_mem_toList (by decide)))
  | mapping entries => exact absurd h (hplain "in YAML map" (Text.not_mem_toList (by decide)))
  | tagged tag v => exact absurd h (hplain "in YAML map" (Text.not_mem_toList (by decide)))

theorem Refusal.toList_notOfTag (text expected : String) (rest : List Char) :
    (Refusal.notOfTag text expected).message.toList ++ rest =
      "invalid value: string ".toList ++ ((Text.quoted text).toList ++
        (", expected ".toList ++ expected.toList ++ rest)) := by
  have hself : ∀ s : String, toString s = s := fun _ => rfl
  unfold message
  simp only [hself, String.toList_append, List.append_assoc]

theorem Refusal.infix_notOfTag {text expected : String} {mark : Mark} (hexpected : '\u0060' ∉ expected.toList)
    (h : opening <:+: (Refusal.notOfTag text expected).message.toList ++ mark.suffix.toList) :
    opening <:+: text.toList := by
  rw [toList_notOfTag] at h
  refine infix_quoted_append (Text.not_mem_toList (by decide)) ?_ h
  simp only [List.mem_append, not_or]
  exact ⟨⟨Text.not_mem_toList (by decide), hexpected⟩, mark.backquote_not_mem_suffix⟩

namespace ReadError

/-- The phrase is in a message about anything but an integer only if a text that it shows has it. -/
theorem infix_message {e : ReadError} (hwide : ∀ i mark path, e ≠ .content (.tooWide i) mark path)
    (hexpected : ∀ text expected mark path, e = .content (.notOfTag text expected) mark path →
      '\u0060' ∉ expected.toList)
    (h : opening <:+: e.message.toList) : ∃ s ∈ e.shown, opening <:+: s.toList := by
  cases e with
  | form fault => exact absurd h (Text.not_infix_of_not_mem backquote_mem_opening fault.backquote_not_mem_message)
  | tooManyReferences =>
    exact absurd h (Text.not_infix_of_not_mem backquote_mem_opening (Text.not_mem_toList (by decide)))
  | severalDocuments =>
    exact absurd h (Text.not_infix_of_not_mem backquote_mem_opening (Text.not_mem_toList (by decide)))
  | content refusal mark path =>
    rw [message, String.toList_append, String.toList_append, List.append_assoc] at h
    cases refusal with
    | tooWide i => exact absurd rfl (hwide i mark path)
    | repeatedKey key =>
      have hfirst : ¬ "integer \u0060".toList <+:
          (Refusal.repeatedKey key).message.toList ++ mark.suffix.toList := by
        unfold Refusal.message
        rw [String.toList_append, List.append_assoc]
        exact Text.not_prefix_append_of_take_ne (n := 1) (by decide) (by decide) (by decide)
      rcases Path.infix_heading_append hfirst h with ⟨s, hs, hpart⟩ | h
      · exact ⟨s, List.mem_append_left _ hs, hpart⟩
      · obtain ⟨s, hs, hpart⟩ := Refusal.infix_repeatedKey h
        exact ⟨s, List.mem_append_right _ hs, hpart⟩
    | notOfTag text expected =>
      have hfirst : ¬ "integer \u0060".toList <+:
          (Refusal.notOfTag text expected).message.toList ++ mark.suffix.toList := by
        rw [Refusal.toList_notOfTag]
        exact Text.not_prefix_append_of_take_ne (n := 3) (by decide) (by decide) (by decide)
      rcases Path.infix_heading_append hfirst h with ⟨s, hs, hpart⟩ | h
      · exact ⟨s, List.mem_append_left _ hs, hpart⟩
      · refine ⟨text, List.mem_append_right _ List.mem_cons_self, ?_⟩
        exact Refusal.infix_notOfTag (hexpected text expected mark path rfl) h

end ReadError

end Yaml

end TapeMachine
