import TapeMachine.Proofs.Yaml.Stream
import TapeMachine.Yaml.Reading

/-!
# Texts without a document

A text holds no document if and only if it is void: each of its lines is blank or a comment, in the sense that
the scanner gives to lines, blanks and comments.  What the scanner skips is followed line by line
(`front_skipBlanksFrom_layoutFrom`); where it stops before the end of the text it meets a token, and once there
is a token the text has a root, if only a broken one.
-/

namespace TapeMachine.Yaml

/-! ## Void texts -/

/-- The characters that end a line. -/
def breaksLine (c : Char) : Bool := c == '\r' || c == '\u0085' || isBreak c

/-- Whether nothing but spaces and a comment follows in a line; a byte order mark may start the line. -/
def isVoidFrom (start : Bool) : List Char → Bool
  | [] => true
  | c :: cs => c == '#' || (c == ' ' || (c == byteOrderMark && start)) && isVoidFrom false cs

def isVoidLine (line : List Char) : Bool := isVoidFrom true line

/-- Whether a text has only characters that are allowed, and nothing but blank lines and comments. -/
def isVoidText (text : List Char) : Bool := text.all isAllowed && (text.splitOnP breaksLine).all isVoidLine

theorem forbidden?_eq_none_iff {text : List Char} : forbidden? text = none ↔ text.all isAllowed = true := by
  have hfrom : ∀ count start offset used : Nat,
      forbiddenFrom? count start offset used text = none ↔ text.all isAllowed = true := by
    induction text with
    | nil => exact fun _ _ _ _ => by simp [forbiddenFrom?]
    | cons c cs ih =>
      intro count start offset used
      rw [forbiddenFrom?, List.all_cons]
      by_cases hc : isAllowed c = true
      · simp [hc, ih]
      · simp [hc]
  exact hfrom 0 0 0 0

theorem stop_not_mem {text : List Char} (h : text.all isAllowed = true) : stop ∉ text := fun hmem => by
  have hallowed := List.all_eq_true.1 h stop hmem
  exact absurd hallowed (by decide)

/-- The piece before the one that breaks off has only characters that are allowed. -/
theorem all_isAllowed_take {text : List Char} {f : Forbidden} (h : forbidden? text = some f) :
    (text.take f.noticedAfter).all isAllowed = true := by
  have hfrom : ∀ (before after : List Char) (start offset used : Nat), before.all isAllowed = true →
      start ≤ before.length → forbiddenFrom? before.length start offset used after = some f →
        ((before ++ after).take f.noticedAfter).all isAllowed = true := by
    intro before after
    induction after generalizing before with
    | nil => intro start offset used _ _ h; cases h
    | cons c after ih =>
      intro start offset used hbefore hstart h
      rw [forbiddenFrom?] at h
      have hstart' : (if decide (used + c.utf8Size ≤ pieceSize) = true then start else before.length) ≤
          before.length := by
        split
        · exact hstart
        · exact Nat.le_refl _
      by_cases hc : isAllowed c = true
      · rw [if_pos hc, show before.length + 1 = (before ++ [c]).length by simp] at h
        rw [List.append_cons]
        refine ih (before ++ [c]) _ _ _ (by simp [hbefore, hc]) ?_ h
        exact Nat.le_trans hstart' (by simp)
      · rw [if_neg hc, Option.some.injEq] at h
        subst h
        rw [List.take_append_of_le_length hstart']
        exact List.all_eq_true.2 fun d hd => List.all_eq_true.1 hbefore d (List.mem_of_mem_take hd)
  exact hfrom [] text 0 0 0 rfl (Nat.le_refl 0) h

/-! ## Skipping -/

open Lexer (skipBlanksFrom)

theorem splitOnP_break {c : Char} (hc : breaksLine c = true) (cs : List Char) :
    (c :: cs).splitOnP breaksLine = [] :: cs.splitOnP breaksLine := by
  rw [List.splitOnP_cons_eq_if_modifyHead, if_pos hc]

theorem front_skipBlanksFrom_break {c : Char} (hc : isBreak c = true) (comment : Bool) (m : Mark)
    {gs : List Glyph} {next : List Char} {after : List (List Char)}
    (hrest : front (skipBlanksFrom false false true gs).2 = stop ↔
      (false = true ∨ isVoidFrom true next = true) ∧ after.all isVoidLine = true) :
    front (skipBlanksFrom false comment true (⟨c, m⟩ :: gs)).2 = stop ↔
      (next :: after).all isVoidLine = true := by
  have hskip : skipBlanksFrom false comment true (⟨c, m⟩ :: gs) = skipBlanksFrom false false true gs := by
    rw [skipBlanksFrom, if_pos hc]
    rfl
  rw [hskip, hrest, or_iff_right Bool.false_ne_true, List.all_cons, Bool.and_eq_true]
  rfl

theorem front_skipBlanksFrom_cons {c : Char} (hbreak : ¬ isBreak c = true) (hstop : c ≠ stop) (comment : Bool)
    (m : Mark) {gs : List Glyph} {next : List Char} {Q : Prop}
    (hrest : ∀ comment, front (skipBlanksFrom false comment true gs).2 = stop ↔
      (comment = true ∨ isVoidFrom false next = true) ∧ Q) :
    front (skipBlanksFrom false comment true (⟨c, m⟩ :: gs)).2 = stop ↔
      (comment = true ∨ isVoidFrom (m.column == 0) (c :: next) = true) ∧ Q := by
  rw [skipBlanksFrom, if_neg hbreak]
  cases comment with
  | true => simp [hstop, hrest]
  | false =>
    rw [if_neg (by simp)]
    by_cases hash : (c == '#') = true
    · have hvoid : isVoidFrom (m.column == 0) (c :: next) = true := by rw [isVoidFrom, hash, Bool.true_or]
      rw [if_pos hash, hrest true, hvoid]
      simp
    · rw [if_neg hash]
      rw [Bool.not_eq_true] at hash
      by_cases hblank : (c == ' ' || (c == byteOrderMark && m.column == 0)) = true
      · have hvoid : isVoidFrom (m.column == 0) (c :: next) = isVoidFrom false next := by
          rw [isVoidFrom, hash, hblank, Bool.false_or, Bool.true_and]
        rw [if_pos (by simpa using hblank), hrest false, hvoid]
      · have hvoid : isVoidFrom (m.column == 0) (c :: next) = false := by
          rw [isVoidFrom, hash, Bool.eq_false_iff.2 hblank, Bool.false_or, Bool.false_and]
        rw [if_neg (by simpa using hblank), hvoid]
        simp [front, charAt, hstop]

/-- A text is skipped up to its end if the rest of its first line is void, which it is in a comment, and all
other lines are void. -/
theorem front_skipBlanksFrom_layoutFrom (m : Mark) (cs : List Char) (hstop : stop ∉ cs) (comment : Bool)
    {line : List Char} {lines : List (List Char)} (h : cs.splitOnP breaksLine = line :: lines) :
    front (skipBlanksFrom false comment true (layoutFrom m cs)).2 = stop ↔
      (comment = true ∨ isVoidFrom (m.column == 0) line = true) ∧ lines.all isVoidLine = true := by
  have hempty : ∀ start, isVoidFrom start [] = true := fun _ => rfl
  induction m, cs using layoutFrom.induct generalizing comment line lines with
  | case1 m =>
    obtain ⟨rfl, rfl⟩ := List.cons.inj (List.splitOnP_nil.symm.trans h)
    have hskip : skipBlanksFrom false comment true (layoutFrom m []) = (true, [⟨stop, m⟩]) := by
      cases comment <;> rfl
    simp [hskip, hempty, front, charAt]
  | case2 m cs ih =>
    obtain ⟨next, after, hnext⟩ := List.exists_cons_of_ne_nil (List.splitOnP_ne_nil breaksLine cs)
    rw [splitOnP_break (by decide), splitOnP_break (by decide), hnext] at h
    obtain ⟨rfl, rfl⟩ := List.cons.inj h
    have hrest := ih (fun hmem => hstop (by simp [hmem])) false hnext
    rw [layoutFrom, front_skipBlanksFrom_break (by decide) comment m hrest]
    simp [hempty, isVoidLine]
  | case3 m c cs hcrlf hc ih =>
    obtain ⟨next, after, hnext⟩ := List.exists_cons_of_ne_nil (List.splitOnP_ne_nil breaksLine cs)
    have hbreaks : breaksLine c = true := by
      simp only [Bool.or_eq_true, beq_iff_eq] at hc
      rcases hc with (rfl | rfl) | rfl <;> decide
    rw [splitOnP_break hbreaks, hnext] at h
    obtain ⟨rfl, rfl⟩ := List.cons.inj h
    have hrest := ih (fun hmem => hstop (by simp [hmem])) false hnext
    rw [layoutFrom, if_pos hc, front_skipBlanksFrom_break (by decide) comment m hrest]
    · simp [hempty]
    · exact hcrlf
  | case4 m c cs hcrlf hc hbreak ih =>
    obtain ⟨next, after, hnext⟩ := List.exists_cons_of_ne_nil (List.splitOnP_ne_nil breaksLine cs)
    rw [splitOnP_break (by simp [breaksLine, hbreak]), hnext] at h
    obtain ⟨rfl, rfl⟩ := List.cons.inj h
    have hrest := ih (fun hmem => hstop (by simp [hmem])) false hnext
    rw [layoutFrom, if_neg hc, if_pos hbreak, front_skipBlanksFrom_break hbreak comment m hrest]
    · simp [hempty]
    · exact hcrlf
  | case5 m c cs hcrlf hc hbreak ih =>
    obtain ⟨next, after, hnext⟩ := List.exists_cons_of_ne_nil (List.splitOnP_ne_nil breaksLine cs)
    have hbreaks : ¬ breaksLine c = true := by
      simp only [Bool.or_eq_true, not_or, beq_iff_eq] at hc
      simp [breaksLine, hc, hbreak]
    rw [List.splitOnP_cons_eq_if_modifyHead, if_neg hbreaks, hnext, List.modifyHead_cons] at h
    obtain ⟨rfl, rfl⟩ := List.cons.inj h
    have hrest := fun comment => ih (fun hmem => hstop (by simp [hmem])) comment hnext
    rw [layoutFrom, if_neg hc, if_neg hbreak]
    · exact front_skipBlanksFrom_cons hbreak (fun hc => hstop (by simp [hc])) comment m hrest
    · exact hcrlf

/-! ## The root -/

namespace Grammar

/-- The token that comes next; past the last one the text ends. -/
def next (tokens : List Token) : Token := tokens.head?.getD ⟨.streamEnd, .origin⟩

theorem run_peek_bind {α : Type} (f : Token → Grammar α) (r : Reading) :
    (peek >>= f).run r = (f (next r.tokens)).run r := rfl

/-- There is no root if the text ends before it, and only then. -/
theorem run_root_of_streamEnd {fuel : Nat} {r : Reading} (h : (next r.tokens).kind = .streamEnd) :
    (root fuel).run r = (none, r) := by
  rw [root, run_peek_bind, h]
  rfl

theorem isSome_run_root {fuel : Nat} {r : Reading} (h : (next r.tokens).kind ≠ .streamEnd) :
    ((root fuel).run r).1.isSome = true := by
  have hbind : ∀ {α : Type} (x : Grammar α) (f : α → Grammar (Option Node)),
      (∀ a s, ((f a).run s).1.isSome = true) → ∀ s, ((x >>= f).run s).1.isSome = true :=
    fun x f hf s => hf _ _
  rw [root, run_peek_bind]
  split
  · contradiction
  case h_5 => rfl
  -- directives, or the rule that starts a document: a root follows, if only a broken one
  all_goals
    refine hbind _ _ (fun fault? s => ?_) r
    cases fault? with
    | some fault => rfl
    | none =>
      refine hbind _ _ (fun _ s => ?_) s
      refine hbind _ _ (fun t s => ?_) s
      split <;> rfl

/-- The tokens after the one that starts the text. -/
def afterStart (tokens : List Token) : List Token :=
  if (next tokens).kind = .streamStart then tokens.tail else tokens

theorem ofTokens_eq (tokens : List Token) :
    ∃ fuel, Document.ofTokens tokens =
      let (root, r) := (root fuel).run ⟨afterStart tokens, [], [], 0⟩
      ⟨root, r.size, (match r.tokens with | ⟨.broken fault, _⟩ :: _ => some fault | _ => none),
        root.isSome && continues r.tokens⟩ := by
  refine ⟨5 * tokens.length + 8, ?_⟩
  rw [Document.ofTokens, document, run_peek_bind, afterStart]
  split
  · rename_i h
    rw [if_pos h]
    rfl
  · rename_i h
    rw [if_neg h]
    rfl

theorem root_ofTokens_eq_none_iff {tokens : List Token} :
    (Document.ofTokens tokens).root = none ↔ (next (afterStart tokens)).kind = .streamEnd := by
  obtain ⟨fuel, h⟩ := ofTokens_eq tokens
  rw [h]
  refine ⟨fun hnone => ?_, fun hend => ?_⟩
  · by_contra hne
    have hsome := @isSome_run_root fuel ⟨afterStart tokens, [], [], 0⟩ hne
    exact absurd hnone (Option.isSome_iff_ne_none.1 hsome)
  · rw [run_root_of_streamEnd hend]

end Grammar

theorem value_of_root_eq_none {tokens : List Token} (h : (Document.ofTokens tokens).root = none) :
    (Document.ofTokens tokens).value = .ok .null := by
  have hend := Grammar.root_ofTokens_eq_none_iff.1 h
  obtain ⟨fuel, h⟩ := Grammar.ofTokens_eq tokens
  rw [h, Grammar.run_root_of_streamEnd hend]
  have hfault : ∀ ts : List Token, (Grammar.next ts).kind = .streamEnd →
      (match ts with | ⟨.broken fault, _⟩ :: _ => some fault | _ => none) = none := by
    intro ts hts
    split
    · cases hts
    · rfl
  simp only [hfault _ hend]
  rfl

/-! ## From the text to the root -/

namespace Grammar

theorem next_afterStart_append {ts : List Token} (hlength : 2 ≤ ts.length)
    (h : ∀ t ∈ ts, t.kind ≠ .streamEnd) (after : List Token) :
    (next (afterStart (ts ++ after))).kind ≠ .streamEnd := by
  match ts, hlength with
  | t :: u :: ts, _ =>
    unfold afterStart
    split
    · exact h u (by simp)
    · exact h t (by simp)

theorem next_afterStart_broken {ts : List Token} (h : ∀ t ∈ ts, t.kind ≠ .streamEnd) (fault : Fault) (m : Mark) :
    (next (afterStart (ts ++ [⟨.broken fault, m⟩]))).kind ≠ .streamEnd := by
  match ts with
  | [] => exact TokenKind.noConfusion
  | [t] =>
    unfold afterStart
    split
    · exact TokenKind.noConfusion
    · exact h t (by simp)
  | t :: u :: ts => exact next_afterStart_append (by simp) h _

end Grammar

namespace Lexer

open TapeMachine.Yaml.Grammar (next afterStart next_afterStart_append next_afterStart_broken)

theorem next_afterStart_brokenBy {l : Lexer} {n : Nat} (h : l.Unended n) (fault : Fault) :
    (next (afterStart (l.brokenBy fault))).kind ≠ .streamEnd := by
  refine next_afterStart_broken (fun t ht => ?_) fault fault.mark
  exact h.kind t (List.mem_reverse.1 (List.mem_of_mem_take ht))

theorem next_afterStart_run {f : Lexer → Except Fault Lexer} (hf : ∀ l l', f l = .ok l' → l.step = .ok l')
    (fuel : Nat) {l : Lexer} (h : l.Unended 2) : (next (afterStart (l.run f fuel))).kind ≠ .streamEnd := by
  have htokens : ∀ {l : Lexer}, l.Unended 2 → ∀ after,
      (next (afterStart (l.emitted.reverse ++ after))).kind ≠ .streamEnd := fun h =>
    next_afterStart_append (by simpa using h.length) fun t ht => h.kind t (List.mem_reverse.1 ht)
  induction fuel generalizing l with
  | zero => simpa [run, tokens] using htokens h []
  | succ fuel ih =>
    rw [run]
    split
    · exact next_afterStart_brokenBy h _
    · rename_i l' hl'
      by_cases hfront : front l.skipBlanks.rest = stop
      · obtain ⟨l₁, m, h₁, hemitted⟩ := h.step_end hfront (hf l l' hl')
        have hfinished : l'.isFinished = true := by rw [isFinished, hemitted]
        rw [if_pos hfinished, tokens, hemitted, List.reverse_cons]
        exact htokens h₁ _
      · have h' : l'.Unended 2 := (h.step hfront (hf l l' hl')).of_succ
        split
        · simpa [tokens] using htokens h' []
        · exact ih h'

end Lexer

theorem front_ne_stop_of_suffix {m : Mark} {cs : List Char} (hstop : stop ∉ cs) {rest : List Glyph}
    (h : rest <:+ layoutFrom m cs) (hlength : 1 < rest.length) : front rest ≠ stop := by
  have hcons : ∀ {c : Char} {m : Mark} {gs : List Glyph}, c ≠ stop → (rest <:+ gs → front rest ≠ stop) →
      rest <:+ ⟨c, m⟩ :: gs → front rest ≠ stop := by
    intro c m gs hc hgs h
    rcases List.suffix_cons_iff.1 h with rfl | h
    · exact hc
    · exact hgs h
  induction m, cs using layoutFrom.induct with
  | case1 m =>
    have hle := h.length_le
    simp only [layoutFrom, List.length_singleton] at hle
    omega
  | case2 m cs ih =>
    rw [layoutFrom] at h
    exact hcons (by decide) (ih fun hmem => hstop (by simp [hmem])) h
  | case3 m c cs hcrlf hc ih =>
    rw [layoutFrom, if_pos hc] at h
    · exact hcons (by decide) (ih fun hmem => hstop (by simp [hmem])) h
    · exact hcrlf
  | case4 m c cs hcrlf hc hbreak ih =>
    rw [layoutFrom, if_neg hc, if_pos hbreak] at h
    · exact hcons (fun hc => hstop (by simp [hc])) (ih fun hmem => hstop (by simp [hmem])) h
    · exact hcrlf
  | case5 m c cs hcrlf hc hbreak ih =>
    rw [layoutFrom, if_neg hc, if_neg hbreak] at h
    · exact hcons (fun hc => hstop (by simp [hc])) (ih fun hmem => hstop (by simp [hmem])) h
    · exact hcrlf

theorem skipBlanksFrom_suffix (flow comment keyAllowed : Bool) (gs : List Glyph) :
    (skipBlanksFrom flow comment keyAllowed gs).2 <:+ gs := by
  fun_induction skipBlanksFrom flow comment keyAllowed gs with
  | case1 => exact List.suffix_rfl
  | case2 _ _ g gs _ ih => exact ih.trans (List.suffix_cons g gs)
  | case3 _ _ g gs _ _ ih => exact ih.trans (List.suffix_cons g gs)
  | case4 _ _ g gs _ _ _ ih => exact ih.trans (List.suffix_cons g gs)
  | case5 _ _ g gs _ _ _ _ ih => exact ih.trans (List.suffix_cons g gs)
  | case6 => exact List.suffix_rfl

/-- The text is skipped up to its end if all its lines are void. -/
theorem front_skipBlanks_start {text : List Char} (hstop : stop ∉ text) :
    front (Lexer.start (layout text)).skipBlanks.rest = stop ↔
      (text.splitOnP breaksLine).all isVoidLine = true := by
  obtain ⟨line, lines, h⟩ := List.exists_cons_of_ne_nil (List.splitOnP_ne_nil breaksLine text)
  have hskip := front_skipBlanksFrom_layoutFrom .origin text hstop false h
  rw [or_iff_right Bool.false_ne_true] at hskip
  rw [h, List.all_cons, Bool.and_eq_true]
  exact hskip

theorem tokenize_of_isVoidText {text : List Char} (h : isVoidText text = true) :
    ∃ m, tokenize text = [⟨.streamStart, .origin⟩, ⟨.streamEnd, m⟩] := by
  obtain ⟨hallowed, hlines⟩ := Bool.and_eq_true_iff.1 h
  have hfront := (front_skipBlanks_start (stop_not_mem hallowed)).2 hlines
  have hidle : (Lexer.start (layout text)).Idle := ⟨rfl, rfl⟩
  obtain ⟨l, m, hstep, hemitted⟩ := hidle.exists_step hfront
  have hfinished : l.isFinished = true := by rw [Lexer.isFinished, hemitted]
  refine ⟨m, ?_⟩
  rw [tokenize, forbidden?_eq_none_iff.2 hallowed]
  simp only [Lexer.run, hstep, hfinished, if_true, Lexer.tokens, hemitted]
  rfl

theorem next_afterStart_run_start {f : Lexer → Except Fault Lexer} {gs : List Glyph} (fuel : Nat)
    (hf : ∀ l l', f l = .ok l' → l.step = .ok l')
    (hfront : ∀ l', f (Lexer.start gs) = .ok l' → front (Lexer.start gs).skipBlanks.rest ≠ stop) :
    (Grammar.next (Grammar.afterStart ((Lexer.start gs).run f (fuel + 1)))).kind ≠ .streamEnd := by
  have hstart : (Lexer.start gs).Unended 1 := ⟨Nat.le_refl 1, by simp [Lexer.start]⟩
  rw [Lexer.run]
  split
  · exact Lexer.next_afterStart_brokenBy hstart _
  · rename_i l' hl'
    have h' : l'.Unended 2 := hstart.step (hfront l' hl') (hf _ _ hl')
    split
    · exact Lexer.next_afterStart_run hf 0 h'
    · exact Lexer.next_afterStart_run hf fuel h'

theorem stepBefore_eq_ok {cut : Mark} {fault : Fault} {l l' : Lexer} (h : l.stepBefore cut fault = .ok l') :
    4 < l.skipBlanks.rest.length ∧ l.step = .ok l' := by
  unfold Lexer.stepBefore at h
  split at h
  · cases h
  · rename_i hdrop
    refine ⟨by simpa using hdrop, ?_⟩
    split at h
    · split at h
      · cases h
      · cases h
        assumption
    · cases h

theorem next_afterStart_tokenize {text : List Char} (h : isVoidText text = false) :
    (Grammar.next (Grammar.afterStart (tokenize text))).kind ≠ .streamEnd := by
  unfold tokenize
  cases hforbidden : forbidden? text with
  | none =>
    have hallowed := forbidden?_eq_none_iff.1 hforbidden
    refine next_afterStart_run_start _ (fun _ _ hl => hl) fun _ _ hfront => ?_
    rw [isVoidText, hallowed, (front_skipBlanks_start (stop_not_mem hallowed)).1 hfront] at h
    cases h
  | some c =>
    refine next_afterStart_run_start _ (fun _ _ hl => (stepBefore_eq_ok hl).2) fun _ hl => ?_
    have hlength := (stepBefore_eq_ok hl).1
    refine front_ne_stop_of_suffix (stop_not_mem (all_isAllowed_take hforbidden))
      (skipBlanksFrom_suffix _ _ _ _) (Nat.lt_trans (by decide) hlength)

/-- A text holds no document if and only if it is void. -/
theorem root_tokenize_eq_none_iff {text : List Char} :
    (Document.ofTokens (tokenize text)).root = none ↔ isVoidText text = true := by
  rw [Grammar.root_ofTokens_eq_none_iff]
  cases h : isVoidText text with
  | true =>
    obtain ⟨m, hm⟩ := tokenize_of_isVoidText h
    simp only [hm, iff_true]
    rfl
  | false => simpa using next_afterStart_tokenize h

end TapeMachine.Yaml
