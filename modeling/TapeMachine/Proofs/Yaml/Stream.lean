import TapeMachine.Proofs.Success
import TapeMachine.Yaml.Token.Stream

/-!
# Steps of the scanner

What a step does to the tokens that are there: it adds to them, and none of what it adds ends the text, unless
it has come to the end.  Two kinds of states are described, those in which nothing is open (`Idle`) and those in
which the text has not ended (`Unended`).
-/

namespace TapeMachine.Yaml.Lexer

variable {l l' : Lexer} {n : Nat}

/-! ## Nothing open -/

/-- No collection is open, and no key is waited for. -/
structure Idle (l : Lexer) : Prop where
  outer : l.outer = []
  candidates : l.candidates = [none]

namespace Idle

theorem dropStale (h : l.Idle) : l.dropStale = .ok l := by
  unfold Lexer.dropStale
  simp only [h.candidates, List.findSome?_cons, List.findSome?_nil, List.map_cons, List.map_nil, Option.filter_none]
  rw [← h.candidates]

theorem closeBlocks (h : l.Idle) (column : Int) : l.closeBlocks column = l := by
  unfold Lexer.closeBlocks
  rw [h.outer]
  split <;> rfl

theorem dropCandidate (h : l.Idle) : l.dropCandidate = .ok l := by
  unfold Lexer.dropCandidate candidate?
  rw [h.candidates]
  rfl

theorem exists_step (h : l.Idle) (hend : front l.skipBlanks.rest = stop) :
    ∃ l' m, l.step = .ok l' ∧ l'.emitted = ⟨.streamEnd, m⟩ :: l.emitted := by
  have hskip : l.skipBlanks.Idle := ⟨h.outer, h.candidates⟩
  have hbreak : l.skipBlanks.breakAtEnd.Idle := ⟨h.outer, h.candidates⟩
  obtain ⟨l', m, hlex, hidle, hemitted⟩ : ∃ l' m, l.skipBlanks.lexToken = .ok l' ∧ l'.Idle ∧
      l'.emitted = ⟨.streamEnd, m⟩ :: l.emitted := by
    rw [lexToken, hend, if_pos (beq_self_eq_true stop), lexEnd, hbreak.closeBlocks, hbreak.dropCandidate]
    exact ⟨_, _, rfl, ⟨h.outer, h.candidates⟩, rfl⟩
  refine ⟨l', m, ?_, hemitted⟩
  simp only [step, bind_eq_ok_iff]
  exact ⟨_, hskip.dropStale, l', by rwa [hskip.closeBlocks], hidle.dropStale⟩

end Idle

/-! ## Tokens that are there -/

theorem emitted_dropStale (h : l.dropStale = .ok l') : l'.emitted = l.emitted ∧ l'.rest = l.rest := by
  unfold dropStale at h
  dsimp only at h
  split at h
  · cases h
  · cases h
    exact ⟨rfl, rfl⟩

theorem emitted_dropCandidate (h : l.dropCandidate = .ok l') : l'.emitted = l.emitted := by
  unfold dropCandidate at h
  split at h
  · split at h
    · cases h
    · cases h
      rfl
  · cases h
    rfl

theorem emitted_offerCandidate (h : l.offerCandidate = .ok l') : l'.emitted = l.emitted := by
  unfold offerCandidate at h
  split at h
  · simp only [bind_eq_ok_iff, pure_eq_ok_iff] at h
    obtain ⟨l₁, hdrop, rfl⟩ := h
    have hemitted := emitted_dropCandidate hdrop
    exact hemitted
  · cases h
    rfl

theorem rest_closeBlocks (column : Int) (l : Lexer) : (l.closeBlocks column).rest = l.rest := by
  have hfrom : ∀ (m : Mark) (outer : List Int) (l : Lexer), (closeBlocksFrom column m outer l).rest = l.rest := by
    intro m outer
    induction outer with
    | nil => exact fun l => rfl
    | cons i outer ih =>
      intro l
      rw [closeBlocksFrom]
      split
      · exact ih _
      · rfl
  unfold closeBlocks
  split
  · rfl
  · exact hfrom _ _ _

theorem kind_of_readVersion {start : Mark} {gs rest : List Glyph} {kind : TokenKind}
    (h : readVersion start gs = .ok (kind, rest)) : kind ≠ .streamEnd := by
  simp only [readVersion, bind_eq_ok_iff] at h
  obtain ⟨major, -, h⟩ := h
  split at h
  · cases h
  · simp only [bind_eq_ok_iff, pure_eq_ok_iff] at h
    obtain ⟨minor, -, h⟩ := h
    cases h
    exact TokenKind.noConfusion

theorem kind_of_readTagPrefix {start : Mark} {gs rest : List Glyph} {kind : TokenKind}
    (h : readTagPrefix start gs = .ok (kind, rest)) : kind ≠ .streamEnd := by
  simp only [readTagPrefix, bind_eq_ok_iff] at h
  obtain ⟨handle, -, h⟩ := h
  split at h
  · cases h
  · rw [bind_eq_ok_iff] at h
    obtain ⟨octets, -, h⟩ := h
    split at h
    · cases h
      exact TokenKind.noConfusion
    · cases h

theorem kind_of_readDirective {gs rest : List Glyph} {kind : TokenKind}
    (h : readDirective gs = .ok (kind, rest)) : kind ≠ .streamEnd := by
  have hfinish : ∀ {x : Except Fault (TokenKind × List Glyph)},
      (x >>= fun p => finishDirective (markOf gs) p.2 >>= fun rest => pure (p.1, rest)) = .ok (kind, rest) →
        ∃ rest', x = .ok (kind, rest') := by
    intro x hx
    simp only [bind_eq_ok_iff, pure_eq_ok_iff] at hx
    obtain ⟨⟨kind', rest'⟩, hx, _, -, hkind⟩ := hx
    cases hkind
    exact ⟨rest', hx⟩
  unfold readDirective at h
  simp only at h
  split at h
  · cases h
  · split at h
    · cases h
    · split at h
      · obtain ⟨rest', h⟩ := hfinish h
        exact kind_of_readVersion h
      · split at h
        · obtain ⟨rest', h⟩ := hfinish h
          exact kind_of_readTagPrefix h
        · cases h

/-! ## No end yet -/

/-- There are `n` tokens or more, and none of them ends the text. -/
structure Unended (n : Nat) (l : Lexer) : Prop where
  length : n ≤ l.emitted.length
  kind : ∀ t ∈ l.emitted, t.kind ≠ .streamEnd

namespace Unended

theorem of_emitted (h : l.Unended n) (heq : l'.emitted = l.emitted) : l'.Unended n where
  length := heq ▸ h.length
  kind := heq ▸ h.kind

theorem of_succ (h : l.Unended (n + 1)) : l.Unended n := ⟨Nat.le_of_succ_le h.length, h.kind⟩

theorem emit (h : l.Unended n) (kind : TokenKind) (hkind : kind ≠ .streamEnd) (m : Mark) :
    (l.emit kind m).Unended (n + 1) where
  length := Nat.succ_le_succ h.length
  kind t ht := by
    rcases List.mem_cons.1 ht with rfl | ht
    · exact hkind
    · exact h.kind t ht

theorem insertAt (h : l.Unended n) (kind : TokenKind) (hkind : kind ≠ .streamEnd) (number : Nat) (m : Mark) :
    (l.insertAt number kind m).Unended (n + 1) where
  length := by
    have hlength := h.length
    simp only [Lexer.insertAt, List.length_append, List.length_take, List.length_cons, List.length_drop]
    omega
  kind t ht := by
    rcases List.mem_append.1 ht with ht | ht
    · exact h.kind t (List.mem_of_mem_take ht)
    · rcases List.mem_cons.1 ht with rfl | ht
      · exact hkind
      · exact h.kind t (List.mem_of_mem_drop ht)

theorem openBlock (h : l.Unended n) (kind : TokenKind) (hkind : kind ≠ .streamEnd) (column : Int)
    (number : Nat) (m : Mark) : (l.openBlock column number kind m).Unended n := by
  unfold Lexer.openBlock
  split
  · exact of_emitted (h.insertAt kind hkind number m).of_succ rfl
  · exact h

theorem closeBlocks (h : l.Unended n) (column : Int) : (l.closeBlocks column).Unended n := by
  have hfrom : ∀ (m : Mark) (outer : List Int) (l : Lexer), l.Unended n →
      (closeBlocksFrom column m outer l).Unended n := by
    intro m outer
    induction outer with
    | nil => exact fun l h => h
    | cons i outer ih =>
      intro l h
      rw [closeBlocksFrom]
      split
      · exact ih _ (of_emitted (h.emit .blockEnd (by decide) m).of_succ rfl)
      · exact h
  unfold Lexer.closeBlocks
  split
  · exact h
  · exact hfrom _ _ _ h

theorem dropCandidate (h : l.Unended n) (hl : l.dropCandidate = .ok l') : l'.Unended n :=
  h.of_emitted (emitted_dropCandidate hl)

theorem offerCandidate (h : l.Unended n) (hl : l.offerCandidate = .ok l') : l'.Unended n :=
  h.of_emitted (emitted_offerCandidate hl)

theorem leaveDocument (h : l.Unended n) (hl : l.leaveDocument = .ok l') : l'.Unended n := by
  simp only [Lexer.leaveDocument, bind_eq_ok_iff, pure_eq_ok_iff] at hl
  obtain ⟨_, hdrop, rfl⟩ := hl
  exact ((h.closeBlocks (-1)).dropCandidate hdrop).of_emitted rfl

/-! ### One token -/

theorem punctuate (h : l.Unended n) (kind : TokenKind) (hkind : kind ≠ .streamEnd) (k : Nat) :
    (l.punctuate kind k).Unended (n + 1) :=
  of_emitted (h.emit kind hkind l.mark) rfl

theorem lexDirective (h : l.Unended n) (hl : l.lexDirective = .ok l') : l'.Unended (n + 1) := by
  simp only [Lexer.lexDirective, bind_eq_ok_iff, pure_eq_ok_iff] at hl
  obtain ⟨l₁, hleave, ⟨kind, rest⟩, hread, rfl⟩ := hl
  exact of_emitted ((h.leaveDocument hleave).emit kind (kind_of_readDirective hread) l₁.mark) rfl

theorem lexRule (h : l.Unended n) {kind : TokenKind} (hkind : kind ≠ .streamEnd)
    (hl : l.lexRule kind = .ok l') : l'.Unended (n + 1) := by
  simp only [Lexer.lexRule, bind_eq_ok_iff, pure_eq_ok_iff] at hl
  obtain ⟨l₁, hleave, rfl⟩ := hl
  exact (h.leaveDocument hleave).punctuate kind hkind 3

theorem lexFlowStart (h : l.Unended n) {kind : TokenKind} (hkind : kind ≠ .streamEnd)
    (hl : l.lexFlowStart kind = .ok l') : l'.Unended (n + 1) := by
  simp only [Lexer.lexFlowStart, bind_eq_ok_iff, pure_eq_ok_iff] at hl
  obtain ⟨l₁, hoffer, rfl⟩ := hl
  exact of_emitted ((h.offerCandidate hoffer).punctuate kind hkind 1) rfl

theorem lexFlowEnd (h : l.Unended n) {kind : TokenKind} (hkind : kind ≠ .streamEnd)
    (hl : l.lexFlowEnd kind = .ok l') : l'.Unended (n + 1) := by
  simp only [Lexer.lexFlowEnd, bind_eq_ok_iff, pure_eq_ok_iff] at hl
  obtain ⟨l₁, hdrop, rfl⟩ := hl
  exact of_emitted ((h.dropCandidate hdrop).punctuate kind hkind 1) rfl

theorem lexFlowEntry (h : l.Unended n) (hl : l.lexFlowEntry = .ok l') : l'.Unended (n + 1) := by
  simp only [Lexer.lexFlowEntry, bind_eq_ok_iff, pure_eq_ok_iff] at hl
  obtain ⟨l₁, hdrop, rfl⟩ := hl
  exact of_emitted ((h.dropCandidate hdrop).punctuate .flowEntry (by decide) 1) rfl

theorem lexBlockEntry (h : l.Unended n) (hl : l.lexBlockEntry = .ok l') : l'.Unended (n + 1) := by
  unfold Lexer.lexBlockEntry at hl
  split at hl
  · cases hl
  · simp only [bind_eq_ok_iff, pure_eq_ok_iff] at hl
    obtain ⟨l₁, hdrop, rfl⟩ := hl
    have hopen := h.openBlock .blockSequenceStart (by decide) l.column l.count l.mark
    exact of_emitted ((hopen.dropCandidate hdrop).punctuate .blockEntry (by decide) 1) rfl

theorem lexKey (h : l.Unended n) (hl : l.lexKey = .ok l') : l'.Unended (n + 1) := by
  unfold Lexer.lexKey at hl
  split at hl
  · cases hl
  · simp only [bind_eq_ok_iff, pure_eq_ok_iff] at hl
    obtain ⟨l₁, hdrop, rfl⟩ := hl
    have hopen := h.openBlock .blockMappingStart (by decide) l.column l.count l.mark
    exact of_emitted ((hopen.dropCandidate hdrop).punctuate .key (by decide) 1) rfl

theorem lexValue (h : l.Unended n) (hl : l.lexValue = .ok l') : l'.Unended (n + 1) := by
  unfold Lexer.lexValue at hl
  split at hl
  · rename_i c _
    cases hl
    have hkey := (h.insertAt .key (by decide) c.number c.mark).of_succ
    have hopen := hkey.openBlock .blockMappingStart (by decide) c.mark.column c.number c.mark
    exact of_emitted (Unended.punctuate (of_emitted hopen rfl) .value (by decide) 1) rfl
  · split at hl
    · cases hl
    · cases hl
      have hopen := h.openBlock .blockMappingStart (by decide) l.column l.count l.mark
      exact of_emitted (hopen.punctuate .value (by decide) 1) rfl

theorem lexName (h : l.Unended n) {construct : Construct} {kind : String → TokenKind}
    (hkind : ∀ name, kind name ≠ .streamEnd) (hl : l.lexName construct kind = .ok l') :
    l'.Unended (n + 1) := by
  simp only [Lexer.lexName, bind_eq_ok_iff, pure_eq_ok_iff] at hl
  obtain ⟨l₁, hoffer, ⟨name, rest⟩, -, rfl⟩ := hl
  exact of_emitted ((h.offerCandidate hoffer).emit (kind name) (hkind name) l₁.mark) rfl

theorem lexTag (h : l.Unended n) (hl : l.lexTag = .ok l') : l'.Unended (n + 1) := by
  simp only [Lexer.lexTag, bind_eq_ok_iff, pure_eq_ok_iff] at hl
  obtain ⟨l₁, hoffer, ⟨name, rest⟩, -, rfl⟩ := hl
  exact of_emitted ((h.offerCandidate hoffer).emit (.tag name) TokenKind.noConfusion l₁.mark) rfl

theorem lexBlockScalar (h : l.Unended n) (hl : l.lexBlockScalar = .ok l') : l'.Unended (n + 1) := by
  simp only [Lexer.lexBlockScalar, bind_eq_ok_iff, pure_eq_ok_iff] at hl
  obtain ⟨l₁, hdrop, ⟨text, rest⟩, -, rfl⟩ := hl
  exact of_emitted ((h.dropCandidate hdrop).emit (.scalar _ _) TokenKind.noConfusion l₁.mark) rfl

theorem lexQuoted (h : l.Unended n) (hl : l.lexQuoted = .ok l') : l'.Unended (n + 1) := by
  simp only [Lexer.lexQuoted, bind_eq_ok_iff, pure_eq_ok_iff] at hl
  obtain ⟨l₁, hoffer, ⟨text, rest⟩, -, rfl⟩ := hl
  exact of_emitted ((h.offerCandidate hoffer).emit (.scalar _ _) TokenKind.noConfusion l₁.mark) rfl

theorem lexPlain (h : l.Unended n) (hl : l.lexPlain = .ok l') : l'.Unended (n + 1) := by
  simp only [Lexer.lexPlain, bind_eq_ok_iff, pure_eq_ok_iff] at hl
  obtain ⟨l₁, hoffer, ⟨⟨text, broken⟩, rest⟩, -, rfl⟩ := hl
  exact of_emitted ((h.offerCandidate hoffer).emit (.scalar _ _) TokenKind.noConfusion l₁.mark) rfl

theorem lexToken (h : l.Unended n) (hfront : front l.rest ≠ stop) (hl : l.lexToken = .ok l') :
    l'.Unended (n + 1) := by
  have hcases : ∀ {p : Prop} [Decidable p] {x y : Except Fault Lexer}, (x = .ok l' → l'.Unended (n + 1)) →
      (y = .ok l' → l'.Unended (n + 1)) → (if p then x else y) = .ok l' → l'.Unended (n + 1) := by
    intro p _ x y hx hy
    split
    · exact hx
    · exact hy
  rw [Lexer.lexToken, if_neg (beq_iff_eq.not.2 hfront)] at hl
  revert hl
  refine hcases h.lexDirective ?_
  refine hcases (h.lexRule (by decide)) ?_
  refine hcases (h.lexRule (by decide)) ?_
  refine hcases (h.lexFlowStart (by decide)) ?_
  refine hcases (h.lexFlowStart (by decide)) ?_
  refine hcases (h.lexFlowEnd (by decide)) ?_
  refine hcases (h.lexFlowEnd (by decide)) ?_
  refine hcases h.lexFlowEntry ?_
  refine hcases h.lexBlockEntry ?_
  refine hcases h.lexKey ?_
  refine hcases h.lexValue ?_
  refine hcases (h.lexName fun _ => TokenKind.noConfusion) ?_
  refine hcases (h.lexName fun _ => TokenKind.noConfusion) ?_
  refine hcases h.lexTag ?_
  refine hcases h.lexBlockScalar ?_
  refine hcases h.lexQuoted ?_
  refine hcases h.lexPlain ?_
  exact nofun

theorem step (h : l.Unended n) (hfront : front l.skipBlanks.rest ≠ stop) (hl : l.step = .ok l') :
    l'.Unended (n + 1) := by
  simp only [Lexer.step, bind_eq_ok_iff] at hl
  obtain ⟨l₁, hstale, l₂, hlex, hstale'⟩ := hl
  obtain ⟨hemitted, hrest⟩ := emitted_dropStale hstale
  have hbefore : (l₁.closeBlocks l₁.column).Unended n := (h.of_emitted hemitted).closeBlocks l₁.column
  refine (hbefore.lexToken ?_ hlex).of_emitted (emitted_dropStale hstale').1
  rwa [rest_closeBlocks, hrest]

/-- At the end of the text a step adds the token for it, perhaps after others. -/
theorem step_end (h : l.Unended n) (hfront : front l.skipBlanks.rest = stop) (hl : l.step = .ok l') :
    ∃ (l₁ : Lexer) (m : Mark), l₁.Unended n ∧ l'.emitted = ⟨.streamEnd, m⟩ :: l₁.emitted := by
  simp only [Lexer.step, bind_eq_ok_iff] at hl
  obtain ⟨l₁, hstale, l₂, hlex, hstale'⟩ := hl
  obtain ⟨hemitted, hrest⟩ := emitted_dropStale hstale
  have hbefore : (l₁.closeBlocks l₁.column).Unended n := (h.of_emitted hemitted).closeBlocks l₁.column
  have hfront' : (front (l₁.closeBlocks l₁.column).rest == stop) = true := by
    rw [rest_closeBlocks, hrest, beq_iff_eq]
    exact hfront
  rw [Lexer.lexToken, if_pos hfront'] at hlex
  simp only [lexEnd, bind_eq_ok_iff, pure_eq_ok_iff] at hlex
  obtain ⟨l₃, hdrop, rfl⟩ := hlex
  have hbreak : (l₁.closeBlocks l₁.column).breakAtEnd.Unended n := hbefore.of_emitted rfl
  exact ⟨l₃, l₃.mark, (hbreak.closeBlocks (-1)).dropCandidate hdrop, (emitted_dropStale hstale').1⟩

end Unended

end TapeMachine.Yaml.Lexer
