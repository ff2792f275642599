import TapeMachine.Proofs.Failure
import TapeMachine.Proofs.Yaml.Keys

/-!
# Where a refusal comes from

A document that is refused for what it says is refused because of one of its nodes: a scalar that is not read,
or a mapping with a key that comes twice.  The place in the error is the place of that node.  References lead
to nodes of the same tree, so nothing outside it has to be considered.
-/

namespace TapeMachine.Yaml

/-! ## Nodes of a tree -/

/-- The node stands in the tree of the other, or is it. -/
inductive Node.Within (inner : Node) : Node → Prop
  | refl : Within inner inner
  | item {mark properties kind items node} : node ∈ items → Within inner node →
      Within inner (.collection mark properties kind items)

theorem Node.Within.of_item {node root : Node} {mark properties kind items}
    (h : (Node.collection mark properties kind items).Within root) (hnode : node ∈ items) : node.Within root := by
  induction h with
  | refl => exact .item hnode .refl
  | item hmem _ ih => exact .item hmem ih

mutual

theorem Node.within_of_mem_numbered : ∀ (root : Node) (x : Nat × Node), x ∈ root.numbered → x.2.Within root
  | .collection mark properties kind items, x, hx => by
    have hinner : x ∈ Node.numberedAll items → x.2.Within (.collection mark properties kind items) := by
      intro hx
      obtain ⟨node, hnode, hwithin⟩ := Node.within_of_mem_numberedAll items x hx
      exact .item hnode hwithin
    rw [Node.numbered] at hx
    cases hnumber : properties.number with
    | none =>
      rw [hnumber] at hx
      exact hinner hx
    | some n =>
      rw [hnumber] at hx
      rcases List.mem_cons.1 hx with rfl | hx
      · exact .refl
      · exact hinner hx
  | .scalar mark properties style text, x, hx => by
    rw [Node.numbered] at hx
    cases hnumber : properties.number with
    | none =>
      rw [hnumber] at hx
      cases hx
    | some n =>
      rw [hnumber] at hx
      rw [List.mem_singleton.1 hx]
      exact .refl
  | .reference _ _, _, hx => by cases hx
  | .broken _, _, hx => by cases hx

theorem Node.within_of_mem_numberedAll : ∀ (nodes : List Node) (x : Nat × Node), x ∈ Node.numberedAll nodes →
    ∃ node ∈ nodes, x.2.Within node
  | [], _, hx => by cases hx
  | node :: nodes, x, hx => by
    rcases List.mem_append.1 hx with hx | hx
    · exact ⟨node, List.mem_cons_self, Node.within_of_mem_numbered node x hx⟩
    · obtain ⟨other, hother, hwithin⟩ := Node.within_of_mem_numberedAll nodes x hx
      exact ⟨other, List.mem_cons_of_mem _ hother, hwithin⟩

end

/-- The node is one of the document. -/
def Document.Has (d : Document) (node : Node) : Prop := ∃ root, d.root = some root ∧ node.Within root

theorem Document.Has.of_item {d : Document} {node : Node} {mark properties kind items}
    (h : d.Has (.collection mark properties kind items)) (hnode : node ∈ items) : d.Has node := by
  obtain ⟨root, hroot, hwithin⟩ := h
  exact ⟨root, hroot, hwithin.of_item hnode⟩

theorem Document.has_of_mem_targets {d : Document} {x : Nat × Node} (hx : x ∈ d.targets) : d.Has x.2 := by
  rw [Document.targets, List.mem_reverse] at hx
  cases hroot : d.root with
  | none =>
    rw [hroot] at hx
    cases hx
  | some root =>
    rw [hroot] at hx
    exact ⟨root, hroot, Node.within_of_mem_numbered root x hx⟩

/-! ## Scalars that are not read -/

theorem intOfText?_of_resolveInteger? {s : String} {i : Int} (h : resolveInteger? s = some (.tooWide i)) :
    intOfText? s.toList = some i ∧ isNarrow i = false := by
  obtain ⟨j, hj, h⟩ := Option.bind_eq_some_iff.1 h
  by_cases hnarrow : isNarrow j = true
  · rw [if_pos hnarrow] at h
    cases h
  · rw [if_neg hnarrow] at h
    by_cases hwide : isWide j = true
    · rw [if_pos hwide] at h
      cases h
      exact ⟨hj, Bool.not_eq_true _ ▸ hnarrow⟩
    · rw [if_neg hwide] at h
      cases h

theorem resolveInteger?_of_resolvePlain {s : String} {i : Int} (h : resolvePlain s = .tooWide i) :
    resolveInteger? s = some (.tooWide i) := by
  unfold resolvePlain at h
  split at h
  · cases h
  · split at h
    · cases h
    · split at h
      · rename_i hr
        rw [hr, h]
      · split at h <;> cases h

/-- Why a scalar is refused: it writes an integer that no value can hold, without quotes or under the tag of
integers, or it does not have the form that its tag asks for. -/
inductive Refused (tag : Option Tag) (style : Style) (s : String) : Refusal → Prop
  | tooWide {i : Int} : intOfText? s.toList = some i → isNarrow i = false →
      style = .plain ∨ tag = some .integer → Refused tag style s (.tooWide i)
  | notOfTag {expected : String} : expected ∈ ["a boolean", "an integer", "a float", "null"] →
      Refused tag style s (.notOfTag s expected)

theorem tooWide_of_toValue {r : Resolved} {refusal : Refusal} (h : r.toValue = .error refusal) :
    ∃ i, r = .tooWide i ∧ refusal = .tooWide i := by
  cases r with
  | value v => cases h
  | tooWide i =>
    cases h
    exact ⟨i, rfl, rfl⟩

theorem refused_of_readUntagged {tag : Option Tag} {style : Style} {s : String} {refusal : Refusal}
    (h : readUntagged style s = .error refusal) : Refused tag style s refusal := by
  cases style with
  | quoted => cases h
  | plain =>
    obtain ⟨i, hi, rfl⟩ := tooWide_of_toValue h
    obtain ⟨hint, hwide⟩ := intOfText?_of_resolveInteger? (resolveInteger?_of_resolvePlain hi)
    exact .tooWide hint hwide (.inl rfl)

theorem refused_of_readTagged {tag : Tag} {style : Style} {s : String} {refusal : Refusal}
    (h : readTagged s tag = .error refusal) : Refused (some tag) style s refusal := by
  cases tag with
  | bool =>
    rw [readTagged] at h
    cases hb : boolOfText? s with
    | some b =>
      rw [hb] at h
      cases h
    | none =>
      rw [hb] at h
      cases h
      exact .notOfTag (by decide)
  | integer =>
    rw [readTagged] at h
    cases hr : resolveInteger? s with
    | some r =>
      rw [hr] at h
      obtain ⟨i, rfl, rfl⟩ := tooWide_of_toValue h
      obtain ⟨hint, hwide⟩ := intOfText?_of_resolveInteger? hr
      exact .tooWide hint hwide (.inr rfl)
    | none =>
      rw [hr] at h
      cases h
      exact .notOfTag (by decide)
  | float =>
    rw [readTagged] at h
    cases hx : floatOfText? s.toList with
    | some x =>
      rw [hx] at h
      cases h
    | none =>
      rw [hx] at h
      cases h
      exact .notOfTag (by decide)
  | null =>
    rw [readTagged] at h
    by_cases hn : isNullText s = true
    · rw [if_pos hn] at h
      cases h
    · rw [if_neg hn] at h
      cases h
      exact .notOfTag (by decide)
  | text => cases h
  | ofDocument name => cases h
  | unreadable => cases h

theorem refused_of_readScalar {tag : Option Tag} {style : Style} {s : String} {refusal : Refusal}
    (h : readScalar tag style s = .error refusal) : Refused tag style s refusal := by
  cases tag with
  | none => exact refused_of_readUntagged h
  | some tag =>
    cases tag with
    | unreadable => exact refused_of_readUntagged h
    | ofDocument name =>
      rw [readScalar] at h
      cases hu : readUntagged style s with
      | ok v =>
        rw [hu] at h
        cases h
      | error refusal' =>
        rw [hu] at h
        cases h
        exact refused_of_readUntagged hu
    | bool => exact refused_of_readTagged h
    | integer => exact refused_of_readTagged h
    | float => exact refused_of_readTagged h
    | null => exact refused_of_readTagged h
    | text => exact refused_of_readTagged h

/-! ## Refusals of a document -/

/-- A refusal is that of a node of the document, and its place is the place of the node. -/
inductive ReadError.CausedIn (d : Document) : ReadError → Prop
  | scalar {mark properties style text refusal path} : d.Has (.scalar mark properties style text) →
      Refused (properties.tag.map Tag.ofOctets) style text refusal → CausedIn d (.content refusal mark path)
  | mapping {mark properties items key path} : d.Has (.collection mark properties .mapping items) →
      CausedIn d (.content (.repeatedKey key) mark path)
  | form {fault} : CausedIn d (.form fault)
  | tooManyReferences : CausedIn d .tooManyReferences
  | severalDocuments : CausedIn d .severalDocuments

namespace Interpreter

variable {α β : Type} {P : ReadError → Prop} {Q : α → Prop}

/-- Whatever goes wrong satisfies `P`. -/
def Fails (x : Interpreter α) (P : ReadError → Prop) : Prop := ∀ count, FailsWith P (x.run count)

theorem fails_pure {a : α} : Fails (pure a) P := fun _ => trivial

theorem fails_throw {e : ReadError} (h : P e) : Fails (throw e : Interpreter α) P := fun _ => h

theorem fails_bind {x : Interpreter α} {f : α → Interpreter β} (hx : Fails x P) (hyields : Yields x Q)
    (hf : ∀ a, Q a → Fails (f a) P) : Fails (x >>= f) P := by
  intro count
  rw [StateT.run_bind]
  cases hrun : x.run count with
  | ok r =>
    obtain ⟨a, next⟩ := r
    exact hf a (hyields count a next hrun) next
  | error e =>
    have hfails := hx count
    rw [hrun] at hfails
    exact hfails

theorem fails_of_bind {x : Interpreter α} {f : α → Interpreter β} (hx : Fails x P)
    (hf : ∀ a, Fails (f a) P) : Fails (x >>= f) P :=
  fails_bind (Q := fun _ => True) hx (fun _ _ _ _ => trivial) fun a _ => hf a

theorem fails_map {x : Interpreter α} {f : α → β} (hx : Fails x P) : Fails (f <$> x) P := by
  rw [map_eq_pure_bind]
  exact fails_of_bind hx fun _ => fails_pure

section Level

variable {d : Document} {read : Path → Node → Interpreter Value}
  (hread : ∀ path node, d.Has node → Fails (read path node) (ReadError.CausedIn d))

include hread

theorem fails_items (path : Path) (i : Nat) (nodes : List Node) (hnodes : ∀ node ∈ nodes, d.Has node) :
    Fails (items read path i nodes) (ReadError.CausedIn d) := by
  induction nodes generalizing i with
  | nil => exact fails_pure
  | cons node nodes ih =>
    obtain ⟨hnode, hnodes⟩ := List.forall_mem_cons.1 hnodes
    exact fails_of_bind (hread _ node hnode) fun v => fails_of_bind (ih (i + 1) hnodes) fun vs => fails_pure

theorem fails_entries {mark : Mark} {properties : Properties} {all : List Node}
    (hmapping : d.Has (.collection mark properties .mapping all)) (path : Path)
    (before : List (Value × Value)) (nodes : List Node) (hnodes : ∀ node ∈ nodes, d.Has node) :
    Fails (entries read mark path before nodes) (ReadError.CausedIn d) := by
  fun_induction entries read mark path before nodes with
  | case1 before => exact fails_pure
  | case2 before node =>
    exact fails_of_bind (fails_map (hread path node (hnodes node List.mem_cons_self))) fun _ => fails_pure
  | case3 before node next nodes ih =>
    obtain ⟨hnode, hnodes⟩ := List.forall_mem_cons.1 hnodes
    obtain ⟨hnext, hnodes⟩ := List.forall_mem_cons.1 hnodes
    refine fails_of_bind (hread path node hnode) fun key => ?_
    cases before.find? (·.1.same key) with
    | some known => exact fails_throw (.mapping hmapping)
    | none => exact fails_of_bind (hread _ next hnext) fun v => ih key v hnodes

end Level

section References

variable {refs : References} {d : Document} (hrefs : ∀ x ∈ refs.targets, d.Has x.2)

include hrefs

/-- The target of a reference is a node of the tree as well. -/
theorem yields_follow (path : Path) {node : Node} (hnode : d.Has node) :
    Yields (follow refs path node) fun x => d.Has x.2 := by
  cases node with
  | scalar mark properties style text => exact yields_pure hnode
  | collection mark properties kind items => exact yields_pure hnode
  | broken fault => exact yields_pure hnode
  | reference mark number =>
    unfold follow
    refine yields_of_bind fun count => ?_
    by_cases hlimit : count + 1 > refs.limit
    · simp only [if_pos hlimit]
      exact yields_bind (P := fun _ => False) yields_throw fun _ h => h.elim
    · simp only [if_neg hlimit]
      refine yields_of_bind fun _ => ?_
      cases hlookup : refs.targets.lookup number with
      | none => exact yields_throw
      | some target =>
        obtain ⟨l₁, l₂, hmem, -⟩ := List.lookup_eq_some_iff.1 hlookup
        refine yields_pure (hrefs (number, target) ?_)
        rw [hmem]
        exact List.mem_append_right _ List.mem_cons_self

omit hrefs in
theorem fails_follow (path : Path) (node : Node) :
    Fails (follow refs path node) (ReadError.CausedIn d) := by
  cases node with
  | scalar mark properties style text => exact fails_pure
  | collection mark properties kind items => exact fails_pure
  | broken fault => exact fails_pure
  | reference mark number =>
    unfold follow
    refine fails_of_bind (fun _ => trivial) fun count => ?_
    by_cases hlimit : count + 1 > refs.limit
    · simp only [if_pos hlimit]
      exact fails_bind (Q := fun _ => False) (fails_throw .tooManyReferences) yields_throw fun _ h => h.elim
    · simp only [if_neg hlimit]
      refine fails_of_bind (fun _ => trivial) fun _ => ?_
      cases refs.targets.lookup number with
      | none => exact fails_throw .form
      | some target => exact fails_pure

/-- One level of the interpretation, given the level below where there is one. -/
theorem fails_interpret_of {depth : Nat}
    (hbelow : ∀ below, depth = below + 1 → ∀ path node, d.Has node →
      Fails (interpret refs below path node) (ReadError.CausedIn d))
    (path : Path) (node : Node) (hnode : d.Has node) :
    Fails (interpret refs depth path node) (ReadError.CausedIn d) := by
  unfold interpret
  refine fails_bind (fails_follow path node) (yields_follow hrefs path hnode) fun x hx => ?_
  obtain ⟨path, node⟩ := x
  cases node with
  | scalar mark properties style text =>
    dsimp only
    cases hv : readScalar (properties.tag.map Tag.ofOctets) style text with
    | ok v => exact fails_pure
    | error refusal => exact fails_throw (.scalar hx (refused_of_readScalar hv))
  | reference mark number => exact fails_throw .form
  | broken fault => exact fails_throw .form
  | collection mark properties kind items =>
    cases depth with
    | zero => exact fails_throw .form
    | succ depth =>
      have hread := hbelow depth rfl
      have hitems : ∀ node ∈ items, d.Has node := fun node hmem => hx.of_item hmem
      cases kind with
      | sequence => exact fails_of_bind (fails_map (fails_items hread path 0 items hitems)) fun _ => fails_pure
      | mapping =>
        exact fails_of_bind (fails_map (fails_entries hread hx path [] items hitems)) fun _ => fails_pure

theorem fails_interpret (depth : Nat) (path : Path) (node : Node) (hnode : d.Has node) :
    Fails (interpret refs depth path node) (ReadError.CausedIn d) := by
  induction depth generalizing path node with
  | zero => exact fails_interpret_of hrefs (fun below hb => absurd hb.symm (Nat.succ_ne_zero below)) path node hnode
  | succ depth ih =>
    refine fails_interpret_of hrefs (fun below hb => ?_) path node hnode
    rw [← Nat.succ.inj hb]
    exact ih

end References

end Interpreter

/-! ## Documents -/

theorem Document.failsWith_value (d : Document) : FailsWith (ReadError.CausedIn d) d.value := by
  have hrefs : ∀ x ∈ d.targets, d.Has x.2 := fun x hx => has_of_mem_targets hx
  have hread : ∀ root, d.root = some root → FailsWith (ReadError.CausedIn d)
      (((Interpreter.interpret ⟨d.targets, referencesPerNode * d.size⟩ maxDepth [] root).run 0).map Prod.fst) := by
    intro root hroot
    exact (Interpreter.fails_interpret hrefs maxDepth [] root ⟨root, hroot, .refl⟩ 0).map
  unfold Document.value
  cases hfault : d.fault with
  | some fault =>
    cases hroot : d.root with
    | none => exact .form
    | some root => exact (hread root hroot).bind fun _ => .form
  | none =>
    by_cases hcontinued : d.continued = true
    · simp only [if_pos hcontinued]
      cases hroot : d.root with
      | none => exact .severalDocuments
      | some root => exact (hread root hroot).bind fun _ => .severalDocuments
    · simp only [if_neg hcontinued]
      cases hroot : d.root with
      | none => trivial
      | some root => exact (hread root hroot).bind fun _ => trivial

theorem causedIn_of_read {text : List Char} {e : ReadError} (h : read text = .error e) :
    e.CausedIn (Document.ofTokens (tokenize text)) :=
  failsWith_iff.1 (Document.failsWith_value _) e h

end TapeMachine.Yaml
