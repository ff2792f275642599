import TapeMachine.Proofs.Success
import TapeMachine.Yaml.Reading

/-!
# Places in a document

A place is what remains of a tree when one node of it is left out: the mappings around the node, with their
other nodes.  Where a document is read, the value has a place that corresponds to it, and what is read at the
place does not depend on the rest: another node there gives the same value but for that place, and a node
that is refused there is refused in the document.
-/

namespace TapeMachine.Yaml

/-- An entry of a mapping with its key or its value left out. -/
inductive Slot (α : Type) where
  | key (value : α)
  | value (key : α)

def Slot.entry {α : Type} : Slot α → α → α × α
  | .key v, a => (a, v)
  | .value k, a => (k, a)

/-! ## Places among nodes -/

/-- A mapping around a node; `after` are the keys and values of the entries that follow. -/
structure Frame where
  mark : Mark
  properties : Properties
  before : List (Node × Node)
  slot : Slot Node
  after : List Node

/-- The keys and values in turn. -/
def nodesOf (entries : List (Node × Node)) : List Node := entries.flatMap fun e => [e.1, e.2]

namespace Frame

def nodes (f : Frame) (node : Node) : List Node :=
  nodesOf f.before ++ (f.slot.entry node).1 :: (f.slot.entry node).2 :: f.after

def fill (f : Frame) (node : Node) : Node := .collection f.mark f.properties .mapping (f.nodes node)

/-- The step to the node, if it is a value. -/
def steps (f : Frame) : Path :=
  match f.slot with
  | .key _ => []
  | .value key => [Interpreter.stepOf key]

end Frame

/-- The mappings around a node, the outermost first. -/
abbrev Place := List Frame

namespace Place

def fill (place : Place) (node : Node) : Node := place.foldr Frame.fill node

def path : Place → Path
  | [] => []
  | f :: place => path place ++ f.steps

end Place

/-! ## Places in a value -/

/-- A mapping around a value, perhaps under a tag. -/
structure Hole where
  tag : Option String
  before : List (Value × Value)
  slot : Slot Value
  after : List (Value × Value)

/-- The value under the tag of a collection. -/
def tagAs (tag : Option String) (v : Value) : Value :=
  match tag with
  | some name => .tagged name v
  | none => v

/-- The tag that the value of a collection gets. -/
def Properties.name? (p : Properties) : Option String :=
  match p.tag.map Tag.ofOctets with
  | some (.ofDocument name) => some name
  | _ => none

namespace Hole

def entries (h : Hole) (v : Value) : List (Value × Value) := h.before ++ h.slot.entry v :: h.after

def fill (h : Hole) (v : Value) : Value := tagAs h.tag (.mapping (h.entries v))

/-- No other key of the mapping is the same as the value, if this is a key. -/
def Fits (h : Hole) (v : Value) : Prop :=
  match h.slot with
  | .key _ => (∀ e ∈ h.before, e.1.same v = false) ∧ ∀ e ∈ h.after, v.same e.1 = false
  | .value _ => True

end Hole

def fillAll (holes : List Hole) (v : Value) : Value := holes.foldr Hole.fill v

def FitsAll : List Hole → Value → Prop
  | [], _ => True
  | h :: holes, v => h.Fits (fillAll holes v) ∧ FitsAll holes v

namespace Interpreter

/-! ## Runs -/

section Runs
variable {α β : Type} {x : Interpreter α} {f : α → Interpreter β} {n n' : Nat}

theorem run_bind_eq_ok_iff {b : β} :
    (x >>= f).run n = .ok (b, n') ↔ ∃ a k, x.run n = .ok (a, k) ∧ (f a).run k = .ok (b, n') := by
  rw [StateT.run_bind, bind_eq_ok_iff]
  exact ⟨fun ⟨⟨a, k⟩, h⟩ => ⟨a, k, h⟩, fun ⟨a, k, h⟩ => ⟨⟨a, k⟩, h⟩⟩

theorem run_bind_of_ok {a : α} {k : Nat} (h : x.run n = .ok (a, k)) : (x >>= f).run n = (f a).run k := by
  rw [StateT.run_bind, h]
  rfl

theorem run_bind_of_error {e : ReadError} (h : x.run n = .error e) : (x >>= f).run n = .error e := by
  rw [StateT.run_bind, h]
  rfl

theorem run_map_of_ok {g : α → β} {a : α} {k : Nat} (h : x.run n = .ok (a, k)) :
    (g <$> x).run n = .ok (g a, k) := by
  rw [StateT.run_map, h]
  rfl

theorem run_map_of_error {g : α → β} {e : ReadError} (h : x.run n = .error e) :
    (g <$> x).run n = .error e := by
  rw [StateT.run_map, h]
  rfl

theorem run_map_eq_ok_iff {g : α → β} {b : β} :
    (g <$> x).run n = .ok (b, n') ↔ ∃ a, x.run n = .ok (a, n') ∧ b = g a := by
  rw [StateT.run_map, map_eq_ok_iff]
  constructor
  · rintro ⟨⟨a, k⟩, h, hb⟩
    cases hb
    exact ⟨a, h, rfl⟩
  · rintro ⟨a, h, rfl⟩
    exact ⟨(a, n'), h, rfl⟩

theorem run_pure_eq_ok_iff {a b : α} : (pure a : Interpreter α).run n = .ok (b, n') ↔ a = b ∧ n = n' := by
  rw [StateT.run_pure, pure_eq_ok_iff, Prod.mk.injEq]

end Runs

/-! ## Entries -/

section Entries
variable {read : Path → Node → Interpreter Value} {mark : Mark} {path : Path} {n n' : Nat}
  {m : List (Value × Value)} {nodes : List Node}

theorem run_entries_nil_eq_ok_iff {known : List (Value × Value)} :
    (entries read mark path known []).run n = .ok (m, n') ↔ m = known.reverse ∧ n = n' := by
  rw [entries, run_pure_eq_ok_iff, eq_comm]

theorem run_entries_singleton_eq_ok_iff {known : List (Value × Value)} {node : Node} :
    (entries read mark path known [node]).run n = .ok (m, n') ↔
      m = known.reverse ∧ ∃ v, (read path node).run n = .ok (v, n') := by
  rw [entries, run_bind_eq_ok_iff]
  constructor
  · rintro ⟨_, k, hread, hm⟩
    obtain ⟨rfl, rfl⟩ := run_pure_eq_ok_iff.1 hm
    obtain ⟨v, hv, -⟩ := run_map_eq_ok_iff.1 hread
    exact ⟨rfl, v, hv⟩
  · rintro ⟨rfl, v, hv⟩
    exact ⟨_, n', run_map_eq_ok_iff.2 ⟨v, hv, rfl⟩, rfl⟩

theorem run_entries_cons_eq_ok_iff {known : List (Value × Value)} {node next : Node} :
    (entries read mark path known (node :: next :: nodes)).run n = .ok (m, n') ↔
      ∃ key k, (read path node).run n = .ok (key, k) ∧ (∀ e ∈ known, e.1.same key = false) ∧
        ∃ v k', (read (stepOf node :: path) next).run k = .ok (v, k') ∧
          (entries read mark path ((key, v) :: known) nodes).run k' = .ok (m, n') := by
  rw [entries, run_bind_eq_ok_iff]
  refine exists_congr fun key => exists_congr fun k => and_congr_right fun _ => ?_
  have hnew : known.find? (·.1.same key) = none ↔ ∀ e ∈ known, e.1.same key = false := by
    simp [List.find?_eq_none]
  rw [← hnew]
  cases known.find? (·.1.same key) with
  | none =>
    dsimp only
    rw [run_bind_eq_ok_iff, eq_self_iff_true, true_and]
  | some e =>
    refine iff_of_false (fun h => ?_) fun h => ?_
    · cases h
    · cases h.1

/-- What is read after some entries does not depend on them, as long as no key comes twice. -/
theorem run_entries_known {known : List (Value × Value)}
    (h : (entries read mark path known nodes).run n = .ok (m, n')) :
    ∃ es, m = known.reverse ++ es ∧ (∀ e ∈ known, ∀ e' ∈ es, e.1.same e'.1 = false) ∧
      ∀ known' : List (Value × Value), (∀ e ∈ known', ∀ e' ∈ es, e.1.same e'.1 = false) →
        (entries read mark path known' nodes).run n = .ok (known'.reverse ++ es, n') := by
  induction known, nodes using entries.induct generalizing n with
  | case1 known =>
    obtain ⟨rfl, rfl⟩ := run_entries_nil_eq_ok_iff.1 h
    refine ⟨[], (List.append_nil _).symm, fun _ _ => nofun, fun known' _ => ?_⟩
    exact run_entries_nil_eq_ok_iff.2 ⟨List.append_nil _, rfl⟩
  | case2 known node =>
    obtain ⟨rfl, v, hv⟩ := run_entries_singleton_eq_ok_iff.1 h
    refine ⟨[], (List.append_nil _).symm, fun _ _ => nofun, fun known' _ => ?_⟩
    exact run_entries_singleton_eq_ok_iff.2 ⟨List.append_nil _, v, hv⟩
  | case3 known node next nodes ih =>
    obtain ⟨key, k, hkey, hnew, v, k', hv, hrest⟩ := run_entries_cons_eq_ok_iff.1 h
    obtain ⟨es, rfl, hes, hagain⟩ := ih key v hrest
    obtain ⟨hkeys, hknown⟩ := List.forall_mem_cons.1 hes
    refine ⟨(key, v) :: es, by simp, fun e he => ?_, fun known' hknown' => ?_⟩
    · exact List.forall_mem_cons.2 ⟨hnew e he, hknown e he⟩
    · have hnew' : ∀ e ∈ known', e.1.same key = false := fun e he => hknown' e he _ List.mem_cons_self
      have hrest' := hagain ((key, v) :: known') <| List.forall_mem_cons.2
        ⟨hkeys, fun e he e' he' => hknown' e he e' (List.mem_cons_of_mem _ he')⟩
      rw [List.reverse_cons, List.append_assoc, List.singleton_append] at hrest'
      exact run_entries_cons_eq_ok_iff.2 ⟨key, k, hkey, hnew', v, k', hv, hrest'⟩

theorem entries_append {known : List (Value × Value)} (es : List (Node × Node)) :
    entries read mark path known (nodesOf es ++ nodes) =
      entries read mark path known (nodesOf es) >>= fun m => entries read mark path m.reverse nodes := by
  induction es generalizing known with
  | nil => simp [nodesOf, entries]
  | cons e es ih =>
    have hnodes : nodesOf (e :: es) = e.1 :: e.2 :: nodesOf es := rfl
    rw [hnodes, List.cons_append, List.cons_append, entries, entries, bind_assoc]
    refine congrArg _ (funext fun key => ?_)
    cases known.find? (·.1.same key) with
    | none =>
      dsimp only
      rw [bind_assoc]
      exact congrArg _ (funext fun v => ih)
    | some e => rfl

theorem known_append {α : Type} (es es' : List α) (e : α) :
    (e :: es.reverse).reverse ++ es' = es ++ e :: es' := by
  rw [List.reverse_cons, List.reverse_reverse, List.append_assoc, List.singleton_append]

/-- Whether and as what a node is read does not depend on its path. -/
def IgnoresPath (read : Path → Node → Interpreter Value) : Prop :=
  ∀ path path' node n r, (read path node).run n = .ok r → (read path' node).run n = .ok r

theorem run_entries_value {before : List (Node × Node)} {key next : Node}
    (h : (entries read mark path [] (nodesOf before ++ key :: next :: nodes)).run n = .ok (m, n')) :
    ∃ es u k v k' es', (∃ a, (read path key).run a = .ok (u, k)) ∧
      (read (stepOf key :: path) next).run k = .ok (v, k') ∧ m = es ++ (u, v) :: es' ∧
      (∀ next' e, (read (stepOf key :: path) next').run k = .error e →
        (entries read mark path [] (nodesOf before ++ key :: next' :: nodes)).run n = .error e) ∧
      ∀ next' v', (read (stepOf key :: path) next').run k = .ok (v', k') →
        (entries read mark path [] (nodesOf before ++ key :: next' :: nodes)).run n =
          .ok (es ++ (u, v') :: es', n') := by
  rw [entries_append, run_bind_eq_ok_iff] at h
  obtain ⟨es, a, hes, h⟩ := h
  obtain ⟨u, k, hkey, hnew, v, k', hv, hrest⟩ := run_entries_cons_eq_ok_iff.1 h
  obtain ⟨es', rfl, hdiff, hagain⟩ := run_entries_known hrest
  refine ⟨es, u, k, v, k', es', ⟨a, hkey⟩, hv, known_append .., fun next' e he => ?_, fun next' v' hv' => ?_⟩
  · rw [entries_append, run_bind_of_ok hes, entries, run_bind_of_ok hkey]
    have hnone : es.reverse.find? (·.1.same u) = none := by
      simpa [List.find?_eq_none] using hnew
    rw [hnone]
    exact run_bind_of_error he
  · rw [entries_append, run_bind_of_ok hes, ← known_append]
    refine run_entries_cons_eq_ok_iff.2 ⟨u, k, hkey, hnew, v', k', hv', hagain _ ?_⟩
    exact List.forall_mem_cons.2 (List.forall_mem_cons.1 hdiff)

theorem run_entries_key (hread : IgnoresPath read) {before : List (Node × Node)} {node next : Node}
    (h : (entries read mark path [] (nodesOf before ++ node :: next :: nodes)).run n = .ok (m, n')) :
    ∃ es k u k' v es', (read path node).run k = .ok (u, k') ∧ m = es ++ (u, v) :: es' ∧
      (∀ node' e, (read path node').run k = .error e →
        (entries read mark path [] (nodesOf before ++ node' :: next :: nodes)).run n = .error e) ∧
      ∀ node' u', (read path node').run k = .ok (u', k') → (∀ e ∈ es, e.1.same u' = false) →
        (∀ e ∈ es', u'.same e.1 = false) →
        (entries read mark path [] (nodesOf before ++ node' :: next :: nodes)).run n =
          .ok (es ++ (u', v) :: es', n') := by
  rw [entries_append, run_bind_eq_ok_iff] at h
  obtain ⟨es, k, hes, h⟩ := h
  obtain ⟨u, k', hkey, hnew, v, b, hv, hrest⟩ := run_entries_cons_eq_ok_iff.1 h
  obtain ⟨es', rfl, hdiff, hagain⟩ := run_entries_known hrest
  refine ⟨es, k, u, k', v, es', hkey, known_append .., fun node' e he => ?_, fun node' u' hu' hbefore hafter => ?_⟩
  · rw [entries_append, run_bind_of_ok hes, entries]
    exact run_bind_of_error he
  · rw [entries_append, run_bind_of_ok hes, ← known_append]
    refine run_entries_cons_eq_ok_iff.2 ⟨u', k', hu', ?_, v, b, hread _ _ _ _ _ hv, hagain _ ?_⟩
    · exact fun e he => hbefore e (List.mem_reverse.1 he)
    · exact List.forall_mem_cons.2 ⟨hafter, (List.forall_mem_cons.1 hdiff).2⟩

/-! ## Paths -/

theorem run_items_of_path (hread : IgnoresPath read) (path' : Path) {i : Nat} {vs : List Value}
    (h : (items read path i nodes).run n = .ok (vs, n')) :
    (items read path' i nodes).run n = .ok (vs, n') := by
  induction nodes generalizing i n n' vs with
  | nil => exact h
  | cons node nodes ih =>
    rw [items, run_bind_eq_ok_iff] at h ⊢
    obtain ⟨v, k, hv, h⟩ := h
    obtain ⟨vs', k', hvs, h⟩ := run_bind_eq_ok_iff.1 h
    exact ⟨v, k, hread _ _ _ _ _ hv, run_bind_eq_ok_iff.2 ⟨vs', k', ih hvs, h⟩⟩

theorem run_entries_of_path (hread : IgnoresPath read) (path' : Path) {known : List (Value × Value)}
    (h : (entries read mark path known nodes).run n = .ok (m, n')) :
    (entries read mark path' known nodes).run n = .ok (m, n') := by
  induction known, nodes using entries.induct generalizing n with
  | case1 known => exact h
  | case2 known node =>
    obtain ⟨hm, v, hv⟩ := run_entries_singleton_eq_ok_iff.1 h
    exact run_entries_singleton_eq_ok_iff.2 ⟨hm, v, hread _ _ _ _ _ hv⟩
  | case3 known node next nodes ih =>
    obtain ⟨key, k, hkey, hnew, v, k', hv, hrest⟩ := run_entries_cons_eq_ok_iff.1 h
    exact run_entries_cons_eq_ok_iff.2
      ⟨key, k, hread _ _ _ _ _ hkey, hnew, v, k', hread _ _ _ _ _ hv, ih key v hrest⟩

end Entries

theorem run_follow_of_path {refs : References} {path : Path} {node : Node} {n n' : Nat}
    {x : Path × Node} (h : (follow refs path node).run n = .ok (x, n')) (path' : Path) :
    ∃ q, (follow refs path' node).run n = .ok ((q, x.2), n') := by
  cases node with
  | reference mark number =>
    simp only [follow, StateT.run_bind, StateT.run_get, pure_bind] at h ⊢
    by_cases hlimit : n + 1 > refs.limit
    · rw [if_pos hlimit] at h
      cases h
    · rw [if_neg hlimit] at h ⊢
      cases htarget : refs.targets.lookup number with
      | none =>
        simp only [htarget] at h
        cases h
      | some target =>
        simp only [htarget] at h ⊢
        cases h
        exact ⟨_, rfl⟩
  | _ => exact ⟨path', by cases h; rfl⟩

/-- One level of the interpretation, given the level below where there is one. -/
theorem ignoresPath_interpret_of {refs : References} {depth : Nat}
    (hbelow : ∀ d, depth = d + 1 → IgnoresPath (interpret refs d)) : IgnoresPath (interpret refs depth) := by
  intro path path' node n r h
  unfold interpret at h ⊢
  obtain ⟨⟨q, node⟩, k, hfollow, h⟩ := run_bind_eq_ok_iff.1 h
  obtain ⟨q', hfollow'⟩ := run_follow_of_path hfollow path'
  rw [run_bind_of_ok hfollow']
  dsimp only at h ⊢
  cases node with
  | scalar mark properties style text =>
    dsimp only at h ⊢
    cases hv : readScalar (properties.tag.map Tag.ofOctets) style text with
    | ok v =>
      rw [hv] at h
      exact h
    | error refusal =>
      rw [hv] at h
      cases h
  | collection mark properties kind nodes =>
    cases depth with
    | zero => cases h
    | succ depth =>
      have hread := hbelow depth rfl
      cases kind with
      | sequence =>
        obtain ⟨v, k', hv, h⟩ := run_bind_eq_ok_iff.1 h
        obtain ⟨vs, hvs, rfl⟩ := run_map_eq_ok_iff.1 hv
        have hvs' := run_items_of_path hread q' hvs
        exact run_bind_eq_ok_iff.2 ⟨_, k', run_map_of_ok hvs', h⟩
      | mapping =>
        obtain ⟨v, k', hv, h⟩ := run_bind_eq_ok_iff.1 h
        obtain ⟨m, hm, rfl⟩ := run_map_eq_ok_iff.1 hv
        have hm' := run_entries_of_path hread q' hm
        exact run_bind_eq_ok_iff.2 ⟨_, k', run_map_of_ok hm', h⟩
  | _ => cases h

theorem ignoresPath_interpret (refs : References) (depth : Nat) : IgnoresPath (interpret refs depth) := by
  induction depth with
  | zero => exact ignoresPath_interpret_of fun d hd => absurd hd.symm (Nat.succ_ne_zero d)
  | succ depth ih =>
    refine ignoresPath_interpret_of fun d hd => ?_
    rw [← Nat.succ.inj hd]
    exact ih

/-! ## Nodes -/

theorem run_interpret_scalar (refs : References) (depth : Nat) (path : Path) (mark : Mark)
    (properties : Properties) (style : Style) (text : String) (n : Nat) :
    (interpret refs depth path (.scalar mark properties style text)).run n =
      match readScalar (properties.tag.map Tag.ofOctets) style text with
      | .ok v => .ok (v, n)
      | .error refusal => .error (.content refusal mark path) := by
  unfold interpret
  rw [run_bind_of_ok (show (follow refs path _).run n = .ok ((path, _), n) from rfl)]
  dsimp only
  cases readScalar (properties.tag.map Tag.ofOctets) style text with
  | ok v => rfl
  | error refusal => rfl

theorem interpret_mapping (refs : References) (depth : Nat) (path : Path) (mark : Mark)
    (properties : Properties) (nodes : List Node) :
    interpret refs (depth + 1) path (.collection mark properties .mapping nodes) =
      (fun m => tagAs properties.name? (.mapping m)) <$>
        entries (interpret refs depth) mark path [] nodes := by
  have hname : ∀ v : Value, tagAs properties.name? v = match properties.tag.map Tag.ofOctets with
      | some (.ofDocument name) => .tagged name v
      | _ => v := by
    intro v
    unfold Properties.name?
    split <;> rfl
  rw [interpret]
  simp only [follow, pure_bind]
  rw [bind_map_left, map_eq_pure_bind]
  exact congrArg (_ >>= ·) (funext fun m => congrArg pure (hname (.mapping m)).symm)

/-! ## Filled places -/

/-- A hole is for a node of the same kind as the frame, and has what is read from the key. -/
def Corresponds (refs : References) (f : Frame) (h : Hole) : Prop :=
  match f.slot, h.slot with
  | .key _, .key _ => True
  | .value node, .value key => ∃ depth path n n', (interpret refs depth path node).run n = .ok (key, n')
  | _, _ => False

/-- A run over a filled place, from `n` to `n'`, that reads the node there from `k` to `k'`. -/
structure Passes (refs : References) (depth n n' : Nat) (path : Path) (place : Place) (holes : List Hole)
    (d k k' : Nat) : Prop where
  corresponds : List.Forall₂ (Corresponds refs) place holes
  refused : ∀ node e, (interpret refs d (place.path ++ path) node).run k = .error e →
    (interpret refs depth path (place.fill node)).run n = .error e
  replaced : ∀ node v, (interpret refs d (place.path ++ path) node).run k = .ok (v, k') →
    FitsAll holes v → (interpret refs depth path (place.fill node)).run n = .ok (fillAll holes v, n')

variable {refs : References} {depth n n' : Nat} {path : Path} {node : Node} {v : Value}

theorem exists_passes_frame {f : Frame}
    (h : (interpret refs depth path (f.fill node)).run n = .ok (v, n')) :
    ∃ hole d k k' u, Passes refs depth n n' path [f] [hole] d k k' ∧
      (interpret refs d (f.steps ++ path) node).run k = .ok (u, k') ∧ v = hole.fill u := by
  cases depth with
  | zero =>
    have hdeep : (interpret refs 0 path (f.fill node)).run n =
        .error (.form (.bare .nestingTooDeep f.mark)) := by
      rw [interpret]
      rfl
    rw [hdeep] at h
    cases h
  | succ depth =>
    obtain ⟨mark, properties, before, slot, after⟩ := f
    have hfill : ∀ node',
        interpret refs (depth + 1) path (Frame.fill ⟨mark, properties, before, slot, after⟩ node') =
        (fun m => tagAs properties.name? (.mapping m)) <$> entries (interpret refs depth) mark path []
          (Frame.nodes ⟨mark, properties, before, slot, after⟩ node') :=
      fun node' => interpret_mapping refs depth path mark properties _
    rw [hfill, run_map_eq_ok_iff] at h
    obtain ⟨m, hm, rfl⟩ := h
    cases slot with
    | value key =>
      obtain ⟨es, u, k, v, k', es', hkey, hv, rfl, hrefused, hreplaced⟩ := run_entries_value hm
      refine ⟨⟨properties.name?, es, .value u, es'⟩, depth, k, k', v, ⟨?_, ?_, ?_⟩, hv, rfl⟩
      · obtain ⟨a, ha⟩ := hkey
        exact .cons ⟨depth, path, a, k, ha⟩ .nil
      · intro node' e he
        exact (congrArg (·.run n) (hfill node')).trans (run_map_of_error (hrefused node' e he))
      · intro node' v' hv' _
        exact (congrArg (·.run n) (hfill node')).trans (run_map_of_ok (hreplaced node' v' hv'))
    | key next =>
      obtain ⟨es, k, u, k', v, es', hu, rfl, hrefused, hreplaced⟩ :=
        run_entries_key (ignoresPath_interpret refs depth) hm
      refine ⟨⟨properties.name?, es, .key v, es'⟩, depth, k, k', u, ⟨?_, ?_, ?_⟩, hu, rfl⟩
      · exact .cons trivial .nil
      · intro node' e he
        exact (congrArg (·.run n) (hfill node')).trans (run_map_of_error (hrefused node' e he))
      · intro node' u' hu' hfits
        obtain ⟨hbefore, hafter⟩ := hfits.1
        exact (congrArg (·.run n) (hfill node')).trans (run_map_of_ok (hreplaced node' u' hu' hbefore hafter))

theorem exists_passes {place : Place}
    (h : (interpret refs depth path (place.fill node)).run n = .ok (v, n')) :
    ∃ holes d k k' u, Passes refs depth n n' path place holes d k k' ∧
      (interpret refs d (place.path ++ path) node).run k = .ok (u, k') ∧ v = fillAll holes u := by
  induction place generalizing depth path n n' v with
  | nil => exact ⟨[], depth, n, n', v, ⟨.nil, fun _ _ he => he, fun _ _ hv _ => hv⟩, h, rfl⟩
  | cons f place ih =>
    obtain ⟨hole, d, k, k', u, hframe, hu, rfl⟩ := exists_passes_frame h
    obtain ⟨holes, d', a, a', w, hplace, hw, rfl⟩ := ih hu
    have hpath : Place.path (f :: place) ++ path = Place.path place ++ (f.steps ++ path) :=
      List.append_assoc _ _ _
    refine ⟨hole :: holes, d', a, a', w, ⟨?_, ?_, ?_⟩, hpath ▸ hw, rfl⟩
    · exact .cons (List.forall₂_cons.1 hframe.corresponds).1 hplace.corresponds
    · intro node' e he
      exact hframe.refused _ e (hplace.refused node' e (hpath ▸ he))
    · intro node' v' hv' hfits
      exact hframe.replaced _ _ (hplace.replaced node' v' (hpath ▸ hv') hfits.2) ⟨hfits.1, trivial⟩

end Interpreter

/-! ## Documents -/

theorem numberedAll_append (xs ys : List Node) :
    Node.numberedAll (xs ++ ys) = Node.numberedAll xs ++ Node.numberedAll ys := by
  induction xs with
  | nil => rfl
  | cons x xs ih => rw [List.cons_append, Node.numberedAll, Node.numberedAll, ih, List.append_assoc]

/-- Where the mappings around a node have no numbers, only its own number tells it from another node. -/
theorem Place.numbered_fill {place : Place} (h : ∀ f ∈ place, f.properties.number = none) {node node' : Node}
    (hnode : node.numbered = node'.numbered) : (place.fill node).numbered = (place.fill node').numbered := by
  induction place with
  | nil => exact hnode
  | cons f place ih =>
    obtain ⟨hf, hplace⟩ := List.forall_mem_cons.1 h
    have hinner := ih hplace
    have houter : ∀ node, (Frame.fill f node).numbered = Node.numberedAll (f.nodes node) := by
      intro node
      rw [Frame.fill, Node.numbered, hf]
    change (f.fill (Place.fill place node)).numbered = (f.fill (Place.fill place node')).numbered
    rw [houter, houter, Frame.nodes, Frame.nodes, numberedAll_append, numberedAll_append]
    cases f.slot with
    | key next => simp only [Slot.entry, Node.numberedAll, hinner]
    | value key => simp only [Slot.entry, Node.numberedAll, hinner]

/-- A document with one scalar left open. -/
structure Template where
  place : Place
  mark : Mark
  number : Option Nat
  size : Nat
  fault : Option Fault
  continued : Bool

namespace Template

def fill (t : Template) (style : Style) (text : String) : Document :=
  ⟨some (t.place.fill (.scalar t.mark ⟨none, t.number⟩ style text)), t.size, t.fault, t.continued⟩

/-- No reference can name the scalar or a mapping around it. -/
def Unnumbered (t : Template) : Prop := t.number = none ∧ ∀ f ∈ t.place, f.properties.number = none

def references (t : Template) (style : Style) (text : String) : References :=
  ⟨(t.fill style text).targets, referencesPerNode * t.size⟩

theorem references_eq {t : Template} (h : t.Unnumbered) (style style' : Style) (text text' : String) :
    t.references style text = t.references style' text' := by
  have hnode : ∀ style text, (Node.scalar t.mark ⟨none, t.number⟩ style text).numbered = [] := by
    intro style text
    rw [Node.numbered, h.1]
  have hroot := Place.numbered_fill h.2 ((hnode style text).trans (hnode style' text').symm)
  simp only [references, Document.targets, fill, Option.map_some, hroot]

variable {t : Template} {style : Style} {text : String} {v : Value}

/-- The interpretation of the root. -/
def rootRun (t : Template) (style : Style) (text : String) : Except ReadError (Value × Nat) :=
  (Interpreter.interpret (t.references style text) maxDepth []
    (t.place.fill (.scalar t.mark ⟨none, t.number⟩ style text))).run 0

theorem value_fill (t : Template) (style : Style) (text : String) :
    (t.fill style text).value = (do
      let v ← (t.rootRun style text).map Prod.fst
      match t.fault with
      | some fault => throw (.form fault)
      | none => if t.continued then throw .severalDocuments else return v) := rfl

theorem value_eq_ok_iff : (t.fill style text).value = .ok v ↔
    (∃ n, t.rootRun style text = .ok (v, n)) ∧ t.fault = none ∧ t.continued = false := by
  rw [value_fill, bind_eq_ok_iff]
  have hend : ∀ u : Value, (match t.fault with
      | some fault => throw (.form fault)
      | none => if t.continued then throw .severalDocuments else return u : Except ReadError Value) = .ok v ↔
      u = v ∧ t.fault = none ∧ t.continued = false := by
    intro u
    cases t.fault with
    | some fault => simp [throw_ne_ok]
    | none => cases t.continued <;> simp [throw_ne_ok, pure_eq_ok_iff]
  simp only [hend]
  cases t.rootRun style text with
  | error e => simp [Except.map]
  | ok r =>
    obtain ⟨u, n⟩ := r
    simp [Except.map]

theorem value_of_error {e : ReadError} (h : t.rootRun style text = .error e) :
    (t.fill style text).value = .error e := by
  rw [value_fill, h]
  rfl

/-- What is read from a document has a place for what is read from the scalar.  Another scalar there is read
in the same document. -/
theorem exists_holes (h : (t.fill style text).value = .ok v) :
    ∃ holes u, List.Forall₂ (Interpreter.Corresponds (t.references style text)) t.place holes ∧
      readUntagged style text = .ok u ∧ v = fillAll holes u ∧
      (t.Unnumbered → ∀ style' text',
        (∀ refusal, readUntagged style' text' = .error refusal →
          (t.fill style' text').value = .error (.content refusal t.mark t.place.path)) ∧
        ∀ u', readUntagged style' text' = .ok u' → FitsAll holes u' →
          (t.fill style' text').value = .ok (fillAll holes u')) := by
  obtain ⟨⟨n, hrun⟩, hend⟩ := value_eq_ok_iff.1 h
  obtain ⟨holes, d, k, k', u, hpasses, hu, rfl⟩ := Interpreter.exists_passes hrun
  have hscalar : ∀ style text, (Interpreter.interpret (t.references style text) d (t.place.path ++ [])
      (.scalar t.mark ⟨none, t.number⟩ style text)).run k =
        match readUntagged style text with
        | .ok v => .ok (v, k)
        | .error refusal => .error (.content refusal t.mark t.place.path) := by
    intro style text
    rw [Interpreter.run_interpret_scalar, List.append_nil]
    rfl
  rw [hscalar] at hu
  cases hread : readUntagged style text with
  | error refusal =>
    rw [hread] at hu
    cases hu
  | ok w =>
    rw [hread] at hu
    cases hu
    refine ⟨holes, u, hpasses.corresponds, rfl, rfl, fun hnumber style' text' => ⟨?_, ?_⟩⟩
    · intro refusal hrefusal
      have hnode := hscalar style' text'
      rw [hrefusal, references_eq hnumber style' style text' text] at hnode
      refine value_of_error ?_
      rw [rootRun, references_eq hnumber style' style text' text]
      exact hpasses.refused _ _ hnode
    · intro u' hu' hfits
      have hnode := hscalar style' text'
      rw [hu', references_eq hnumber style' style text' text] at hnode
      refine value_eq_ok_iff.2 ⟨⟨n, ?_⟩, hend⟩
      rw [rootRun, references_eq hnumber style' style text' text]
      exact hpasses.replaced _ _ hnode hfits

end Template

end TapeMachine.Yaml
