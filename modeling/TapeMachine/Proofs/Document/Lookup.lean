import TapeMachine.Proofs.Document.Meaning
import TapeMachine.Proofs.Document.Acceptance
import TapeMachine.Proofs.Document.Validity
import TapeMachine.Proofs.FirstOccurrences

/-!
# Tables mean what their rows say

The table that is read from a document gives, for every state and all symbols that may be read, the effect
that the rows of the document prescribe.  The reader is followed part by part: a name is looked up as the
last one of its kind, an instruction has the meaning of its value where the synonyms it may use have theirs,
and a row of the document stands for the entries of the table that were made from it, in the same order.
-/

namespace TapeMachine

open Yaml (Value)

/-! ## Names -/

theorem last_iff {m : Mapping} {name : String} {v : Value} :
    Last m name v ↔ ∃ e, (m.filter (·.1.text? == some name)).getLast? = some e ∧ e.2 = v := by
  have hkey : ∀ e : Value × Value, e.1.HasText name ↔ (e.1.text? == some name) = true := fun e => by
    rw [Value.hasText_iff, beq_iff_eq]
  constructor
  · rintro ⟨before, key, after, rfl, htext, hafter⟩
    have hnil : after.filter (·.1.text? == some name) = [] :=
      List.filter_eq_nil_iff.2 fun e he => (hkey e).not.1 (hafter e he)
    have hfilter : (before ++ (key, v) :: after).filter (·.1.text? == some name) =
        before.filter (·.1.text? == some name) ++ [(key, v)] := by
      rw [List.filter_append, List.filter_cons, if_pos ((hkey (key, v)).1 htext), hnil]
    exact ⟨(key, v), by rw [hfilter, List.getLast?_append]; rfl, rfl⟩
  · rintro ⟨e, he, rfl⟩
    obtain ⟨_, hfilter⟩ := List.getLast?_eq_some_iff.1 he
    obtain ⟨before, rest, rfl, -, hrest⟩ := List.filter_eq_append_iff.1 hfilter
    obtain ⟨middle, after, rfl, -, htext, hnil⟩ := List.filter_eq_cons_iff.1 hrest
    refine ⟨before ++ middle, e.1, after, by simp, (hkey e).2 htext, fun e' he' => ?_⟩
    exact (hkey e').not.2 (List.filter_eq_nil_iff.1 hnil e' he')

theorem field?_eq_some_iff {m : Mapping} {name : String} {u : Value} :
    Spec.field? m name = some u ↔ Field m name (some u) := by
  simp only [Spec.field?, Option.bind_eq_some_iff, Field, last_iff, Value.present?_eq_some_iff, Value.IsNull]
  constructor
  · rintro ⟨e, he, rfl, hnull⟩
    exact ⟨e.2, ⟨e, he, rfl⟩, hnull, rfl⟩
  · rintro ⟨_, ⟨e, he, rfl⟩, hnull, rfl⟩
    exact ⟨e, he, rfl, hnull⟩

theorem field?_eq_none_iff {m : Mapping} {name : String} :
    Spec.field? m name = none ↔ Field m name none := by
  simp only [Spec.field?, Option.bind_eq_none_iff, Field, last_iff, ← Value.isNull_iff]
  constructor
  · rintro h _ ⟨e, he, rfl⟩
    exact h e he
  · exact fun h e he => h e.2 ⟨e, he, rfl⟩

theorem getLast?_presents_eq_some {m : Mapping} {name : String} {u : Value}
    (h : (presents m name).getLast? = some u) :
    ∃ before key v after, m = before ++ (key, v) :: after ∧ key.HasText name ∧ v.present? = some u ∧
      ∀ e ∈ after, e.1.HasText name → e.2.IsNull := by
  obtain ⟨_, hlast⟩ := List.getLast?_eq_some_iff.1 h
  obtain ⟨before, rest, rfl, -, hrest⟩ := List.filterMap_eq_append_iff.1 hlast
  obtain ⟨middle, e, after, rfl, -, he, hnil⟩ := List.filterMap_eq_cons_iff.1 hrest
  split at he
  · rename_i htext
    refine ⟨before ++ middle, e.1, e.2, after, by simp, Value.hasText_iff.2 htext, he, ?_⟩
    intro e' he' htext'
    have hnone := List.filterMap_eq_nil_iff.1 hnil e' he'
    rwa [if_pos (Value.hasText_iff.1 htext'), ← Value.isNull_iff] at hnone
  · cases he

theorem isNull_of_presents_eq_nil {m : Mapping} {name : String} (h : presents m name = []) {v : Value}
    (hv : Says m name v) : v.IsNull := by
  obtain ⟨key, hmem, htext⟩ := hv
  have hnone := List.filterMap_eq_nil_iff.1 h (key, v) hmem
  rwa [if_pos (Value.hasText_iff.1 htext), ← Value.isNull_iff] at hnone

theorem eq_some_iff_of_map_eq {α β : Type} {o : Option α} {f : α → Option β} {w : Option β}
    (h : o.map f = w.map some) {b : β} : w = some b ↔ ∃ a, o = some a ∧ f a = some b := by
  cases o with
  | none => cases w <;> simp_all
  | some a => cases w <;> simp_all

/-! ## Synonyms -/

/-- What the reader knows of the synonyms: a name has the body that the last synonym with this name means,
and other names are no synonyms. -/
structure Synonyms.Means {ι : Type} (syn : Synonyms ι) (synonyms : Mapping)
    (means : Value → ι → Prop) : Prop where
  body : ∀ s i, syn.body? s = .ok (some i) → ∃ v, Last synonyms s v ∧ means v i
  fresh : ∀ s, syn.body? s = .ok none → ∀ v, ¬ Says synonyms s v

theorem Synonyms.means_unavailable {ι : Type} (names : List String) (means : Value → ι → Prop) :
    (unavailable names).Means [] means where
  body s i h := by cases (body?_unavailable_eq_ok_iff.1 h).2
  fresh s _ v := by
    rintro ⟨key, hmem, -⟩
    cases hmem

theorem Synonyms.means_resolved {ι : Type} {g : Grammar ι} {states : List State} {names : List String}
    {bodies : Mapping} {xs : List (String × ι)} (h : List.Forall₂ (g.Defines states names) bodies xs) :
    (resolved (Dict.ofList xs)).Means bodies
      fun v i => g.instruction states (.unavailable names) v = .ok i where
  body s i hbody := by
    rw [body?_resolved_eq_ok_iff, eq_comm, Dict.get?_ofList, List.lookup_eq_some_iff] at hbody
    obtain ⟨after, before, hxs, hafter⟩ := hbody
    rw [List.reverse_eq_iff, List.reverse_append, List.reverse_cons, List.append_assoc,
      List.singleton_append] at hxs
    subst hxs
    obtain ⟨before', e, after', rfl, -, ⟨hname, hi⟩, hafter'⟩ := exists_append_of_forall₂ h
    refine ⟨e.2, ⟨before', e.1, after', rfl, Value.hasText_iff.2 hname, fun e' he' htext => ?_⟩, hi⟩
    obtain ⟨x, hx, hname', -⟩ := exists_of_mem_left hafter' he'
    rw [Value.hasText_iff, hname', Option.some.injEq] at htext
    have hne := hafter x (List.mem_reverse.1 hx)
    simp [htext] at hne
  fresh s hbody v hsays := by
    rw [body?_resolved_eq_ok_iff, eq_comm, Dict.get?_ofList, ← Option.not_isSome_iff_eq_none,
      Dict.lookup_isSome_iff, List.map_reverse, List.mem_reverse] at hbody
    obtain ⟨key, hmem, htext⟩ := hsays
    obtain ⟨x, hx, hname, -⟩ := exists_of_mem_left h hmem
    rw [Value.hasText_iff, hname, Option.some.injEq] at htext
    exact hbody (List.mem_map.2 ⟨x, hx, htext⟩)

/-! ## One tape -/

namespace SingleInstruction

variable {synonyms : Mapping} {syn : Synonyms SingleInstruction} {v : Value} {i : SingleInstruction}

theorem isDirection_iff {s : String} : IsDirection s ↔ ∃ d, direction? s = some d :=
  exists_congr fun _ => direction?_eq_some_iff.symm

theorem leadsTo_of_nextState {x : Value} {next : Option State} (h : nextState x = .ok next) :
    LeadsTo x next := by
  rcases nextState_eq_ok_iff.1 h with ⟨hnull, rfl⟩ | ⟨s, hs, rfl⟩
  · exact hnull
  · exact Value.hasText_iff.2 hs

theorem exists_append_of_movesIn {m : Mapping} {d : Direction} {x : Value} (h : movesIn m = [(d, x)]) :
    ∃ before key after, m = before ++ (key, x) :: after ∧ key.HasText (String.singleton d.letter) ∧
      ∀ e ∈ before ++ after, ∀ s, e.1.HasText s → ¬ IsDirection s := by
  have hnone : ∀ {m : Mapping}, (∀ e ∈ m, (e.1.text?.bind direction?).map (·, e.2) = none) →
      ∀ e ∈ m, ∀ s, e.1.HasText s → ¬ IsDirection s := by
    intro m hm e he s hs hd
    obtain ⟨d, hd⟩ := isDirection_iff.1 hd
    simpa [Value.hasText_iff.1 hs, hd] using hm e he
  obtain ⟨before, e, after, rfl, hbefore, he, hafter⟩ := List.filterMap_eq_cons_iff.1 h
  obtain ⟨d', hd', hpair⟩ := Option.map_eq_some_iff.1 he
  obtain ⟨s, hs, hd⟩ := Option.bind_eq_some_iff.1 hd'
  cases hpair
  rw [direction?_eq_some_iff] at hd
  refine ⟨before, e.1, after, rfl, Value.hasText_iff.2 (hd ▸ hs), ?_⟩
  exact List.forall_mem_append.2 ⟨hnone hbefore, hnone (List.filterMap_eq_nil_iff.1 hafter)⟩

theorem means_of_ofMapping {m : Mapping} (hv : v.untagged = .mapping m) (h : ofMapping m = .ok i) :
    SingleMeans synonyms v ((Instruction.single i).effect 1) := by
  obtain ⟨-, ⟨x, hmoves, hnext⟩, hwrite⟩ := ofMapping_eq_ok_iff.1 h
  obtain ⟨before, key, after, rfl, hkey, honly⟩ := exists_append_of_movesIn hmoves
  refine .mapping hv hkey honly (leadsTo_of_nextState hnext) fun c => ?_
  simp only [← field?_eq_some_iff, Value.hasText_iff, ← Value.symbol?_eq_some_iff]
  exact eq_some_iff_of_map_eq hwrite

theorem means_of_ofString {s : String} (hv : v.untagged = .string s)
    (hsyn : syn.Means synonyms fun body i => SingleMeans [] body ((Instruction.single i).effect 1))
    (h : ofString syn s = .ok i) : SingleMeans synonyms v ((Instruction.single i).effect 1) := by
  rcases ofString_eq_ok_iff.1 h with ⟨d, hd, rfl⟩ | ⟨hd, r, hr, rfl⟩
  · rw [direction?_eq_some_iff] at hd
    exact .direction (hd ▸ hv)
  · have hno : ¬ IsDirection s := by
      rw [isDirection_iff, hd]
      exact fun ⟨_, h⟩ => by cases h
    cases r with
    | some j =>
      obtain ⟨body, hlast, hbody⟩ := hsyn.body s j hr
      exact .synonym hv hno hlast hbody
    | none => exact .state hv hno (hsyn.fresh s hr)

theorem means_of_instruction {states : List State}
    (hsyn : syn.Means synonyms fun body i => SingleMeans [] body ((Instruction.single i).effect 1))
    (h : Grammar.single.instruction states syn v = .ok i) :
    SingleMeans synonyms v ((Instruction.single i).effect 1) := by
  obtain ⟨hform, -⟩ := Grammar.instruction_eq_ok_iff.1 h
  rcases Grammar.form_eq_ok_iff.1 hform with ⟨s, hs, hi⟩ | ⟨m, hm, hi⟩
  · exact means_of_ofString hs hsyn hi
  · exact means_of_ofMapping hm hi

end SingleInstruction

/-! ## Three tapes -/

namespace MultiInstruction

variable {wildcard : Option Symbol} {synonyms : Mapping} {syn : Synonyms MultiInstruction} {v : Value}
  {i : MultiInstruction}

theorem spells_iff {s : String} {ds : List Direction} :
    Spells s ds ↔ s.length = 3 ∧ directions? s = some ds := by
  rw [Spells, directions?_eq_some_iff, ← String.toList_inj, String.toList_ofList]
  constructor
  · rintro ⟨hlength, hs⟩
    refine ⟨?_, hs⟩
    rw [← String.length_toList, hs, List.length_map, hlength]
  · rintro ⟨hlength, hs⟩
    refine ⟨?_, hs⟩
    rw [← String.length_toList, hs, List.length_map] at hlength
    exact hlength

theorem effect_moves {moves : List Direction} (h : moves.length = 3) :
    (Instruction.multi ⟨none, some moves, none⟩).effect 3 = ⟨moves.map fun d => ⟨none, d⟩, none⟩ := by
  obtain ⟨a, b, c, rfl⟩ := List.length_eq_three.1 h
  rfl

/-- What the values under a name are read as, and the text of the last one of them. -/
theorem exists_keeps {α : Type} {R : Value → α → Prop} {Q : String → α → Prop} {m : Mapping}
    {name : String} {ys : List α} (hR : ∀ u y, R u y → ∃ s, u.text? = some s ∧ Q s y)
    (h : List.Forall₂ R (presents m name) ys) :
    ∃ t, Keeps m name t ∧
      (t = none ∧ ys.getLast? = none ∨ ∃ s y, t = some s ∧ ys.getLast? = some y ∧ Q s y) := by
  cases hy : ys.getLast? with
  | none =>
    rw [List.getLast?_eq_none_iff] at hy
    subst hy
    refine ⟨none, fun v hv => isNull_of_presents_eq_nil ?_ hv, .inl ⟨rfl, rfl⟩⟩
    exact List.forall₂_nil_right_iff.1 h
  | some y =>
    obtain ⟨u, hu, huy⟩ := exists_getLast?_of_forall₂ h hy
    obtain ⟨before, key, v, after, hm, hkey, hv, hafter⟩ := getLast?_presents_eq_some hu
    obtain ⟨s, hs, hQ⟩ := hR u y huy
    rw [Value.text?_of_present? hv] at hs
    exact ⟨some s, ⟨before, key, v, after, hm, hkey, Value.hasText_iff.2 hs, hafter⟩,
      .inr ⟨s, y, rfl, rfl, hQ⟩⟩

theorem exists_text?_of_charsOf {u : Value} {cs : List Char} (h : charsOf u = cs) (hcs : cs.length = 3) :
    ∃ s, u.text? = some s ∧ s.toList = cs := by
  unfold charsOf at h
  cases hs : u.text? with
  | none =>
    rw [hs] at h
    subst h
    cases hcs
  | some s =>
    rw [hs] at h
    exact ⟨s, rfl, h⟩

/-- The symbols to write are the characters of the last value, but for the wildcard. -/
theorem exists_keeps_write {m : Mapping} {wss : List (List (Option Symbol))}
    (h : List.Forall₂ (fun v ws => writeOf 3 wildcard v = .ok ws) (presents m "write") wss) :
    ∃ write : Option String, Keeps m "write" write ∧ ∀ tape : Nat,
      (wss.getLast?.bind (·[tape]?)).join = (write.bind (·.toList[tape]?)).filter (some · ≠ wildcard) := by
  have hread : ∀ u ws, writeOf 3 wildcard u = .ok ws → ∃ s, u.text? = some s ∧
      ws = s.toList.map fun c => if some c = wildcard then none else some c := by
    intro u ws hu
    obtain ⟨hlength, rfl⟩ := writeOf_eq_ok_iff.1 hu
    obtain ⟨s, hs, hcs⟩ := exists_text?_of_charsOf rfl hlength
    exact ⟨s, hs, by rw [hcs]⟩
  obtain ⟨t, ht, hcases⟩ := exists_keeps hread h
  refine ⟨t, ht, fun tape => ?_⟩
  rcases hcases with ⟨rfl, hws⟩ | ⟨s, ws, rfl, hws, rfl⟩
  · rw [hws]
    rfl
  · rw [hws, Option.bind_some, Option.bind_some, List.getElem?_map]
    cases s.toList[tape]? with
    | none => rfl
    | some c =>
      rw [Option.map_some, Option.join_some, Option.filter_some]
      by_cases hc : some c = wildcard
      · rw [if_pos hc, if_neg (by simpa using hc)]
      · rw [if_neg hc, if_pos (by simpa using hc)]

theorem exists_keeps_move {m : Mapping} {dss : List (List Direction)}
    (h : List.Forall₂ (fun v ds => movesOf 3 v = .ok ds) (presents m "move") dss) :
    ∃ move moves, Keeps m "move" move ∧ Spells (move.getD "SSS") moves ∧
      ∀ tape : Nat, (dss.getLast?.bind (·[tape]?)).getD .stay = moves.getD tape .stay := by
  have hread : ∀ u ds, movesOf 3 u = .ok ds → ∃ s, u.text? = some s ∧ Spells s ds := by
    intro u ds hu
    obtain ⟨hlength, hletters⟩ := movesOf_eq_ok_iff.1 hu
    obtain ⟨s, hs, hcs⟩ := exists_text?_of_charsOf rfl hlength
    refine ⟨s, hs, ?_, ?_⟩
    · rwa [hletters, List.length_map] at hlength
    · rw [← String.toList_inj, String.toList_ofList, hcs, hletters]
  obtain ⟨t, ht, hcases⟩ := exists_keeps hread h
  rcases hcases with ⟨rfl, hds⟩ | ⟨s, ds, rfl, hds, hspells⟩
  · refine ⟨none, List.replicate 3 .stay, ht, ⟨rfl, rfl⟩, fun tape => ?_⟩
    rw [hds]
    match tape with
    | 0 | 1 | 2 | _ + 3 => rfl
  · refine ⟨some s, ds, ht, hspells, fun tape => ?_⟩
    rw [hds, List.getD_eq_getElem?_getD, Option.bind_some]

theorem means_of_ofMapping {m : Mapping} (hv : v.untagged = .mapping m)
    (h : ofMapping 3 wildcard m = .ok i) :
    MultiMeans wildcard synonyms v ((Instruction.multi i).effect 3) := by
  obtain ⟨-, wss, dss, ss, hwss, hdss, hss, rfl⟩ := ofMapping_eq_ok_iff.1 h
  simp only [Option.or_none]
  obtain ⟨write, hwrite, hwrites⟩ := exists_keeps_write hwss
  obtain ⟨move, moves, hmove, hspells, hmoves⟩ := exists_keeps_move hdss
  obtain ⟨next, hnext, hcases⟩ := exists_keeps (Q := Eq) (fun u s hs => ⟨s, hs, rfl⟩) hss
  have hlast : ss.getLast? = next := by
    rcases hcases with ⟨rfl, hs⟩ | ⟨s, _, rfl, hs, rfl⟩
    · exact hs
    · exact hs
  have heffect : (Instruction.multi ⟨wss.getLast?, dss.getLast?, ss.getLast?⟩).effect 3 =
      ⟨(List.range 3).map fun tape =>
        ⟨(write.bind (·.toList[tape]?)).filter (some · ≠ wildcard), moves.getD tape .stay⟩, next⟩ := by
    rw [Instruction.effect, ← hlast]
    congr 1
    refine List.map_congr_left fun tape _ => ?_
    rw [← hwrites tape, ← hmoves tape]
    rfl
  rw [heffect]
  exact .mapping hv hwrite hmove hnext hspells

theorem means_of_ofString {s : String} (hv : v.untagged = .string s)
    (hsyn : syn.Means synonyms fun body i =>
      MultiMeans wildcard [] body ((Instruction.multi i).effect 3))
    (h : ofString 3 syn s = .ok i) :
    MultiMeans wildcard synonyms v ((Instruction.multi i).effect 3) := by
  rcases ofString_eq_ok_iff.1 h with ⟨hlength, ds, hds, rfl⟩ | ⟨hnone, hbody⟩
  · have hspells : Spells s ds := spells_iff.2 ⟨hlength, hds⟩
    rw [effect_moves hspells.1]
    exact .moves hv hspells
  · obtain ⟨body, hlast, hmeans⟩ := hsyn.body s i hbody
    refine .synonym hv (fun moves hmoves => ?_) hlast hmeans
    obtain ⟨hlength, hds⟩ := spells_iff.1 hmoves
    rw [hnone hlength] at hds
    cases hds

theorem means_of_instruction {states : List State}
    (hsyn : syn.Means synonyms fun body i =>
      MultiMeans wildcard [] body ((Instruction.multi i).effect 3))
    (h : (Grammar.multi 3 wildcard).instruction states syn v = .ok i) :
    MultiMeans wildcard synonyms v ((Instruction.multi i).effect 3) := by
  obtain ⟨hform, -⟩ := Grammar.instruction_eq_ok_iff.1 h
  rcases Grammar.form_eq_ok_iff.1 hform with ⟨s, hs, hi⟩ | ⟨m, hm, hi⟩
  · exact means_of_ofString hs hsyn hi
  · exact means_of_ofMapping hm hi

end MultiInstruction

/-! ## Synonyms of a document -/

theorem Synonyms.Means.mono {ι : Type} {syn : Synonyms ι} {synonyms : Mapping} {P Q : Value → ι → Prop}
    (h : syn.Means synonyms P) (hPQ : ∀ v i, P v i → Q v i) : syn.Means synonyms Q where
  body s i hs := by
    obtain ⟨v, hv, hP⟩ := h.body s i hs
    exact ⟨v, hv, hPQ v i hP⟩
  fresh := h.fresh

/-- The synonyms of a document are those of its mapping of synonyms, if it has one, each under its name and with the
meaning of the last one of this name. -/
theorem Grammar.exists_kept {ι : Type} {g : Grammar ι} {states : List State} {m : Mapping}
    {d : Dict String ι} (h : g.synonyms states (Spec.field? m "synonyms") = .ok d) :
    ∃ synonyms names, (Field m "synonyms" none ∧ synonyms = [] ∨
        Field m "synonyms" (some (.mapping synonyms))) ∧
      List.Forall₂ Value.HasText (synonyms.map Prod.fst) names ∧ d.keys = names.eraseDups ∧
      (Synonyms.resolved d).Means synonyms
        fun v i => g.instruction states (.unavailable names) v = .ok i := by
  rcases synonyms_eq_ok_iff.1 h with ⟨hnone, rfl⟩ | ⟨bodies, xs, hsome, hxs, rfl⟩
  · refine ⟨[], [], .inl ⟨field?_eq_none_iff.1 hnone, rfl⟩, .nil, rfl, ?_⟩
    exact Synonyms.means_resolved (show List.Forall₂ (g.Defines states []) [] [] from .nil)
  · have hnames : List.Forall₂ (fun e name => e.1.text? = some name) bodies (xs.map Prod.fst) :=
      List.forall₂_map_right_iff.2 (hxs.imp fun _ _ hx => hx.1)
    rw [filterMap_text?_eq hnames] at hxs
    exact ⟨bodies, _, .inr (field?_eq_some_iff.1 hsome), forall₂_hasText_keys_iff.2 hnames, Dict.keys_ofList xs,
      Synonyms.means_resolved hxs⟩

theorem Grammar.exists_means {ι : Type} {g : Grammar ι} {states : List State} {m : Mapping}
    {d : Dict String ι} (h : g.synonyms states (Spec.field? m "synonyms") = .ok d) :
    ∃ synonyms names, (Field m "synonyms" none ∧ synonyms = [] ∨
        Field m "synonyms" (some (.mapping synonyms))) ∧
      (Synonyms.resolved d).Means synonyms
        fun v i => g.instruction states (.unavailable names) v = .ok i := by
  obtain ⟨synonyms, names, hfield, -, -, hmeans⟩ := exists_kept h
  exact ⟨synonyms, names, hfield, hmeans⟩

/-! ## Rows -/

section Rows
variable {type : MachineType} {wildcard : Option Symbol} {synonyms rows : Mapping} {state : State}
  {symbols : List Symbol}

theorem prescribes_find? {α : Type} {R : Value × Value → α → Prop} {e : Value × Value} {m : Mapping}
    {xs : List α} (he : e ∈ rows) (hstate : e.1.HasText state) (hm : e.2.untagged = .mapping m)
    (hxs : List.Forall₂ R m xs) {p : α → Bool}
    (hp : ∀ r x, R r x → (p x = true ↔ Matches type wildcard r.1 symbols)) {f : α → Effect}
    (hmeans : ∀ r x, R r x → TapeMachine.Means type wildcard synonyms r.2 (f x)) :
    Prescribes type wildcard synonyms rows state symbols ((xs.find? p).map f) := by
  cases hfind : xs.find? p with
  | none =>
    refine .unmatched he hstate hm fun r hr hmatches => ?_
    obtain ⟨x, hx, hR⟩ := exists_of_mem_left hxs hr
    exact List.find?_eq_none.1 hfind x hx ((hp r x hR).2 hmatches)
  | some x =>
    obtain ⟨before, r, after, rfl, hR, hx, hbefore⟩ := exists_append_of_find? hxs hfind
    refine .first he hstate hm ((hp r x hR).1 hx) (fun r' hr' hmatches => ?_) (hmeans r x hR)
    obtain ⟨y, hy, hpy⟩ := hbefore r' hr'
    rw [(hp r' y hy).2 hmatches] at hpy
    cases hpy

theorem exists_enters_of_get? {entries : Dict State Value}
    (hentries : List.Forall₂ Enters rows entries.entries)
    {β : Type} {f : State → Value → Except SpecError β} {d : Dict State β} (hd : entries.traverse f = .ok d)
    {r : β} (hr : d.get? state = some r) :
    ∃ e ∈ rows, e.1.HasText state ∧ f state e.2.untagged = .ok r := by
  obtain ⟨v, hmem, hv⟩ := Dict.exists_of_mem_traverse hd (Dict.get?_eq_some_iff.1 hr)
  obtain ⟨e, he, hname, rfl⟩ := exists_of_mem_right hentries hmem
  exact ⟨e, he, Value.hasText_iff.2 hname, hv⟩

theorem exists_get?_of_enters {entries : Dict State Value}
    (hentries : List.Forall₂ Enters rows entries.entries) {e : Value × Value} (he : e ∈ rows)
    {β : Type} {f : State → Value → Except SpecError β} {d : Dict State β} (hd : entries.traverse f = .ok d) :
    ∃ state y, e.1.text? = some state ∧ d.get? state = some y ∧ f state e.2.untagged = .ok y := by
  obtain ⟨x, hx, hstate, hvalue⟩ := exists_of_mem_left hentries he
  obtain ⟨⟨_, y⟩, hy, rfl, hrow⟩ := exists_of_mem_left (Dict.traverse_eq_ok_iff.1 hd) hx
  exact ⟨x.1, y, hstate, Dict.get?_eq_some_iff.2 hy, hvalue ▸ hrow⟩

theorem not_hasText_of_get? {entries : Dict State Value} (hentries : List.Forall₂ Enters rows entries.entries)
    {β : Type} {f : State → Value → Except SpecError β} {d : Dict State β} (hd : entries.traverse f = .ok d)
    (hnone : d.get? state = none) : ∀ e ∈ rows, ¬ e.1.HasText state := by
  intro e he htext
  obtain ⟨x, hx, hname, -⟩ := exists_of_mem_left hentries he
  rw [Value.hasText_iff, hname, Option.some.injEq] at htext
  rw [Dict.get?_eq_none_iff, Dict.keys_traverse hd] at hnone
  exact hnone (List.mem_map.2 ⟨x, hx, htext⟩)

end Rows

/-! ## Tables -/

namespace SingleTable

variable {wildcard : Option Symbol} {syn : Dict String SingleInstruction} {synonyms rows : Mapping}
  {entries : Dict State Value} {t : SingleTable}

theorem lookup_flatMap_spread (xs : List (List Symbol × SingleInstruction)) (c : Symbol) :
    (xs.flatMap spread).lookup c = (xs.find? fun x => decide (c ∈ x.1)).map Prod.snd := by
  induction xs with
  | nil => rfl
  | cons x xs ih =>
    have hspread : (spread x).lookup c = if c ∈ x.1 then some x.2 else none := by
      unfold spread
      induction x.1 with
      | nil => rfl
      | cons a as ih =>
        rw [List.map_cons, Dict.lookup_cons_eq_ite, ih]
        by_cases ha : c = a <;> simp [ha]
    rw [List.flatMap_cons, List.lookup_append, hspread, ih]
    by_cases hc : c ∈ x.1
    · rw [if_pos hc, List.find?_cons_of_pos (by simpa using hc)]
      rfl
    · rw [if_neg hc, List.find?_cons_of_neg (by simpa using hc)]
      rfl

theorem matches_iff {key : Value} {cs : List Symbol} (h : keySymbols? key = some cs) {c : Symbol} :
    Matches .oneTape wildcard key [c] ↔ c ∈ cs := by
  simp only [Matches, ← keySymbols?_eq_some_iff, h, Option.some.injEq, List.cons.injEq, and_true]
  constructor
  · rintro ⟨_, rfl, c', hc', rfl⟩
    exact hc'
  · exact fun hc => ⟨cs, rfl, c, hc, rfl⟩

theorem prescribes_row (hentries : List.Forall₂ Enters rows entries.entries)
    (hsyn : (Synonyms.resolved syn).Means synonyms
      fun body i => SingleMeans [] body ((Instruction.single i).effect 1))
    (ht : ofEntries syn entries = .ok t) (state : State) (c : Symbol) :
    Prescribes .oneTape wildcard synonyms rows state [c]
      (((Table.single t).lookup state [c]).map (·.effect 1)) := by
  have hrows := ofEntries_eq_ok_iff.1 ht
  cases hget : t.states.get? state with
  | none =>
    have hlookup : (Table.single t).lookup state [c] = none := by
      simp [Table.lookup, SingleTable.get?, hget]
    rw [hlookup]
    exact .undeclared (not_hasText_of_get? hentries hrows hget)
  | some r =>
    obtain ⟨e, he, hstate, hrow⟩ := exists_enters_of_get? hentries hrows hget
    rcases row_eq_ok_iff.1 hrow with ⟨hempty, rfl⟩ | ⟨m, xs, d, -, hm, hxs, hd, rfl⟩
    · have hlookup : (Table.single t).lookup state [c] = none := by
        simp [Table.lookup, SingleTable.get?, hget]
      rw [hlookup]
      exact .halting he hstate hempty
    · have hlookup : ((Table.single t).lookup state [c]).map (·.effect 1) =
          (xs.find? fun x => decide (c ∈ x.1)).map fun x => (Instruction.single x.2).effect 1 := by
        have hfind : d.get? c = (xs.find? fun x => decide (c ∈ x.1)).map Prod.snd := by
          rw [Dict.get?, hd, lookup_flatMap_spread]
        simp only [Table.lookup, SingleTable.get?, hget, Option.join_some, Option.bind_some, hfind,
          Option.map_map]
        rfl
      rw [hlookup]
      refine prescribes_find? he hstate hm hxs (fun r x hx => ?_) fun r x hx => ?_
      · rw [decide_eq_true_iff]
        exact (matches_iff hx.1).symm
      · exact SingleInstruction.means_of_instruction hsyn hx.2

end SingleTable

namespace MultiTable

variable {wildcard : Option Symbol} {syn : Dict String MultiInstruction} {synonyms rows : Mapping}
  {entries : Dict State Value} {t : MultiTable}

theorem matches_iff {key : Value} {p : Pattern} (h : keyPattern? 3 key = some p) {symbols : List Symbol} :
    p.reads wildcard symbols = true ↔ Matches .threeTape wildcard key symbols := by
  obtain ⟨s, rfl, htext, -⟩ := keyPattern?_eq_some_iff.1 h
  rw [Pattern.reads_iff, String.length_toList]
  constructor
  · rintro ⟨hlength, hall⟩
    exact ⟨s, htext, hlength, hlength ▸ hall⟩
  · rintro ⟨s', htext', hlength, hall⟩
    rw [Value.hasText_iff] at htext htext'
    rw [htext, Option.some.injEq] at htext'
    subst htext'
    exact ⟨hlength, hlength.symm ▸ hall⟩

theorem prescribes_row (hentries : List.Forall₂ Enters rows entries.entries)
    (hsyn : (Synonyms.resolved syn).Means synonyms
      fun body i => MultiMeans wildcard [] body ((Instruction.multi i).effect 3))
    (ht : ofEntries 3 wildcard syn entries = .ok t) (state : State) (symbols : List Symbol) :
    Prescribes .threeTape wildcard synonyms rows state symbols
      (((Table.multi t).lookup state symbols).map (·.effect 3)) := by
  obtain ⟨-, hwild, hrows⟩ := ofEntries_eq_ok_iff.1 ht
  cases hget : t.states.get? state with
  | none =>
    have hlookup : (Table.multi t).lookup state symbols = none := by
      simp [Table.lookup, MultiTable.find?, hget]
    rw [hlookup]
    exact .undeclared (not_hasText_of_get? hentries hrows hget)
  | some r =>
    obtain ⟨e, he, hstate, hrow⟩ := exists_enters_of_get? hentries hrows hget
    rcases row_eq_ok_iff.1 hrow with ⟨hempty, rfl⟩ | ⟨m, rules, -, hm, hrules, -, rfl⟩
    · have hlookup : (Table.multi t).lookup state symbols = none := by
        simp [Table.lookup, MultiTable.find?, hget]
      rw [hlookup]
      exact .halting he hstate hempty
    · have hlookup : ((Table.multi t).lookup state symbols).map (·.effect 3) =
          (rules.find? (·.pattern.reads wildcard symbols)).map
            fun rule => (Instruction.multi rule.instruction).effect 3 := by
        simp only [Table.lookup, MultiTable.find?, hget, Option.join_some, Option.bind_some, hwild,
          Option.map_map]
        rfl
      rw [hlookup]
      refine prescribes_find? he hstate hm hrules (fun r x hx => matches_iff hx.1) fun r x hx => ?_
      exact MultiInstruction.means_of_instruction hsyn hx.2

end MultiTable

/-! ## Documents -/

namespace Spec

theorem declares_of_ofMapping {m : Mapping} {s : Spec} (h : ofMapping m = .ok s) {synonyms rows : Mapping}
    (hsynonyms : Field m "synonyms" none ∧ synonyms = [] ∨ Field m "synonyms" (some (.mapping synonyms)))
    (hrows : Field m "table" (some (.mapping rows))) :
    Declares m s.machineType s.wild synonyms rows := by
  obtain ⟨-, hwild, -, htype, -, -, -⟩ := ofMapping_eq_ok_iff.1 h
  refine ⟨?_, fun c => ?_, hsynonyms, hrows⟩
  · simp only [← field?_eq_some_iff, Value.hasText_iff]
    rcases machineTypeOf_eq_ok_iff.1 htype with ⟨hnone, hone⟩ | ⟨v, hv, htext⟩
    · simp [hnone, hone, MachineType.default]
    · rw [hv]
      simp only [Option.some.injEq, exists_eq_left', htext]
      cases s.machineType <;> simp [MachineType.name]
  · simp only [← field?_eq_some_iff, Value.hasText_iff, ← Value.symbol?_eq_some_iff]
    exact eq_some_iff_of_map_eq (wildOf_eq_ok_iff.1 hwild)

theorem prescribes_tableOf {type : MachineType} {wild : Option Symbol} {m rows : Mapping}
    {entries : Dict State Value} {t : Table} (hentries : List.Forall₂ Enters rows entries.entries)
    (h : tableOf type wild (field? m "synonyms") entries = .ok t) :
    t.states = entries.keys ∧ ∃ synonyms,
      (Field m "synonyms" none ∧ synonyms = [] ∨ Field m "synonyms" (some (.mapping synonyms))) ∧
      ∀ state symbols, symbols.length = type.tapes →
        Prescribes type wild synonyms rows state symbols
          ((t.lookup state symbols).map (·.effect type.tapes)) := by
  have ht := tableOf_eq_ok_iff.1 h
  cases type with
  | oneTape =>
    obtain ⟨syn, t, hsyn, ht, rfl⟩ := ht
    obtain ⟨synonyms, names, hfield, hmeans⟩ := Grammar.exists_means hsyn
    refine ⟨SingleTable.keys_of_ofEntries ht, synonyms, hfield, fun state symbols hlength => ?_⟩
    obtain ⟨c, rfl⟩ := List.length_eq_one_iff.1 hlength
    refine SingleTable.prescribes_row hentries (hmeans.mono fun v i hi => ?_) ht state c
    exact SingleInstruction.means_of_instruction (Synonyms.means_unavailable names _) hi
  | threeTape =>
    obtain ⟨syn, t, hsyn, ht, rfl⟩ := ht
    obtain ⟨synonyms, names, hfield, hmeans⟩ := Grammar.exists_means hsyn
    refine ⟨MultiTable.keys_of_ofEntries ht, synonyms, hfield, fun state symbols _ => ?_⟩
    refine MultiTable.prescribes_row hentries (hmeans.mono fun v i hi => ?_) ht state symbols
    exact MultiInstruction.means_of_instruction (Synonyms.means_unavailable names _) hi

/-- The table of a document gives what its rows say, for every state and all symbols that may be read, and
its states are those of the rows, in order. -/
theorem prescribes_lookup {v : Value} {s : Spec} (h : ofValue v = .ok s) :
    ∃ m synonyms rows, v.untagged = .mapping m ∧ Declares m s.machineType s.wild synonyms rows ∧
      List.Forall₂ Value.HasText (rows.map Prod.fst) s.table.states ∧
      ∀ state symbols, symbols.length = s.tapes →
        Prescribes s.machineType s.wild synonyms rows state symbols
          ((s.table.lookup state symbols).map (·.effect s.tapes)) := by
  obtain ⟨m, hm, hs⟩ := ofValue_eq_ok_iff.1 h
  obtain ⟨-, -, -, -, ⟨entries, hentries, htable, -⟩, -, -⟩ := ofMapping_eq_ok_iff.1 hs
  obtain ⟨rows, hrows, henters⟩ := stateEntries_eq_ok_iff.1 hentries
  obtain ⟨hstates, synonyms, hsynonyms, hlookup⟩ := prescribes_tableOf henters htable
  refine ⟨m, synonyms, rows, hm, declares_of_ofMapping hs hsynonyms (field?_eq_some_iff.1 hrows), ?_, hlookup⟩
  rw [hstates, forall₂_hasText_keys_iff]
  exact List.forall₂_map_right_iff.2 (henters.imp fun _ _ he => he.1)

/-- A document for three tapes whose first rule comes through a synonym and names the wildcard. -/
def wildDocument : Value := .mapping [
  (.string "blank", .string "_"),
  (.string "wild", .string "*"),
  (.string "type", .string "3tape"),
  (.string "start state", .string "a"),
  (.string "synonyms", .mapping [(.string "s", .mapping [
    (.string "write", .string "1**"),
    (.string "next", .string "b")])]),
  (.string "table", .mapping [
    (.string "a", .mapping [(.string "0**", .string "s"), (.string "***", .string "RRS")]),
    (.string "b", .null)])]

theorem prescribes_lookup_wildDocument :
    ∃ s m synonyms rows, ofValue wildDocument = .ok s ∧ wildDocument.untagged = .mapping m ∧
      Declares m s.machineType s.wild synonyms rows ∧
      Prescribes s.machineType s.wild synonyms rows "a" ['0', '1', '_']
        (some ⟨[⟨some '1', .stay⟩, ⟨none, .stay⟩, ⟨none, .stay⟩], some "b"⟩) := by
  have hread : ((ofValue wildDocument).toOption.map fun s =>
      (s.tapes, (s.table.lookup "a" ['0', '1', '_']).map (·.effect s.tapes))) =
      some (3, some ⟨[⟨some '1', .stay⟩, ⟨none, .stay⟩, ⟨none, .stay⟩], some "b"⟩) := by
    decide +kernel
  cases hs : ofValue wildDocument with
  | error e =>
    rw [hs] at hread
    cases hread
  | ok s =>
    rw [hs] at hread
    obtain ⟨htapes, hlookup⟩ := Prod.mk.inj (Option.some.inj hread)
    obtain ⟨m, synonyms, rows, hm, hdeclares, -, hall⟩ := prescribes_lookup hs
    have hfirst := hall "a" ['0', '1', '_'] htapes.symm
    rw [hlookup] at hfirst
    exact ⟨s, m, synonyms, rows, rfl, hm, hdeclares, hfirst⟩

end Spec

end TapeMachine
