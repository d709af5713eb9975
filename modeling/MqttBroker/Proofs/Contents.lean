import Mathlib.Data.Finset.Card
import Mathlib.Data.Finset.Union
import Mathlib.Data.List.Infix
import MqttBroker.Proofs.Bindings

/-!
A topic tree as a set of bound pairs. Its sizes count the pairs and the prefixes of their patterns,
what a change answers is read off the set, and so is what is found for a topic name.
-/

namespace MqttBroker

namespace Branches

variable {α : Type}

def bindings : Branches α → List (List Level × α)
  | .nil => []
  | .node edge values below next =>
    values.map (fun value => ([edge], value)) ++
      (below.bindings.map (fun bound => (edge :: bound.1, bound.2)) ++ next.bindings)

def paths : Branches α → List (List Level)
  | .nil => []
  | .node edge _ below next => [edge] :: (below.paths.map (List.cons edge) ++ next.paths)

theorem length_bindings (t : Branches α) : t.bindings.length = t.valuesSize := by
  induction t with
  | nil => rfl
  | node edge values below next ihBelow ihNext =>
      simp only [bindings, valuesSize, List.length_append, List.length_map, ihBelow, ihNext]
      omega

theorem length_paths (t : Branches α) : t.paths.length = t.nodesSize := by
  induction t with
  | nil => rfl
  | node edge values below next ihBelow ihNext =>
      simp only [paths, nodesSize, List.length_cons, List.length_append, List.length_map, ihBelow,
        ihNext]
      omega

theorem nil_not_mem_bindings (t : Branches α) (v : α) : ([], v) ∉ t.bindings := by
  induction t with
  | nil => exact List.not_mem_nil
  | node edge values below next _ ihNext => simp [bindings, ihNext]

theorem nil_not_mem_paths (t : Branches α) : [] ∉ t.paths := by
  induction t with
  | nil => exact List.not_mem_nil
  | node edge values below next _ ihNext => simp [paths, ihNext]

theorem not_mem_paths {t : Branches α} {edge : Level} (missing : Missing edge t)
    (path : List Level) : edge :: path ∉ t.paths := by
  induction t with
  | nil => exact List.not_mem_nil
  | node own values below next _ ihNext =>
      intro member
      simp only [paths, List.mem_cons, List.mem_append, List.mem_map] at member
      rcases member with same | ⟨_, _, same⟩ | later
      · cases same
        exact missing.1 rfl
      · cases same
        exact missing.1 rfl
      · exact ihNext missing.2 later

theorem paths_nodup {first : Bool} {t : Branches α} (neat : Neat first t) : t.paths.Nodup := by
  induction t generalizing first with
  | nil => exact List.nodup_nil
  | node own values below next ihBelow ihNext =>
      obtain ⟨_, _, _, _, missing, neatBelow, neatNext⟩ := neat
      rw [paths, List.nodup_cons, List.nodup_append']
      refine ⟨?_, (ihBelow neatBelow).map (List.cons_injective), ihNext neatNext, ?_⟩
      · intro member
        rcases List.mem_append.mp member with deeper | beside
        · obtain ⟨path, inside, same⟩ := List.mem_map.mp deeper
          cases same
          exact nil_not_mem_paths below inside
        · exact not_mem_paths missing [] beside
      · intro path member
        obtain ⟨rest, _, rfl⟩ := List.mem_map.mp member
        exact not_mem_paths missing rest

variable [DecidableEq α]

theorem countP_bindings (t : Branches α) (v : α) :
    t.bindings.countP (fun bound => bound.2 = v) = t.count v := by
  induction t with
  | nil => rfl
  | node edge values below next ihBelow ihNext =>
      have own : values.countP (fun value => decide (value = v)) = values.count v := by
        rw [List.count]
        apply List.countP_congr
        intro value _
        simp
      simp only [bindings, count, List.countP_append, List.countP_map, Function.comp_def, own,
        ← ihBelow, ← ihNext]
      omega

theorem mem_bindings {first : Bool} {t : Branches α} (neat : Neat first t) {edge : Level}
    {path : List Level} {v : α} :
    (edge :: path, v) ∈ t.bindings ↔ contains v t edge path = true := by
  induction t generalizing first edge path with
  | nil => simp [bindings]
  | node own values below next ihBelow ihNext =>
      obtain ⟨_, _, _, _, missing, neatBelow, neatNext⟩ := neat
      simp only [bindings, List.mem_append, List.mem_map, Prod.mk.injEq, List.cons.injEq,
        ihNext neatNext]
      by_cases same : own = edge
      · subst same
        rw [contains_missing missing]
        cases path with
        | nil =>
            simp only [contains_end, decide_eq_true_iff]
            constructor
            · rintro (⟨value, member, _, rfl⟩ | ⟨⟨_, value⟩, member, ⟨_, rfl⟩, rfl⟩ | absent)
              · exact member
              · exact absurd member (nil_not_mem_bindings below value)
              · cases absent
            · intro member
              exact Or.inl ⟨v, member, ⟨trivial, trivial⟩, rfl⟩
        | cons level rest =>
            rw [contains_below, ← ihBelow neatBelow]
            constructor
            · rintro (⟨_, _, ⟨_, short⟩, _⟩ | ⟨⟨_, value⟩, member, ⟨_, rfl⟩, rfl⟩ | absent)
              · cases short
              · exact member
              · cases absent
            · intro member
              exact Or.inr (Or.inl ⟨_, member, ⟨rfl, rfl⟩, rfl⟩)
      · simp [contains_next same, same]

theorem bindings_nodup {first : Bool} {t : Branches α} (neat : Neat first t) :
    t.bindings.Nodup := by
  induction t generalizing first with
  | nil => exact List.nodup_nil
  | node own values below next ihBelow ihNext =>
      obtain ⟨_, _, nodup, _, missing, neatBelow, neatNext⟩ := neat
      have elsewhere : ∀ path v, (own :: path, v) ∉ next.bindings := by
        intro path v member
        rw [mem_bindings neatNext, contains_missing missing] at member
        cases member
      rw [bindings, List.nodup_append', List.nodup_append']
      refine ⟨nodup.map ?_, ⟨(ihBelow neatBelow).map ?_, ihNext neatNext, ?_⟩, ?_⟩
      · intro v w same
        exact (Prod.mk.inj same).2
      · rintro ⟨p, v⟩ ⟨q, w⟩ same
        cases same
        rfl
      · intro bound member
        obtain ⟨_, _, rfl⟩ := List.mem_map.mp member
        exact elsewhere _ _
      · intro bound member later
        obtain ⟨v, _, rfl⟩ := List.mem_map.mp member
        rcases List.mem_append.mp later with deeper | beside
        · obtain ⟨⟨path, w⟩, inside, same⟩ := List.mem_map.mp deeper
          cases same
          exact nil_not_mem_bindings below w inside
        · exact elsewhere [] v beside

theorem exists_bound {first : Bool} {t : Branches α} (neat : Neat first t) (some : t ≠ .nil) :
    ∃ edge path v, contains v t edge path = true := by
  induction t generalizing first with
  | nil => exact absurd rfl some
  | node own values below next ihBelow _ =>
      obtain ⟨_, _, _, filled, _, neatBelow, _⟩ := neat
      cases values with
      | nil =>
          -- a node without values has been kept for one further down
          obtain ⟨level, rest, v, bound⟩ := ihBelow neatBelow (filled rfl)
          exact ⟨own, level :: rest, v, by simpa using bound⟩
      | cons v others => exact ⟨own, [], v, by simp⟩

theorem mem_paths {first : Bool} {t : Branches α} (neat : Neat first t) {edge : Level}
    {path : List Level} :
    edge :: path ∈ t.paths ↔ ∃ more v, contains v t edge (path ++ more) = true := by
  induction t generalizing first edge path with
  | nil => simp [paths]
  | node own values below next ihBelow ihNext =>
      obtain ⟨_, _, _, filled, missing, neatBelow, neatNext⟩ := neat
      simp only [paths, List.mem_cons, List.mem_append, List.mem_map, List.cons.injEq,
        ihNext neatNext]
      by_cases same : own = edge
      · subst same
        simp only [contains_missing missing, Bool.false_eq_true, exists_false, or_false]
        cases path with
        | nil =>
            refine iff_of_true (Or.inl ⟨trivial, rfl⟩) ?_
            cases values with
            | nil =>
                obtain ⟨level, rest, v, bound⟩ := exists_bound neatBelow (filled rfl)
                exact ⟨level :: rest, v, by simpa using bound⟩
            | cons v others => exact ⟨[], v, by simp⟩
        | cons level rest =>
            simp only [List.cons_append, contains_below, ← ihBelow neatBelow]
            constructor
            · rintro (⟨_, short⟩ | ⟨_, member, _, rfl⟩)
              · cases short
              · exact member
            · intro member
              exact Or.inr ⟨_, member, trivial, rfl⟩
      · simp [contains_next same, same, Ne.symm same]

end Branches

namespace TopicTree

variable {α : Type} [DecidableEq α]

omit [DecidableEq α] in
theorem isEmpty_iff (tree : TopicTree α) :
    tree.isEmpty = true ↔ tree.root = [] ∧ tree.branches = .nil := by
  unfold isEmpty
  split
  · rename_i root branches
    exact iff_of_true rfl ⟨root, branches⟩
  · rename_i filled
    exact iff_of_false Bool.false_ne_true fun none => filled none.1 none.2

structure Pattern where
  topic : Topic
  parsed : ∃ text, Topic.parse text = .ok topic

inductive Change (α : Type)
  | insert (pattern : Pattern) (value : α)
  | remove (pattern : Pattern) (value : α)
  | clear (value : α)

inductive Answer
  | changed (really : Bool)
  | cleared (number : Nat)
deriving DecidableEq

def change (tree : TopicTree α) : Change α → TopicTree α × Answer
  | .insert pattern value => (tree.insert pattern.topic value).map id .changed
  | .remove pattern value => (tree.remove pattern.topic value).map id .changed
  | .clear value => (tree.clear value).map id .cleared

def changeSet (bound : Finset (Topic × α)) : Change α → Finset (Topic × α) × Answer
  | .insert pattern value =>
    (Insert.insert (pattern.topic, value) bound, .changed ((pattern.topic, value) ∉ bound))
  | .remove pattern value =>
    (bound.erase (pattern.topic, value), .changed ((pattern.topic, value) ∈ bound))
  | .clear value =>
    (bound.filter fun pair => pair.2 ≠ value,
      .cleared (bound.filter fun pair => pair.2 = value).card)

def changeAll {State : Type} (apply : State → Change α → State × Answer) :
    State → List (Change α) → State × List Answer
  | state, [] => (state, [])
  | state, change :: changes =>
    let (changed, answer) := apply state change
    (changeAll apply changed changes).map id (List.cons answer)

def prefixes (bound : Finset (Topic × α)) : Finset (List Level) :=
  bound.biUnion fun pair => (pair.1.levels.inits.filter (· ≠ [])).toFinset

omit [DecidableEq α] in
theorem mem_prefixes {bound : Finset (Topic × α)} {path : List Level} :
    path ∈ prefixes bound ↔ path ≠ [] ∧ ∃ pattern v, (pattern, v) ∈ bound ∧
      ∃ more, path ++ more = pattern.levels := by
  simp only [prefixes, Finset.mem_biUnion, List.mem_toFinset, List.mem_filter, List.mem_inits,
    decide_eq_true_iff, Prod.exists]
  constructor
  · rintro ⟨pattern, v, member, ⟨more, whole⟩, some⟩
    exact ⟨some, pattern, v, member, more, whole⟩
  · rintro ⟨some, pattern, v, member, more, whole⟩
    exact ⟨pattern, v, member, ⟨more, whole⟩, some⟩

/-- The tree holds exactly the bound pairs: its sizes count them and the prefixes of their patterns,
and for a topic name it finds, each once, the values bound to a pattern that selects it. -/
structure Represents (tree : TopicTree α) (bound : Finset (Topic × α)) : Prop where
  bindings : ∀ pattern v, tree.contains pattern v = true ↔ (pattern, v) ∈ bound
  values : tree.valuesSize = bound.card
  empty : tree.isEmpty = true ↔ bound = ∅
  nodes : tree.nodesSize = (prefixes bound).card
  unique : ∀ name, (tree.find name).Nodup
  found : ∀ name v, v ∈ tree.find name ↔
    ∃ pattern, (pattern, v) ∈ bound ∧ pattern.matchesName name = true

def bindings (tree : TopicTree α) : List (Topic × α) :=
  tree.branches.bindings.map fun bound => (⟨bound.1⟩, bound.2)

theorem contains_eq {tree : TopicTree α} {bound : Finset (Topic × α)}
    (held : ∀ pattern v, tree.contains pattern v = true ↔ (pattern, v) ∈ bound)
    (pattern : Topic) (v : α) :
    tree.contains pattern v = decide ((pattern, v) ∈ bound) := by
  rw [Bool.eq_iff_iff, held, decide_eq_true_iff]

namespace Neat

variable {tree : TopicTree α} (neat : tree.Neat)

include neat

theorem mem_bindings {pattern : Topic} {v : α} :
    (pattern, v) ∈ tree.bindings ↔ tree.contains pattern v = true := by
  obtain ⟨levels⟩ := pattern
  have read : (⟨levels⟩, v) ∈ tree.bindings ↔ (levels, v) ∈ tree.branches.bindings := by
    simp [TopicTree.bindings]
  rw [read]
  cases levels with
  | nil => simp [neat.root, Branches.nil_not_mem_bindings]
  | cons edge path => rw [Branches.mem_bindings neat.branches, contains_levels]

theorem bindings_nodup : tree.bindings.Nodup := by
  apply (Branches.bindings_nodup neat.branches).map
  rintro ⟨p, v⟩ ⟨q, w⟩ same
  cases same
  rfl

theorem isEmpty_iff_bindings : tree.isEmpty = true ↔ tree.bindings = [] := by
  rw [isEmpty_iff]
  constructor
  · rintro ⟨_, none⟩
    rw [TopicTree.bindings, none]
    rfl
  · intro none
    refine ⟨neat.root, ?_⟩
    by_contra some
    obtain ⟨edge, path, v, bound⟩ := Branches.exists_bound neat.branches some
    have member := neat.mem_bindings.mpr ((contains_levels tree edge path v).trans bound)
    rw [none] at member
    cases member

variable {bound : Finset (Topic × α)}
  (held : ∀ pattern v, tree.contains pattern v = true ↔ (pattern, v) ∈ bound)

include held

theorem toFinset_bindings : tree.bindings.toFinset = bound := by
  ext ⟨pattern, v⟩
  rw [List.mem_toFinset, neat.mem_bindings, held]

theorem toFinset_paths : tree.branches.paths.toFinset = prefixes bound := by
  ext path
  rw [List.mem_toFinset, mem_prefixes]
  cases path with
  | nil => simp [Branches.nil_not_mem_paths]
  | cons edge path =>
      rw [Branches.mem_paths neat.branches]
      constructor
      · rintro ⟨more, v, inside⟩
        exact ⟨List.cons_ne_nil _ _, ⟨edge :: (path ++ more)⟩, v, (held _ _).mp inside, more, rfl⟩
      · rintro ⟨_, pattern, v, member, more, whole⟩
        obtain ⟨levels⟩ := pattern
        subst whole
        exact ⟨more, v, (held _ _).mpr member⟩

theorem represents : tree.Represents bound where
  bindings := held
  values := by
    rw [← neat.toFinset_bindings held, List.toFinset_card_of_nodup neat.bindings_nodup,
      TopicTree.bindings, List.length_map, Branches.length_bindings, valuesSize, neat.root]
    exact Nat.zero_add _
  empty := by
    rw [neat.isEmpty_iff_bindings, ← neat.toFinset_bindings held, List.toFinset_eq_empty_iff]
  nodes := by
    rw [← neat.toFinset_paths held, List.toFinset_card_of_nodup (Branches.paths_nodup neat.branches),
      Branches.length_paths, nodesSize]
  unique := tree.find_nodup
  found name v := by
    rw [mem_find_iff neat]
    simp only [held]

theorem clear_number (v : α) :
    (tree.clear v).2 = (bound.filter fun pair => pair.2 = v).card := by
  have counted : (bound.filter fun pair => pair.2 = v) =
      (tree.bindings.filter fun pair => pair.2 = v).toFinset := by
    rw [List.toFinset_filter, neat.toFinset_bindings held]
    simp
  rw [counted, List.toFinset_card_of_nodup (neat.bindings_nodup.filter _),
    ← List.countP_eq_length_filter, TopicTree.bindings, List.countP_map, TopicTree.clear, neat.root]
  simp only [Function.comp_def, Branches.countP_bindings, List.count_nil, Nat.zero_add]

/-- One change keeps a tree and a set together, and answers the same of both. -/
theorem change_represents (next : Change α) :
    (tree.change next).1.Neat ∧
      (∀ pattern v, (tree.change next).1.contains pattern v = true ↔
        (pattern, v) ∈ (changeSet bound next).1) ∧
      (tree.change next).2 = (changeSet bound next).2 := by
  cases next with
  | insert pattern value =>
      obtain ⟨text, parsed⟩ := pattern.parsed
      refine ⟨neat.insert parsed value, ?_, ?_⟩
      · intro other v
        simp only [change, changeSet, Prod.map_fst, id, contains_insert, held, Finset.mem_insert,
          Prod.mk.injEq]
        tauto
      · simp only [change, changeSet, TopicTree.insert, Prod.map_snd, contains_eq held,
          decide_not]
  | remove pattern value =>
      refine ⟨neat.remove pattern.topic value, ?_, ?_⟩
      · intro other v
        simp only [change, changeSet, Prod.map_fst, id, contains_remove neat, held,
          Finset.mem_erase, ne_eq, Prod.mk.injEq]
        tauto
      · simp only [change, changeSet, TopicTree.remove, Prod.map_snd, contains_eq held]
  | clear value =>
      refine ⟨neat.clear value, ?_, ?_⟩
      · intro other v
        simp only [change, changeSet, Prod.map_fst, id, contains_clear neat, held,
          Finset.mem_filter]
      · simp only [change, changeSet, Prod.map_snd, neat.clear_number held]

theorem changeAll_represents (changes : List (Change α)) :
    (changeAll change tree changes).1.Represents (changeAll changeSet bound changes).1 ∧
      (changeAll change tree changes).2 = (changeAll changeSet bound changes).2 := by
  induction changes generalizing tree bound with
  | nil => exact ⟨neat.represents held, rfl⟩
  | cons next changes ih =>
      obtain ⟨neatNext, heldNext, answer⟩ := neat.change_represents held next
      obtain ⟨represents, answers⟩ := ih neatNext heldNext
      refine ⟨represents, ?_⟩
      simp only [changeAll, Prod.map_snd, answer, answers]

end Neat

/-- Whatever is bound, unbound and cleared in an empty tree, it represents the set of the pairs then
bound, and each change answers what it does to that set. -/
theorem changeAll_empty_represents (changes : List (Change α)) :
    (changeAll change ({} : TopicTree α) changes).1.Represents
        (changeAll changeSet (∅ : Finset (Topic × α)) changes).1 ∧
      (changeAll change ({} : TopicTree α) changes).2 =
        (changeAll changeSet (∅ : Finset (Topic × α)) changes).2 := by
  apply neat_empty.changeAll_represents
  intro pattern v
  obtain ⟨levels⟩ := pattern
  cases levels <;> simp

end TopicTree

end MqttBroker
