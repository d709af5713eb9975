import Mathlib.Data.List.Nodup
import MqttBroker.Proofs.TopicTree

/-!
What is bound in a topic tree. Binding and unbinding change what is bound at one pattern and nothing
else, and the values found for a topic name are those bound to a pattern that selects it.
-/

namespace MqttBroker

namespace Branches

variable {α : Type}

def Missing (edge : Level) : Branches α → Prop
  | .nil => True
  | .node e _ _ next => e ≠ edge ∧ Missing edge next

/-- Siblings as binding and unbinding leave them: the edges are distinct, nothing stands below `#`,
no value is twice in a node, and no node is without values and without nodes below it. -/
def Neat : Bool → Branches α → Prop
  | _, .nil => True
  | first, .node edge values below next =>
    edge.Proper first ∧ (edge = .multi → below = .nil) ∧ values.Nodup ∧
      (values = [] → below ≠ .nil) ∧ Missing edge next ∧ Neat false below ∧ Neat first next

theorem ends_iff {first : Bool} {edge : Level} (proper : edge.Proper first)
    (segments : List String) :
    ends first edge segments ↔ Topic.matchesFrom first [edge] segments = true := by
  by_cases multi : edge = .multi
  · subst multi
    cases first <;> simp [ends, Topic.matchesFrom, follows]
  · cases segments with
    | nil => cases edge <;> simp_all [ends, Topic.matchesFrom]
    | cons segment rest =>
        rw [Topic.matchesFrom_cons proper multi]
        simp only [ends, multi, false_and, false_or, Topic.matchesFrom, Bool.and_eq_true,
          List.isEmpty_iff, List.cons.injEq]
        constructor
        · rintro ⟨_, ⟨rfl, last⟩, leads⟩
          exact ⟨leads, last⟩
        · rintro ⟨leads, last⟩
          exact ⟨segment, ⟨rfl, last⟩, leads⟩

theorem missing_chain (v : α) {edge e : Level} (other : edge ≠ e) (path : List Level) :
    Missing e (chain v edge path) := by
  cases path <;> exact ⟨other, trivial⟩

theorem chain_ne_nil (v : α) (edge : Level) (path : List Level) : chain v edge path ≠ .nil := by
  intro same
  cases path <;> cases same

theorem missing_keep {edge e : Level} {values : List α} {below next : Branches α}
    (missing : Missing e (.node edge values below next)) :
    Missing e (keep edge values below next) := by
  unfold keep
  split
  · exact missing.2
  · exact missing

theorem neat_keep {first : Bool} {edge : Level} {values : List α} {below next : Branches α}
    (proper : edge.Proper first) (multi : edge = .multi → below = .nil) (nodup : values.Nodup)
    (missing : Missing edge next) (neatBelow : Neat false below) (neatNext : Neat first next) :
    Neat first (keep edge values below next) := by
  unfold keep
  split
  · exact neatNext
  · rename_i some
    exact ⟨proper, multi, nodup, fun none nothing => some none nothing, missing, neatBelow,
      neatNext⟩

theorem keep_filled {edge : Level} {values : List α} {below : Branches α}
    (filled : values = [] → below ≠ .nil) (next : Branches α) :
    keep edge values below next = .node edge values below next := by
  unfold keep
  split
  · exact absurd rfl (filled rfl)
  · rfl

theorem neat_chain {first : Bool} {edge : Level} {path : List Level}
    (fits : Topic.Fits first (edge :: path)) (v : α) : Neat first (chain v edge path) := by
  induction path generalizing first edge with
  | nil =>
      have filled : [v] ≠ [] := List.cons_ne_nil v []
      exact ⟨fits.1, fun _ => rfl, List.nodup_singleton v, fun none => absurd none filled, trivial,
        trivial, trivial⟩
  | cons next rest ih =>
      obtain ⟨proper, last, fits⟩ := fits
      have single : edge ≠ .multi := fun multi => by cases last multi
      exact ⟨proper, fun multi => absurd multi single, List.nodup_nil,
        fun _ => chain_ne_nil v next rest, trivial, ih fits, trivial⟩

variable [DecidableEq α]

@[simp]
theorem contains_nil (v : α) (edge : Level) (path : List Level) :
    contains v .nil edge path = false := by
  simp [contains]

@[simp]
theorem contains_end (v : α) (edge : Level) (values : List α) (below next : Branches α) :
    contains v (.node edge values below next) edge [] = decide (v ∈ values) := by
  simp [contains]

@[simp]
theorem contains_below (v : α) (edge : Level) (values : List α) (below next : Branches α)
    (level : Level) (rest : List Level) :
    contains v (.node edge values below next) edge (level :: rest) =
      contains v below level rest := by
  simp [contains]

theorem contains_next {own edge : Level} (other : own ≠ edge) (v : α) (values : List α)
    (below next : Branches α) (path : List Level) :
    contains v (.node own values below next) edge path = contains v next edge path := by
  cases path <;> simp [contains, other]

theorem contains_missing {t : Branches α} {edge : Level} (missing : Missing edge t) (v : α)
    (path : List Level) : contains v t edge path = false := by
  induction t with
  | nil => exact contains_nil v edge path
  | node e values below next _ ihNext => rw [contains_next missing.1, ihNext missing.2]

theorem contains_chain {v w : α} {edge e : Level} {path p : List Level} :
    contains w (chain v edge path) e p = true ↔ w = v ∧ e = edge ∧ p = path := by
  induction path generalizing edge e p with
  | nil =>
      rw [chain]
      by_cases same : edge = e
      · subst same
        cases p <;> simp
      · rw [contains_next same]
        simp [Ne.symm same]
  | cons next rest ih =>
      rw [chain]
      by_cases same : edge = e
      · subst same
        cases p <;> simp [ih]
      · rw [contains_next same]
        simp [Ne.symm same]

/-! Binding -/

theorem contains_insert {t : Branches α} {v w : α} {edge e : Level} {path p : List Level} :
    contains w (insert v t edge path) e p = true ↔
      contains w t e p = true ∨ (w = v ∧ e = edge ∧ p = path) := by
  induction t generalizing edge e path p with
  | nil => simp [insert, contains_chain]
  | node own values below next ihBelow ihNext =>
      unfold insert
      by_cases here : own = edge
      · subst here
        rw [if_pos rfl]
        by_cases same : own = e
        · subst same
          cases path with
          | nil => cases p <;> simp [or_comm]
          | cons first rest => cases p <;> simp [ihBelow]
        · cases path <;> simp [contains_next same, Ne.symm same]
      · rw [if_neg here]
        by_cases same : own = e
        · subst same
          cases p <;> simp [here]
        · rw [contains_next same, contains_next same, ihNext]

theorem missing_insert {t : Branches α} {edge e : Level} (missing : Missing e t)
    (other : edge ≠ e) (v : α) (path : List Level) : Missing e (insert v t edge path) := by
  induction t with
  | nil => exact missing_chain v other path
  | node own values below next _ ihNext =>
      unfold insert
      split
      · cases path <;> exact missing
      · exact ⟨missing.1, ihNext missing.2⟩

theorem insert_ne_nil (v : α) (t : Branches α) (edge : Level) (path : List Level) :
    insert v t edge path ≠ .nil := by
  cases t with
  | nil => exact chain_ne_nil v edge path
  | node own values below next =>
      unfold insert
      intro same
      split at same
      · cases path <;> cases same
      · cases same

theorem neat_insert {first : Bool} {t : Branches α} (neat : Neat first t) {edge : Level}
    {path : List Level} (fits : Topic.Fits first (edge :: path)) (v : α) :
    Neat first (insert v t edge path) := by
  induction t generalizing first edge path with
  | nil => exact neat_chain fits v
  | node own values below next ihBelow ihNext =>
      obtain ⟨proper, multi, nodup, filled, missing, neatBelow, neatNext⟩ := neat
      unfold insert
      by_cases here : own = edge
      · subst here
        rw [if_pos rfl]
        cases path with
        | nil =>
            have some : values.insert v ≠ [] := List.ne_nil_of_mem (List.mem_insert_self)
            exact ⟨proper, multi, nodup.insert, fun none => absurd none some, missing, neatBelow,
              neatNext⟩
        | cons level rest =>
            obtain ⟨_, last, fits⟩ := fits
            have single : own ≠ .multi := fun multi => by cases last multi
            exact ⟨proper, fun multi => absurd multi single, nodup,
              fun _ => insert_ne_nil v below level rest, missing, ihBelow neatBelow fits, neatNext⟩
      · rw [if_neg here]
        exact ⟨proper, multi, nodup, filled, missing_insert missing (Ne.symm here) v path,
          neatBelow, ihNext neatNext fits⟩

/-! Unbinding -/

theorem contains_keep {edge : Level} {values : List α} {below next : Branches α}
    (missing : Missing edge next) (w : α) (e : Level) (p : List Level) :
    contains w (keep edge values below next) e p =
      contains w (.node edge values below next) e p := by
  unfold keep
  split
  · by_cases same : edge = e
    · subst same
      rw [contains_missing missing]
      cases p <;> simp
    · rw [contains_next same]
  · rfl

theorem contains_remove {first : Bool} {t : Branches α} (neat : Neat first t) {v w : α}
    {edge e : Level} {path p : List Level} :
    contains w (remove v t edge path) e p = true ↔
      contains w t e p = true ∧ ¬(w = v ∧ e = edge ∧ p = path) := by
  induction t generalizing first edge e path p with
  | nil => simp [remove]
  | node own values below next ihBelow ihNext =>
      obtain ⟨_, _, nodup, _, missing, neatBelow, neatNext⟩ := neat
      unfold remove
      by_cases here : own = edge
      · subst here
        rw [if_pos rfl]
        by_cases same : own = e
        · subst same
          cases path with
          | nil => cases p <;> simp [contains_keep missing, nodup.mem_erase_iff, and_comm]
          | cons level rest => cases p <;> simp [contains_keep missing, ihBelow neatBelow]
        · cases path <;> simp [contains_keep missing, contains_next same, Ne.symm same]
      · rw [if_neg here]
        by_cases same : own = e
        · subst same
          cases p <;> simp [here]
        · rw [contains_next same, contains_next same, ihNext neatNext]

theorem missing_remove {t : Branches α} {e : Level} (missing : Missing e t) (v : α)
    (edge : Level) (path : List Level) : Missing e (remove v t edge path) := by
  induction t with
  | nil => trivial
  | node own values below next _ ihNext =>
      unfold remove
      split
      · cases path <;> exact missing_keep missing
      · exact ⟨missing.1, ihNext missing.2⟩

theorem neat_remove {first : Bool} {t : Branches α} (neat : Neat first t) (v : α) (edge : Level)
    (path : List Level) : Neat first (remove v t edge path) := by
  induction t generalizing first edge path with
  | nil => trivial
  | node own values below next ihBelow ihNext =>
      obtain ⟨proper, multi, nodup, filled, missing, neatBelow, neatNext⟩ := neat
      unfold remove
      split
      · cases path with
        | nil => exact neat_keep proper multi (nodup.erase v) missing neatBelow neatNext
        | cons level rest =>
            have none : own = .multi → remove v below level rest = .nil := by
              intro wildcard
              rw [multi wildcard]
              rfl
            exact neat_keep proper none nodup missing (ihBelow neatBelow level rest) neatNext
      · exact ⟨proper, multi, nodup, filled, missing_remove missing v edge path, neatBelow,
          ihNext neatNext edge path⟩

theorem remove_unbound {first : Bool} {t : Branches α} (neat : Neat first t) {v : α}
    {edge : Level} {path : List Level} (unbound : contains v t edge path = false) :
    remove v t edge path = t := by
  induction t generalizing first edge path with
  | nil => rfl
  | node own values below next ihBelow ihNext =>
      obtain ⟨_, _, _, filled, _, neatBelow, neatNext⟩ := neat
      unfold remove
      -- only nodes that bind nothing are pruned, and a neat tree has none
      by_cases here : own = edge
      · subst here
        rw [if_pos rfl]
        cases path with
        | nil =>
            have absent : v ∉ values := by simpa using unbound
            simp only [List.erase_of_not_mem absent, keep_filled filled]
        | cons level rest =>
            rw [contains_below] at unbound
            simp only [ihBelow neatBelow unbound, keep_filled filled]
      · rw [contains_next here] at unbound
        rw [if_neg here, ihNext neatNext unbound]

theorem missing_clear {t : Branches α} {e : Level} (missing : Missing e t) (v : α) :
    Missing e (clear v t) := by
  induction t with
  | nil => trivial
  | node own values below next _ ihNext => exact missing_keep ⟨missing.1, ihNext missing.2⟩

theorem neat_clear {first : Bool} {t : Branches α} (neat : Neat first t) (v : α) :
    Neat first (clear v t) := by
  induction t generalizing first with
  | nil => trivial
  | node own values below next ihBelow ihNext =>
      obtain ⟨proper, multi, nodup, _, missing, neatBelow, neatNext⟩ := neat
      have none : own = .multi → clear v below = .nil := by
        intro wildcard
        rw [multi wildcard]
        rfl
      exact neat_keep proper none (nodup.erase v) (missing_clear missing v) (ihBelow neatBelow)
        (ihNext neatNext)

theorem contains_clear {first : Bool} {t : Branches α} (neat : Neat first t) {v w : α}
    {e : Level} {p : List Level} :
    contains w (clear v t) e p = true ↔ contains w t e p = true ∧ w ≠ v := by
  induction t generalizing first e p with
  | nil => simp [clear]
  | node own values below next ihBelow ihNext =>
      obtain ⟨_, _, nodup, _, missing, neatBelow, neatNext⟩ := neat
      rw [clear, contains_keep (missing_clear missing v)]
      by_cases same : own = e
      · subst same
        cases p <;> simp [nodup.mem_erase_iff, ihBelow neatBelow, and_comm]
      · rw [contains_next same, contains_next same, ihNext neatNext]

/-! Finding -/

theorem mem_find_iff {first : Bool} {t : Branches α} (neat : Neat first t) {w : α}
    {segments : List String} :
    w ∈ find first t segments ↔ ∃ edge path, contains w t edge path = true ∧
      Topic.matchesFrom first (edge :: path) segments = true := by
  induction t generalizing first segments with
  | nil => simp [find]
  | node own values below next ihBelow ihNext =>
      obtain ⟨proper, multi, _, _, missing, neatBelow, neatNext⟩ := neat
      rw [mem_find_node, ends_iff proper, ihNext neatNext]
      constructor
      · rintro (⟨selects, member⟩ | ⟨segment, rest, rfl, leads, deeper⟩ |
          ⟨edge, path, bound, selects⟩)
        · exact ⟨own, [], by simpa using member, selects⟩
        · obtain ⟨edge, path, bound, selects⟩ := (ihBelow neatBelow).mp deeper
          have single : own ≠ .multi := by
            intro wildcard
            rw [multi wildcard, contains_nil] at bound
            cases bound
          refine ⟨own, edge :: path, by simpa using bound, ?_⟩
          rw [Topic.matchesFrom_cons proper single, leads, selects]
          rfl
        · have other : own ≠ edge := by
            intro same
            rw [← same, contains_missing missing] at bound
            cases bound
          exact ⟨edge, path, by rw [contains_next other]; exact bound, selects⟩
      · rintro ⟨edge, path, bound, selects⟩
        by_cases same : own = edge
        · subst same
          cases path with
          | nil => exact Or.inl ⟨selects, by simpa using bound⟩
          | cons level rest =>
              rw [contains_below] at bound
              have single : own ≠ .multi := by
                intro wildcard
                rw [multi wildcard, contains_nil] at bound
                cases bound
              cases segments with
              | nil => cases own <;> simp_all [Topic.matchesFrom]
              | cons segment others =>
                  rw [Topic.matchesFrom_cons proper single, Bool.and_eq_true] at selects
                  exact Or.inr (Or.inl ⟨segment, others, rfl, selects.1,
                    (ihBelow neatBelow).mpr ⟨level, rest, bound, selects.2⟩⟩)
        · rw [contains_next same] at bound
          exact Or.inr (Or.inr ⟨edge, path, bound, selects⟩)

end Branches

namespace TopicTree

variable {α : Type} [DecidableEq α]

structure Neat (tree : TopicTree α) : Prop where
  root : tree.root = []
  branches : tree.branches.Neat true

omit [DecidableEq α] in
theorem neat_empty : Neat ({} : TopicTree α) := ⟨rfl, trivial⟩

theorem levels_cons {text : String} {pattern : Topic} (parsed : Topic.parse text = .ok pattern) :
    ∃ edge path, pattern.levels = edge :: path ∧ Topic.Fits true (edge :: path) := by
  obtain ⟨read, fits⟩ := Topic.parse_fits parsed
  cases pieces : Text.splitAll '/' text with
  | nil => exact absurd pieces (Text.splitAll_ne_nil '/' text)
  | cons first rest =>
      rw [pieces] at read
      obtain ⟨level, more, _, _, same⟩ := Topic.parseLevels_cons read
      rw [same] at fits
      exact ⟨level, more, same, fits⟩

theorem Neat.insert {tree : TopicTree α} (neat : tree.Neat) {text : String} {pattern : Topic}
    (parsed : Topic.parse text = .ok pattern) (v : α) : (tree.insert pattern v).1.Neat := by
  obtain ⟨edge, path, levels, fits⟩ := levels_cons parsed
  simp only [TopicTree.insert, levels]
  exact ⟨neat.root, Branches.neat_insert neat.branches fits v⟩

theorem Neat.remove {tree : TopicTree α} (neat : tree.Neat) (pattern : Topic) (v : α) :
    (tree.remove pattern v).1.Neat := by
  unfold TopicTree.remove
  dsimp only
  split
  · exact ⟨by rw [neat.root]; rfl, neat.branches⟩
  · exact ⟨neat.root, Branches.neat_remove neat.branches ..⟩

theorem Neat.clear {tree : TopicTree α} (neat : tree.Neat) (v : α) : (tree.clear v).1.Neat :=
  ⟨by rw [TopicTree.clear, neat.root]; rfl, Branches.neat_clear neat.branches v⟩

@[simp]
theorem contains_root (tree : TopicTree α) (v : α) :
    tree.contains ⟨[]⟩ v = decide (v ∈ tree.root) := rfl

@[simp]
theorem contains_levels (tree : TopicTree α) (edge : Level) (path : List Level) (v : α) :
    tree.contains ⟨edge :: path⟩ v = tree.branches.contains v edge path := rfl

theorem contains_insert {tree : TopicTree α} {pattern other : Topic} {v w : α} :
    (tree.insert pattern v).1.contains other w = true ↔
      tree.contains other w = true ∨ (w = v ∧ other = pattern) := by
  obtain ⟨levels⟩ := pattern
  obtain ⟨others⟩ := other
  cases levels with
  | nil => cases others <;> simp [TopicTree.insert, or_comm]
  | cons edge path =>
      cases others <;> simp [TopicTree.insert, Branches.contains_insert]

theorem contains_remove {tree : TopicTree α} (neat : tree.Neat) {pattern other : Topic}
    {v w : α} :
    (tree.remove pattern v).1.contains other w = true ↔
      tree.contains other w = true ∧ ¬(w = v ∧ other = pattern) := by
  obtain ⟨levels⟩ := pattern
  obtain ⟨others⟩ := other
  cases levels <;> cases others <;>
    simp_all [TopicTree.remove, Branches.contains_remove neat.branches, neat.root]

theorem contains_clear {tree : TopicTree α} (neat : tree.Neat) {pattern : Topic} {v w : α} :
    (tree.clear v).1.contains pattern w = true ↔ tree.contains pattern w = true ∧ w ≠ v := by
  obtain ⟨levels⟩ := pattern
  cases levels <;>
    simp [TopicTree.clear, Branches.contains_clear neat.branches, neat.root]

theorem remove_unbound {tree : TopicTree α} (neat : tree.Neat) {pattern : Topic} {v : α}
    (unbound : tree.contains pattern v = false) : (tree.remove pattern v).1 = tree := by
  obtain ⟨levels⟩ := pattern
  cases levels with
  | nil =>
      have absent : v ∉ tree.root := by simp [neat.root]
      simp only [TopicTree.remove, List.erase_of_not_mem absent]
  | cons edge path => simp only [TopicTree.remove, Branches.remove_unbound neat.branches unbound]

theorem mem_find_iff {tree : TopicTree α} (neat : tree.Neat) {name : String} {w : α} :
    w ∈ tree.find name ↔
      ∃ pattern, tree.contains pattern w = true ∧ pattern.matchesName name = true := by
  rw [mem_find, Branches.mem_find_iff neat.branches]
  constructor
  · rintro ⟨edge, path, bound, selects⟩
    exact ⟨⟨edge :: path⟩, bound, selects⟩
  · rintro ⟨⟨levels⟩, bound, selects⟩
    cases levels with
    | nil => simp [neat.root] at bound
    | cons edge path => exact ⟨edge, path, bound, selects⟩

theorem nodup_eraseDups (values : List α) : values.eraseDups.Nodup := by
  match values with
  | [] => simp
  | value :: rest =>
      rw [List.eraseDups_cons, List.nodup_cons]
      refine ⟨?_, nodup_eraseDups _⟩
      simp [List.mem_eraseDups]
termination_by values.length
decreasing_by exact Nat.lt_succ_of_le (List.length_filter_le ..)

theorem find_nodup (tree : TopicTree α) (name : String) : (tree.find name).Nodup :=
  nodup_eraseDups _

end TopicTree

end MqttBroker
