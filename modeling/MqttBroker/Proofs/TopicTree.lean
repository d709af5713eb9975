import MqttBroker.Proofs.Pieces
import MqttBroker.Proofs.Success
import MqttBroker.Topic.Tree

/-!
What is found in a topic tree: the values bound to a pattern that selects the topic name. Binding a
value adds what its pattern selects, unbinding adds nothing.
-/

namespace MqttBroker

namespace Level

def Proper (first : Bool) : Level → Prop
  | .normal text => text ≠ "" ∧ (first && hidden text) = false
  | .metadata text => first = true ∧ hidden text = true
  | _ => True

theorem parse_proper {first : Bool} {text : String} {level : Level}
    (parsed : parse first text = .ok level) : level.Proper first := by
  unfold parse at parsed
  repeat' split at parsed
  all_goals cases parsed
  all_goals simp_all [Proper]

end Level

namespace Topic

/-- The levels of a pattern as they are read from text: `#` stands last. -/
def Fits : Bool → List Level → Prop
  | _, [] => True
  | first, level :: rest => level.Proper first ∧ (level = .multi → rest = []) ∧ Fits false rest

theorem parseLevels_cons {first : Bool} {text : String} {rest : List String}
    {levels : List Level} (parsed : parseLevels first (text :: rest) = .ok levels) :
    ∃ level more, Level.parse first text = .ok level ∧ parseLevels false rest = .ok more ∧
      levels = level :: more := by
  simp only [parseLevels, bind_eq_ok] at parsed
  obtain ⟨level, found, more, others, same⟩ := parsed
  cases same
  exact ⟨level, more, found, others, rfl⟩

theorem parseLevels_fits {first : Bool} {texts : List String} {levels : List Level}
    (parsed : parseLevels first texts = .ok levels) (last : levels.dropLast.contains .multi = false) :
    Fits first levels := by
  induction texts generalizing first levels with
  | nil =>
      cases parsed
      trivial
  | cons text rest ih =>
      obtain ⟨level, more, found, others, rfl⟩ := parseLevels_cons parsed
      cases more with
      | nil => exact ⟨Level.parse_proper found, fun _ => rfl, trivial⟩
      | cons next more =>
          simp only [List.dropLast_cons_cons, List.contains_cons, Bool.or_eq_false_iff] at last
          refine ⟨Level.parse_proper found, fun multi => ?_, ih others last.2⟩
          simp [multi] at last

theorem parse_fits {text : String} {topic : Topic} (parsed : parse text = .ok topic) :
    parseLevels true (Text.splitAll '/' text) = .ok topic.levels ∧ Fits true topic.levels := by
  simp only [parse, bind_eq_ok, guard_eq_ok] at parsed
  obtain ⟨levels, found, last, same⟩ := parsed
  cases same
  exact ⟨found, parseLevels_fits found (by simpa using last)⟩

theorem matchesFrom_cons {first : Bool} {level : Level} (proper : level.Proper first)
    (one : level ≠ .multi) (rest : List Level) (segment : String) (segments : List String) :
    matchesFrom first (level :: rest) (segment :: segments) =
      (Branches.follows first level segment && matchesFrom false rest segments) := by
  cases level with
  | multi => exact absurd rfl one
  | single => simp [matchesFrom, Branches.follows]
  | blank => simp [matchesFrom, Branches.follows]
  | normal text =>
      obtain ⟨some, shown⟩ := proper
      by_cases same : segment = text
      · subst same
        simp [matchesFrom, Branches.follows, some, shown]
      · simp [matchesFrom, Branches.follows, same]
  | metadata text =>
      obtain ⟨top, hidden⟩ := proper
      by_cases same : segment = text
      · subst same
        simp [matchesFrom, Branches.follows, top, hidden]
      · simp [matchesFrom, Branches.follows, same]

end Topic

namespace Branches

variable {α : Type}

/-- Does the pattern that ends at this edge select the segments? -/
def ends (first : Bool) (edge : Level) (segments : List String) : Prop :=
  (edge = .multi ∧ (first && segments.head?.any Level.hidden) = false) ∨
    ∃ segment, segments = [segment] ∧ follows first edge segment = true

theorem mem_here {first : Bool} {edge : Level} {values : List α}
    {deeper : List String → List α} {segments : List String} {w : α} :
    w ∈ here first edge values deeper segments ↔
      (ends first edge segments ∧ w ∈ values) ∨
        ∃ segment rest, segments = segment :: rest ∧ follows first edge segment = true ∧
          w ∈ deeper rest := by
  cases segments with
  | nil => cases edge <;> simp [here, ends]
  | cons segment rest =>
      by_cases multi : edge = .multi
      · subst multi
        by_cases shown : (first && Level.hidden segment) = true
        · simp [here, ends, follows, shown]
        · simp [here, ends, follows, shown]
      · have unfolded : here first edge values deeper (segment :: rest) =
            if follows first edge segment then
              (if rest.isEmpty then values else []) ++ deeper rest
            else [] := by
          cases edge with
          | multi => exact absurd rfl multi
          | _ => rfl
        rw [unfolded]
        by_cases leads : follows first edge segment = true
        · have ending : ends first edge (segment :: rest) ↔ rest = [] := by
            simp only [ends, multi, false_and, false_or, List.cons.injEq]
            exact ⟨fun ⟨_, same, _⟩ => same.2, fun last => ⟨segment, ⟨rfl, last⟩, leads⟩⟩
          rw [if_pos leads, List.mem_append, ending]
          constructor
          · rintro (own | deep)
            · cases rest with
              | nil => exact Or.inl ⟨rfl, own⟩
              | cons _ _ => cases own
            · exact Or.inr ⟨segment, rest, rfl, leads, deep⟩
          · rintro (⟨rfl, own⟩ | ⟨_, _, split, _, deep⟩)
            · exact Or.inl own
            · cases split
              exact Or.inr deep
        · simp [ends, multi, leads]

theorem mem_find_node {first : Bool} {edge : Level} {values : List α} {below next : Branches α}
    {segments : List String} {w : α} :
    w ∈ find first (.node edge values below next) segments ↔
      (ends first edge segments ∧ w ∈ values) ∨
        (∃ segment rest, segments = segment :: rest ∧ follows first edge segment = true ∧
          w ∈ find false below rest) ∨ w ∈ find first next segments := by
  rw [find, List.mem_append, mem_here, or_assoc]

theorem keep_find {first : Bool} {edge : Level} {values : List α} {below next : Branches α}
    {segments : List String} {w : α} :
    w ∈ find first (keep edge values below next) segments ↔
      w ∈ find first (.node edge values below next) segments := by
  unfold keep
  split
  · rw [mem_find_node]
    simp [find]
  · rfl

theorem mem_find_chain {first : Bool} {v w : α} {edge : Level} {path : List Level}
    (fits : Topic.Fits first (edge :: path)) {segments : List String} :
    w ∈ find first (chain v edge path) segments ↔
      w = v ∧ Topic.matchesFrom first (edge :: path) segments = true := by
  induction path generalizing first edge segments with
  | nil =>
      rw [chain, mem_find_node]
      cases segments with
      | nil => cases edge <;> simp [find, ends, Topic.matchesFrom]
      | cons segment rest =>
          by_cases multi : edge = .multi
          · subst multi
            simp [find, ends, follows, Topic.matchesFrom]
            grind
          · rw [Topic.matchesFrom_cons fits.1 multi]
            simp [find, ends, multi, Topic.matchesFrom]
            grind
  | cons next path ih =>
      have single : edge ≠ .multi := by
        intro multi
        have := fits.2.1 multi
        cases this
      rw [chain, mem_find_node]
      -- no `#` stands before the end of the path, so that each edge takes one segment
      cases segments with
      | nil => cases edge <;> simp_all [find, ends, Topic.matchesFrom]
      | cons segment rest =>
          rw [Topic.matchesFrom_cons fits.1 single, Bool.and_eq_true]
          simp only [ih fits.2.2]
          simp [find]
          grind

variable [DecidableEq α]

theorem mem_find_insert {first : Bool} {t : Branches α} {v w : α} {edge : Level}
    {path : List Level} {segments : List String} :
    w ∈ find first (insert v t edge path) segments ↔
      w ∈ find first t segments ∨ w ∈ find first (chain v edge path) segments := by
  induction t generalizing first edge path segments with
  | nil => simp [insert, find]
  | node e values below next ihBelow ihNext =>
      unfold insert
      by_cases same : e = edge
      · subst same
        cases path with
        | nil =>
            simp only [if_true, chain, mem_find_node, List.mem_insert_iff, List.mem_singleton]
            grind [find]
        | cons level rest =>
            simp only [if_true, chain, mem_find_node, ihBelow]
            grind [find]
      · simp only [same, if_false, mem_find_node, ihNext]
        grind

theorem mem_find_remove {first : Bool} {t : Branches α} {v w : α} {edge : Level}
    {path : List Level} {segments : List String}
    (found : w ∈ find first (remove v t edge path) segments) : w ∈ find first t segments := by
  induction t generalizing first edge path segments with
  | nil => exact found
  | node e values below next ihBelow ihNext =>
      unfold remove at found
      by_cases same : e = edge
      · subst same
        cases path with
        | nil =>
            simp only [if_true, keep_find, mem_find_node] at found ⊢
            exact found.imp_left fun here => ⟨here.1, List.mem_of_mem_erase here.2⟩
        | cons level rest =>
            simp only [if_true, keep_find, mem_find_node] at found ⊢
            rcases found with here | ⟨segment, others, split, leads, below⟩ | next
            · exact Or.inl here
            · exact Or.inr (Or.inl ⟨segment, others, split, leads, ihBelow below⟩)
            · exact Or.inr (Or.inr next)
      · simp only [same, if_false, mem_find_node] at found ⊢
        exact found.imp_right (Or.imp_right ihNext)

theorem mem_find_clear {first : Bool} {t : Branches α} {v w : α} {segments : List String}
    (found : w ∈ find first (clear v t) segments) : w ∈ find first t segments := by
  induction t generalizing first segments with
  | nil => exact found
  | node e values below next ihBelow ihNext =>
      simp only [clear, keep_find, mem_find_node] at found ⊢
      rcases found with here | ⟨segment, others, split, leads, below⟩ | next
      · exact Or.inl ⟨here.1, List.mem_of_mem_erase here.2⟩
      · exact Or.inr (Or.inl ⟨segment, others, split, leads, ihBelow below⟩)
      · exact Or.inr (Or.inr (ihNext next))

end Branches

namespace TopicTree

variable {α : Type} [DecidableEq α]

theorem mem_find {tree : TopicTree α} {name : String} {w : α} :
    w ∈ tree.find name ↔ w ∈ tree.branches.find true (Text.splitAll '/' name) :=
  List.mem_eraseDups

theorem mem_find_insert {tree : TopicTree α} {text name : String} {pattern : Topic}
    (parsed : Topic.parse text = .ok pattern) {v w : α} :
    w ∈ (tree.insert pattern v).1.find name ↔
      w ∈ tree.find name ∨ (w = v ∧ pattern.matchesName name = true) := by
  obtain ⟨levels, fits⟩ := Topic.parse_fits parsed
  rw [mem_find, mem_find]
  unfold insert Topic.matchesName
  split
  · rename_i none
    rw [none] at levels
    cases split : Text.splitAll '/' text with
    | nil => exact (Text.splitAll_ne_nil _ _ split).elim
    | cons first rest =>
        rw [split] at levels
        obtain ⟨_, _, _, _, some⟩ := Topic.parseLevels_cons levels
        cases some
  · rename_i edge path split
    rw [split] at fits ⊢
    rw [Branches.mem_find_insert, Branches.mem_find_chain fits]

theorem mem_find_remove {tree : TopicTree α} {pattern : Topic} {name : String} {v w : α}
    (found : w ∈ (tree.remove pattern v).1.find name) : w ∈ tree.find name := by
  rw [mem_find] at found ⊢
  unfold remove at found
  split at found
  · exact found
  · exact Branches.mem_find_remove found

theorem mem_find_clear {tree : TopicTree α} {name : String} {v w : α}
    (found : w ∈ (tree.clear v).1.find name) : w ∈ tree.find name := by
  rw [mem_find] at found ⊢
  exact Branches.mem_find_clear found

end TopicTree

end MqttBroker
