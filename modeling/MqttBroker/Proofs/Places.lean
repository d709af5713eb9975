import MqttBroker.Proofs.Bindings
import MqttBroker.Proofs.Matching

/-!
Where filters are bound. A filter has a place in the exchange: a pattern in the tree of its
namespace. Two filters share a place only if one is a reserved level alone and the other is that
level with a slash behind it.
-/

namespace MqttBroker

namespace Text

theorem pieces_flatten (sep : Char) (chars : List Char) :
    ((pieces sep chars).intersperse [sep]).flatten = chars := by
  induction chars with
  | nil => rfl
  | cons c rest ih =>
      unfold pieces
      cases more : pieces sep rest with
      | nil =>
          rw [pieces_takeWhile] at more
          cases more
      | cons piece others =>
          rw [more] at ih
          split
          · rename_i same
            subst same
            simp only [List.intersperse_cons_cons, List.flatten_cons, ih]
            rfl
          · cases others with
            | nil => simpa using ih
            | cons next others => simpa [List.intersperse_cons_cons] using ih

theorem joinAll_splitAll (sep : Char) (text : String) : joinAll sep (splitAll sep text) = text := by
  simp [joinAll, splitAll, Function.comp_def, pieces_flatten]

theorem splitOnce_whole (sep : Char) (text : String) :
    ((splitOnce sep text).2 = none ∧ text = (splitOnce sep text).1) ∨
      ∃ rest, (splitOnce sep text).2 = some rest ∧
        text = (splitOnce sep text).1 ++ String.singleton sep ++ rest := by
  have whole := List.takeWhile_append_dropWhile (p := (· ≠ sep)) (l := text.toList)
  unfold splitOnce
  dsimp only
  split
  · rename_i after
    rw [after, List.append_nil] at whole
    refine Or.inl ⟨rfl, ?_⟩
    rw [whole, String.ofList_toList]
  · rename_i c rest after
    have last := List.head?_dropWhile_not (p := (· ≠ sep)) text.toList
    rw [after] at last whole
    have same : c = sep := by simpa using last
    refine Or.inr ⟨_, rfl, ?_⟩
    rw [same] at whole
    apply String.toList_inj.mp
    simpa using whole.symm

end Text

namespace Level

theorem parse_display {first : Bool} {text : String} {level : Level}
    (parsed : parse first text = .ok level) : level.display = text := by
  unfold parse at parsed
  repeat' split at parsed
  all_goals cases parsed
  all_goals simp_all [display]

end Level

namespace Topic

theorem parseLevels_display {first : Bool} {texts : List String} {levels : List Level}
    (parsed : parseLevels first texts = .ok levels) : levels.map Level.display = texts := by
  induction texts generalizing first levels with
  | nil =>
      cases parsed
      rfl
  | cons text rest ih =>
      obtain ⟨level, more, found, others, rfl⟩ := parseLevels_cons parsed
      rw [List.map_cons, Level.parse_display found, ih others]

theorem parse_display {text : String} {topic : Topic} (parsed : parse text = .ok topic) :
    topic.display = text := by
  rw [display, parseLevels_display (parse_fits parsed).1, Text.joinAll_splitAll]

theorem parse_injective {text other : String} {topic : Topic} (parsed : parse text = .ok topic)
    (again : parse other = .ok topic) : text = other :=
  (parse_display parsed).symm.trans (parse_display again)

end Topic

namespace Namespaces

/-- Two filters are cut alike only if one is a reserved level alone, and the other has a slash
behind it. -/
theorem split_same {ns : Namespaces} {filter other : String}
    (same : ns.split filter = ns.split other) (different : filter ≠ other) :
    ∃ space ∈ ns.reserved, (filter = space ∧ other = space ++ "/") ∨
      (filter = space ++ "/" ∧ other = space) := by
  cases reserved : ns.of filter with
  | none =>
      have common : ns.of other = none := by rw [of, ← same]; exact reserved
      rw [split_eq_none reserved, split_eq_none common] at same
      exact absurd (Prod.mk.inj same).2 different
  | some space =>
      have alike : ns.of other = some space := by rw [of, ← same]; exact reserved
      obtain ⟨first, cut⟩ := split_eq_some reserved
      obtain ⟨head, cutOther⟩ := split_eq_some alike
      have rest : (Text.splitOnce '/' filter).2.getD "" = (Text.splitOnce '/' other).2.getD "" := by
        rw [cut, cutOther] at same
        exact (Prod.mk.inj same).2
      refine ⟨space, mem_reserved reserved, ?_⟩
      have slash : space ++ String.singleton '/' ++ "" = space ++ "/" := by simp
      rcases Text.splitOnce_whole '/' filter with ⟨ending, alone⟩ | ⟨remainder, ending, whole⟩
      · rcases Text.splitOnce_whole '/' other with ⟨_, alone'⟩ | ⟨remainder, ending', whole⟩
        · exact absurd (alone.trans (first.trans (head.symm.trans alone'.symm))) different
        · rw [ending, ending', Option.getD_none, Option.getD_some] at rest
          rw [head, ← rest, slash] at whole
          exact Or.inl ⟨alone.trans first, whole⟩
      · rcases Text.splitOnce_whole '/' other with ⟨ending', alone⟩ | ⟨remainder', ending', whole'⟩
        · rw [ending, ending', Option.getD_none, Option.getD_some] at rest
          rw [first, rest, slash] at whole
          exact Or.inr ⟨whole, alone.trans head⟩
        · rw [ending, ending', Option.getD_some, Option.getD_some] at rest
          rw [first, rest] at whole
          rw [head] at whole'
          exact absurd (whole.trans whole'.symm) different

end Namespaces

namespace Exchange

/-- Where a filter is bound: a pattern in the tree of a namespace. -/
abbrev Place := Option String × Topic

def place (ns : Namespaces) (filter : String) : Except TopicError Place := do
  let (space, rest) := ns.split filter
  return (space, ← pattern rest)

def holds (x : Exchange) (p : Place) (uid : SessionUid) : Bool := (x.tree p.1).contains p.2 uid

def Neat (x : Exchange) : Prop := ∀ space, (x.tree space).Neat

theorem place_ok {ns : Namespaces} {filter : String} {p : Place} :
    place ns filter = .ok p ↔
      ns.of filter = p.1 ∧ Topic.parse (ns.split filter).2 = .ok p.2 := by
  obtain ⟨space, pattern⟩ := p
  simp only [place, bind_eq_ok, pattern_eq_parse, Namespaces.of]
  constructor
  · rintro ⟨_, parsed, same⟩
    cases same
    exact ⟨rfl, parsed⟩
  · rintro ⟨same, parsed⟩
    exact ⟨pattern, parsed, by rw [same]; rfl⟩

theorem split_of_place {ns : Namespaces} {filter other : String} {p : Place}
    (placed : place ns filter = .ok p) (again : place ns other = .ok p) :
    ns.split filter = ns.split other := by
  obtain ⟨space, parsed⟩ := place_ok.mp placed
  obtain ⟨space', parsed'⟩ := place_ok.mp again
  exact Prod.ext (space.trans space'.symm) (Topic.parse_injective parsed parsed')

theorem place_congr {ns : Namespaces} {filter other : String}
    (same : ns.split filter = ns.split other) : place ns filter = place ns other := by
  unfold place
  rw [same]

theorem bind_place {x x' : Exchange} {filter : String} {uid : SessionUid} {added : Bool}
    (bound : x.bind filter uid = .ok (x', added)) :
    ∃ p, place x.namespaces filter = .ok p ∧
      x' = x.setTree p.1 ((x.tree p.1).insert p.2 uid).1 := by
  obtain ⟨pattern, parsed, same⟩ := bind_ok bound
  exact ⟨(x.namespaces.of filter, pattern), place_ok.mpr ⟨rfl, parsed⟩, same⟩

theorem unbind_place {x x' : Exchange} {filter : String} {uid : SessionUid} {removed : Bool}
    (unbound : x.unbind filter uid = .ok (x', removed)) :
    ∃ p, place x.namespaces filter = .ok p ∧
      x' = x.setTree p.1 ((x.tree p.1).remove p.2 uid).1 := by
  simp only [unbind, bind_eq_ok, pattern_eq_parse] at unbound
  obtain ⟨pattern, parsed, same⟩ := unbound
  cases same
  exact ⟨(x.namespaces.of filter, pattern), place_ok.mpr ⟨rfl, parsed⟩, rfl⟩

theorem unbind_namespaces {x x' : Exchange} {filter : String} {uid : SessionUid} {removed : Bool}
    (unbound : x.unbind filter uid = .ok (x', removed)) : x'.namespaces = x.namespaces := by
  obtain ⟨p, _, rfl⟩ := unbind_place unbound
  exact setTree_namespaces ..

theorem tree_unbindAll (x : Exchange) (uid : SessionUid) (space : Option String) :
    (x.unbindAll uid).1.tree space = ((x.tree space).clear uid).1 := by
  cases space with
  | none => rfl
  | some space =>
      have cleared := Table.get?_map (fun t : TopicTree SessionUid => (t.clear uid).1) space
        x.spaces
      simp only [tree, unbindAll, List.map_map, Function.comp_def, cleared]
      cases x.spaces.get? space <;> rfl

theorem place_succeeds {ns : Namespaces} {filter : String} {pattern : Topic}
    (parsed : Topic.parse filter = .ok pattern) : ∃ p, place ns filter = .ok p := by
  obtain ⟨x, added, bound⟩ := bind_succeeds parsed (new ns) 0
  obtain ⟨p, placed, _⟩ := bind_place bound
  exact ⟨p, placed⟩

theorem unbind_succeeds {filter : String} {pattern : Topic}
    (parsed : Topic.parse filter = .ok pattern) (x : Exchange) (uid : SessionUid) :
    ∃ x' removed, x.unbind filter uid = .ok (x', removed) := by
  have places : ∃ p, place x.namespaces filter = .ok p := place_succeeds parsed
  obtain ⟨p, placed⟩ := places
  obtain ⟨_, read⟩ := place_ok.mp placed
  simp only [unbind, pattern_eq_parse, read]
  exact ⟨_, _, rfl⟩

/-! What is bound after a change -/

theorem neat_new (ns : Namespaces) : (new ns).Neat := by
  intro space
  cases space <;> exact TopicTree.neat_empty

theorem Neat.setTree {x : Exchange} (neat : x.Neat) (space : Option String)
    {t : TopicTree SessionUid} (neatTree : t.Neat) : (x.setTree space t).Neat := by
  intro other
  rw [tree_setTree]
  split
  · exact neatTree
  · exact neat other

theorem holds_new (ns : Namespaces) (p : Place) (uid : SessionUid) :
    (new ns).holds p uid = false := by
  obtain ⟨space, levels⟩ := p
  cases space <;> cases levels <;> rename_i levels <;> cases levels <;> rfl

theorem Neat.bind {x x' : Exchange} (neat : x.Neat) {filter : String} {uid : SessionUid}
    {added : Bool} (bound : x.bind filter uid = .ok (x', added)) : x'.Neat := by
  obtain ⟨p, placed, rfl⟩ := bind_place bound
  exact neat.setTree p.1 ((neat p.1).insert (place_ok.mp placed).2 uid)

theorem holds_bind {x x' : Exchange} {filter : String} {uid : SessionUid} {added : Bool}
    (bound : x.bind filter uid = .ok (x', added)) (p : Place) (w : SessionUid) :
    x'.holds p w = true ↔
      x.holds p w = true ∨ (w = uid ∧ place x.namespaces filter = .ok p) := by
  obtain ⟨q, placed, rfl⟩ := bind_place bound
  rw [placed, holds, tree_setTree]
  split
  · rename_i same
    rw [TopicTree.contains_insert, holds, same]
    simp only [Except.ok.injEq, Prod.ext_iff, same, true_and, eq_comm]
  · rename_i other
    have apart : q ≠ p := fun same => other (by rw [same])
    simp [holds, apart]

theorem Neat.unbind {x x' : Exchange} (neat : x.Neat) {filter : String} {uid : SessionUid}
    {removed : Bool} (unbound : x.unbind filter uid = .ok (x', removed)) : x'.Neat := by
  obtain ⟨p, _, rfl⟩ := unbind_place unbound
  exact neat.setTree p.1 ((neat p.1).remove p.2 uid)

theorem holds_unbind {x x' : Exchange} (neat : x.Neat) {filter : String} {uid : SessionUid}
    {removed : Bool} (unbound : x.unbind filter uid = .ok (x', removed)) (p : Place)
    (w : SessionUid) :
    x'.holds p w = true ↔
      x.holds p w = true ∧ ¬(w = uid ∧ place x.namespaces filter = .ok p) := by
  obtain ⟨q, placed, rfl⟩ := unbind_place unbound
  rw [placed, holds, tree_setTree]
  split
  · rename_i same
    rw [TopicTree.contains_remove (neat q.1), holds, same]
    simp only [Except.ok.injEq, Prod.ext_iff, same, true_and, eq_comm]
  · rename_i other
    have apart : q ≠ p := fun same => other (by rw [same])
    simp [holds, apart]

theorem tree_unbind_unbound {x x' : Exchange} (neat : x.Neat) {filter : String}
    {uid : SessionUid} {removed : Bool} (unbound : x.unbind filter uid = .ok (x', removed))
    (absent : ∀ p, x.holds p uid = false) (space : Option String) :
    x'.tree space = x.tree space := by
  obtain ⟨p, _, rfl⟩ := unbind_place unbound
  rw [tree_setTree, TopicTree.remove_unbound (neat p.1) (absent p)]
  split
  · rename_i same
    rw [same]
  · rfl

theorem Neat.unbindAll {x : Exchange} (neat : x.Neat) (uid : SessionUid) :
    (x.unbindAll uid).1.Neat := by
  intro space
  rw [tree_unbindAll]
  exact (neat space).clear uid

theorem holds_unbindAll {x : Exchange} (neat : x.Neat) (uid : SessionUid) (p : Place)
    (w : SessionUid) :
    (x.unbindAll uid).1.holds p w = true ↔ x.holds p w = true ∧ w ≠ uid := by
  rw [holds, tree_unbindAll]
  exact TopicTree.contains_clear (neat p.1)

theorem mem_recipients {x : Exchange} (neat : x.Neat) {topic : String} {w : SessionUid} :
    w ∈ x.recipients topic ↔ ∃ pattern, x.holds (x.namespaces.of topic, pattern) w = true ∧
      pattern.matchesName (x.namespaces.split topic).2 = true :=
  TopicTree.mem_find_iff (neat _)

theorem recipients_nodup (x : Exchange) (topic : String) : (x.recipients topic).Nodup :=
  TopicTree.find_nodup ..

theorem routes_place {ns : Namespaces} {filter topic : String} :
    Routes ns filter topic ↔ ∃ pattern, place ns filter = .ok (ns.of topic, pattern) ∧
      pattern.matchesName (ns.split topic).2 = true := by
  simp only [Routes, place_ok]
  constructor
  · rintro ⟨same, pattern, parsed, selects⟩
    exact ⟨pattern, ⟨same, parsed⟩, selects⟩
  · rintro ⟨pattern, ⟨same, parsed⟩, selects⟩
    exact ⟨same, pattern, parsed, selects⟩

end Exchange

end MqttBroker
