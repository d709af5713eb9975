import MqttBroker.Exchange
import MqttBroker.Proofs.Table
import MqttBroker.Proofs.TopicTree

/-!
Who receives a message: binding a filter adds its session as a recipient of what the filter selects
within its namespace, unbinding adds nobody.
-/

namespace MqttBroker.Exchange

def Routes (ns : Namespaces) (filter topic : String) : Prop :=
  ns.of filter = ns.of topic ∧ ∃ pattern, Topic.parse (ns.split filter).2 = .ok pattern ∧
    pattern.matchesName (ns.split topic).2 = true

theorem pattern_eq_parse (rest : String) : pattern rest = Topic.parse rest := by
  unfold pattern
  split
  · rename_i empty
    subst empty
    rfl
  · rfl

theorem tree_setTree (x : Exchange) (space other : Option String) (t : TopicTree SessionUid) :
    (x.setTree space t).tree other = if other = space then t else x.tree other := by
  cases space with
  | none => cases other <;> simp [setTree, tree]
  | some space =>
      cases other with
      | none => simp [setTree, tree]
      | some other =>
          simp only [setTree, tree, Table.get?_insert, Option.some.injEq]
          split <;> simp_all

theorem setTree_namespaces (x : Exchange) (space : Option String) (t : TopicTree SessionUid) :
    (x.setTree space t).namespaces = x.namespaces := by
  cases space <;> rfl

theorem bind_ok {x x' : Exchange} {filter : String} {uid : SessionUid} {added : Bool}
    (bound : x.bind filter uid = .ok (x', added)) :
    ∃ pattern, Topic.parse (x.namespaces.split filter).2 = .ok pattern ∧
      x' = x.setTree (x.namespaces.of filter)
        ((x.tree (x.namespaces.of filter)).insert pattern uid).1 := by
  simp only [bind, pattern_eq_parse, bind_eq_ok] at bound
  obtain ⟨pattern, parsed, same⟩ := bound
  cases same
  exact ⟨pattern, parsed, rfl⟩

theorem recipients_new (ns : Namespaces) (topic : String) : (new ns).recipients topic = [] := by
  cases space : (ns.split topic).1 with
  | none => simp [recipients, new, space, tree, TopicTree.find, Branches.find]
  | some reserved =>
      simp [recipients, new, space, tree, Table.get?, TopicTree.find, Branches.find]

theorem mem_recipients_bind {x x' : Exchange} {filter topic : String} {uid w : SessionUid}
    {added : Bool} (bound : x.bind filter uid = .ok (x', added)) :
    w ∈ x'.recipients topic ↔
      w ∈ x.recipients topic ∨ (w = uid ∧ Routes x.namespaces filter topic) := by
  obtain ⟨pattern, parsed, rfl⟩ := bind_ok bound
  simp only [recipients, setTree_namespaces, tree_setTree]
  change _ ∈ (if x.namespaces.of topic = x.namespaces.of filter then _ else _ : TopicTree _).find _
    ↔ _
  split
  · rename_i same
    rw [TopicTree.mem_find_insert parsed, ← same]
    have routes : Routes x.namespaces filter topic ↔
        pattern.matchesName (x.namespaces.split topic).2 = true := by
      constructor
      · rintro ⟨_, other, again, selects⟩
        rw [parsed] at again
        cases again
        exact selects
      · exact fun selects => ⟨same.symm, pattern, parsed, selects⟩
    rw [routes]
    rfl
  · rename_i different
    have apart : ¬Routes x.namespaces filter topic := fun routes => different routes.1.symm
    simp only [apart, and_false, or_false]

theorem bind_namespaces {x x' : Exchange} {filter : String} {uid : SessionUid} {added : Bool}
    (bound : x.bind filter uid = .ok (x', added)) : x'.namespaces = x.namespaces := by
  obtain ⟨_, _, rfl⟩ := bind_ok bound
  exact setTree_namespaces ..

theorem mem_recipients_unbind {x x' : Exchange} {filter topic : String} {uid w : SessionUid}
    {removed : Bool} (unbound : x.unbind filter uid = .ok (x', removed))
    (receives : w ∈ x'.recipients topic) : w ∈ x.recipients topic := by
  simp only [unbind, bind_eq_ok] at unbound
  obtain ⟨pattern, _, changed⟩ := unbound
  cases changed
  simp only [recipients, setTree_namespaces, tree_setTree] at receives ⊢
  split at receives
  · rename_i same
    rw [same]
    exact TopicTree.mem_find_remove receives
  · exact receives

theorem mem_recipients_unbindAll {x : Exchange} {topic : String} {uid w : SessionUid}
    (receives : w ∈ (x.unbindAll uid).1.recipients topic) : w ∈ x.recipients topic := by
  simp only [recipients, unbindAll] at receives ⊢
  cases space : (x.namespaces.split topic).1 with
  | none =>
      simp only [space, tree] at receives ⊢
      exact TopicTree.mem_find_clear receives
  | some reserved =>
      have cleared := Table.get?_map (fun t : TopicTree SessionUid => (t.clear uid).1) reserved
        x.spaces
      simp only [space, tree, List.map_map, Function.comp_def, cleared] at receives ⊢
      cases found : x.spaces.get? reserved with
      | none => simpa [found] using receives
      | some t =>
          rw [found] at receives
          exact TopicTree.mem_find_clear receives

end MqttBroker.Exchange
