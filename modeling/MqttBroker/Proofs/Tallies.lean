import Mathlib.Algebra.GroupWithZero.Nat
import Mathlib.Algebra.Order.BigOperators.Group.List
import Mathlib.Algebra.Order.Group.Nat
import Mathlib.Data.List.Nodup
import MqttBroker.Proofs.Contents
import MqttBroker.Proofs.Places
import MqttBroker.Proofs.WindowUse

/-!
Counting. What a gauge shows, what the entries of a table add up to, and at how many places an
exchange unbinds a session.
-/

namespace MqttBroker

/-- The gauge stands at a number, modulo the words, and at the number itself if a word can hold
it. -/
structure Gauge.Shows (g : Gauge) (n : Nat) : Prop where
  modulo : SignedWord.wrap g.current = SignedWord.wrap n
  whole : SignedWord.inRange n = true → g.current = n

namespace Gauge

variable {g : Gauge} {n n' : Nat}

theorem Shows.moved (shows : g.Shows n) {g' : Gauge} {amount : Int}
    (current : g'.current = SignedWord.wrap (g.current + amount)) (sum : (n' : Int) = n + amount) :
    g'.Shows n' := by
  have wrapped : g'.current = SignedWord.wrap n' := by
    rw [current, ← SignedWord.wrap_wrap_add, shows.modulo, SignedWord.wrap_wrap_add, sum]
  refine ⟨?_, fun word => ?_⟩
  · rw [wrapped, SignedWord.wrap_wrap]
  · rw [wrapped, SignedWord.wrap_inRange word]

theorem Shows.increment (shows : g.Shows n) (more : n' = n + 1) : g.increment.Shows n' :=
  shows.moved (g.increment_current) (by omega)

theorem Shows.subtract (shows : g.Shows n) {k : Nat} (fewer : n' + k = n) :
    (g.subtract k).Shows n' :=
  shows.moved rfl (by omega)

theorem Shows.decrement (shows : g.Shows n) (fewer : n' + 1 = n) : g.decrement.Shows n' :=
  shows.moved rfl (by omega)

theorem shows_set (g : Gauge) (n : Nat) : (g.set n).Shows n := ⟨rfl, fun _ => rfl⟩

end Gauge

namespace Table

variable {κ α : Type} [Ord κ]

def total (f : α → Nat) (t : Table κ α) : Nat := (t.values.map f).sum

omit [Ord κ] in
theorem total_cons (f : α → Nat) (e : κ × α) (t : Table κ α) :
    total f (e :: t) = f e.2 + t.total f := rfl

omit [Ord κ] in
theorem total_length (t : Table κ α) : t.total (fun _ => 1) = t.length := by
  rw [total, Table.values, List.map_map, Function.comp_def, List.map_const', List.sum_replicate_nat,
    Nat.mul_one]

theorem le_total {key : κ} {value : α} {t : Table κ α} (found : t.get? key = some value)
    (f : α → Nat) : f value ≤ t.total f :=
  List.le_sum_of_mem (List.mem_map_of_mem (mem_values found))

variable [Std.LawfulEqOrd κ]

omit [Std.LawfulEqOrd κ] in
theorem get?_above {key : κ} {t : Table κ α} (above : ∀ e ∈ t, compare e.1 key ≠ .eq) :
    t.get? key = none := by
  have absent : t.find? (fun e => compare e.1 key == .eq) = none :=
    List.find?_eq_none.mpr fun e member => by simpa using above e member
  rw [get?, absent, Option.map_none]

theorem Increasing.total_insert [Std.TransOrd κ] {t : Table κ α} (increasing : t.Increasing)
    (f : α → Nat) (key : κ) (value : α) :
    (t.insert key value).total f + ((t.get? key).map f).getD 0 = t.total f + f value := by
  induction t with
  | nil => simp [Table.insert, total, Table.values, Table.get?]
  | cons e rest ih =>
      obtain ⟨first, later⟩ := List.pairwise_cons.mp increasing
      have rest := ih later
      rw [get?_cons]
      unfold Table.insert
      cases place : compare e.1 key with
      | lt =>
          simp only [total_cons, reduceCtorEq, if_false]
          omega
      | eq =>
          simp only [total_cons, if_true, Option.map_some, Option.getD_some]
          omega
      | gt =>
          have below := Std.OrientedCmp.lt_of_gt place
          have absent : Table.get? _ key = none := get?_above fun f member same => by
            have apart := Std.TransCmp.lt_trans below (first f member)
            rw [Std.LawfulEqOrd.eq_of_compare same] at apart
            simp at apart
          simp only [total_cons, reduceCtorEq, if_false, absent, Option.map_none, Option.getD_none]
          omega

theorem Increasing.length_insert [Std.TransOrd κ] {t : Table κ α} (increasing : t.Increasing)
    (key : κ) (value : α) :
    (t.insert key value).length + (t.get? key).toList.length = t.length + 1 := by
  have counted := increasing.total_insert (fun _ => 1) key value
  rw [total_length, total_length] at counted
  cases found : t.get? key <;> simp_all

theorem Increasing.length_erase [Std.TransOrd κ] {t : Table κ α} (increasing : t.Increasing)
    (key : κ) : (t.erase key).length + (t.get? key).toList.length = t.length := by
  induction t with
  | nil => rfl
  | cons e rest ih =>
      obtain ⟨first, later⟩ := List.pairwise_cons.mp increasing
      have shorter := ih later
      unfold Table.erase at shorter ⊢
      rw [get?_cons, List.filter_cons]
      by_cases here : compare e.1 key = .eq
      · have equal := Std.LawfulEqOrd.eq_of_compare here
        have others : ∀ f ∈ rest, compare f.1 key ≠ .eq := by
          intro f member same
          have apart := first f member
          rw [equal, Std.LawfulEqOrd.eq_of_compare same] at apart
          simp at apart
        rw [get?_above others] at shorter
        simp only [Option.toList_none, List.length_nil] at shorter
        simp only [here, bne_self_eq_false, Bool.false_eq_true, if_false, if_true,
          Option.toList_some, List.length_cons, List.length_nil]
        omega
      · have other : (compare e.1 key != .eq) = true := by simpa using here
        rw [if_pos other, if_neg here, List.length_cons, List.length_cons]
        omega

end Table

/-! At how many places a session is bound -/

def TopicTree.patterns {α : Type} [DecidableEq α] (tree : TopicTree α) (v : α) : List Topic :=
  (tree.bindings.filter fun bound => bound.2 = v).map Prod.fst

namespace TopicTree.Neat

variable {α : Type} [DecidableEq α] {tree : TopicTree α} (neat : tree.Neat)

include neat

theorem mem_patterns {pattern : Topic} {v : α} :
    pattern ∈ tree.patterns v ↔ tree.contains pattern v = true := by
  rw [← neat.mem_bindings]
  simp [patterns]

theorem patterns_nodup (v : α) : (tree.patterns v).Nodup := by
  refine (neat.bindings_nodup.filter _).map_on ?_
  rintro ⟨p, w⟩ first ⟨q, x⟩ second same
  have own : w = v := by simpa using (List.mem_filter.mp first).2
  have own' : x = v := by simpa using (List.mem_filter.mp second).2
  exact Prod.ext same (own.trans own'.symm)

theorem length_patterns (v : α) : (tree.patterns v).length = (tree.clear v).2 := by
  rw [patterns, List.length_map, ← List.countP_eq_length_filter, TopicTree.bindings,
    List.countP_map, TopicTree.clear, neat.root]
  simp only [Function.comp_def, Branches.countP_bindings, List.count_nil, Nat.zero_add]

end TopicTree.Neat

namespace Exchange

def places (x : Exchange) (uid : SessionUid) : List Place :=
  (x.common.patterns uid).map (none, ·) ++
    x.spaces.flatMap fun e => (e.2.patterns uid).map (some e.1, ·)

theorem tree_of_mem {x : Exchange} (increasing : x.spaces.Increasing)
    {e : String × TopicTree SessionUid} (member : e ∈ x.spaces) : x.tree (some e.1) = e.2 := by
  rw [tree, increasing.mem_iff.mp member, Option.getD_some]

theorem Neat.space {x : Exchange} (neat : x.Neat) (increasing : x.spaces.Increasing)
    {e : String × TopicTree SessionUid} (member : e ∈ x.spaces) : e.2.Neat :=
  tree_of_mem increasing member ▸ neat (some e.1)

theorem mem_places {x : Exchange} (neat : x.Neat) (increasing : x.spaces.Increasing)
    {uid : SessionUid} {p : Place} : p ∈ x.places uid ↔ x.holds p uid = true := by
  obtain ⟨space, pattern⟩ := p
  simp only [places, List.mem_append, List.mem_map, List.mem_flatMap, Prod.mk.injEq]
  cases space with
  | none =>
      have common : pattern ∈ x.common.patterns uid ↔ x.holds (none, pattern) uid = true :=
        (neat none).mem_patterns
      simp [common]
  | some space =>
      constructor
      · rintro (⟨_, _, other, _⟩ | ⟨e, member, _, bound, same, rfl⟩)
        · cases other
        · rw [holds, ← same, tree_of_mem increasing member]
          exact (neat.space increasing member).mem_patterns.mp bound
      · intro bound
        change ((x.spaces.get? space).getD {}).contains pattern uid = true at bound
        cases there : x.spaces.get? space with
        | none =>
            rw [there, Option.getD_none, TopicTree.contains] at bound
            split at bound <;> cases bound
        | some t =>
            have member := increasing.mem_iff.mpr there
            rw [there, Option.getD_some] at bound
            exact Or.inr ⟨(space, t), member, pattern,
              (neat.space increasing member).mem_patterns.mpr bound, rfl, rfl⟩

theorem places_nodup {x : Exchange} (neat : x.Neat) (increasing : x.spaces.Increasing)
    (uid : SessionUid) : (x.places uid).Nodup := by
  refine List.nodup_append'.mpr ⟨?_, ?_, ?_⟩
  · exact ((neat none).patterns_nodup uid).map fun _ _ same => (Prod.mk.inj same).2
  · refine List.nodup_flatMap.mpr ⟨fun e member => ?_, ?_⟩
    · exact ((neat.space increasing member).patterns_nodup uid).map
        fun _ _ same => (Prod.mk.inj same).2
    · refine increasing.imp fun {e f} below p first second => ?_
      obtain ⟨_, _, rfl⟩ := List.mem_map.mp first
      obtain ⟨_, _, same⟩ := List.mem_map.mp second
      have equal : f.1 = e.1 := Option.some.inj (Prod.mk.inj same).1
      rw [equal] at below
      simp at below
  · intro p first second
    obtain ⟨_, _, rfl⟩ := List.mem_map.mp first
    obtain ⟨_, _, later⟩ := List.mem_flatMap.mp second
    obtain ⟨_, _, same⟩ := List.mem_map.mp later
    cases same

theorem length_places {x : Exchange} (neat : x.Neat) (increasing : x.spaces.Increasing)
    (uid : SessionUid) : (x.places uid).length = (x.unbindAll uid).2 := by
  have summed : ∀ (spaces : Table String (TopicTree SessionUid)) (n : Nat),
      (∀ e ∈ spaces, e.2.Neat) →
      (spaces.map fun e => (e.1, e.2.clear uid)).foldl (fun total c => total + c.2.2) n =
        n + (spaces.flatMap fun e => (e.2.patterns uid).map (some e.1, ·)).length := by
    intro spaces
    induction spaces with
    | nil => exact fun _ _ => rfl
    | cons e rest ih =>
        intro n all
        have here := (all e (List.mem_cons_self ..)).length_patterns uid
        rw [List.map_cons, List.foldl_cons,
          ih _ fun f member => all f (List.mem_cons_of_mem _ member), List.flatMap_cons,
          List.length_append, List.length_map, here, Nat.add_assoc]
  have common : (x.common.patterns uid).length = (x.common.clear uid).2 :=
    (neat none).length_patterns uid
  rw [places, List.length_append, List.length_map, common]
  exact (summed x.spaces _ fun e => neat.space increasing).symm

/-- As many bindings go as a session has filters, if these are bound at places of their own. -/
theorem unbindAll_number {x : Exchange} (neat : x.Neat) (increasing : x.spaces.Increasing)
    {uid : SessionUid} {filters : List String} (distinct : filters.Nodup)
    (placed : ∀ filter ∈ filters, ∃ p, place x.namespaces filter = .ok p)
    (apart : ∀ filter ∈ filters, ∀ other ∈ filters,
      x.namespaces.split filter = x.namespaces.split other → filter = other)
    (bound : ∀ p, x.holds p uid = true ↔
      ∃ filter ∈ filters, place x.namespaces filter = .ok p) :
    (x.unbindAll uid).2 = filters.length := by
  have same : ((x.places uid).map Except.ok).Perm (filters.map (place x.namespaces)) := by
    refine (List.perm_ext_iff_of_nodup ?_ ?_).mpr fun e => ?_
    · exact (places_nodup neat increasing uid).map fun _ _ same => Except.ok.inj same
    · refine distinct.map_on fun filter here other there alike => ?_
      obtain ⟨p, own⟩ := placed filter here
      exact apart filter here other there (split_of_place own (alike.symm.trans own))
    · rw [List.mem_map, List.mem_map]
      constructor
      · rintro ⟨p, member, rfl⟩
        exact (bound p).mp ((mem_places neat increasing).mp member)
      · rintro ⟨filter, member, rfl⟩
        obtain ⟨p, own⟩ := placed filter member
        rw [own]
        exact ⟨p, (mem_places neat increasing).mpr ((bound p).mpr ⟨filter, member, own⟩), rfl⟩
  rw [← length_places neat increasing uid, ← List.length_map (f := Except.ok), same.length_eq,
    List.length_map]

end Exchange

end MqttBroker
