import Mathlib.Algebra.BigOperators.Group.Finset.Basic
import MqttBroker.Ledger
import MqttBroker.Proofs.Table

/-!
What a ledger owes: every event counts the recipients that are not done with it, and its order is
given when there are none left, once.
-/

namespace MqttBroker

theorem sum_range_change {n k : Nat} {f g : Nat → Nat} (below : k < n)
    (same : ∀ i, i ≠ k → g i = f i) :
    (∑ i ∈ Finset.range n, g i) + f k = (∑ i ∈ Finset.range n, f i) + g k := by
  have member : k ∈ Finset.range n := Finset.mem_range.mpr below
  have others : ∑ i ∈ (Finset.range n).erase k, g i = ∑ i ∈ (Finset.range n).erase k, f i :=
    Finset.sum_congr rfl fun i inside => same i (Finset.ne_of_mem_erase inside)
  rw [← Finset.add_sum_erase _ g member, ← Finset.add_sum_erase _ f member, others]
  omega

namespace Event

structure Owed (e : Event) (owed : Nat) : Prop where
  remaining : e.remaining = owed
  armed : e.armed = true ↔ 0 < owed
  completions : e.completions = if owed = 0 then 1 else 0

theorem new_owed (message : Publish) (recipients : Nat) :
    (new message recipients).Owed recipients := by
  unfold new
  by_cases none : recipients = 0
  · subst none
    exact ⟨rfl, by simp [complete], rfl⟩
  · simp only [none, if_false]
    exact ⟨rfl, by simp; omega, by simp [none]⟩

theorem done_owed {e : Event} {owed : Nat} (before : e.Owed (owed + 1)) : e.done.Owed owed := by
  have armed : e.armed = true := before.armed.mpr (Nat.succ_pos owed)
  have never : e.completions = 0 := before.completions
  unfold done countDown
  by_cases last : owed = 0
  · subst last
    simp only [before.remaining, complete, armed]
    exact ⟨rfl, by simp, by simp [never]⟩
  · have more : decide (e.remaining = 1) = false := by
      rw [before.remaining]
      simp [last]
    simp only [more]
    exact ⟨by simp [before.remaining], by simp [armed]; omega, by simp [never, last]⟩

theorem done_completions (e : Event) :
    e.done.completions = e.completions + if e.armed && !e.done.armed then 1 else 0 := by
  unfold done countDown complete
  cases e.armed <;> cases decide (e.remaining = 1) <;> simp_all

/-! The message of an event stays what it is -/

theorem complete_message (e : Event) : e.complete.message = e.message := by
  unfold complete
  split <;> rfl

theorem done_message (e : Event) : e.done.message = e.message := by
  by_cases last : e.remaining = 1
  · simp [done, countDown, last, complete_message]
  · simp [done, countDown, last]

theorem new_message (message : Publish) (recipients : Nat) :
    (Event.new message recipients).message = message := by
  unfold Event.new
  dsimp only
  split
  · exact complete_message _
  · rfl

end Event

namespace Ledger

variable {κ : Type}

theorem done_message (l : Ledger κ) (id other : EventId) :
    ((l.done id).1.event? other).map Event.message = (l.event? other).map Event.message := by
  unfold done
  split
  · rfl
  · rename_i event order found
    simp only [event?, Table.get?_insert]
    split
    · rename_i same
      subst same
      simp [found, Event.done_message]
    · rfl

theorem doneAll_message (l : Ledger κ) (ids : List EventId) (other : EventId) :
    ((l.doneAll ids).1.event? other).map Event.message = (l.event? other).map Event.message := by
  induction ids generalizing l with
  | nil => rfl
  | cons id rest ih => exact (ih _).trans (l.done_message id other)

/-- So many recipients are not done with each event of the ledger. -/
def Owes (l : Ledger κ) (owed : EventId → Nat) : Prop :=
  ∀ id, id < l.next → ∃ event order, l.entries.get? id = some (event, order) ∧
    event.Owed (owed id)

def order? (l : Ledger κ) (id : EventId) : Option κ := (l.entries.get? id).map Prod.snd

def given (l : Ledger κ) (id : EventId) : Nat :=
  ((l.event? id).map Event.completions).getD 0

def givenOf (l : Ledger κ) (kind : κ → Bool) : Nat :=
  ∑ id ∈ Finset.range l.next, if (l.order? id).any kind then l.given id else 0

theorem Owes.given {l : Ledger κ} {owed : EventId → Nat} (owes : l.Owes owed) {id : EventId}
    (below : id < l.next) : l.given id = if owed id = 0 then 1 else 0 := by
  obtain ⟨event, order, entry, counted⟩ := owes id below
  simp [Ledger.given, event?, entry, counted.completions]

/-! Entering an event -/

section enter

variable (l : Ledger κ) (message : Publish) (recipients : Nat) (order : κ)

theorem enter_order? (id : EventId) : (l.enter message recipients order).1.order? id =
    if id = l.next then some order else l.order? id := by
  simp only [enter, order?, Table.get?_insert]
  split <;> rfl

theorem enter_given (id : EventId) : (l.enter message recipients order).1.given id =
    if id = l.next then (if recipients = 0 then 1 else 0) else l.given id := by
  have counted := (Event.new_owed message recipients).completions
  simp only [enter, given, event?, Table.get?_insert]
  split
  · simpa using counted
  · rfl

theorem enter_due : (l.enter message recipients order).2.2 =
    if recipients = 0 then [order] else [] := by
  have armed := (Event.new_owed message recipients).armed
  simp only [enter]
  by_cases none : recipients = 0
  · simp_all
  · have some : 0 < recipients := Nat.pos_of_ne_zero none
    simp [armed.mpr some, none]

variable {l}

theorem Owes.enter {owed : EventId → Nat} (owes : l.Owes owed) :
    (l.enter message recipients order).1.Owes fun id =>
      if id = l.next then recipients else owed id := by
  intro id below
  have within : id < l.next + 1 := below
  simp only [Ledger.enter, Table.get?_insert]
  by_cases new : id = l.next
  · simp only [new, if_true]
    exact ⟨_, order, rfl, Event.new_owed ..⟩
  · simp only [new, if_false]
    exact owes id (Nat.lt_of_le_of_ne (Nat.le_of_lt_succ within) new)

variable (l)

theorem enter_givenOf (kind : κ → Bool) : (l.enter message recipients order).1.givenOf kind =
    l.givenOf kind + (l.enter message recipients order).2.2.countP kind := by
  have next : (l.enter message recipients order).1.next = l.next + 1 := rfl
  have old : ∀ id ∈ Finset.range l.next,
      (if ((l.enter message recipients order).1.order? id).any kind then
        (l.enter message recipients order).1.given id else 0) =
      if (l.order? id).any kind then l.given id else 0 := by
    intro id below
    have other : id ≠ l.next := (Finset.mem_range.mp below).ne
    rw [enter_order?, enter_given, if_neg other, if_neg other]
  unfold givenOf
  rw [next, Finset.sum_range_succ, Finset.sum_congr rfl old, enter_order?, enter_given, enter_due,
    if_pos rfl, if_pos rfl]
  by_cases none : recipients = 0
  · by_cases asked : kind order <;> simp [none, asked]
  · simp [none]

end enter

/-! Being done with events -/

theorem done_next (l : Ledger κ) (id : EventId) : (l.done id).1.next = l.next := by
  unfold done
  split <;> rfl

theorem done_order? (l : Ledger κ) (id other : EventId) :
    (l.done id).1.order? other = l.order? other := by
  unfold done
  split
  · rfl
  · rename_i event order entry
    simp only [order?, Table.get?_insert]
    split
    · rename_i same
      subst same
      rw [entry]
      rfl
    · rfl

theorem Owes.done {l : Ledger κ} {owed : EventId → Nat} (owes : l.Owes owed) {id : EventId}
    (some : 0 < owed id) (below : id < l.next) :
    (l.done id).1.Owes fun other => if other = id then owed id - 1 else owed other := by
  obtain ⟨event, order, entry, counted⟩ := owes id below
  intro other within
  rw [done_next] at within
  simp only [Ledger.done, entry, Table.get?_insert]
  by_cases same : other = id
  · simp only [same, if_true]
    have one : owed id = (owed id - 1) + 1 := by omega
    rw [one] at counted
    exact ⟨_, order, rfl, Event.done_owed counted⟩
  · simp only [same, if_false]
    exact owes other within

theorem done_givenOf (l : Ledger κ) {id : EventId} (below : id < l.next) (kind : κ → Bool) :
    (l.done id).1.givenOf kind = l.givenOf kind + (l.done id).2.countP kind := by
  cases entry : l.entries.get? id with
  | none => simp [done, entry]
  | some found =>
      obtain ⟨event, order⟩ := found
      have others : ∀ other, other ≠ id →
          (if ((l.done id).1.order? other).any kind then (l.done id).1.given other else 0) =
            if (l.order? other).any kind then l.given other else 0 := by
        intro other different
        rw [done_order?]
        simp [done, entry, given, event?, Table.get?_insert, different]
      have change := sum_range_change below others
      have before : l.given id = event.completions := by simp [given, event?, entry]
      have after : (l.done id).1.given id = event.done.completions := by
        simp [done, entry, given, event?, Table.get?_insert]
      have asked : l.order? id = some order := by simp [order?, entry]
      rw [done_order?, before, after, asked, event.done_completions] at change
      have due : (l.done id).2 = if event.armed && !event.done.armed then [order] else [] := by
        simp [done, entry]
      unfold givenOf
      rw [done_next, due]
      generalize (event.armed && !event.done.armed) = last at change ⊢
      cases asks : kind order <;> cases last <;> simp [asks] at change ⊢ <;> omega

theorem doneAll_next (l : Ledger κ) (ids : List EventId) : (l.doneAll ids).1.next = l.next := by
  induction ids generalizing l with
  | nil => rfl
  | cons id rest ih => exact (ih _).trans (done_next l id)

theorem doneAll_order? (l : Ledger κ) (ids : List EventId) (other : EventId) :
    (l.doneAll ids).1.order? other = l.order? other := by
  induction ids generalizing l with
  | nil => rfl
  | cons id rest ih => exact (ih _).trans (done_order? l id other)

theorem Owes.doneAll {l : Ledger κ} {owed : EventId → Nat} (owes : l.Owes owed)
    {ids : List EventId} (enough : ∀ id, ids.count id ≤ owed id)
    (below : ∀ id ∈ ids, id < l.next) :
    (l.doneAll ids).1.Owes fun id => owed id - ids.count id := by
  induction ids generalizing l owed with
  | nil => simpa [Ledger.doneAll] using owes
  | cons id rest ih =>
      have some : 0 < owed id := by
        have := enough id
        rw [List.count_cons_self] at this
        omega
      have first := owes.done some (below id (List.mem_cons_self ..))
      have shift : (fun other => (if other = id then owed id - 1 else owed other) -
          rest.count other) = fun other => owed other - (id :: rest).count other := by
        funext other
        rw [List.count_cons]
        by_cases same : other = id
        · subst same
          simp
          omega
        · simp [same, Ne.symm same]
      rw [← shift]
      refine ih first (fun other => ?_) fun other member => ?_
      · have := enough other
        rw [List.count_cons] at this
        by_cases same : other = id
        · subst same
          simp at this ⊢
          omega
        · simp only [same, if_false]
          omega
      · exact Nat.lt_of_lt_of_eq (below other (List.mem_cons_of_mem _ member))
          (done_next l id).symm

theorem doneAll_givenOf (l : Ledger κ) {ids : List EventId} (below : ∀ id ∈ ids, id < l.next)
    (kind : κ → Bool) :
    (l.doneAll ids).1.givenOf kind = l.givenOf kind + (l.doneAll ids).2.countP kind := by
  induction ids generalizing l with
  | nil => rfl
  | cons id rest ih =>
      have later := ih (l.done id).1 fun other member => by
        rw [done_next]
        exact below other (List.mem_cons_of_mem _ member)
      have first := l.done_givenOf (below id (List.mem_cons_self ..)) kind
      simp only [doneAll, List.countP_append]
      omega

end Ledger

end MqttBroker
