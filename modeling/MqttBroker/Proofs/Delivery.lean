import MqttBroker.Broker.Delivery

/-!
What a delivery changes in the window and in the durable queue. Most of its steps change neither,
but for the time at which a message was last sent; the others move one message from the queue into
the window.
-/

namespace MqttBroker

def InflightEntry.body {τ : Type} (e : InflightEntry τ) : PacketId × Nat × τ × Publish :=
  (e.id, e.seq, e.ticket, e.publish)

theorem Inflight.find?_body {τ : Type} {w w' : Inflight τ}
    (same : w'.entries.map InflightEntry.body = w.entries.map InflightEntry.body) (id : PacketId) :
    (w'.find? id).map InflightEntry.body = (w.find? id).map InflightEntry.body := by
  have found : ∀ w : Inflight τ, (w.find? id).map InflightEntry.body =
      (w.entries.map InflightEntry.body).find? fun body => body.1 = id := by
    intro w
    rw [List.find?_map]
    rfl
  rw [found, found, same]

theorem Inflight.mem_body {τ : Type} {w w' : Inflight τ}
    (same : w'.entries.map InflightEntry.body = w.entries.map InflightEntry.body)
    {e : InflightEntry τ} (member : e ∈ w'.entries) :
    ∃ f ∈ w.entries, f.body = e.body := by
  have inside : e.body ∈ w'.entries.map InflightEntry.body := List.mem_map_of_mem member
  rw [same] at inside
  exact List.mem_map.mp inside

theorem Inflight.resend_body {τ : Type} (w : Inflight τ) (id : PacketId) (seq now : Nat) :
    (w.resend id seq now).1.entries.map InflightEntry.body = w.entries.map InflightEntry.body ∧
      (w.resend id seq now).1.nextSeq = w.nextSeq := by
  unfold Inflight.resend
  split
  · exact ⟨rfl, rfl⟩
  · refine ⟨?_, rfl⟩
    simp only [List.map_map]
    apply List.map_congr_left
    intro e _
    simp only [Function.comp]
    split <;> rfl

/-- The window after a message was entered: the entry that had its packet id is gone. -/
structure Inflight.Entered {τ : Type} (w : Inflight τ) (ticket : τ) (message : Publish)
    (w' : Inflight τ) (e : InflightEntry τ) (replaced : Option τ) : Prop where
  entries : w'.entries = w.without e.id ++ [e]
  nextSeq : w'.nextSeq = w.nextSeq + 1
  seq : e.seq = w.nextSeq
  ticket : e.ticket = ticket
  publish : e.publish =
    { message with packetId := some e.id, qos := .atLeastOnce, dup := false }
  replaced : replaced = (w.find? e.id).map InflightEntry.ticket

theorem Inflight.insert_entered {τ : Type} (w : Inflight τ) (ticket : τ) (message : Publish)
    (now : Nat) :
    w.Entered ticket message (w.insert ticket message now).1 (w.insert ticket message now).2.1
      (w.insert ticket message now).2.2 :=
  ⟨rfl, rfl, rfl, rfl, rfl, rfl⟩

theorem Inflight.find?_entered {τ : Type} {w w' : Inflight τ} {e : InflightEntry τ}
    (entered : w'.entries = w.without e.id ++ [e]) : w'.find? e.id = some e := by
  have none : (w.without e.id).find? (fun f => f.id = e.id) = none := by
    refine List.find?_eq_none.mpr fun f member => ?_
    simpa using (List.mem_filter.mp member).2
  rw [Inflight.find?, entered, List.find?_append, none]
  simp

theorem Inflight.mem_without {τ : Type} {w : Inflight τ} {id : PacketId} {e : InflightEntry τ}
    (member : e ∈ w.without id) : e ∈ w.entries :=
  (List.mem_filter.mp member).1

theorem Inflight.Entered.mem {τ : Type} {w w' : Inflight τ} {ticket : τ} {message : Publish}
    {e f : InflightEntry τ} {replaced : Option τ}
    (entered : w.Entered ticket message w' e replaced) (member : f ∈ w'.entries) :
    f ∈ w.entries ∨ f = e := by
  rw [entered.entries, List.mem_append, List.mem_singleton] at member
  exact member.imp_left mem_without

theorem Inflight.Entered.fresh {τ : Type} {w w' : Inflight τ} {ticket : τ} {message : Publish}
    {e : InflightEntry τ} {replaced : Option τ}
    (entered : w.Entered ticket message w' e replaced)
    (fresh : ∀ f ∈ w.entries, f.seq < w.nextSeq) : ∀ f ∈ w'.entries, f.seq < w'.nextSeq := by
  intro f member
  rw [entered.nextSeq]
  rcases entered.mem member with old | rfl
  · exact Nat.lt_succ_of_lt (fresh f old)
  · exact entered.seq ▸ Nat.lt_succ_self _

theorem Inflight.mem_of_find? {τ : Type} {w : Inflight τ} {id : PacketId} {e : InflightEntry τ}
    (found : w.find? id = some e) : e ∈ w.entries ∧ e.id = id :=
  ⟨List.mem_of_find?_eq_some found, by simpa using List.find?_some found⟩

namespace Delivery

structure Quiet (d d' : Delivery) : Prop where
  durable : d'.queues.map SessionQueues.durable = d.queues.map SessionQueues.durable
  entries : d'.window.entries.map InflightEntry.body = d.window.entries.map InflightEntry.body
  nextSeq : d'.window.nextSeq = d.window.nextSeq

theorem Quiet.refl (d : Delivery) : Quiet d d := ⟨rfl, rfl, rfl⟩

theorem Quiet.trans {d d' d'' : Delivery} (first : Quiet d d') (second : Quiet d' d'') :
    Quiet d d'' :=
  ⟨second.durable.trans first.durable, second.entries.trans first.entries,
    second.nextSeq.trans first.nextSeq⟩

theorem out_quiet (d : Delivery) (out : Outgoing) : Quiet d { d with out } := ⟨rfl, rfl, rfl⟩

theorem send_quiet (d : Delivery) (p : Packet) : Quiet d (d.send p) := by
  unfold send
  split <;> exact ⟨rfl, rfl, rfl⟩

theorem await_quiet (d : Delivery) (id : PacketId) (seq : Nat) : Quiet d (d.await id seq) := by
  unfold await
  split <;> exact ⟨rfl, rfl, rfl⟩

theorem resend_quiet (d : Delivery) (id : PacketId) (seq now : Nat) :
    Quiet d (d.resend id seq now) := by
  have resent := d.window.resend_body id seq now
  unfold resend
  split
  · exact .refl d
  · rename_i window p same
    rw [same] at resent
    have first : Quiet d { d with window } := ⟨rfl, resent.1, resent.2⟩
    exact (first.trans (send_quiet ..)).trans (await_quiet ..)

theorem begin_quiet (d : Delivery) (now : Nat) : Quiet d (d.begin now) := by
  unfold begin
  generalize d.window.pending = waiting
  induction waiting generalizing d with
  | nil => exact .refl d
  | cons item rest ih =>
      rw [List.foldl_cons]
      refine Quiet.trans ?_ (ih _)
      by_cases failed : d.failed
      · simp only [failed, if_true]
        exact .refl d
      · simp only [failed]
        exact resend_quiet ..

theorem retry_quiet {d d' : Delivery} {now : Nat} (retried : d.retry now = some d') :
    Quiet d d' := by
  unfold retry at retried
  split at retried
  · split at retried
    · cases retried
      exact ((out_quiet d _).trans (resend_quiet ..)).trans (out_quiet ..)
    · cases retried
  · cases retried

theorem dropPermit_quiet (d : Delivery) : Quiet d d.dropPermit := by
  unfold dropPermit
  split <;> exact ⟨rfl, rfl, rfl⟩

theorem takePermit_quiet {d d' : Delivery} (taken : d.takePermit = some d') : Quiet d d' := by
  simp only [takePermit, Option.map_eq_some_iff, Inflight.acquire] at taken
  obtain ⟨window, acquired, rfl⟩ := taken
  split at acquired
  · cases acquired
  · split at acquired
    · cases acquired
    · cases acquired
      exact ⟨rfl, rfl, rfl⟩

def TakesIn (d : Delivery) (now : Nat) (d' : Delivery) : Prop :=
  ∃ q durable m, d.queues = some q ∧ q.durable.pop = (durable, some m) ∧
    Quiet (d.takeIn q durable m now).1 d'

theorem forward_cases {d d' : Delivery} {now : Nat} (forwarded : d.forward now = some d') :
    Quiet d d' ∨ TakesIn d now d' := by
  unfold forward at forwarded
  split at forwarded
  · cases forwarded
    exact Or.inl ((out_quiet d _).trans (send_quiet ..))
  · split at forwarded
    · cases forwarded
      exact Or.inl (dropPermit_quiet d)
    · cases forwarded
  · rename_i q _ some
    split at forwarded
    · rename_i temporary p _
      cases forwarded
      have first : Quiet d { d with queues := Option.some { q with temporary } } :=
        ⟨by simp [some], rfl, rfl⟩
      exact Or.inl (first.trans (send_quiet ..))
    · split at forwarded
      · unfold sendDurable at forwarded
        split at forwarded
        · cases forwarded
        · rename_i durable m popped
          cases forwarded
          exact Or.inr ⟨q, durable, m, some, popped,
            (send_quiet ..).trans (await_quiet ..)⟩
      · exact Or.inl (takePermit_quiet forwarded)

theorem next_cases {d d' : Delivery} {now : Nat} (step : d.next now = some d') :
    Quiet d d' ∨ TakesIn d now d' := by
  unfold next at step
  split at step
  · cases step
  · cases forwarded : d.forward now with
    | some _ =>
        rw [forwarded] at step
        exact forward_cases (forwarded.trans step)
    | none =>
        rw [forwarded] at step
        exact Or.inl (retry_quiet step)

end Delivery

end MqttBroker
