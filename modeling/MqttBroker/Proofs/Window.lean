import Mathlib.Data.List.Nodup
import MqttBroker.Proofs.Delivery

/-!
The in-flight window as a line of entries: packet ids are not shared, sequence numbers increase,
and an entry is found by the two together. What entering, acknowledging and sending again make of
the line.
-/

namespace MqttBroker

variable {τ : Type}

/-- What an entry is known by: packet ids are used again, sequence numbers are not. -/
def InflightEntry.key (e : InflightEntry τ) : PacketId × Nat := (e.id, e.seq)

theorem InflightEntry.key_of_body {e f : InflightEntry τ} (same : f.body = e.body) :
    f.key = e.key := by
  simp only [InflightEntry.body, Prod.mk.injEq] at same
  simp [InflightEntry.key, same]

theorem InflightEntry.map_key (entries : List (InflightEntry τ)) :
    entries.map InflightEntry.key =
      (entries.map InflightEntry.body).map fun body => (body.1, body.2.1) := by
  rw [List.map_map]
  rfl

namespace Inflight

structure Ordered (w : Inflight τ) : Prop where
  ids : w.entries.Pairwise fun e f => e.id ≠ f.id
  seqs : w.entries.Pairwise fun e f => e.seq < f.seq
  fresh : ∀ e ∈ w.entries, e.seq < w.nextSeq

theorem ordered_empty {w : Inflight τ} (empty : w.entries = []) : w.Ordered := by
  constructor <;> simp [empty]

theorem Ordered.of_bodies {w w' : Inflight τ} (ordered : w.Ordered)
    (entries : w'.entries.map InflightEntry.body = w.entries.map InflightEntry.body)
    (nextSeq : w'.nextSeq = w.nextSeq) : w'.Ordered := by
  have ids : (w.entries.map InflightEntry.body).Pairwise fun a b => a.1 ≠ b.1 :=
    List.pairwise_map.mpr ordered.ids
  have seqs : (w.entries.map InflightEntry.body).Pairwise fun a b => a.2.1 < b.2.1 :=
    List.pairwise_map.mpr ordered.seqs
  rw [← entries, List.pairwise_map] at ids seqs
  refine ⟨ids, seqs, ?_⟩
  intro e member
  obtain ⟨f, before, same⟩ := mem_body entries member
  have seq := ordered.fresh f before
  simp only [InflightEntry.body, Prod.mk.injEq] at same
  omega

theorem Ordered.same_id {w : Inflight τ} (ordered : w.Ordered) {e f : InflightEntry τ}
    (first : e ∈ w.entries) (second : f ∈ w.entries) (same : e.id = f.id) : e = f := by
  have distinct : (w.entries.map InflightEntry.id).Nodup := List.pairwise_map.mpr ordered.ids
  exact List.inj_on_of_nodup_map distinct first second same

theorem Ordered.same_seq {w : Inflight τ} (ordered : w.Ordered) {e f : InflightEntry τ}
    (first : e ∈ w.entries) (second : f ∈ w.entries) (same : e.seq = f.seq) : e = f := by
  have distinct : (w.entries.map InflightEntry.seq).Nodup :=
    List.pairwise_map.mpr (ordered.seqs.imp Nat.ne_of_lt)
  exact List.inj_on_of_nodup_map distinct first second same

theorem Ordered.same_key {w : Inflight τ} (ordered : w.Ordered) {e f : InflightEntry τ}
    (first : e ∈ w.entries) (second : f ∈ w.entries) (same : e.key = f.key) : e = f :=
  ordered.same_seq first second (congrArg Prod.snd same)

theorem Ordered.find?_iff {w : Inflight τ} (ordered : w.Ordered) {id : PacketId}
    {e : InflightEntry τ} : w.find? id = some e ↔ e ∈ w.entries ∧ e.id = id := by
  constructor
  · exact mem_of_find?
  · rintro ⟨member, rfl⟩
    cases found : w.find? e.id with
    | none => simpa using List.find?_eq_none.mp found e member
    | some f =>
        obtain ⟨inside, same⟩ := mem_of_find? found
        rw [ordered.same_id inside member same]

theorem find?_none {w : Inflight τ} {id : PacketId} :
    w.find? id = none ↔ ∀ e ∈ w.entries, e.id ≠ id := by
  simp [Inflight.find?, List.find?_eq_none]

theorem Ordered.lookup_iff {w : Inflight τ} (ordered : w.Ordered) {id : PacketId} {seq : Nat}
    {e : InflightEntry τ} : w.lookup id seq = some e ↔ e ∈ w.entries ∧ e.key = (id, seq) := by
  simp [Inflight.lookup, Option.filter_eq_some_iff, ordered.find?_iff, InflightEntry.key, and_assoc]

theorem mem_pending {w : Inflight τ} {x : PacketId × Nat} :
    x ∈ w.pending ↔ ∃ e ∈ w.entries, e.key = x := by
  simp [Inflight.pending, InflightEntry.key]

theorem Ordered.nodup_pending {w : Inflight τ} (ordered : w.Ordered) : w.pending.Nodup := by
  refine List.pairwise_map.mpr (ordered.seqs.imp fun {e f} later same => ?_)
  exact Nat.ne_of_lt later (congrArg Prod.snd same)

theorem Ordered.isPending_iff {w : Inflight τ} (ordered : w.Ordered) {id : PacketId} {seq : Nat} :
    w.isPending id seq = true ↔ (id, seq) ∈ w.pending := by
  rw [Inflight.isPending, Option.isSome_iff_exists, mem_pending]
  exact exists_congr fun e => ordered.lookup_iff

theorem isSome_deadline (w : Inflight τ) (id : PacketId) (seq : Nat) :
    (w.deadline id seq).isSome = w.isPending id seq := by
  simp [Inflight.deadline, Inflight.isPending]

theorem isSome_resend (w : Inflight τ) (id : PacketId) (seq now : Nat) :
    (w.resend id seq now).2.isSome = w.isPending id seq := by
  unfold Inflight.resend Inflight.isPending
  cases w.lookup id seq <;> rfl

theorem Ordered.deadline_iff {w : Inflight τ} (ordered : w.Ordered) {id : PacketId}
    {seq due : Nat} : w.deadline id seq = some due ↔
      ∃ e ∈ w.entries, e.key = (id, seq) ∧ due = e.lastSent + w.interval := by
  simp only [Inflight.deadline, Option.map_eq_some_iff, ordered.lookup_iff, and_assoc,
    eq_comm (a := due)]

theorem pending_eq_keys (w : Inflight τ) : w.pending = w.entries.map InflightEntry.key := rfl

theorem pending_of_bodies {w w' : Inflight τ}
    (same : w'.entries.map InflightEntry.body = w.entries.map InflightEntry.body) :
    w'.pending = w.pending := by
  rw [pending_eq_keys, pending_eq_keys, InflightEntry.map_key, same, ← InflightEntry.map_key]

theorem Ordered.length_without {w : Inflight τ} (ordered : w.Ordered) (id : PacketId) :
    (w.without id).length + (w.find? id).toList.length = w.entries.length := by
  have ids := ordered.ids
  unfold Inflight.without Inflight.find?
  generalize w.entries = entries at ids
  induction entries with
  | nil => rfl
  | cons e rest ih =>
      obtain ⟨others, ids⟩ := List.pairwise_cons.mp ids
      by_cases same : e.id = id
      · have others : ∀ f ∈ rest, f.id ≠ id :=
          fun f member also => others f member (same.trans also.symm)
        simpa [same] using others
      · have shorter := ih ids
        simp [same] at shorter ⊢
        omega

/-! Entering -/

theorem mem_insert {w : Inflight τ} {ticket : τ} {message : Publish} {now : Nat}
    {e : InflightEntry τ} :
    e ∈ (w.insert ticket message now).1.entries ↔
      (e ∈ w.entries ∧ e.id ≠ (w.insert ticket message now).2.1.id) ∨
        e = (w.insert ticket message now).2.1 := by
  have entered := w.insert_entered ticket message now
  rw [entered.entries, List.mem_append, List.mem_singleton, Inflight.without, List.mem_filter]
  simp

theorem Ordered.insert {w : Inflight τ} (ordered : w.Ordered) (ticket : τ) (message : Publish)
    (now : Nat) : (w.insert ticket message now).1.Ordered := by
  have entered := w.insert_entered ticket message now
  generalize w.insert ticket message now = inserted at entered
  obtain ⟨w', e, replaced⟩ := inserted
  simp only at entered ⊢
  have older : ∀ f ∈ w.without e.id, f.id ≠ e.id ∧ f.seq < e.seq := by
    intro f member
    obtain ⟨inside, other⟩ := List.mem_filter.mp member
    rw [entered.seq]
    exact ⟨by simpa using other, ordered.fresh f inside⟩
  constructor
  · rw [entered.entries]
    refine List.pairwise_append.mpr ⟨ordered.ids.filter _, by simp, fun f member g last => ?_⟩
    rw [List.mem_singleton.mp last]
    exact (older f member).1
  · rw [entered.entries]
    refine List.pairwise_append.mpr ⟨ordered.seqs.filter _, by simp, fun f member g last => ?_⟩
    rw [List.mem_singleton.mp last]
    exact (older f member).2
  · exact entered.fresh ordered.fresh

/-- Who comes under a packet id that is still taken makes the line no longer. -/
theorem Ordered.length_insert {w w' : Inflight τ} {ticket : τ} {message : Publish}
    {e : InflightEntry τ} {replaced : Option τ} (ordered : w.Ordered)
    (entered : w.Entered ticket message w' e replaced) :
    w'.entries.length + replaced.toList.length = w.entries.length + 1 := by
  have shorter := ordered.length_without e.id
  rw [entered.entries, entered.replaced, List.length_append, List.length_singleton,
    Option.toList_map, List.length_map]
  omega

/-- The gauge goes up with the line. -/
theorem Ordered.takeIn_gauge {d : Delivery} (ordered : d.window.Ordered) (q : SessionQueues)
    (durable : StoredQueue EventId) (next : StoredMessage) (now : Nat) :
    let d' := (d.takeIn q durable next now).1
    d'.gauge = d.gauge.increment ∧ d'.window.entries.length = d.window.entries.length + 1 ∨
      d'.gauge = d.gauge ∧ d'.window.entries.length = d.window.entries.length := by
  have entered := d.window.insert_entered next.offset next.message now
  simp only [Delivery.takeIn]
  generalize d.window.insert next.offset next.message now = inserted at entered
  obtain ⟨window, e, replaced⟩ := inserted
  simp only at entered ⊢
  have grown := ordered.length_insert entered
  cases replaced with
  | none => exact Or.inl ⟨rfl, grown⟩
  | some n => exact Or.inr ⟨rfl, Nat.add_right_cancel grown⟩

/-! Acknowledging -/

theorem ack_entries (w : Inflight τ) (id : PacketId) : (w.ack id).1.entries = w.without id := by
  unfold Inflight.ack
  split
  · rename_i none
    refine (List.filter_eq_self.mpr fun e member => ?_).symm
    simpa using find?_none.mp none e member
  · rfl

theorem mem_ack {w : Inflight τ} {id : PacketId} {e : InflightEntry τ} :
    e ∈ (w.ack id).1.entries ↔ e ∈ w.entries ∧ e.id ≠ id := by
  rw [ack_entries, Inflight.without, List.mem_filter]
  simp

theorem ack_nextSeq (w : Inflight τ) (id : PacketId) : (w.ack id).1.nextSeq = w.nextSeq := by
  unfold Inflight.ack
  split <;> rfl

theorem ack_interval (w : Inflight τ) (id : PacketId) :
    (w.ack id).1.interval = w.interval := by
  unfold Inflight.ack
  split <;> rfl

theorem Ordered.ack {w : Inflight τ} (ordered : w.Ordered) (id : PacketId) :
    (w.ack id).1.Ordered where
  ids := by
    rw [ack_entries]
    exact ordered.ids.filter _
  seqs := by
    rw [ack_entries]
    exact ordered.seqs.filter _
  fresh := by
    intro e member
    rw [ack_nextSeq]
    exact ordered.fresh e (mem_ack.mp member).1

/-! Sending again -/

theorem Ordered.resend {w : Inflight τ} (ordered : w.Ordered) (id : PacketId) (seq now : Nat) :
    (w.resend id seq now).1.Ordered := by
  obtain ⟨entries, nextSeq⟩ := w.resend_body id seq now
  exact ordered.of_bodies entries nextSeq

theorem Ordered.mem_resend {w : Inflight τ} (ordered : w.Ordered) {id : PacketId} {seq now : Nat}
    {e : InflightEntry τ} (member : e ∈ (w.resend id seq now).1.entries) :
    (e.key = (id, seq) ∧ e.lastSent = now) ∨ (e.key ≠ (id, seq) ∧ e ∈ w.entries) := by
  unfold Inflight.resend at member
  split at member
  · rename_i none
    refine Or.inr ⟨fun same => ?_, member⟩
    rw [ordered.lookup_iff.mpr ⟨member, same⟩] at none
    cases none
  · rename_i f found
    obtain ⟨inside, key⟩ := ordered.lookup_iff.mp found
    simp only [InflightEntry.key, Prod.mk.injEq] at key
    obtain ⟨g, before, rfl⟩ := List.mem_map.mp member
    by_cases same : g.id = id
    · rw [ordered.same_id before inside (same.trans key.1.symm)]
      left
      simp [key, InflightEntry.key]
    · right
      simp only [same, if_false]
      exact ⟨fun other => same (congrArg Prod.fst other), before⟩

theorem Ordered.resend_some {w w' : Inflight τ} (ordered : w.Ordered) {id : PacketId}
    {seq now : Nat} {p : Publish} (resent : w.resend id seq now = (w', some p)) :
    ∃ e ∈ w.entries, e.key = (id, seq) ∧ p = { e.publish with dup := true } := by
  unfold Inflight.resend at resent
  split at resent
  · cases resent
  · rename_i e found
    cases resent
    obtain ⟨member, key⟩ := ordered.lookup_iff.mp found
    exact ⟨e, member, key, rfl⟩

theorem resend_frame (w : Inflight τ) (id : PacketId) (seq now : Nat) :
    ∃ entries, (w.resend id seq now).1 = { w with entries } := by
  unfold Inflight.resend
  split
  · exact ⟨w.entries, rfl⟩
  · exact ⟨_, rfl⟩

structure Kept (w w' : Inflight τ) : Prop where
  bodies : w'.entries.map InflightEntry.body = w.entries.map InflightEntry.body
  nextSeq : w'.nextSeq = w.nextSeq
  interval : w'.interval = w.interval
  capacity : w'.capacity = w.capacity

theorem Kept.pending {w w' : Inflight τ} (kept : w.Kept w') : w'.pending = w.pending :=
  pending_of_bodies kept.bodies

theorem kept_of_resend {w w' : Inflight τ} {id : PacketId} {seq now : Nat} {p : Option Publish}
    (resent : w.resend id seq now = (w', p)) : w.Kept w' := by
  obtain ⟨bodies, nextSeq⟩ := w.resend_body id seq now
  obtain ⟨entries, frame⟩ := w.resend_frame id seq now
  rw [resent] at bodies nextSeq frame
  have interval := congrArg Inflight.interval frame
  have capacity := congrArg Inflight.capacity frame
  exact ⟨bodies, nextSeq, interval, capacity⟩

def Restamped (w w' : Inflight τ) (keys : List (PacketId × Nat)) (now : Nat) : Prop :=
  ∀ e ∈ w'.entries, (e.key ∈ keys ∧ e.lastSent = now) ∨ (e.key ∉ keys ∧ e ∈ w.entries)

theorem Restamped.of_subset {w w' : Inflight τ} (fewer : ∀ e ∈ w'.entries, e ∈ w.entries)
    (now : Nat) : w.Restamped w' [] now :=
  fun e member => Or.inr ⟨List.not_mem_nil, fewer e member⟩

theorem insert_restamped (w : Inflight τ) (ticket : τ) (message : Publish) (now : Nat) :
    w.Restamped (w.insert ticket message now).1 [(w.insert ticket message now).2.1.key] now := by
  intro e member
  rcases mem_insert.mp member with ⟨inside, other⟩ | same
  · refine Or.inr ⟨fun key => other ?_, inside⟩
    exact congrArg Prod.fst (List.mem_singleton.mp key)
  · rw [same]
    exact Or.inl ⟨List.mem_singleton_self _, rfl⟩

theorem Ordered.resend_restamped {w : Inflight τ} (ordered : w.Ordered) (id : PacketId)
    (seq now : Nat) : w.Restamped (w.resend id seq now).1 [(id, seq)] now := by
  intro e member
  simpa using ordered.mem_resend member

end Inflight

end MqttBroker
