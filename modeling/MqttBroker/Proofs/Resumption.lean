import MqttBroker.Proofs.Delivering
import MqttBroker.Proofs.StoredPath

/-!
The order of deliveries over one connection after the other. Messages enter the window in the order
of their offsets and are sent for the first time in that order, each once. What was not acknowledged
over one connection is sent again over the next, before anything new, and always with the packet id
and contents of its first packet.
-/

namespace MqttBroker

open DurableQueue (Activity)

def Sending.Ahead : Sending → List (PacketId × Nat) → Prop
  | .among rest, ahead => ahead = rest
  | .sending p key rest, ahead => if p.dup then ahead = key :: rest else ahead = [] ∧ rest = []
  | .handing _ rest, ahead => ahead = rest
  | .stopped, _ => True

namespace Delivering

theorem Alike.quiet {d d' : Delivery} (alike : Alike d d') : d.Quiet d' :=
  ⟨alike.durable, by rw [alike.entries], alike.nextSeq⟩

structure Steady (m m' : Delivering) : Prop where
  quiet : m.delivery.Quiet m'.delivery
  entered : m'.entered = m.entered

structure Enters (m m' : Delivering) (q : SessionQueues) (durable : StoredQueue EventId)
    (next : StoredMessage) (e : InflightEntry Nat) : Prop where
  queues : m.delivery.queues = some q
  popped : q.durable.pop = (durable, some next)
  taken : m.delivery.takeIn q durable next m.now = (m'.delivery, e)
  entered : m'.entered = m.entered ++ [e]

structure Acknowledges (m m' : Delivering) (id : PacketId) (e : InflightEntry Nat) : Prop where
  found : m.delivery.window.find? id = some e
  delivery : m'.delivery = m.delivery.acknowledge id
  entered : m'.entered = m.entered

theorem Moves.cases {m m' : Delivering} {s : Stroke} (moves : Moves m s m') :
    Steady m m' ∨ (∃ q durable next e, Enters m m' q durable next e) ∨
      ∃ id e, Acknowledges m m' id e := by
  cases moves with
  | entered idle queues popped taken =>
      exact Or.inr (Or.inl ⟨_, _, _, _, queues, popped, taken, rfl⟩)
  | acknowledged found => exact Or.inr (Or.inr ⟨_, _, found, rfl, rfl⟩)
  | resumed here resent =>
      have kept := Inflight.kept_of_resend resent
      exact Or.inl ⟨⟨rfl, kept.bodies, kept.nextSeq⟩, rfl⟩
  | fired _ _ _ _ resent =>
      have kept := Inflight.kept_of_resend resent
      exact Or.inl ⟨⟨rfl, kept.bodies, kept.nextSeq⟩, rfl⟩
  | aside s alike => exact Or.inl ⟨alike.quiet, rfl⟩
  | halted s alike => exact Or.inl ⟨alike.quiet, rfl⟩
  | ceased s alike => exact Or.inl ⟨alike.quiet, rfl⟩
  | sent here alike => exact Or.inl ⟨alike.quiet, rfl⟩
  | sentAgain here alike => exact Or.inl ⟨alike.quiet.trans ⟨rfl, rfl, rfl⟩, rfl⟩
  | connected link halted ceased alike =>
      exact Or.inl ⟨alike.quiet.trans ⟨rfl, rfl, rfl⟩, rfl⟩
  | _ => exact Or.inl ⟨⟨rfl, rfl, rfl⟩, rfl⟩

/-! The window on record -/

structure Recorded (m : Delivering) : Prop where
  ordered : m.delivery.window.Ordered
  seqs : m.entered.Pairwise fun e f => e.seq < f.seq
  fresh : ∀ e ∈ m.entered, e.seq < m.delivery.window.nextSeq
  known : (m.delivery.window.entries.map InflightEntry.body).Sublist
    (m.entered.map InflightEntry.body)
  unmarked : ∀ e ∈ m.entered, e.publish.dup = false

theorem Recorded.steady {m m' : Delivering} (recorded : m.Recorded) (steady : Steady m m') :
    m'.Recorded where
  ordered := recorded.ordered.of_bodies steady.quiet.entries steady.quiet.nextSeq
  seqs := steady.entered ▸ recorded.seqs
  fresh := by
    rw [steady.entered, steady.quiet.nextSeq]
    exact recorded.fresh
  known := by
    rw [steady.quiet.entries, steady.entered]
    exact recorded.known
  unmarked := steady.entered ▸ recorded.unmarked

theorem Recorded.enters {m m' : Delivering} (recorded : m.Recorded) {q : SessionQueues}
    {durable : StoredQueue EventId} {next : StoredMessage} {e : InflightEntry Nat}
    (enters : Enters m m' q durable next e) : m'.Recorded := by
  obtain ⟨replaced, inserted, _, _⟩ := Delivery.takeIn_entered enters.taken
  have ordered := recorded.ordered.insert next.offset next.message m.now
  have entered := m.delivery.window.insert_entered next.offset next.message m.now
  rw [inserted] at ordered entered
  constructor
  case ordered => exact ordered
  case seqs =>
    rw [enters.entered]
    refine List.pairwise_append.mpr ⟨recorded.seqs, by simp, fun f member g last => ?_⟩
    rw [List.mem_singleton.mp last, entered.seq]
    exact recorded.fresh f member
  case fresh =>
    intro f member
    rw [enters.entered, List.mem_append, List.mem_singleton] at member
    rw [entered.nextSeq]
    rcases member with old | rfl
    · exact Nat.lt_succ_of_lt (recorded.fresh f old)
    · rw [entered.seq]
      exact Nat.lt_succ_self _
  case known =>
    rw [entered.entries, enters.entered, List.map_append, List.map_append]
    exact ((List.filter_sublist.map _).trans recorded.known).append (.refl _)
  case unmarked =>
    intro f member
    rw [enters.entered, List.mem_append, List.mem_singleton] at member
    rcases member with old | rfl
    · exact recorded.unmarked f old
    · rw [entered.publish]

theorem Recorded.acknowledges {m m' : Delivering} (recorded : m.Recorded) {id : PacketId}
    {e : InflightEntry Nat} (acks : Acknowledges m m' id e) : m'.Recorded := by
  obtain ⟨window, _, _⟩ := Delivery.acknowledge_found acks.found
  constructor
  case ordered =>
    rw [acks.delivery, window]
    exact recorded.ordered.ack id
  case seqs => exact acks.entered ▸ recorded.seqs
  case fresh =>
    rw [acks.entered, acks.delivery, window, Inflight.ack_nextSeq]
    exact recorded.fresh
  case known =>
    rw [acks.delivery, window, acks.entered, Inflight.ack_entries]
    exact (List.filter_sublist.map _).trans recorded.known
  case unmarked => exact acks.entered ▸ recorded.unmarked

theorem Recorded.moves {m m' : Delivering} (recorded : m.Recorded) {s : Stroke}
    (moves : Moves m s m') : m'.Recorded := by
  rcases moves.cases with steady | ⟨_, _, _, _, enters⟩ | ⟨_, _, acks⟩
  · exact recorded.steady steady
  · exact recorded.enters enters
  · exact recorded.acknowledges acks

/-! What is sent -/

/-- What was sent for the first time. -/
def firsts (sent : List Sent) : List ((PacketId × Nat) × Publish) :=
  (sent.filter fun x => !x.packet.dup).map fun x => (x.key, x.packet)

/-- What was sent again because the connection was new. -/
def resumptions (sent : List Sent) : List (PacketId × Nat) :=
  (sent.filter fun x => x.packet.dup && !x.retried).map Sent.key

/-- The packet is a duplicate of the first packet of the message with this packet id and sequence
number. -/
def Copy (m : Delivering) (key : PacketId × Nat) (p : Publish) : Prop :=
  ∃ e ∈ m.entered, e.key = key ∧ p = { e.publish with dup := true }

theorem Copy.dup {m : Delivering} {key : PacketId × Nat} {p : Publish} (copy : m.Copy key p) :
    p.dup = true := by
  obtain ⟨_, _, _, rfl⟩ := copy
  rfl

theorem Moves.grows {m m' : Delivering} {s : Stroke} (moves : Moves m s m') :
    ∃ more, m'.entered = m.entered ++ more := by
  rcases moves.cases with steady | ⟨_, _, _, _, enters⟩ | ⟨_, _, acks⟩
  · exact ⟨[], by rw [steady.entered, List.append_nil]⟩
  · exact ⟨_, enters.entered⟩
  · exact ⟨[], by rw [acks.entered, List.append_nil]⟩

theorem Copy.moves {m m' : Delivering} {s : Stroke} (moves : Moves m s m')
    {key : PacketId × Nat} {p : Publish} (copy : m.Copy key p) : m'.Copy key p := by
  obtain ⟨more, entered⟩ := moves.grows
  obtain ⟨e, member, same, equal⟩ := copy
  exact ⟨e, entered ▸ List.mem_append_left _ member, same, equal⟩

theorem Recorded.copy {m : Delivering} (recorded : m.Recorded) {id : PacketId} {seq now : Nat}
    {window : Inflight Nat} {p : Publish}
    (resent : m.delivery.window.resend id seq now = (window, some p)) : m.Copy (id, seq) p := by
  obtain ⟨e, member, key, rfl⟩ := recorded.ordered.resend_some resent
  obtain ⟨f, entered, same⟩ := List.mem_map.mp (recorded.known.subset (List.mem_map_of_mem member))
  refine ⟨f, entered, (InflightEntry.key_of_body same).trans key, ?_⟩
  simp only [InflightEntry.body, Prod.mk.injEq] at same
  rw [same.2.2.2]

structure Faithful (m : Delivering) : Prop where
  firsts : (firsts m.log).Sublist (m.entered.map fun e => (e.key, e.publish))
  next : ∀ p key rest, m.sending = .sending p key rest → p.dup = false →
    (Delivering.firsts m.log ++ [(key, p)]).Sublist (m.entered.map fun e => (e.key, e.publish))
  copies : ∀ x ∈ m.log, x.packet.dup = true → m.Copy x.key x.packet
  resumed : ∀ p key rest, m.sending = .sending p key rest → p.dup = true → m.Copy key p
  retried : ∀ p key, m.resending = .sending p key → m.Copy key p

theorem firsts_append (l : List Sent) (x : Sent) :
    firsts (l ++ [x]) = firsts l ++ if x.packet.dup then [] else [(x.key, x.packet)] := by
  unfold firsts
  cases marked : x.packet.dup <;> simp [marked]

theorem Faithful.aside {m m' : Delivering} {s : Stroke} (faithful : m.Faithful)
    (moves : Moves m s m') (log : m'.log = m.log) (entered : m'.entered = m.entered)
    (next : ∀ p key rest, m'.sending = .sending p key rest →
      m.sending = m'.sending ∨ m'.Copy key p)
    (retried : ∀ p key, m'.resending = .sending p key →
      m.resending = m'.resending ∨ m'.Copy key p) : m'.Faithful where
  firsts := by
    rw [log, entered]
    exact faithful.firsts
  next := by
    intro p key rest here unmarked
    rw [log, entered]
    rcases next p key rest here with same | copy
    · exact faithful.next p key rest (same.trans here) unmarked
    · rw [copy.dup] at unmarked
      cases unmarked
  copies := by
    rw [log]
    exact fun x member marked => (faithful.copies x member marked).moves moves
  resumed := by
    intro p key rest here marked
    rcases next p key rest here with same | copy
    · exact (faithful.resumed p key rest (same.trans here) marked).moves moves
    · exact copy
  retried := by
    intro p key here
    rcases retried p key here with same | copy
    · exact (faithful.retried p key (same.trans here)).moves moves
    · exact copy

theorem Faithful.copied {m m' : Delivering} {s : Stroke} (faithful : m.Faithful)
    (moves : Moves m s m') {last : Sent} (log : m'.log = m.log ++ [last])
    (copy : last.packet.dup = true → m.Copy last.key last.packet) :
    ∀ x ∈ m'.log, x.packet.dup = true → m'.Copy x.key x.packet := by
  intro x member marked
  rw [log, List.mem_append, List.mem_singleton] at member
  rcases member with before | rfl
  · exact (faithful.copies x before marked).moves moves
  · exact (copy marked).moves moves

theorem Faithful.moves {m m' : Delivering} {s : Stroke} (faithful : m.Faithful)
    (recorded : m.Recorded) (moves : Moves m s m') : m'.Faithful := by
  have whole := moves
  cases moves with
  | @entered q durable next delivery e idle queues popped taken =>
      have unmarked := (recorded.moves whole).unmarked e (List.mem_append_right _ (by simp))
      constructor
      case firsts => exact faithful.firsts.trans (by simp)
      case next =>
        intro p key rest here _
        cases here
        rw [List.map_append]
        exact faithful.firsts.append (.refl _)
      case copies => exact fun x member marked => (faithful.copies x member marked).moves whole
      case resumed =>
        intro p key rest here marked
        cases here
        rw [unmarked] at marked
        cases marked
      case retried => exact fun p key here => (faithful.retried p key here).moves whole
  | @sent p key rest delivery here alike =>
      constructor
      case firsts =>
        rw [log, ← List.append_assoc, firsts_append]
        cases marked : p.dup with
        | true => simpa [marked, log] using faithful.firsts
        | false => simpa [marked, log] using faithful.next p key rest here marked
      case next => simp
      case copies =>
        exact faithful.copied whole (List.append_assoc ..).symm (faithful.resumed p key rest here)
      case resumed => simp
      case retried => exact fun p key here => (faithful.retried p key here).moves whole
  | @sentAgain p key delivery here alike =>
      have copy := faithful.retried p key here
      have same : Delivering.firsts (m.earlier ++ (m.sent ++ [⟨key, p, m.now, true⟩])) =
          Delivering.firsts m.log := by
        rw [← List.append_assoc, firsts_append]
        simp [copy.dup, log]
      constructor
      case firsts =>
        rw [log, same]
        exact faithful.firsts
      case next =>
        rw [log, same]
        exact faithful.next
      case copies => exact faithful.copied whole (List.append_assoc ..).symm fun _ => copy
      case resumed =>
        exact fun p key rest here marked => (faithful.resumed p key rest here marked).moves whole
      case retried => simp
  | resumed here resent =>
      refine faithful.aside whole rfl rfl (fun p key rest inHand => ?_) fun _ _ same => Or.inl rfl
      cases inHand
      exact Or.inr ((recorded.copy resent).moves whole)
  | fired _ _ _ _ resent =>
      refine faithful.aside whole rfl rfl (fun _ _ _ _ => Or.inl rfl) fun p key inHand => ?_
      cases inHand
      exact Or.inr ((recorded.copy resent).moves whole)
  | connected link halted ceased alike =>
      exact faithful.aside whole (by simp [log]) rfl (by simp) (by simp)
  | _ => exact faithful.aside whole rfl rfl (by simp) (by simp)

/-! A new connection -/

/-- What was in the window when the connection was made is sent again before anything new. -/
structure Resuming (m : Delivering) (past ahead : List (PacketId × Nat)) : Prop where
  due : m.due = past ++ ahead
  known : m.due.Sublist (m.entered.map InflightEntry.key)
  stand : m.sending.Ahead ahead
  resent : (resumptions m.sent).Sublist past
  settled : ∀ key ∈ past, key ∈ resumptions m.sent ∨ key.2 ∈ m.acked
  unsettled : ∀ key ∈ ahead, key ∈ m.delivery.window.pending ∨ key.2 ∈ m.acked
  first : ∀ x ∈ m.sent, x.packet.dup = false → ahead = []
  late : m.sent.Pairwise fun x y => x.packet.dup = false → y.packet.dup = true → y.retried = true

theorem resumptions_append (l : List Sent) (x : Sent) :
    resumptions (l ++ [x]) =
      resumptions l ++ if x.packet.dup && !x.retried then [x.key] else [] := by
  unfold resumptions
  cases resumed : x.packet.dup && !x.retried <;> simp_all

theorem Resuming.aside {m m' : Delivering} {past ahead : List (PacketId × Nat)}
    (resuming : m.Resuming past ahead) {s : Stroke} (moves : Moves m s m')
    (due : m'.due = m.due) (sent : m'.sent = m.sent) (acked : m'.acked = m.acked)
    (pending : m'.delivery.window.pending = m.delivery.window.pending)
    (stand : m.sending.Ahead ahead → m'.sending.Ahead ahead) : m'.Resuming past ahead where
  due := due.trans resuming.due
  known := by
    obtain ⟨more, entered⟩ := moves.grows
    rw [due, entered, List.map_append]
    exact resuming.known.trans (List.sublist_append_left ..)
  stand := stand resuming.stand
  resent := sent ▸ resuming.resent
  settled := by
    rw [sent, acked]
    exact resuming.settled
  unsettled := by
    rw [pending, acked]
    exact resuming.unsettled
  first := sent ▸ resuming.first
  late := sent ▸ resuming.late

theorem Resuming.nothing_new {m : Delivering} {past rest : List (PacketId × Nat)}
    {key : PacketId × Nat} (resuming : m.Resuming past (key :: rest)) :
    ∀ x ∈ m.sent, x.packet.dup = true := by
  intro x member
  cases marked : x.packet.dup with
  | true => rfl
  | false => cases resuming.first x member marked

theorem Resuming.skip {m : Delivering} {past rest : List (PacketId × Nat)} {key : PacketId × Nat}
    (resuming : m.Resuming past (key :: rest)) (gone : key ∉ m.delivery.window.pending) :
    ({ m with sending := .among rest } : Delivering).Resuming (past ++ [key]) rest where
  due := by simp [resuming.due]
  known := resuming.known
  stand := rfl
  resent := resuming.resent.trans (List.sublist_append_left ..)
  settled := by
    intro other member
    rcases List.mem_append.mp member with before | last
    · exact resuming.settled other before
    · rw [List.mem_singleton.mp last]
      exact Or.inr ((resuming.unsettled key (List.mem_cons_self ..)).resolve_left gone)
  unsettled := fun other member => resuming.unsettled other (List.mem_cons_of_mem _ member)
  first := by
    intro x member unmarked
    rw [resuming.nothing_new x member] at unmarked
    cases unmarked
  late := resuming.late

theorem Resuming.resend {m : Delivering} {past rest : List (PacketId × Nat)}
    {key : PacketId × Nat} (resuming : m.Resuming past (key :: rest)) {p : Publish}
    (marked : p.dup = true) {delivery : Delivery}
    (pending : delivery.window.pending = m.delivery.window.pending) (now : Nat) :
    ({ m with delivery, sending := .handing key rest
              sent := m.sent ++ [⟨key, p, now, false⟩] } : Delivering).Resuming
      (past ++ [key]) rest where
  due := by simp [resuming.due]
  known := resuming.known
  stand := rfl
  resent := by
    rw [resumptions_append]
    simpa [marked] using resuming.resent
  settled := by
    intro other member
    rw [resumptions_append]
    rcases List.mem_append.mp member with before | last
    · exact (resuming.settled other before).imp_left (List.mem_append_left _)
    · rw [List.mem_singleton.mp last]
      simp [marked]
  unsettled := by
    intro other member
    rw [pending]
    exact resuming.unsettled other (List.mem_cons_of_mem _ member)
  first := by
    intro x member unmarked
    rcases List.mem_append.mp member with before | last
    · rw [resuming.nothing_new x before] at unmarked
      cases unmarked
    · rw [List.mem_singleton.mp last, marked] at unmarked
      cases unmarked
  late := by
    refine List.pairwise_append.mpr ⟨resuming.late, by simp, fun x before y _ unmarked => ?_⟩
    rw [resuming.nothing_new x before] at unmarked
    cases unmarked

theorem Resuming.sendNew {m : Delivering} {past : List (PacketId × Nat)}
    (resuming : m.Resuming past []) {key : PacketId × Nat} {p : Publish} (unmarked : p.dup = false)
    (delivery : Delivery) (now : Nat) :
    ({ m with delivery, sending := .handing key []
              sent := m.sent ++ [⟨key, p, now, false⟩] } : Delivering).Resuming past [] := by
  have same : resumptions (m.sent ++ [⟨key, p, now, false⟩]) = resumptions m.sent := by
    simp [resumptions_append, unmarked]
  exact
    { due := resuming.due
      known := resuming.known
      stand := rfl
      resent := same ▸ resuming.resent
      settled := same ▸ resuming.settled
      unsettled := by simp
      first := fun _ _ _ => rfl
      late := by
        refine List.pairwise_append.mpr ⟨resuming.late, by simp, fun x _ y last _ marked => ?_⟩
        rw [List.mem_singleton.mp last, unmarked] at marked
        cases marked }

theorem Resuming.retry {m : Delivering} {past ahead : List (PacketId × Nat)}
    (resuming : m.Resuming past ahead) {key : PacketId × Nat} {p : Publish} (marked : p.dup = true)
    {delivery : Delivery} (pending : delivery.window.pending = m.delivery.window.pending)
    (resending : Resending) (now : Nat) :
    ({ m with delivery, resending, sent := m.sent ++ [⟨key, p, now, true⟩] } : Delivering).Resuming
      past ahead := by
  have same : resumptions (m.sent ++ [⟨key, p, now, true⟩]) = resumptions m.sent := by
    simp [resumptions_append]
  exact
    { due := resuming.due
      known := resuming.known
      stand := resuming.stand
      resent := same ▸ resuming.resent
      settled := same ▸ resuming.settled
      unsettled := by
        rw [pending]
        exact resuming.unsettled
      first := by
        intro x member unmarked
        rcases List.mem_append.mp member with before | last
        · exact resuming.first x before unmarked
        · rw [List.mem_singleton.mp last, marked] at unmarked
          cases unmarked
      late := by
        refine List.pairwise_append.mpr ⟨resuming.late, by simp, fun x _ y last _ _ => ?_⟩
        rw [List.mem_singleton.mp last] }

theorem Resuming.acknowledge {m : Delivering} {past ahead : List (PacketId × Nat)}
    (resuming : m.Resuming past ahead) (recorded : m.Recorded) {id : PacketId}
    {e : InflightEntry Nat} (found : m.delivery.window.find? id = some e) :
    ({ m with delivery := m.delivery.acknowledge id
              acked := m.acked ++ [e.seq] } : Delivering).Resuming past ahead := by
  obtain ⟨window, _, _⟩ := Delivery.acknowledge_found found
  exact
    { resuming with
      settled := fun key member =>
        (resuming.settled key member).imp_right (List.mem_append_left _)
      unsettled := by
        intro key member
        rcases resuming.unsettled key member with pending | acked
        · obtain ⟨f, inside, rfl⟩ := Inflight.mem_pending.mp pending
          by_cases same : f.id = id
          · rw [recorded.ordered.find?_iff.mpr ⟨inside, same⟩] at found
            cases found
            exact Or.inr (by simp [InflightEntry.key])
          · rw [window]
            exact Or.inl
              (Inflight.mem_pending.mpr ⟨f, Inflight.mem_ack.mpr ⟨inside, same⟩, rfl⟩)
        · exact Or.inr (List.mem_append_left _ acked) }

theorem Recorded.connect {m : Delivering} (recorded : m.Recorded) (delivery : Delivery)
    (entries : delivery.window.entries = m.delivery.window.entries) (resending : Resending)
    (handed : List (PacketId × Nat)) (earlier : List Sent) :
    ({ m with delivery, sending := .among delivery.window.pending, resending, handed, earlier
              sent := [], due := delivery.window.pending } : Delivering).Resuming []
      delivery.window.pending where
  due := rfl
  known := by
    rw [Inflight.pending_eq_keys, entries, InflightEntry.map_key, InflightEntry.map_key]
    exact recorded.known.map _
  stand := rfl
  resent := by simp [resumptions]
  settled := by simp
  unsettled := fun _ member => Or.inl member
  first := by simp
  late := .nil

theorem Resuming.moves {m m' : Delivering} {past ahead : List (PacketId × Nat)}
    (resuming : m.Resuming past ahead) (recorded : m.Recorded) (faithful : m.Faithful) {s : Stroke}
    (moves : Moves m s m') : ∃ past ahead, m'.Resuming past ahead := by
  have whole := moves
  have stand := resuming.stand
  cases moves with
  | @skipped id seq rest here none =>
      rw [here] at stand
      obtain rfl : ahead = (id, seq) :: rest := stand
      refine ⟨_, _, resuming.skip ?_⟩
      rw [← recorded.ordered.isPending_iff, ← Inflight.isSome_resend _ _ _ m.now, none]
      simp
  | resumed here resent =>
      rw [here] at stand
      have marked := (recorded.copy resent).dup
      have pending := (Inflight.kept_of_resend resent).pending
      refine ⟨past, ahead, resuming.aside whole rfl rfl rfl pending fun _ => ?_⟩
      simpa [Sending.Ahead, marked] using stand
  | @entered q durable next delivery e idle queues popped taken =>
      rw [idle] at stand
      obtain rfl : ahead = [] := stand
      have unmarked := (recorded.moves whole).unmarked e (List.mem_append_right _ (by simp))
      refine ⟨past, [], ?_⟩
      exact
        { resuming with
          known := by
            rw [List.map_append]
            exact resuming.known.trans (List.sublist_append_left ..)
          stand := by simp [Sending.Ahead, unmarked]
          unsettled := by simp }
  | @sent p key rest delivery here alike =>
      rw [here] at stand
      cases marked : p.dup with
      | true =>
          obtain rfl : ahead = key :: rest := by simpa [Sending.Ahead, marked] using stand
          have whole := Inflight.pending_of_bodies alike.quiet.entries
          exact ⟨_, _, resuming.resend marked whole m.now⟩
      | false =>
          obtain ⟨rfl, rfl⟩ : ahead = [] ∧ rest = [] := by
            simpa [Sending.Ahead, marked] using stand
          exact ⟨_, _, resuming.sendNew marked delivery m.now⟩
  | handed here running =>
      rw [here] at stand
      exact ⟨past, ahead, resuming.aside whole rfl rfl rfl rfl fun _ => stand⟩
  | sentAgain here alike =>
      refine ⟨past, ahead, resuming.retry (faithful.retried _ _ here).dup ?_ .looking m.now⟩
      exact Inflight.pending_of_bodies alike.quiet.entries
  | acknowledged found => exact ⟨past, ahead, resuming.acknowledge recorded found⟩
  | @connected link d halted ceased alike =>
      let delivery : Delivery := { d with out := { uid := d.out.uid }, link, failed := false }
      exact ⟨[], _, recorded.connect delivery alike.entries .looking [] _⟩
  | fired _ _ _ _ resent =>
      have pending := (Inflight.kept_of_resend resent).pending
      exact ⟨past, ahead, resuming.aside whole rfl rfl rfl pending id⟩
  | aside s alike =>
      exact ⟨past, ahead, resuming.aside whole rfl rfl rfl
        (Inflight.pending_of_bodies alike.quiet.entries) id⟩
  | halted s alike =>
      exact ⟨past, ahead, resuming.aside whole rfl rfl rfl
        (Inflight.pending_of_bodies alike.quiet.entries) fun _ => trivial⟩
  | ceased s alike =>
      exact ⟨past, ahead, resuming.aside whole rfl rfl rfl
        (Inflight.pending_of_bodies alike.quiet.entries) id⟩
  | _ => exact ⟨past, ahead, resuming.aside whole rfl rfl rfl rfl id⟩

end Delivering

structure Flow where
  course : Delivering
  bucket : Bucket
  present : List Record
  emitted : List StoredMessage := []

namespace Flow

inductive Move
  | stroke (s : Delivering.Stroke)
  | push (event : EventId) (message : Publish)
  | refill (temporary : TemporaryQueue)
  | turn (a : Activity)

def start (settings : MqttSettings) (d : Delivery) (bound : Bool) (temporary : TemporaryQueue)
    (handle : Storage.Handle) (bucket : Bucket) (now : Nat) : Flow :=
  let queue := .new (.ofSettings settings) d.window.capacity now
  let queues := some { temporary, durable := { handle, queue } }
  { course :=
      { delivery := { d with window := d.window.clear.1, queues }
        sending := if bound then .among [] else .stopped
        resending := if bound then .waiting else .stopped, now }
    bucket, present := bucket.records }

def withQueues (f : Flow) (q : SessionQueues) : Flow :=
  { f with course := { f.course with delivery := { f.course.delivery with queues := some q } } }

def step (f : Flow) : Move → Flow
  | .stroke s => { f with course := f.course.step s }
  | .push event message =>
    match f.course.delivery.queues with
    | none => f
    | some q =>
      match q.durable.push event message with
      | none => f
      | some durable => f.withQueues { q with durable }
  | .refill temporary =>
    match f.course.delivery.queues with
    | none => f
    | some q => f.withQueues { q with temporary }
  | .turn a =>
    match f.course.delivery.queues with
    | none => f
    | some q =>
      let (queue, bucket, _) := q.durable.queue.perform f.bucket a
      { f.withQueues { q with durable := { q.durable with queue } } with
        bucket, present := f.present ++ bucket.since f.bucket.next
        emitted := f.emitted ++ queue.outbox.drop q.durable.queue.outbox.length }

def run (f : Flow) (moves : List Move) : Flow := moves.foldl step f

/-- The window has received the messages that the queue has emitted, up to those that still lie
there. -/
structure Drawn (f : Flow) (q : SessionQueues) : Prop where
  opened : f.course.delivery.queues = some q
  ordered : f.bucket.Ordered
  batches : 0 < q.durable.queue.options.writeBatchSize
  reads : q.durable.queue.Reads f.bucket f.present f.emitted
  received : ∃ received, f.emitted = received ++ q.durable.queue.outbox ∧
    received.map StoredMessage.offset = f.course.entered.map InflightEntry.ticket
  carries : ∀ e ∈ f.course.entered, ∃ r ∈ f.present, e.Carries r

theorem Drawn.requeue {f : Flow} {q q' : SessionQueues} (drawn : f.Drawn q)
    {course : Delivering} (opened : course.delivery.queues = some q')
    (entered : course.entered = f.course.entered)
    (options : q'.durable.queue.options = q.durable.queue.options)
    (outbox : q'.durable.queue.outbox = q.durable.queue.outbox)
    (reads : q'.durable.queue.Reads f.bucket f.present f.emitted) :
    ({ f with course } : Flow).Drawn q' where
  opened := opened
  ordered := drawn.ordered
  batches := options ▸ drawn.batches
  reads := reads
  received := by
    rw [outbox, entered]
    exact drawn.received
  carries := entered ▸ drawn.carries

theorem Drawn.steady {f : Flow} {q : SessionQueues} (drawn : f.Drawn q) {course : Delivering}
    (steady : Delivering.Steady f.course course) :
    ∃ q', ({ f with course } : Flow).Drawn q' := by
  have durable := steady.quiet.durable
  rw [drawn.opened, Option.map_some, Option.map_eq_some_iff] at durable
  obtain ⟨q', opened, same⟩ := durable
  refine ⟨q', drawn.requeue opened steady.entered ?_ ?_ ?_⟩
  · rw [same]
  · rw [same]
  · rw [same]
    exact drawn.reads

theorem acknowledge_outbox (q : DurableQueue EventId) (offset : Nat) :
    (q.acknowledge offset).outbox = q.outbox := by
  unfold DurableQueue.acknowledge
  split <;> rfl

theorem Drawn.acknowledges {f : Flow} {q : SessionQueues} (drawn : f.Drawn q)
    {course : Delivering} {id : PacketId} {e : InflightEntry Nat}
    (acks : Delivering.Acknowledges f.course course id e) :
    ∃ q', ({ f with course } : Flow).Drawn q' := by
  obtain ⟨_, _, queues⟩ := Delivery.acknowledge_found acks.found
  rw [drawn.opened, Option.map_some, ← acks.delivery] at queues
  exact ⟨_, drawn.requeue queues acks.entered (DurableQueue.acknowledge_options ..)
    (acknowledge_outbox ..) (drawn.reads.acknowledge e.ticket)⟩

theorem Drawn.take {f : Flow} {q : SessionQueues} (drawn : f.Drawn q) {m : StoredMessage}
    {rest : List StoredMessage} (outbox : q.durable.queue.outbox = m :: rest)
    (course : Delivering) {e : InflightEntry Nat}
    (opened : course.delivery.queues = some { q with durable := { q.durable with
      queue := { q.durable.queue with outbox := rest } } })
    (entered : course.entered = f.course.entered ++ [e]) (ticket : e.ticket = m.offset)
    (publish : e.publish =
      { m.message with packetId := some e.id, qos := .atLeastOnce, dup := false }) :
    ({ f with course } : Flow).Drawn { q with durable := { q.durable with
      queue := { q.durable.queue with outbox := rest } } } := by
  obtain ⟨emitted, reads⟩ := drawn.reads.pop outbox
  obtain ⟨received, all, offsets⟩ := drawn.received
  obtain ⟨r, present, holds⟩ := drawn.reads.drawn m emitted
  constructor
  case opened => exact opened
  case ordered => exact drawn.ordered
  case batches => exact drawn.batches
  case reads => exact reads
  case received =>
    refine ⟨received ++ [m], by simp [all, outbox], ?_⟩
    simp [entered, offsets, ticket]
  case carries =>
    intro g member
    rw [entered, List.mem_append, List.mem_singleton] at member
    rcases member with before | rfl
    · exact drawn.carries g before
    · exact ⟨r, present, ticket.trans (Record.message?_offset holds), m, holds, publish⟩

theorem Drawn.enters {f : Flow} {q q₀ : SessionQueues} (drawn : f.Drawn q) {course : Delivering}
    {durable : StoredQueue EventId} {next : StoredMessage} {e : InflightEntry Nat}
    (enters : Delivering.Enters f.course course q₀ durable next e) :
    ∃ q', ({ f with course } : Flow).Drawn q' := by
  obtain rfl : q₀ = q := Option.some.inj (enters.queues.symm.trans drawn.opened)
  obtain ⟨replaced, inserted, _, opened⟩ := Delivery.takeIn_entered enters.taken
  have entered := f.course.delivery.window.insert_entered next.offset next.message f.course.now
  rw [inserted] at entered
  have popped := enters.popped
  simp only [StoredQueue.pop, DurableQueue.pop] at popped
  split at popped
  · simp at popped
  · rename_i m rest outbox
    simp only [Prod.mk.injEq, Option.some.injEq] at popped
    obtain ⟨rfl, rfl⟩ := popped
    -- first as if no entry had been replaced
    have taken := drawn.take outbox
      { course with delivery := { course.delivery with queues := _ } } rfl
      enters.entered entered.ticket entered.publish
    cases replaced with
    | none => exact ⟨_, taken.requeue opened rfl rfl rfl taken.reads⟩
    | some offset =>
        exact ⟨_, taken.requeue opened rfl (DurableQueue.acknowledge_options ..)
          (acknowledge_outbox ..) (taken.reads.acknowledge offset)⟩

theorem performed_outbox {q q' : DurableQueue EventId} {b b' : Bucket} {a : Activity}
    {tickets : List EventId} (turn : DurableQueue.Performed q b a q' b' tickets) :
    q'.outbox = q.outbox ++ q'.outbox.drop q.outbox.length := by
  cases turn <;> simp

theorem Drawn.turn {f : Flow} {q : SessionQueues} (drawn : f.Drawn q) (a : Activity) :
    ∃ q', (f.step (.turn a)).Drawn q' := by
  have turn := DurableQueue.perform_performed q.durable.queue f.bucket a
  simp only [step, drawn.opened]
  generalize q.durable.queue.perform f.bucket a = performed at turn
  obtain ⟨queue, bucket, tickets⟩ := performed
  simp only at turn
  refine ⟨{ q with durable := { q.durable with queue } }, ?_⟩
  constructor
  case opened => rfl
  case ordered => exact (turn.follows drawn.ordered).ordered
  case batches => exact turn.options ▸ drawn.batches
  case reads => exact turn.reads drawn.ordered drawn.batches drawn.reads
  case received =>
    obtain ⟨received, all, offsets⟩ := drawn.received
    refine ⟨received, ?_, offsets⟩
    simp only
    rw [all, List.append_assoc, ← performed_outbox turn]
  case carries =>
    intro e member
    obtain ⟨r, present, carries⟩ := drawn.carries e member
    exact ⟨r, List.mem_append_left _ present, carries⟩

structure Sound (f : Flow) : Prop where
  recorded : f.course.Recorded
  faithful : f.course.Faithful
  resuming : ∃ past ahead, f.course.Resuming past ahead
  drawn : ∃ q, f.Drawn q

theorem start_sound (settings : MqttSettings) (d : Delivery) (bound : Bool)
    (temporary : TemporaryQueue) (handle : Storage.Handle) {bucket : Bucket}
    (ordered : bucket.Ordered) (now : Nat) :
    (start settings d bound temporary handle bucket now).Sound where
  recorded :=
    { ordered := Inflight.ordered_empty rfl
      seqs := .nil
      fresh := by simp [start]
      known := by simp [start, Inflight.clear]
      unmarked := by simp [start] }
  faithful :=
    { firsts := by simp [start, Delivering.firsts, Delivering.log]
      next := by cases bound <;> simp [start]
      copies := by simp [start, Delivering.log]
      resumed := by cases bound <;> simp [start]
      retried := by cases bound <;> simp [start] }
  resuming := by
    refine ⟨[], [], ?_⟩
    exact
      { due := rfl
        known := by simp [start]
        stand := by cases bound <;> simp [start, Sending.Ahead]
        resent := by simp [start, Delivering.resumptions]
        settled := by simp
        unsettled := by simp
        first := by simp
        late := .nil }
  drawn := by
    let queue : DurableQueue EventId :=
      .new (.ofSettings settings) d.window.capacity now
    refine ⟨{ temporary, durable := { handle, queue } }, ?_⟩
    exact
      { opened := rfl
        ordered := ordered
        batches := by
          simp only [queue, DurableQueue.new, QueueOptions.ofSettings]
          omega
        reads := DurableQueue.new_reads ..
        received := ⟨[], rfl, rfl⟩
        carries := by simp [start] }

theorem Sound.requeue {f f' : Flow} (sound : f.Sound) {queues : Option SessionQueues}
    (course : f'.course = { f.course with delivery := { f.course.delivery with queues } })
    (drawn : ∃ q, f'.Drawn q) : f'.Sound := by
  obtain ⟨recorded, faithful, ⟨past, ahead, resuming⟩, _⟩ := sound
  refine ⟨?_, ?_, ⟨past, ahead, ?_⟩, drawn⟩
  · rw [course]
    exact ⟨recorded.ordered, recorded.seqs, recorded.fresh, recorded.known, recorded.unmarked⟩
  · rw [course]
    exact ⟨faithful.firsts, faithful.next, faithful.copies, faithful.resumed, faithful.retried⟩
  · rw [course]
    exact ⟨resuming.due, resuming.known, resuming.stand, resuming.resent, resuming.settled,
      resuming.unsettled, resuming.first, resuming.late⟩

theorem Sound.push {f : Flow} (sound : f.Sound) (event : EventId) (message : Publish) :
    (f.step (.push event message)).Sound := by
  obtain ⟨q, drawn⟩ := sound.drawn
  simp only [step, drawn.opened, StoredQueue.push, DurableQueue.push]
  cases q.durable.queue.closed with
  | true => exact sound
  | false =>
      refine sound.requeue rfl ⟨_, drawn.requeue rfl rfl rfl rfl ?_⟩
      exact drawn.reads.turnTo rfl rfl drawn.reads.held drawn.reads.rested

theorem Sound.refill {f : Flow} (sound : f.Sound) (temporary : TemporaryQueue) :
    (f.step (.refill temporary)).Sound := by
  obtain ⟨q, drawn⟩ := sound.drawn
  simp only [step, drawn.opened]
  exact sound.requeue rfl ⟨_, drawn.requeue rfl rfl rfl rfl drawn.reads⟩

theorem Sound.turn {f : Flow} (sound : f.Sound) (a : Activity) :
    (f.step (.turn a)).Sound := by
  obtain ⟨q, drawn⟩ := sound.drawn
  have turned := drawn.turn a
  simp only [step, drawn.opened] at turned ⊢
  exact sound.requeue rfl turned

theorem Sound.stroke {f : Flow} (sound : f.Sound) (s : Delivering.Stroke) :
    (f.step (.stroke s)).Sound := by
  obtain ⟨recorded, faithful, ⟨past, ahead, resuming⟩, ⟨q, drawn⟩⟩ := sound
  have moves := Delivering.step_moves f.course s
  refine ⟨recorded.moves moves, faithful.moves recorded moves,
    resuming.moves recorded faithful moves, ?_⟩
  rcases moves.cases with steady | ⟨_, _, _, _, enters⟩ | ⟨_, _, acks⟩
  · exact drawn.steady steady
  · exact drawn.enters enters
  · exact drawn.acknowledges acks

theorem step_sound {f : Flow} (sound : f.Sound) (move : Move) : (f.step move).Sound := by
  cases move with
  | stroke s => exact sound.stroke s
  | push event message => exact sound.push event message
  | refill temporary => exact sound.refill temporary
  | turn a => exact sound.turn a

theorem run_sound {f : Flow} (sound : f.Sound) (moves : List Move) : (f.run moves).Sound := by
  induction moves generalizing f with
  | nil => exact sound
  | cons move rest ih => exact ih (step_sound sound move)

/-- What is delivered, and in which order. -/
structure InOrder (m : Delivering) (present : List Record) : Prop where
  /-- Messages enter the window by increasing offset, -/
  entered : (m.entered.map InflightEntry.ticket).Pairwise (· < ·)
  /-- as the records have them, and under sequence numbers of their own. -/
  drawn : ∀ e ∈ m.entered, ∃ r ∈ present, e.Carries r
  seqs : m.entered.Pairwise fun e f => e.seq < f.seq
  /-- They are sent for the first time in this order, each once at most. -/
  firsts : (Delivering.firsts m.log).Sublist (m.entered.map fun e => (e.key, e.publish))
  /-- Whatever else is sent is the first packet again, marked as a duplicate. -/
  copies : ∀ x ∈ m.log, x.packet.dup = true →
    ∃ e ∈ m.entered, e.key = x.key ∧ x.packet = { e.publish with dup := true }
  /-- A connection finds what is in the window, in the order in which it entered, -/
  connects : ∀ link, m.sending = .stopped → m.resending = .stopped →
    (m.step (.connect link)).due = m.delivery.window.pending
  due : m.due.Sublist (m.entered.map InflightEntry.key)
  /-- sends that again in this order, -/
  resumed : (Delivering.resumptions m.sent).Sublist m.due
  /-- but for what was acknowledged meanwhile, and only then something new. -/
  settled : m.sending = .among [] ∨ (∃ x ∈ m.sent, x.packet.dup = false) →
    ∀ key ∈ m.due, key ∈ Delivering.resumptions m.sent ∨ key.2 ∈ m.acked
  late : m.sent.Pairwise fun x y =>
    x.packet.dup = false → y.packet.dup = true → y.retried = true

theorem Drawn.offsets {f : Flow} {q : SessionQueues} (drawn : f.Drawn q) :
    (f.course.entered.map InflightEntry.ticket).Pairwise (· < ·) := by
  obtain ⟨received, all, offsets⟩ := drawn.received
  have increasing := drawn.reads.increasing
  rw [all] at increasing
  rw [← offsets]
  exact List.pairwise_map.mpr (List.pairwise_append.mp increasing).1

/-- From the opening of a durable queue to its closing, over any connections one after the other,
whatever is acknowledged, lost or refused in between. -/
theorem run_in_order (settings : MqttSettings) (d : Delivery) (bound : Bool)
    (temporary : TemporaryQueue) (handle : Storage.Handle) {bucket : Bucket}
    (ordered : bucket.Ordered) (now : Nat) (moves : List Move) :
    let f := (start settings d bound temporary handle bucket now).run moves
    InOrder f.course f.present := by
  intro f
  obtain ⟨recorded, faithful, ⟨past, ahead, resuming⟩, ⟨q, drawn⟩⟩ :=
    run_sound (start_sound settings d bound temporary handle ordered now) moves
  constructor
  case entered => exact drawn.offsets
  case drawn => exact drawn.carries
  case seqs => exact recorded.seqs
  case firsts => exact faithful.firsts
  case copies => exact faithful.copies
  case connects =>
    intro link halted ceased
    simp only [Delivering.step, Delivering.connect, halted, ceased]
    exact Inflight.pending_of_bodies (Delivering.dropPermit_alike _).quiet.entries
  case due => exact resuming.known
  case resumed =>
    rw [resuming.due]
    exact resuming.resent.trans (List.sublist_append_left ..)
  case settled =>
    intro begun key member
    have none : ahead = [] := by
      rcases begun with idle | ⟨x, member, first⟩
      · have stand := resuming.stand
        rw [idle] at stand
        exact stand
      · exact resuming.first x member first
    rw [resuming.due, none, List.append_nil] at member
    exact resuming.settled key member
  case late => exact resuming.late

def unbound : Delivery :=
  { out := { uid := 1 }, window := .new 64 20000, queues := none, link := { address := "" }
    gauge := {} }

def refusedOnce : List Move :=
  [.push 0 (.new 0 "a" [1] .atLeastOnce), .push 1 (.new 0 "b" [2] .atLeastOnce), .turn .receive,
    .turn .receive, .turn (.store 0 0 false), .turn (.read 0 false), .turn (.read 0 false),
    .turn (.read 0 false), .stroke (.connect { address := "" }), .stroke .takePermit,
    .stroke .takeIn, .stroke .send, .stroke .hand, .stroke .takePermit, .stroke .takeIn,
    .stroke (.relink { address := "", closed := true }), .stroke .send, .stroke .look,
    .stroke .stopResending, .stroke (.connect { address := "" }), .stroke .resume, .stroke .send,
    .stroke .hand, .stroke .resume, .stroke .send, .stroke .hand]

theorem refusedOnce_in_order :
    ({ name := "c" } : Bucket).Ordered ∧
      let f := (start {} unbound false (.new 1 .early) 0 { name := "c" } 0).run refusedOnce
      InOrder f.course f.present ∧
        f.course.log.map (fun x => (x.key.2, x.packet.dup)) =
          [(1, false), (1, true), (2, true)] := by
  have ordered : ({ name := "c" } : Bucket).Ordered := ⟨.nil, by simp⟩
  exact ⟨ordered, run_in_order {} unbound false (.new 1 .early) 0 ordered 0 refusedOnce, by decide⟩

end Flow

end MqttBroker
