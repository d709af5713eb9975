import MqttBroker.Proofs.Window

/-!
A delivery in small steps. Its two activities take packets in hand, send them and hand them over
independently of each other, and in between messages are acknowledged, links break and time passes.
Each step is a function of the state; `Moves` lists what can come of one. Larger steps of a delivery
are made of these.
-/

namespace MqttBroker

inductive Sending
  /-- It goes through messages that were sent before the connection was made. With none left it
  waits for something to send. -/
  | among (rest : List (PacketId × Nat))
  | sending (p : Publish) (key : PacketId × Nat) (rest : List (PacketId × Nat))
  /-- It has sent a message, which the other activity is to watch from now on. -/
  | handing (key : PacketId × Nat) (rest : List (PacketId × Nat))
  | stopped

inductive Resending
  | looking
  | waiting
  | sending (p : Publish) (key : PacketId × Nat)
  | stopped

structure Sent where
  key : PacketId × Nat
  packet : Publish
  time : Nat
  retried : Bool

def Delivery.acknowledge (d : Delivery) (id : PacketId) : Delivery :=
  match d.window.ack id with
  | (_, none) => d
  | (window, some offset) =>
    let queues := d.queues.map fun q => { q with durable := q.durable.acknowledge offset }
    { d with window, queues, gauge := d.gauge.decrement }

theorem Delivery.takeIn_entered {d d' : Delivery} {q : SessionQueues}
    {durable : StoredQueue EventId} {next : StoredMessage} {now : Nat} {e : InflightEntry Nat}
    (taken : d.takeIn q durable next now = (d', e)) :
    ∃ replaced, d.window.insert next.offset next.message now = (d'.window, e, replaced) ∧
      d'.out = { d.out with holding := false } ∧
      d'.queues = some { q with durable :=
        (replaced.map fun offset => durable.acknowledge offset).getD durable } := by
  refine ⟨(d.window.insert next.offset next.message now).2.2, ?_⟩
  unfold Delivery.takeIn at taken
  generalize d.window.insert next.offset next.message now = inserted at *
  obtain ⟨window, entry, replaced⟩ := inserted
  simp only [Prod.mk.injEq] at taken
  obtain ⟨rfl, rfl⟩ := taken
  cases replaced <;> simp

theorem Delivery.acknowledge_found {d : Delivery} {id : PacketId} {e : InflightEntry Nat}
    (found : d.window.find? id = some e) :
    (d.acknowledge id).window = (d.window.ack id).1 ∧
      (d.acknowledge id).out = d.out ∧
      (d.acknowledge id).queues = d.queues.map fun q =>
        { q with durable := q.durable.acknowledge e.ticket } := by
  simp [Delivery.acknowledge, Inflight.ack, found]

structure Delivering where
  delivery : Delivery
  sending : Sending
  resending : Resending
  handed : List (PacketId × Nat) := []
  now : Nat
  entered : List (InflightEntry Nat) := []
  earlier : List Sent := []
  sent : List Sent := []
  due : List (PacketId × Nat) := []
  acked : List Nat := []
  replaced : List Nat := []

namespace Delivering

def log (m : Delivering) : List Sent := m.earlier ++ m.sent

inductive Stroke
  | resume
  | takePermit
  | dropPermit
  | takeIn
  | reply
  | plain
  | send
  | hand
  | stopSending
  | look
  | take
  | fire
  | sendAgain
  | stopResending
  | acknowledge (id : PacketId)
  | request (p : Packet)
  | relink (link : Link)
  /-- There is a new connection, after both activities have stopped. -/
  | connect (link : Link)
  | pass (time : Nat)

def resume (m : Delivering) : Delivering :=
  match m.sending with
  | .among ((id, seq) :: rest) =>
    match m.delivery.window.resend id seq m.now with
    | (_, none) => { m with sending := .among rest }
    | (window, some p) =>
      { m with delivery := { m.delivery with window }, sending := .sending p (id, seq) rest }
  | _ => m

def takePermit (m : Delivering) : Delivering :=
  match m.sending with
  | .among [] => { m with delivery := m.delivery.takePermit.getD m.delivery }
  | _ => m

def dropPermit (m : Delivering) : Delivering :=
  match m.sending with
  | .among [] => { m with delivery := m.delivery.dropPermit }
  | _ => m

def takeIn (m : Delivering) : Delivering :=
  match m.sending, m.delivery.queues with
  | .among [], some q =>
    match q.durable.pop with
    | (_, none) => m
    | (durable, some next) =>
      if m.delivery.out.holding then
        let (delivery, e) := m.delivery.takeIn q durable next m.now
        let replaced := (m.delivery.window.find? e.id).map InflightEntry.seq
        { m with delivery, sending := .sending e.publish e.key [], entered := m.entered ++ [e]
                 replaced := m.replaced ++ replaced.toList }
      else m
  | _, _ => m

def sendOther (m : Delivering) (delivery : Delivery) (p : Packet) : Delivering :=
  match delivery.link.send p with
  | .ok _ => { m with delivery := delivery.send p }
  | .error _ => { m with delivery := delivery.send p, sending := .stopped }

def reply (m : Delivering) : Delivering :=
  match m.sending, m.delivery.out.replies with
  | .among [], p :: replies =>
    m.sendOther { m.delivery with out := { m.delivery.out with replies } } p
  | _, _ => m

def plain (m : Delivering) : Delivering :=
  match m.sending, m.delivery.queues with
  | .among [], some q =>
    match q.temporary.pop with
    | (temporary, some p) =>
      m.sendOther { m.delivery with queues := some { q with temporary } }
        (.publish (Delivery.plain p))
    | (_, none) => m
  | _, _ => m

def send (m : Delivering) : Delivering :=
  match m.sending with
  | .sending p key rest =>
    let delivery := m.delivery.send (.publish p)
    match m.delivery.link.send (.publish p) with
    | .ok _ => { m with delivery, sending := .handing key rest
                        sent := m.sent ++ [⟨key, p, m.now, false⟩] }
    | .error _ => { m with delivery, sending := .stopped }
  | _ => m

def hand (m : Delivering) : Delivering :=
  match m.sending, m.resending with
  | .handing _ _, .stopped => { m with sending := .stopped }
  | .handing key rest, _ =>
    if m.handed.length < 2 * m.delivery.window.capacity then
      { m with sending := .among rest, handed := m.handed ++ [key] }
    else m
  | _, _ => m

def stopSending (m : Delivering) : Delivering :=
  match m.sending with
  | .among [] => { m with delivery := m.delivery.dropPermit, sending := .stopped }
  | _ => m

def look (m : Delivering) : Delivering :=
  match m.resending with
  | .looking => { m with delivery := m.delivery.reconsider, resending := .waiting }
  | _ => m

def waitingFor (d : Delivery) (waiting : List (PacketId × Nat)) : Delivery :=
  { d with out := { d.out with waiting } }

def take (m : Delivering) : Delivering :=
  match m.resending, m.handed with
  | .waiting, key :: handed =>
    { m with delivery := waitingFor m.delivery (m.delivery.out.waiting ++ [key])
             resending := .looking, handed }
  | _, _ => m

def fire (m : Delivering) : Delivering :=
  match m.resending, m.delivery.out.timer, m.delivery.out.waiting with
  | .waiting, some due, (id, seq) :: rest =>
    if due ≤ m.now then
      let delivery := waitingFor m.delivery rest
      match m.delivery.window.resend id seq m.now with
      | (_, none) => { m with delivery, resending := .looking }
      | (window, some p) =>
        { m with delivery := { delivery with window }, resending := .sending p (id, seq) }
    else m
  | _, _, _ => m

def sendAgain (m : Delivering) : Delivering :=
  match m.resending with
  | .sending p key =>
    let delivery := m.delivery.send (.publish p)
    match m.delivery.link.send (.publish p) with
    | .ok _ => { m with delivery := waitingFor delivery (delivery.out.waiting ++ [key])
                        resending := .looking, sent := m.sent ++ [⟨key, p, m.now, true⟩] }
    | .error _ => { m with delivery, resending := .stopped }
  | _ => m

def stopResending (m : Delivering) : Delivering :=
  match m.resending with
  | .waiting => { m with resending := .stopped }
  | _ => m

def acknowledge (m : Delivering) (id : PacketId) : Delivering :=
  match m.delivery.window.find? id with
  | none => m
  | some e => { m with delivery := m.delivery.acknowledge id, acked := m.acked ++ [e.seq] }

def connect (m : Delivering) (link : Link) : Delivering :=
  match m.sending, m.resending with
  | .stopped, .stopped =>
    -- the permit of the last connection is free again
    let delivery := m.delivery.dropPermit
    let due := delivery.window.pending
    { m with delivery := { delivery with out := { uid := delivery.out.uid }, link, failed := false }
             sending := .among due, resending := .looking, handed := []
             earlier := m.earlier ++ m.sent, sent := [], due }
  | _, _ => m

def step (m : Delivering) : Stroke → Delivering
  | .resume => m.resume
  | .takePermit => m.takePermit
  | .dropPermit => m.dropPermit
  | .takeIn => m.takeIn
  | .reply => m.reply
  | .plain => m.plain
  | .send => m.send
  | .hand => m.hand
  | .stopSending => m.stopSending
  | .look => m.look
  | .take => m.take
  | .fire => m.fire
  | .sendAgain => m.sendAgain
  | .stopResending => m.stopResending
  | .acknowledge id => m.acknowledge id
  | .request p =>
    let replies := m.delivery.out.replies ++ [p]
    { m with delivery := { m.delivery with out := { m.delivery.out with replies } } }
  | .relink link => { m with delivery := { m.delivery with link } }
  | .connect link => m.connect link
  | .pass time => { m with now := m.now + time }

def run (m : Delivering) (strokes : List Stroke) : Delivering := strokes.foldl step m

structure Alike (d d' : Delivery) : Prop where
  entries : d'.window.entries = d.window.entries
  nextSeq : d'.window.nextSeq = d.window.nextSeq
  interval : d'.window.interval = d.window.interval
  durable : d'.queues.map SessionQueues.durable = d.queues.map SessionQueues.durable
  waiting : d'.out.waiting = d.out.waiting
  timer : d'.out.timer = d.out.timer

theorem Alike.refl (d : Delivery) : Alike d d := ⟨rfl, rfl, rfl, rfl, rfl, rfl⟩

theorem Alike.trans {d d' d'' : Delivery} (first : Alike d d') (second : Alike d' d'') :
    Alike d d'' :=
  ⟨second.entries.trans first.entries, second.nextSeq.trans first.nextSeq,
    second.interval.trans first.interval, second.durable.trans first.durable,
    second.waiting.trans first.waiting, second.timer.trans first.timer⟩

theorem send_alike (d : Delivery) (p : Packet) : Alike d (d.send p) := by
  unfold Delivery.send
  split <;> exact ⟨rfl, rfl, rfl, rfl, rfl, rfl⟩

theorem dropPermit_alike (d : Delivery) : Alike d d.dropPermit := by
  unfold Delivery.dropPermit
  split <;> exact ⟨rfl, rfl, rfl, rfl, rfl, rfl⟩

theorem takePermit_alike (d : Delivery) : Alike d (d.takePermit.getD d) := by
  unfold Delivery.takePermit Inflight.acquire
  split
  · exact .refl d
  · split <;> exact ⟨rfl, rfl, rfl, rfl, rfl, rfl⟩

inductive Moves (m : Delivering) : Stroke → Delivering → Prop
  | aside (s) {delivery} : Alike m.delivery delivery → Moves m s { m with delivery }
  | halted (s) {delivery} : Alike m.delivery delivery →
      Moves m s { m with delivery, sending := .stopped }
  | ceased (s) {delivery} : Alike m.delivery delivery →
      Moves m s { m with delivery, resending := .stopped }
  | skipped {id seq rest} : m.sending = .among ((id, seq) :: rest) →
      (m.delivery.window.resend id seq m.now).2 = none →
      Moves m .resume { m with sending := .among rest }
  | resumed {id seq rest window p} : m.sending = .among ((id, seq) :: rest) →
      m.delivery.window.resend id seq m.now = (window, some p) →
      Moves m .resume
        { m with delivery := { m.delivery with window }, sending := .sending p (id, seq) rest }
  | entered {q durable next delivery e} : m.sending = .among [] → m.delivery.queues = some q →
      q.durable.pop = (durable, some next) →
      m.delivery.takeIn q durable next m.now = (delivery, e) →
      Moves m .takeIn
        { m with delivery, sending := .sending e.publish e.key [], entered := m.entered ++ [e]
                 replaced := m.replaced ++
                   ((m.delivery.window.find? e.id).map InflightEntry.seq).toList }
  | sent {p key rest delivery} : m.sending = .sending p key rest → Alike m.delivery delivery →
      Moves m .send
        { m with delivery, sending := .handing key rest
                 sent := m.sent ++ [⟨key, p, m.now, false⟩] }
  | handed {key rest} : m.sending = .handing key rest → m.resending ≠ .stopped →
      Moves m .hand { m with sending := .among rest, handed := m.handed ++ [key] }
  | looked : m.resending = .looking →
      Moves m .look { m with delivery := m.delivery.reconsider, resending := .waiting }
  | took {key handed} : m.resending = .waiting → m.handed = key :: handed →
      Moves m .take
        { m with delivery := waitingFor m.delivery (m.delivery.out.waiting ++ [key])
                 resending := .looking, handed }
  | passedOver {id seq rest} : m.resending = .waiting →
      m.delivery.out.waiting = (id, seq) :: rest →
      (m.delivery.window.resend id seq m.now).2 = none →
      Moves m .fire
        { m with delivery := waitingFor m.delivery rest, resending := .looking }
  | fired {due id seq rest window p} : m.resending = .waiting →
      m.delivery.out.timer = some due → due ≤ m.now →
      m.delivery.out.waiting = (id, seq) :: rest →
      m.delivery.window.resend id seq m.now = (window, some p) →
      Moves m .fire
        { m with delivery := { waitingFor m.delivery rest with window }
                 resending := .sending p (id, seq) }
  | sentAgain {p key delivery} : m.resending = .sending p key → Alike m.delivery delivery →
      Moves m .sendAgain
        { m with delivery := waitingFor delivery (m.delivery.out.waiting ++ [key])
                 resending := .looking, sent := m.sent ++ [⟨key, p, m.now, true⟩] }
  | acknowledged {id e} : m.delivery.window.find? id = some e →
      Moves m (.acknowledge id)
        { m with delivery := m.delivery.acknowledge id, acked := m.acked ++ [e.seq] }
  | connected (link) {d} : m.sending = .stopped → m.resending = .stopped → Alike m.delivery d →
      Moves m (.connect link)
        { m with delivery := { d with out := { uid := d.out.uid }, link, failed := false }
                 sending := .among d.window.pending, resending := .looking, handed := []
                 earlier := m.earlier ++ m.sent, sent := [], due := d.window.pending }
  | passed (time) : Moves m (.pass time) { m with now := m.now + time }

theorem Moves.stay (m : Delivering) (s : Stroke) : Moves m s m := .aside s (.refl m.delivery)

theorem sendOther_moves (m : Delivering) {delivery : Delivery} (alike : Alike m.delivery delivery)
    (s : Stroke) (p : Packet) : Moves m s (m.sendOther delivery p) := by
  unfold sendOther
  split
  · exact .aside s (alike.trans (send_alike ..))
  · exact .halted s (alike.trans (send_alike ..))

theorem resume_moves (m : Delivering) : Moves m .resume m.resume := by
  unfold resume
  split
  · rename_i id seq rest here
    split
    · rename_i none
      exact .skipped here (by rw [none])
    · rename_i window p resent
      exact .resumed here resent
  · exact .stay ..

theorem takePermit_moves (m : Delivering) : Moves m .takePermit m.takePermit := by
  unfold takePermit
  split
  · exact .aside _ (takePermit_alike _)
  · exact .stay ..

theorem dropPermit_moves (m : Delivering) : Moves m .dropPermit m.dropPermit := by
  unfold dropPermit
  split
  · exact .aside _ (dropPermit_alike _)
  · exact .stay ..

theorem takeIn_moves (m : Delivering) : Moves m .takeIn m.takeIn := by
  unfold takeIn
  split
  · rename_i q idle queues
    split
    · exact .stay ..
    · rename_i durable next popped
      split
      · exact .entered idle queues popped rfl
      · exact .stay ..
  · exact .stay ..

theorem reply_moves (m : Delivering) : Moves m .reply m.reply := by
  unfold reply
  split
  · refine sendOther_moves m ?_ _ _
    exact ⟨rfl, rfl, rfl, rfl, rfl, rfl⟩
  · exact .stay ..

theorem plain_moves (m : Delivering) : Moves m .plain m.plain := by
  unfold plain
  split
  · rename_i q idle queues
    split
    · refine sendOther_moves m ?_ _ _
      exact ⟨rfl, rfl, rfl, by simp [queues], rfl, rfl⟩
    · exact .stay ..
  · exact .stay ..

theorem send_moves (m : Delivering) : Moves m .send m.send := by
  unfold send
  split
  · rename_i p key rest here
    split
    · exact .sent here (send_alike ..)
    · exact .halted _ (send_alike ..)
  · exact .stay ..

theorem hand_moves (m : Delivering) : Moves m .hand m.hand := by
  unfold hand
  split
  · exact .halted _ (.refl _)
  · rename_i key rest here running
    split
    · exact .handed here running
    · exact .stay ..
  · exact .stay ..

theorem stopSending_moves (m : Delivering) : Moves m .stopSending m.stopSending := by
  unfold stopSending
  split
  · exact .halted _ (dropPermit_alike _)
  · exact .stay ..

theorem look_moves (m : Delivering) : Moves m .look m.look := by
  unfold look
  split
  · rename_i here
    exact .looked here
  · exact .stay ..

theorem take_moves (m : Delivering) : Moves m .take m.take := by
  unfold take
  split
  · rename_i key handed here waits
    exact .took here waits
  · exact .stay ..

theorem fire_moves (m : Delivering) : Moves m .fire m.fire := by
  unfold fire
  split
  · rename_i due id seq rest here timer waiting
    split
    · rename_i past
      split
      · rename_i none
        exact .passedOver here waiting (by rw [none])
      · rename_i window p resent
        exact .fired here timer past waiting resent
    · exact .stay ..
  · exact .stay ..

theorem sendAgain_moves (m : Delivering) : Moves m .sendAgain m.sendAgain := by
  unfold sendAgain
  split
  · rename_i p key here
    split
    · dsimp only
      rw [(send_alike m.delivery (.publish p)).waiting]
      exact .sentAgain here (send_alike ..)
    · exact .ceased _ (send_alike ..)
  · exact .stay ..

theorem stopResending_moves (m : Delivering) : Moves m .stopResending m.stopResending := by
  unfold stopResending
  split
  · exact .ceased _ (.refl _)
  · exact .stay ..

theorem acknowledge_moves (m : Delivering) (id : PacketId) :
    Moves m (.acknowledge id) (m.acknowledge id) := by
  unfold acknowledge
  split
  · exact .stay ..
  · rename_i e found
    exact .acknowledged found

theorem connect_moves (m : Delivering) (link : Link) :
    Moves m (.connect link) (m.connect link) := by
  unfold connect
  split
  · rename_i halted ceased
    exact .connected link halted ceased (dropPermit_alike _)
  · exact .stay ..

theorem step_moves (m : Delivering) (s : Stroke) : Moves m s (m.step s) := by
  cases s with
  | resume => exact m.resume_moves
  | takePermit => exact m.takePermit_moves
  | dropPermit => exact m.dropPermit_moves
  | takeIn => exact m.takeIn_moves
  | reply => exact m.reply_moves
  | plain => exact m.plain_moves
  | send => exact m.send_moves
  | hand => exact m.hand_moves
  | stopSending => exact m.stopSending_moves
  | look => exact m.look_moves
  | take => exact m.take_moves
  | fire => exact m.fire_moves
  | sendAgain => exact m.sendAgain_moves
  | stopResending => exact m.stopResending_moves
  | acknowledge id => exact m.acknowledge_moves id
  | request p => exact .aside _ ⟨rfl, rfl, rfl, rfl, rfl, rfl⟩
  | relink link => exact .aside _ ⟨rfl, rfl, rfl, rfl, rfl, rfl⟩
  | connect link => exact m.connect_moves link
  | pass time => exact .passed time

end Delivering

end MqttBroker
