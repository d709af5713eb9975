import Mathlib.Data.List.DropRight
import MqttBroker.Proofs.Retrying

/-!
A delivery that makes all its steps at one instant is one of the ways in which its two activities
can take turns. What is proved of all of these holds of it.
-/

namespace MqttBroker

namespace Delivering

/-- The activities are at these points, with nothing on its way from one to the other, and no
packet was refused. -/
structure At (m : Delivering) (sending : Sending) (resending : Resending) : Prop where
  sending : m.sending = sending
  resending : m.resending = resending
  handed : m.handed = []
  sent : m.delivery.failed = false
  room : 0 < m.delivery.window.capacity

/-- In some strokes, and without any time passing, the delivery becomes this one, with these
messages still ahead. After a packet was refused, what is lost with the connection may differ. -/
def Reaches (m : Delivering) (d : Delivery) (rest : List (PacketId × Nat)) : Prop :=
  ∃ strokes : List Stroke, ∃ m', m.actAll (strokes.map .stroke) = m' ∧ m'.now = m.now ∧
    { m'.delivery with out := d.out } = d ∧
    (d.failed = false → m'.delivery = d ∧ m'.At (.among rest) .waiting)

theorem actAll_append (m : Delivering) (first second : List Act) :
    m.actAll (first ++ second) = (m.actAll first).actAll second := List.foldl_append

theorem actAll_run (m : Delivering) (strokes : List Stroke) :
    ∃ made, m.actAll (strokes.map .stroke) = m.run made := by
  induction strokes generalizing m with
  | nil => exact ⟨[], rfl⟩
  | cons s rest ih =>
      simp only [actAll, List.map_cons, List.foldl_cons, act] at ih ⊢
      split
      · obtain ⟨made, same⟩ := ih (m.step s)
        exact ⟨s :: made, same⟩
      · exact ih m

theorem At.reaches {m : Delivering} {rest : List (PacketId × Nat)}
    (here : m.At (.among rest) .waiting) : m.Reaches m.delivery rest :=
  ⟨[], m, rfl, rfl, rfl, fun _ => ⟨rfl, here⟩⟩

theorem Reaches.after {m m' : Delivering} (strokes : List Stroke)
    (acts : m.actAll (strokes.map .stroke) = m') (now : m'.now = m.now) {d : Delivery}
    {rest : List (PacketId × Nat)} (reaches : m'.Reaches d rest) : m.Reaches d rest := by
  obtain ⟨more, last, same, time, delivery⟩ := reaches
  refine ⟨strokes ++ more, last, ?_, time.trans now, delivery⟩
  rw [List.map_append, actAll_append, acts, same]

theorem Reaches.stroke {m m' : Delivering} {s : Stroke} (allowed : m.allows s = true)
    (step : m.step s = m') (now : m'.now = m.now) {d : Delivery} {rest : List (PacketId × Nat)}
    (reaches : m'.Reaches d rest) : m.Reaches d rest :=
  reaches.after [s] (by simp [actAll, act, allowed, step]) now

theorem Reaches.refused {m : Delivering} {s : Stroke} (allowed : m.allows s = true)
    (now : (m.step s).now = m.now) {d : Delivery}
    (same : { (m.step s).delivery with out := d.out } = d) (failed : d.failed = true)
    (rest : List (PacketId × Nat)) : m.Reaches d rest := by
  refine ⟨[s], m.step s, by simp [actAll, act, allowed], now, same, fun sent => ?_⟩
  rw [failed] at sent
  cases sent

theorem Reaches.trans {m : Delivering} {d d' : Delivery} {rest rest' : List (PacketId × Nat)}
    (reaches : m.Reaches d rest) (sent : d.failed = false)
    (next : ∀ m' : Delivering, m'.now = m.now → m'.delivery = d →
      m'.At (.among rest) .waiting → m'.Reaches d' rest') : m.Reaches d' rest' := by
  obtain ⟨strokes, m', acts, now, _, ready⟩ := reaches
  obtain ⟨delivery, here⟩ := ready sent
  exact (next m' now delivery here).after strokes acts now

theorem Reaches.failing {m : Delivering} {d : Delivery} {rest : List (PacketId × Nat)}
    (reaches : m.Reaches d rest) (failed : d.failed = true) (rest' : List (PacketId × Nat)) :
    m.Reaches d rest' := by
  obtain ⟨strokes, m', acts, now, same, _⟩ := reaches
  exact ⟨strokes, m', acts, now, same, fun sent => by simp [failed] at sent⟩

theorem At.look {m : Delivering} {rest : List (PacketId × Nat)}
    (here : m.At (.among rest) .looking) : m.Reaches m.delivery.reconsider rest := by
  have step : m.step .look =
      { m with delivery := m.delivery.reconsider, resending := .waiting } := by
    simp [Delivering.step, Delivering.look, here.resending]
  refine .stroke (by simp [allows, busy, here.sending, here.resending]) step rfl ?_
  exact At.reaches ⟨here.sending, rfl, here.handed, here.sent, here.room⟩

theorem At.hand {m : Delivering} {id : PacketId} {seq : Nat} {rest : List (PacketId × Nat)}
    (here : m.At (.handing (id, seq) rest) .waiting) :
    m.Reaches (m.delivery.await id seq) rest := by
  have room := here.room
  have given : m.step .hand =
      { m with sending := .among rest, handed := [(id, seq)] } := by
    simp [step, Delivering.hand, here.sending, here.resending, here.handed]
    omega
  refine .stroke (by simp [allows, busy, here.sending, here.resending]) given rfl ?_
  refine .stroke (s := .take) (by simp [allows, busy, here.resending]) rfl ?_ ?_
  · simp [step, take, here.resending]
  · have waits := At.look (m := { m with
      delivery := waitingFor m.delivery (m.delivery.out.waiting ++ [(id, seq)])
      sending := .among rest, resending := .looking, handed := [] })
      ⟨rfl, rfl, rfl, here.sent, here.room⟩
    simpa [step, take, here.resending, Delivery.await, here.sent, waitingFor] using waits

theorem At.send {m : Delivering} {p : Publish} {id : PacketId} {seq : Nat}
    {rest : List (PacketId × Nat)} (here : m.At (.sending p (id, seq) rest) .waiting) :
    m.Reaches ((m.delivery.send (.publish p)).await id seq) rest := by
  cases sends : m.delivery.link.send (.publish p) with
  | ok link =>
      have given : m.step .send =
          { m with
            delivery := { m.delivery with link }
            sending := .handing (id, seq) rest
            sent := m.sent ++ [⟨(id, seq), p, m.now, false⟩] } := by
        simp [step, Delivering.send, here.sending, sends, Delivery.send]
      refine .stroke rfl given rfl ?_
      have handed := At.hand (m := { m with
        delivery := { m.delivery with link }
        sending := .handing (id, seq) rest
        sent := m.sent ++ [⟨(id, seq), p, m.now, false⟩] })
        ⟨rfl, here.resending, here.handed, here.sent, here.room⟩
      simpa [Delivery.send, sends] using handed
  | error e =>
      refine .refused (s := .send) rfl ?_ ?_ ?_ rest <;>
        simp [step, Delivering.send, here.sending, sends, Delivery.send, Delivery.await]

theorem reconsider_reconsider (d : Delivery) : d.reconsider.reconsider = d.reconsider := by
  simp only [Delivery.reconsider, List.dropWhile_idempotent]

theorem At.sendAgain {m : Delivering} {p : Publish} {id : PacketId} {seq : Nat}
    {rest : List (PacketId × Nat)} (here : m.At (.among rest) (.sending p (id, seq))) :
    m.Reaches ((m.delivery.send (.publish p)).await id seq).reconsider rest := by
  cases sends : m.delivery.link.send (.publish p) with
  | ok link =>
      have given : m.step .sendAgain =
          { m with
            delivery := waitingFor { m.delivery with link } (m.delivery.out.waiting ++ [(id, seq)])
            resending := .looking
            sent := m.sent ++ [⟨(id, seq), p, m.now, true⟩] } := by
        simp [step, Delivering.sendAgain, here.resending, sends, Delivery.send]
      refine .stroke rfl given rfl ?_
      have waits := At.look (m := { m with
        delivery := waitingFor { m.delivery with link } (m.delivery.out.waiting ++ [(id, seq)])
        resending := .looking
        sent := m.sent ++ [⟨(id, seq), p, m.now, true⟩] })
        ⟨here.sending, rfl, here.handed, here.sent, here.room⟩
      simpa [Delivery.send, sends, Delivery.await, here.sent, reconsider_reconsider, waitingFor]
        using waits
  | error e =>
      refine .refused (s := .sendAgain) rfl ?_ ?_ ?_ rest <;>
        simp [step, Delivering.sendAgain, here.resending, sends, Delivery.send, Delivery.await,
          Delivery.reconsider]

theorem At.aside {m : Delivering} {rest : List (PacketId × Nat)}
    (here : m.At (.among rest) .waiting) {s : Stroke} (allowed : m.allows s = true) {d : Delivery}
    (step : m.step s = { m with delivery := d }) (sent : d.failed = m.delivery.failed)
    (room : d.window.capacity = m.delivery.window.capacity) : m.Reaches d rest := by
  refine .stroke allowed step rfl (At.reaches (m := { m with delivery := d }) ?_)
  exact ⟨here.sending, here.resending, here.handed, sent.trans here.sent, room ▸ here.room⟩

theorem At.other {m : Delivering} {rest : List (PacketId × Nat)}
    (here : m.At (.among rest) .waiting) (delivery : Delivery)
    (sent : delivery.failed = m.delivery.failed)
    (room : delivery.window.capacity = m.delivery.window.capacity) {p : Packet} {s : Stroke}
    (allowed : m.allows s = true) (step : m.step s = m.sendOther delivery p) :
    m.Reaches (delivery.send p) rest := by
  cases sends : delivery.link.send p with
  | ok link =>
      have same : delivery.send p = { delivery with link } := by simp [Delivery.send, sends]
      rw [same]
      exact here.aside allowed (by simp [step, sendOther, sends, same]) sent room
  | error e =>
      refine .refused allowed ?_ ?_ ?_ rest <;> simp [step, sendOther, sends, Delivery.send]

theorem At.sendDurable {m : Delivering} (here : m.At (.among []) .waiting) {q : SessionQueues}
    (queues : m.delivery.queues = some q) (holding : m.delivery.out.holding = true) {d : Delivery}
    (next : m.delivery.sendDurable q m.now = some d) : m.Reaches d [] := by
  unfold Delivery.sendDurable at next
  split at next
  · cases next
  · rename_i durable message popped
    have kept : (m.delivery.takeIn q durable message m.now).1.failed = m.delivery.failed ∧
        (m.delivery.takeIn q durable message m.now).1.window.capacity =
          m.delivery.window.capacity := ⟨rfl, rfl⟩
    cases taken : m.delivery.takeIn q durable message m.now with
    | mk delivery e =>
        simp only [taken, Option.some.injEq] at next kept
        subst next
        refine .stroke (s := .takeIn) (by simp [allows, busy, here.sending, here.resending])
          ?_ ?_ (At.send (m := { m with
            delivery, sending := .sending e.publish e.key [], entered := m.entered ++ [e]
            replaced := m.replaced ++
              ((m.delivery.window.find? e.id).map InflightEntry.seq).toList })
            ⟨rfl, here.resending, here.handed, kept.1.trans here.sent, kept.2 ▸ here.room⟩)
        · simp [step, takeIn, here.sending, queues, popped, holding, taken]
        · rfl

theorem dropPermit_kept (d : Delivery) :
    d.dropPermit.failed = d.failed ∧ d.dropPermit.window.capacity = d.window.capacity := by
  unfold Delivery.dropPermit
  split <;> exact ⟨rfl, rfl⟩

theorem At.dropPermit {m : Delivering} (here : m.At (.among []) .waiting) :
    m.Reaches m.delivery.dropPermit [] := by
  obtain ⟨sent, room⟩ := dropPermit_kept m.delivery
  exact here.aside (s := .dropPermit) (by simp [allows, busy, here.sending, here.resending])
    (by simp [step, Delivering.dropPermit, here.sending]) sent room

theorem At.takePermit {m : Delivering} (here : m.At (.among []) .waiting) {d : Delivery}
    (taken : m.delivery.takePermit = some d) : m.Reaches d [] := by
  have kept : d.failed = m.delivery.failed ∧
      d.window.capacity = m.delivery.window.capacity := by
    obtain ⟨window, acquired, rfl⟩ := Option.map_eq_some_iff.mp taken
    unfold Inflight.acquire at acquired
    split at acquired
    · cases acquired
    · split at acquired <;> cases acquired
      exact ⟨rfl, rfl⟩
  exact here.aside (s := .takePermit) (by simp [allows, busy, here.sending, here.resending])
    (by simp [step, Delivering.takePermit, here.sending, taken]) kept.1 kept.2

theorem At.forward {m : Delivering} (here : m.At (.among []) .waiting) {d : Delivery}
    (next : m.delivery.forward m.now = some d) : m.Reaches d [] := by
  have idle : m.busy = false := by simp [busy, here.sending, here.resending]
  unfold Delivery.forward at next
  split at next
  · rename_i p replies queued
    cases next
    exact here.other { m.delivery with out := { m.delivery.out with replies } } rfl rfl
      (s := .reply) (by simp [allows, idle]) (by simp [step, reply, here.sending, queued])
  · split at next
    · cases next
      exact here.dropPermit
    · cases next
  · rename_i q empty queues
    split at next
    · rename_i temporary p popped
      cases next
      exact here.other { m.delivery with queues := some { q with temporary } } rfl rfl
        (s := .plain) (by simp [allows, idle]) (by simp [step, plain, here.sending, queues, popped])
    · split at next
      · rename_i holding
        exact here.sendDurable queues holding next
      · exact here.takePermit next

theorem At.retry {m : Delivering} (here : m.At (.among []) .waiting) {d : Delivery}
    (next : m.delivery.retry m.now = some d) : m.Reaches d [] := by
  have idle : m.busy = false := by simp [busy, here.sending, here.resending]
  unfold Delivery.retry at next
  split at next
  · rename_i due id seq rest timer front
    split at next
    · rename_i past
      cases next
      cases resent : m.delivery.window.resend id seq m.now with
      | mk window p =>
          have kept := Inflight.kept_of_resend resent
          have room : 0 < window.capacity := kept.capacity ▸ here.room
          cases p with
          | none =>
              have given : m.step .fire =
                  { m with delivery := waitingFor m.delivery rest, resending := .looking } := by
                simp [step, fire, here.resending, timer, front, past, resent]
              refine .stroke (by simp [allows, idle]) given rfl ?_
              simp only [Delivery.resend, resent]
              exact At.look (m := { m with
                delivery := waitingFor m.delivery rest, resending := .looking })
                ⟨here.sending, rfl, here.handed, here.sent, here.room⟩
          | some p =>
              have given : m.step .fire =
                  { m with
                    delivery := { waitingFor m.delivery rest with window }
                    resending := .sending p (id, seq) } := by
                simp [step, fire, here.resending, timer, front, past, resent]
              refine .stroke (by simp [allows, idle]) given rfl ?_
              simp only [Delivery.resend, resent]
              exact At.sendAgain (m := { m with
                delivery := { waitingFor m.delivery rest with window }
                resending := .sending p (id, seq) })
                ⟨here.sending, rfl, here.handed, here.sent, room⟩
    · cases next
  · cases next

theorem At.next {m : Delivering} (here : m.At (.among []) .waiting) {d : Delivery}
    (next : m.delivery.next m.now = some d) : m.Reaches d [] := by
  simp only [Delivery.next, here.sent, Bool.false_eq_true, if_false] at next
  cases forward : m.delivery.forward m.now with
  | some other =>
      rw [forward] at next
      cases next
      exact here.forward forward
  | none =>
      rw [forward] at next
      exact here.retry next

theorem At.run {m : Delivering} (here : m.At (.among []) .waiting) (fuel : Nat) :
    m.Reaches (Delivery.run fuel m.delivery m.now).1 [] := by
  induction fuel generalizing m with
  | zero => exact here.reaches
  | succ fuel ih =>
      cases next : m.delivery.next m.now with
      | none =>
          simp only [Delivery.run, next]
          exact here.reaches
      | some d =>
          simp only [Delivery.run, next]
          have reached := here.next next
          cases sent : d.failed with
          | false =>
              refine reached.trans sent fun m' now same here => ?_
              rw [← now, ← same]
              exact ih here
          | true =>
              have last : (Delivery.run fuel d m.now).1 = d := by
                cases fuel <;> simp [Delivery.run, Delivery.next, sent]
              rw [last]
              exact reached

theorem At.resume {m : Delivering} {id : PacketId} {seq : Nat} {rest : List (PacketId × Nat)}
    (here : m.At (.among ((id, seq) :: rest)) .waiting) :
    m.Reaches (m.delivery.resend id seq m.now) rest := by
  have idle : m.busy = false := by simp [busy, here.sending, here.resending]
  cases resent : m.delivery.window.resend id seq m.now with
  | mk window p =>
      have kept := Inflight.kept_of_resend resent
      have room : 0 < window.capacity := kept.capacity ▸ here.room
      cases p with
      | none =>
          have given : m.step .resume = { m with sending := .among rest } := by
            simp [step, Delivering.resume, here.sending, resent]
          refine .stroke (by simp [allows, idle]) given rfl ?_
          simp only [Delivery.resend, resent]
          exact At.reaches (m := { m with sending := .among rest })
            ⟨rfl, here.resending, here.handed, here.sent, here.room⟩
      | some p =>
          have given : m.step .resume =
              { m with
                delivery := { m.delivery with window }, sending := .sending p (id, seq) rest } := by
            simp [step, Delivering.resume, here.sending, resent]
          refine .stroke (by simp [allows, idle]) given rfl ?_
          simp only [Delivery.resend, resent]
          exact At.send (m := { m with
            delivery := { m.delivery with window }, sending := .sending p (id, seq) rest })
            ⟨rfl, here.resending, here.handed, here.sent, room⟩

theorem At.resumeAll {m : Delivering} {keys : List (PacketId × Nat)}
    (here : m.At (.among keys) .waiting) :
    m.Reaches (keys.foldl (fun d (id, seq) => if d.failed then d else d.resend id seq m.now)
      m.delivery) [] := by
  induction keys generalizing m with
  | nil => exact here.reaches
  | cons key rest ih =>
      obtain ⟨id, seq⟩ := key
      have reached := here.resume
      simp only [List.foldl_cons, here.sent, Bool.false_eq_true, if_false]
      cases sent : (m.delivery.resend id seq m.now).failed with
      | false =>
          refine reached.trans sent fun m' now same here => ?_
          have others := ih here
          rwa [now, same] at others
      | true =>
          rw [List.foldl_fixed' (by simp [sent])]
          exact reached.failing sent []

theorem begin_reaches {m : Delivering} (halted : m.sending = .stopped)
    (ceased : m.resending = .stopped) (room : 0 < m.delivery.window.capacity) (link : Link) :
    let d := m.delivery.dropPermit
    m.Reaches (Delivery.begin { d with out := { uid := d.out.uid }, link, failed := false } m.now)
      [] := by
  intro d
  have capacity := (dropPermit_kept m.delivery).2
  have given : m.step (.connect link) = { m with
      delivery := { d with out := { uid := d.out.uid }, link, failed := false }
      sending := .among d.window.pending, resending := .looking, handed := []
      earlier := m.earlier ++ m.sent, sent := [], due := d.window.pending } := by
    simp [step, connect, halted, ceased, d]
  refine .stroke (by simp [allows, busy, halted, ceased]) given rfl ?_
  -- an empty line is looked at
  refine (At.look ⟨rfl, rfl, rfl, rfl, capacity ▸ room⟩).trans rfl fun m' now same here => ?_
  have resumed := here.resumeAll
  rwa [now, same] at resumed

end Delivering

end MqttBroker
