import MqttBroker.Proofs.ClosedSessions
import MqttBroker.Proofs.Mirroring

/-!
What storage keeps of the sessions while the broker runs. Whatever is asked for a live session is
done, and leaves storage with the records and the buckets that the live sessions are due. So does
the passing of time.
-/

namespace MqttBroker

theorem StoredQueue.turns_opened {τ : Type} (s : StoredQueue τ) (m : Storage.Memory)
    (activities : List DurableQueue.Activity) :
    (s.turns m activities).memory.closed = m.closed := by
  unfold turns work
  split <;> rfl

namespace Broker

/-- A running broker, and the storage that it leaves if it stops now. -/
structure Upright (b : Broker) : Prop where
  orderly : b.Orderly
  ready : b.Ready
  filed : Storage.Filed b.storage.entries
  tenanted : ∀ id, b.Tenanted id
  mirrored : ∀ id, b.Mirrored id

variable {clients : List Client} {handed : List (SessionUid × Publish)} {b b' : Broker}

namespace Upright

theorem changed (upright : b.Upright) {id : String} (changes : Changes clients handed b b')
    (touches : Touches id b b') (mirrored : b'.Mirrored id) : b'.Upright where
  orderly := changes.orderly upright.orderly
  ready := touches.ready upright.ready
  filed := changes.filed upright.filed
  tenanted other := changes.tenanted upright.orderly (upright.tenanted other)
  mirrored other := by
    by_cases own : other = id
    · exact own ▸ mirrored
    · exact (upright.mirrored other).same (touches.infos other own) (touches.records other own)

theorem undisturbed (upright : b.Upright) (changes : Changes clients handed b b')
    (undisturbed : Undisturbed b b') : b'.Upright where
  orderly := changes.orderly upright.orderly
  ready := undisturbed.ready upright.ready
  filed := changes.filed upright.filed
  tenanted id := changes.tenanted upright.orderly (upright.tenanted id)
  mirrored id := (upright.mirrored id).same (undisturbed.infos id) (undisturbed.records id)

theorem beside (upright : b.Upright) (beside : Beside b b') (storage : b'.storage = b.storage)
    (peers : b.peers = [] → b'.peers = []) (served : b.served = [] → b'.served = [])
    (callers : b.callers = [] → b'.callers = []) : b'.Upright := by
  have changes : Changes [] [] b b' := .beside beside
  refine upright.undisturbed changes ?_
  refine undisturbed_of_eq beside.sessions beside.registry (by rw [storage]) fun ready => ?_
  exact ⟨beside.shuttingDown.trans ready.running, storage ▸ ready.opened, peers ready.peers,
    served ready.served, callers ready.callers⟩

theorem info (upright : b.Upright) {id : String} {s : Session} (live : b.find? id = some s) :
    b.info? id = some s.info ∧ s.info.Tidy := by
  have here : b.info? id = some s.info := by rw [info?, live, Option.map_some]
  exact ⟨here, (upright.mirrored id).tidy s.info here⟩

theorem recorded (upright : b.Upright) {id : String} {s : Session}
    (changes : Changes clients handed b b') (touches : Touches id b b')
    (live : b'.find? id = some s) (tidy : s.info.Tidy) :
    ∃ after, b'.persist s.uid = .ok after ∧ after.Upright := by
  have opened := (touches.ready upright.ready).opened
  obtain ⟨after, stored⟩ := persist_succeeds opened s.uid
  obtain ⟨written, mirrored⟩ :=
    (changes.orderly upright.orderly).mirrored_persist opened live tidy stored
  exact ⟨after, stored, upright.changed (changes.trans (.beside (persist_beside stored)))
    (touches.trans written) mirrored⟩

/-! Requests for subscriptions -/

theorem subscribeAll {id : String} {s : Session} (grants : Grants)
    (requests : List (String × QoS)) (orderly : b.Orderly) (ready : b.Ready)
    (live : b.find? id = some s) (tidy : s.info.Tidy) :
    ∃ b' answer s', Broker.subscribeAll s.uid grants requests b = (b', .ok answer) ∧
      Touches id b b' ∧ b'.find? id = some s' ∧ s'.uid = s.uid ∧ s'.info.Tidy := by
  induction requests generalizing b s with
  | nil => exact ⟨b, _, s, rfl, .refl id b, live, rfl, tidy⟩
  | cons request rest ih =>
      obtain ⟨filter, qos⟩ := request
      simp only [Broker.subscribeAll]
      split
      · rename_i allowed
        obtain ⟨pattern, parsed⟩ := allows_parsed allowed
        obtain ⟨present, _, unclosed, _⟩ := orderly.find?_some live
        obtain ⟨next, added, subscribed⟩ :=
          subscribe_succeeds ready.opened present unclosed parsed (qos.lower .atLeastOnce)
        obtain ⟨first, s', found, uid, info⟩ := orderly.touches_subscribe live subscribed
        have tidied : s'.info.Tidy := tidy.insert qos.lower_supported (congrArg _ info)
        obtain ⟨last, answer, s'', done, second, found', uid', tidy'⟩ :=
          ih (orderly.subscribe subscribed) (first.ready ready) found tidied
        rw [uid] at done uid'
        simp only [subscribed, done]
        exact ⟨last, _, s'', rfl, first.trans second, found', uid', tidy'⟩
      · obtain ⟨last, answer, s', done, rest⟩ := ih orderly ready live tidy
        rw [done]
        exact ⟨last, _, s', rfl, rest⟩

theorem requestSubscriptions (upright : b.Upright) {id : String} {s : Session}
    (live : b.find? id = some s) (grants : Grants) (requests : List (String × QoS)) :
    ∃ b' answer, b.requestSubscriptions s.uid grants requests = (b', .ok answer) ∧
      b'.Upright := by
  obtain ⟨filled, answer, s', done, touches, found, uid, tidy⟩ :=
    subscribeAll grants requests upright.orderly upright.ready live (upright.info live).2
  have changes : Changes [⟨s.uid, none, grants⟩] [] b
      (Broker.subscribeAll s.uid grants requests b).1 :=
    subscribeAll_changes (c := ⟨s.uid, none, grants⟩) (List.mem_singleton.mpr rfl) requests b
  rw [done] at changes
  obtain ⟨b', stored, after⟩ := upright.recorded changes touches found tidy
  rw [uid] at stored
  exact ⟨b', answer, by simp only [Broker.requestSubscriptions, done, stored], after⟩

theorem unsubscribeAll {id : String} {s : Session} (filters : List String) (orderly : b.Orderly)
    (live : b.find? id = some s) (tidy : s.info.Tidy) :
    ∃ b' s', Broker.unsubscribeAll s.uid filters b = (b', .ok ()) ∧
      Touches id b b' ∧ b'.find? id = some s' ∧ s'.uid = s.uid ∧ s'.info.Tidy := by
  induction filters generalizing b s with
  | nil => exact ⟨b, s, rfl, .refl id b, live, rfl, tidy⟩
  | cons filter rest ih =>
      obtain ⟨present, _, unclosed, _⟩ := orderly.find?_some live
      obtain ⟨next, removed, done⟩ := orderly.unsubscribe_succeeds present unclosed filter
      obtain ⟨first, s', found, uid, info⟩ := orderly.touches_unsubscribe live done
      have tidied : s'.info.Tidy := by
        rcases info with same | dropped
        · exact tidy.same (congrArg _ same)
        · exact tidy.erase (congrArg _ dropped)
      obtain ⟨last, s'', rest, second, found', uid', tidy'⟩ :=
        ih (orderly.unsubscribe done) found tidied
      rw [uid] at rest uid'
      simp only [Broker.unsubscribeAll, done]
      exact ⟨last, s'', rest, first.trans second, found', uid', tidy'⟩

theorem requestUnsubscriptions (upright : b.Upright) {id : String} {s : Session}
    (live : b.find? id = some s) (filters : List String) :
    ∃ b', b.requestUnsubscriptions s.uid filters = (b', .ok ()) ∧ b'.Upright := by
  obtain ⟨emptied, s', done, touches, found, uid, tidy⟩ :=
    unsubscribeAll filters upright.orderly live (upright.info live).2
  have changes : Changes [] [] b (Broker.unsubscribeAll s.uid filters b).1 :=
    unsubscribeAll_changes s.uid filters b
  rw [done] at changes
  obtain ⟨b', stored, after⟩ := upright.recorded changes touches found tidy
  rw [uid] at stored
  exact ⟨b', by simp only [Broker.requestUnsubscriptions, done, stored], after⟩

/-! Sessions come and go -/

theorem destroy (upright : b.Upright) {id : String} {s : Session} (live : b.find? id = some s) :
    (b.destroy s.uid).1.Upright := by
  obtain ⟨touches, absent, none⟩ :=
    upright.orderly.touches_destroy upright.ready.opened live
  have changes : Changes [] [] b (b.destroy s.uid).1 := .one (.destroyed s.uid)
  exact upright.changed changes touches (mirrored_vacant absent none)

end Upright

theorem Settled.touches (upright : b.Upright) {c : Claim} {start : Broker} {s : Session}
    {present : Bool} (settled : Settled b c start s present) :
    start.Orderly ∧ Touches c.id b start ∧ start.find? c.id = some s ∧ s.info.Tidy := by
  cases settled with
  | resumed live _ _ =>
      exact ⟨upright.orderly, .refl c.id b, live, (upright.info live).2⟩
  | created absent =>
      obtain ⟨touches, found⟩ := upright.orderly.touches_create c.id c.clean
      exact ⟨upright.orderly.create absent c.clean, touches, found,
        SessionInfo.tidy_unsubscribed rfl⟩
  | replaced live _ =>
      obtain ⟨first, absent, _⟩ := upright.orderly.touches_destroy upright.ready.opened live
      have orderly := (upright.destroy live).orderly
      obtain ⟨second, found⟩ := orderly.touches_create c.id c.clean
      exact ⟨orderly.create absent c.clean, first.trans second, found,
        SessionInfo.tidy_unsubscribed rfl⟩

namespace Upright

theorem claim (upright : b.Upright) (c : Claim) (conn : Option ConnectionId) (unique : Bool) :
    ∃ b' claimed, b.claim c conn unique = (b', .ok claimed) ∧ b'.Upright := by
  obtain ⟨start, s, present, after, settled, stored, done⟩ :=
    claim_succeeds upright.orderly upright.ready.running upright.ready.opened c conn unique
  obtain ⟨orderly, first, live, tidy⟩ := settled.touches upright
  obtain ⟨here, _, unclosed, _⟩ := orderly.find?_some live
  obtain ⟨second, found⟩ := orderly.touches_put live (s.takenBy c) rfl
  have taken : (start.putSession (s.takenBy c)).Orderly :=
    orderly.used here (Session.used_of_durable rfl rfl rfl rfl (fun _ => rfl) rfl rfl)
  obtain ⟨third, s', found', uid, info⟩ := taken.touches_bind found conn unique
  have changes : Changes [] [] (start.putSession (s.takenBy c))
      ((start.putSession (s.takenBy c)).bind (s.takenBy c) conn unique).1 :=
    bind_changes (taken.find?_some found).1 unclosed conn unique
  have ready := (third.ready (second.ready (first.ready upright.ready)))
  have uid : s'.uid = s.uid := uid
  have tidied : s'.info.Tidy := by
    rw [info]
    exact tidy.same rfl
  rw [← uid] at stored
  -- settled, taken and bound, the session may differ from its record until it is persisted
  obtain ⟨fourth, mirrored⟩ :=
    (changes.orderly taken).mirrored_persist ready.opened found' tidied stored
  exact ⟨after, _, done, upright.changed (claim_changes [] [] upright.orderly done).1
    (((first.trans second).trans third).trans fourth) mirrored⟩

/-! A client leaves -/

theorem live_of_bound (upright : b.Upright) {uid : SessionUid} {s : Session}
    {conn : ConnectionId} (present : b.session? uid = some s) (bound : s.client = some conn) :
    s.uid = uid ∧ b.find? s.info.id = some s := by
  refine ⟨(upright.orderly.own present).1, upright.orderly.find?_of_live present ?_⟩
  cases closed : s.closed with
  | false => rfl
  | true =>
      have unbound := upright.orderly.gone uid s present closed
      rw [bound] at unbound
      cases unbound

theorem release (upright : b.Upright) (uid : SessionUid) (conn : ConnectionId) :
    (b.release uid conn).Upright := by
  cases present : b.session? uid with
  | none =>
      simp only [Broker.release, present]
      exact upright
  | some s =>
      by_cases bound : s.client = some conn
      · obtain ⟨rfl, live⟩ := upright.live_of_bound present bound
        have used : Changes [] [] b (b.putSession { s with client := none }) := by
          refine .one (.used _ present (Session.used_of_durable rfl rfl rfl rfl ?_ rfl rfl))
          exact fun closed => (upright.orderly.gone s.uid s present closed).symm
        have unbound : (b.putSession { s with client := none }).Upright :=
          upright.undisturbed used (undisturbed_put present (fun _ => session?_putSession ..) rfl
            rfl rfl fun ready => ready.same rfl rfl rfl rfl rfl)
        simp only [Broker.release, present, bound, ne_eq, not_true, if_false]
        split
        · obtain ⟨_, found⟩ := upright.orderly.touches_put live { s with client := none } rfl
          exact unbound.destroy (s := { s with client := none }) found
        · exact unbound
      · simp only [Broker.release, present, ne_eq, bound, not_false_eq_true, if_true]
        exact upright

theorem dropWill (upright : b.Upright) (c : Served) : (b.dropWill c).Upright := by
  cases present : b.session? c.uid with
  | none =>
      simp only [Broker.dropWill, present]
      exact upright
  | some s =>
      by_cases bound : s.client = some c.conn
      · obtain ⟨own, live⟩ := upright.live_of_bound present bound
        obtain ⟨touches, found⟩ :=
          upright.orderly.touches_put live { s with info := { s.info with will := none } } rfl
        have used : Changes [] [] b (b.putSession { s with info := { s.info with will := none } }) :=
          .one (.used _ (upright.orderly.find?_some live).1
            (Session.used_of_durable rfl rfl rfl rfl (fun _ => rfl) rfl rfl))
        obtain ⟨b', stored, after⟩ :=
          upright.recorded used touches found ((upright.info live).2.same rfl)
        have recorded : (b.putSession { s with info := { s.info with will := none } }).persist
            c.uid = .ok b' := own ▸ stored
        simp only [Broker.dropWill, present, if_pos bound, recorded]
        exact after
      · simp only [Broker.dropWill, present, bound, if_false]
        exact upright

theorem endDelivery (upright : b.Upright) (c : Connection) (out : Outgoing) :
    (b.endDelivery c out).Upright := by
  have changes : Changes [] [] b (b.endDelivery c out) :=
    endDelivery_changes upright.orderly c out
  refine upright.undisturbed changes ?_
  have stopped : ∀ before : Broker, Undisturbed before
      (before.putConnection { c with outgoing := none, stopped := true }) := fun before =>
    undisturbed_of_eq rfl rfl rfl fun ready => ready.same rfl rfl rfl rfl rfl
  unfold Broker.endDelivery
  dsimp only
  split
  · rename_i s present
    rw [← (upright.orderly.own present).1] at present
    split
    · have released : Undisturbed b (b.putSession { s with inflight := s.inflight.release }) :=
        undisturbed_put present (fun _ => session?_putSession ..) rfl rfl rfl fun ready =>
          ready.same rfl rfl rfl rfl rfl
      exact released.trans (stopped _)
    · exact stopped b
  · exact stopped b

theorem hangUp (upright : b.Upright) (peer : PeerId) (c : Served) :
    (b.hangUp peer c).Upright := by
  have none (before : Broker) (silent : before.peers = []) :
      (before.closeLink peer).peers = [] := by
    rw [closeLink, silent]
    rfl
  have closed : ∀ {before : Broker}, before.Upright → (before.closeLink peer).Upright :=
    fun ready => ready.beside (.of_eq rfl rfl rfl rfl rfl rfl rfl rfl) rfl (none _) id id
  have cancelled : (b.cancel c.conn).Upright :=
    upright.beside (.of_eq rfl rfl rfl rfl rfl rfl rfl rfl) rfl id id id
  unfold Broker.hangUp
  dsimp only
  split
  · split
    · exact closed (cancelled.endDelivery ..)
    · exact closed (cancelled.beside (.of_eq rfl rfl rfl rfl rfl rfl rfl rfl) rfl id id id)
  · exact closed cancelled

theorem dismiss (upright : b.Upright) (c : Served) : (b.dismiss c).Upright := by
  unfold Broker.dismiss
  split
  · refine upright.beside (.of_eq rfl rfl rfl rfl rfl rfl rfl rfl) rfl id (fun nobody => ?_) id
    rw [nobody]
    rfl
  · exact upright

theorem conclude (upright : b.Upright) (peer : PeerId) (result : Except Failure Unit) :
    (b.conclude peer result).Upright := by
  refine upright.beside (.of_eq rfl rfl rfl rfl rfl rfl rfl rfl) rfl (fun silent => ?_) id id
  simp only [Broker.conclude, setStage, silent]
  rfl

theorem leave (upright : b.Upright) (peer : PeerId) (c : Served)
    (result : Except Failure Unit) : (b.leave peer c result true).Upright := by
  have dismissed := (upright.hangUp peer c).dismiss c
  simp only [Broker.leave, dismissed.ready.running, Bool.false_eq_true, if_false, if_true, forget]
  exact ((dismissed.dropWill c).release c.uid c.conn).conclude peer result

end Upright

/-! Time passes -/

theorem deliver_idle (peers : b.peers = []) (c : Connection) : b.deliver c = (b, false) := by
  unfold deliver
  split
  · rename_i silent
    rw [peers] at silent
    cases silent
  · rfl

theorem settleDeliveries_idle (peers : b.peers = []) : b.settleDeliveries = (b, false) := by
  unfold settleDeliveries
  apply List.foldl_fixed'
  intro id
  dsimp only
  split
  · rw [deliver_idle peers]
    rfl
  · rfl

theorem servePeers_idle (peers : b.peers = []) : b.servePeers = (b, false) := by
  unfold servePeers
  rw [peers]
  rfl

theorem resumeCallers_idle (callers : b.callers = []) : b.resumeCallers = (b, false) := by
  have same : ({ b with callers := [] } : Broker) = b := by rw [← callers]
  unfold resumeCallers
  rw [callers]
  exact Prod.ext same rfl

theorem round_idle (peers : b.settleQueues.peers = []) (callers : b.settleQueues.callers = []) :
    b.round = (b.settleQueues, false) := by
  simp only [round, settleDeliveries_idle peers, servePeers_idle peers, resumeCallers_idle callers,
    Bool.or_false]

namespace Upright

theorem turns (upright : b.Upright) (uid : SessionUid) (activities : List DurableQueue.Activity) :
    (b.turns uid activities).Upright := by
  have changes : Changes [] [] b (b.turns uid activities) := .one (.turns uid activities)
  refine upright.undisturbed changes ?_
  unfold Broker.turns withQueue
  split
  · exact .refl b
  · rename_i s present
    split
    · exact .refl b
    · rename_i q queued
      dsimp only
      generalize work : q.durable.turns b.storage activities = w
      have entries := q.durable.turns_entries b.storage activities
      have opened := q.durable.turns_opened b.storage activities
      rw [work] at entries opened
      rw [← (upright.orderly.own present).1] at present
      obtain ⟨reported, connections, frame⟩ := doneAll_frame
        (({ b with storage := w.memory } : Broker).putSession
          { s with queues := some { q with durable := w.queue } }) (w.done ++ w.refused)
      rw [frame]
      exact undisturbed_put present (fun _ => session?_putSession ..) rfl rfl entries fun ready =>
        ready.same rfl opened rfl rfl rfl

theorem settleQueues (upright : b.Upright) : b.settleQueues.Upright := by
  unfold Broker.settleQueues
  generalize b.sessions.keys = uids
  induction uids generalizing b with
  | nil => exact upright
  | cons uid rest ih =>
      obtain ⟨activities, same⟩ := b.settle_turns uid b.now b.clock
      rw [List.foldl_cons, same]
      exact ih (upright.turns uid activities)

theorem tick (upright : b.Upright) : b.tick.Upright := by
  unfold Broker.tick
  generalize b.sessions.keys = uids
  induction uids generalizing b with
  | nil => exact upright
  | cons uid rest ih =>
      obtain ⟨activities, same⟩ := b.tick_turns uid b.now b.clock
      rw [List.foldl_cons, same]
      exact ih (upright.turns uid activities)

theorem settle (upright : b.Upright) : b.settle.Upright := by
  have settled := upright.settleQueues
  unfold Broker.settle
  cases b.work with
  | zero => exact upright
  | succ fuel =>
      rw [rounds, round_idle settled.ready.peers settled.ready.callers]
      exact settled

theorem timed (upright : b.Upright) (now : Nat) : ({ b with now } : Broker).Upright :=
  upright.beside (.of_eq rfl rfl rfl rfl rfl rfl rfl rfl) rfl id id id

theorem passTo (upright : b.Upright) (now target : Nat) : (passTo now target b).Upright := by
  fun_induction Broker.passTo now target b with
  | case1 now b none => exact upright.timed target
  | case2 now b due _ next beyond => exact upright.timed target
  | case3 now b due _ next within ih => exact ih (upright.timed next).tick.settle

theorem advance (upright : b.Upright) (millis : Nat) : (b.advance millis).Upright :=
  upright.settle.passTo _ _

end Upright

end Broker

end MqttBroker
