import MqttBroker.Proofs.Conduct
import MqttBroker.Proofs.Reopening
import MqttBroker.Proofs.SessionStates

/-!
The sessions of a broker from its start on. Whatever happens to the broker, each of its sessions has
queues while it is open and subscribed, and its matcher finds the filters of its subscriptions.
-/

namespace MqttBroker

structure Session.Proper (s : Session) : Prop extends Session.Coherent s where
  increasing : s.info.subscriptions.Increasing

namespace Session

variable {s s' : Session}

theorem Proper.kept (proper : s.Proper) (subscriptions : s'.info.subscriptions = s.info.subscriptions)
    (matcher : s'.matcher = s.matcher) (closed : s'.closed = s.closed)
    (queues : s'.queues.isSome = s.queues.isSome) : s'.Proper where
  neat := matcher ▸ proper.neat
  parsed filter held := proper.parsed filter (by rwa [holds, subscriptions] at held)
  matched filter pattern := by
    rw [matcher, holds, subscriptions]
    exact proper.matched filter pattern
  supplied live := by
    rw [queues, proper.supplied (closed.symm.trans live), isSubscribed, isSubscribed,
      subscriptions]
  emptied gone := by
    have none := proper.emptied (closed.symm.trans gone)
    rw [none, Option.isSome_none, Option.isSome_eq_false_iff, Option.isNone_iff_eq_none] at queues
    exact queues
  increasing := subscriptions ▸ proper.increasing

theorem proper_new (uid : SessionUid) (info : SessionInfo) (settings : MqttSettings) :
    (Session.new uid { info with subscriptions := [] } settings).Proper :=
  ⟨.new uid info settings, List.Pairwise.nil⟩

end Session

namespace Broker

variable {b b' : Broker}

def Coherent (b : Broker) : Prop := ∀ uid s, b.session? uid = some s → s.uid = uid ∧ s.Proper

theorem Coherent.beside (coherent : b.Coherent) (sessions : b'.sessions = b.sessions) :
    b'.Coherent := by
  unfold Coherent session?
  rw [sessions]
  exact coherent

theorem Coherent.changed (coherent : b.Coherent) {uid : SessionUid} {s : Session}
    (others : ∀ w, w ≠ uid → b'.session? w = b.session? w) (present : b'.session? uid = some s)
    (own : s.uid = uid) (proper : s.Proper) : b'.Coherent := by
  intro w x here
  by_cases same : w = uid
  · subst same
    cases present.symm.trans here
    exact ⟨own, proper⟩
  · rw [others w same] at here
    exact coherent w x here

theorem session?_putSession_other {s : Session} {w : SessionUid} (other : w ≠ s.uid) :
    (b.putSession s).session? w = b.session? w := by
  rw [session?_putSession, if_neg other]

theorem Coherent.put (coherent : b.Coherent) {s : Session} (proper : s.Proper) :
    (b.putSession s).Coherent := by
  refine coherent.changed (fun _ => session?_putSession_other) ?_ rfl proper
  rw [session?_putSession, if_pos rfl]

/-! Subscribing and unsubscribing -/

theorem Coherent.subscribe_other (coherent : b.Coherent) {uid w : SessionUid} {filter : String}
    {qos : QoS} {added : Bool} (done : b.subscribe uid filter qos = .ok (b', added))
    (other : w ≠ uid) : b'.session? w = b.session? w := by
  obtain ⟨_, s, _, _, _, _, _, _, present, _, _, _, after⟩ := subscribe_changes done
  obtain ⟨rfl, _⟩ := coherent uid s present
  rw [after]
  exact session?_putSession_other other

theorem Coherent.subscribe (coherent : b.Coherent) {uid : SessionUid} {filter : String} {qos : QoS}
    {added : Bool} (done : b.subscribe uid filter qos = .ok (b', added)) : b'.Coherent := by
  obtain ⟨_, s, _, _, _, _, _, _, present, _⟩ := subscribe_changes done
  obtain ⟨rfl, proper⟩ := coherent uid s present
  obtain ⟨_, _, s', found, own, coherent', _, info⟩ :=
    subscribe_coherent present rfl proper.toCoherent done
  refine coherent.changed (fun w => coherent.subscribe_other done) found own ⟨coherent', ?_⟩
  rw [info]
  exact proper.increasing.insert filter qos

theorem Coherent.unsubscribe (coherent : b.Coherent) {uid : SessionUid} {filter : String}
    {removed : Bool} (done : b.unsubscribe uid filter = .ok (b', removed)) : b'.Coherent := by
  rcases unsubscribe_changes done with
    ⟨rfl, _⟩ | ⟨s, _, _, _, _, _, _, _, _, _, _, _, present, held, _, _, _, _, _, _, after⟩
  · exact coherent
  · obtain ⟨rfl, proper⟩ := coherent uid s present
    obtain ⟨x, s', done', found, own, coherent', _, info⟩ :=
      unsubscribe_held present rfl proper.toCoherent held
    cases done.symm.trans done'
    refine coherent.changed (fun w other => ?_) found own ⟨coherent', ?_⟩
    · rw [after]
      exact session?_putSession_other other
    · rw [info]
      exact proper.increasing.erase filter

theorem Coherent.unsubscribeAll (coherent : b.Coherent) (uid : SessionUid)
    (filters : List String) : (unsubscribeAll uid filters b).1.Coherent := by
  induction filters generalizing b with
  | nil => exact coherent
  | cons filter rest ih =>
      simp only [Broker.unsubscribeAll]
      split
      · rename_i next _ done
        exact ih (coherent.unsubscribe done)
      · exact coherent

/-! Sessions that come and go -/

theorem Coherent.closeSession (coherent : b.Coherent) (uid : SessionUid) (cleanup : Bool) :
    (b.closeSession uid cleanup).1.Coherent := by
  cases present : b.session? uid with
  | none =>
      simp only [Broker.closeSession, present]
      exact coherent
  | some s =>
      obtain ⟨rfl, proper⟩ := coherent uid s present
      obtain ⟨s', found, own, coherent', _, info⟩ :=
        closeSession_coherent present rfl proper.toCoherent cleanup
      refine coherent.changed (fun w other => ?_) found own ⟨coherent', ?_⟩
      · cases closed : s.closed with
        | true => simp only [Broker.closeSession, present, closed, if_true]
        | false =>
            obtain ⟨_, _, _, _, _, _, _, _, after⟩ := closeSession_changes present closed cleanup
            rw [after]
            exact session?_putSession_other other
      · rw [info]
        exact proper.increasing

theorem Coherent.destroy (coherent : b.Coherent) (uid : SessionUid) :
    (b.destroy uid).1.Coherent := by
  unfold Broker.destroy
  split
  · exact coherent
  · rename_i s _
    have erased : Coherent { b with
        registry := b.registry.erase s.info.id
        stats := { b.stats with sessions := b.stats.sessions.decrement } } := coherent.beside rfl
    dsimp only
    split
    · exact erased.closeSession uid true
    · exact coherent.closeSession uid true

theorem Coherent.create (coherent : b.Coherent) (id : String) (clean : Bool) :
    (b.create id clean).1.Coherent :=
  Coherent.put (coherent.beside rfl)
    (Session.proper_new b.nextUid { id, cleanSession := clean } b.settings.mqtt)

theorem Coherent.settleClaim (coherent : b.Coherent) (c : Claim) :
    (b.settleClaim c).1.Coherent := by
  unfold Broker.settleClaim
  split
  · exact coherent.create c.id c.clean
  · rename_i s _
    split
    · exact coherent
    · have destroyed := coherent.destroy s.uid
      split <;> rename_i same <;> rw [same] at destroyed
      · exact destroyed
      · exact destroyed.create c.id c.clean

theorem Coherent.closeSessions (coherent : b.Coherent) : b.closeSessions.Coherent := by
  unfold Broker.closeSessions
  generalize b.registry.values = uids
  suffices closed : ∀ (x : Broker), x.Coherent → (uids.foldl (fun x uid =>
      let clean := (x.session? uid).any fun s => s.info.cleanSession
      let x := (x.closeSession uid clean).1
      { x with stats := { x.stats with sessions := x.stats.sessions.decrement } })
        x).Coherent from closed _ (coherent.beside rfl)
  induction uids with
  | nil => exact fun _ coherent => coherent
  | cons uid rest ih =>
      intro x coherent
      exact ih _ (Coherent.beside (coherent.closeSession uid _) rfl)

/-! Deeds and moves -/

theorem Coherent.acknowledge (coherent : b.Coherent) (uid : SessionUid) (id : PacketId) :
    (b.acknowledge uid id).1.Coherent := by
  unfold Broker.acknowledge
  split
  · exact coherent
  · rename_i answered
    obtain ⟨s, present, acked⟩ := Option.bind_eq_some_iff.mp answered
    obtain ⟨rfl, proper⟩ := coherent _ s present
    refine Coherent.put (coherent.beside rfl) (proper.kept ?_ ?_ ?_ ?_)
    all_goals
      unfold Session.acknowledge at acked
      split at acked
      · cases acked
      · cases acked
        simp

theorem Deed.coherent (coherent : b.Coherent) (deed : Deed b b') : b'.Coherent := by
  cases deed with
  | aside same => exact coherent.beside (counted_eq same).1
  | used s' present serves =>
      have proper := (coherent _ _ present).2
      exact coherent.put
        (proper.kept serves.subscriptions serves.matcher serves.closed serves.queues)
  | delivered d present drains weighs =>
      have proper := (coherent _ _ present).2
      exact Coherent.put (coherent.beside rfl) (proper.kept rfl rfl rfl drains.queues)
  | acknowledged uid id => exact coherent.acknowledge uid id
  | subscribed done => exact coherent.subscribe done
  | settled c => exact coherent.settleClaim c
  | destroyed uid => exact coherent.destroy uid
  | kept p =>
      refine coherent.beside ?_
      unfold keep
      split
      · split <;> rfl
      · rfl
  | enlisted conn => exact coherent.beside rfl
  | dismissed c =>
      refine coherent.beside ?_
      unfold dismiss
      split <;> rfl

theorem Deeds.coherent (coherent : b.Coherent) (deeds : Deeds b b') : b'.Coherent := by
  induction deeds with
  | refl => exact coherent
  | tail _ deed ih => exact deed.coherent ih

theorem Coherent.moved (coherent : b.Coherent) (m : Move) : (b.moved m).Coherent := by
  by_cases closes : ∃ uid cleanup, m = .close uid cleanup
  · obtain ⟨uid, cleanup, rfl⟩ := closes
    exact coherent.closeSession uid cleanup
  by_cases ends : m = .closeSessions
  · subst ends
    exact coherent.closeSessions
  obtain ⟨start, same, deeds⟩ :=
    b.moved_conducts (fun uid cleanup same => closes ⟨uid, cleanup, same⟩) ends
  have begun : start.Coherent := coherent.beside (counted_eq same).1
  refine deeds.coherent ?_
  cases b.drops m with
  | none => exact begun
  | some dropped => exact begun.unsubscribeAll dropped.1 dropped.2

theorem Coherent.run (coherent : b.Coherent) (moves : List Move) :
    (moves.foldl Broker.moved b).Coherent := by
  induction moves generalizing b with
  | nil => exact coherent
  | cons m rest ih => exact ih (coherent.moved m)

/-! The start -/

theorem startKeeps_coherent : StartKeeps Coherent where
  added info coherent := Coherent.put (coherent.beside rfl) (Session.proper_new _ info _)
  subscribed coherent done := coherent.subscribe done
  recorded coherent stored := coherent.beside (counted_eq (persist_counted stored)).1
  enrolled coherent done := coherent.beside (enroll_sessions done)
  deleted coherent _ := coherent.beside rfl

theorem start_coherent {settings : Settings} {storage : Storage.Memory} {now : Nat} {clock : Int64}
    (started : start settings storage now clock = .ok b) : b.Coherent :=
  startKeeps_coherent.start (fun _ _ _ _ present => nomatch present) started

end Broker

end MqttBroker
