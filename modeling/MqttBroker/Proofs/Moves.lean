import MqttBroker.Proofs.Serving

/-!
What can happen to a broker, move by move. All but the steps with links leave the clients where they
are; and the broker in time, up to its end, is nothing but such moves.
-/

namespace MqttBroker

namespace Broker

/-! What can happen to a broker -/

inductive Move
  | openLink (address : String) (commonName : Option String) (uuid : String)
  | receive (peer : PeerId) (p : Packet)
  | collect (peer : PeerId)
  | breakLink (peer : PeerId)
  | abandonLink (peer : PeerId)
  /-- One step with a link, whose client may be heard though its connection has been told to end. -/
  | serve (peer : PeerId) (late : Bool)
  | deliver (conn : ConnectionId)
  | turn (uid : SessionUid)
      (act : StoredQueue EventId → Storage.Memory → QueueWork EventId)
  | resumeCallers
  | attach (address : String) (c : Claim) (unique bound : Bool)
  | detach (conn : ConnectionId) (uid : SessionUid)
  | publish (p : Publish)
  | push (uid : SessionUid) (p : Publish) (granted : Option QoS)
  | subscribe (uid : SessionUid) (filter : String) (qos : QoS)
  | unsubscribe (uid : SessionUid) (filter : String)
  | acknowledge (uid : SessionUid) (id : PacketId)
  | persist (uid : SessionUid)
  | kick (s : Session)
  | close (uid : SessionUid) (cleanup : Bool)
  | destroy (uid : SessionUid)
  | stop
  | closeSessions
  | store (storage : Storage.Memory)
  | wait (now : Nat) (clock : Int64)

variable {b b' : Broker}

def stop (b : Broker) : Broker :=
  if b.shuttingDown then b else b.served.foldl cancel { b with shuttingDown := true }

def moved (b : Broker) : Move → Broker
  | .openLink address commonName uuid => (b.openLink address commonName uuid).1
  | .receive peer p => (b.receive peer p).1
  | .collect peer => (b.collect peer).1
  | .breakLink peer => b.breakLink peer
  | .abandonLink peer => b.abandonLink peer
  | .serve peer late => ((b.peers.get? peer).bind (b.serve peer late)).getD b
  | .deliver conn => ((b.connections.get? conn).map fun c => (b.deliver c).1).getD b
  | .turn uid act => b.withQueue uid act
  | .resumeCallers => b.resumeCallers.1
  | .attach address c unique bound => (b.attach address c unique bound).1
  | .detach conn uid => (b.detach conn uid).1
  | .publish p => (b.publishFor p).1
  | .push uid p granted => (b.pushFor uid p granted).1
  | .subscribe uid filter qos => ((b.subscribe uid filter qos).toOption.map Prod.fst).getD b
  | .unsubscribe uid filter => ((b.unsubscribe uid filter).toOption.map Prod.fst).getD b
  | .acknowledge uid id => (b.acknowledge uid id).1
  | .persist uid => (b.persist uid).toOption.getD b
  | .kick s => (b.kickClient s).1
  | .close uid cleanup => (b.closeSession uid cleanup).1
  | .destroy uid => (b.destroy uid).1
  | .stop => b.stop
  | .closeSessions => b.closeSessions
  | .store storage => { b with storage }
  | .wait now clock => { b with now, clock }

def overtaken (b : Broker) : Move → Option ConnectionId
  | .attach _ c unique bound =>
    (b.connected b.nextPeer).overtakes c (if bound then some b.nextConnection else none) unique
  | _ => none

def Move.cause : Move → Cause
  | .publish p => .publish p
  | .push _ p _ => .push p
  | _ => .replay

/-! Moves that are no steps with links -/

/-- A move leaves all clients where they are, and there is a reason for what it enters. -/
structure Passes (b : Broker) (taken : Option ConnectionId) (cause : Cause) (b' : Broker) :
    Prop where
  proceeds : Proceeds b none taken b'
  explained : ∀ m ∈ b.entered b', cause.Explains m

theorem Stays.passes (stays : Stays b b') (numbered : b.Numbered) (cause : Cause) :
    Passes b none cause b' :=
  ⟨stays.toAttends.proceeds numbered none, by simp [stays.entered]⟩

theorem Numbered.passes (numbered : b.Numbered) (cause : Cause) (stage? : b'.stage? = b.stage?)
    (handle? : b'.handle? = b.handle?) (nextPeer : b'.nextPeer = b.nextPeer)
    (nextConnection : b'.nextConnection = b.nextConnection) (events : b'.events = b.events) :
    Passes b none cause b' where
  proceeds := numbered.proceeds none stage? handle? nextPeer nextConnection
  explained := by simp [entered_beside events]

theorem newLink_proceeds (numbered : b.Numbered) {x : Peer} (nobody : x.stage.client? = none)
    (visited : Option PeerId) :
    Proceeds b visited none { b.putPeer b.nextPeer x with nextPeer := b.nextPeer + 1 } where
  numbered := by
    refine ⟨numbered.keyed, numbered.connections, fun peer there => ?_⟩
    simp only [stage?, putPeer, Table.get?_insert] at there
    split at there
    · rename_i last
      exact last ▸ Nat.lt_succ_self _
    · exact (numbered.links peer there).trans (Nat.lt_succ_self _)
  attended peer _ := by
    simp only [attended, stage?, putPeer, Table.get?_insert]
    split
    · rename_i last
      cases known : b.peers.get? peer with
      | none => exact nobody
      | some y =>
          have there : (b.stage? peer).isSome := by
            rw [stage?, known]
            rfl
          exact absurd (last ▸ numbered.links peer there) (Nat.lt_irrefl _)
    · rfl
  known _ known := known
  marked conn _ := by
    change b.marked conn = _
    simp
  next := Nat.le_refl _
  taken _ none := nomatch none

theorem resumeCallers_replays (b : Broker) : Replays b b.resumeCallers.1 := by
  have told : ∀ (x : Broker) (callers : List Paused), Stays x { x with callers } :=
    fun _ _ => stays_beside rfl
  have resumed : ∀ (ready : List Paused) (x : Broker), Replays x (ready.foldl (fun x job =>
      { (resume job.rest x).1 with
        callers := (resume job.rest x).1.callers ++ (resume job.rest x).2.toList }) x) := by
    intro ready
    induction ready with
    | nil => exact fun x => (Stays.refl x).replays
    | cons job rest ih =>
        intro x
        exact ((resume_replays job.rest x).trans (told _ _).replays).trans (ih _)
  exact (told b _).replays.trans (resumed _ _)

/-! Links that only receive -/

theorem Proceeds.putConnection {visited : Option PeerId} {taken : Option ConnectionId}
    (proceeds : Proceeds b visited taken b') {c : Connection} (unknown : b.handle? c.id = none)
    (below : c.id < b'.nextConnection) : Proceeds b visited taken (b'.putConnection c) := by
  have handled : ∀ conn, (b'.putConnection c).handle? conn =
      if conn = c.id then some (c.id, c.resumed) else b'.handle? conn := by
    intro conn
    simp only [handle?, Broker.putConnection, Table.get?_insert]
    split <;> rfl
  refine ⟨⟨(keyed_iff _).mpr fun conn id known => ?_, fun conn known => ?_,
    proceeds.numbered.links⟩, proceeds.attended, fun conn known => ?_, fun conn known => ?_,
    proceeds.next, proceeds.taken⟩
  · rw [number?, handled] at known
    split at known
    · rename_i same
      cases known
      exact same.symm
    · exact (keyed_iff _).mp proceeds.numbered.keyed conn id known
  · rw [handled] at known
    split at known
    · rename_i same
      exact same ▸ below
    · exact proceeds.numbered.connections conn known
  all_goals have other : conn ≠ c.id := fun same => by simp [same, unknown] at known
  · rw [handled, if_neg other]
    exact proceeds.known conn known
  · have same : (b'.putConnection c).marked conn = b'.marked conn := by
      rw [Broker.marked, handled, if_neg other, Broker.marked]
    exact same.trans (proceeds.marked conn known)

theorem Proceeds.beginDelivery {visited : Option PeerId} {taken : Option ConnectionId}
    (proceeds : Proceeds b visited taken b') {c : Connection} (unknown : b.handle? c.id = none)
    (below : c.id < b'.nextConnection) (uid : SessionUid) :
    Proceeds b visited taken (b'.beginDelivery c uid) := by
  unfold Broker.beginDelivery
  split
  · rename_i s x _ link
    let d := (Delivery.ofSession s { uid } x.link b'.stats.inflights).begin b'.now
    have put : Stays b' (b'.putSession (d.session s)) := putSession_stays ..
    have sent : Stays b' ((b'.putSession (d.session s)).putPeer c.peer { x with link := d.link }) :=
      put.trans (putPeer_stays link rfl)
    exact (proceeds.after (sent.toAttends.proceeds proceeds.numbered visited)).putConnection unknown
      below
  · exact proceeds

def receiving (b : Broker) (address : String) : Broker :=
  { b.putPeer b.nextPeer { link := { address }, stage := .ended } with nextPeer := b.nextPeer + 1 }

theorem attached_passes (numbered : b.Numbered) (address : String) {c : Claim}
    {conn : Option ConnectionId} {unique : Bool} {result : Except Failure Claimed}
    (claimed : ((b.receiving address).connected b.nextPeer).claim c conn unique = (b', result)) :
    Passes b ((b.connected b.nextPeer).overtakes c conn unique) .replay b' ∧
      ∀ uid, Passes b ((b.connected b.nextPeer).overtakes c conn unique) .replay
        ((b'.beginDelivery { id := b.nextConnection, peer := b.nextPeer } uid).setStage b.nextPeer
          (.delivering b.nextConnection uid)) := by
  have opened : Proceeds b (some b.nextPeer) none (b.receiving address) :=
    newLink_proceeds numbered rfl (some b.nextPeer)
  have ready := connected_proceeds opened.numbered b.nextPeer (some b.nextPeer)
  have taken := ((b.receiving address).connected b.nextPeer).claim_takesOver c conn unique
  rw [claimed] at taken
  have proceeds := ready.before (taken.proceeds ready.numbered (some b.nextPeer))
  have nobody : b.attended b.nextPeer = none := by
    cases there : b.stage? b.nextPeer with
    | none => rw [attended, there, Option.bind_none]
    | some stage => exact absurd (numbered.links _ (there ▸ rfl)) (Nat.lt_irrefl _)
  have unknown : (b.receiving address).handle? b.nextConnection = none := by
    cases there : b.handle? b.nextConnection with
    | none => exact there
    | some handle => exact absurd (numbered.connections _ (there ▸ rfl)) (Nat.lt_irrefl _)
  have unvisited : ∀ after, Proceeds (b.receiving address) (some b.nextPeer)
      ((b.connected b.nextPeer).overtakes c conn unique) after →
      after.attended b.nextPeer = none → after.events.next = b'.events.next →
      Passes b ((b.connected b.nextPeer).overtakes c conn unique) .replay after := by
    intro after proceeds unattended next
    have whole := opened.before proceeds
    refine
      ⟨⟨whole.numbered, fun peer _ => ?_, whole.known, whole.marked, whole.next, whole.taken⟩, ?_⟩
    · by_cases own : peer = b.nextPeer
      · rw [own, unattended, nobody]
      · exact whole.attended peer fun same => own (Option.some.inj same).symm
    · have same : after.events.next = b.events.next := next.trans taken.next
      unfold entered
      rw [same, Nat.sub_self]
      simp
  constructor
  · refine unvisited b' proceeds ?_ rfl
    have ended : ((b.receiving address).connected b.nextPeer).attended b.nextPeer = none := by
      simp [attended, stage?, receiving, connected, newConnection, Broker.putConnection, putPeer,
        Table.get?_insert, Stage.client?]
    rw [attended, taken.stage?]
    exact ended
  · intro uid
    have below : b.nextConnection < b'.nextConnection :=
      (Nat.lt_succ_self _).trans_eq taken.nextConnection.symm
    have delivered := proceeds.beginDelivery
      (c := { id := b.nextConnection, peer := b.nextPeer }) unknown below uid
    refine unvisited _ (delivered.after ((setStage_turn ..).proceeds delivered.numbered))
      (setStage_unattended _ _ rfl) ?_
    unfold Broker.beginDelivery
    split <;> rfl

theorem attach_passes (numbered : b.Numbered) (address : String) (c : Claim) (unique bound : Bool) :
    Passes b ((b.connected b.nextPeer).overtakes c (if bound then some b.nextConnection else none)
      unique) .replay (b.attach address c unique bound).1 := by
  unfold attach
  dsimp only
  cases bound
  all_goals
    simp only [Bool.false_eq_true, if_false, if_true]
    split
    · rename_i refused
      exact (attached_passes numbered address refused).1
    · rename_i session settled
      exact (attached_passes numbered address settled).2 session.uid

/-! Every move that is no step with a link -/

theorem stop_passes (numbered : b.Numbered) : Passes b none .replay b.stop := by
  have cancelled : ∀ (conns : List ConnectionId) (x : Broker), Stays x (conns.foldl cancel x) := by
    intro conns
    induction conns with
    | nil => exact .refl
    | cons conn rest ih => exact fun x => (x.cancel_stays conn).trans (ih _)
  unfold stop
  split
  · exact (Stays.refl b).passes numbered _
  · have told := cancelled b.served { b with shuttingDown := true }
    refine ⟨numbered.proceeds none told.stage? told.handle? told.nextPeer told.nextConnection, ?_⟩
    rw [show b.entered _ = [] from (entered_congr rfl rfl rfl).trans told.entered]
    simp

theorem publishFor_passes (numbered : b.Numbered) (p : Publish) :
    Passes b none (.publish p) (b.publishFor p).1 := by
  have numbers : Stays b b.newReport.1 := stays_beside rfl
  have published := numbers.publishes (b.newReport.1.publish_publishes p b.newReport.2)
  have whole : Publishes b p.announced (b.publishFor p).1 := published.stays (stays_beside rfl)
  refine ⟨whole.toAttends.proceeds numbered none, fun m member => ?_⟩
  exact List.mem_singleton.mp (whole.entered ▸ member)

theorem pushFor_passes (numbered : b.Numbered) (uid : SessionUid) (p : Publish)
    (granted : Option QoS) : Passes b none (.push p) (b.pushFor uid p granted).1 := by
  have numbers : Stays b b.newReport.1 := stays_beside rfl
  have entered := numbers.publishes (b.newReport.1.enter_publishes p 1 b.newReport.2)
  have whole : Publishes b p (b.pushFor uid p granted).1 := by
    unfold pushFor
    cases granted with
    | some qos => exact entered.stays (pushGranted_stays ..)
    | none => exact entered.stays (push_stays ..)
  refine ⟨whole.toAttends.proceeds numbered none, fun m member => ?_⟩
  exact List.mem_singleton.mp (whole.entered ▸ member)

theorem receive_stays (b : Broker) (peer : PeerId) (p : Packet) :
    Stays b (b.receive peer p).1 := by
  unfold receive
  split
  · exact .refl b
  · rename_i x known
    split
    · exact putPeer_stays known rfl
    · exact .refl b

theorem collect_stays (b : Broker) (peer : PeerId) : Stays b (b.collect peer).1 := by
  unfold collect
  split
  · exact .refl b
  · rename_i x known
    exact putPeer_stays known rfl

theorem kickClient_stays (b : Broker) (s : Session) : Stays b (b.kickClient s).1 := by
  unfold kickClient
  split
  · exact .refl b
  · exact kick_stays ..

theorem moved_passes (numbered : b.Numbered) (m : Move)
    (other : ∀ peer late, m ≠ .serve peer late) :
    Passes b (b.overtaken m) m.cause (b.moved m) := by
  have stays : ∀ {m}, Stays b (b.moved m) → Passes b none m.cause (b.moved m) :=
    fun same => same.passes numbered _
  cases m with
  | serve peer late => exact absurd rfl (other peer late)
  | openLink address commonName uuid =>
      have opened := newLink_proceeds numbered
        (x := { link := { address, commonName }
                stage := .greeting (b.now + b.settings.mqtt.connectTimeout)
                uuid }) rfl none
      refine ⟨opened, ?_⟩
      have nothing : b.entered (b.moved (.openLink address commonName uuid)) = [] :=
        entered_beside rfl
      simp [nothing]
  | attach address c unique bound => exact attach_passes numbered address c unique bound
  | stop => exact stop_passes numbered
  | publish p => exact publishFor_passes numbered p
  | push uid p granted => exact pushFor_passes numbered uid p granted
  | resumeCallers =>
      have resumed := b.resumeCallers_replays
      exact ⟨resumed.toAttends.proceeds numbered none, resumed.explained⟩
  | wait now clock => exact numbered.passes _ rfl rfl rfl rfl rfl
  | receive peer p => exact stays (b.receive_stays peer p)
  | collect peer => exact stays (b.collect_stays peer)
  | deliver conn =>
      refine stays ?_
      simp only [moved]
      cases known : b.connections.get? conn with
      | none => exact .refl b
      | some c =>
          have own : c.id = conn := numbered.keyed conn c known
          exact deliver_stays (own.symm ▸ known)
  | subscribe uid filter qos =>
      refine stays ?_
      simp only [moved]
      cases done : b.subscribe uid filter qos with
      | error e => exact .refl b
      | ok after => exact subscribe_stays done
  | unsubscribe uid filter =>
      refine stays ?_
      simp only [moved]
      cases done : b.unsubscribe uid filter with
      | error e => exact .refl b
      | ok after => exact unsubscribe_stays done
  | persist uid =>
      refine stays ?_
      simp only [moved]
      cases done : b.persist uid with
      | error e => exact .refl b
      | ok after => exact persist_stays done
  | kick s => exact stays (b.kickClient_stays s)
  | breakLink peer => exact stays (b.closeLink_stays peer)
  | abandonLink peer => exact stays (b.modifyPeer_stays peer _ fun _ => rfl)
  | turn uid act => exact stays (b.withQueue_stays uid act)
  | detach conn uid => exact stays ((b.cancel_stays conn).trans (release_stays ..))
  | acknowledge uid id => exact stays (b.acknowledge_stays uid id)
  | close uid cleanup => exact stays (b.closeSession_stays uid cleanup)
  | destroy uid => exact stays (b.destroy_stays uid)
  | closeSessions => exact stays b.closeSessions_stays
  | store storage => exact stays (stays_beside rfl)

/-! The broker in time -/

def Comes (b b' : Broker) : Prop := ∃ moves : List Move, moves.foldl moved b = b'

theorem Comes.refl (b : Broker) : Comes b b := ⟨[], rfl⟩

theorem Comes.one (b : Broker) (m : Move) : Comes b (b.moved m) := ⟨[m], rfl⟩

theorem Comes.trans {b'' : Broker} (first : Comes b b') (second : Comes b' b'') : Comes b b'' := by
  obtain ⟨moves, rfl⟩ := first
  obtain ⟨more, rfl⟩ := second
  exact ⟨moves ++ more, List.foldl_append⟩

theorem Comes.each {α : Type} {act : Broker → α → Broker} (one : ∀ b a, Comes b (act b a))
    (all : List α) (b : Broker) : Comes b (all.foldl act b) := by
  induction all generalizing b with
  | nil => exact .refl b
  | cons a rest ih => exact (one b a).trans (ih _)

theorem Comes.eachTurn {α : Type} {act : Broker × Bool → α → Broker × Bool}
    (one : ∀ x a, Comes x.1 (act x a).1) (all : List α) (x : Broker × Bool) :
    Comes x.1 (all.foldl act x).1 := by
  induction all generalizing x with
  | nil => exact .refl x.1
  | cons a rest ih => exact (one x a).trans (ih _)

theorem round_comes (b : Broker) : Comes b b.round.1 := by
  have queues : Comes b b.settleQueues := by
    refine Comes.each (fun x uid => ?_) _ b
    exact .one x (.turn uid fun q m => q.settle m x.now x.clock)
  have delivered : Comes b.settleQueues b.settleQueues.settleDeliveries.1 := by
    refine Comes.eachTurn (fun x conn => ?_) _ (b.settleQueues, false)
    have one := Comes.one x.1 (.deliver conn)
    simp only [moved] at one
    dsimp only
    split
    · rename_i known
      rw [known] at one
      exact one
    · exact .refl x.1
  have served : ∀ x : Broker, Comes x x.servePeers.1 := by
    intro x
    refine Comes.eachTurn (fun x peer => ?_) _ (x, false)
    have one := Comes.one x.1 (.serve peer false)
    simp only [moved] at one
    dsimp only
    split
    · rename_i after
      rw [show (x.1.peers.get? peer).bind (x.1.serve peer false) = _ from after] at one
      exact one
    · exact .refl x.1
  exact ((queues.trans delivered).trans (served _)).trans (.one _ .resumeCallers)

theorem settle_comes (b : Broker) : Comes b b.settle := by
  unfold settle
  generalize b.work = fuel
  induction fuel generalizing b with
  | zero => exact .refl b
  | succ fuel ih =>
      have one := b.round_comes
      unfold rounds
      split
      · rename_i same
        rw [same] at one
        exact one.trans (ih _)
      · rename_i same
        rw [same] at one
        exact one

theorem tick_comes (b : Broker) : Comes b b.tick := by
  refine Comes.each (fun x uid => ?_) _ b
  exact .one x (.turn uid fun q m => q.tick m x.now x.clock)

theorem passTo_comes (now target : Nat) (b : Broker) : Comes b (passTo now target b) := by
  fun_induction passTo now target b with
  | case1 now b _ => exact .one b (.wait target b.clock)
  | case2 now b _ _ _ _ => exact .one b (.wait target b.clock)
  | case3 now b _ _ next _ ih =>
      have waited := Comes.one b (.wait next b.clock)
      exact ((waited.trans (tick_comes _)).trans (settle_comes _)).trans ih

theorem advance_comes (b : Broker) (millis : Nat) : Comes b (b.advance millis) :=
  b.settle_comes.trans (passTo_comes ..)

theorem drain_comes (n : Nat) (b : Broker) : Comes b (drain n b) := by
  induction n generalizing b with
  | zero => exact .refl b
  | succ n ih =>
      unfold drain
      split
      · exact .refl b
      · exact (b.advance_comes 10).trans (ih _)

theorem shutDown_comes (b : Broker) : Comes b b.shutDown := by
  unfold shutDown
  split
  · exact .refl b
  · rename_i running
    have stopped := Comes.one b .stop
    simp only [moved, stop, running, Bool.false_eq_true, if_false] at stopped
    refine (((stopped.trans (drain_comes 500 _)).trans (.one _ .closeSessions)).trans ?_).trans
      (settle_comes _)
    exact .one _ (.store _)

end Broker

end MqttBroker
