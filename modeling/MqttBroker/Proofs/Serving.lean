import MqttBroker.Proofs.Attendance
import MqttBroker.Proofs.Refusals

/-!
One step with a link. The client that is served by way of it is served on, or it is gone, and what
is published then is its last will or nothing.
-/

namespace MqttBroker

def Stage.client? : Stage → Option Served
  | .accepted c _ _ _ => some c
  | .serving c _ => some c
  | .busy c _ => some c
  | _ => none

def Link.Received.packet? : Link.Received → Option Packet
  | .packet p => some p
  | _ => none

def Packet.connect? : Packet → Option Connect
  | .connect p => some p
  | _ => none

def Peer.greets (x : Peer) : Option Connect :=
  match x.stage with
  | .greeting _ => if x.orphaned then none else x.link.receive.2.packet?.bind Packet.connect?
  | _ => none

def Packet.isDisconnect : Packet → Bool
  | .disconnect => true
  | _ => false

structure Parting where
  client : Served
  /-- The last packet that was received from it is DISCONNECT. -/
  graceful : Bool
  overtaken : Bool
  down : Bool
  clock : Int64

/-- What is published on behalf of a client that is gone. -/
def Parting.messages (t : Parting) : List Publish :=
  if t.graceful || t.overtaken || t.down then []
  else (t.client.will.map fun w => (w.toPublish t.clock).announced).toList

namespace Broker

variable {b b' b'' : Broker}

def attended (b : Broker) (peer : PeerId) : Option Served := (b.stage? peer).bind Stage.client?

def marked (b : Broker) (conn : ConnectionId) : Bool := (b.handle? conn).any Prod.snd

theorem marked_eq (b : Broker) (conn : ConnectionId) :
    b.marked conn = (b.connections.get? conn).any Connection.resumed := by
  unfold marked handle?
  cases b.connections.get? conn <;> rfl

/-! Links at their stages -/

structure Turn (b : Broker) (peer : PeerId) (b' : Broker) : Prop where
  others : ∀ other, other ≠ peer → b'.stage? other = b.stage? other
  linked : (b'.stage? peer).isSome = (b.stage? peer).isSome
  handle? : b'.handle? = b.handle?
  nextPeer : b'.nextPeer = b.nextPeer
  nextConnection : b'.nextConnection = b.nextConnection
  shuttingDown : b'.shuttingDown = b.shuttingDown
  clock : b'.clock = b.clock

theorem Attends.turn (attends : Attends b b') (peer : PeerId) : Turn b peer b' where
  others _ _ := congrFun attends.stage? _
  linked := by rw [attends.stage?]
  handle? := attends.handle?
  nextPeer := attends.nextPeer
  nextConnection := attends.nextConnection
  shuttingDown := attends.shuttingDown
  clock := attends.clock

theorem Turn.trans {peer : PeerId} (first : Turn b peer b') (second : Turn b' peer b'') :
    Turn b peer b'' where
  others other different := (second.others other different).trans (first.others other different)
  linked := second.linked.trans first.linked
  handle? := second.handle?.trans first.handle?
  nextPeer := second.nextPeer.trans first.nextPeer
  nextConnection := second.nextConnection.trans first.nextConnection
  shuttingDown := second.shuttingDown.trans first.shuttingDown
  clock := second.clock.trans first.clock

theorem setStage_stage? (b : Broker) (peer other : PeerId) (stage : Stage) :
    (b.setStage peer stage).stage? other =
      if other = peer then (b.stage? peer).map fun _ => stage else b.stage? other := by
  simp only [Broker.stage?, setStage, Table.get?_modify]
  split
  · rename_i same
    rw [same, Option.map_map, Option.map_map]
    rfl
  · rfl

theorem setStage_turn (b : Broker) (peer : PeerId) (stage : Stage) :
    Turn b peer (b.setStage peer stage) where
  others other different := by rw [setStage_stage?, if_neg different]
  linked := by rw [setStage_stage?, if_pos rfl, Option.isSome_map]
  handle? := rfl
  nextPeer := rfl
  nextConnection := rfl
  shuttingDown := rfl
  clock := rfl

theorem conclude_turn (b : Broker) (peer : PeerId) (result : Except Failure Unit) :
    Turn b peer (b.conclude peer result) :=
  let ⟨others, linked, _, _, _, _, _⟩ := b.setStage_turn peer .ended
  ⟨others, linked, rfl, rfl, rfl, rfl, rfl⟩

theorem setStage_attended (b : Broker) (peer : PeerId) (stage : Stage) :
    (b.setStage peer stage).attended peer = (b.stage? peer).bind fun _ => stage.client? := by
  rw [attended, setStage_stage?, if_pos rfl]
  cases b.stage? peer <;> rfl

theorem setStage_unattended (b : Broker) (peer : PeerId) {stage : Stage}
    (nobody : stage.client? = none) : (b.setStage peer stage).attended peer = none := by
  rw [setStage_attended, nobody]
  cases b.stage? peer <;> rfl

theorem conclude_unattended (b : Broker) (peer : PeerId) (result : Except Failure Unit) :
    (b.conclude peer result).attended peer = none :=
  b.setStage_unattended peer rfl

/-! The client of a link -/

/-- A client is served on, or is gone and what is to be published then has been entered. -/
structure Hosts (b : Broker) (peer : PeerId) (c : Served) (graceful : Bool) (cause : Cause)
    (b' : Broker) : Prop extends Turn b peer b' where
  outcome : b'.attended peer = some c ∧ (∀ m ∈ b.entered b', cause.Explains m) ∨
    b'.attended peer = none ∧ b.entered b' =
      Parting.messages ⟨c, graceful, b.marked c.conn, b.shuttingDown, b.clock⟩

theorem Stays.hosts {peer : PeerId} {c : Served} {graceful : Bool} {cause : Cause}
    (stays : Stays b b') (hosts : Hosts b' peer c graceful cause b'') :
    Hosts b peer c graceful cause b'' where
  toTurn := (stays.toAttends.turn peer).trans hosts.toTurn
  outcome := by
    have same : b'.entered b'' = b.entered b'' := entered_congr stays.next rfl rfl
    have marked : b'.marked c.conn = b.marked c.conn := by
      unfold Broker.marked
      rw [stays.handle?]
    rw [← same, ← marked, ← stays.shuttingDown, ← stays.clock]
    exact hosts.outcome

theorem Attends.hosts_on {peer : PeerId} {c : Served} {cause : Cause} (attends : Attends b b')
    (explained : ∀ m ∈ b.entered b', cause.Explains m) (linked : (b.stage? peer).isSome)
    {stage : Stage} (client : stage.client? = some c) (graceful : Bool) :
    Hosts b peer c graceful cause (b'.setStage peer stage) where
  toTurn := (attends.turn peer).trans (b'.setStage_turn peer stage)
  outcome := by
    refine Or.inl ⟨?_, explained⟩
    obtain ⟨before, there⟩ := Option.isSome_iff_exists.mp linked
    rw [setStage_attended, attends.stage?, there]
    exact client

theorem Stays.hosts_on {peer : PeerId} {c : Served} (stays : Stays b b')
    (linked : (b.stage? peer).isSome) {stage : Stage} (client : stage.client? = some c)
    (graceful : Bool) (cause : Cause) :
    Hosts b peer c graceful cause (b'.setStage peer stage) :=
  stays.toAttends.hosts_on (by simp [stays.entered]) linked client graceful

theorem publishWill_entered (b : Broker) (c : Served) :
    Attends b (b.publishWill c).1 ∧ b.entered (b.publishWill c).1 =
      if b.marked c.conn then []
      else (c.will.map fun w => (w.toPublish b.clock).announced).toList := by
  unfold publishWill
  rw [marked_eq]
  cases c.will with
  | none => exact ⟨.refl b, by simp [(Stays.refl b).entered]⟩
  | some w =>
      dsimp only
      split
      · exact ⟨.refl b, (Stays.refl b).entered⟩
      · have published := b.publish_publishes (w.toPublish b.clock) .silent
        exact ⟨published.toAttends, published.entered⟩

theorem forget_entered (b b' : Broker) (peer : PeerId) (c : Served) (result : Except Failure Unit) :
    b.entered (b'.forget peer c result) = b.entered b' :=
  entered_congr rfl (b'.release_stays c.uid c.conn).next (b'.release_stays c.uid c.conn).messageOf

theorem forget_turn (b : Broker) (peer : PeerId) (c : Served) (result : Except Failure Unit) :
    Turn b peer (b.forget peer c result) :=
  ((b.release_stays c.uid c.conn).toAttends.turn peer).trans (conclude_turn ..)

theorem leave_hosts (keyed : b.Keyed) (peer : PeerId) (c : Served) (result : Except Failure Unit)
    (graceful : Bool) (cause : Cause) :
    Hosts b peer c graceful cause (b.leave peer c result graceful) := by
  refine ((hangUp_stays keyed peer c).trans (dismiss_stays _ c)).hosts ?_
  unfold leave
  dsimp only
  generalize (b.hangUp peer c).dismiss c = b
  split
  · rename_i down
    refine ⟨b.conclude_turn peer result, Or.inr ⟨b.conclude_unattended peer result, ?_⟩⟩
    simp only [Parting.messages, down, Bool.or_true, if_true]
    exact (Stays.refl b).entered
  rename_i running
  have running : b.shuttingDown = false := by simpa using running
  split
  · rename_i graceful
    have dropped := b.dropWill_stays c
    refine ⟨(dropped.toAttends.turn peer).trans (forget_turn ..),
      Or.inr ⟨conclude_unattended .., ?_⟩⟩
    simp only [forget_entered, dropped.entered, Parting.messages, graceful, Bool.true_or, if_true]
  rename_i lost
  have lost : graceful = false := by simpa using lost
  have messages : Parting.messages ⟨c, graceful, b.marked c.conn, b.shuttingDown, b.clock⟩ =
      if b.marked c.conn then []
      else (c.will.map fun w => (w.toPublish b.clock).announced).toList := by
    simp only [Parting.messages, lost, running, Bool.false_or, Bool.or_false]
  obtain ⟨attends, entered⟩ := b.publishWill_entered c
  rw [← messages] at entered
  generalize b.publishWill c = after at attends entered
  obtain ⟨next, paused⟩ := after
  cases paused with
  | none =>
      exact ⟨(attends.turn peer).trans (forget_turn ..), Or.inr ⟨conclude_unattended ..,
        (forget_entered ..).trans entered⟩⟩
  | some job =>
      exact ⟨(attends.turn peer).trans (setStage_turn ..), Or.inr ⟨setStage_unattended _ _ rfl,
        entered⟩⟩

theorem welcome_hosts (keyed : b.Keyed) {peer : PeerId} {c : Served}
    (linked : (b.stage? peer).isSome) (known : (b.handle? c.conn).isSome) (present : Bool)
    (cause : Cause) : Hosts b peer c false cause (b.welcome peer c present) := by
  have sent := b.sendTo_stays peer (.connectAck present .accepted)
  unfold welcome
  generalize b.sendTo peer (.connectAck present .accepted) = after at sent
  obtain ⟨next, result⟩ := after
  cases result with
  | error e => exact sent.hosts (leave_hosts (sent.keyed keyed) ..)
  | ok _ =>
      dsimp only
      split
      · rename_i x there
        have own : x.id = c.conn := sent.keyed keyed _ _ there
        have begun := sent.trans (beginDelivery_stays (own ▸ there) c.uid)
        exact begun.hosts_on linked rfl false cause
      · rename_i unknown
        rw [← sent.handle?, handle?, unknown] at known
        cases known

theorem onPacket_hosts (keyed : b.Keyed) {peer : PeerId} (linked : (b.stage? peer).isSome)
    (c : Served) (p : Packet) :
    Hosts b peer c p.isDisconnect p.cause (b.onPacket peer c p) := by
  unfold onPacket
  split
  · exact leave_hosts keyed ..
  · rename_i other
    have on : p.isDisconnect = false := by
      cases p <;> first | rfl | exact absurd rfl other
    have processed := b.process_processes peer c p
    rw [on]
    split
    · rename_i done
      rw [done] at processed
      exact processed.toAttends.hosts_on processed.explained linked rfl false
    · rename_i e failed
      rw [failed] at processed
      have same := processed.failed e rfl
      exact same.hosts (leave_hosts (same.keyed keyed) ..)
    · rename_i job paused
      rw [paused] at processed
      exact processed.toAttends.hosts_on processed.explained linked rfl false

/-! What a step with a link is about -/

/-- The packet that the next step with a link takes up. -/
def takes (b : Broker) (late : Bool) (x : Peer) : Option Packet :=
  match x.stage with
  | .greeting _ => x.link.receive.2.packet?
  | .serving c _ => if b.isCancelled c.conn && !late then none else x.link.receive.2.packet?
  | _ => none

def reason (b : Broker) (late : Bool) (x : Peer) : Cause :=
  ((b.takes late x).map Packet.cause).getD .replay

def departs (b : Broker) (late : Bool) (x : Peer) : Bool := (b.takes late x).any Packet.isDisconnect

def accepts (b : Broker) (p : Connect) (commonName : Option String) (uuid : String)
    (peer : PeerId) : Option Served :=
  match b.acceptClient p commonName uuid peer with
  | (b, .ok (client, conn, _)) =>
    some { conn, uid := client.uid, grants := client.grants, will := p.lastWill,
           keepalive := b.settings.mqtt.keepaliveTimeout p.keepAlive }
  | (_, .error _) => none

def supplants (b : Broker) (p : Connect) (commonName : Option String) (uuid : String)
    (peer : PeerId) : Option ConnectionId :=
  match b.checkConnect p commonName uuid with
  | .ok (claim, _) => (b.connected peer).overtakes claim (some b.nextConnection) true
  | .error _ => none

def newcomer (b : Broker) (peer : PeerId) (x : Peer) : Option Served :=
  x.greets.bind fun p =>
    (b.putPeer peer { x with link := x.link.receive.1 }).accepts p x.link.receive.1.commonName
      x.uuid peer

def resumes (b : Broker) (peer : PeerId) (x : Peer) : Option ConnectionId :=
  x.greets.bind fun p => b.supplants p x.link.receive.1.commonName x.uuid peer

theorem serve_hosts (keyed : b.Keyed) {peer : PeerId} {x : Peer} {c : Served} (late : Bool)
    (present : b.peers.get? peer = some x) (client : x.stage.client? = some c)
    (known : (b.handle? c.conn).isSome) :
    Hosts b peer c (b.departs late x) (b.reason late x) ((b.serve peer late x).getD b) := by
  have here : b.stage? peer = some x.stage := by rw [stage?, present, Option.map_some]
  have linked : (b.stage? peer).isSome := here ▸ rfl
  have idle : ∀ graceful cause, Hosts b peer c graceful cause b := by
    intro graceful cause
    refine ⟨(Attends.refl b).turn peer, Or.inl ⟨?_, by simp [(Stays.refl b).entered]⟩⟩
    rw [attended, here]
    exact client
  unfold departs reason takes serve
  obtain ⟨link, stage, orphaned, uuid⟩ := x
  cases stage with
  | accepted own answered earlier deadline =>
      cases client
      dsimp only
      split
      · exact welcome_hosts keyed linked known answered .replay
      · exact idle ..
  | serving own deadline =>
      cases client
      dsimp only
      split
      · exact leave_hosts keyed ..
      · generalize received : link.receive = r
        obtain ⟨link', found⟩ := r
        cases found with
        | packet p =>
            have taken : Stays b (b.putPeer peer ⟨link', .serving c deadline, orphaned, uuid⟩) :=
              putPeer_stays present rfl
            refine taken.hosts (onPacket_hosts (taken.keyed keyed) ?_ c p)
            rw [taken.stage?]
            exact linked
        | ended => exact leave_hosts keyed ..
        | nothing =>
            dsimp only
            split
            · exact leave_hosts keyed ..
            · exact idle ..
  | busy own job =>
      cases client
      dsimp only
      split
      · exact idle ..
      · have replayed := resume_replays job.rest b
        split
        · rename_i done
          rw [done] at replayed
          exact replayed.toAttends.hosts_on replayed.explained linked rfl false
        · rename_i paused
          rw [paused] at replayed
          exact replayed.toAttends.hosts_on replayed.explained linked rfl false
  | _ => cases client

/-! How a broker proceeds -/

structure Numbered (b : Broker) : Prop where
  keyed : b.Keyed
  connections : ∀ conn, (b.handle? conn).isSome → conn < b.nextConnection
  links : ∀ peer, (b.stage? peer).isSome → peer < b.nextPeer

/-- All but one link have the clients that they had, and one connection may have been taken over. -/
structure Proceeds (b : Broker) (visited : Option PeerId) (taken : Option ConnectionId)
    (b' : Broker) : Prop where
  numbered : b'.Numbered
  attended : ∀ peer, visited ≠ some peer → b'.attended peer = b.attended peer
  known : ∀ conn, (b.handle? conn).isSome → (b'.handle? conn).isSome
  marked : ∀ conn, (b.handle? conn).isSome →
    b'.marked conn = (b.marked conn || decide (taken = some conn))
  next : b.nextConnection ≤ b'.nextConnection
  taken : ∀ conn, taken = some conn → conn < b'.nextConnection

variable {visited : Option PeerId} {taken : Option ConnectionId}

theorem Proceeds.before (first : Proceeds b visited none b')
    (second : Proceeds b' visited taken b'') : Proceeds b visited taken b'' where
  numbered := second.numbered
  attended peer other := (second.attended peer other).trans (first.attended peer other)
  known conn there := second.known conn (first.known conn there)
  marked conn there := by
    rw [second.marked conn (first.known conn there), first.marked conn there]
    simp
  next := first.next.trans second.next
  taken := second.taken

theorem Proceeds.after (first : Proceeds b visited taken b')
    (second : Proceeds b' visited none b'') : Proceeds b visited taken b'' where
  numbered := second.numbered
  attended peer other := (second.attended peer other).trans (first.attended peer other)
  known conn there := second.known conn (first.known conn there)
  marked conn there := by
    rw [second.marked conn (first.known conn there), first.marked conn there]
    simp
  next := first.next.trans second.next
  taken conn same := (first.taken conn same).trans_le second.next

theorem Turn.proceeds {peer : PeerId} (turn : Turn b peer b') (numbered : b.Numbered) :
    Proceeds b (some peer) none b' where
  numbered := by
    refine ⟨numbered.keyed.of_number? ?_, fun conn known => ?_, fun other there => ?_⟩
    · unfold number?
      rw [turn.handle?]
    · rw [turn.handle?] at known
      exact (numbered.connections conn known).trans_eq turn.nextConnection.symm
    · refine (numbered.links other ?_).trans_eq turn.nextPeer.symm
      by_cases same : other = peer
      · rw [same] at there ⊢
        exact turn.linked ▸ there
      · exact turn.others other same ▸ there
  attended other different := by
    rw [attended, attended, turn.others other fun same => different (congrArg some same.symm)]
  known conn there := turn.handle? ▸ there
  marked conn _ := by
    rw [marked, marked, turn.handle?]
    simp
  next := turn.nextConnection.ge
  taken _ none := nomatch none

theorem Numbered.proceeds (numbered : b.Numbered) (visited : Option PeerId)
    (stage? : b'.stage? = b.stage?) (handle? : b'.handle? = b.handle?)
    (nextPeer : b'.nextPeer = b.nextPeer) (nextConnection : b'.nextConnection = b.nextConnection) :
    Proceeds b visited none b' where
  numbered := ⟨numbered.keyed.of_number? (by unfold number?; rw [handle?]),
    fun conn known => (numbered.connections conn (handle? ▸ known)).trans_eq nextConnection.symm,
    fun peer there => (numbered.links peer (stage? ▸ there)).trans_eq nextPeer.symm⟩
  attended peer _ := by rw [attended, attended, stage?]
  known conn there := handle? ▸ there
  marked conn _ := by
    rw [marked, marked, handle?]
    simp
  next := nextConnection.ge
  taken _ none := nomatch none

theorem Attends.proceeds (attends : Attends b b') (numbered : b.Numbered)
    (visited : Option PeerId) : Proceeds b visited none b' :=
  numbered.proceeds visited attends.stage? attends.handle? attends.nextPeer attends.nextConnection

theorem TakesOver.proceeds (takes : TakesOver b taken b') (numbered : b.Numbered)
    (visited : Option PeerId) : Proceeds b visited taken b' := by
  have handled : ∀ conn, b'.number? conn = b.number? conn ∧
      ((b.handle? conn).isSome →
        b'.marked conn = (b.marked conn || decide (taken = some conn))) := by
    intro conn
    by_cases same : taken = some conn
    · obtain ⟨handle, before, after⟩ := takes.ended conn same
      simp [number?, marked, before, after, same]
    · rw [number?, number?, marked, marked, takes.kept conn same]
      simp [same]
  have known : ∀ conn, (b'.handle? conn).isSome = (b.handle? conn).isSome := by
    intro conn
    simpa [number?] using congrArg Option.isSome (handled conn).1
  refine ⟨⟨?_, fun conn there => ?_, fun peer there => ?_⟩, fun peer _ => ?_, fun conn there => ?_,
    fun conn => (handled conn).2, takes.nextConnection.ge, fun conn same => ?_⟩
  · exact numbered.keyed.of_number? (funext fun conn => (handled conn).1)
  · exact (numbered.connections conn (known conn ▸ there)).trans_eq takes.nextConnection.symm
  · exact (numbered.links peer (takes.stage? ▸ there)).trans_eq takes.nextPeer.symm
  · rw [attended, attended, takes.stage?]
  · exact (known conn).symm ▸ there
  · obtain ⟨handle, before, _⟩ := takes.ended conn same
    exact (numbered.connections conn (before ▸ rfl)).trans_eq takes.nextConnection.symm

/-! Clients that are new -/

theorem newConnection_proceeds (numbered : b.Numbered) (visited : Option PeerId) :
    Proceeds b visited none b.newConnection.1 where
  numbered := ⟨numbered.keyed, fun conn known => (numbered.connections conn known).trans
    (Nat.lt_succ_self _), numbered.links⟩
  attended _ _ := rfl
  known _ known := known
  marked conn _ := by
    change b.marked conn = _
    simp
  next := Nat.le_succ _
  taken _ none := nomatch none

theorem connected_handle? (b : Broker) (peer : PeerId) (conn : ConnectionId) :
    (b.connected peer).handle? conn =
      if conn = b.nextConnection then some (conn, false) else b.handle? conn := by
  simp only [Broker.handle?, connected, newConnection, putConnection, Table.get?_insert]
  split
  · rename_i same
    rw [Option.map_some, same]
  · rfl

theorem connected_proceeds (numbered : b.Numbered) (peer : PeerId) (visited : Option PeerId) :
    Proceeds b visited none (b.connected peer) where
  numbered := by
    refine ⟨?_, fun conn known => ?_, numbered.links⟩
    · have keyed := b.keyed_iff.mp numbered.keyed
      refine (keyed_iff _).mpr fun conn id known => ?_
      rw [number?, connected_handle?] at known
      split at known
      · cases known
        rfl
      · exact keyed conn id known
    · rw [connected_handle?] at known
      split at known
      · rename_i last
        exact last ▸ Nat.lt_succ_self _
      · exact (numbered.connections conn known).trans (Nat.lt_succ_self _)
  attended _ _ := rfl
  known conn known := by
    rw [connected_handle?]
    split
    · rfl
    · exact known
  marked conn known := by
    have earlier := numbered.connections conn known
    rw [marked, connected_handle?, if_neg (Nat.ne_of_lt earlier)]
    simp [marked]
  next := Nat.le_succ _
  taken _ none := nomatch none

theorem Stays.concludes (stays : Stays b b') (peer : PeerId) (result : Except Failure Unit) :
    Turn b peer (b'.conclude peer result) ∧ (b'.conclude peer result).attended peer = none ∧
      b.entered (b'.conclude peer result) = [] :=
  ⟨(stays.toAttends.turn peer).trans (conclude_turn ..), conclude_unattended ..,
    (entered_congr rfl rfl rfl).trans stays.entered⟩

theorem refuse_turn (b : Broker) (peer : PeerId) (e : Failure) :
    Turn b peer (b.refuse peer e) ∧ (b.refuse peer e).attended peer = none ∧
      b.entered (b.refuse peer e) = [] := by
  unfold refuse
  dsimp only
  refine Stays.concludes (Stays.trans ?_ (closeLink_stays ..)) ..
  split
  · exact sendTo_stays ..
  · exact .refl b

theorem accept_orphaned (b : Broker) (peer : PeerId) {x : Peer} (orphaned : x.orphaned = true)
    (p : Connect) : ∃ e, b.accept peer x p = b.refuse peer e := by
  unfold accept
  simp only [orphaned, if_true]
  split
  · exact ⟨_, rfl⟩
  · exact ⟨_, rfl⟩

theorem takeOn_hosts (keyed : b.Keyed) {peer : PeerId} (linked : (b.stage? peer).isSome)
    (p : Connect) (client : Client) {conn : ConnectionId} (known : (b.handle? conn).isSome)
    (claimed : Claimed) (cause : Cause) :
    Hosts b peer
      { conn, uid := client.uid, grants := client.grants, will := p.lastWill,
        keepalive := b.settings.mqtt.keepaliveTimeout p.keepAlive } false cause
      (b.takeOn peer p client conn claimed) := by
  let entered : Broker := { b with
    served := b.served ++ [conn]
    stats := { b.stats with connections := b.stats.connections.increment } }
  have counted : Stays b entered := stays_beside rfl
  unfold takeOn
  dsimp only
  split
  · exact counted.hosts_on linked rfl false cause
  · refine counted.hosts (welcome_hosts (counted.keyed keyed) linked ?_ claimed.present cause)
    exact known

structure Answers (b : Broker) (peer : PeerId) (p : Connect) (commonName : Option String)
    (uuid : String) (b' : Broker) : Prop where
  proceeds : Proceeds b (some peer) (b.supplants p commonName uuid peer) b'
  refused : b.accepts p commonName uuid peer = none → b'.attended peer = none ∧ b.entered b' = []
  number : ∀ c, b.accepts p commonName uuid peer = some c → c.conn = b.nextConnection
  known : ∀ c, b.accepts p commonName uuid peer = some c → (b'.handle? c.conn).isSome
  marked : ∀ c, b.accepts p commonName uuid peer = some c →
    b'.marked c.conn = decide (b.supplants p commonName uuid peer = some c.conn)
  outcome : ∀ c, b.accepts p commonName uuid peer = some c →
    b'.attended peer = some c ∧ (∀ m ∈ b.entered b', Cause.replay.Explains m) ∨
      b'.attended peer = none ∧ b.entered b' =
        Parting.messages ⟨c, false, b'.marked c.conn, b.shuttingDown, b.clock⟩

theorem acceptClient_unchecked {p : Connect} {commonName : Option String} {uuid : String}
    {e : Failure}
    (checked : b.checkConnect p commonName uuid = .error e) (peer : PeerId) :
    b.acceptClient p commonName uuid peer = (b.newConnection.1, .error e) := by
  have asked : b.newConnection.1.checkConnect p commonName uuid = .error e := checked
  simp only [acceptClient, asked]

theorem acceptClient_checked {p : Connect} {commonName : Option String} {uuid : String} {c : Claim}
    {grants : Grants} {peer : PeerId} {result : Except Failure Claimed}
    (checked : b.checkConnect p commonName uuid = .ok (c, grants))
    (claimed : (b.connected peer).claim c (some b.nextConnection) true = (b', result)) :
    b.acceptClient p commonName uuid peer = (b', result.map fun claimed =>
      ({ uid := claimed.uid, principal := c.principal, grants }, b.nextConnection, claimed)) := by
  have asked : b.newConnection.1.checkConnect p commonName uuid = .ok (c, grants) :=
    checked
  have settled : (b.newConnection.1.putConnection { id := b.newConnection.2, peer }).claim c
      (some b.newConnection.2) true = (b', result) := claimed
  simp only [acceptClient, asked, settled]
  cases result <;> rfl

theorem refused_answers {peer : PeerId} {p : Connect} {commonName : Option String} {uuid : String}
    {e : Failure}
    (refused : b.acceptClient p commonName uuid peer = (b', .error e))
    (proceeds : Proceeds b (some peer) (b.supplants p commonName uuid peer) b')
    (next : b'.events.next = b.events.next) :
    Answers b peer p commonName uuid (b'.refuse peer e) := by
  have nobody : b.accepts p commonName uuid peer = none := by rw [accepts, refused]
  obtain ⟨turn, unattended, nothing⟩ := b'.refuse_turn peer e
  have entered : b.entered (b'.refuse peer e) = [] :=
    (entered_congr next.symm rfl rfl).trans nothing
  refine ⟨proceeds.after (turn.proceeds proceeds.numbered), fun _ => ⟨unattended, entered⟩,
    ?_, ?_, ?_, ?_⟩
  all_goals
    intro c accepted
    rw [nobody] at accepted
    cases accepted

theorem accepted_answers {peer : PeerId} {p : Connect} {commonName : Option String} {uuid : String}
    {c : Served}
    {claimed : Broker} (accepted : b.accepts p commonName uuid peer = some c)
    (number : c.conn = b.nextConnection)
    (proceeds : Proceeds b (some peer) (b.supplants p commonName uuid peer) claimed)
    (next : claimed.events.next = b.events.next)
    (shuttingDown : claimed.shuttingDown = b.shuttingDown) (clock : claimed.clock = b.clock)
    (known : (claimed.handle? c.conn).isSome)
    (marked : claimed.marked c.conn = decide (b.supplants p commonName uuid peer = some c.conn))
    (hosts : Hosts claimed peer c false .replay b') : Answers b peer p commonName uuid b' := by
  have same : b'.marked c.conn = claimed.marked c.conn := by
    rw [Broker.marked, hosts.handle?, Broker.marked]
  have entered : claimed.entered b' = b.entered b' := entered_congr next rfl rfl
  refine
    ⟨proceeds.after (hosts.toTurn.proceeds proceeds.numbered), fun refused => ?_, ?_, ?_, ?_, ?_⟩
  · rw [accepted] at refused
    cases refused
  all_goals
    intro own answered
    cases accepted.symm.trans answered
  · exact number
  · exact hosts.handle? ▸ known
  · exact same.trans marked
  · rw [same, ← shuttingDown, ← clock, ← entered]
    exact hosts.outcome

theorem accept_answers (numbered : b.Numbered) {peer : PeerId} {x : Peer}
    (own : x.orphaned = false) (linked : (b.stage? peer).isSome) (p : Connect) :
    Answers b peer p x.link.commonName x.uuid (b.accept peer x p) := by
  rw [accept_acceptClient b peer own p]
  cases checked : b.checkConnect p x.link.commonName x.uuid with
  | error e =>
      have refused := acceptClient_unchecked checked peer
      have nobody : b.supplants p x.link.commonName x.uuid peer = none := by rw [supplants, checked]
      rw [refused]
      exact refused_answers refused (nobody ▸ newConnection_proceeds numbered _) rfl
  | ok settled =>
      obtain ⟨claim, grants⟩ := settled
      have supplants : b.supplants p x.link.commonName x.uuid peer =
          (b.connected peer).overtakes claim (some b.nextConnection) true := by
        rw [Broker.supplants, checked]
      have opened := connected_proceeds numbered peer (some peer)
      have taken := (b.connected peer).claim_takesOver claim (some b.nextConnection) true
      generalize claimed :
        (b.connected peer).claim claim (some b.nextConnection) true = after at taken
      obtain ⟨next, result⟩ := after
      have proceeds := opened.before (taken.proceeds opened.numbered (some peer))
      rw [← supplants] at taken proceeds
      have answered := acceptClient_checked checked claimed
      rw [answered]
      cases result with
      | error e => exact refused_answers answered proceeds taken.next
      | ok session =>
          have here : ∃ handle, next.handle? b.nextConnection = some handle ∧
              handle.2 =
                decide (b.supplants p x.link.commonName x.uuid peer = some b.nextConnection) := by
            by_cases same : b.supplants p x.link.commonName x.uuid peer = some b.nextConnection
            · obtain ⟨handle, _, marked⟩ := taken.ended _ same
              exact ⟨_, marked, (decide_eq_true same).symm⟩
            · refine ⟨(b.nextConnection, false), (taken.kept _ same).trans ?_,
                (decide_eq_false same).symm⟩
              rw [connected_handle?, if_pos rfl]
          obtain ⟨handle, there, marked⟩ := here
          have known := Option.isSome_of_eq_some there
          refine accepted_answers ?_ rfl proceeds taken.next taken.shuttingDown taken.clock known
            ?_ (takeOn_hosts proceeds.numbered.keyed (taken.stage? ▸ linked) p
              { uid := session.uid, principal := claim.principal, grants } known session .replay)
          · rw [accepts, answered]
            rfl
          · rw [Broker.marked, there]
            exact marked

/-! One step -/

/-- What becomes of a link and its client in a step. -/
structure Visits (b : Broker) (peer : PeerId) (late : Bool) (x : Peer) (b' : Broker) : Prop where
  proceeds : Proceeds b (some peer) (b.resumes peer x) b'
  fresh : ∀ c, b.newcomer peer x = some c → x.stage.client? = none
  number : ∀ c, b.newcomer peer x = some c → c.conn = b.nextConnection
  known : ∀ c, b.newcomer peer x = some c → (b'.handle? c.conn).isSome
  marked : ∀ c, b.newcomer peer x = some c →
    b'.marked c.conn = decide (b.resumes peer x = some c.conn)
  nobody : (b.newcomer peer x).or x.stage.client? = none →
    b'.attended peer = none ∧ ∀ m ∈ b.entered b', (b.reason late x).Explains m
  somebody : ∀ c, (b.newcomer peer x).or x.stage.client? = some c →
    b'.attended peer = some c ∧ (∀ m ∈ b.entered b', (b.reason late x).Explains m) ∨
      b'.attended peer = none ∧ b.entered b' =
        Parting.messages ⟨c, b.departs late x, b'.marked c.conn, b.shuttingDown, b.clock⟩

theorem Hosts.visits {peer : PeerId} {late : Bool} {x : Peer} {c : Served}
    (greets : x.greets = none)
    (client : x.stage.client? = some c) (numbered : b.Numbered)
    (hosts : Hosts b peer c (b.departs late x) (b.reason late x) b') : Visits b peer late x b' := by
  have newcomer : b.newcomer peer x = none := by rw [newcomer, greets, Option.bind_none]
  have resumes : b.resumes peer x = none := by rw [resumes, greets, Option.bind_none]
  refine ⟨resumes ▸ hosts.toTurn.proceeds numbered, ?_, ?_, ?_, ?_, fun nobody => ?_, ?_⟩
  · simp [newcomer]
  · simp [newcomer]
  · simp [newcomer]
  · simp [newcomer]
  · simp [client] at nobody
  · intro own same
    rw [newcomer, Option.none_or, client] at same
    cases same
    rw [Broker.marked, hosts.handle?]
    exact hosts.outcome

theorem Turn.visits {peer : PeerId} {late : Bool} {x : Peer} (greets : x.greets = none)
    (client : x.stage.client? = none) (numbered : b.Numbered) (turn : Turn b peer b')
    (unattended : b'.attended peer = none)
    (explained : ∀ m ∈ b.entered b', (b.reason late x).Explains m) : Visits b peer late x b' := by
  have newcomer : b.newcomer peer x = none := by rw [newcomer, greets, Option.bind_none]
  have resumes : b.resumes peer x = none := by rw [resumes, greets, Option.bind_none]
  refine ⟨resumes ▸ turn.proceeds numbered, ?_, ?_, ?_, ?_, fun _ => ⟨unattended, explained⟩, ?_⟩
  all_goals simp [newcomer, client]

theorem Answers.visits {peer : PeerId} {late : Bool} {x : Peer} {p : Connect}
    (numbered : b.Numbered)
    (present : b.peers.get? peer = some x) (client : x.stage.client? = none)
    (takes : b.takes late x = some (.connect p)) (greets : x.greets = some p)
    (answers : Answers (b.putPeer peer { x with link := x.link.receive.1 }) peer p
      x.link.receive.1.commonName x.uuid b') : Visits b peer late x b' := by
  have newcomer : b.newcomer peer x = (b.putPeer peer { x with link := x.link.receive.1 }).accepts p
      x.link.receive.1.commonName x.uuid peer := by
    rw [newcomer, greets, Option.bind_some]
  have resumes : b.resumes peer x = (b.putPeer peer { x with link := x.link.receive.1 }).supplants p
      x.link.receive.1.commonName x.uuid peer := by
    rw [resumes, greets, Option.bind_some]
    rfl
  have departs : b.departs late x = false := by
    rw [departs, takes]
    rfl
  have reason : b.reason late x = .replay := by
    rw [reason, takes]
    rfl
  have taken : Stays b (b.putPeer peer { x with link := x.link.receive.1 }) :=
    putPeer_stays present rfl
  have entered : (b.putPeer peer { x with link := x.link.receive.1 }).entered b' = b.entered b' :=
    entered_congr taken.next rfl rfl
  obtain ⟨proceeds, refused, number, known, marked, outcome⟩ := answers
  rw [← resumes] at proceeds marked
  rw [← newcomer] at refused number known marked outcome
  rw [entered] at refused outcome
  refine ⟨(taken.toAttends.proceeds numbered _).before proceeds, fun _ _ => client, number, known,
    marked, fun nobody => ?_, fun c somebody => ?_⟩
  · obtain ⟨unattended, nothing⟩ := refused (Option.or_eq_none_iff.mp nobody).1
    exact ⟨unattended, by simp [nothing]⟩
  · rw [client, Option.or_none] at somebody
    rw [reason, departs]
    exact outcome c somebody

theorem idle_visits (numbered : b.Numbered) {peer : PeerId} {late : Bool} {x : Peer}
    (present : b.peers.get? peer = some x) (client : x.stage.client? = none)
    (greets : x.greets = none) : Visits b peer late x b := by
  refine ((Attends.refl b).turn peer).visits greets client numbered ?_
    (by simp [(Stays.refl b).entered])
  rw [attended, stage?, present, Option.map_some, Option.bind_some, client]

theorem Stays.conclude_visits (stays : Stays b b') (numbered : b.Numbered) {peer : PeerId}
    {late : Bool} {x : Peer} (client : x.stage.client? = none) (greets : x.greets = none)
    (result : Except Failure Unit) :
    Visits b peer late x (b'.conclude peer result) := by
  obtain ⟨turn, unattended, nothing⟩ := stays.concludes peer result
  exact turn.visits greets client numbered unattended (by simp [nothing])

theorem greeting_visits (numbered : b.Numbered) {peer : PeerId} {late : Bool} {link : Link}
    {deadline : Nat} {orphaned : Bool} {uuid : String}
    (present : b.peers.get? peer = some ⟨link, .greeting deadline, orphaned, uuid⟩) :
    Visits b peer late ⟨link, .greeting deadline, orphaned, uuid⟩
      ((b.serve peer late ⟨link, .greeting deadline, orphaned, uuid⟩).getD b) := by
  have taken : Stays b (b.putPeer peer ⟨link.receive.1, .greeting deadline, orphaned, uuid⟩) :=
    putPeer_stays present rfl
  have takes : b.takes late ⟨link, .greeting deadline, orphaned, uuid⟩ = link.receive.2.packet? :=
    rfl
  have greets : Peer.greets ⟨link, .greeting deadline, orphaned, uuid⟩ =
      if orphaned then none else link.receive.2.packet?.bind Packet.connect? := rfl
  have ready := (taken.toAttends.proceeds numbered none).numbered
  have linked : ((b.putPeer peer ⟨link.receive.1, .greeting deadline, orphaned, uuid⟩).stage?
      peer).isSome := by
    rw [taken.stage?, stage?, present]
    rfl
  unfold serve
  dsimp only
  generalize received : link.receive = r at taken takes greets ready linked
  obtain ⟨link', found⟩ := r
  cases found with
  | ended =>
      exact (b.closeLink_stays peer).conclude_visits numbered rfl (greets.trans (ite_self _)) _
  | nothing =>
      have nobody := greets.trans (ite_self _)
      dsimp only
      split
      · exact (b.closeLink_stays peer).conclude_visits numbered rfl nobody _
      · exact idle_visits numbered present rfl nobody
  | packet q =>
      cases q with
      | connect p =>
          dsimp only
          cases orphaned with
          | true =>
              obtain ⟨e, refused⟩ := accept_orphaned
                (b.putPeer peer ⟨link', .greeting deadline, true, uuid⟩) peer
                (x := ⟨link', .greeting deadline, true, uuid⟩) rfl p
              obtain ⟨turn, unattended, nothing⟩ := refuse_turn
                (b.putPeer peer ⟨link', .greeting deadline, true, uuid⟩) peer e
              rw [Option.getD_some, refused]
              refine ((taken.toAttends.turn peer).trans turn).visits greets rfl numbered
                unattended ?_
              rw [← entered_congr taken.next rfl rfl, nothing]
              simp
          | false =>
              have answers :=
                accept_answers (x := ⟨link', .greeting deadline, false, uuid⟩) ready rfl
                linked p
              refine Answers.visits numbered present rfl takes greets ?_
              rw [received]
              exact answers
      | _ =>
          exact (taken.trans (closeLink_stays ..)).conclude_visits numbered rfl
            (greets.trans (ite_self _)) _

theorem leaving_visits (numbered : b.Numbered) {peer : PeerId} {late : Bool} {link : Link}
    {c : Served} {result : Except Failure Unit} {job : Paused} {orphaned : Bool} {uuid : String}
    (present : b.peers.get? peer = some ⟨link, .leaving c result job, orphaned, uuid⟩) :
    Visits b peer late ⟨link, .leaving c result job, orphaned, uuid⟩
      ((b.serve peer late ⟨link, .leaving c result job, orphaned, uuid⟩).getD b) := by
  unfold serve
  dsimp only
  split
  · exact idle_visits numbered present rfl rfl
  · have replayed := resume_replays job.rest b
    split
    · rename_i next done
      rw [done] at replayed
      refine ((replayed.toAttends.turn peer).trans (forget_turn next peer c result)).visits rfl
        rfl numbered (conclude_unattended ..) ?_
      rw [Option.getD_some, forget_entered]
      exact replayed.explained
    · rename_i next job paused
      rw [paused] at replayed
      exact ((replayed.toAttends.turn peer).trans (setStage_turn ..)).visits rfl rfl numbered
        (setStage_unattended _ _ rfl) replayed.explained

theorem serve_visits (numbered : b.Numbered) {peer : PeerId} (late : Bool) {x : Peer}
    (present : b.peers.get? peer = some x)
    (known : ∀ c, x.stage.client? = some c → (b.handle? c.conn).isSome) :
    Visits b peer late x ((b.serve peer late x).getD b) := by
  have greets : ∀ c, x.stage.client? = some c → x.greets = none := by
    intro c client
    unfold Peer.greets
    split
    · rename_i waiting
      rw [waiting] at client
      cases client
    · rfl
  cases client : x.stage.client? with
  | some c =>
      have hosts := serve_hosts numbered.keyed late present client (known c client)
      exact hosts.visits (greets c client)
        client numbered
  | none =>
      obtain ⟨link, stage, orphaned, uuid⟩ := x
      cases stage with
      | greeting deadline => exact greeting_visits numbered present
      | leaving c result job => exact leaving_visits numbered present
      | delivering conn uid =>
          unfold serve
          dsimp only
          split
          · exact idle_visits numbered present rfl rfl
          · split
            · exact (Stays.refl b).conclude_visits numbered rfl rfl _
            · exact idle_visits numbered present rfl rfl
      | ended => exact idle_visits numbered present rfl rfl
      | _ => cases client

end Broker

end MqttBroker
