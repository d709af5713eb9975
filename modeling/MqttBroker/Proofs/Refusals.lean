import MqttBroker.Proofs.Destroying
import MqttBroker.Proofs.SessionStates

/-!
What a CONNECT leaves behind that is refused. A client that is turned away for what it asks leaves
the broker as it was. A storage that fails does so when the session of the client has been settled
and bound, or its old session destroyed, and this stays as it is.
-/

namespace MqttBroker

def Session.heldBy (s : Session) (c : Broker.Claim) (conn : ConnectionId) : Session :=
  { s.takenBy c with client := some conn }

namespace Broker

def cutOff (b : Broker) (closes : Bool) : Broker :=
  if closes then { b with storage := b.storage.close } else b

/-- Finds or makes the session for a claim and binds it, while the storage may be closed between
the two. -/
def claimAmid (b : Broker) (c : Claim) (conn : Option ConnectionId) (unique closes : Bool) :
    Broker × Except Failure Claimed :=
  if b.shuttingDown then (b, .error (.protocol .serviceUnavailable))
  else match b.settleClaim c with
    | (b, .error e) => (b, .error (.storage e))
    | (b, .ok (uid, present)) => (b.cutOff closes).takeUp c conn unique uid present

/-- Checks the CONNECT of a client and claims its session for a new connection, while the storage
may be closed in between. -/
def acceptAmid (b : Broker) (p : Connect) (commonName : Option String) (uuid : String)
    (peer : PeerId) (closes : Bool) : Broker × Except Failure (Client × ConnectionId × Claimed) :=
  let (b, conn) := b.newConnection
  match b.checkConnect p commonName uuid with
  | .error e => (b, .error e)
  | .ok (claim, grants) =>
    match (b.putConnection { id := conn, peer }).claimAmid claim (some conn) true closes with
    | (b, .error e) => (b, .error e)
    | (b, .ok claimed) =>
      (b, .ok ({ uid := claimed.uid, principal := claim.principal, grants }, conn, claimed))

theorem acceptAmid_undisturbed (b : Broker) (p : Connect) (commonName : Option String)
    (uuid : String) (peer : PeerId) :
    b.acceptAmid p commonName uuid peer false = b.acceptClient p commonName uuid peer :=
  rfl

def connected (b : Broker) (peer : PeerId) : Broker :=
  b.newConnection.1.putConnection { id := b.nextConnection, peer }

/-- The brokers that can come about, while storage is closed and opened again and refuses writes at
any time. -/
inductive Reached : Broker → Prop
  | started {settings storage now clock fresh} : storage.Restorable →
      start settings storage now clock = .ok fresh → Reached fresh
  | acted {h : History} (a : History.Act) : Reached h.broker → Reached (h.step a).broker
  | stored {b : Broker} (closed failing : Bool) : Reached b →
      Reached { b with storage := { b.storage with closed, failing } }

variable {b b' : Broker}

theorem Reached.orderly (reached : b.Reached) : b.Orderly := by
  induction reached with
  | started restorable begun => exact (start_resumed restorable begun).orderly
  | acted a _ ih => exact (History.step_continues ih a).changes.orderly ih
  | stored closed failing _ ih => exact ih.beside ⟨rfl, rfl, rfl, rfl, rfl, rfl⟩ rfl

/-! What is left of a claim -/

structure Rebinds (b : Broker) (c : Claim) (conn : ConnectionId) (s : Session) (b' : Broker) :
    Prop where
  found : ∀ w, b'.session? w = if w = s.uid then some (s.heldBy c conn) else b.session? w
  registry : b'.registry = b.registry
  exchange : b'.exchange = b.exchange
  storage : b'.storage = { b.storage with closed := true }
  stats : b'.stats = b.stats
  told : ∀ other, b'.told other =
    if s.client = some other then (b.told other).map fun _ => true else b.told other

structure Enters (b : Broker) (c : Claim) (conn : ConnectionId) (b' : Broker) : Prop where
  found : ∀ w, b'.session? w =
    if w = b.nextUid then some ((b.newSession c).heldBy c conn) else b.session? w
  registry : b'.registry = b.registry.insert c.id b.nextUid
  exchange : b'.exchange = b.exchange
  storage : b'.storage = { b.storage with closed := true }
  stats : b'.stats = { b.stats with sessions := b.stats.sessions.increment }
  told : b'.told = b.told

/-- What a claim leaves behind that a closed storage has stopped. -/
inductive Leaves (b : Broker) (c : Claim) (conn : ConnectionId) (b' : Broker) : Prop
  | rebound {s} : b.find? c.id = some s → s.info.cleanSession = false → c.clean = false →
      Rebinds b c conn s b' → Leaves b c conn b'
  | entered : b.find? c.id = none → Enters b c conn b' → Leaves b c conn b'
  | destroyed {s s'} : b.find? c.id = some s → (s.info.cleanSession || c.clean) = true →
      Destroys b s s' b' → b'.storage.entries = b.storage.entries → Leaves b c conn b'
  | replaced {s s' between} : b.find? c.id = some s → (s.info.cleanSession || c.clean) = true →
      Destroys b s s' between →
      between.storage.entries = b.storage.entries.erase (Session.key c.id) →
      Enters between c conn b' → Leaves b c conn b'

theorem settleClaim_outcome (b : Broker) (c : Claim) :
    (∃ s e, b.find? c.id = some s ∧ (s.info.cleanSession || c.clean) = true ∧
      (b.destroy s.uid).2 = .error e ∧ b.settleClaim c = ((b.destroy s.uid).1, .error e)) ∨
    ∃ start s present, Settled b c start s present ∧
      b.settleClaim c = (start, .ok (s.uid, present)) ∧
      ∀ x, b.find? c.id = some x → present = false → (b.destroy x.uid).2 = .ok () := by
  unfold settleClaim
  split
  · rename_i absent
    refine Or.inr ⟨_, _, _, .created absent, rfl, fun x found => ?_⟩
    rw [absent] at found
    cases found
  · rename_i s found
    split
    · rename_i durable
      simp only [Bool.and_eq_true, Bool.not_eq_true'] at durable
      exact Or.inr ⟨_, _, _, .resumed found durable.2 durable.1, rfl, fun _ _ new => nomatch new⟩
    · rename_i clean
      have replaced : (s.info.cleanSession || c.clean) = true := by
        cases stays : s.info.cleanSession <;> cases wanted : c.clean <;> simp_all
      split
      · rename_i next e failed
        exact Or.inl ⟨s, e, found, replaced, by rw [failed], by rw [failed]⟩
      · rename_i next done
        refine Or.inr ⟨_, _, _, .replaced found replaced, by rw [done]; rfl, fun x same _ => ?_⟩
        rw [found] at same
        cases same
        rw [done]

theorem bind_beside (b : Broker) (s : Session) (conn : ConnectionId) :
    ∃ connections, (b.bind s (some conn) true).1 =
      { b.putSession { s with client := some conn } with connections } := by
  cases client : s.client with
  | none =>
      simp only [Broker.bind, client]
      exact ⟨_, rfl⟩
  | some old =>
      simp only [Broker.bind, client]
      exact ⟨_, rfl⟩

theorem cutOff_storage (b : Broker) (closes : Bool) (closed : (b.cutOff closes).storage.closed = true) :
    b.cutOff closes = { b with storage := { b.storage with closed := true } } := by
  cases closes with
  | true => rfl
  | false =>
      have same : b.storage = { b.storage with closed := true } := by
        rw [← show b.storage.closed = true from closed]
      exact congrArg (fun storage => { b with storage }) same

/-- Only the storage keeps a session that is there from being taken up. By then it is bound. -/
theorem takeUp_refused {c : Claim} {conn : ConnectionId} {s : Session} {present : Bool}
    {e : Failure} (here : b.session? s.uid = some s)
    (refused : b.takeUp c (some conn) true s.uid present = (b', .error e)) :
    e = .storage .closed ∧ b.storage.closed = true ∧
      ∃ connections, b' = { b.putSession (s.heldBy c conn) with connections } ∧
        ∀ other, b'.told other =
          if s.client = some other then (b.told other).map fun _ => true else b.told other := by
  obtain ⟨connections, bound⟩ := (b.putSession (s.takenBy c)).bind_beside (s.takenBy c) conn
  have told := (b.putSession (s.takenBy c)).bind_told (s.takenBy c) conn
  have storage := (b.putSession (s.takenBy c)).bind_storage (s.takenBy c) (some conn) true
  simp only [takeUp, here] at refused
  unfold Session.takenBy at bound told storage
  split at refused
  · rename_i fault failed
    obtain ⟨rfl, closed⟩ := persist_error failed
    cases refused
    rw [storage] at closed
    have twice : (b.putSession (s.takenBy c)).putSession (s.heldBy c conn) =
        b.putSession (s.heldBy c conn) := putSession_putSession rfl
    exact ⟨rfl, closed, connections,
      bound.trans (congrArg (fun x : Broker => { x with connections }) twice), told⟩
  · cases refused

/-! Refusals -/

structure Blames {α : Type} (x : Except Failure α) : Prop where
  cause : ∀ e, x = .error e → ∃ cause, e = .protocol cause

namespace Blames

variable {α β : Type}

theorem ok (value : α) : Blames (.ok value) := ⟨fun _ failed => nomatch failed⟩

theorem error (cause : ProtocolError) : Blames (α := α) (.error (.protocol cause)) := by
  constructor
  intro e failed
  cases failed
  exact ⟨cause, rfl⟩

theorem bind {first : Except Failure α} {rest : α → Except Failure β} (blames : Blames first)
    (goes : ∀ value, Blames (rest value)) : Blames (first >>= rest) := by
  constructor
  intro e failed
  cases done : first with
  | error _ =>
      rw [done] at failed
      cases failed
      exact blames.cause _ done
  | ok value =>
      rw [done] at failed
      exact (goes value).cause e failed

theorem mapError {ε : Type} (change : ε → ProtocolError) (x : Except ε α) :
    Blames (x.mapError fun e => .protocol (change e)) := by
  cases x with
  | error e => exact error (change e)
  | ok value => exact ok value

end Blames

theorem clientId_blames (b : Broker) (p : Connect) (uuid : String) :
    Blames (b.clientId p uuid) := by
  unfold clientId
  split
  · split
    · exact .ok _
    · exact .error _
  · split
    · exact .error _
    · exact .ok _

theorem authenticate_blames (b : Broker) (p : Connect) (commonName : Option String) :
    Blames (b.authenticate p commonName) := by
  unfold authenticate
  split <;> split
  all_goals first | exact .ok _ | exact .error _

theorem checkWill_blames (b : Broker) (grants : Grants) (w : LastWill) :
    Blames (b.checkWill grants w) := by
  unfold checkWill
  dsimp only
  split
  · exact .error _
  refine .bind (.mapError ..) fun _ => ?_
  split
  · exact .error _
  split
  · exact .error _
  · exact .ok _

theorem checkConnect_blames (b : Broker) (p : Connect) (commonName : Option String)
    (uuid : String) : Blames (b.checkConnect p commonName uuid) := by
  unfold checkConnect
  dsimp only
  split
  · exact .error _
  refine .bind (b.clientId_blames p uuid) fun id => ?_
  refine .bind (b.authenticate_blames p commonName) fun (grants, principal) => ?_
  dsimp only
  split
  · exact .bind (b.checkWill_blames grants _) fun _ => .ok _
  · exact .ok _

theorem claimAmid_refused (orderly : b.Orderly) {c : Claim} {conn : ConnectionId} {closes : Bool}
    {e : Failure} (refused : b.claimAmid c (some conn) true closes = (b', .error e)) :
    b.shuttingDown = true ∧ b' = b ∧ e = .protocol .serviceUnavailable ∨
      b.shuttingDown = false ∧ e = .storage .closed ∧ b'.storage.closed = true ∧
        Leaves b c conn b' := by
  unfold claimAmid at refused
  split at refused
  · rename_i down
    cases refused
    exact Or.inl ⟨down, rfl, rfl⟩
  rename_i running
  have running : b.shuttingDown = false := by simpa using running
  refine Or.inr ⟨running, ?_⟩
  rcases b.settleClaim_outcome c with
    ⟨s, fault, found, replaced, failed, same⟩ | ⟨start, s, present, settled, same, destroyed⟩
  · rw [same] at refused
    cases refused
    obtain ⟨s', destroys, ⟨done, _⟩ | ⟨stopped, closed, entries⟩⟩ := orderly.destroys found
    · rw [failed] at done
      cases done
    · rw [failed] at stopped
      cases stopped
      exact ⟨rfl, (destroy_opened b s.uid).trans closed, .destroyed found replaced destroys entries⟩
  · rw [same] at refused
    have here := (settled.present orderly).1
    have kept : (start.cutOff closes).session? = start.session? := by
      cases closes <;> rfl
    obtain ⟨rfl, closed, connections, rfl, told⟩ := takeUp_refused (kept ▸ here) refused
    rw [cutOff_storage start closes closed] at told ⊢
    refine ⟨rfl, rfl, ?_⟩
    have found : ∀ w, (start.putSession (s.heldBy c conn)).session? w =
        if w = s.uid then some (s.heldBy c conn) else start.session? w :=
      fun w => session?_putSession ..
    cases settled with
    | resumed live durable wanted =>
        exact .rebound live durable wanted ⟨found, rfl, rfl, rfl, rfl, told⟩
    | created absent =>
        refine .entered absent ⟨fun w => (found w).trans ?_, rfl, rfl, rfl, rfl, ?_⟩
        · rw [create_session?]
          exact ite_congr rfl (fun _ => rfl) fun other => if_neg other
        · exact funext fun other => (told other).trans (if_neg (nomatch ·))
    | replaced live replaced =>
        obtain ⟨s', destroys, ⟨_, entries⟩ | ⟨stopped, _⟩⟩ := orderly.destroys live
        · refine .replaced live replaced destroys entries
            ⟨fun w => (found w).trans ?_, rfl, rfl, rfl, rfl, ?_⟩
          · rw [create_session?]
            exact ite_congr rfl (fun _ => rfl) fun other => if_neg other
          · exact funext fun other => (told other).trans (if_neg (nomatch ·))
        · rw [destroyed _ live rfl] at stopped
          cases stopped

/-- Nothing has changed that outlives the connection. -/
structure AsBefore (b b' : Broker) : Prop where
  registry : b'.registry = b.registry
  sessions : b'.sessions = b.sessions
  exchange : b'.exchange = b.exchange
  storage : b'.storage = b.storage
  stats : b'.stats = b.stats
  retain : b'.retain = b.retain
  served : b'.served = b.served
  told : ∀ conn, conn ≠ b.nextConnection → b'.told conn = b.told conn

theorem connected_asBefore (b : Broker) (peer : PeerId) : AsBefore b (b.connected peer) := by
  refine ⟨rfl, rfl, rfl, rfl, rfl, rfl, rfl, fun conn other => ?_⟩
  simp only [told, connected, newConnection, putConnection, Table.get?_insert, if_neg other]

/-- A client that is refused for what it asks, or because the broker is shutting down, leaves
everything as it was. Otherwise the storage was closed, and the session that the client has claimed
stays as far as the broker had come with it: bound to the connection that is refused, or destroyed. -/
theorem refused_leaves (reached : b.Reached) {p : Connect} {commonName : Option String}
    {uuid : String} {peer : PeerId} {closes : Bool} {e : Failure}
    (refused : b.acceptAmid p commonName uuid peer closes = (b', .error e)) :
    match e with
    | .storage fault => fault = .closed ∧ b'.storage.closed = true ∧ b.shuttingDown = false ∧
        ∃ c grants, b.checkConnect p commonName uuid = .ok (c, grants) ∧
          (b.connected peer).Leaves c b.nextConnection b'
    | _ => AsBefore b b' := by
  have ready : (b.connected peer).Orderly := reached.orderly.beside ⟨rfl, rfl, rfl, rfl, rfl, rfl⟩ rfl
  unfold acceptAmid at refused
  dsimp only at refused
  split at refused
  · rename_i failure checked
    obtain ⟨cause, rfl⟩ := (checkConnect_blames ..).cause _ checked
    cases refused
    exact ⟨rfl, rfl, rfl, rfl, rfl, rfl, rfl, fun _ _ => rfl⟩
  · rename_i c grants checked
    split at refused
    · rename_i next failure claimed
      cases refused
      rcases claimAmid_refused ready claimed with
        ⟨_, rfl, rfl⟩ | ⟨running, rfl, closed, leaves⟩
      · exact b.connected_asBefore peer
      · exact ⟨rfl, closed, running, c, grants, checked, leaves⟩
    · cases refused

def openHouse : Settings where
  acl := { allowAnonymous := true, anonymous := { superuser := true } }

def connectAsAnybody (clean : Bool) : Connect :=
  { protocolLevel := 4, clientId := "c", cleanSession := clean, keepAlive := 0 }

def storageLost : Broker :=
  let before := ((History.started (.new openHouse {} 0 0)).step
    (.connect (connectAsAnybody false) none "" 0)).broker
  { before with storage := { before.storage with closed := true, failing := false } }

theorem storageLost_leaves : ∃ b' e,
    storageLost.acceptAmid (connectAsAnybody false) none "" 1 false = (b', .error e) ∧
      e = .storage .closed ∧ ∃ c, c.id = "c" ∧ (storageLost.connected 1).Leaves c 2 b' := by
  have begun : start openHouse {} 0 0 = .ok (.new openHouse {} 0 0) := rfl
  have reached : storageLost.Reached := .stored true false
    (.acted (h := History.started (.new openHouse {} 0 0)) _
      (.started Storage.Memory.restorable_empty begun))
  obtain ⟨b', refused⟩ : ∃ b', storageLost.acceptAmid (connectAsAnybody false) none "" 1 false =
      (b', .error (.storage .closed)) := ⟨_, rfl⟩
  obtain ⟨_, _, _, c, grants, checked, leaves⟩ := refused_leaves reached refused
  cases checked
  exact ⟨b', _, refused, rfl, _, rfl, leaves⟩

/-- A client that is refused has ended the connection of the one before it, and its session is bound
to nobody who is there. -/
theorem storageLost_taken_over : ∃ b' e,
    storageLost.acceptAmid (connectAsAnybody false) none "" 1 false = (b', .error e) ∧
      (storageLost.find? "c").bind Session.client = some 1 ∧ storageLost.told 1 = some false ∧
      (b'.find? "c").bind Session.client = some 2 ∧ b'.told 1 = some true :=
  ⟨_, _, rfl, rfl, rfl, rfl, rfl⟩

end Broker

end MqttBroker
