import MqttBroker.Proofs.OpenStorage
import MqttBroker.Proofs.Restoring

/-!
Who is connected to a session. A client has one session, and of the connections that its sessions
have been bound to, all but the last have been told to end or are gone. What a late clean-up after
one of those does changes nothing.
-/

namespace MqttBroker

namespace Broker

variable {b b' b'' : Broker}

/-- Whether a connection has been told to end, if it is known. -/
def told (b : Broker) (conn : ConnectionId) : Option Bool :=
  (b.connections.get? conn).map Connection.cancelled

def Binds (b : Broker) (id : String) (conn : ConnectionId) : Prop :=
  ∃ uid s, b.session? uid = some s ∧ s.info.id = id ∧ s.client = some conn

theorem isCancelled_iff (b : Broker) (conn : ConnectionId) :
    b.isCancelled conn = true ↔ b.told conn = some true := by
  rw [isCancelled, told, Option.any_eq_true, Option.map_eq_some_iff]

theorem Orderly.binds_iff (orderly : b.Orderly) {id : String} {conn : ConnectionId} :
    b.Binds id conn ↔ ∃ s, b.find? id = some s ∧ s.client = some conn := by
  constructor
  · rintro ⟨uid, s, present, rfl, client⟩
    have live : s.closed = false := by
      by_contra closed
      rw [orderly.gone uid s present (by simpa using closed)] at client
      cases client
    exact ⟨s, orderly.find?_of_live present live, client⟩
  · rintro ⟨s, found, client⟩
    obtain ⟨present, own, _⟩ := orderly.find?_some found
    exact ⟨s.uid, s, present, own, client⟩

/-! Telling connections -/

theorem modify_told (b : Broker) (conn : ConnectionId) (change : Connection → Connection)
    (cancels : ∀ c, (change c).cancelled = true) (other : ConnectionId) :
    ({ b with connections := b.connections.modify conn change } : Broker).told other =
      if other = conn then (b.told other).map fun _ => true else b.told other := by
  simp only [told, Table.get?_modify]
  split
  · cases b.connections.get? other <;> simp [cancels]
  · rfl

theorem kick_told (b : Broker) (conn other : ConnectionId) :
    (b.kick conn).told other =
      if other = conn then (b.told other).map fun _ => true else b.told other :=
  b.modify_told conn _ (fun _ => rfl) other

theorem takeOver_told (b : Broker) (conn other : ConnectionId) :
    (b.takeOver conn).told other =
      if other = conn then (b.told other).map fun _ => true else b.told other :=
  b.modify_told conn _ (fun _ => rfl) other

theorem complete_told (b : Broker) (c : Completion) : (b.complete c).told = b.told := by
  funext other
  cases c with
  | silent => rfl
  | report _ => rfl
  | acknowledge conn id =>
      simp only [complete, reply, told, Table.get?_modify]
      split
      · cases b.connections.get? other <;> rfl
      · rfl

theorem completeAll_told (b : Broker) (due : List Completion) :
    (due.foldl complete b).told = b.told := by
  induction due generalizing b with
  | nil => rfl
  | cons c rest ih => exact (ih (b.complete c)).trans (b.complete_told c)

theorem doneAll_told (b : Broker) (ids : List EventId) : (b.doneAll ids).told = b.told :=
  completeAll_told { b with events := (b.events.doneAll ids).1 } (b.events.doneAll ids).2

theorem closeQueues_told (b : Broker) (s : Session) (cleanup : Bool) :
    (b.closeQueues s cleanup).1.told = b.told := by
  obtain ⟨_, _, _, ⟨_, same⟩ | ⟨_, w, _, _, same⟩⟩ := b.closeQueues_frame s cleanup
  · rw [same]
    rfl
  · rw [same]
    exact doneAll_told { b with storage := w.memory } (w.done ++ w.refused)

theorem isolate_told (b : Broker) (s : Session) (conn : ConnectionId) :
    (b.isolate s).told conn =
      if s.client = some conn then (b.told conn).map fun _ => true else b.told conn := by
  unfold isolate
  dsimp only
  split
  · rename_i own client
    rw [kick_told, client]
    by_cases same : conn = own
    · rw [if_pos same, if_pos (congrArg some same.symm)]
      rfl
    · rw [if_neg same, if_neg fun eq => same (Option.some.inj eq).symm]
      rfl
  · rename_i client
    rw [client]
    rfl

theorem retire_told (b : Broker) (s : Session) (cleanup : Bool) :
    (b.retire s cleanup).1.told = b.told := by
  have closed := b.closeQueues_told s cleanup
  unfold retire
  dsimp only
  split
  · split
    · exact closed
    · exact closed
  · exact closed

theorem closeSession_told {s : Session} (present : b.session? s.uid = some s)
    (live : s.closed = false) (cleanup : Bool) (conn : ConnectionId) :
    (b.closeSession s.uid cleanup).1.told conn =
      if s.client = some conn then (b.told conn).map fun _ => true else b.told conn := by
  simp only [closeSession, present, live, Bool.false_eq_true, if_false]
  rw [retire_told]
  exact b.isolate_told s conn

/-! What is retained of the connections -/

/-- Known connections stay known, and told to end if they were. One that a session is bound to stays
so, or is told to end, or is gone. -/
structure Retains (b b' : Broker) (gone : List ConnectionId := []) : Prop where
  known : ∀ conn, (b'.told conn).isSome = (b.told conn).isSome
  told : ∀ conn, b.told conn = some true → b'.told conn = some true
  bound : ∀ id conn, b.Binds id conn →
    b'.Binds id conn ∨ b'.told conn = some true ∨ conn ∈ gone
  binds : ∀ id conn, b'.Binds id conn → b.Binds id conn ∨ (b'.told conn).isSome = true
  registry : b.registry.Increasing → b'.registry.Increasing
  shuttingDown : b'.shuttingDown = b.shuttingDown
  opened : b'.storage.closed = b.storage.closed

def Known (b : Broker) : Prop := ∀ id conn, b.Binds id conn → (b.told conn).isSome = true

theorem Retains.refl (b : Broker) : Retains b b where
  known _ := rfl
  told _ := id
  bound _ _ := Or.inl
  binds _ _ := Or.inl
  registry := id
  shuttingDown := rfl
  opened := rfl

theorem Retains.weaken (retains : Retains b b') (gone : List ConnectionId) :
    Retains b b' gone :=
  { retains with bound := fun id conn before => (retains.bound id conn before).imp_right fun after =>
      after.imp_right fun none => nomatch none }

theorem Retains.trans {gone : List ConnectionId} (first : Retains b b' gone)
    (second : Retains b' b'' gone) : Retains b b'' gone where
  known conn := (second.known conn).trans (first.known conn)
  told conn ended := second.told conn (first.told conn ended)
  bound id conn before := by
    rcases first.bound id conn before with still | ended | freed
    · exact second.bound id conn still
    · exact Or.inr (Or.inl (second.told conn ended))
    · exact Or.inr (Or.inr freed)
  binds id conn after := by
    rcases second.binds id conn after with still | there
    · refine (first.binds id conn still).imp_right fun there => ?_
      rw [second.known]
      exact there
    · exact Or.inr there
  registry increasing := second.registry (first.registry increasing)
  shuttingDown := second.shuttingDown.trans first.shuttingDown
  opened := second.opened.trans first.opened

theorem Retains.keeps_known {gone : List ConnectionId} (retains : Retains b b' gone)
    (known : b.Known) : b'.Known := by
  intro id conn after
  rcases retains.binds id conn after with before | there
  · rw [retains.known]
    exact known id conn before
  · exact there

theorem retains_of_binds (told : b'.told = b.told) (binds : ∀ id conn, b'.Binds id conn ↔ b.Binds id conn)
    (registry : b.registry.Increasing → b'.registry.Increasing)
    (shuttingDown : b'.shuttingDown = b.shuttingDown)
    (opened : b'.storage.closed = b.storage.closed) : Retains b b' where
  known conn := by rw [told]
  told conn := by
    rw [told]
    exact id
  bound id conn before := Or.inl ((binds id conn).mpr before)
  binds id conn after := Or.inl ((binds id conn).mp after)
  registry := registry
  shuttingDown := shuttingDown
  opened := opened

theorem binds_of_sessions (sessions : b'.sessions = b.sessions) (id : String)
    (conn : ConnectionId) : b'.Binds id conn ↔ b.Binds id conn := by
  unfold Binds session?
  rw [sessions]

theorem binds_changed {s s' : Session} (present : b.session? s.uid = some s)
    (found : ∀ w, b'.session? w = if w = s.uid then some s' else b.session? w)
    (own : s'.info.id = s.info.id) (client : s'.client = s.client) (id : String)
    (conn : ConnectionId) : b'.Binds id conn ↔ b.Binds id conn := by
  constructor
  · rintro ⟨uid, x, here, rfl, bound⟩
    rw [found] at here
    split at here
    · cases here
      exact ⟨s.uid, s, present, own.symm, client.symm.trans bound⟩
    · exact ⟨uid, x, here, rfl, bound⟩
  · rintro ⟨uid, x, here, rfl, bound⟩
    by_cases same : uid = s.uid
    · subst same
      rw [present] at here
      cases here
      exact ⟨s.uid, s', by rw [found, if_pos rfl], own, client.trans bound⟩
    · exact ⟨uid, x, by rw [found, if_neg same]; exact here, rfl, bound⟩

theorem found_put {s s' : Session} (uid : s'.uid = s.uid) (w : SessionUid) :
    (b.putSession s').session? w = if w = s.uid then some s' else b.session? w := by
  rw [session?_putSession, uid]

theorem retains_rebound {s s' : Session} (known : b.Known) (present : b.session? s.uid = some s)
    (found : ∀ w, b'.session? w = if w = s.uid then some s' else b.session? w)
    (client : ∀ conn, s'.client = some conn → (b'.told conn).isSome = true)
    (told : ∀ conn, b'.told conn =
      if s.client = some conn then (b.told conn).map fun _ => true else b.told conn)
    (registry : b.registry.Increasing → b'.registry.Increasing)
    (shuttingDown : b'.shuttingDown = b.shuttingDown)
    (opened : b'.storage.closed = b.storage.closed) : Retains b b' where
  known conn := by
    rw [told]
    split
    · exact Option.isSome_map
    · rfl
  told conn ended := by
    rw [told, ended]
    split <;> rfl
  bound id conn := by
    rintro ⟨uid, x, here, own, bound⟩
    by_cases same : uid = s.uid
    · subst same
      rw [present] at here
      cases here
      obtain ⟨_, there⟩ := Option.isSome_iff_exists.mp (known id conn ⟨_, s, present, own, bound⟩)
      right
      left
      rw [told, if_pos bound, there]
      rfl
    · left
      exact ⟨uid, x, by rw [found, if_neg same]; exact here, own, bound⟩
  binds id conn := by
    rintro ⟨uid, x, here, own, bound⟩
    rw [found] at here
    split at here
    · cases here
      exact Or.inr (client conn bound)
    · exact Or.inl ⟨uid, x, here, own, bound⟩
  registry := registry
  shuttingDown := shuttingDown
  opened := opened

/-! What the operations retain -/

theorem destroy_retains (orderly : b.Orderly) (known : b.Known) (uid : SessionUid) :
    Retains b (b.destroy uid).1 := by
  cases present : b.session? uid with
  | none =>
      simp only [destroy, present]
      exact .refl b
  | some s =>
      obtain ⟨rfl, _⟩ := orderly.own present
      obtain ⟨registry, stats, same, loose, _⟩ := orderly.destroy_unregisters present
      have opened := b.destroy_opened s.uid
      have increasing : b.registry.Increasing → (b.destroy s.uid).1.registry.Increasing := by
        intro increasing
        simp only [destroy, present, (closeSession_frame ..).1]
        split
        · exact increasing.erase s.info.id
        · exact increasing
      rw [same] at opened increasing ⊢
      cases closed : s.closed with
      | true =>
          have shut : ∀ x, ({ b with registry, stats } : Broker).session? s.uid = some x →
              x.closed = true := by
            intro x here
            cases present.symm.trans here
            exact closed
          rw [closeSession_closed shut] at opened increasing ⊢
          exact retains_of_binds rfl (binds_of_sessions rfl) increasing rfl opened
      | false =>
          have told := closeSession_told (b := { b with registry, stats }) present closed true
          obtain ⟨s', _, _, client, _, _, _, _, _, reforms⟩ :=
            loose.reforms_closeSession present closed true
          apply retains_rebound known present reforms.found ?_ told increasing reforms.shuttingDown
            opened
          intro conn bound
          rw [client] at bound
          cases bound

theorem create_retains (orderly : b.Orderly) (id : String) (clean : Bool) :
    Retains b (b.create id clean).1 := by
  have binds : ∀ other conn, (b.create id clean).1.Binds other conn ↔ b.Binds other conn := by
    intro other conn
    constructor
    · rintro ⟨uid, s, present, own, client⟩
      rw [create_session?] at present
      split at present
      · cases present
        cases client
      · exact ⟨uid, s, present, own, client⟩
    · rintro ⟨uid, s, present, own, client⟩
      refine ⟨uid, s, ?_, own, client⟩
      rw [create_session?, if_neg (Nat.ne_of_lt (orderly.own present).2)]
      exact present
  exact retains_of_binds rfl binds (fun increasing => increasing.insert _ _) rfl rfl

theorem Settled.retains (orderly : b.Orderly) (known : b.Known) {c : Claim} {start : Broker}
    {s : Session} {present : Bool} (settled : Settled b c start s present) : Retains b start := by
  cases settled with
  | resumed _ _ _ => exact .refl b
  | created _ => exact create_retains orderly c.id c.clean
  | replaced _ _ =>
      exact (destroy_retains orderly known _).trans (create_retains (orderly.destroy _) c.id c.clean)

theorem put_retains {s s' : Session} (present : b.session? s.uid = some s) (uid : s'.uid = s.uid)
    (own : s'.info.id = s.info.id) (client : s'.client = s.client) :
    Retains b (b.putSession s') :=
  retains_of_binds rfl (binds_changed present (found_put uid) own client) id rfl rfl

theorem persist_retains {uid : SessionUid} (done : b.persist uid = .ok b') : Retains b b' := by
  rcases persist_changes done with rfl | ⟨s, entries, _, _, rfl⟩
  · exact .refl b'
  · exact retains_of_binds rfl (binds_of_sessions rfl) id rfl rfl

theorem bind_told (b : Broker) (s : Session) (conn other : ConnectionId) :
    (b.bind s (some conn) true).1.told other =
      if s.client = some other then (b.told other).map fun _ => true else b.told other := by
  cases client : s.client with
  | none =>
      simp only [Broker.bind, client]
      rfl
  | some old =>
      simp only [Broker.bind, client, if_true]
      rw [takeOver_told]
      by_cases same : other = old
      · rw [if_pos same, if_pos (congrArg some same.symm)]
        rfl
      · rw [if_neg same, if_neg fun eq => same (Option.some.inj eq).symm]
        rfl

theorem bind_sessions (b : Broker) (s : Session) (conn : ConnectionId) :
    (b.bind s (some conn) true).1.sessions = (b.putSession { s with client := some conn }).sessions := by
  cases client : s.client with
  | none => simp only [Broker.bind, client]
  | some old =>
      simp only [Broker.bind, client]
      rfl

theorem bind_retains (known : b.Known) {s : Session} (present : b.session? s.uid = some s)
    (conn : Option ConnectionId) (there : ∀ id, conn = some id → (b.told id).isSome = true) :
    Retains b (b.bind s conn true).1 ∧
      ∀ id, conn = some id → (b.bind s conn true).1.Binds s.info.id id := by
  cases conn with
  | none => exact ⟨.refl b, fun _ none => nomatch none⟩
  | some conn =>
      have found : ∀ w, (b.bind s (some conn) true).1.session? w =
          if w = s.uid then some { s with client := some conn } else b.session? w := by
        intro w
        rw [session?, bind_sessions]
        exact found_put rfl w
      have frame : (b.bind s (some conn) true).1.registry = b.registry ∧
          (b.bind s (some conn) true).1.shuttingDown = b.shuttingDown := by
        cases client : s.client <;> simp only [Broker.bind, client] <;> exact ⟨rfl, rfl⟩
      constructor
      · apply retains_rebound known present found ?_ (bind_told b s conn) ?_ frame.2
        · rw [bind_storage]
        · intro other bound
          cases bound
          rw [bind_told]
          split
          · rw [Option.isSome_map]
            exact there conn rfl
          · exact there conn rfl
        · rw [frame.1]
          exact id
      · intro id same
        cases same
        refine ⟨s.uid, { s with client := some conn }, ?_, rfl, rfl⟩
        rw [found, if_pos rfl]

theorem claim_retains (orderly : b.Orderly) (known : b.Known) (running : b.shuttingDown = false)
    (opened : b.storage.closed = false) (c : Claim) (conn : Option ConnectionId)
    (there : ∀ id, conn = some id → (b.told id).isSome = true) :
    ∃ after claimed, b.claim c conn true = (after, .ok claimed) ∧ Retains b after ∧
      ∀ id, conn = some id → after.Binds c.id id := by
  obtain ⟨start, s, present, after, settled, stored, same⟩ :=
    claim_succeeds orderly running opened c conn true
  obtain ⟨here, own, _⟩ := settled.present orderly
  have begun := settled.retains orderly known
  have put : Retains start (start.putSession (s.takenBy c)) := put_retains here rfl rfl rfl
  have taken := begun.trans put
  have found : (start.putSession (s.takenBy c)).session? (s.takenBy c).uid = some (s.takenBy c) := by
    rw [found_put rfl]
    exact if_pos rfl
  obtain ⟨bound, binds⟩ := bind_retains (taken.keeps_known known) found conn fun id same => by
    rw [taken.known]
    exact there id same
  have recorded := persist_retains stored
  refine ⟨after, _, same, (taken.trans bound).trans recorded, ?_⟩
  intro id new
  obtain ⟨uid, x, present, name, client⟩ := binds id new
  rcases persist_changes stored with rfl | ⟨_, _, _, _, rfl⟩
  · exact ⟨uid, x, present, name.trans own, client⟩
  · exact ⟨uid, x, present, name.trans own, client⟩

theorem release_retains (orderly : b.Orderly) (known : b.Known) (uid : SessionUid)
    (conn : ConnectionId) : Retains b (b.release uid conn)
      (if (b.session? uid).any fun s => s.client = some conn then [conn] else []) := by
  cases present : b.session? uid with
  | none =>
      simp only [release, present]
      exact .refl b
  | some s =>
      obtain ⟨rfl, _⟩ := orderly.own present
      by_cases client : s.client = some conn
      · simp only [release, present, client, ne_eq, not_true_eq_false, if_false, Option.any_some,
          decide_true, if_true]
        have found : ∀ w, (b.putSession { s with client := none }).session? w =
            if w = s.uid then some { s with client := none } else b.session? w := found_put rfl
        have unbound : Retains b (b.putSession { s with client := none }) [conn] := by
          refine ⟨fun _ => rfl, fun _ => id, ?_, ?_, id, rfl, rfl⟩
          · rintro other old ⟨uid, x, here, own, bound⟩
            by_cases same : uid = s.uid
            · subst same
              rw [present] at here
              cases here
              rw [client] at bound
              cases bound
              exact Or.inr (Or.inr (List.mem_singleton.mpr rfl))
            · exact Or.inl ⟨uid, x, by rw [found, if_neg same]; exact here, own, bound⟩
          · rintro other old ⟨uid, x, here, own, bound⟩
            rw [found] at here
            split at here
            · cases here
              cases bound
            · exact Or.inl ⟨uid, x, here, own, bound⟩
        split
        · have used : s.Used { s with client := none } :=
            Session.used_of_durable rfl rfl rfl rfl
              (fun closed => (orderly.gone s.uid s present closed).symm) rfl rfl
          have orderly := orderly.used present used
          exact unbound.trans
            ((destroy_retains orderly (unbound.keeps_known known) s.uid).weaken [conn])
        · exact unbound
      · simp only [release, present, ne_eq, client, not_false_eq_true, if_true, Option.any_some,
          decide_false, Bool.false_eq_true, if_false]
        exact .refl b

/-- Only the connection that the session in the registry is bound to can be released. -/
theorem release_stale (orderly : b.Orderly) {uid : SessionUid} {conn : ConnectionId}
    (stale : ∀ id s, b.find? id = some s → s.uid = uid → s.client ≠ some conn) :
    b.release uid conn = b := by
  cases present : b.session? uid with
  | none => simp only [release, present]
  | some s =>
      simp only [release, present]
      apply if_pos
      intro client
      obtain ⟨rfl, _⟩ := orderly.own present
      obtain ⟨x, found, bound⟩ := orderly.binds_iff.mp ⟨s.uid, s, present, rfl, client⟩
      obtain ⟨here, own, _, entry⟩ := orderly.find?_some found
      have same : x.uid = s.uid := by
        have live : s.closed = false := by
          by_contra closed
          rw [orderly.gone s.uid s present (by simpa using closed)] at client
          cases client
        have listed := orderly.listed s.uid s present live List.not_mem_nil
        rw [entry] at listed
        exact Option.some.inj listed
      exact stale s.info.id x found same bound

theorem subscribe_retains {uid : SessionUid} (orderly : b.Orderly) {filter : String} {qos : QoS}
    {added : Bool} (done : b.subscribe uid filter qos = .ok (b', added)) : Retains b b' := by
  have opened := subscribe_opened done
  obtain ⟨_, s, _, _, _, _, _, _, present, _, _, _, rfl⟩ := subscribe_changes done
  obtain ⟨rfl, _⟩ := orderly.own present
  exact retains_of_binds rfl (binds_changed present (found_put rfl) rfl rfl) id rfl opened

theorem unsubscribe_told {uid : SessionUid} {filter : String} {removed : Bool}
    (done : b.unsubscribe uid filter = .ok (b', removed)) : b'.told = b.told := by
  rcases unsubscribe_ok done with rfl | ⟨s, exchange, stats, matcher, info, _, _, ⟨_, rfl⟩ | rfl⟩
  · rfl
  · rfl
  · exact closeQueues_told { b with exchange, stats } _ true

theorem unsubscribe_retains {uid : SessionUid} (orderly : b.Orderly) {filter : String}
    {removed : Bool} (done : b.unsubscribe uid filter = .ok (b', removed)) : Retains b b' := by
  have opened := unsubscribe_opened done
  have told := unsubscribe_told done
  rcases orderly.reforms_unsubscribe done with
    rfl | ⟨s, s', _, _, client, _, _, _, _, registry, reforms⟩
  · exact .refl b'
  · exact retains_of_binds told (binds_changed reforms.present reforms.found reforms.id client)
      (registry ▸ id) reforms.shuttingDown opened

theorem subscribeAll_retains (orderly : b.Orderly) (uid : SessionUid) (grants : Grants)
    (requests : List (String × QoS)) : Retains b (subscribeAll uid grants requests b).1 := by
  induction requests generalizing b with
  | nil => exact .refl b
  | cons request rest ih =>
      simp only [subscribeAll]
      split
      · split
        · exact .refl b
        · rename_i b' added done
          exact (subscribe_retains orderly done).trans (ih (orderly.subscribe done))
      · exact ih orderly

theorem requestSubscriptions_retains (orderly : b.Orderly) (uid : SessionUid) (grants : Grants)
    (requests : List (String × QoS)) :
    Retains b (b.requestSubscriptions uid grants requests).1 := by
  have entered := subscribeAll_retains orderly uid grants requests
  unfold requestSubscriptions
  split
  · rename_i b' e same
    rw [same] at entered
    exact entered
  · rename_i b' answer same
    rw [same] at entered
    split
    · rename_i after stored
      exact entered.trans (persist_retains stored)
    · exact entered

theorem unsubscribeAll_retains (orderly : b.Orderly) (uid : SessionUid) (filters : List String) :
    Retains b (unsubscribeAll uid filters b).1 := by
  induction filters generalizing b with
  | nil => exact .refl b
  | cons filter rest ih =>
      simp only [unsubscribeAll]
      split
      · rename_i b' removed done
        exact (unsubscribe_retains orderly done).trans (ih (orderly.unsubscribe done))
      · exact .refl b

theorem requestUnsubscriptions_retains (orderly : b.Orderly) (uid : SessionUid)
    (filters : List String) : Retains b (b.requestUnsubscriptions uid filters).1 := by
  have dropped := unsubscribeAll_retains orderly uid filters
  unfold requestUnsubscriptions
  split
  · rename_i b' e same
    rw [same] at dropped
    exact dropped
  · rename_i b' same
    rw [same] at dropped
    split
    · rename_i after stored
      exact dropped.trans (persist_retains stored)
    · exact dropped

/-! A broker that has been started -/

structure Disconnected (b : Broker) : Prop where
  sessions : ∀ uid s, b.session? uid = some s → s.uid = uid ∧ s.client = none
  connections : b.connections = []
  registry : b.registry.Increasing
  opened : b.storage.closed = false

theorem Disconnected.put (disconnected : b.Disconnected) {s : Session} (client : s.client = none)
    (sessions : b'.sessions = b.sessions.insert s.uid s)
    (connections : b'.connections = b.connections)
    (registry : b.registry.Increasing → b'.registry.Increasing)
    (opened : b'.storage.closed = b.storage.closed) : b'.Disconnected where
  sessions uid x present := by
    rw [session?, sessions, Table.get?_insert] at present
    split at present
    · rename_i same
      cases present
      exact ⟨same.symm, client⟩
    · exact disconnected.sessions uid x present
  connections := connections.trans disconnected.connections
  registry := registry disconnected.registry
  opened := opened.trans disconnected.opened

theorem Disconnected.beside (disconnected : b.Disconnected) (sessions : b'.sessions = b.sessions)
    (connections : b'.connections = b.connections)
    (registry : b.registry.Increasing → b'.registry.Increasing)
    (opened : b'.storage.closed = b.storage.closed) : b'.Disconnected where
  sessions := by
    unfold session?
    rw [sessions]
    exact disconnected.sessions
  connections := connections.trans disconnected.connections
  registry := registry disconnected.registry
  opened := opened.trans disconnected.opened

theorem startKeeps_disconnected : StartKeeps Disconnected where
  added _ disconnected := disconnected.put rfl rfl rfl id rfl
  subscribed := by
    intro b b' uid filter qos added disconnected done
    have opened := subscribe_opened done
    obtain ⟨_, s, _, _, _, queues, matcher, _, present, _, _, _, rfl⟩ := subscribe_changes done
    obtain ⟨_, client⟩ := disconnected.sessions uid s present
    exact disconnected.put (s := { s with queues, matcher, info := { s.info with
      subscriptions := s.info.subscriptions.insert filter qos } }) client rfl rfl id opened
  recorded := by
    intro b b' uid disconnected done
    have opened := persist_opened done
    rcases persist_changes done with rfl | ⟨_, _, _, _, rfl⟩
    · exact disconnected
    · exact disconnected.beside rfl rfl id opened
  enrolled := by
    intro b b' id uid disconnected done
    simp only [enroll] at done
    split at done
    · cases done
      exact disconnected.beside rfl rfl (fun increasing => increasing.insert id uid) rfl
    · simp only [bind_eq_ok, mapError_eq_ok] at done
      obtain ⟨⟨storage, h⟩, bucket, _, emptied, done⟩ := done
      cases emptied
      cases done
      refine disconnected.beside rfl rfl (fun increasing => increasing.insert id uid) ?_
      exact (storage.closeBucket_opened h true).trans (Storage.Memory.bucket_opened bucket)
  deleted := by
    intro b storage key disconnected deleted
    obtain ⟨_, rfl⟩ := deleteEntry_ok deleted
    refine disconnected.beside ?_ ?_ ?_ ?_
    all_goals first | rfl | exact id

theorem start_disconnected {settings : Settings} {storage : Storage.Memory} {now : Nat}
    {clock : Int64} (done : start settings storage now clock = .ok b) : b.Disconnected := by
  refine startKeeps_disconnected.start ?_ done
  intro retain loaded
  simp only [RetainStore.load, Storage.Memory.entriesUnder, Storage.Memory.checkOpen,
    bind_eq_ok] at loaded
  obtain ⟨_, ⟨_, checked, _⟩, _⟩ := loaded
  split at checked
  · cases checked
  · rename_i live
    have opened : storage.closed = false := by simpa using live
    constructor
    case sessions =>
      intro uid s found
      cases found
    case connections => rfl
    case registry => exact List.Pairwise.nil
    case opened => exact opened

end Broker

structure Takeover where
  broker : Broker
  bound : List (String × ConnectionId) := []
  released : List ConnectionId := []

namespace Takeover

open Broker (Claim)

inductive Call
  | claim (c : Claim) (conn : Option Connection)
  | destroy (uid : SessionUid)
  | release (uid : SessionUid) (conn : ConnectionId)
  | subscribe (uid : SessionUid) (grants : Grants) (requests : List (String × QoS))
  | unsubscribe (uid : SessionUid) (filters : List String)

def Call.connection? : Call → Option ConnectionId
  | .claim _ conn => conn.map Connection.id
  | _ => none

def knowing (b : Broker) (conn : Option Connection) : Broker := conn.elim b b.putConnection

def claimed (b : Broker) (c : Claim) (conn : Option Connection) :
    Broker × Except Failure Broker.Claimed :=
  (knowing b conn).claim c (conn.map Connection.id) true

def step (t : Takeover) : Call → Takeover
  | .claim c conn =>
    match claimed t.broker c conn with
    | (broker, .ok _) =>
      { t with broker, bound := t.bound ++ (conn.map fun x => (c.id, x.id)).toList }
    | (broker, .error _) => { t with broker }
  | .destroy uid => { t with broker := (t.broker.destroy uid).1 }
  | .release uid conn =>
    { t with broker := t.broker.release uid conn
             released := t.released ++ if (t.broker.session? uid).any fun s => s.client = some conn
               then [conn] else [] }
  | .subscribe uid grants requests =>
    { t with broker := (t.broker.requestSubscriptions uid grants requests).1 }
  | .unsubscribe uid filters =>
    { t with broker := (t.broker.requestUnsubscriptions uid filters).1 }

def run (t : Takeover) (calls : List Call) : Takeover := calls.foldl step t

structure Accounted (t : Takeover) : Prop where
  orderly : t.broker.Orderly
  known : t.broker.Known
  running : t.broker.shuttingDown = false
  opened : t.broker.storage.closed = false
  registry : t.broker.registry.Increasing
  bound : ∀ id conn, (id, conn) ∈ t.bound →
    t.broker.Binds id conn ∨ t.broker.told conn = some true ∨ conn ∈ t.released

theorem Accounted.started {settings : Settings} {storage : Storage.Memory} {now : Nat}
    {clock : Int64} {broker : Broker} (restorable : storage.Restorable)
    (done : Broker.start settings storage now clock = .ok broker) :
    Accounted { broker } where
  orderly := (Broker.start_resumed restorable done).orderly
  known id conn := by
    rintro ⟨uid, s, present, _, client⟩
    rw [((Broker.start_disconnected done).sessions uid s present).2] at client
    cases client
  running := (Broker.start_resumed restorable done).running
  opened := (Broker.start_disconnected done).opened
  registry := (Broker.start_disconnected done).registry
  bound _ _ member := nomatch member

theorem Accounted.retained {t : Takeover} (accounted : t.Accounted) {broker : Broker}
    {gone : List ConnectionId} (orderly : broker.Orderly)
    (retains : Broker.Retains t.broker broker gone) {bound : List (String × ConnectionId)}
    (new : ∀ id conn, (id, conn) ∈ bound → (id, conn) ∈ t.bound ∨ broker.Binds id conn)
    {released : List ConnectionId}
    (kept : ∀ conn, conn ∈ t.released ∨ conn ∈ gone → conn ∈ released) :
    Accounted { broker, bound, released } where
  orderly := orderly
  known := retains.keeps_known accounted.known
  running := retains.shuttingDown.trans accounted.running
  opened := retains.opened.trans accounted.opened
  registry := retains.registry accounted.registry
  bound id conn member := by
    rcases new id conn member with old | binds
    · rcases accounted.bound id conn old with still | ended | freed
      · rcases retains.bound id conn still with still | ended | none
        · exact Or.inl still
        · exact Or.inr (Or.inl ended)
        · exact Or.inr (Or.inr (kept conn (Or.inr none)))
      · exact Or.inr (Or.inl (retains.told conn ended))
      · exact Or.inr (Or.inr (kept conn (Or.inl freed)))
    · exact Or.inl binds

theorem Accounted.informed {t : Takeover} (accounted : t.Accounted) {conn : Option Connection}
    (fresh : ∀ x, conn = some x → t.broker.told x.id = none) :
    Accounted { t with broker := knowing t.broker conn } := by
  cases conn with
  | none => exact accounted
  | some x =>
      have told : ∀ other, (t.broker.putConnection x).told other =
          if other = x.id then some x.cancelled else t.broker.told other := by
        intro other
        simp only [Broker.told, Broker.putConnection, Table.get?_insert]
        split <;> rfl
      constructor
      case orderly => exact accounted.orderly.beside ⟨rfl, rfl, rfl, rfl, rfl, rfl⟩ rfl
      case known =>
        intro id other binds
        change ((t.broker.putConnection x).told other).isSome = true
        rw [told]
        split
        · rfl
        · exact accounted.known id other binds
      case running => exact accounted.running
      case opened => exact accounted.opened
      case registry => exact accounted.registry
      case bound =>
        intro id other member
        refine (accounted.bound id other member).imp_right fun free => free.imp_left ?_
        intro ended
        change (t.broker.putConnection x).told other = some true
        rw [told, if_neg]
        · exact ended
        · rintro rfl
          rw [fresh x rfl] at ended
          cases ended

theorem knowing_told {b : Broker} {conn : Option Connection} {other : ConnectionId}
    (different : conn.map Connection.id ≠ some other) :
    (knowing b conn).told other = b.told other := by
  cases conn with
  | none => rfl
  | some x =>
      have apart : other ≠ x.id := fun same => different (congrArg some same.symm)
      simp only [knowing, Option.elim, Broker.told, Broker.putConnection, Table.get?_insert,
        if_neg apart]

theorem claimed_retains {t : Takeover} (accounted : t.Accounted) (c : Claim)
    {conn : Option Connection} (fresh : ∀ x, conn = some x → t.broker.told x.id = none) :
    ∃ after result, claimed t.broker c conn = (after, .ok result) ∧ after.Orderly ∧
      Broker.Retains (knowing t.broker conn) after ∧
      ∀ x, conn = some x → after.Binds c.id x.id := by
  have ready := accounted.informed fresh
  have there : ∀ id, conn.map Connection.id = some id →
      ((knowing t.broker conn).told id).isSome = true := by
    intro id same
    obtain ⟨x, rfl, rfl⟩ := Option.map_eq_some_iff.mp same
    simp [knowing, Broker.told, Broker.putConnection, Table.get?_insert]
  obtain ⟨after, result, same, retains, binds⟩ := Broker.claim_retains ready.orderly ready.known
    ready.running ready.opened c (conn.map Connection.id) there
  refine ⟨after, result, same, ?_, retains, fun x new => binds x.id (by rw [new]; rfl)⟩
  exact (Broker.claim_changes [] [] ready.orderly same).1.orderly ready.orderly

theorem step_accounted {t : Takeover} (accounted : t.Accounted) {call : Call}
    (fresh : ∀ conn, call.connection? = some conn → t.broker.told conn = none) :
    (t.step call).Accounted ∧ ∀ other, call.connection? ≠ some other →
      ((t.step call).broker.told other).isSome = (t.broker.told other).isSome := by
  have orderly := accounted.orderly
  cases call with
  | claim c conn =>
      have fresh : ∀ x, conn = some x → t.broker.told x.id = none := by
        rintro x rfl
        exact fresh x.id rfl
      obtain ⟨after, result, done, orderly, retains, binds⟩ := claimed_retains accounted c fresh
      simp only [step, done]
      constructor
      · refine (accounted.informed fresh).retained orderly retains ?_ ?_
        · intro id other member
          rcases List.mem_append.mp member with old | new
          · exact Or.inl old
          · obtain ⟨x, rfl, same⟩ := Option.map_eq_some_iff.mp (Option.mem_toList.mp new)
            cases same
            exact Or.inr (binds x rfl)
        · rintro other (old | none)
          · exact old
          · cases none
      · intro other different
        rw [retains.known, knowing_told different]
  | destroy uid =>
      have retains := Broker.destroy_retains orderly accounted.known uid
      refine ⟨accounted.retained (orderly.destroy uid) retains (fun _ _ => Or.inl) ?_,
        fun other _ => retains.known other⟩
      rintro other (old | none)
      · exact old
      · cases none
  | release uid conn =>
      have retains := Broker.release_retains orderly accounted.known uid conn
      refine ⟨accounted.retained ?_ retains (fun _ _ => Or.inl) ?_, fun other _ => retains.known other⟩
      · have changes : Broker.Changes [] [] t.broker (t.broker.release uid conn) :=
          Broker.release_changes orderly uid conn
        exact changes.orderly orderly
      · intro other member
        exact List.mem_append.mpr member
  | subscribe uid grants requests =>
      have retains := Broker.requestSubscriptions_retains orderly uid grants requests
      let own : Client := { uid, principal := none, grants }
      have changes : Broker.Changes [own] [] t.broker
          (t.broker.requestSubscriptions uid grants requests).1 :=
        Broker.requestSubscriptions_changes (List.mem_singleton.mpr rfl) requests t.broker
      refine ⟨accounted.retained (changes.orderly orderly) retains (fun _ _ => Or.inl) ?_,
        fun other _ => retains.known other⟩
      rintro other (old | none)
      · exact old
      · cases none
  | unsubscribe uid filters =>
      have retains := Broker.requestUnsubscriptions_retains orderly uid filters
      have changes : Broker.Changes [] [] t.broker (t.broker.requestUnsubscriptions uid filters).1 :=
        t.broker.requestUnsubscriptions_changes uid filters
      refine ⟨accounted.retained (changes.orderly orderly) retains (fun _ _ => Or.inl) ?_,
        fun other _ => retains.known other⟩
      rintro other (old | none)
      · exact old
      · cases none

theorem run_accounted {t : Takeover} (accounted : t.Accounted) (calls : List Call)
    (distinct : (calls.filterMap Call.connection?).Nodup)
    (fresh : ∀ conn ∈ calls.filterMap Call.connection?, t.broker.told conn = none) :
    (t.run calls).Accounted := by
  induction calls generalizing t with
  | nil => exact accounted
  | cons call rest ih =>
      have first : ∀ conn, call.connection? = some conn → t.broker.told conn = none := by
        intro conn new
        apply fresh
        rw [List.filterMap_cons_some new]
        exact List.mem_cons_self ..
      obtain ⟨stepped, known⟩ := step_accounted accounted first
      have later : (rest.filterMap Call.connection?).Nodup ∧ ∀ conn ∈ rest.filterMap Call.connection?,
          call.connection? ≠ some conn ∧ t.broker.told conn = none := by
        cases new : call.connection? with
        | none =>
            rw [List.filterMap_cons_none new] at distinct fresh
            exact ⟨distinct, fun conn member => ⟨(Option.some_ne_none conn).symm, fresh conn member⟩⟩
        | some own =>
            rw [List.filterMap_cons_some new] at distinct fresh
            obtain ⟨absent, rest⟩ := List.nodup_cons.mp distinct
            refine ⟨rest, fun conn member => ⟨?_, fresh conn (List.mem_cons_of_mem _ member)⟩⟩
            rintro same
            cases same
            exact absent member
      refine ih stepped later.1 fun conn member => ?_
      obtain ⟨other, unknown⟩ := later.2 conn member
      have same := known conn other
      rw [unknown] at same
      simpa using same

end Takeover

/-- Every client has at most one session that is not closed: the one in the registry. -/
structure Broker.OnePerClient (b : Broker) : Prop where
  distinct : b.registry.keys.Nodup
  registered : ∀ id uid, (id, uid) ∈ b.registry →
    ∃ s, b.session? uid = some s ∧ s.info.id = id ∧ s.closed = false
  listed : ∀ uid s, b.session? uid = some s → s.closed = false → (s.info.id, uid) ∈ b.registry

namespace Takeover

open Broker (Claim)

theorem Accounted.onePerClient {t : Takeover} (accounted : t.Accounted) :
    t.broker.OnePerClient where
  distinct := accounted.registry.nodup
  registered id uid member :=
    accounted.orderly.live id uid (accounted.registry.mem_iff.mp member)
  listed uid s present live :=
    accounted.registry.mem_iff.mpr
      (accounted.orderly.listed uid s present live List.not_mem_nil)

theorem settled_present {b start : Broker} {c : Claim} {s : Session} {present : Bool}
    (settled : b.Settled c start s present) :
    (present = true ↔ ∃ x, b.find? c.id = some x ∧ x.info.cleanSession = false ∧ c.clean = false) ∧
      (present = true → b.find? c.id = some s) := by
  cases settled with
  | resumed found stays durable =>
      exact ⟨iff_of_true rfl ⟨s, found, stays, durable⟩, fun _ => found⟩
  | created absent =>
      refine ⟨iff_of_false Bool.false_ne_true ?_, fun no => nomatch no⟩
      rintro ⟨x, found, _⟩
      rw [absent] at found
      cases found
  | replaced found clean =>
      refine ⟨iff_of_false Bool.false_ne_true ?_, fun no => nomatch no⟩
      rintro ⟨x, again, stays, durable⟩
      rw [found] at again
      cases again
      rw [stays, durable] at clean
      cases clean

theorem Accounted.claims {t : Takeover} (accounted : t.Accounted) (c : Claim)
    (conn : Option Connection) :
    ∃ after result, claimed t.broker c conn = (after, .ok result) ∧
      (result.present = true ↔ ∃ s, t.broker.find? c.id = some s ∧ s.info.cleanSession = false ∧
        c.clean = false) ∧
      (result.present = true → ∀ s, t.broker.find? c.id = some s → result.uid = s.uid) := by
  have ready : (knowing t.broker conn).Orderly ∧
      (knowing t.broker conn).shuttingDown = false ∧
      (knowing t.broker conn).storage.closed = false ∧
      (knowing t.broker conn).find? c.id = t.broker.find? c.id := by
    cases conn with
    | none => exact ⟨accounted.orderly, accounted.running, accounted.opened, rfl⟩
    | some x =>
        exact ⟨accounted.orderly.beside ⟨rfl, rfl, rfl, rfl, rfl, rfl⟩ rfl, accounted.running,
          accounted.opened, rfl⟩
  obtain ⟨orderly, running, opened, found⟩ := ready
  obtain ⟨start, s, present, after, settled, _, same⟩ :=
    Broker.claim_succeeds orderly running opened c (conn.map Connection.id) true
  obtain ⟨resumed, own⟩ := settled_present settled
  rw [found] at resumed own
  refine ⟨after, _, same, resumed, fun there x here => ?_⟩
  rw [own there] at here
  cases here
  rfl

/-- In whatever order sessions are claimed for new connections, destroyed and left: a client has one
session at most; a connection that was bound to a session of the client is still bound to the one in
the registry, or has been told to end, or was gone first; a claim resumes the session in the registry
exactly if neither is clean; and what is done when another connection is gone changes nothing. -/
theorem single_connection {settings : Settings} {storage : Storage.Memory} {now : Nat}
    {clock : Int64} {broker : Broker} (restorable : storage.Restorable)
    (done : Broker.start settings storage now clock = .ok broker) (calls : List Call)
    (distinct : (calls.filterMap Call.connection?).Nodup) :
    let t := run { broker } calls
    t.broker.OnePerClient ∧
      (∀ id conn, (id, conn) ∈ t.bound →
        (∃ s, t.broker.find? id = some s ∧ s.client = some conn) ∨
          t.broker.isCancelled conn = true ∨ conn ∈ t.released) ∧
      (∀ c conn, ∃ after result, claimed t.broker c conn = (after, .ok result) ∧
        (result.present = true ↔ ∃ s, t.broker.find? c.id = some s ∧
          s.info.cleanSession = false ∧ c.clean = false) ∧
        (result.present = true → ∀ s, t.broker.find? c.id = some s → result.uid = s.uid)) ∧
      (∀ uid conn, (∀ id s, t.broker.find? id = some s → s.uid = uid → s.client ≠ some conn) →
        t.broker.release uid conn = t.broker) := by
  intro t
  have fresh : ∀ conn ∈ calls.filterMap Call.connection?, broker.told conn = none := by
    intro conn _
    rw [Broker.told, (Broker.start_disconnected done).connections]
    rfl
  have accounted : t.Accounted := run_accounted (.started restorable done) calls distinct fresh
  refine ⟨accounted.onePerClient, ?_, accounted.claims, fun uid conn => ?_⟩
  · intro id conn member
    rw [← accounted.orderly.binds_iff, Broker.isCancelled_iff]
    exact accounted.bound id conn member
  · exact Broker.release_stale accounted.orderly

def lateRelease : List Call :=
  [.claim { id := "c", clean := false } (some { id := 1, peer := 0 }),
    .claim { id := "c", clean := false } (some { id := 2, peer := 1 }),
    .release 1 1]

theorem lateRelease_second_stays :
    let t := run { broker := .new {} {} 0 0 } lateRelease
    t.broker.OnePerClient ∧ t.bound = [("c", 1), ("c", 2)] ∧ t.released = [] ∧
      t.broker.isCancelled 1 = true ∧ t.broker.isCancelled 2 = false ∧
      (t.broker.find? "c").bind Session.client = some 2 ∧ t.broker.release 1 1 = t.broker := by
  have begun : Broker.start {} {} 0 0 = .ok (.new {} {} 0 0) := rfl
  obtain ⟨one, _, _, stale⟩ := single_connection Storage.Memory.restorable_empty begun lateRelease
    (by decide)
  refine ⟨one, by decide, by decide, by decide, by decide, by decide, stale 1 1 ?_⟩
  intro id s found own client
  have second : (run { broker := .new {} {} 0 0 } lateRelease).broker.session? 1 = some s := by
    obtain ⟨uid, entry, present⟩ := Option.bind_eq_some_iff.mp found
    have registry : (run { broker := .new {} {} 0 0 } lateRelease).broker.registry =
        [("c", 1)] := by decide
    rw [registry, Table.get?_cons] at entry
    split at entry
    · cases entry
      exact present
    · cases entry
  have other : ((run { broker := .new {} {} 0 0 } lateRelease).broker.session? 1).bind
      Session.client = some 2 := by decide
  rw [second, Option.bind_some, client] at other
  cases other

end Takeover

end MqttBroker
