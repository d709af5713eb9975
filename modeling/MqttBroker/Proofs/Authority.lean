import MqttBroker.Proofs.Histories

/-!
By whose authority sessions hold their filters. A filter was granted to one of the clients that the
session has had. If all of them were the principal that the session is recorded for, that principal
may have the filter. A session that others have had before keeps what was granted to them.
-/

namespace MqttBroker

namespace AccessControl

inductive Vouches (ac : AccessControl) : Principal → Grants → Prop
  | account {name password grants} : ac.authenticateAccount name password = some grants →
      Vouches ac (.account name) grants
  | known {principal grants} : ac.lookup principal = some grants → Vouches ac principal grants

/-- Where no two accounts have one name, a principal is given the same grants every time. -/
theorem Vouches.lookup {ac : AccessControl} {principal : Principal} {grants : Grants}
    (vouches : ac.Vouches principal grants)
    (distinct : (ac.acl.accounts.map Account.username).Nodup) :
    ac.lookup principal = some grants := by
  cases vouches with
  | known found => exact found
  | account authenticated =>
      rename_i name password
      obtain ⟨a, found, rfl⟩ := Option.map_eq_some_iff.mp authenticated
      have member := List.mem_of_find?_eq_some found
      have same : a.username = name := by
        have both := List.find?_some found
        simp only [Bool.and_eq_true, decide_eq_true_eq] at both
        exact both.1
      suffices first : ac.acl.accounts.find? (fun a => a.username = name) = some a by
        simp only [AccessControl.lookup, first, Option.map_some]
      obtain ⟨x, other⟩ : ∃ x, ac.acl.accounts.find? (fun a => a.username = name) = some x := by
        rw [← Option.isSome_iff_exists, List.find?_isSome]
        exact ⟨a, member, by simpa using same⟩
      have same' : x.username = name := by simpa using List.find?_some other
      rw [other, List.inj_on_of_nodup_map distinct (List.mem_of_find?_eq_some other) member
        (same'.trans same.symm)]

end AccessControl

namespace Broker

variable {clients : List Client} {handed : List (SessionUid × Publish)} {b b' : Broker}

def Authorized (clients : List Client) (b : Broker) : Prop :=
  ∀ uid s filter, b.session? uid = some s → s.closed = false → s.holds filter = true →
    ∃ c ∈ clients, c.uid = uid ∧ c.grants.authorizes .subscribe filter = true

theorem Authorized.reformed (authorized : Authorized clients b) {s s' : Session}
    (reforms : Reforms b b' s s')
    (held : ∀ filter, s'.closed = false → s'.holds filter = true →
      s.closed = false ∧ s.holds filter = true ∨
        ∃ c ∈ clients, c.uid = s.uid ∧ c.grants.authorizes .subscribe filter = true) :
    Authorized clients b' := by
  intro uid x filter present live holds
  rw [reforms.found] at present
  split at present
  · rename_i same
    cases present
    subst same
    rcases held filter live holds with ⟨live, before⟩ | granted
    · exact authorized s.uid s filter reforms.present live before
    · exact granted
  · exact authorized uid x filter present live holds

theorem Authorized.effect (authorized : Authorized clients b) (orderly : b.Orderly)
    (effect : Effect clients handed b b') : Authorized clients b' := by
  cases effect with
  | still still =>
      unfold Authorized
      rw [still.session?]
      exact authorized
  | created id clean _ _ =>
      intro uid s filter present live holds
      rw [create_session?] at present
      split at present
      · cases present
        cases holds
      · exact authorized uid s filter present live holds
  | stopped _ =>
      intro uid s filter present live
      rw [orderly.closeSessions.2.1 uid s present] at live
      cases live
  | reformed reforms reformed =>
      rename_i s s'
      refine authorized.reformed reforms fun filter live holds => ?_
      cases reformed with
      | used used _ =>
          refine Or.inl ⟨used.closed.symm.trans live, ?_⟩
          rw [Session.holds, ← used.subscriptions]
          exact holds
      | queued _ _ _ same _ =>
          subst same
          exact Or.inl ⟨live, holds⟩
      | turned _ _ same _ =>
          subst same
          exact Or.inl ⟨live, holds⟩
      | subscribed member own granted open' _ _ info =>
          rw [Session.holds, info, Session.holds_insert, Bool.or_eq_true] at holds
          rcases holds with same | before
          · rw [of_decide_eq_true same]
            exact Or.inr ⟨_, member, own, granted⟩
          · exact Or.inl ⟨open', before⟩
      | unsubscribed closed info _ _ =>
          rw [Session.holds, info, Session.holds_erase, Bool.and_eq_true] at holds
          exact Or.inl ⟨closed.symm.trans live, holds.2⟩
      | closed _ closed _ _ _ =>
          rw [closed] at live
          cases live

theorem Changes.authorized (changes : Changes clients handed b b') (orderly : b.Orderly)
    (authorized : Authorized clients b) : Authorized clients b' :=
  (changes.preserve (P := Authorized clients)
    (fun orderly authorized change => authorized.effect orderly (change.effect orderly))
    orderly authorized).2

theorem Effect.access (effect : Effect clients handed b b') : b'.access = b.access := by
  cases effect with
  | still still => exact still.access
  | reformed reforms _ => exact reforms.access
  | created id clean _ _ => rfl
  | stopped _ => exact b.closeSessions_frame.1

theorem Changes.access (changes : Changes clients handed b b') (orderly : b.Orderly) :
    b'.access = b.access :=
  (changes.preserve (P := fun x => x.access = b.access)
    (fun orderly same change => (change.effect orderly).access.trans same) orderly rfl).2

theorem Resumed.authorized {storage : Storage.Memory} (resumed : Resumed storage b) :
    Authorized b.recorded b := by
  intro uid s filter present live held
  obtain ⟨grants, found, authorized⟩ := resumed.entitled uid s present filter held
  refine ⟨⟨uid, s.info.principal, grants⟩, ?_, rfl, authorized⟩
  refine List.mem_filterMap.mpr ⟨s, Table.mem_values present, ?_⟩
  rw [found, (resumed.orderly.own present).1]
  rfl

theorem checkConnect_authenticates {p : Connect} {commonName : Option String} {uuid : String}
    {c : Claim} {grants : Grants} (checked : b.checkConnect p commonName uuid = .ok (c, grants)) :
    ∃ principal, b.authenticate p commonName = .ok (grants, principal) ∧
      c.principal = some principal := by
  cases known : protocolLevels.contains p.protocolLevel with
  | false =>
      simp only [checkConnect, known] at checked
      cases checked
  | true =>
      simp only [checkConnect, known, Bool.not_true, Bool.false_eq_true, if_false,
        bind_eq_ok] at checked
      obtain ⟨_, _, ⟨_, principal⟩, authenticated, entered⟩ := checked
      split at entered
      · simp only [bind_eq_ok] at entered
        obtain ⟨_, _, same⟩ := entered
        cases same
        exact ⟨principal, authenticated, rfl⟩
      · cases entered
        exact ⟨principal, authenticated, rfl⟩

theorem authenticate_vouches {p : Connect} {commonName : Option String} {grants : Grants}
    {principal : Principal}
    (authenticated : b.authenticate p commonName = .ok (grants, principal)) :
    b.access.Vouches principal grants := by
  unfold authenticate at authenticated
  split at authenticated <;> split at authenticated <;> cases authenticated
  · rename_i found
    exact .account found
  · rename_i found
    exact .known found
  · rename_i found
    exact .known found

end Broker

def Client.Vouched (ac : AccessControl) (c : Client) : Prop :=
  ∃ principal, c.principal = some principal ∧ ac.Vouches principal c.grants

theorem Broker.recorded_vouched (b : Broker) : ∀ c ∈ b.recorded, c.Vouched b.access := by
  intro c member
  obtain ⟨s, _, made⟩ := List.mem_filterMap.mp member
  obtain ⟨grants, found, rfl⟩ := Option.map_eq_some_iff.mp made
  obtain ⟨principal, known, looked⟩ := Option.bind_eq_some_iff.mp found
  exact ⟨principal, known, .known looked⟩

namespace History

theorem acceptClient_vouched {b b' : Broker} {p : Connect} {commonName : Option String}
    {uuid : String} {peer : PeerId} {c : Client} {conn : ConnectionId} {claimed : Broker.Claimed}
    (accepted : b.acceptClient p commonName uuid peer = (b', .ok (c, conn, claimed))) :
    c.Vouched b.access := by
  unfold Broker.acceptClient at accepted
  dsimp only at accepted
  split at accepted
  · cases accepted
  · rename_i claim grants checked
    split at accepted
    · cases accepted
    · cases accepted
      obtain ⟨principal, authenticated, same⟩ := Broker.checkConnect_authenticates checked
      exact ⟨principal, same, Broker.authenticate_vouches authenticated⟩

theorem step_vouched {h : History} (vouched : ∀ c ∈ h.clients, c.Vouched h.broker.access)
    (a : Act) : ∀ c ∈ (h.step a).clients, c.Vouched h.broker.access := by
  cases a with
  | connect p commonName uuid peer =>
      simp only [step]
      split
      · exact vouched
      · rename_i broker client conn claimed accepted
        intro c member
        rcases List.mem_append.mp member with before | new
        · exact vouched c before
        · rw [List.mem_singleton.mp new]
          exact acceptClient_vouched accepted
  | subscribe client requests =>
      simp only [step]
      split <;> exact vouched
  | persist uid =>
      simp only [step]
      split <;> exact vouched
  | closeSessions =>
      simp only [step]
      split <;> exact vouched
  | _ => exact vouched

theorem run_vouched {h : History} (orderly : h.broker.Orderly)
    (vouched : ∀ c ∈ h.clients, c.Vouched h.broker.access) (acts : List Act) :
    ∀ c ∈ (h.run acts).clients, c.Vouched (h.run acts).broker.access := by
  induction acts generalizing h with
  | nil => exact vouched
  | cons a rest ih =>
      have changes := (step_continues orderly a).changes
      refine ih (changes.orderly orderly) fun c member => ?_
      rw [changes.access orderly]
      exact step_vouched vouched a c member

/-- Every filter of a session that is bound to a connection was granted to a client that the session
has had. If its clients have all been the principal that it is recorded for, that principal is
granted the filter, and is so again when it is looked up if accounts have names of their own. -/
theorem held_filters_granted {settings : Settings} {storage : Storage.Memory} {now : Nat}
    {clock : Int64} {fresh : Broker} (restorable : storage.Restorable)
    (begun : Broker.start settings storage now clock = .ok fresh) (acts : List Act) {h : History}
    (reached : h = (started fresh).run acts) {uid : SessionUid} {s : Session}
    (present : h.broker.session? uid = some s) {conn : ConnectionId} (bound : s.client = some conn)
    {filter : String} (held : s.holds filter = true) :
    (∃ c ∈ h.clients, c.uid = uid ∧ c.Vouched h.broker.access ∧
      c.grants.authorizes .subscribe filter = true) ∧
    ((∀ c ∈ h.clients, c.uid = uid → c.principal = s.info.principal) →
      ∃ principal grants, s.info.principal = some principal ∧
        h.broker.access.Vouches principal grants ∧ grants.authorizes .subscribe filter = true ∧
        ((h.broker.access.acl.accounts.map Account.username).Nodup →
          h.broker.access.lookup principal = some grants)) := by
  have resumed := Broker.start_resumed restorable begun
  have continues := run_continues resumed.orderly acts (h := started fresh)
  rw [← reached] at continues
  have orderly := continues.changes.orderly resumed.orderly
  have live : s.closed = false := by
    cases closed : s.closed with
    | false => rfl
    | true =>
        rw [orderly.gone uid s present closed] at bound
        cases bound
  have recorded : Broker.Authorized h.clients fresh := by
    intro w x f here open' holds
    obtain ⟨c, member, own⟩ := resumed.authorized w x f here open' holds
    exact ⟨c, continues.clients member, own⟩
  obtain ⟨c, member, own, granted⟩ :=
    continues.changes.authorized resumed.orderly recorded uid s filter present live held
  have vouched : c.Vouched h.broker.access := by
    subst reached
    exact run_vouched resumed.orderly fresh.recorded_vouched acts c member
  refine ⟨⟨c, member, own, vouched, granted⟩, fun only => ?_⟩
  obtain ⟨principal, known, vouches⟩ := vouched
  have recorded := (only c member own).symm.trans known
  exact ⟨principal, c.grants, recorded, vouches, granted, vouches.lookup⟩

def twoAccounts : Settings where
  acl := { accounts := [
    { username := "ann", password := "p", permissions := { subscribe := ["ann/#"] } },
    { username := "bob", password := "q", permissions := { subscribe := ["bob/#"] } }] }

def connectAs (name password : String) : Connect :=
  { protocolLevel := 4, clientId := "c", cleanSession := false, keepAlive := 0,
    username := some name, password := some (utf8 password) }

def annSubscribed : History :=
  run (started (.new twoAccounts {} 0 0))
    [.connect (connectAs "ann" "p") none "" 0, .subscribe 0 [("ann/x", .atLeastOnce)]]

theorem annSubscribed_granted : ∃ s, annSubscribed.broker.session? 1 = some s ∧
    s.client = some 1 ∧ s.holds "ann/x" = true ∧ s.info.principal = some (.account "ann") ∧
    (∀ c ∈ annSubscribed.clients, c.uid = 1 → c.principal = s.info.principal) ∧
    ∃ grants, annSubscribed.broker.access.lookup (.account "ann") = some grants ∧
      grants.authorizes .subscribe "ann/x" = true := by
  obtain ⟨s, present, bound, held, recorded⟩ : ∃ s, annSubscribed.broker.session? 1 = some s ∧
      s.client = some 1 ∧ s.holds "ann/x" = true ∧ s.info.principal = some (.account "ann") :=
    ⟨_, rfl, rfl, rfl, rfl⟩
  have only : ∀ c ∈ annSubscribed.clients, c.uid = 1 → c.principal = s.info.principal := by
    rw [recorded]
    decide
  refine ⟨s, present, bound, held, recorded, only, ?_⟩
  have begun : Broker.start twoAccounts {} 0 0 = .ok (.new twoAccounts {} 0 0) := rfl
  obtain ⟨_, own⟩ := held_filters_granted Storage.Memory.restorable_empty begun _ rfl present bound
    held
  obtain ⟨principal, grants, same, _, granted, looked⟩ := own only
  rw [recorded] at same
  cases same
  exact ⟨grants, looked (by decide), granted⟩

/-- The next account that comes with the client id has the filter, which it would not be granted. -/
theorem annSubscribed_inherited : ∃ s,
    (annSubscribed.step (.connect (connectAs "bob" "q") none "" 1)).broker.session? 1 = some s ∧
      s.client = some 2 ∧ s.holds "ann/x" = true ∧ s.info.principal = some (.account "bob") ∧
      (annSubscribed.broker.access.lookup (.account "bob")).map
        (fun grants => grants.authorizes .subscribe "ann/x") = some false :=
  ⟨_, rfl, rfl, rfl, rfl, by decide⟩

end History

end MqttBroker
