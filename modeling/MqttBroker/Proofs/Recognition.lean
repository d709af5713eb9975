import MqttBroker.Proofs.Readmission

/-!
Principals that are looked up again. A client shows its credentials once. Afterwards only its
principal is known, and for an account that is the name without the password. What is looked up are
the grants of the first account of the name, whichever of them has let the client in.
-/

namespace MqttBroker

theorem find?_and {α : Type} {p q : α → Bool} {l : List α} {x : α} (first : l.find? p = some x)
    (both : q x = true) : l.find? (fun a => p a && q a) = some x := by
  obtain ⟨own, front, rest, rfl, before⟩ := List.find?_eq_some_iff_append.mp first
  refine List.find?_eq_some_iff_append.mpr ⟨by rw [own, both]; rfl, front, rest, rfl, ?_⟩
  intro a member
  rw [Bool.not_and, before a member, Bool.true_or]

inductive Credentials
  | account (name : String) (password : Bytes)
  | certificate (commonName : String)
  | none

namespace Credentials

def shown (p : Connect) (commonName : Option String) : Credentials :=
  match p.username, commonName with
  | some name, _ => .account name (p.password.getD [])
  | Option.none, some name => .certificate name
  | Option.none, Option.none => .none

def principal : Credentials → Principal
  | .account name _ => .account name
  | .certificate name => .certificate name
  | .none => .anonymous

end Credentials

namespace Grants

theorem authorizes_everything {p : Permissions} (all : p.superuser = true) (ns : Namespaces)
    (vars : List (String × String)) (action : Action) (topic : String) :
    (ofPermissions p ns vars).authorizes action topic = true := by
  rw [authorizes, ofPermissions, all, Bool.true_or]

theorem authorizes_nothing (ns : Namespaces) (vars : List (String × String)) (action : Action)
    (topic : String) : (ofPermissions {} ns vars).authorizes action topic = false := by
  unfold authorizes
  cases Topic.parse topic with
  | error e => rfl
  | ok t => cases action <;> rfl

end Grants

namespace AccessControl

variable {ac : AccessControl} {c : Credentials} {grants : Grants}

def authenticate (ac : AccessControl) : Credentials → Option Grants
  | .account name password => ac.authenticateAccount name password
  | .certificate name => ac.authenticateCertificate name
  | .none => ac.anonymous

def first? (ac : AccessControl) (name : String) : Option Account :=
  ac.acl.accounts.find? fun a => a.username = name

/-- The password is that of the first account of the name. -/
def Leads (ac : AccessControl) : Credentials → Prop
  | .account name password => ∀ first, ac.first? name = some first → utf8 first.password = password
  | _ => True

def Recovers (ac : AccessControl) (c : Credentials) : Prop :=
  ∀ grants, ac.authenticate c = some grants → ∃ again, ac.lookup c.principal = some again ∧
    ∀ action topic, again.authorizes action topic = grants.authorizes action topic

/-- The same accounts with other permissions. -/
def granting (ac : AccessControl) (give : Account → Permissions) : AccessControl where
  acl := { ac.acl with accounts := ac.acl.accounts.map fun a => { a with permissions := give a } }
  namespaces := ac.namespaces

theorem lookup_account (ac : AccessControl) (name : String) :
    ac.lookup (.account name) =
      (ac.first? name).map fun first => ac.accountGrants name first.permissions := rfl

theorem first?_of_authenticated {name : String} {password : Bytes}
    (authenticated : ac.authenticateAccount name password = some grants) :
    ∃ first, ac.first? name = some first := by
  obtain ⟨a, found, _⟩ := Option.map_eq_some_iff.mp authenticated
  rw [← Option.isSome_iff_exists, first?, List.find?_isSome]
  have own := List.find?_some found
  exact ⟨a, List.mem_of_find?_eq_some found, (Bool.and_eq_true_iff.mp own).1⟩

theorem lookup_of_authenticated (authenticated : ac.authenticate c = some grants) :
    ∃ again, ac.lookup c.principal = some again := by
  cases c with
  | account name password =>
      obtain ⟨first, found⟩ := first?_of_authenticated authenticated
      exact ⟨_, by rw [Credentials.principal, lookup_account, found]; rfl⟩
  | certificate name => exact ⟨grants, authenticated⟩
  | none => exact ⟨grants, authenticated⟩

theorem lookup_of_leads (leads : ac.Leads c) (authenticated : ac.authenticate c = some grants) :
    ac.lookup c.principal = some grants := by
  cases c with
  | account name password =>
      obtain ⟨first, found⟩ := first?_of_authenticated authenticated
      have own : ac.acl.accounts.find?
          (fun a => a.username = name && utf8 a.password = password) = some first :=
        find?_and found (decide_eq_true (leads first found))
      rw [authenticate, authenticateAccount, own] at authenticated
      rw [Credentials.principal, lookup_account, found]
      exact authenticated
  | certificate name => exact authenticated
  | none => exact authenticated

section Granting

variable (give : Account → Permissions)

theorem granting_first? (ac : AccessControl) (name : String) :
    (ac.granting give).first? name =
      (ac.first? name).map fun a => { a with permissions := give a } :=
  List.find?_map ..

theorem granting_authenticateAccount (ac : AccessControl) (name : String) (password : Bytes) :
    (ac.granting give).authenticateAccount name password =
      (ac.acl.accounts.find? fun a => a.username = name && utf8 a.password = password).map
        fun a => ac.accountGrants name (give a) := by
  simp only [authenticateAccount, granting, List.find?_map, Option.map_map]
  rfl

theorem granting_leads (leads : ac.Leads c) : (ac.granting give).Leads c := by
  cases c with
  | account name password =>
      intro first found
      rw [granting_first?] at found
      obtain ⟨a, own, rfl⟩ := Option.map_eq_some_iff.mp found
      exact leads a own
  | _ => trivial

theorem granting_authenticates (ac : AccessControl) (c : Credentials) :
    ((ac.granting give).authenticate c).isSome = (ac.authenticate c).isSome := by
  cases c with
  | account name password =>
      rw [authenticate, authenticate, granting_authenticateAccount, authenticateAccount,
        Option.isSome_map, Option.isSome_map]
  | _ => rfl

end Granting

/-- The answers are the same, whatever the accounts may do, for those alone who come with the
password of the first account of their name. -/
theorem recovers_iff (ac : AccessControl) (c : Credentials) :
    (∀ give, (ac.granting give).Recovers c) ↔ ((ac.authenticate c).isSome = true → ac.Leads c) := by
  constructor
  · intro recovers authenticates
    cases c with
    | account name password =>
        -- every account but those with the password may do everything
        let give : Account → Permissions := fun a => { superuser := utf8 a.password ≠ password }
        intro first found
        by_contra other
        rw [authenticate, authenticateAccount, Option.isSome_map] at authenticates
        obtain ⟨a, own⟩ := Option.isSome_iff_exists.mp authenticates
        have same := List.find?_some own
        simp only [Bool.and_eq_true, decide_eq_true_eq] at same
        obtain ⟨again, looked, answers⟩ := recovers give (ac.accountGrants name (give a)) (by
          rw [authenticate, granting_authenticateAccount, own]
          rfl)
        rw [Credentials.principal, lookup_account, granting_first?, found] at looked
        cases looked
        have all : (give first).superuser = true := decide_eq_true other
        have none : give a = {} := by simp only [give, same.2, ne_eq, not_true, decide_false]
        have refused : (ac.accountGrants name (give a)).authorizes .publish "" = false := by
          rw [none]
          exact Grants.authorizes_nothing ..
        have granted := (answers .publish "").symm.trans (Grants.authorizes_everything all ..)
        rw [refused] at granted
        cases granted
    | _ => trivial
  · intro leads give grants authenticated
    have authenticates := granting_authenticates give ac c
    rw [authenticated] at authenticates
    have again := lookup_of_leads (granting_leads give (leads authenticates.symm)) authenticated
    exact ⟨grants, again, fun _ _ => rfl⟩

end AccessControl

namespace Broker

open AccessControl

theorem authenticate_eq_ok {b : Broker} {p : Connect} {commonName : Option String} {grants : Grants}
    {principal : Principal} : b.authenticate p commonName = .ok (grants, principal) ↔
      b.access.authenticate (.shown p commonName) = some grants ∧
        principal = (Credentials.shown p commonName).principal := by
  unfold authenticate Credentials.shown
  cases p.username with
  | some name =>
      simp only [AccessControl.authenticate, Credentials.principal]
      cases b.access.authenticateAccount name (p.password.getD []) <;> simp [eq_comm]
  | none =>
      cases commonName with
      | some name =>
          simp only [AccessControl.authenticate, Credentials.principal]
          cases b.access.authenticateCertificate name <;> simp [eq_comm]
      | none =>
          simp only [AccessControl.authenticate, Credentials.principal]
          cases b.access.anonymous <;> simp [eq_comm]

theorem admitted_all {settings : Settings} {grants : Option Grants} {t : Table String QoS}
    (granted : ∀ e ∈ t, e.2 ≠ .exactlyOnce ∧ admits settings grants e.1 = true) :
    admitted settings grants t = t ∧ refused settings grants t = 0 := by
  constructor
  · rw [admitted_of_supported fun e member => (granted e member).1]
    exact List.filter_eq_self.mpr fun e member => (granted e member).2
  · rw [refused, List.countP_eq_zero]
    intro e member
    simp [(granted e member).2]

/-- Whoever has been let in is found again, with the grants that the first account of the name has.
Those are the grants that the client was given if it came with the password of that account, or
without an account; for other passwords they differ as the permissions do. A session is started
again with the subscriptions that are granted to whom is found: with all that the client was
granted, if it came so. -/
theorem lookup_recovers (ac : AccessControl) (c : Credentials) :
    (∀ grants, ac.authenticate c = some grants → ∃ again, ac.lookup c.principal = some again ∧
      (ac.Leads c → again = grants)) ∧
    ((∀ give, (ac.granting give).Recovers c) ↔
      ((ac.authenticate c).isSome = true → ac.Leads c)) ∧
    ∀ settings storage now clock b, settings.access = ac → storage.Restorable →
      start settings storage now clock = .ok b →
      ∀ again, ac.lookup c.principal = some again →
      ∀ id info, storage.durable? id = some info → info.principal = some c.principal →
        ∃ s, b.find? id = some s ∧
          s.info = { info with
            subscriptions := admitted settings (some again) info.subscriptions } ∧
          ∀ grants, ac.authenticate c = some grants → ac.Leads c →
            (∀ e ∈ info.subscriptions,
              e.2 ≠ .exactlyOnce ∧ admits settings (some grants) e.1 = true) →
            s.info = info ∧
              b.storage.entries.get? (Session.key id) = storage.entries.get? (Session.key id) := by
  refine ⟨fun grants authenticated => ?_, ac.recovers_iff c, ?_⟩
  · obtain ⟨again, looked⟩ := lookup_of_authenticated authenticated
    refine ⟨again, looked, fun leads => ?_⟩
    exact Option.some.inj (looked.symm.trans (lookup_of_leads leads authenticated))
  · rintro settings storage now clock b rfl restorable done again looked id info durable recorded
    obtain ⟨_, _, readmits⟩ := start_readmits restorable done
    obtain ⟨s, live, taken, untouched, _⟩ := readmits id info durable
    have known : info.principal.bind settings.access.lookup = some again := by
      rw [recorded, Option.bind_some, looked]
    rw [Settings.access] at known
    rw [known] at taken untouched
    refine ⟨s, live, taken, fun grants authenticated leads granted => ?_⟩
    have same := Option.some.inj (looked.symm.trans (lookup_of_leads leads authenticated))
    subst same
    obtain ⟨all, none⟩ := admitted_all granted
    rw [all] at taken
    exact ⟨taken, untouched none⟩

def annTwice : Settings where
  acl := { accounts := [
    { username := "ann", password := "p", permissions := { subscribe := ["a"] } },
    { username := "ann", password := "q", permissions := { subscribe := ["b"] } }] }

def annSession (filter : String) : SessionInfo where
  id := "c"
  cleanSession := false
  subscriptions := [(filter, .atLeastOnce)]
  principal := some (.account "ann")

def annRecorded (filter : String) : Storage.Memory where
  entries := [(Session.key "c", Codec.Json.store (Codec.Json.ofSession (annSession filter)))]

theorem annRecorded_restorable (filter : String) : (annRecorded filter).Restorable :=
  ⟨Storage.Memory.named_empty.of_eq rfl rfl rfl, Storage.filed_empty.record (annSession filter)⟩

theorem annRecorded_durable (filter : String) :
    (annRecorded filter).durable? "c" = some (annSession filter) := by
  have tidy : (annSession filter).Tidy := by
    constructor
    · exact List.pairwise_singleton ..
    · intro e member
      rw [List.mem_singleton.mp member]
      exact nofun
  exact Storage.Memory.durable?_recorded tidy (SessionInfo.record?_eq_some.mpr ⟨rfl, rfl⟩)
    (by simp [annRecorded, Table.get?])

theorem annTwice_started (filter : String) :
    ∃ b, start annTwice (annRecorded filter) 0 0 = .ok b := by
  obtain ⟨b, done, _⟩ := start_readmitted (annRecorded_restorable filter) rfl annTwice 0 0
  exact ⟨b, done⟩

theorem annTwice_first_keeps : ∃ grants b s,
    annTwice.access.authenticate (.account "ann" (utf8 "p")) = some grants ∧
      annTwice.access.lookup (.account "ann") = some grants ∧
      start annTwice (annRecorded "a") 0 0 = .ok b ∧ b.find? "c" = some s ∧
      s.info = annSession "a" := by
  have authenticated : annTwice.access.authenticate (.account "ann" (utf8 "p")) =
      some (annTwice.access.accountGrants "ann" { subscribe := ["a"] }) := rfl
  have leads : annTwice.access.Leads (.account "ann" (utf8 "p")) := by
    rintro _ ⟨⟩
    rfl
  obtain ⟨found, _, restarted⟩ := lookup_recovers annTwice.access (.account "ann" (utf8 "p"))
  obtain ⟨again, looked, same⟩ := found _ authenticated
  cases same leads
  obtain ⟨b, done⟩ := annTwice_started "a"
  obtain ⟨s, live, _, keeps⟩ := restarted annTwice _ 0 0 b rfl (annRecorded_restorable "a") done _
    looked "c" _ (annRecorded_durable "a") rfl
  obtain ⟨taken, _⟩ := keeps _ authenticated leads (by decide)
  exact ⟨_, b, s, authenticated, looked, done, live, taken⟩

/-- The other account is let in to its own topic, and is looked up as the first one. After a start
its session has lost the topic. -/
theorem annTwice_second_lost :
    ((annTwice.access.authenticateAccount "ann" (utf8 "q")).map
      fun grants => (grants.authorizes .subscribe "a", grants.authorizes .subscribe "b")) =
        some (false, true) ∧
    ((annTwice.access.lookup (.account "ann")).map
      fun grants => (grants.authorizes .subscribe "a", grants.authorizes .subscribe "b")) =
        some (true, false) ∧
    ∃ b s, start annTwice (annRecorded "b") 0 0 = .ok b ∧ b.find? "c" = some s ∧
      s.info = { annSession "b" with subscriptions := [] } := by
  refine ⟨by decide, by decide, ?_⟩
  obtain ⟨b, done⟩ := annTwice_started "b"
  obtain ⟨_, _, readmits⟩ := start_readmits (annRecorded_restorable "b") done
  obtain ⟨s, live, taken, _⟩ := readmits "c" _ (annRecorded_durable "b")
  refine ⟨b, s, done, live, ?_⟩
  rw [taken]
  rfl

end Broker

end MqttBroker
