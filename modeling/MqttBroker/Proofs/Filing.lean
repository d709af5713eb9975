import MqttBroker.Proofs.Records
import MqttBroker.Proofs.Sessions

/-!
The entries that a broker keeps in storage. Among them are the records of its sessions, each filed
under the id of its session.
-/

namespace MqttBroker

namespace Storage

structure Filed (entries : Table String Bytes) : Prop where
  increasing : entries.Increasing
  own : ∀ key data, (key, data) ∈ entries → Text.startsWith Session.keyStart key = true →
    ∀ info, Codec.Json.load? Codec.Json.toSession? data = some info → key = Session.key info.id

theorem filed_empty : Filed [] := ⟨List.Pairwise.nil, fun _ _ member => nomatch member⟩

theorem Filed.erase {entries : Table String Bytes} (filed : Filed entries) (key : String) :
    Filed (entries.erase key) where
  increasing := filed.increasing.erase key
  own other data member := filed.own other data (List.mem_of_mem_filter member)

theorem Filed.insert {entries : Table String Bytes} (filed : Filed entries) {key : String}
    {data : Bytes} (own : Text.startsWith Session.keyStart key = true → ∀ info,
      Codec.Json.load? Codec.Json.toSession? data = some info → key = Session.key info.id) :
    Filed (entries.insert key data) where
  increasing := filed.increasing.insert key data
  own other content member := by
    rcases Table.mem_insert member with same | old
    · cases same
      exact own
    · exact filed.own other content old

theorem Filed.record {entries : Table String Bytes} (filed : Filed entries) (s : SessionInfo) :
    Filed (entries.insert (Session.key s.id) (Codec.Json.store (Codec.Json.ofSession s))) := by
  refine filed.insert fun _ info read => ?_
  rw [Codec.Json.load?_ofSession] at read
  cases read
  rfl

theorem startsWith_retained (topic : String) :
    Text.startsWith Session.keyStart (RetainStore.key topic) = false := by
  simp [Text.startsWith, Session.keyStart, RetainStore.key, RetainStore.keyStart, List.isPrefixOf]

namespace Memory

theorem bucket_entries {m m' : Memory} {name : String} {h : Handle}
    (opened : m.bucket name = .ok (m', h)) : m'.entries = m.entries := by
  rcases bucket_ok opened with ⟨_, rfl⟩ | ⟨_, _, rfl⟩ <;> rfl

theorem closeBucket_entries (m : Memory) (h : Handle) (clean : Bool) :
    (m.closeBucket h clean).entries = m.entries := by
  unfold closeBucket
  split <;> rfl

end Memory

end Storage

namespace StoredQueue

variable {τ : Type}

theorem turns_entries (s : StoredQueue τ) (m : Storage.Memory)
    (activities : List DurableQueue.Activity) :
    (s.turns m activities).memory.entries = m.entries := by
  unfold turns work
  split <;> rfl

theorem close_entries (s : StoredQueue τ) (m : Storage.Memory) (time : Int64) (clean : Bool) :
    (s.close m time clean).memory.entries = m.entries := by
  unfold close
  split
  · rfl
  · simp only [Storage.Memory.closeBucket_entries]
    unfold stop
    split <;> rfl

end StoredQueue

theorem RetainStore.set_filed {r : RetainStore} {m m' : Storage.Memory} {p : Publish}
    (done : (r.set m p).2 = .ok m') :
    ∃ entries, m' = { m with entries } ∧ (Storage.Filed m.entries → Storage.Filed entries) := by
  unfold set at done
  dsimp only at done
  split at done
  · obtain ⟨_, rfl⟩ := Broker.deleteEntry_ok done
    exact ⟨_, rfl, fun filed => filed.erase _⟩
  · split at done
    · cases done
    · rename_i set
      cases done
      obtain ⟨_, rfl⟩ := Broker.setEntry_ok set
      refine ⟨_, rfl, fun filed => filed.insert fun under => ?_⟩
      rw [Storage.startsWith_retained] at under
      cases under

namespace Broker

variable {b b' : Broker}

theorem storageWithout_entries (b : Broker) (s : Session) (cleanup : Bool) :
    (b.storageWithout s cleanup).entries = b.storage.entries := by
  unfold storageWithout
  split
  · rfl
  · exact StoredQueue.close_entries ..

theorem turns_entries (b : Broker) (uid : SessionUid) (activities : List DurableQueue.Activity) :
    (b.turns uid activities).storage.entries = b.storage.entries := by
  unfold turns withQueue
  split
  · rfl
  · split
    · rfl
    · rename_i s _ q _
      obtain ⟨_, _, frame⟩ := doneAll_frame _ _
      rw [frame]
      exact StoredQueue.turns_entries ..

theorem subscribe_entries {uid : SessionUid} {filter : String} {qos : QoS} {added : Bool}
    (done : b.subscribe uid filter qos = .ok (b', added)) :
    b'.storage.entries = b.storage.entries := by
  obtain ⟨_, s, storage, _, _, queues, _, _, _, _, provided, _, rfl⟩ := subscribe_changes done
  cases provided with
  | before _ => rfl
  | now _ opened => exact Storage.Memory.bucket_entries opened

theorem unsubscribe_entries {uid : SessionUid} {filter : String} {removed : Bool}
    (done : b.unsubscribe uid filter = .ok (b', removed)) :
    b'.storage.entries = b.storage.entries := by
  obtain ⟨rfl, _⟩ | ⟨s, _, _, _, storage, _, _, _, _, _, _, _, _, _, _, _, _, emptied, _, _, rfl⟩ :=
    unsubscribe_changes done
  · rfl
  · rcases emptied with ⟨_, rfl, _⟩ | ⟨_, rfl, _⟩
    · rfl
    · exact b.storageWithout_entries s true

theorem closeSession_filed (filed : Storage.Filed b.storage.entries) (uid : SessionUid)
    (cleanup : Bool) : Storage.Filed (b.closeSession uid cleanup).1.storage.entries := by
  rcases b.closeSession_cases uid cleanup with ⟨_, same⟩ | ⟨s, present, live⟩
  · rw [same]
    exact filed
  · obtain ⟨entries, _, _, _, _, _, kept, _, after⟩ := closeSession_changes present live cleanup
    rw [after]
    rcases kept with rfl | ⟨_, rfl⟩
    · exact b.storageWithout_entries s cleanup ▸ filed
    · exact (b.storageWithout_entries s cleanup ▸ filed).erase _

theorem destroy_filed (filed : Storage.Filed b.storage.entries) (uid : SessionUid) :
    Storage.Filed (b.destroy uid).1.storage.entries := by
  unfold destroy
  split
  · exact filed
  · apply closeSession_filed
    split
    · exact filed
    · exact filed

theorem closeSessions_filed (filed : Storage.Filed b.storage.entries) :
    Storage.Filed b.closeSessions.storage.entries := by
  rw [closeSessions_closeListed]
  generalize b.registry.values = uids
  suffices folded : ∀ before : Broker, Storage.Filed before.storage.entries →
      Storage.Filed (uids.foldl closeListed before).storage.entries from folded _ filed
  induction uids with
  | nil => exact fun _ filed => filed
  | cons uid rest ih => exact fun before filed => ih _ (closeSession_filed filed uid _)

end Broker

end MqttBroker
