import MqttBroker.Proofs.Success
import MqttBroker.Proofs.Table
import MqttBroker.Storage.Memory

/-!
Buckets in storage are never lost: a handle stays one of a bucket, whatever is done with the
storage. An open storage does what it is asked.
-/

namespace MqttBroker.Storage.Memory

def Intact (m : Memory) : Prop :=
  ∀ name h, m.names.get? name = some h → (m.find? h).isSome = true

structure Extends (m m' : Memory) : Prop where
  keeps : ∀ h, (m.find? h).isSome = true → (m'.find? h).isSome = true
  intact : m.Intact → m'.Intact

theorem Extends.refl (m : Memory) : m.Extends m := ⟨fun _ => id, id⟩

theorem Extends.trans {m m' m'' : Memory} (first : m.Extends m') (second : m'.Extends m'') :
    m.Extends m'' :=
  ⟨fun h found => second.keeps h (first.keeps h found), second.intact ∘ first.intact⟩

theorem extends_of_eq {m m' : Memory} (buckets : m'.buckets = m.buckets)
    (names : m'.names = m.names) : m.Extends m' := by
  have same : m'.find? = m.find? := by
    funext h
    rw [find?, find?, buckets]
  refine ⟨fun h found => by rw [same]; exact found, ?_⟩
  intro intact name h named
  rw [names] at named
  rw [same]
  exact intact name h named

theorem intact_empty : Intact {} := fun _ _ named => nomatch named

theorem find?_insert (m : Memory) (h other : Handle) (b : Bucket) :
    (m.replace h b).find? other = if other = h then some b else m.find? other :=
  Table.get?_insert ..

theorem replace_extends (m : Memory) (h : Handle) (b : Bucket) : m.Extends (m.replace h b) := by
  have keeps : ∀ other, (m.find? other).isSome = true →
      ((m.replace h b).find? other).isSome = true := by
    intro other found
    rw [find?_insert]
    split
    · rfl
    · exact found
  exact ⟨keeps, fun intact name other named => keeps other (intact name other named)⟩

theorem closeBucket_extends (m : Memory) (h : Handle) (clean : Bool) :
    m.Extends (m.closeBucket h clean) := by
  unfold closeBucket
  split
  · rename_i b _
    have replaced := replace_extends m h { b with records := [] }
    refine ⟨replaced.keeps, ?_⟩
    intro intact name other named
    refine replaced.keeps other (intact name other ?_)
    simp only [Table.get?_erase] at named
    split at named
    · cases named
    · exact named
  · exact .refl m

theorem bucket_extends {m m' : Memory} {name : String} {h : Handle}
    (opened : m.bucket name = .ok (m', h)) :
    m.Extends m' ∧ (m.Intact → (m'.find? h).isSome = true) := by
  simp only [bucket, bind_eq_ok] at opened
  obtain ⟨_, _, opened⟩ := opened
  split at opened
  · rename_i named
    cases opened
    exact ⟨.refl m, fun intact => intact name h named⟩
  · cases opened
    have replaced := replace_extends m m.opened { name }
    have found : (m.replace m.opened { name }).find? m.opened = some { name } := by
      rw [find?_insert, if_pos rfl]
    refine ⟨⟨replaced.keeps, fun intact other k named => ?_⟩, fun _ => by
      simpa [find?, replace] using congrArg Option.isSome found⟩
    simp only [Table.get?_insert] at named
    split at named
    · cases named
      simpa [find?, replace] using congrArg Option.isSome found
    · exact replaced.keeps k (intact other k named)

theorem setEntry_extends {m m' : Memory} {key : String} {value : Bytes}
    (done : m.setEntry key value = .ok m') : m.Extends m' := by
  simp only [setEntry, bind_eq_ok] at done
  obtain ⟨_, _, same⟩ := done
  cases same
  exact extends_of_eq rfl rfl

theorem deleteEntry_extends {m m' : Memory} {key : String}
    (done : m.deleteEntry key = .ok m') : m.Extends m' := by
  simp only [deleteEntry, bind_eq_ok] at done
  obtain ⟨_, _, same⟩ := done
  cases same
  exact extends_of_eq rfl rfl

/-! An open storage refuses nothing but writes to its buckets -/

theorem bucket_succeeds {m : Memory} (opened : m.closed = false) (name : String) :
    ∃ m' h, m.bucket name = .ok (m', h) := by
  cases held : m.names.get? name with
  | none => simp [bucket, checkOpen, opened, held, Bind.bind, Except.bind, pure, Except.pure]
  | some h => simp [bucket, checkOpen, opened, held, Bind.bind, Except.bind, pure, Except.pure]

theorem setEntry_succeeds {m : Memory} (opened : m.closed = false) (key : String) (value : Bytes) :
    m.setEntry key value = .ok { m with entries := m.entries.insert key value } := by
  simp [setEntry, checkOpen, opened, Bind.bind, Except.bind, pure, Except.pure]

theorem deleteEntry_succeeds {m : Memory} (opened : m.closed = false) (key : String) :
    m.deleteEntry key = .ok { m with entries := m.entries.erase key } := by
  simp [deleteEntry, checkOpen, opened, Bind.bind, Except.bind, pure, Except.pure]

theorem getEntry_succeeds {m : Memory} (opened : m.closed = false) (key : String) :
    m.getEntry key = .ok (m.entries.get? key) := by
  simp [getEntry, checkOpen, opened, Bind.bind, Except.bind, pure, Except.pure]

theorem entriesUnder_succeeds {m : Memory} (opened : m.closed = false) (start : String) :
    m.entriesUnder start = .ok (m.entries.filter fun e => Text.startsWith start e.1) := by
  simp [entriesUnder, checkOpen, opened, Bind.bind, Except.bind, pure, Except.pure]

end MqttBroker.Storage.Memory
