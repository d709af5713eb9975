import Mathlib.Data.List.Sort
import MqttBroker.Proofs.Settling
import MqttBroker.Proofs.Subscriptions
import MqttBroker.Proofs.Window

/-!
A window in use: who holds its permits, which packet ids it gives, and what becomes of the messages
that are entered. Permits are neither lost nor made, a message is completed at most once, and packet
ids come round after 65535 messages.
-/

namespace MqttBroker

namespace Inflight

/-- The packet id of a message by its place among all that are entered: zero is passed over. -/
def idAt (n : Nat) : PacketId := ⟨n % 65535 + 1, by omega, by omega⟩

theorem idAt_eq_iff {m n : Nat} : idAt m = idAt n ↔ m % 65535 = n % 65535 := by
  simp [idAt]

theorem takeId_first (n : Nat) :
    (takeId n).1.val = if n % 65536 = 0 then 1 else n % 65536 := by
  unfold takeId PacketId.ofNat?
  by_cases zero : n % 65536 = 0
  · simp [zero, PacketId.one]
  · have inside : 0 < n % 65536 ∧ n % 65536 < 65536 := by omega
    simp [inside, zero]

theorem takeId_second (n : Nat) : (takeId n).2 = ((takeId n).1.val + 1) % 65536 := by
  unfold takeId
  split <;> rfl

theorem takeId_succ {n m : Nat} (here : (takeId n).1 = idAt m) :
    (takeId (takeId n).2).1 = idAt (m + 1) := by
  have val : (takeId (takeId n).2).1.val = (idAt (m + 1)).val := by
    rw [takeId_first, takeId_second, here]
    simp only [idAt]
    by_cases last : m % 65535 = 65534
    · have round : (m + 1) % 65535 = 0 := by omega
      simp [last, round]
    · have next : (m + 1) % 65535 = m % 65535 + 1 := by omega
      have small : (m % 65535 + 1 + 1) % 65536 % 65536 = m % 65535 + 2 := by omega
      simp [small, next]
  cases first : (takeId (takeId n).2).1
  simpa [first, idAt] using val

/-- A window, and what was done with it. Each message is known by its place among all that were
entered, which is also its ticket. -/
structure Usage where
  window : Inflight Nat
  gauge : Gauge
  held : Nat := 0
  given : List PacketId := []
  completed : List Nat := []
  cleared : List Nat := []

namespace Usage

inductive Use
  | acquire
  | release
  | insert (message : Publish) (now : Nat)
  | ack (id : PacketId)
  | resend (id : PacketId) (seq now : Nat)
  | clear
  | close

/-- A new window. The gauge already counts messages of other windows, and may have wrapped
around. -/
def start (capacity interval : Nat) (count peak : Int) : Usage :=
  { window := .new capacity interval, gauge := { current := SignedWord.wrap count, peak } }

def step (u : Usage) : Use → Usage
  | .acquire =>
    match u.window.acquire with
    | none => u
    | some window => { u with window, held := u.held + 1 }
  | .release =>
    if u.held = 0 then u else { u with window := u.window.release, held := u.held - 1 }
  | .insert message now =>
    if u.held = 0 then u
    else
      let (window, entry, replaced) := u.window.insert u.given.length message now
      { u with window, held := u.held - 1, given := u.given ++ [entry.id]
               gauge := if replaced.isNone then u.gauge.increment else u.gauge
               completed := u.completed ++ replaced.toList }
  | .ack id =>
    match u.window.ack id with
    | (_, none) => u
    | (window, some n) =>
      { u with window, gauge := u.gauge.decrement, completed := u.completed ++ [n] }
  | .resend id seq now => { u with window := (u.window.resend id seq now).1 }
  | .clear =>
    let (window, n) := u.window.clear
    { u with window, gauge := u.gauge.subtract n
             cleared := u.cleared ++ u.window.entries.map InflightEntry.ticket }
  | .close => { u with window := u.window.close }

def run (u : Usage) (uses : List Use) : Usage := uses.foldl step u

/-- The messages that are neither completed nor dropped, in the order in which they were entered. -/
def live (u : Usage) : List Nat :=
  (List.range u.given.length).filter fun n => n ∉ u.completed ∧ n ∉ u.cleared

def Latest (u : Usage) (id : PacketId) (n : Nat) : Prop :=
  n ∈ u.live ∧ u.given[n]? = some id ∧ ∀ m ∈ u.live, u.given[m]? = some id → m ≤ n

theorem mem_live {u : Usage} {n : Nat} :
    n ∈ u.live ↔ n < u.given.length ∧ n ∉ u.completed ∧ n ∉ u.cleared := by
  simp [live]

structure Accounted (capacity : Nat) (count : Int) (u : Usage) : Prop where
  ordered : u.window.Ordered
  permits : u.window.entries.length + u.held + u.window.permits = max capacity 1
  counted : u.gauge.current = SignedWord.wrap (count + u.window.entries.length)
  ids : u.given = (List.range u.given.length).map idAt
  nextId : (takeId u.window.nextId).1 = idAt u.given.length
  nextSeq : u.window.nextSeq = u.given.length + 1
  numbered : ∀ e ∈ u.window.entries, e.seq = e.ticket + 1 ∧ e.id = idAt e.ticket
  present : ∀ n, n ∈ u.window.entries.map InflightEntry.ticket ↔ n ∈ u.live
  once : u.completed.Nodup
  entered : ∀ n, n ∈ u.completed ∨ n ∈ u.cleared → n < u.given.length
  apart : ∀ n ∈ u.completed, n ∉ u.cleared

theorem start_accounted (capacity interval : Nat) (count peak : Int) :
    Accounted capacity count (start capacity interval count peak) where
  ordered := ordered_empty rfl
  permits := by simp [start, Inflight.new]
  counted := by simp [start, Inflight.new]
  ids := rfl
  nextId := rfl
  nextSeq := rfl
  numbered := by simp [start, Inflight.new]
  present := by simp [start, Inflight.new, live]
  once := .nil
  entered := by simp [start]
  apart := by simp [start]

theorem Accounted.mem_without {capacity : Nat} {count : Int} {u : Usage}
    (accounted : Accounted capacity count u) (id : PacketId) (n : Nat) :
    n ∈ (u.window.without id).map InflightEntry.ticket ↔
      n ∈ u.live ∧ n ∉ ((u.window.find? id).map InflightEntry.ticket).toList := by
  rw [← accounted.present, List.mem_map, List.mem_map]
  constructor
  · rintro ⟨e, member, rfl⟩
    obtain ⟨inside, other⟩ := List.mem_filter.mp member
    refine ⟨⟨e, inside, rfl⟩, fun gone => ?_⟩
    simp only [Option.mem_toList, Option.map_eq_some_iff] at gone
    obtain ⟨f, found, same⟩ := gone
    obtain ⟨before, key⟩ := mem_of_find? found
    have ids : f.id = e.id := by
      rw [(accounted.numbered f before).2, (accounted.numbered e inside).2, same]
    simp [← ids, key] at other
  · rintro ⟨⟨e, inside, rfl⟩, stays⟩
    refine ⟨e, List.mem_filter.mpr ⟨inside, ?_⟩, rfl⟩
    simp only [decide_eq_true_eq]
    rintro rfl
    have found := accounted.ordered.find?_iff.mpr ⟨inside, rfl⟩
    simp [found] at stays

theorem Accounted.found {capacity : Nat} {count : Int} {u : Usage}
    (accounted : Accounted capacity count u) {id : PacketId} {e : InflightEntry Nat}
    (found : u.window.find? id = some e) : e.ticket ∈ u.live ∧ idAt e.ticket = id := by
  obtain ⟨member, rfl⟩ := mem_of_find? found
  have present := (accounted.present _).mp (List.mem_map_of_mem member)
  exact ⟨present, (accounted.numbered e member).2.symm⟩

theorem Accounted.permitted {capacity : Nat} {count : Int} {u : Usage}
    (accounted : Accounted capacity count u) {held permits : Nat} {closed : Bool}
    (same : held + permits = u.held + u.window.permits) :
    Accounted capacity count { u with held, window := { u.window with permits, closed } } :=
  { accounted with
    ordered := ⟨accounted.ordered.ids, accounted.ordered.seqs, accounted.ordered.fresh⟩
    permits := by
      have before := accounted.permits
      simp only
      omega }

theorem Accounted.acquire {capacity : Nat} {count : Int} {u : Usage}
    (accounted : Accounted capacity count u) : Accounted capacity count (u.step .acquire) := by
  simp only [step, Inflight.acquire]
  split
  · exact accounted
  · rename_i window acquired
    split at acquired
    · cases acquired
    · split at acquired
      · cases acquired
      · rename_i permits free
        cases acquired
        exact accounted.permitted (by omega)

theorem Accounted.release {capacity : Nat} {count : Int} {u : Usage}
    (accounted : Accounted capacity count u) : Accounted capacity count (u.step .release) := by
  simp only [step, Inflight.release]
  split
  · exact accounted
  · exact accounted.permitted (by omega)

/-- Only what is present is completed, and so nothing is completed twice. -/
theorem Accounted.completes {capacity : Nat} {count : Int} {u : Usage}
    (accounted : Accounted capacity count u) (done : Option Nat)
    (present : ∀ n ∈ done.toList, n ∈ u.live) :
    (u.completed ++ done.toList).Nodup ∧
      (∀ n, n ∈ u.completed ++ done.toList ∨ n ∈ u.cleared → n < u.given.length) ∧
      ∀ n ∈ u.completed ++ done.toList, n ∉ u.cleared := by
  refine ⟨List.nodup_append.mpr ⟨accounted.once, by cases done <;> simp, ?_⟩, ?_, ?_⟩
  · rintro n before m now rfl
    exact (mem_live.mp (present n now)).2.1 before
  · rintro n (member | dropped)
    · rcases List.mem_append.mp member with before | now
      · exact accounted.entered n (Or.inl before)
      · exact (mem_live.mp (present n now)).1
    · exact accounted.entered n (Or.inr dropped)
  · intro n member
    rcases List.mem_append.mp member with before | now
    · exact accounted.apart n before
    · exact (mem_live.mp (present n now)).2.2

section Insert

variable {capacity : Nat} {count : Int} {u : Usage} {message : Publish} {window : Inflight Nat}
  {e : InflightEntry Nat} {replaced : Option Nat}

theorem Accounted.replaced_live (accounted : Accounted capacity count u)
    (entered : u.window.Entered u.given.length message window e replaced) :
    ∀ n ∈ replaced.toList, n ∈ u.live := by
  intro n gone
  rw [entered.replaced] at gone
  simp only [Option.mem_toList, Option.map_eq_some_iff] at gone
  obtain ⟨f, found, rfl⟩ := gone
  exact (accounted.found found).1

/-- The message takes the permit that was held for it, and the one that it replaces gives its own
back. -/
theorem Accounted.permits_insert (accounted : Accounted capacity count u)
    (entered : u.window.Entered u.given.length message window e replaced) (holds : u.held ≠ 0)
    (free : window.permits = u.window.permits + if replaced.isSome then 1 else 0) :
    window.entries.length + (u.held - 1) + window.permits = max capacity 1 := by
  have grown := accounted.ordered.length_insert entered
  have before := accounted.permits
  rw [free]
  cases replaced with
  | none =>
      simp only [Option.toList_none, List.length_nil] at grown
      simp only [Option.isSome_none, Bool.false_eq_true, if_false]
      omega
  | some n =>
      simp only [Option.toList_some, List.length_singleton] at grown
      simp only [Option.isSome_some, if_true]
      omega

theorem Accounted.counted_insert (accounted : Accounted capacity count u)
    (entered : u.window.Entered u.given.length message window e replaced) :
    (if replaced.isNone then u.gauge.increment else u.gauge).current =
      SignedWord.wrap (count + window.entries.length) := by
  have grown := accounted.ordered.length_insert entered
  have before := accounted.counted
  cases replaced with
  | none =>
      simp only [Option.toList_none, List.length_nil] at grown
      simp only [Option.isNone_none, if_true, Gauge.increment_current, before,
        SignedWord.wrap_wrap_add]
      congr 1
      omega
  | some n =>
      simp only [Option.toList_some, List.length_singleton] at grown
      simp only [Option.isNone_some, Bool.false_eq_true, if_false, before]
      congr 1
      omega

theorem Accounted.numbered_insert (accounted : Accounted capacity count u)
    (entered : u.window.Entered u.given.length message window e replaced)
    (id : e.id = idAt u.given.length) :
    ∀ f ∈ window.entries, f.seq = f.ticket + 1 ∧ f.id = idAt f.ticket := by
  intro f member
  rcases entered.mem member with old | rfl
  · exact accounted.numbered f old
  · rw [entered.seq, entered.ticket, accounted.nextSeq]
    exact ⟨rfl, id⟩

theorem Accounted.present_insert (accounted : Accounted capacity count u)
    (entered : u.window.Entered u.given.length message window e replaced) (n : Nat) :
    n ∈ window.entries.map InflightEntry.ticket ↔
      n < u.given.length + 1 ∧ n ∉ u.completed ++ replaced.toList ∧ n ∉ u.cleared := by
  rw [entered.entries, List.map_append, List.mem_append, accounted.mem_without e.id,
    ← entered.replaced, mem_live]
  simp only [List.map_cons, List.map_nil, List.mem_singleton, entered.ticket, List.mem_append,
    not_or]
  constructor
  · rintro (⟨⟨inside, incomplete, kept⟩, stays⟩ | rfl)
    · exact ⟨by omega, ⟨incomplete, stays⟩, kept⟩
    · refine ⟨by omega, ⟨fun done => ?_, fun done => ?_⟩, fun dropped => ?_⟩
      · exact Nat.lt_irrefl _ (accounted.entered _ (Or.inl done))
      · exact Nat.lt_irrefl _ (mem_live.mp (accounted.replaced_live entered _ done)).1
      · exact Nat.lt_irrefl _ (accounted.entered _ (Or.inr dropped))
  · rintro ⟨inside, ⟨incomplete, stays⟩, kept⟩
    by_cases last : n = u.given.length
    · exact Or.inr last
    · exact Or.inl ⟨⟨by omega, incomplete, kept⟩, stays⟩

theorem Accounted.insert (accounted : Accounted capacity count u) (message : Publish) (now : Nat) :
    Accounted capacity count (u.step (.insert message now)) := by
  simp only [step]
  split
  · exact accounted
  rename_i holds
  have ordered := accounted.ordered.insert u.given.length message now
  have entered := u.window.insert_entered u.given.length message now
  have id : (u.window.insert u.given.length message now).2.1.id = idAt u.given.length :=
    accounted.nextId
  have nextId : (takeId (u.window.insert u.given.length message now).1.nextId).1 =
      idAt (u.given.length + 1) := takeId_succ accounted.nextId
  have free : (u.window.insert u.given.length message now).1.permits = u.window.permits +
      if (u.window.insert u.given.length message now).2.2.isSome then 1 else 0 := by
    simp [Inflight.insert]
  generalize u.window.insert u.given.length message now = inserted at *
  obtain ⟨window, e, replaced⟩ := inserted
  simp only at *
  obtain ⟨once, bounded, apart⟩ := accounted.completes _ (accounted.replaced_live entered)
  have longer : (u.given ++ [e.id]).length = u.given.length + 1 := by
    rw [List.length_append, List.length_singleton]
  constructor
  case ordered => exact ordered
  case permits => exact accounted.permits_insert entered holds free
  case counted => exact accounted.counted_insert entered
  case ids =>
    rw [longer, List.range_succ, List.map_append, ← accounted.ids, id]
    rfl
  case nextId => simpa using nextId
  case nextSeq => simp [entered.nextSeq, accounted.nextSeq]
  case numbered => exact accounted.numbered_insert entered id
  case present =>
    intro n
    rw [accounted.present_insert entered, mem_live, longer]
  case once => exact once
  case entered =>
    intro n member
    rw [longer]
    exact Nat.lt_succ_of_lt (bounded n member)
  case apart => exact apart

end Insert

theorem Accounted.ack {capacity : Nat} {count : Int} {u : Usage}
    (accounted : Accounted capacity count u) (id : PacketId) :
    Accounted capacity count (u.step (.ack id)) := by
  have left := accounted.mem_without id
  have shorter := accounted.ordered.length_without id
  have ordered := accounted.ordered.ack id
  cases found : u.window.find? id with
  | none => simpa [step, Inflight.ack, found] using accounted
  | some e =>
      have step : u.step (.ack id) =
          { u with
            window := { u.window with
              entries := u.window.without id, permits := u.window.permits + 1 }
            gauge := u.gauge.decrement, completed := u.completed ++ [e.ticket] } := by
        simp [Usage.step, Inflight.ack, found]
      have present := (accounted.found found).1
      obtain ⟨once, bounded, apart⟩ := accounted.completes (some e.ticket)
        (by simpa using present)
      simp only [found, Option.map_some, Option.toList_some, List.length_singleton] at left shorter
      simp only [Inflight.ack, found] at ordered
      rw [step]
      constructor
      case ordered => exact ordered
      case permits =>
        have before := accounted.permits
        simp only
        omega
      case counted =>
        have before := accounted.counted
        simp only [Gauge.decrement, Gauge.subtract, Gauge.shift, before, SignedWord.wrap_wrap_add]
        congr 1
        omega
      case ids => exact accounted.ids
      case nextId => exact accounted.nextId
      case nextSeq => exact accounted.nextSeq
      case numbered => exact fun f member => accounted.numbered f (Inflight.mem_without member)
      case present =>
        intro n
        simp only [left, mem_live, List.mem_append, not_or]
        constructor
        · rintro ⟨⟨inside, incomplete, kept⟩, stays⟩
          exact ⟨inside, ⟨incomplete, stays⟩, kept⟩
        · rintro ⟨inside, ⟨incomplete, stays⟩, kept⟩
          exact ⟨⟨inside, incomplete, kept⟩, stays⟩
      case once => exact once
      case entered => exact bounded
      case apart => exact apart

theorem Accounted.resend {capacity : Nat} {count : Int} {u : Usage}
    (accounted : Accounted capacity count u) (id : PacketId) (seq now : Nat) :
    Accounted capacity count (u.step (.resend id seq now)) := by
  have ordered := accounted.ordered.resend id seq now
  obtain ⟨bodies, _⟩ := u.window.resend_body id seq now
  obtain ⟨entries, frame⟩ := u.window.resend_frame id seq now
  simp only [step]
  rw [frame] at ordered bodies ⊢
  simp only at bodies
  have tickets : entries.map InflightEntry.ticket =
      u.window.entries.map InflightEntry.ticket := by
    have tickets := congrArg (List.map fun body => body.2.2.1) bodies
    simpa [InflightEntry.body, Function.comp_def] using tickets
  have length : entries.length = u.window.entries.length := by
    simpa using congrArg List.length tickets
  exact
    { accounted with
      ordered
      permits := by simpa [length] using accounted.permits
      counted := by simpa [length] using accounted.counted
      numbered := by
        intro e member
        obtain ⟨f, before, same⟩ : ∃ f ∈ u.window.entries, f.body = e.body :=
          mem_body bodies member
        simp only [InflightEntry.body, Prod.mk.injEq] at same
        obtain ⟨id, seq, ticket, _⟩ := same
        rw [← id, ← seq, ← ticket]
        exact accounted.numbered f before
      present := by
        intro n
        simp only [tickets]
        exact accounted.present n }

theorem Accounted.clear {capacity : Nat} {count : Int} {u : Usage}
    (accounted : Accounted capacity count u) : Accounted capacity count (u.step .clear) := by
  have dropped : ∀ n ∈ u.window.entries.map InflightEntry.ticket, n ∈ u.live :=
    fun n => (accounted.present n).mp
  constructor
  case ordered => exact ordered_empty rfl
  case permits =>
    have before := accounted.permits
    simp only [step, Inflight.clear, List.length_nil]
    omega
  case counted =>
    have before := accounted.counted
    simp only [step, Inflight.clear, Gauge.subtract, Gauge.shift, before,
      SignedWord.wrap_wrap_add, List.length_nil]
    congr 1
    omega
  case ids => exact accounted.ids
  case nextId => exact accounted.nextId
  case nextSeq => exact accounted.nextSeq
  case numbered => simp [step, Inflight.clear]
  case present =>
    intro n
    have present := accounted.present n
    simp only [step, Inflight.clear, List.map_nil, List.not_mem_nil, mem_live, List.mem_append,
      false_iff, not_and, not_not]
    intro inside incomplete
    by_cases before : n ∈ u.cleared
    · exact Or.inl before
    · exact Or.inr (present.mpr (mem_live.mpr ⟨inside, incomplete, before⟩))
  case once => exact accounted.once
  case entered =>
    intro n member
    simp only [step, Inflight.clear, List.mem_append] at member ⊢
    rcases member with done | before | now
    · exact accounted.entered n (Or.inl done)
    · exact accounted.entered n (Or.inr before)
    · exact (mem_live.mp (dropped n now)).1
  case apart =>
    intro n done member
    simp only [step, Inflight.clear, List.mem_append] at member
    rcases member with before | now
    · exact accounted.apart n done before
    · exact (mem_live.mp (dropped n now)).2.1 done

theorem step_accounted {capacity : Nat} {count : Int} {u : Usage}
    (accounted : Accounted capacity count u) (use : Use) :
    Accounted capacity count (u.step use) := by
  cases use with
  | acquire => exact accounted.acquire
  | release => exact accounted.release
  | insert message now => exact accounted.insert message now
  | ack id => exact accounted.ack id
  | resend id seq now => exact accounted.resend id seq now
  | clear => exact accounted.clear
  | close => exact accounted.permitted rfl

theorem run_accounted {capacity : Nat} {count : Int} {u : Usage}
    (accounted : Accounted capacity count u) (uses : List Use) :
    Accounted capacity count (u.run uses) := by
  induction uses generalizing u with
  | nil => exact accounted
  | cons use rest ih => exact ih (step_accounted accounted use)

/-! The accounts read -/

/-- The packet id and sequence number of each message that is neither completed nor dropped, in the
order in which they were entered. Sequence numbers count the messages from one. -/
def records (u : Usage) : List (PacketId × Nat) :=
  u.live.filterMap fun n => u.given[n]?.map fun id => (id, n + 1)

theorem Accounted.given_get {capacity : Nat} {count : Int} {u : Usage}
    (accounted : Accounted capacity count u) {n : Nat} (inside : n < u.given.length) :
    u.given[n]? = some (idAt n) := by
  have bound : n < ((List.range u.given.length).map idAt).length := by simpa using inside
  rw [accounted.ids, List.getElem?_eq_getElem bound]
  simp

theorem Accounted.tickets {capacity : Nat} {count : Int} {u : Usage}
    (accounted : Accounted capacity count u) :
    u.window.entries.map InflightEntry.ticket = u.live := by
  have increasing : (u.window.entries.map InflightEntry.ticket).Pairwise (· < ·) := by
    refine List.pairwise_map.mpr (accounted.ordered.seqs.imp_of_mem fun first second less => ?_)
    have here := (accounted.numbered _ first).1
    have there := (accounted.numbered _ second).1
    omega
  have sorted : u.live.Pairwise (· < ·) := List.pairwise_lt_range.filter _
  exact increasing.eq_of_mem_iff sorted (accounted.present)

theorem Accounted.pending {capacity : Nat} {count : Int} {u : Usage}
    (accounted : Accounted capacity count u) : u.window.pending = u.records := by
  rw [records, ← accounted.tickets, List.filterMap_map, Inflight.pending, ← List.filterMap_eq_map]
  refine List.filterMap_congr fun e member => ?_
  have live := (accounted.present _).mp (List.mem_map_of_mem member)
  obtain ⟨seq, id⟩ := accounted.numbered e member
  simp [accounted.given_get (mem_live.mp live).1, seq, id]

theorem Accounted.latest_iff {capacity : Nat} {count : Int} {u : Usage}
    (accounted : Accounted capacity count u) {id : PacketId} {n : Nat} :
    u.Latest id n ↔ (u.window.find? id).map InflightEntry.ticket = some n := by
  have under : ∀ m ∈ u.live, u.given[m]? = some id →
      (u.window.find? id).map InflightEntry.ticket = some m := by
    intro m live given
    obtain ⟨e, member, rfl⟩ := List.mem_map.mp ((accounted.present m).mpr live)
    rw [accounted.given_get (mem_live.mp live).1, ← (accounted.numbered e member).2] at given
    rw [accounted.ordered.find?_iff.mpr ⟨member, Option.some.inj given⟩, Option.map_some]
  constructor
  · rintro ⟨live, given, _⟩
    exact under n live given
  · intro found
    obtain ⟨e, here, rfl⟩ := Option.map_eq_some_iff.mp found
    obtain ⟨live, same⟩ := accounted.found here
    refine ⟨live, (accounted.given_get (mem_live.mp live).1).trans (congrArg some same), ?_⟩
    intro m other given
    have equal := under m other given
    rw [found] at equal
    exact Nat.le_of_eq (Option.some.inj equal).symm

theorem Accounted.ack_latest {capacity : Nat} {count : Int} {u : Usage}
    (accounted : Accounted capacity count u) {id : PacketId} {n : Nat} (latest : u.Latest id n) :
    (u.window.ack id).2 = some n ∧ (u.step (.ack id)).completed = u.completed ++ [n] := by
  obtain ⟨e, found, rfl⟩ := Option.map_eq_some_iff.mp (accounted.latest_iff.mp latest)
  simp [step, Inflight.ack, found]

theorem Accounted.ack_unknown {capacity : Nat} {count : Int} {u : Usage}
    (accounted : Accounted capacity count u) {id : PacketId} (unknown : ∀ n, ¬u.Latest id n) :
    u.window.ack id = (u.window, none) ∧ u.step (.ack id) = u := by
  have none : u.window.find? id = none := by
    cases found : u.window.find? id with
    | none => rfl
    | some e => exact absurd (accounted.latest_iff.mpr (by simp [found])) (unknown e.ticket)
  simp [step, Inflight.ack, none]

/-- How a use can complete a message: it acknowledges the packet id of one that is present, or
enters a new message under that id. Packet ids have then come round once at least. -/
def Completes (u : Usage) (use : Use) (n : Nat) : Prop :=
  n ∈ u.live ∧ ∃ id, u.given[n]? = some id ∧ (use = .ack id ∨
    ∃ message now, use = .insert message now ∧ (u.step use).given = u.given ++ [id] ∧
      n + 65535 ≤ u.given.length)

theorem Accounted.step_completed {capacity : Nat} {count : Int} {u : Usage}
    (accounted : Accounted capacity count u) (use : Use) :
    (u.step use).completed = u.completed ∨
      ∃ n, (u.step use).completed = u.completed ++ [n] ∧ u.Completes use n := by
  cases use with
  | acquire =>
      simp only [step]
      split <;> exact Or.inl rfl
  | release =>
      simp only [step]
      split <;> exact Or.inl rfl
  | resend id seq now => exact Or.inl rfl
  | clear => exact Or.inl rfl
  | close => exact Or.inl rfl
  | ack id =>
      cases found : u.window.find? id with
      | none => exact Or.inl (by simp [step, Inflight.ack, found])
      | some e =>
          obtain ⟨live, same⟩ := accounted.found found
          have given := accounted.given_get (mem_live.mp live).1
          refine Or.inr ⟨e.ticket, by simp [step, Inflight.ack, found], live, id, ?_, Or.inl rfl⟩
          rw [given, same]
  | insert message now =>
      by_cases none : u.held = 0
      · exact Or.inl (by simp [step, none])
      · have entered := u.window.insert_entered u.given.length message now
        have id : (u.window.insert u.given.length message now).2.1.id = idAt u.given.length :=
          accounted.nextId
        cases found : u.window.find? (idAt u.given.length) with
        | none => exact Or.inl (by simp [step, none, entered.replaced, id, found])
        | some e =>
            obtain ⟨live, same⟩ := accounted.found found
            have before := (mem_live.mp live).1
            have round := idAt_eq_iff.mp same
            refine Or.inr ⟨e.ticket, by simp [step, none, entered.replaced, id, found], live,
              idAt u.given.length, ?_, Or.inr ⟨message, now, rfl, by simp [step, none, id], ?_⟩⟩
            · rw [accounted.given_get before, same]
            · omega

theorem Accounted.isPending_iff {capacity : Nat} {count : Int} {u : Usage}
    (accounted : Accounted capacity count u) {id : PacketId} {seq : Nat} :
    u.window.isPending id seq = true ↔ (id, seq) ∈ u.records := by
  rw [accounted.ordered.isPending_iff, accounted.pending]

structure Reliable (capacity : Nat) (count : Int) (u : Usage) : Prop where
  /-- Every permit is free, or held by a caller or by a message in the window. -/
  permits : u.window.entries.length + u.held + u.window.permits = max capacity 1
  counted : u.gauge.current = SignedWord.wrap (count + u.window.entries.length)
  ids : ∀ n < u.given.length, ∃ id, u.given[n]? = some id ∧ id.val ≠ 0
  /-- Packet ids come round after 65535 messages, and no sooner. -/
  round : ∀ m < u.given.length, ∀ n < u.given.length,
    u.given[m]? = u.given[n]? ↔ m % 65535 = n % 65535
  /-- A message is completed once at most, and not if it was dropped. -/
  once : u.completed.Nodup ∧ ∀ n ∈ u.completed, n ∉ u.cleared
  completing : ∀ use, (u.step use).completed = u.completed ∨
    ∃ n, (u.step use).completed = u.completed ++ [n] ∧ u.Completes use n
  acknowledged : ∀ id n, u.Latest id n →
    (u.window.ack id).2 = some n ∧ (u.step (.ack id)).completed = u.completed ++ [n]
  unknown : ∀ id, (∀ n, ¬u.Latest id n) →
    u.window.ack id = (u.window, none) ∧ u.step (.ack id) = u
  pending : u.window.pending = u.records
  isPending : ∀ id seq, u.window.isPending id seq = true ↔ (id, seq) ∈ u.records
  deadline : ∀ id seq, (u.window.deadline id seq).isSome = true ↔ (id, seq) ∈ u.records
  resend : ∀ id seq now, (u.window.resend id seq now).2.isSome = true ↔ (id, seq) ∈ u.records

/-- Whatever a window is used for, no permit is lost or made, and no message is completed twice, nor
by anything but its own acknowledgment or the return of its packet id. -/
theorem run_reliable (capacity interval : Nat) (count peak : Int) (uses : List Use) :
    Reliable capacity count ((start capacity interval count peak).run uses) := by
  have accounted := run_accounted (start_accounted capacity interval count peak) uses
  generalize (start capacity interval count peak).run uses = u at accounted
  constructor
  case permits => exact accounted.permits
  case counted => exact accounted.counted
  case ids =>
    intro n inside
    exact ⟨idAt n, accounted.given_get inside, Nat.succ_ne_zero _⟩
  case round =>
    intro m first n second
    rw [accounted.given_get first, accounted.given_get second, Option.some.injEq, idAt_eq_iff]
  case once => exact ⟨accounted.once, accounted.apart⟩
  case completing => exact accounted.step_completed
  case acknowledged => exact fun id n => accounted.ack_latest
  case unknown => exact fun id => accounted.ack_unknown
  case pending => exact accounted.pending
  case isPending => exact fun id seq => accounted.isPending_iff
  case deadline =>
    intro id seq
    rw [isSome_deadline, accounted.isPending_iff]
  case resend =>
    intro id seq now
    rw [isSome_resend, accounted.isPending_iff]

end Usage
end Inflight

/-! The gauge of the broker -/

def Gauge.Counts (g : Gauge) (w : Inflight Nat) (g' : Gauge) (w' : Inflight Nat) : Prop :=
  SignedWord.wrap g'.current =
    SignedWord.wrap (g.current + (w'.entries.length - w.entries.length))

theorem Delivery.takeIn_counts {d : Delivery} (ordered : d.window.Ordered) (q : SessionQueues)
    (durable : StoredQueue EventId) (next : StoredMessage) (now : Nat) :
    d.gauge.Counts d.window (d.takeIn q durable next now).1.gauge
      (d.takeIn q durable next now).1.window := by
  unfold Gauge.Counts
  rcases ordered.takeIn_gauge q durable next now with ⟨more, longer⟩ | ⟨same, level⟩
  · rw [more, longer, Gauge.increment_current, SignedWord.wrap_wrap]
    congr 1
    omega
  · rw [same, level]
    congr 1
    omega

theorem Broker.acknowledge_counts {b : Broker} {uid : SessionUid} {id : PacketId} {s : Session}
    (here : b.session? uid = some s) (own : s.uid = uid) (ordered : s.inflight.Ordered) :
    ∃ s', (b.acknowledge uid id).1.session? uid = some s' ∧
      s'.inflight = (s.inflight.ack id).1 ∧
      b.stats.inflights.Counts s.inflight (b.acknowledge uid id).1.stats.inflights s'.inflight := by
  have shorter := ordered.length_without id
  cases found : s.inflight.find? id with
  | none =>
      have none : s.acknowledge id = none := by simp [Session.acknowledge, Inflight.ack, found]
      have same : b.acknowledge uid id = (b, false) := by simp [Broker.acknowledge, here, none]
      rw [same]
      exact ⟨s, here, by simp [Inflight.ack, found], by simp [Gauge.Counts]⟩
  | some e =>
      simp only [found, Option.toList_some, List.length_singleton] at shorter
      simp only [Broker.acknowledge, here, Option.bind_some, Session.acknowledge, Inflight.ack,
        found]
      refine ⟨_, by rw [session?_putSession, if_pos own.symm], rfl, ?_⟩
      simp only [Gauge.Counts, Broker.putSession, Gauge.decrement, Gauge.subtract, Gauge.shift,
        SignedWord.wrap_wrap]
      congr 1
      omega

theorem Broker.closeQueues_counts (b : Broker) (s : Session) :
    (b.closeQueues s true).2.inflight = s.inflight.clear.1 ∧
      b.stats.inflights.Counts s.inflight (b.closeQueues s true).1.stats.inflights
        (b.closeQueues s true).2.inflight := by
  refine ⟨rfl, ?_⟩
  simp only [Gauge.Counts, closeQueues_stats, Gauge.subtract, Gauge.shift, SignedWord.wrap_wrap]
  congr 1
  simp [closeQueues, Inflight.clear]

end MqttBroker
