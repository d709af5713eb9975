import Mathlib.Data.List.TakeWhile
import MqttBroker.Proofs.Delivering

/-!
When messages are sent again. The activity that sends them again watches the time of the first in
its waiting line only. That is enough: what is in the window stands in the line in the order in
which it was last sent, whatever is acknowledged, replaced or sent for the first time in between.

Sending takes no time here, and time passes only while both activities wait.
-/

namespace MqttBroker

def Sending.current : Sending → List (PacketId × Nat)
  | .sending _ key _ => [key]
  | .handing key _ => [key]
  | _ => []

def Sending.line : Sending → List (PacketId × Nat)
  | .among rest => rest
  | .sending _ key rest => key :: rest
  | .handing key rest => key :: rest
  | .stopped => []

def Resending.hand : Resending → List (PacketId × Nat)
  | .sending _ key => [key]
  | _ => []

namespace Delivering

def InHand (m : Delivering) (key : PacketId × Nat) : Prop :=
  (∃ p rest, m.sending = .sending p key rest) ∨ ∃ p, m.resending = .sending p key

def busy (m : Delivering) : Bool :=
  match m.sending, m.resending with
  | .sending _ _ _, _ => true
  | _, .sending _ _ => true
  | _, _ => false

theorem not_inHand {m : Delivering} (idle : m.busy = false) (key : PacketId × Nat) :
    ¬m.InHand key := by
  rintro (⟨p, rest, here⟩ | ⟨p, here⟩)
  · simp [busy, here] at idle
  · cases sending : m.sending <;> simp [busy, here, sending] at idle

def quiet (m : Delivering) : Bool :=
  (match m.sending with
    | .among [] => true
    | .stopped => true
    | _ => false) &&
  match m.resending with
  | .waiting => m.handed.isEmpty && !m.delivery.out.timer.any fun due => due ≤ m.now
  | .stopped => true
  | _ => false

theorem quiet_sending {m : Delivering} (quiet : m.quiet = true) :
    m.sending = .among [] ∨ m.sending = .stopped := by
  simp only [Delivering.quiet, Bool.and_eq_true] at quiet
  obtain ⟨sending, _⟩ := quiet
  split at sending
  · rename_i here
    exact Or.inl here
  · rename_i here
    exact Or.inr here
  · cases sending

theorem quiet_resending {m : Delivering} (quiet : m.quiet = true) :
    (m.resending = .waiting ∧ m.handed = []) ∨ m.resending = .stopped := by
  simp only [Delivering.quiet, Bool.and_eq_true] at quiet
  obtain ⟨_, resending⟩ := quiet
  split at resending
  · rename_i here
    simp only [Bool.and_eq_true, List.isEmpty_iff] at resending
    exact Or.inl ⟨here, resending.1⟩
  · rename_i here
    exact Or.inr here
  · cases resending

/-- Both activities wait, and the time to send something again has not passed. -/
structure AtRest (m : Delivering) : Prop where
  sending : m.sending = .among []
  resending : m.resending = .waiting
  handed : m.handed = []
  timer : ∀ due, m.delivery.out.timer = some due → m.now ≤ due

/-- A packet that is in hand is sent before anything else happens, and time passes only while there
is nothing to do. -/
def allows (m : Delivering) : Stroke → Bool
  | .send => true
  | .sendAgain => true
  | .pass _ => m.quiet
  | _ => !m.busy

inductive Act
  | stroke (s : Stroke)
  | requeue (queues : Option SessionQueues)
  | clear

def act (m : Delivering) : Act → Delivering
  | .stroke s => if m.allows s then m.step s else m
  | .requeue queues => if m.busy then m else { m with delivery := { m.delivery with queues } }
  | .clear =>
    if m.busy then m
    else { m with delivery := { m.delivery with window := m.delivery.window.clear.1 } }

def actAll (m : Delivering) (acts : List Act) : Delivering := acts.foldl act m

def ofNew (settings : MqttSettings) (uid : SessionUid) (info : SessionInfo) (link : Link)
    (now : Nat) : Delivering :=
  { delivery := .ofSession (.new uid info settings) { uid } link {}
    sending := .stopped, resending := .stopped, now }

/-! When messages were sent -/

structure Clocked (interval : Nat) (m : Delivering) : Prop where
  ordered : m.delivery.window.Ordered
  spacing : m.delivery.window.interval = interval
  past : ∀ e ∈ m.delivery.window.entries, e.lastSent ≤ m.now
  times : ∀ x ∈ m.log, x.time ≤ m.now
  logged : ∀ x ∈ m.log, ∀ e ∈ m.delivery.window.entries, e.key = x.key → x.time ≤ e.lastSent
  spaced : m.log.Pairwise fun x y =>
    x.key = y.key → y.retried = true → x.time + interval ≤ y.time
  gone : ∀ seq, seq ∈ m.acked ∨ seq ∈ m.replaced →
    seq < m.delivery.window.nextSeq ∧ ∀ e ∈ m.delivery.window.entries, e.seq ≠ seq
  recent : ∀ key ∈ m.sending.current ++ m.resending.hand,
    ∀ e ∈ m.delivery.window.entries, e.key = key → e.lastSent = m.now
  held : ∀ key, m.InHand key → key ∈ m.delivery.window.pending
  due : ∀ key ∈ m.resending.hand, ∀ x ∈ m.log, x.key = key → x.time + interval ≤ m.now

theorem Clocked.change {interval : Nat} {m m' : Delivering} (clocked : m.Clocked interval)
    {keys : List (PacketId × Nat)}
    (restamped : m.delivery.window.Restamped m'.delivery.window keys m.now)
    (ordered : m'.delivery.window.Ordered)
    (same : m'.delivery.window.interval = m.delivery.window.interval)
    (now : m'.now = m.now) (log : m'.log = m.log)
    (gone : ∀ seq, seq ∈ m'.acked ∨ seq ∈ m'.replaced →
      seq < m'.delivery.window.nextSeq ∧ ∀ e ∈ m'.delivery.window.entries, e.seq ≠ seq)
    (current : ∀ key ∈ m'.sending.current ++ m'.resending.hand,
      key ∈ keys ∨ key ∈ m.sending.current ++ m.resending.hand)
    (held : ∀ key, m'.InHand key → key ∈ m'.delivery.window.pending)
    (due : ∀ key ∈ m'.resending.hand, ∀ x ∈ m.log, x.key = key → x.time + interval ≤ m.now) :
    m'.Clocked interval where
  ordered := ordered
  spacing := same.trans clocked.spacing
  past := by
    intro e member
    rw [now]
    rcases restamped e member with ⟨_, stamped⟩ | ⟨_, inside⟩
    · exact Nat.le_of_eq stamped
    · exact clocked.past e inside
  times := by
    rw [log, now]
    exact clocked.times
  logged := by
    intro x member e inside key
    rw [log] at member
    rcases restamped e inside with ⟨_, stamped⟩ | ⟨_, before⟩
    · rw [stamped]
      exact clocked.times x member
    · exact clocked.logged x member e before key
  spaced := log ▸ clocked.spaced
  gone := gone
  recent := by
    intro key member e inside same
    rw [now]
    rcases restamped e inside with ⟨_, stamped⟩ | ⟨other, before⟩
    · exact stamped
    · refine clocked.recent key ((current key member).resolve_left fun touched => ?_) e before same
      exact other (same ▸ touched)
  held := held
  due := by
    rw [log, now]
    exact due

structure Still (m m' : Delivering) : Prop where
  entries : m'.delivery.window.entries = m.delivery.window.entries
  nextSeq : m'.delivery.window.nextSeq = m.delivery.window.nextSeq
  interval : m'.delivery.window.interval = m.delivery.window.interval
  now : m'.now = m.now
  acked : m'.acked = m.acked
  replaced : m'.replaced = m.replaced

theorem Still.pending {m m' : Delivering} (still : Still m m') :
    m'.delivery.window.pending = m.delivery.window.pending := by
  rw [Inflight.pending_eq_keys, Inflight.pending_eq_keys, still.entries]

structure Fewer (m m' : Delivering) : Prop where
  current : ∀ key ∈ m'.sending.current, key ∈ m.sending.current
  hand : ∀ key ∈ m'.resending.hand, key ∈ m.resending.hand
  inHand : ∀ key, m'.InHand key → m.InHand key

theorem Fewer.all {m m' : Delivering} (fewer : Fewer m m') :
    ∀ key ∈ m'.sending.current ++ m'.resending.hand,
      key ∈ m.sending.current ++ m.resending.hand := by
  intro key member
  rcases List.mem_append.mp member with current | hand
  · exact List.mem_append_left _ (fewer.current key current)
  · exact List.mem_append_right _ (fewer.hand key hand)

theorem Fewer.sending {m m' : Delivering} (resending : m'.resending = m.resending)
    (current : ∀ key ∈ m'.sending.current, key ∈ m.sending.current)
    (empty : ∀ p key rest, m'.sending ≠ .sending p key rest) : Fewer m m' where
  current := current
  hand := fun key member => resending ▸ member
  inHand := by
    rintro key (⟨p, rest, here⟩ | here)
    · exact absurd here (empty p key rest)
    · exact Or.inr (resending ▸ here)

theorem Fewer.resending {m m' : Delivering} (sending : m'.sending = m.sending)
    (empty : m'.resending.hand = []) : Fewer m m' where
  current := fun key member => sending ▸ member
  hand := by simp [empty]
  inHand := by
    rintro key (here | ⟨p, here⟩)
    · exact Or.inl (sending ▸ here)
    · simp [here, Resending.hand] at empty

theorem Clocked.still {interval : Nat} {m m' : Delivering} (clocked : m.Clocked interval)
    (still : Still m m') (fewer : Fewer m m') (log : m'.log = m.log) : m'.Clocked interval := by
  refine clocked.change (.of_subset (fun e member => still.entries ▸ member) _)
    (clocked.ordered.of_bodies (by rw [still.entries]) still.nextSeq) still.interval still.now log
    ?_ (fun key member => Or.inr (fewer.all key member)) ?_
    fun key member => clocked.due key (fewer.hand key member)
  · rw [still.acked, still.replaced, still.nextSeq, still.entries]
    exact clocked.gone
  · intro key here
    rw [still.pending]
    exact clocked.held key (fewer.inHand key here)

theorem Clocked.send {interval : Nat} {m m' : Delivering} (clocked : m.Clocked interval)
    (still : Still m m') (fewer : Fewer m m') {x : Sent} (log : m'.log = m.log ++ [x])
    (key : x.key ∈ m.sending.current ++ m.resending.hand) (time : x.time = m.now)
    (retried : x.retried = true → x.key ∈ m.resending.hand)
    (apart : x.key ∉ m'.resending.hand) : m'.Clocked interval where
  ordered := clocked.ordered.of_bodies (by rw [still.entries]) still.nextSeq
  spacing := still.interval.trans clocked.spacing
  past := by
    rw [still.entries, still.now]
    exact clocked.past
  times := by
    intro y member
    rw [log, List.mem_append, List.mem_singleton] at member
    rw [still.now]
    rcases member with before | rfl
    · exact clocked.times y before
    · exact Nat.le_of_eq time
  logged := by
    intro y member e inside under
    rw [log, List.mem_append, List.mem_singleton] at member
    rw [still.entries] at inside
    rcases member with before | rfl
    · exact clocked.logged y before e inside under
    · exact Nat.le_of_eq (time.trans (clocked.recent _ key e inside under).symm)
  spaced := by
    rw [log]
    refine List.pairwise_append.mpr ⟨clocked.spaced, by simp, fun y before z last => ?_⟩
    rw [List.mem_singleton.mp last, time]
    exact fun under again => clocked.due _ (retried again) y before under
  gone := by
    rw [still.acked, still.replaced, still.nextSeq, still.entries]
    exact clocked.gone
  recent := by
    intro other member
    rw [still.entries, still.now]
    exact clocked.recent other (fewer.all other member)
  held := by
    intro other here
    rw [still.pending]
    exact clocked.held other (fewer.inHand other here)
  due := by
    intro other member y logged under
    rw [log, List.mem_append, List.mem_singleton] at logged
    rw [still.now]
    rcases logged with earlier | rfl
    · exact clocked.due other (fewer.hand other member) y earlier under
    · exact absurd (under ▸ member) apart

/-! Where messages are -/

/-- All messages that either activity has to do with, first what is sent again next. -/
def places (m : Delivering) : List (PacketId × Nat) :=
  m.resending.hand ++ (m.delivery.out.waiting ++ (m.handed ++ m.sending.line))

/-- The entries under these keys stand in the order in which they were last sent. -/
def InLine (w : Inflight Nat) (keys : List (PacketId × Nat)) : Prop :=
  keys.Pairwise fun k l => ∀ e ∈ w.entries, ∀ f ∈ w.entries,
    e.key = k → f.key = l → e.lastSent ≤ f.lastSent

theorem InLine.append {w : Inflight Nat} {keys : List (PacketId × Nat)} (line : InLine w keys)
    {key : PacketId × Nat} {now : Nat} (past : ∀ e ∈ w.entries, e.lastSent ≤ now)
    (fresh : ∀ e ∈ w.entries, e.key = key → e.lastSent = now) : InLine w (keys ++ [key]) := by
  refine List.pairwise_append.mpr ⟨line, by simp, fun k _ l last e inside f within _ under => ?_⟩
  rw [fresh f within (under.trans (List.mem_singleton.mp last))]
  exact past e inside

/-- Where messages are, and by what the timer is set. -/
structure Placed (interval : Nat) (m : Delivering) : Prop where
  nodup : m.places.Nodup
  below : ∀ key ∈ m.places, key.2 < m.delivery.window.nextSeq
  cover : m.sending ≠ .stopped → m.resending ≠ .stopped →
    ∀ e ∈ m.delivery.window.entries, e.key ∈ m.places
  line : m.resending ≠ .stopped → InLine m.delivery.window m.delivery.out.waiting
  fresh : m.resending ≠ .stopped → ∀ key ∈ m.handed,
    ∀ e ∈ m.delivery.window.entries, e.key = key → e.lastSent = m.now
  timer : m.resending = .waiting → ∀ key ∈ m.delivery.out.waiting,
    ∀ e ∈ m.delivery.window.entries, e.key = key →
      ∃ due, m.delivery.out.timer = some due ∧ due ≤ e.lastSent + interval
  front : m.resending = .waiting → ∀ key rest, m.delivery.out.waiting = key :: rest →
    ∀ e ∈ m.delivery.window.entries, e.key = key →
      m.delivery.out.timer = some (e.lastSent + interval)

theorem Placed.change {interval : Nat} {m m' : Delivering} (placed : m.Placed interval)
    {keys : List (PacketId × Nat)}
    (restamped : m.delivery.window.Restamped m'.delivery.window keys m.now)
    (apart : ∀ key ∈ keys, key ∉ m.delivery.out.waiting)
    (waiting : m'.delivery.out.waiting = m.delivery.out.waiting)
    (timer : m'.delivery.out.timer = m.delivery.out.timer) (handed : m'.handed = m.handed)
    (resending : m'.resending = m.resending ∨ m'.resending = .stopped) (now : m'.now = m.now)
    (nodup : m'.places.Nodup) (below : ∀ key ∈ m'.places, key.2 < m'.delivery.window.nextSeq)
    (cover : m'.sending ≠ .stopped → m'.resending ≠ .stopped →
      ∀ e ∈ m'.delivery.window.entries, e.key ∈ m'.places) : m'.Placed interval := by
  have before : ∀ e ∈ m'.delivery.window.entries, e.key ∈ m.delivery.out.waiting →
      e ∈ m.delivery.window.entries := by
    intro e member waits
    rcases restamped e member with ⟨touched, _⟩ | ⟨_, inside⟩
    · exact absurd waits (apart _ touched)
    · exact inside
  have running : m'.resending ≠ .stopped → m'.resending = m.resending :=
    fun running => resending.resolve_right running
  have waits : m'.resending = .waiting → m.resending = .waiting :=
    fun here => (running (by simp [here])).symm.trans here
  constructor
  case nodup => exact nodup
  case below => exact below
  case cover => exact cover
  case line =>
    intro here
    rw [waiting]
    refine (placed.line (running here ▸ here)).imp_of_mem fun first second ordered => ?_
    rintro e inside f within rfl rfl
    exact ordered e (before e inside first) f (before f within second) rfl rfl
  case fresh =>
    intro here key member e inside under
    rw [handed] at member
    rw [now]
    rcases restamped e inside with ⟨_, stamped⟩ | ⟨_, old⟩
    · exact stamped
    · exact placed.fresh (running here ▸ here) key member e old under
  case timer =>
    intro here key member e inside under
    rw [waiting] at member
    rw [timer]
    exact placed.timer (waits here) key member e (before e inside (under ▸ member)) under
  case front =>
    intro here key rest first e inside under
    rw [waiting] at first
    rw [timer]
    have member : e.key ∈ m.delivery.out.waiting := by simp [first, under]
    exact placed.front (waits here) key rest first e (before e inside member) under

theorem Placed.rearrange {interval : Nat} {m m' : Delivering} (placed : m.Placed interval)
    (still : Still m m') (running : m.resending ≠ .stopped) (busy : m'.resending ≠ .waiting)
    (sending : m'.sending = m.sending) (nodup : m'.places.Nodup)
    (places : ∀ key ∈ m'.places, key ∈ m.places)
    (kept : ∀ e ∈ m.delivery.window.entries, e.key ∈ m.places → e.key ∈ m'.places)
    (line : InLine m.delivery.window m'.delivery.out.waiting)
    (handed : ∀ key ∈ m'.handed, key ∈ m.handed) : m'.Placed interval where
  nodup := nodup
  below := by
    intro key member
    rw [still.nextSeq]
    exact placed.below key (places key member)
  cover := by
    intro begun _ e member
    rw [still.entries] at member
    exact kept e member (placed.cover (sending ▸ begun) running e member)
  line := by
    intro _
    rwa [InLine, still.entries]
  fresh := by
    intro _ key member
    rw [still.entries, still.now]
    exact placed.fresh running key (handed key member)
  timer := fun here => absurd here busy
  front := fun here => absurd here busy

/-! What a stroke preserves -/

structure Timely (interval : Nat) (m : Delivering) : Prop where
  clocked : m.Clocked interval
  placed : m.Placed interval

theorem Alike.still {m : Delivering} {d : Delivery} (alike : Alike m.delivery d)
    (sending : Sending) (resending : Resending) (handed : List (PacketId × Nat))
    (sent : List Sent) :
    Still m { m with delivery := d, sending, resending, handed, sent } :=
  ⟨alike.entries, alike.nextSeq, alike.interval, rfl, rfl, rfl⟩

theorem Placed.fewer {interval : Nat} {m m' : Delivering} (placed : m.Placed interval)
    (still : Still m m') (waiting : m'.delivery.out.waiting = m.delivery.out.waiting)
    (timer : m'.delivery.out.timer = m.delivery.out.timer) (handed : m'.handed = m.handed)
    (resending : m'.resending = m.resending ∨ m'.resending = .stopped)
    (places : m'.places.Sublist m.places)
    (cover : m'.sending ≠ .stopped → m'.resending ≠ .stopped →
      ∀ e ∈ m.delivery.window.entries, e.key ∈ m'.places) : m'.Placed interval := by
  refine placed.change (.of_subset (fun e member => still.entries ▸ member) _) (by simp) waiting
    timer handed resending still.now (places.nodup placed.nodup) ?_ (by rwa [still.entries])
  intro key member
  rw [still.nextSeq]
  exact placed.below key (places.subset member)

theorem Timely.outside {interval : Nat} {m : Delivering} (timely : m.Timely interval)
    {delivery : Delivery} (still : Still m { m with delivery })
    (waiting : delivery.out.waiting = m.delivery.out.waiting)
    (timer : delivery.out.timer = m.delivery.out.timer) :
    ({ m with delivery } : Delivering).Timely interval := by
  have places : ({ m with delivery } : Delivering).places = m.places := by
    simp only [Delivering.places, waiting]
  refine ⟨timely.clocked.still still ⟨fun _ c => c, fun _ h => h, fun _ i => i⟩ rfl, ?_⟩
  refine timely.placed.fewer still waiting timer rfl (Or.inl rfl) ?_ ?_
  · rw [places]
  · rw [places]
    exact timely.placed.cover

theorem Timely.halt {interval : Nat} {m : Delivering} (timely : m.Timely interval)
    {delivery : Delivery} (alike : Alike m.delivery delivery) :
    ({ m with delivery, sending := .stopped } : Delivering).Timely interval := by
  have still := alike.still .stopped m.resending m.handed m.sent
  refine ⟨timely.clocked.still still (.sending rfl nofun nofun) rfl, ?_⟩
  refine timely.placed.fewer still alike.waiting alike.timer rfl (Or.inl rfl) ?_ (by simp)
  simp only [places, alike.waiting, Sending.line, List.append_nil]
  exact ((List.sublist_append_left ..).append_left _).append_left _

theorem Timely.cease {interval : Nat} {m : Delivering} (timely : m.Timely interval)
    {delivery : Delivery} (alike : Alike m.delivery delivery) :
    ({ m with delivery, resending := .stopped } : Delivering).Timely interval := by
  have still := alike.still m.sending .stopped m.handed m.sent
  refine ⟨timely.clocked.still still (.resending rfl rfl) rfl, ?_⟩
  refine timely.placed.fewer still alike.waiting alike.timer rfl (Or.inr rfl) ?_ (by simp)
  simp only [places, alike.waiting, Resending.hand, List.nil_append]
  exact List.sublist_append_right ..

theorem Clocked.not_pending {interval : Nat} {m : Delivering} (clocked : m.Clocked interval)
    {id : PacketId} {seq : Nat} (none : (m.delivery.window.resend id seq m.now).2 = none) :
    ∀ e ∈ m.delivery.window.entries, e.key ≠ (id, seq) := by
  intro e member key
  have pending : m.delivery.window.isPending id seq = true :=
    clocked.ordered.isPending_iff.mpr (Inflight.mem_pending.mpr ⟨e, member, key⟩)
  rw [← Inflight.isSome_resend _ _ _ m.now, none] at pending
  cases pending

theorem Timely.skip {interval : Nat} {m : Delivering} (timely : m.Timely interval) {id : PacketId}
    {seq : Nat} {rest : List (PacketId × Nat)} (here : m.sending = .among ((id, seq) :: rest))
    (none : (m.delivery.window.resend id seq m.now).2 = none) :
    ({ m with sending := .among rest } : Delivering).Timely interval := by
  have still : Still m { m with sending := .among rest } := ⟨rfl, rfl, rfl, rfl, rfl, rfl⟩
  refine ⟨timely.clocked.still still (.sending rfl nofun nofun) rfl, ?_⟩
  refine timely.placed.fewer still rfl rfl rfl (Or.inl rfl) ?_ fun _ running e member => ?_
  · simp only [places, here, Sending.line]
    exact (((List.sublist_cons_self ..).append_left _).append_left _).append_left _
  · have before := timely.placed.cover (by simp [here]) running e member
    have other := timely.clocked.not_pending none e member
    simp only [places, here, Sending.line, List.mem_append, List.mem_cons] at before ⊢
    tauto

structure Stamps (w w' : Inflight Nat) (key : PacketId × Nat) (now : Nat) : Prop
    extends w.Kept w' where
  restamped : w.Restamped w' [key] now
  ordered : w'.Ordered
  present : key ∈ w.pending

theorem Clocked.stamps {interval : Nat} {m : Delivering} (clocked : m.Clocked interval)
    {id : PacketId} {seq : Nat} {window : Inflight Nat} {p : Publish}
    (resent : m.delivery.window.resend id seq m.now = (window, some p)) :
    Stamps m.delivery.window window (id, seq) m.now := by
  obtain ⟨e, member, key, _⟩ := clocked.ordered.resend_some resent
  have restamped := clocked.ordered.resend_restamped id seq m.now
  have ordered := clocked.ordered.resend id seq m.now
  have kept := Inflight.kept_of_resend resent
  rw [resent] at restamped ordered
  exact ⟨kept, restamped, ordered, Inflight.mem_pending.mpr ⟨e, member, key⟩⟩

theorem Stamps.mem {w w' : Inflight Nat} {key : PacketId × Nat} {now : Nat}
    (stamps : Stamps w w' key now) {e : InflightEntry Nat} (member : e ∈ w'.entries) :
    ∃ f ∈ w.entries, f.key = e.key := by
  have pending : e.key ∈ w'.pending := Inflight.mem_pending.mpr ⟨e, member, rfl⟩
  rw [stamps.pending] at pending
  exact Inflight.mem_pending.mp pending

theorem Clocked.stamped {interval : Nat} {m m' : Delivering} (clocked : m.Clocked interval)
    (idle : m.busy = false) {key : PacketId × Nat}
    (stamps : Stamps m.delivery.window m'.delivery.window key m.now)
    (now : m'.now = m.now) (log : m'.log = m.log) (acked : m'.acked = m.acked)
    (replaced : m'.replaced = m.replaced)
    (current : ∀ k ∈ m'.sending.current ++ m'.resending.hand,
      k = key ∨ k ∈ m.sending.current ++ m.resending.hand)
    (inHand : ∀ k, m'.InHand k → k = key ∨ m.InHand k)
    (due : ∀ k ∈ m'.resending.hand, ∀ x ∈ m.log, x.key = k → x.time + interval ≤ m.now) :
    m'.Clocked interval := by
  refine clocked.change stamps.restamped stamps.ordered stamps.interval now log ?_
    (fun k member => (current k member).imp_left fun same => by simp [same]) ?_ due
  · intro seq left
    rw [acked, replaced] at left
    obtain ⟨below, absent⟩ := clocked.gone seq left
    refine ⟨stamps.nextSeq ▸ below, fun e member => ?_⟩
    obtain ⟨f, inside, same⟩ := stamps.mem member
    have seqs : f.seq = e.seq := congrArg Prod.snd same
    exact seqs ▸ absent f inside
  · intro k here
    rw [stamps.pending]
    obtain rfl := (inHand k here).resolve_right (not_inHand idle k)
    exact stamps.present

theorem Placed.stamped {interval : Nat} {m m' : Delivering} (placed : m.Placed interval)
    {key : PacketId × Nat} (stamps : Stamps m.delivery.window m'.delivery.window key m.now)
    (apart : key ∉ m.delivery.out.waiting)
    (waiting : m'.delivery.out.waiting = m.delivery.out.waiting)
    (timer : m'.delivery.out.timer = m.delivery.out.timer) (handed : m'.handed = m.handed)
    (begun : m'.sending ≠ .stopped → m.sending ≠ .stopped)
    (resending : m'.resending = m.resending) (now : m'.now = m.now)
    (places : m'.places = m.places) : m'.Placed interval := by
  refine placed.change stamps.restamped ?_ waiting timer handed (Or.inl resending) now ?_ ?_ ?_
  · intro k member
    rwa [List.mem_singleton.mp member]
  · exact places ▸ placed.nodup
  · rw [places, stamps.nextSeq]
    exact placed.below
  · intro sends running e member
    obtain ⟨f, inside, key⟩ := stamps.mem member
    rw [places, ← key]
    exact placed.cover (begun sends) (resending ▸ running) f inside

theorem Timely.resume {interval : Nat} {m : Delivering} (timely : m.Timely interval)
    (idle : m.busy = false) {id : PacketId} {seq : Nat} {rest : List (PacketId × Nat)}
    (here : m.sending = .among ((id, seq) :: rest)) {window : Inflight Nat} {p : Publish}
    (resent : m.delivery.window.resend id seq m.now = (window, some p)) :
    ({ m with delivery := { m.delivery with window }
              sending := .sending p (id, seq) rest } : Delivering).Timely interval := by
  have stamps := timely.clocked.stamps resent
  constructor
  · refine timely.clocked.stamped idle stamps rfl rfl rfl rfl ?_ ?_ timely.clocked.due
    · intro k member
      simp only [Sending.current, List.cons_append, List.nil_append, List.mem_cons] at member
      exact member.imp_right (List.mem_append_right _)
    · rintro k (⟨p, rest, other⟩ | other)
      · cases other
        exact Or.inl rfl
      · exact Or.inr (Or.inr other)
  · refine timely.placed.stamped stamps ?_ rfl rfl rfl (by simp [here]) rfl rfl ?_
    · intro waits
      have nodup := timely.placed.nodup
      simp only [places, here, Sending.line] at nodup
      exact (List.nodup_append.mp (List.nodup_append.mp nodup).2.1).2.2 _ waits _ (by simp) rfl
    · simp only [places, here, Sending.line]

structure Joins (w w' : Inflight Nat) (e : InflightEntry Nat) (now : Nat) : Prop where
  restamped : w.Restamped w' [e.key] now
  ordered : w'.Ordered
  interval : w'.interval = w.interval
  nextSeq : w'.nextSeq = w.nextSeq + 1
  seq : e.seq = w.nextSeq
  entries : w'.entries = w.without e.id ++ [e]

theorem Clocked.joins {interval : Nat} {m : Delivering} (clocked : m.Clocked interval)
    {q : SessionQueues} {durable : StoredQueue EventId} {next : StoredMessage}
    {delivery : Delivery} {e : InflightEntry Nat}
    (taken : m.delivery.takeIn q durable next m.now = (delivery, e)) :
    Joins m.delivery.window delivery.window e m.now ∧
      delivery.out = { m.delivery.out with holding := false } := by
  obtain ⟨replaced, inserted, out, _⟩ := Delivery.takeIn_entered taken
  have restamped := m.delivery.window.insert_restamped next.offset next.message m.now
  have ordered := clocked.ordered.insert next.offset next.message m.now
  have entered := m.delivery.window.insert_entered next.offset next.message m.now
  have interval : (m.delivery.window.insert next.offset next.message m.now).1.interval =
      m.delivery.window.interval := rfl
  rw [inserted] at restamped ordered entered interval
  exact ⟨⟨restamped, ordered, interval, entered.nextSeq, entered.seq, entered.entries⟩, out⟩

theorem Joins.mem {w w' : Inflight Nat} {e : InflightEntry Nat} {now : Nat}
    (joins : Joins w w' e now) {f : InflightEntry Nat} :
    f ∈ w'.entries ↔ (f ∈ w.entries ∧ f.id ≠ e.id) ∨ f = e := by
  rw [joins.entries, List.mem_append, List.mem_singleton, Inflight.without, List.mem_filter]
  simp

theorem Clocked.gone_joins {interval : Nat} {m : Delivering} (clocked : m.Clocked interval)
    {w' : Inflight Nat} {e : InflightEntry Nat} (joins : Joins m.delivery.window w' e m.now)
    {seq : Nat} (left : seq ∈ m.acked ∨ seq ∈ m.replaced ++
      ((m.delivery.window.find? e.id).map InflightEntry.seq).toList) :
    seq < w'.nextSeq ∧ ∀ f ∈ w'.entries, f.seq ≠ seq := by
  have split : (seq ∈ m.acked ∨ seq ∈ m.replaced) ∨
      ∃ g ∈ m.delivery.window.entries, g.id = e.id ∧ g.seq = seq := by
    rw [List.mem_append, ← or_assoc] at left
    refine left.imp_right fun last => ?_
    simp only [Option.mem_toList, Option.map_eq_some_iff] at last
    obtain ⟨g, found, same⟩ := last
    obtain ⟨inside, id⟩ := clocked.ordered.find?_iff.mp found
    exact ⟨g, inside, id, same⟩
  have absent : seq < m.delivery.window.nextSeq ∧
      ∀ f ∈ m.delivery.window.entries, f.id ≠ e.id → f.seq ≠ seq := by
    rcases split with before | ⟨g, inside, id, rfl⟩
    · exact ⟨(clocked.gone seq before).1, fun f member _ => (clocked.gone seq before).2 f member⟩
    · refine ⟨clocked.ordered.fresh g inside, fun f member other same => other ?_⟩
      rw [clocked.ordered.same_seq member inside same, id]
  refine ⟨joins.nextSeq ▸ Nat.lt_succ_of_lt absent.1, fun f member => ?_⟩
  rcases joins.mem.mp member with ⟨inside, other⟩ | rfl
  · exact absent.2 f inside other
  · rw [joins.seq]
    exact Nat.ne_of_gt absent.1

theorem Placed.join {interval : Nat} {m m' : Delivering} (placed : m.Placed interval)
    {e : InflightEntry Nat} (joins : Joins m.delivery.window m'.delivery.window e m.now)
    (here : m.sending = .among []) (line : m'.sending.line = [e.key])
    (waiting : m'.delivery.out.waiting = m.delivery.out.waiting)
    (timer : m'.delivery.out.timer = m.delivery.out.timer) (handed : m'.handed = m.handed)
    (resending : m'.resending = m.resending) (now : m'.now = m.now) : m'.Placed interval := by
  have places : m'.places = m.places ++ [e.key] := by
    have before : m.sending.line = [] := by rw [here, Sending.line]
    simp only [Delivering.places, waiting, handed, resending, line, before, List.append_nil,
      List.append_assoc]
  have new : e.key ∉ m.places := by
    intro member
    have below := placed.below e.key member
    rw [InflightEntry.key, joins.seq] at below
    exact Nat.lt_irrefl _ below
  refine placed.change joins.restamped ?_ waiting timer handed (Or.inl resending) now ?_ ?_ ?_
  · intro key member waits
    rw [List.mem_singleton.mp member] at waits
    exact new (List.mem_append_right _ (List.mem_append_left _ waits))
  · rw [places]
    refine List.nodup_append.mpr ⟨placed.nodup, by simp, fun key member l last same => new ?_⟩
    rwa [← List.mem_singleton.mp last, ← same]
  · intro key member
    rw [places, List.mem_append, List.mem_singleton] at member
    rw [joins.nextSeq]
    rcases member with before | rfl
    · exact Nat.lt_succ_of_lt (placed.below key before)
    · exact Nat.lt_succ_of_le (Nat.le_of_eq joins.seq)
  · intro _ running f member
    rw [places, List.mem_append, List.mem_singleton]
    rcases joins.mem.mp member with ⟨inside, _⟩ | rfl
    · exact Or.inl (placed.cover (by simp [here]) (resending ▸ running) f inside)
    · exact Or.inr rfl

theorem Timely.enter {interval : Nat} {m : Delivering} (timely : m.Timely interval)
    (idle : m.busy = false) (here : m.sending = .among []) {q : SessionQueues}
    {durable : StoredQueue EventId} {next : StoredMessage} {delivery : Delivery}
    {e : InflightEntry Nat}
    (taken : m.delivery.takeIn q durable next m.now = (delivery, e)) :
    ({ m with delivery, sending := .sending e.publish e.key [], entered := m.entered ++ [e]
              replaced := m.replaced ++
                ((m.delivery.window.find? e.id).map InflightEntry.seq).toList } :
      Delivering).Timely interval := by
  obtain ⟨clocked, placed⟩ := timely
  obtain ⟨joins, out⟩ := clocked.joins taken
  constructor
  · refine clocked.change joins.restamped joins.ordered joins.interval rfl rfl
      (fun seq left => clocked.gone_joins joins left) ?_ ?_ clocked.due
    · intro k member
      simp only [Sending.current, List.cons_append, List.nil_append, List.mem_cons] at member
      exact member.imp (fun same => by simp [same]) (List.mem_append_right _)
    · rintro k (⟨p, rest, other⟩ | other)
      · cases other
        exact Inflight.mem_pending.mpr ⟨e, joins.mem.mpr (Or.inr rfl), rfl⟩
      · exact absurd (Or.inr other) (not_inHand idle k)
  · exact placed.join joins here rfl (by rw [out]) (by rw [out]) rfl rfl rfl

theorem Timely.send {interval : Nat} {m : Delivering} (timely : m.Timely interval) {p : Publish}
    {key : PacketId × Nat} {rest : List (PacketId × Nat)} (here : m.sending = .sending p key rest)
    {delivery : Delivery} (alike : Alike m.delivery delivery) :
    ({ m with delivery, sending := .handing key rest
              sent := m.sent ++ [⟨key, p, m.now, false⟩] } : Delivering).Timely interval := by
  have still := alike.still (.handing key rest) m.resending m.handed
    (m.sent ++ [⟨key, p, m.now, false⟩])
  have nodup := timely.placed.nodup
  have places : ({ m with delivery, sending := .handing key rest
                          sent := m.sent ++ [⟨key, p, m.now, false⟩] } : Delivering).places =
      m.places := by
    simp only [Delivering.places, alike.waiting, here, Sending.line]
  constructor
  · refine timely.clocked.send (x := ⟨key, p, m.now, false⟩) still (.sending rfl ?_ nofun)
      (by simp [log]) ?_ rfl nofun ?_
    · simp [here, Sending.current]
    · simp [here, Sending.current]
    · intro hand
      simp only [Delivering.places, here, Sending.line] at nodup
      exact (List.nodup_append.mp nodup).2.2 _ hand _ (by simp) rfl
  · refine timely.placed.fewer still alike.waiting alike.timer rfl (Or.inl rfl) ?_ ?_
    · rw [places]
    · rw [places]
      exact fun _ => timely.placed.cover (by simp [here])

theorem Timely.hand {interval : Nat} {m : Delivering} (timely : m.Timely interval)
    {key : PacketId × Nat} {rest : List (PacketId × Nat)} (here : m.sending = .handing key rest) :
    ({ m with sending := .among rest, handed := m.handed ++ [key] } : Delivering).Timely
      interval := by
  obtain ⟨clocked, placed⟩ := timely
  have places : ({ m with sending := .among rest, handed := m.handed ++ [key] } :
      Delivering).places = m.places := by
    simp [Delivering.places, here, Sending.line]
  constructor
  · exact clocked.still ⟨rfl, rfl, rfl, rfl, rfl, rfl⟩ (.sending rfl nofun nofun) rfl
  · exact
      { nodup := places ▸ placed.nodup
        below := places ▸ placed.below
        cover := fun _ => places ▸ placed.cover (by simp [here])
        line := placed.line
        fresh := by
          intro running k member
          rcases List.mem_append.mp member with before | last
          · exact placed.fresh running k before
          · rw [List.mem_singleton.mp last]
            exact clocked.recent key (by simp [here, Sending.current])
        timer := placed.timer
        front := placed.front }

theorem Clocked.reconsider_mem {interval : Nat} {m : Delivering} (clocked : m.Clocked interval)
    {e : InflightEntry Nat} (member : e ∈ m.delivery.window.entries)
    (waits : e.key ∈ m.delivery.out.waiting) : e.key ∈ m.delivery.reconsider.out.waiting := by
  have all := List.takeWhile_append_dropWhile (l := m.delivery.out.waiting)
    (p := fun key => !m.delivery.window.isPending key.1 key.2)
  rw [← all, List.mem_append] at waits
  refine waits.resolve_left fun dropped => ?_
  have gone := List.mem_takeWhile_imp dropped
  have pending := clocked.ordered.isPending_iff.mpr (Inflight.mem_pending.mpr ⟨e, member, rfl⟩)
  simp [InflightEntry.key, pending] at gone

theorem Clocked.reconsider_front {interval : Nat} {m : Delivering} (clocked : m.Clocked interval)
    {key : PacketId × Nat} {rest : List (PacketId × Nat)}
    (front : m.delivery.reconsider.out.waiting = key :: rest) :
    ∃ e ∈ m.delivery.window.entries, e.key = key ∧
      m.delivery.reconsider.out.timer = some (e.lastSent + interval) := by
  have here := List.head?_dropWhile_not
    (fun key => !m.delivery.window.isPending key.1 key.2) m.delivery.out.waiting
  have timer : m.delivery.reconsider.out.timer = m.delivery.window.deadline key.1 key.2 := by
    have head := congrArg List.head? front
    simp only [Delivery.reconsider] at head ⊢
    rw [head]
    rfl
  simp only [Delivery.reconsider] at front
  simp only [front, List.head?_cons, Bool.not_eq_eq_eq_not, Bool.not_false] at here
  obtain ⟨e, member, same⟩ := Inflight.mem_pending.mp (clocked.ordered.isPending_iff.mp here)
  refine ⟨e, member, same, timer.trans ?_⟩
  rw [← clocked.spacing]
  exact clocked.ordered.deadline_iff.mpr ⟨e, member, same, rfl⟩

theorem Timely.look {interval : Nat} {m : Delivering} (timely : m.Timely interval)
    (here : m.resending = .looking) :
    ({ m with delivery := m.delivery.reconsider, resending := .waiting } : Delivering).Timely
      interval := by
  obtain ⟨clocked, placed⟩ := timely
  have shorter : m.delivery.reconsider.out.waiting.Sublist m.delivery.out.waiting :=
    List.dropWhile_sublist _
  have places : ({ m with delivery := m.delivery.reconsider, resending := .waiting } :
      Delivering).places.Sublist m.places := by
    simp only [Delivering.places, here, Resending.hand, List.nil_append]
    exact shorter.append_right _
  have line := (placed.line (by simp [here])).sublist shorter
  constructor
  · exact clocked.still ⟨rfl, rfl, rfl, rfl, rfl, rfl⟩ (.resending rfl rfl) rfl
  · constructor
    case nodup => exact places.nodup placed.nodup
    case below => exact fun key member => placed.below key (places.subset member)
    case line => exact fun _ => line
    case fresh => exact fun _ => placed.fresh (by simp [here])
    case cover =>
      intro begun _ e member
      have before := placed.cover begun (by simp [here]) e member
      simp only [Delivering.places, List.mem_append] at before ⊢
      refine before.imp (fun hand => ?_) (Or.imp_left (clocked.reconsider_mem member))
      simp [here, Resending.hand] at hand
    case front =>
      intro _ key rest first e member under
      obtain ⟨f, inside, same, timer⟩ := clocked.reconsider_front first
      rwa [clocked.ordered.same_key inside member (same.trans under.symm)] at timer
    case timer =>
      intro _ key member e inside under
      cases front : m.delivery.reconsider.out.waiting with
      | nil => simp [front] at member
      | cons first rest =>
          obtain ⟨f, within, same, timer⟩ := clocked.reconsider_front front
          refine ⟨_, timer, Nat.add_le_add_right ?_ interval⟩
          simp only [front] at member line
          -- the front was not sent later than what stands behind it
          rcases List.mem_cons.mp member with rfl | later
          · rw [clocked.ordered.same_key within inside (same.trans under.symm)]
          · exact (List.pairwise_cons.mp line).1 key later f within e inside same under

theorem Timely.take {interval : Nat} {m : Delivering} (timely : m.Timely interval)
    (here : m.resending = .waiting) {key : PacketId × Nat} {handed : List (PacketId × Nat)}
    (comes : m.handed = key :: handed) :
    ({ m with delivery := waitingFor m.delivery (m.delivery.out.waiting ++ [key])
              resending := .looking, handed } : Delivering).Timely interval := by
  obtain ⟨clocked, placed⟩ := timely
  have still : Still m { m with
      delivery := waitingFor m.delivery (m.delivery.out.waiting ++ [key])
      resending := .looking, handed } := ⟨rfl, rfl, rfl, rfl, rfl, rfl⟩
  have places : ({ m with
      delivery := waitingFor m.delivery (m.delivery.out.waiting ++ [key])
      resending := .looking, handed } : Delivering).places = m.places := by
    simp [Delivering.places, waitingFor, here, comes, Resending.hand]
  constructor
  · exact clocked.still still (.resending rfl rfl) rfl
  · refine placed.rearrange still (by simp [here]) nofun rfl (places ▸ placed.nodup)
      (by simp [places]) (by simp [places]) ?_ fun k member => by simp [comes, member]
    exact (placed.line (by simp [here])).append clocked.past
      (placed.fresh (by simp [here]) key (by simp [comes]))

theorem Timely.passOver {interval : Nat} {m : Delivering} (timely : m.Timely interval)
    (here : m.resending = .waiting) {id : PacketId} {seq : Nat} {rest : List (PacketId × Nat)}
    (front : m.delivery.out.waiting = (id, seq) :: rest)
    (none : (m.delivery.window.resend id seq m.now).2 = none) :
    ({ m with delivery := waitingFor m.delivery rest, resending := .looking } :
      Delivering).Timely interval := by
  obtain ⟨clocked, placed⟩ := timely
  have still : Still m { m with delivery := waitingFor m.delivery rest, resending := .looking } :=
    ⟨rfl, rfl, rfl, rfl, rfl, rfl⟩
  have places : m.places = (id, seq) :: ({ m with
      delivery := waitingFor m.delivery rest, resending := .looking } : Delivering).places := by
    simp [Delivering.places, waitingFor, here, front, Resending.hand]
  have nodup := placed.nodup
  have line := placed.line (by simp [here])
  rw [places] at nodup
  rw [front] at line
  constructor
  · exact clocked.still still (.resending rfl rfl) rfl
  · refine placed.rearrange still (by simp [here]) nofun rfl (List.nodup_cons.mp nodup).2
      (fun k member => places ▸ List.mem_cons_of_mem _ member) ?_
      (List.pairwise_cons.mp line).2 fun _ member => member
    intro e member before
    rw [places, List.mem_cons] at before
    exact before.resolve_left (clocked.not_pending none e member)

theorem Timely.fire {interval : Nat} {m : Delivering} (timely : m.Timely interval)
    (idle : m.busy = false) (here : m.resending = .waiting) {due : Nat}
    (timer : m.delivery.out.timer = some due) (past : due ≤ m.now) {id : PacketId} {seq : Nat}
    {rest : List (PacketId × Nat)} (front : m.delivery.out.waiting = (id, seq) :: rest)
    {window : Inflight Nat} {p : Publish}
    (resent : m.delivery.window.resend id seq m.now = (window, some p)) :
    ({ m with delivery := { waitingFor m.delivery rest with window }
              resending := .sending p (id, seq) } : Delivering).Timely interval := by
  obtain ⟨clocked, placed⟩ := timely
  have stamps := clocked.stamps resent
  have nodup := placed.nodup
  have line := placed.line (by simp [here])
  rw [front] at line
  constructor
  · refine clocked.stamped idle stamps rfl rfl rfl rfl ?_ ?_ ?_
    · intro k member
      rcases List.mem_append.mp member with current | hand
      · exact Or.inr (List.mem_append_left _ current)
      · exact Or.inl (List.mem_singleton.mp hand)
    · rintro k (other | ⟨p, other⟩)
      · exact Or.inr (Or.inl other)
      · cases other
        exact Or.inl rfl
    · intro k member x logged under
      obtain rfl : k = (id, seq) := List.mem_singleton.mp member
      obtain ⟨e, inside, key⟩ := Inflight.mem_pending.mp stamps.present
      -- what was sent last was this entry, and by its time the timer is set
      have sent := clocked.logged x logged e inside (key.trans under.symm)
      have set := placed.front here _ _ front e inside key
      rw [timer, Option.some.injEq] at set
      omega
  · -- first the line without its front, then the window
    have still : Still m { m with
        delivery := waitingFor m.delivery rest, resending := .sending p (id, seq) } :=
      ⟨rfl, rfl, rfl, rfl, rfl, rfl⟩
    have places : ({ m with
        delivery := waitingFor m.delivery rest, resending := .sending p (id, seq) } :
        Delivering).places = m.places := by
      simp [Delivering.places, waitingFor, here, front, Resending.hand]
    have taken := placed.rearrange still (by simp [here]) nofun rfl (places ▸ nodup)
      (by simp [places]) (by simp [places]) (List.pairwise_cons.mp line).2 fun _ member => member
    refine taken.stamped stamps ?_ rfl rfl rfl (fun begun => begun) rfl rfl rfl
    rw [← places] at nodup
    exact fun waits => (List.nodup_append.mp nodup).2.2 (id, seq) (by simp [Resending.hand]) _
      (List.mem_append_left _ waits) rfl

theorem Timely.sendAgain {interval : Nat} {m : Delivering} (timely : m.Timely interval)
    {p : Publish} {key : PacketId × Nat} (here : m.resending = .sending p key)
    {delivery : Delivery} (alike : Alike m.delivery delivery) :
    ({ m with delivery := waitingFor delivery (m.delivery.out.waiting ++ [key])
              resending := .looking, sent := m.sent ++ [⟨key, p, m.now, true⟩] } :
      Delivering).Timely interval := by
  obtain ⟨clocked, placed⟩ := timely
  have still : Still m { m with
      delivery := waitingFor delivery (m.delivery.out.waiting ++ [key])
      resending := .looking, sent := m.sent ++ [⟨key, p, m.now, true⟩] } :=
    ⟨alike.entries, alike.nextSeq, alike.interval, rfl, rfl, rfl⟩
  have hand : key ∈ m.sending.current ++ m.resending.hand := by simp [here, Resending.hand]
  constructor
  · exact clocked.send (x := ⟨key, p, m.now, true⟩) still (.resending rfl rfl) (by simp [log]) hand
      rfl (fun _ => by simp [here, Resending.hand]) nofun
  · have places : ({ m with
        delivery := waitingFor delivery (m.delivery.out.waiting ++ [key])
        resending := .looking, sent := m.sent ++ [⟨key, p, m.now, true⟩] } :
        Delivering).places.Perm m.places := by
      simp only [Delivering.places, waitingFor, here, Resending.hand, ← List.append_assoc,
        List.nil_append]
      exact ((List.perm_append_comm.append_right _).append_right _)
    refine placed.rearrange still (by simp [here]) nofun rfl (places.nodup_iff.mpr placed.nodup)
      (fun k => places.mem_iff.mp) (fun e _ => places.mem_iff.mpr) ?_ fun _ member => member
    exact (placed.line (by simp [here])).append clocked.past (clocked.recent key hand)

theorem Timely.leave {interval : Nat} {m : Delivering} (timely : m.Timely interval)
    (idle : m.busy = false) {delivery : Delivery} {acked : List Nat}
    (out : delivery.out = m.delivery.out)
    (fewer : ∀ e ∈ delivery.window.entries, e ∈ m.delivery.window.entries)
    (ordered : delivery.window.Ordered)
    (same : delivery.window.interval = m.delivery.window.interval)
    (nextSeq : delivery.window.nextSeq = m.delivery.window.nextSeq)
    (gone : ∀ seq ∈ acked, seq ∈ m.acked ∨
      seq < m.delivery.window.nextSeq ∧ ∀ e ∈ delivery.window.entries, e.seq ≠ seq) :
    ({ m with delivery, acked } : Delivering).Timely interval := by
  obtain ⟨clocked, placed⟩ := timely
  have restamped := Inflight.Restamped.of_subset fewer m.now
  have places : ({ m with delivery, acked } : Delivering).places = m.places := by
    simp only [Delivering.places, out]
  constructor
  · refine clocked.change restamped ordered same rfl rfl ?_ (fun _ => Or.inr)
      (fun k other => absurd other (not_inHand idle k)) clocked.due
    intro seq left
    have split : (seq ∈ m.acked ∨ seq ∈ m.replaced) ∨
        seq < m.delivery.window.nextSeq ∧ ∀ e ∈ delivery.window.entries, e.seq ≠ seq := by
      rcases left with acked | replaced
      · exact (gone seq acked).imp_left Or.inl
      · exact Or.inl (Or.inr replaced)
    simp only [nextSeq]
    rcases split with before | now
    · obtain ⟨below, absent⟩ := clocked.gone seq before
      exact ⟨below, fun e member => absent e (fewer e member)⟩
    · exact now
  · refine placed.change restamped (by simp) (by rw [out]) (by rw [out]) rfl (Or.inl rfl) rfl
      (places ▸ placed.nodup) ?_ ?_
    · rw [places]
      simpa only [nextSeq] using placed.below
    · rw [places]
      exact fun begun running e member => placed.cover begun running e (fewer e member)

theorem Timely.acknowledge {interval : Nat} {m : Delivering} (timely : m.Timely interval)
    (idle : m.busy = false) {id : PacketId} {e : InflightEntry Nat}
    (found : m.delivery.window.find? id = some e) :
    ({ m with delivery := m.delivery.acknowledge id, acked := m.acked ++ [e.seq] } :
      Delivering).Timely interval := by
  obtain ⟨window, out, _⟩ := Delivery.acknowledge_found found
  have ordered := timely.clocked.ordered
  obtain ⟨inside, same⟩ := ordered.find?_iff.mp found
  refine timely.leave idle out ?_ ?_ ?_ ?_ ?_
  · intro f member
    rw [window] at member
    exact (Inflight.mem_ack.mp member).1
  · rw [window]
    exact ordered.ack id
  · rw [window, Inflight.ack_interval]
  · rw [window, Inflight.ack_nextSeq]
  · intro seq member
    rw [List.mem_append, List.mem_singleton] at member
    rcases member with before | rfl
    · exact Or.inl before
    · refine Or.inr ⟨ordered.fresh e inside, fun f left seqs => ?_⟩
      rw [window] at left
      obtain ⟨before, other⟩ := Inflight.mem_ack.mp left
      exact other (ordered.same_seq before inside seqs ▸ same)

theorem Timely.connect {interval : Nat} {m : Delivering} (timely : m.Timely interval)
    (link : Link) {d : Delivery} (alike : Alike m.delivery d) :
    ({ m with delivery := { d with out := { uid := d.out.uid }, link, failed := false }
              sending := .among d.window.pending, resending := .looking, handed := []
              earlier := m.earlier ++ m.sent, sent := [], due := d.window.pending } :
      Delivering).Timely interval := by
  have still : Still m { m with
      delivery := { d with out := { uid := d.out.uid }, link, failed := false }
      sending := .among d.window.pending, resending := .looking, handed := []
      earlier := m.earlier ++ m.sent, sent := [], due := d.window.pending } :=
    ⟨alike.entries, alike.nextSeq, alike.interval, rfl, rfl, rfl⟩
  have clocked := timely.clocked.still still ⟨nofun, nofun, by rintro k (⟨_, _, ⟨⟩⟩ | ⟨_, ⟨⟩⟩)⟩
    (by simp [log])
  refine ⟨clocked, ?_⟩
  constructor
  case nodup => exact clocked.ordered.nodup_pending
  case below =>
    intro key member
    obtain ⟨e, inside, rfl⟩ := Inflight.mem_pending.mp member
    exact clocked.ordered.fresh e inside
  case cover => exact fun _ _ e member => Inflight.mem_pending.mpr ⟨e, member, rfl⟩
  case line => exact fun _ => .nil
  case fresh => exact fun _ _ member => absurd member List.not_mem_nil
  case timer => exact nofun
  case front => exact nofun

theorem Timely.pass {interval : Nat} {m : Delivering} (timely : m.Timely interval)
    (quiet : m.quiet = true) (time : Nat) :
    ({ m with now := m.now + time } : Delivering).Timely interval := by
  obtain ⟨clocked, placed⟩ := timely
  have current : m.sending.current = [] := by
    rcases quiet_sending quiet with here | here <;> simp [here, Sending.current]
  have hand : m.resending.hand = [] := by
    rcases quiet_resending quiet with ⟨here, _⟩ | here <;> simp [here, Resending.hand]
  have later := Nat.le_add_right m.now time
  constructor
  · exact
      { clocked with
        past := fun e member => (clocked.past e member).trans later
        times := fun x member => (clocked.times x member).trans later
        recent := by simp [current, hand]
        due := by simp [hand] }
  · refine { placed with fresh := fun running key member => ?_ }
    rcases quiet_resending quiet with ⟨_, handed⟩ | stopped
    · simp [handed] at member
    · exact absurd stopped running

theorem Timely.moves {interval : Nat} {m m' : Delivering} (timely : m.Timely interval)
    {s : Stroke} (moves : Moves m s m') (allowed : m.allows s = true) : m'.Timely interval := by
  cases moves with
  | aside s alike =>
      exact timely.outside (alike.still _ _ _ _) alike.waiting alike.timer
  | halted s alike => exact timely.halt alike
  | ceased s alike => exact timely.cease alike
  | skipped here none => exact timely.skip here none
  | resumed here resent => exact timely.resume (by simpa [allows] using allowed) here resent
  | entered idle queues popped taken =>
      exact timely.enter (by simpa [allows] using allowed) idle taken
  | sent here alike => exact timely.send here alike
  | handed here running => exact timely.hand here
  | looked here => exact timely.look here
  | took here comes => exact timely.take here comes
  | passedOver here front none => exact timely.passOver here front none
  | fired here timer past front resent =>
      exact timely.fire (by simpa [allows] using allowed) here timer past front resent
  | sentAgain here alike => exact timely.sendAgain here alike
  | acknowledged found => exact timely.acknowledge (by simpa [allows] using allowed) found
  | connected link halted ceased alike => exact timely.connect link alike
  | passed time => exact timely.pass allowed time

theorem act_timely {interval : Nat} {m : Delivering} (timely : m.Timely interval) (a : Act) :
    (m.act a).Timely interval := by
  cases a with
  | stroke s =>
      simp only [act]
      split
      · rename_i allowed
        exact timely.moves (step_moves m s) allowed
      · exact timely
  | requeue queues =>
      simp only [act]
      split
      · exact timely
      · exact timely.outside ⟨rfl, rfl, rfl, rfl, rfl, rfl⟩ rfl rfl
  | clear =>
      simp only [act]
      split
      · exact timely
      · rename_i idle
        exact timely.leave (by simpa using idle) rfl nofun (Inflight.ordered_empty rfl) rfl rfl
          fun _ => Or.inl

theorem actAll_timely {interval : Nat} {m : Delivering} (timely : m.Timely interval)
    (acts : List Act) : (m.actAll acts).Timely interval := by
  induction acts generalizing m with
  | nil => exact timely
  | cons a rest ih => exact ih (act_timely timely a)

theorem ofNew_timely (settings : MqttSettings) (uid : SessionUid) (info : SessionInfo)
    (link : Link) (now : Nat) :
    (ofNew settings uid info link now).Timely settings.retryInterval where
  clocked :=
    { ordered := Inflight.ordered_empty rfl
      spacing := rfl
      past := nofun
      times := nofun
      logged := nofun
      spaced := .nil
      gone := by rintro seq (⟨⟨⟩⟩ | ⟨⟨⟩⟩)
      recent := nofun
      held := by rintro key (⟨_, _, ⟨⟩⟩ | ⟨_, ⟨⟩⟩)
      due := nofun }
  placed :=
    { nodup := .nil
      below := nofun
      cover := fun begun => absurd rfl begun
      line := fun _ => .nil
      fresh := nofun
      timer := nofun
      front := nofun }

/-- What is sent again, and when. -/
structure OnTime (interval : Nat) (m : Delivering) : Prop where
  /-- What is in the window is waited for, and once. -/
  once : m.AtRest → ∀ e ∈ m.delivery.window.entries, m.delivery.out.waiting.count e.key = 1
  /-- What was sent longest ago comes first. -/
  line : m.AtRest →
    (m.delivery.out.waiting.filterMap fun (id, seq) => m.delivery.window.lookup id seq).Pairwise
      fun e f => e.lastSent ≤ f.lastSent
  /-- Nothing is overdue, though the timer is set by the front of the line only. -/
  inTime : m.AtRest → ∀ e ∈ m.delivery.window.entries, m.now ≤ e.lastSent + interval
  /-- Nothing is sent again too early. -/
  spaced : m.log.Pairwise fun x y =>
    x.key = y.key → y.retried = true → x.time + interval ≤ y.time
  /-- What has left the window is not sent any more. -/
  gone : ∀ a x, (m.act a).sent = m.sent ++ [x] → x.key.2 ∉ m.acked ∧ x.key.2 ∉ m.replaced

theorem AtRest.waits {interval : Nat} {m : Delivering} (rest : m.AtRest)
    (placed : m.Placed interval) {e : InflightEntry Nat}
    (member : e ∈ m.delivery.window.entries) : e.key ∈ m.delivery.out.waiting := by
  have place := placed.cover (by simp [rest.sending]) (by simp [rest.resending]) e member
  simpa [places, rest.sending, rest.resending, rest.handed, Resending.hand, Sending.line] using
    place

theorem InLine.lookups {w : Inflight Nat} {keys : List (PacketId × Nat)} (line : InLine w keys)
    (ordered : w.Ordered) : (keys.filterMap fun (id, seq) => w.lookup id seq).Pairwise
      fun e f => e.lastSent ≤ f.lastSent := by
  refine List.pairwise_filterMap.mpr (line.imp fun {k l} sorted e first f second => ?_)
  obtain ⟨inside, key⟩ := ordered.lookup_iff.mp first
  obtain ⟨within, other⟩ := ordered.lookup_iff.mp second
  exact sorted e inside f within key other

theorem act_sent {m : Delivering} {a : Act} {x : Sent} (grows : (m.act a).sent = m.sent ++ [x]) :
    m.InHand x.key := by
  have longer : ∀ sent, sent = m.sent → sent ≠ m.sent ++ [x] := by
    rintro _ rfl same
    simpa using congrArg List.length same
  have moved : ∀ {s m'}, Moves m s m' → m'.sent = m.sent ++ [x] → m.InHand x.key := by
    intro s m' moves grows
    cases moves with
    | sent here _ =>
        obtain rfl := List.singleton_inj.mp (List.append_cancel_left grows)
        exact Or.inl ⟨_, _, here⟩
    | sentAgain here _ =>
        obtain rfl := List.singleton_inj.mp (List.append_cancel_left grows)
        exact Or.inr ⟨_, here⟩
    | connected => simp at grows
    | _ => exact absurd grows (longer _ rfl)
  cases a with
  | stroke s =>
      simp only [act] at grows
      split at grows
      · exact moved (step_moves m s) grows
      · exact absurd grows (longer _ rfl)
  | requeue queues =>
      simp only [act] at grows
      split at grows <;> exact absurd grows (longer _ rfl)
  | clear =>
      simp only [act] at grows
      split at grows <;> exact absurd grows (longer _ rfl)

theorem Timely.onTime {interval : Nat} {m : Delivering} (timely : m.Timely interval) :
    m.OnTime interval := by
  obtain ⟨clocked, placed⟩ := timely
  constructor
  case once =>
    intro rest e member
    have distinct : m.delivery.out.waiting.Nodup := by
      refine List.Sublist.nodup ?_ placed.nodup
      exact (List.sublist_append_left ..).trans (List.sublist_append_right ..)
    exact List.count_eq_one_of_mem distinct (rest.waits placed member)
  case line => exact fun rest => (placed.line (by simp [rest.resending])).lookups clocked.ordered
  case inTime =>
    intro rest e member
    obtain ⟨due, timer, early⟩ :=
      placed.timer rest.resending e.key (rest.waits placed member) e member rfl
    exact (rest.timer due timer).trans early
  case spaced => exact clocked.spaced
  case gone =>
    intro a x grows
    obtain ⟨e, member, key⟩ := Inflight.mem_pending.mp (clocked.held x.key (act_sent grows))
    have here : e.seq = x.key.2 := congrArg Prod.snd key
    exact ⟨fun acked => (clocked.gone _ (Or.inl acked)).2 e member here,
      fun replaced => (clocked.gone _ (Or.inr replaced)).2 e member here⟩

/-- Over any connections of a session, whatever is acknowledged, replaced, refused or cleared. -/
theorem actAll_on_time (settings : MqttSettings) (uid : SessionUid) (info : SessionInfo)
    (link : Link) (now : Nat) (acts : List Act) :
    ((ofNew settings uid info link now).actAll acts).OnTime settings.retryInterval :=
  (actAll_timely (ofNew_timely settings uid info link now) acts).onTime

example :
    let durable : DurableQueue EventId :=
      { (DurableQueue.new (.ofSettings {}) 64 0 : DurableQueue EventId) with
        outbox := [⟨1, .new 0 "a" [1] .atLeastOnce⟩] }
    let acts := [.requeue (some ⟨.new 1 .early, 0, durable⟩)] ++
      ([.connect { address := "" }, .look, .takePermit, .takeIn, .send, .hand, .take, .look,
        .pass 20000, .fire, .sendAgain, .look] : List Stroke).map .stroke
    let m := (ofNew {} 1 ⟨"c", false, [], none, none⟩ { address := "" } 0).actAll acts
    m.quiet = true ∧ m.log.map (fun x => (x.key.2, x.time, x.retried)) =
      [(1, 0, false), (1, 20000, true)] := by decide

end Delivering

end MqttBroker
