import MqttBroker.Proofs.Coherence
import MqttBroker.Proofs.Overrunning

/-!
Which queue of a session is handed a message. The subscriptions that select the topic in its
namespace decide it by the highest quality of service among them: the durable queue is handed the
message if both this and the message's own are at least one, the temporary queue if not, and no
queue if there is no such subscription.
-/

namespace MqttBroker

namespace QoS

theorem value_higher (a b : QoS) : (a.higher b).value = max a.value b.value := by
  cases a <;> cases b <;> rfl

theorem higher_eq (a b : QoS) : a.higher b = a ∨ a.higher b = b := by
  unfold higher
  split
  · exact Or.inr rfl
  · exact Or.inl rfl

theorem lower_eq_atMostOnce_iff (a b : QoS) :
    a.lower b = .atMostOnce ↔ ¬(1 ≤ a.value ∧ 1 ≤ b.value) := by
  cases a <;> cases b <;> decide

def pick (best : Option QoS) (q : QoS) : Option QoS :=
  some (match best with
    | none => q
    | some p => p.higher q)

theorem foldl_pick (values : List QoS) (best : QoS) :
    ∃ highest, values.foldl pick (some best) = some highest ∧
      (highest = best ∨ highest ∈ values) ∧ best.value ≤ highest.value ∧
      ∀ q ∈ values, q.value ≤ highest.value := by
  induction values generalizing best with
  | nil => exact ⟨best, rfl, Or.inl rfl, Nat.le_refl _, fun _ member => nomatch member⟩
  | cons first rest ih =>
      obtain ⟨highest, folded, attained, above, bound⟩ := ih (best.higher first)
      have larger := value_higher best first
      refine ⟨highest, folded, ?_, by omega, fun q member => ?_⟩
      · rcases attained with same | later
        · rcases higher_eq best first with old | new
          · exact Or.inl (same.trans old)
          · exact Or.inr (List.mem_cons.mpr (Or.inl (same.trans new)))
        · exact Or.inr (List.mem_cons_of_mem _ later)
      · rcases List.mem_cons.mp member with rfl | later
        · omega
        · exact bound q later

end QoS

namespace Session

variable {s : Session} {ns : Namespaces} {topic : String} {qos : QoS}

def Selected (s : Session) (ns : Namespaces) (topic : String) (qos : QoS) : Prop :=
  ∃ filter pattern, s.info.subscriptions.get? filter = some qos ∧
    Topic.parse filter = .ok pattern ∧ Selects ns filter pattern topic

def Highest (s : Session) (ns : Namespaces) (topic : String) (qos : QoS) : Prop :=
  s.Selected ns topic qos ∧ ∀ other, s.Selected ns topic other → other.value ≤ qos.value

def offers (s : Session) (ns : Namespaces) (topic : String) : List QoS :=
  ((s.matcher.find topic).filter fun f => ns.of f = ns.of topic).filterMap
    s.info.subscriptions.get?

theorem Coherent.mem_offers (coherent : s.Coherent) :
    qos ∈ s.offers ns topic ↔ s.Selected ns topic qos := by
  simp only [offers, List.mem_filterMap, List.mem_filter, decide_eq_true_eq,
    coherent.mem_find_iff]
  constructor
  · rintro ⟨filter, ⟨⟨_, pattern, parsed, selects⟩, same⟩, granted⟩
    exact ⟨filter, pattern, granted, parsed, same, selects⟩
  · rintro ⟨filter, pattern, granted, parsed, same, selects⟩
    have held : s.holds filter = true := by rw [holds, Table.contains, granted]; rfl
    exact ⟨filter, ⟨⟨held, pattern, parsed, selects⟩, same⟩, granted⟩

/-- Either no subscription selects the topic, or the highest quality of service is granted. -/
theorem Coherent.granted_cases (coherent : s.Coherent) (ns : Namespaces) (topic : String) :
    ((∀ qos, ¬s.Selected ns topic qos) ∧ s.granted ns topic = none) ∨
      ∃ highest, s.Highest ns topic highest ∧ s.granted ns topic = some highest := by
  -- What is granted is picked from the offers, and these are what selects the topic.
  have folded : s.granted ns topic = (s.offers ns topic).foldl QoS.pick none := rfl
  have offered : ∀ q, q ∈ s.offers ns topic ↔ s.Selected ns topic q := fun _ => coherent.mem_offers
  rw [folded]
  generalize s.offers ns topic = values at offered
  cases values with
  | nil => exact Or.inl ⟨fun q selected => (List.not_mem_nil ((offered q).mpr selected)).elim, rfl⟩
  | cons first rest =>
      obtain ⟨highest, picked, attained, above, bound⟩ := QoS.foldl_pick rest first
      refine Or.inr ⟨highest, ⟨(offered highest).mp (List.mem_cons.mpr attained), ?_⟩, picked⟩
      intro other selected
      rcases List.mem_cons.mp ((offered other).mpr selected) with rfl | later
      · exact above
      · exact bound other later

end Session

namespace Broker

variable {b : Broker} {s : Session} {q : SessionQueues} {event : EventId} {e : Event} {qos : QoS}

/-- The durable queue of a session has been handed the message of an event. One that is closed
turns it away. -/
def handDurable (b : Broker) (s : Session) (q : SessionQueues) (event : EventId) (p : Publish) :
    Broker :=
  if q.durable.queue.closed then b.done event
  else b.putSession { s with queues := some { q with durable := { q.durable with
    queue := { q.durable.queue with inbox := q.durable.queue.inbox ++ [(event, p)] } } } }

def handTemporary (b : Broker) (s : Session) (q : SessionQueues) (event : EventId) (p : Publish) :
    Broker :=
  (({ b with stats := { b.stats with qos0Dropped :=
      if (q.temporary.push p).2 = .overran then b.stats.qos0Dropped.increment
      else b.stats.qos0Dropped } } : Broker).putSession
    { s with queues := some { q with temporary := (q.temporary.push p).1 } }).done event

theorem pushGranted_eq (present : b.session? s.uid = some s) (queued : s.queues = some q)
    (entered : b.events.event? event = some e) (qos : QoS) :
    b.pushGranted s.uid event qos = if 1 ≤ e.message.qos.value ∧ 1 ≤ qos.value
      then b.handDurable s q event e.message else b.handTemporary s q event e.message := by
  simp only [pushGranted, present, entered, queued]
  cases low : e.message.qos.lower qos with
  | atMostOnce =>
      rw [if_neg ((QoS.lower_eq_atMostOnce_iff _ _).mp low)]
      rfl
  | _ =>
      have high : 1 ≤ e.message.qos.value ∧ 1 ≤ qos.value := by
        by_contra other
        rw [← QoS.lower_eq_atMostOnce_iff, low] at other
        cases other
      rw [if_pos high, handDurable]
      simp only [StoredQueue.push, DurableQueue.push]
      cases q.durable.queue.closed <;> rfl

/-! What is changed -/

theorem done_frame (b : Broker) (event : EventId) :
    (b.done event).sessions = b.sessions ∧ (b.done event).stats = b.stats ∧
      (b.done event).events = (b.events.done event).1 := by
  obtain ⟨_, _, frame⟩ := b.doneAll_frame [event]
  rw [done, frame]
  exact ⟨rfl, rfl, rfl⟩

theorem session?_done (b : Broker) (event : EventId) (uid : SessionUid) :
    (b.done event).session? uid = b.session? uid := by
  rw [session?, (b.done_frame event).1, session?]

theorem handDurable_other {p : Publish} {w : SessionUid} (other : w ≠ s.uid) :
    (b.handDurable s q event p).session? w = b.session? w := by
  unfold handDurable
  split
  · exact session?_done ..
  · exact session?_putSession_other other

theorem handTemporary_other {p : Publish} {w : SessionUid} (other : w ≠ s.uid) :
    (b.handTemporary s q event p).session? w = b.session? w := by
  unfold handTemporary
  rw [session?_done]
  exact session?_putSession_other other

theorem handTemporary_course (b : Broker) (s : Session) (q : SessionQueues)
    (entered : b.events.event? event = some e) :
    let c : TemporaryQueue.Course Completion :=
      { queue := q.temporary, gauge := b.stats.qos0Dropped, events := b.events }
    let handed := b.handTemporary s q event e.message
    handed.session? s.uid =
        some { s with queues := some { q with temporary := (c.step (.push event)).1.queue } } ∧
      handed.stats.qos0Dropped = (c.step (.push event)).1.gauge ∧
      handed.events = (c.step (.push event)).1.events := by
  intro c handed
  rw [c.step_push entered]
  refine ⟨?_, ?_, ?_⟩
  · simp only [handed, handTemporary, session?_done, session?_putSession, if_true]
    rfl
  · exact congrArg Stats.qos0Dropped (done_frame _ event).2.1
  · exact (done_frame _ event).2.2

/-- An event that is pushed to an open session is done with at once if no subscription selects its
topic. If there are any, one of its queues is handed the message, once, and the highest quality of
service of them tells which. The session may be that of any broker, in the midst of any move. -/
theorem pushed_by_rule {settings : Settings} {storage : Storage.Memory} {now : Nat} {clock : Int64}
    {first : Broker} {uid : SessionUid} (started : start settings storage now clock = .ok first)
    (moves : List Move) (reached : Deeds (moves.foldl moved first) b)
    (present : b.session? uid = some s) (opened : s.closed = false)
    (entered : b.events.event? event = some e) :
    (∀ w, w ≠ uid → (b.push uid event).session? w = b.session? w) ∧
      ((∀ qos, ¬s.Selected b.namespaces e.message.topic qos) ∧
          b.push uid event = b.done event ∧ (b.push uid event).sessions = b.sessions ∨
        ∃ highest q, s.Highest b.namespaces e.message.topic highest ∧ s.queues = some q ∧
          b.push uid event = if 1 ≤ e.message.qos.value ∧ 1 ≤ highest.value
            then b.handDurable s q event e.message else b.handTemporary s q event e.message) := by
  obtain ⟨rfl, proper⟩ :=
    reached.coherent ((start_coherent started).run moves) uid s present
  rcases proper.granted_cases b.namespaces e.message.topic with
    ⟨unselected, none⟩ | ⟨highest, best, granted⟩
  · have same : b.push s.uid event = b.done event := by
      simp only [push, present, entered, none]
    have kept : (b.push s.uid event).sessions = b.sessions := same ▸ (b.done_frame event).1
    refine ⟨fun w _ => ?_, Or.inl ⟨unselected, same, kept⟩⟩
    rw [same, session?_done]
  · obtain ⟨filter, _, held, _⟩ := best.1
    have holds : s.holds filter = true := by
      rw [Session.holds, Table.contains, held]
      rfl
    obtain ⟨q, queued⟩ := Option.isSome_iff_exists.mp
      ((proper.supplied opened).trans (Session.isSubscribed_of_holds holds))
    have granting : b.push s.uid event = b.pushGranted s.uid event highest := by
      simp only [push, present, entered, granted]
    have handed := granting.trans (pushGranted_eq present queued entered highest)
    refine ⟨fun w other => ?_, Or.inr ⟨highest, q, best, queued, handed⟩⟩
    rw [handed]
    split
    · exact handDurable_other other
    · exact handTemporary_other other

/-! Two subscriptions that select one topic, the lower one first -/

def twoOfNews : List Move :=
  [.attach "client" { id := "c", clean := false } true true, .subscribe 1 "news/+" .atMostOnce,
    .subscribe 1 "news/#" .atLeastOnce, .subscribe 1 "$SYS/#" .exactlyOnce]

def todaysNews : Publish := { qos := .exactlyOnce, topic := "news/today", payload := [1] }

def newsEntered : Broker :=
  ((twoOfNews.foldl moved (.new {} {} 0 0)).enter todaysNews 1 .silent).1

theorem newsEntered_handed : start {} {} 0 0 = .ok (.new {} {} 0 0) ∧
    Deeds (twoOfNews.foldl moved (.new {} {} 0 0)) newsEntered ∧
    ∃ s q, newsEntered.session? 1 = some s ∧ s.closed = false ∧
      newsEntered.events.event? 0 = some (.new todaysNews 1) ∧ s.queues = some q ∧
      newsEntered.push 1 0 = newsEntered.handDurable s q 0 todaysNews := by
  have begun : start {} {} 0 0 = .ok (.new {} {} 0 0) := rfl
  have reached : Deeds (twoOfNews.foldl moved (.new {} {} 0 0)) newsEntered :=
    .aside (enter_counted ..)
  have entered : newsEntered.events.event? 0 = some (.new todaysNews 1) := enter_event? ..
  have shown : ((newsEntered.session? 1).map fun s =>
      (s.closed, s.info.subscriptions.get? "news/#")) = some (false, some .atLeastOnce) := by decide
  obtain ⟨s, present, facts⟩ := Option.map_eq_some_iff.mp shown
  obtain ⟨opened, held⟩ := Prod.mk.inj facts
  have selected : s.Selected newsEntered.namespaces "news/today" .atLeastOnce :=
    ⟨"news/#", ⟨[.normal "news", .multi]⟩, held, by decide, by decide, by decide⟩
  obtain ⟨_, ⟨unselected, _⟩ | ⟨highest, q, best, queued, handed⟩⟩ :=
    pushed_by_rule begun twoOfNews reached present opened entered
  · exact absurd selected (unselected _)
  · have least : 1 ≤ highest.value := best.2 _ selected
    refine ⟨begun, reached, s, q, present, opened, entered, queued, ?_⟩
    exact handed.trans (if_pos ⟨by decide, least⟩)

end Broker

end MqttBroker
