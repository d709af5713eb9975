import MqttBroker.Proofs.Queueing

/-!
Messages stay in their namespace. Whether it is routed when it is published or replayed because it
was retained, a message gets into the queue of a session only by a filter of its own namespace that
selects its topic. A wildcard never stands for a reserved namespace, in a filter or in a grant.
-/

namespace MqttBroker

inductive Errand
  | route (event : EventId) (left : List SessionUid)
  | replay (uid : SessionUid) (left : List (String × QoS × Publish))
      (granted : List (String × QoS))

namespace Errand

def advance : Errand → Broker → Broker × Errand
  | .route event [], b => (b, .route event [])
  | .route event (uid :: rest), b => (b.push uid event, .route event rest)
  | .replay uid ((_, qos, p) :: rest) granted, b =>
    let (b, event) := b.enter { p with retain := true } 1 .silent
    (b.pushGranted uid event qos, .replay uid rest granted)
  | .replay uid [] ((filter, qos) :: rest), b =>
    (b, .replay uid ((b.retain.select filter).map fun p => (filter, qos, p)) rest)
  | .replay uid [] [], b => (b, .replay uid [] [])

def Grants : Errand → SessionUid → String → Prop
  | .route _ _, _, _ => False
  | .replay own left granted, uid, filter =>
    own = uid ∧ (filter ∈ left.map Prod.fst ∨ filter ∈ granted.map Prod.fst)

/-- What is to be replayed was selected by the filters. -/
def Sound (ns : Namespaces) : Errand → Prop
  | .route _ _ => True
  | .replay _ left _ => ∀ filter qos p, (filter, qos, p) ∈ left →
    ∃ pattern, Topic.parse filter = .ok pattern ∧ Selects ns filter pattern p.topic

end Errand

structure Traffic where
  broker : Broker
  errands : List Errand := []

namespace Traffic

inductive Move
  | claim (c : Broker.Claim) (conn : Option ConnectionId) (unique : Bool)
  | destroy (uid : SessionUid)
  | release (uid : SessionUid) (conn : ConnectionId)
  | subscribe (uid : SessionUid) (grants : Grants) (requests : List (String × QoS))
  | unsubscribe (uid : SessionUid) (filters : List String)
  | publish (p : Publish) (completion : Completion)
  | proceed (n : Nat)
  | turns (uid : SessionUid) (activities : List DurableQueue.Activity)
  | pop (uid : SessionUid)
  | acknowledge (uid : SessionUid) (offset : Nat)
  | failing (fails : Bool)
  | pass (now : Nat) (clock : Int64)

def proceed (t : Traffic) (n : Nat) : Traffic :=
  match t.errands[n]? with
  | none => t
  | some errand =>
    let (broker, errand) := errand.advance t.broker
    { broker, errands := t.errands.set n errand }

def step (t : Traffic) : Move → Traffic
  | .claim c conn unique => { t with broker := (t.broker.claim c conn unique).1 }
  | .destroy uid => { t with broker := (t.broker.destroy uid).1 }
  | .release uid conn => { t with broker := t.broker.release uid conn }
  | .subscribe uid grants requests =>
    match t.broker.requestSubscriptions uid grants requests with
    | (broker, .error _) => { t with broker }
    | (broker, .ok (_, granted)) => { broker, errands := t.errands ++ [.replay uid [] granted] }
  | .unsubscribe uid filters =>
    { t with broker := (t.broker.requestUnsubscriptions uid filters).1 }
  | .publish p completion =>
    let (broker, event, targets) := t.broker.announce p completion
    { broker, errands := t.errands ++ [.route event targets] }
  | .proceed n => t.proceed n
  | .turns uid activities => { t with broker := t.broker.turns uid activities }
  | .pop uid => { t with broker := t.broker.useQueues uid fun q =>
      { temporary := q.temporary.pop.1, durable := q.durable.pop.1 } }
  | .acknowledge uid offset => { t with broker := t.broker.useQueues uid fun q =>
      { q with durable := q.durable.acknowledge offset } }
  | .failing fails =>
    { t with broker := { t.broker with storage := t.broker.storage.setFailing fails } }
  | .pass now clock => { t with broker := { t.broker with now, clock } }

def run (t : Traffic) (moves : List Move) : Traffic := moves.foldl step t

/-! How the broker goes on errands -/

theorem run_append (t : Traffic) (moves more : List Move) :
    t.run (moves ++ more) = (t.run moves).run more :=
  List.foldl_append

theorem route_proceeds {n : Nat} {event : EventId} {targets : List SessionUid} {t : Traffic}
    (entry : t.errands[n]? = some (.route event targets)) :
    ∃ k, (Broker.route event targets t.broker).1 =
      (t.run (List.replicate k (.proceed n))).broker := by
  induction targets generalizing t with
  | nil => exact ⟨0, rfl⟩
  | cons uid rest ih =>
      have inside : n < t.errands.length := (List.getElem?_eq_some_iff.mp entry).1
      have moved : t.step (.proceed n) =
          { broker := t.broker.push uid event, errands := t.errands.set n (.route event rest) } := by
        simp only [step, proceed, entry, Errand.advance]
      unfold Broker.route
      dsimp only
      split
      · exact ⟨1, (congrArg Traffic.broker moved).symm⟩
      · have next : (t.step (.proceed n)).errands[n]? = some (.route event rest) := by
          rw [moved]
          exact List.getElem?_set_self inside
        obtain ⟨k, same⟩ := ih next
        refine ⟨k + 1, ?_⟩
        rw [moved] at same
        rw [same, List.replicate_succ]
        simp only [run, List.foldl_cons, moved]

theorem replayMessages_proceeds {n : Nat} {uid : SessionUid} {filter : String} {qos : QoS}
    {granted : List (String × QoS)} {messages : List Publish} {t : Traffic}
    (entry : t.errands[n]? =
      some (.replay uid (messages.map fun p => (filter, qos, p)) granted)) :
    ∃ k, (Broker.replayMessages uid qos granted messages t.broker).1 =
        (t.run (List.replicate k (.proceed n))).broker ∧
      ((Broker.replayMessages uid qos granted messages t.broker).2 = none →
        (t.run (List.replicate k (.proceed n))).errands[n]? = some (.replay uid [] granted)) := by
  induction messages generalizing t with
  | nil => exact ⟨0, rfl, fun _ => entry⟩
  | cons p rest ih =>
      have inside : n < t.errands.length := (List.getElem?_eq_some_iff.mp entry).1
      let entered := t.broker.enter { p with retain := true } 1 .silent
      have moved : t.step (.proceed n) =
          { broker := entered.1.pushGranted uid entered.2 qos
            errands := t.errands.set n
              (.replay uid (rest.map fun p => (filter, qos, p)) granted) } := by
        simp only [step, proceed, entry, List.map_cons, Errand.advance]
        rfl
      have next : (t.step (.proceed n)).errands[n]? =
          some (.replay uid (rest.map fun p => (filter, qos, p)) granted) := by
        rw [moved]
        exact List.getElem?_set_self inside
      obtain ⟨k, same, last⟩ := ih next
      have broker : (t.step (.proceed n)).broker = entered.1.pushGranted uid entered.2 qos :=
        congrArg Traffic.broker moved
      rw [broker] at same last
      unfold Broker.replayMessages
      dsimp only
      split
      · exact ⟨1, broker.symm, fun waits => nomatch waits⟩
      · exact ⟨k + 1, same, last⟩

theorem replay_proceeds {n : Nat} {uid : SessionUid} {granted : List (String × QoS)} {t : Traffic}
    (entry : t.errands[n]? = some (.replay uid [] granted)) :
    ∃ k, (Broker.replay uid granted t.broker).1 =
      (t.run (List.replicate k (.proceed n))).broker := by
  induction granted generalizing t with
  | nil => exact ⟨0, rfl⟩
  | cons request rest ih =>
      obtain ⟨filter, qos⟩ := request
      have inside : n < t.errands.length := (List.getElem?_eq_some_iff.mp entry).1
      let found : Errand :=
        .replay uid ((t.broker.retain.select filter).map fun p => (filter, qos, p)) rest
      have moved : t.step (.proceed n) = { t with errands := t.errands.set n found } := by
        simp only [step, proceed, entry, Errand.advance]
        rfl
      have looked : (t.step (.proceed n)).errands[n]? = some found := by
        rw [moved]
        exact List.getElem?_set_self inside
      have broker : (t.step (.proceed n)).broker = t.broker := by rw [moved]
      obtain ⟨k, same, last⟩ := replayMessages_proceeds looked
      rw [broker] at same last
      unfold Broker.replay
      generalize Broker.replayMessages uid qos rest (t.broker.retain.select filter) t.broker =
        replayed at same last
      obtain ⟨next, waits⟩ := replayed
      cases waits with
      | some _ => exact ⟨k + 1, same⟩
      | none =>
          obtain ⟨more, after⟩ := ih (last rfl)
          refine ⟨k + 1 + more, ?_⟩
          rw [List.replicate_add, run_append]
          rw [← same] at after
          exact after

/-! What a run preserves -/

/-- The session has a filter of the message's namespace that selects its topic, or is being granted
one. -/
def Admits (t : Traffic) (uid : SessionUid) (p : Publish) : Prop :=
  ∃ filter pattern, Topic.parse filter = .ok pattern ∧
    Selects t.broker.namespaces filter pattern p.topic ∧
    ((∃ s, t.broker.session? uid = some s ∧ s.holds filter = true) ∨
      ∃ errand ∈ t.errands, errand.Grants uid filter)

structure Isolated (ns : Namespaces) (t : Traffic) : Prop where
  indexed : t.broker.Indexed
  namespaces : t.broker.namespaces = ns
  errands : ∀ errand ∈ t.errands, errand.Sound ns

/-- At most one message has been put into the queues of a session, and that was admitted. -/
def Admitted (t t' : Traffic) : Prop :=
  ∀ uid, (t'.broker.queuedFor uid).Sublist (t.broker.queuedFor uid) ∨
    ∃ p, Adds (t.broker.queuedFor uid) p (t'.broker.queuedFor uid) ∧ t.Admits uid p

variable {ns : Namespaces} {t : Traffic}

theorem Isolated.calm (isolated : t.Isolated ns) {broker : Broker}
    (calm : Broker.Calm t.broker broker) {errands : List Errand}
    (sound : ∀ errand ∈ errands, errand.Sound ns) :
    Isolated ns { broker, errands } ∧ t.Admitted { broker, errands } :=
  ⟨⟨calm.indexed, calm.namespaces.trans isolated.namespaces, sound⟩,
    fun uid => Or.inl (calm.queued uid)⟩

theorem Isolated.more (isolated : t.Isolated ns) {errand : Errand} (sound : errand.Sound ns) :
    ∀ other ∈ t.errands ++ [errand], other.Sound ns := by
  intro other member
  rcases List.mem_append.mp member with old | new
  · exact isolated.errands other old
  · rw [List.mem_singleton.mp new]
    exact sound

/-- An errand goes on soundly, and puts in a queue at most what is admitted. -/
theorem Isolated.advance (isolated : t.Isolated ns) {errand : Errand} (member : errand ∈ t.errands) :
    (errand.advance t.broker).1.Indexed ∧ (errand.advance t.broker).1.namespaces = ns ∧
      (errand.advance t.broker).2.Sound ns ∧
      ∀ w, ((errand.advance t.broker).1.queuedFor w).Sublist (t.broker.queuedFor w) ∨
        ∃ p, Adds (t.broker.queuedFor w) p ((errand.advance t.broker).1.queuedFor w) ∧
          t.Admits w p := by
  obtain ⟨indexed, namespaces, errands⟩ := isolated
  have sound := errands errand member
  cases errand with
  | route event left =>
      cases left with
      | nil => exact ⟨indexed, namespaces, trivial, fun _ => Or.inl (List.Sublist.refl _)⟩
      | cons uid rest =>
          have hands := indexed.hands_push uid event
          refine ⟨hands.indexed, hands.namespaces.trans namespaces, trivial, fun w => ?_⟩
          rcases indexed.push_granted uid event with
            same | ⟨s, e, filter, pattern, present, entered, held, parsed, selects⟩
          · left
            simp only [Errand.advance, Broker.queuedFor, Broker.session?, same]
            exact List.Sublist.refl _
          · rcases hands.queued w with fewer | ⟨rfl, other, again, adds⟩
            · exact Or.inl fewer
            · rw [entered] at again
              cases again
              exact Or.inr ⟨e.message, adds, filter, pattern, parsed, selects,
                Or.inl ⟨s, present, held⟩⟩
  | replay uid left granted =>
      cases left with
      | nil =>
          cases granted with
          | nil => exact ⟨indexed, namespaces, sound, fun _ => Or.inl (List.Sublist.refl _)⟩
          | cons request rest =>
              obtain ⟨filter, qos⟩ := request
              refine ⟨indexed, namespaces, ?_, fun _ => Or.inl (List.Sublist.refl _)⟩
              intro f q p chosen
              obtain ⟨_, selected, same⟩ := List.mem_map.mp chosen
              cases same
              rw [← namespaces, ← indexed.namespaces]
              exact RetainStore.selects_of_mem_select indexed.retained selected
      | cons next rest =>
          obtain ⟨filter, qos, p⟩ := next
          have calm := indexed.calm_enter { p with retain := true } 1 .silent
          have hands := calm.indexed.hands_pushGranted uid
            (t.broker.enter { p with retain := true } 1 .silent).2 qos
          refine ⟨hands.indexed, (hands.namespaces.trans calm.namespaces).trans namespaces,
            fun f q x chosen => sound f q x (List.mem_cons_of_mem _ chosen), fun w => ?_⟩
          rcases hands.queued w with fewer | ⟨rfl, e, entered, adds⟩
          · exact Or.inl (fewer.trans (calm.queued w))
          · obtain ⟨pattern, parsed, selects⟩ := sound filter qos p (List.mem_cons_self ..)
            rw [← namespaces] at selects
            rw [Broker.enter_event?] at entered
            cases entered
            exact Or.inr ⟨{ p with retain := true }, adds.mono (calm.queued w), filter, pattern,
              parsed, selects, Or.inr ⟨_, member, rfl, Or.inl (List.mem_cons_self ..)⟩⟩

theorem Isolated.step (isolated : t.Isolated ns) (m : Move) :
    (t.step m).Isolated ns ∧ t.Admitted (t.step m) := by
  have indexed := isolated.indexed
  have aside : ∀ broker, broker.sessions = t.broker.sessions →
      broker.namespaces = t.broker.namespaces → broker.retain = t.broker.retain →
      broker.storage.entries = t.broker.storage.entries → Broker.Calm t.broker broker := by
    intro broker sessions namespaces retain entries
    exact indexed.calm_beside sessions namespaces retain (entries ▸ indexed.recorded)
  cases m with
  | claim c conn unique =>
      exact isolated.calm (indexed.calm_claim c conn unique) isolated.errands
  | destroy uid => exact isolated.calm (indexed.calm_destroy uid) isolated.errands
  | release uid conn => exact isolated.calm (indexed.calm_release uid conn) isolated.errands
  | subscribe uid grants requests =>
      have calm := indexed.calm_requestSubscriptions uid grants requests
      simp only [Traffic.step]
      split
      · rename_i same
        rw [same] at calm
        exact isolated.calm calm isolated.errands
      · rename_i same
        rw [same] at calm
        exact isolated.calm calm (isolated.more fun _ _ _ none => nomatch none)
  | unsubscribe uid filters =>
      exact isolated.calm (indexed.calm_requestUnsubscriptions uid filters) isolated.errands
  | publish p completion =>
      exact isolated.calm (indexed.calm_announce p completion) (isolated.more trivial)
  | proceed n =>
      simp only [Traffic.step, proceed]
      split
      · exact isolated.calm indexed.calm_refl isolated.errands
      · rename_i errand entry
        obtain ⟨after, namespaces, sound, admitted⟩ :=
          isolated.advance (List.mem_of_getElem? entry)
        refine ⟨⟨after, namespaces, fun other member => ?_⟩, admitted⟩
        rcases List.mem_or_eq_of_mem_set member with old | rfl
        · exact isolated.errands other old
        · exact sound
  | turns uid activities => exact isolated.calm (indexed.calm_turns uid activities) isolated.errands
  | pop uid =>
      refine isolated.calm (indexed.calm_useQueues uid fun q => ⟨?_, ?_⟩) isolated.errands
      · unfold TemporaryQueue.pop
        split
        · exact List.Sublist.refl _
        · rename_i first rest waiting
          rw [waiting]
          exact List.sublist_cons_self ..
      · exact q.durable.pop_drained.unstored
  | acknowledge uid offset =>
      refine isolated.calm (indexed.calm_useQueues uid fun q => ⟨?_, ?_⟩) isolated.errands
      · exact List.Sublist.refl _
      · exact (q.durable.acknowledge_drained offset).unstored
  | failing fails =>
      have calm : Broker.Calm t.broker (t.step (.failing fails)).broker :=
        aside _ rfl rfl rfl rfl
      exact isolated.calm calm isolated.errands
  | pass now clock =>
      have calm : Broker.Calm t.broker (t.step (.pass now clock)).broker := aside _ rfl rfl rfl rfl
      exact isolated.calm calm isolated.errands

theorem Isolated.run (isolated : t.Isolated ns) (moves : List Move) : (t.run moves).Isolated ns := by
  induction moves generalizing t with
  | nil => exact isolated
  | cons m rest ih => exact ih (isolated.step m).1

theorem Isolated.started {settings : Settings} {storage : Storage.Memory} {now : Nat}
    {clock : Int64} {broker : Broker} (recorded : RetainStore.Recorded storage.entries)
    (begun : Broker.start settings storage now clock = .ok broker) :
    Isolated (.ofList settings.mqtt.systemTopicPrefixes) { broker } := by
  obtain ⟨indexed, namespaces⟩ := Broker.start_indexed recorded begun
  exact ⟨indexed, namespaces, fun _ none => nomatch none⟩

theorem Isolated.push_unadmitted (isolated : t.Isolated ns) {uid : SessionUid} {event : EventId}
    {e : Event} (entered : t.broker.events.event? event = some e)
    (unadmitted : ¬t.Admits uid e.message) :
    (t.broker.push uid event).sessions = t.broker.sessions := by
  rcases isolated.indexed.push_granted uid event with
    same | ⟨s, _, filter, pattern, present, again, held, parsed, selects⟩
  · exact same
  · rw [entered] at again
    cases again
    exact absurd ⟨filter, pattern, parsed, selects, Or.inl ⟨s, present, held⟩⟩ unadmitted

end Traffic

theorem Selects.names {ns : Namespaces} {filter topic space : String} {pattern : Topic}
    (selects : Selects ns filter pattern topic) (reserved : ns.of topic = some space) :
    (Text.splitOnce '/' filter).1 = space :=
  (Namespaces.split_eq_some (selects.1.trans reserved)).1

theorem Grants.authorizes_reserved {g : Grants} {action : Action} {text space : String}
    (limited : g.superuser = false) (reserved : g.namespaces.of text = some space)
    (authorized : g.authorizes action text = true) :
    ∃ level rest, ⟨level :: rest⟩ ∈ g.patternsFor action ∧ level.text? = some space := by
  simp only [authorizes, limited, Bool.false_or] at authorized
  split at authorized
  · cases authorized
  · obtain ⟨⟨levels⟩, member, covers⟩ := List.any_eq_true.mp authorized
    simp only [reserved, Option.all_some, Bool.and_eq_true, names, decide_eq_true_eq] at covers
    cases levels with
    | nil => cases covers.1
    | cons level rest => exact ⟨level, rest, member, covers.1⟩

namespace Traffic

/-- Whatever is subscribed to, unsubscribed from, published and replayed: a message is put into the
queue of a session only if the session has, or is being granted, a filter of the message's namespace
that selects its topic, and a message that is routed to any other session changes nothing. A filter
that selects topics of a reserved namespace names it literally, and so does a pattern that grants
any of them to one who is no superuser. The storage that is left can be started over again. -/
theorem namespaces_isolated {settings : Settings} {storage : Storage.Memory} {now : Nat}
    {clock : Int64} {broker : Broker} (recorded : RetainStore.Recorded storage.entries)
    (begun : Broker.start settings storage now clock = .ok broker) (moves : List Move) :
    let t := run { broker } moves
    t.broker.namespaces = .ofList settings.mqtt.systemTopicPrefixes ∧
      RetainStore.Recorded t.broker.storage.entries ∧
      (∀ m uid, ((t.step m).broker.queuedFor uid).Sublist (t.broker.queuedFor uid) ∨
        ∃ p, Adds (t.broker.queuedFor uid) p ((t.step m).broker.queuedFor uid) ∧
          t.Admits uid p) ∧
      (∀ uid event e, t.broker.events.event? event = some e → ¬t.Admits uid e.message →
        (t.broker.push uid event).sessions = t.broker.sessions) ∧
      (∀ filter pattern topic space, Selects t.broker.namespaces filter pattern topic →
        t.broker.namespaces.of topic = some space → (Text.splitOnce '/' filter).1 = space) ∧
      ∀ (g : Grants) action text space, g.superuser = false → g.namespaces.of text = some space →
        g.authorizes action text = true →
          ∃ level rest, ⟨level :: rest⟩ ∈ g.patternsFor action ∧ level.text? = some space := by
  intro t
  have isolated : t.Isolated (.ofList settings.mqtt.systemTopicPrefixes) :=
    (Isolated.started recorded begun).run moves
  refine ⟨isolated.namespaces, isolated.indexed.recorded, fun m => (isolated.step m).2, ?_, ?_, ?_⟩
  · intro uid event e entered unadmitted
    exact isolated.push_unadmitted entered unadmitted
  · intro filter pattern topic space selects reserved
    exact selects.names reserved
  · intro g action text space limited reserved authorized
    exact Grants.authorizes_reserved limited reserved authorized

def plainReserved : Settings := { mqtt := { systemTopicPrefixes := ["sys"] } }

def everyTopic : Grants where
  superuser := true
  publish := []
  subscribe := []
  namespaces := .ofList ["sys"]

def wildcardsBeside : List Move :=
  [.claim { id := "a", clean := true } none true, .claim { id := "b", clean := true } none true,
    .subscribe 1 everyTopic [("#", .atMostOnce), ("+/x", .atMostOnce)],
    .subscribe 2 everyTopic [("sys/#", .atMostOnce)],
    .publish { topic := "sys/x", qos := .atMostOnce, payload := [1], retain := true } .silent,
    .proceed 2, .subscribe 1 everyTopic [("#", .atMostOnce), ("+/x", .atMostOnce)],
    .proceed 3, .proceed 3]

theorem wildcardsBeside_isolated :
    let t := run { broker := .new plainReserved {} 0 0 } wildcardsBeside
    t.broker.namespaces = .ofList ["sys"] ∧ t.broker.queuedFor 1 = [] ∧
      (t.broker.queuedFor 2).map Publish.topic = ["sys/x"] ∧
      ∀ m uid, ((t.step m).broker.queuedFor uid).Sublist (t.broker.queuedFor uid) ∨
        ∃ p, Adds (t.broker.queuedFor uid) p ((t.step m).broker.queuedFor uid) ∧
          t.Admits uid p := by
  have recorded : RetainStore.Recorded ({} : Storage.Memory).entries := by
    intro key data member
    cases member
  have begun : Broker.start plainReserved {} 0 0 = .ok (.new plainReserved {} 0 0) := rfl
  obtain ⟨namespaces, _, admitted, _⟩ := namespaces_isolated recorded begun wildcardsBeside
  exact ⟨namespaces, by decide, by decide, admitted⟩

end Traffic

end MqttBroker
