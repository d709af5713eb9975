import MqttBroker.Broker.Registry
import MqttBroker.Proofs.Exchange
import MqttBroker.Proofs.Subscriptions

/-!
Three ways of selecting a topic compared: the levels of a filter, the tree in which the exchange
binds the filter without its namespace, and the retained messages. They agree, but for names that
begin like one of the broker's own behind a reserved namespace: the exchange hides these from a
wildcard that comes next.
-/

namespace MqttBroker

namespace Topic

theorem validate_ok {text : String} {wildcards : Bool} {most : Nat} {topic : Topic}
    (accepted : validate text wildcards most = .ok topic) :
    parse text = .ok topic ∧ (wildcards = false → topic.hasWildcard = false) := by
  simp only [validate, bind_eq_ok, guard_eq_ok] at accepted
  obtain ⟨-, -, -, -, _, parsed, allowed, same⟩ := accepted
  cases same
  exact ⟨parsed, fun refused => by simpa [refused] using allowed⟩

theorem parse_eq {text : String} {levels : List Level}
    (read : parseLevels true (Text.splitAll '/' text) = .ok levels)
    (last : levels.dropLast.contains .multi = false) : parse text = .ok ⟨levels⟩ := by
  simp only [parse, bind_eq_ok, guard_eq_ok]
  exact ⟨levels, read, by simpa using last, rfl⟩

/-- A level that is read as the first of its topic selects what it selects further down, but if it
is a wildcard it does not select hidden names. -/
theorem parse_first {text : String} {level : Level} (parsed : Level.parse false text = .ok level) :
    ∃ first, Level.parse true text = .ok first ∧ (first = .multi ↔ level = .multi) ∧
      ∀ levels segments, matchesFrom true (first :: levels) segments =
        (matchesFrom false (level :: levels) segments &&
          !(decide (text = "+" ∨ text = "#") && segments.head?.any Level.hidden)) := by
  unfold Level.parse at parsed ⊢
  split at parsed
  · rename_i single
    cases parsed
    refine ⟨.single, if_pos single, by simp, ?_⟩
    intro levels segments
    cases segments <;> simp [matchesFrom, single, Bool.and_comm]
  · rename_i single
    split at parsed
    · rename_i multi
      cases parsed
      refine ⟨.multi, by simp [multi], by simp, ?_⟩
      intro levels segments
      cases segments <;> simp [matchesFrom, multi]
    · rename_i multi
      split at parsed
      · rename_i blank
        cases parsed
        refine ⟨.blank, by simp [blank], by simp, ?_⟩
        intro levels segments
        cases segments <;> simp [matchesFrom, blank]
      · rename_i blank
        split at parsed
        · cases parsed
        · rename_i plain
          simp only [Bool.false_and, Bool.false_eq_true, if_false] at parsed
          cases parsed
          refine ⟨if Level.hidden text then .metadata text else .normal text, ?_, ?_, ?_⟩
          · simp only [if_neg single, if_neg multi, if_neg blank, if_neg plain, Bool.true_and]
            split <;> rfl
          · split <;> simp
          · intro levels segments
            cases segments <;> split <;> simp [matchesFrom, single, multi]

theorem dropLast_of_fits {level : Level} {levels : List Level}
    (alone : level = .multi → levels = []) (fits : Fits false levels) :
    (level :: levels).dropLast.contains .multi = false := by
  induction levels generalizing level with
  | nil => rfl
  | cons next rest ih =>
      have other : level ≠ .multi := fun multi => by cases alone multi
      rw [List.dropLast_cons_cons, List.contains_cons, ih fits.2.1 fits.2.2]
      simp [other.symm]

theorem parse_split {text : String} {topic : Topic} (parsed : parse text = .ok topic) :
    ∃ level levels, topic.levels = level :: levels ∧
      Level.parse true (Text.splitOnce '/' text).1 = .ok level ∧
      parseLevels false (((Text.splitOnce '/' text).2.map (Text.splitAll '/')).getD []) =
        .ok levels ∧ Fits true (level :: levels) := by
  obtain ⟨levels, fits⟩ := parse_fits parsed
  rw [Text.splitAll_splitOnce] at levels
  obtain ⟨level, more, read, others, split⟩ := parseLevels_cons levels
  rw [split] at fits
  exact ⟨level, more, split, read, others, fits⟩

theorem parse_rest {rest : String} {levels : List Level}
    (read : parseLevels false (Text.splitAll '/' rest) = .ok levels) (fits : Fits false levels) :
    ∃ pattern, parse rest = .ok pattern ∧ ∀ name, pattern.matchesName name =
      (matchesFrom false levels (Text.splitAll '/' name) &&
        !(decide ((Text.splitOnce '/' rest).1 = "+" ∨ (Text.splitOnce '/' rest).1 = "#") &&
          Level.hidden (Text.splitOnce '/' name).1)) := by
  have cut := Text.splitAll_splitOnce '/' rest
  rw [cut] at read
  obtain ⟨head, more, first, others, rfl⟩ := parseLevels_cons read
  obtain ⟨top, parsed, multi, selects⟩ := parse_first first
  have whole : parseLevels true (Text.splitAll '/' rest) = .ok (top :: more) := by
    rw [cut, parseLevels, parsed, others]
    rfl
  refine ⟨⟨top :: more⟩, parse_eq whole (dropLast_of_fits (fits.2.1 ∘ multi.mp) fits.2.2),
    fun name => ?_⟩
  unfold matchesName
  rw [selects, Text.splitAll_splitOnce '/' name]
  rfl

end Topic

namespace Namespaces

theorem split_eq (ns : Namespaces) (topic : String) : ns.split topic =
    if (Text.splitOnce '/' topic).1 ∈ ns.reserved then
      (some (Text.splitOnce '/' topic).1, (Text.splitOnce '/' topic).2.getD "")
    else (none, topic) := by
  simp [split]

theorem split_eq_none {ns : Namespaces} {topic : String} (common : ns.of topic = none) :
    ns.split topic = (none, topic) := by
  unfold of at common
  rw [split_eq] at common ⊢
  split at common
  · cases common
  · rename_i outside
    exact if_neg outside

theorem split_eq_some {ns : Namespaces} {topic space : String}
    (reserved : ns.of topic = some space) :
    (Text.splitOnce '/' topic).1 = space ∧
      ns.split topic = (some space, (Text.splitOnce '/' topic).2.getD "") := by
  unfold of at reserved
  rw [split_eq] at reserved ⊢
  split at reserved
  · rename_i member
    cases reserved
    exact ⟨rfl, if_pos member⟩
  · cases reserved

theorem mem_reserved {ns : Namespaces} {topic space : String}
    (reserved : ns.of topic = some space) : space ∈ ns.reserved := by
  unfold of at reserved
  rw [split_eq] at reserved
  split at reserved
  · rename_i member
    cases reserved
    exact member
  · cases reserved

end Namespaces

def Selects (ns : Namespaces) (filter : String) (pattern : Topic) (topic : String) : Prop :=
  ns.of filter = ns.of topic ∧ pattern.matchesName topic = true

/-- Names that begin like one of the broker's own behind a reserved namespace are hidden from a
wildcard that comes next. -/
def Hides (ns : Namespaces) (filter topic : String) : Prop :=
  (ns.of topic).isSome = true ∧ Level.hidden (Text.splitOnce '/' (ns.split topic).2).1 = true ∧
    ((Text.splitOnce '/' (ns.split filter).2).1 = "+" ∨
      (Text.splitOnce '/' (ns.split filter).2).1 = "#")

theorem Topic.matchesFrom_blank {rest : String} {levels : List Level}
    (read : parseLevels false (Text.splitAll '/' rest) = .ok levels)
    (selects : matchesFrom false levels [] = true) :
    matchesFrom false levels (Text.splitAll '/' "") = true := by
  rw [Text.splitAll_splitOnce] at read
  obtain ⟨level, more, _, _, rfl⟩ := parseLevels_cons read
  cases level with
  | multi => rfl
  | _ => cases selects

namespace Exchange

theorem routes_common {ns : Namespaces} {filter topic : String} {pattern : Topic}
    (parsed : Topic.parse filter = .ok pattern) (common : ns.of topic = none)
    (selects : Selects ns filter pattern topic) :
    Routes ns filter topic ∧ ¬Hides ns filter topic := by
  have same := selects.1.trans common
  refine ⟨⟨selects.1, pattern, ?_⟩, by simp [Hides, common]⟩
  rw [Namespaces.split_eq_none same, Namespaces.split_eq_none common]
  exact ⟨parsed, selects.2⟩

theorem selects_rest {ns : Namespaces} {filter topic space : String} {pattern name : Topic}
    (parsed : Topic.parse filter = .ok pattern) (named : Topic.parse topic = .ok name)
    (plain : name.hasWildcard = false) (reserved : ns.of topic = some space)
    (selects : Selects ns filter pattern topic) :
    ∃ levels, Topic.Fits false levels ∧
      Topic.parseLevels false
        (((Text.splitOnce '/' filter).2.map (Text.splitAll '/')).getD []) = .ok levels ∧
      Topic.matchesFrom false levels
        (((Text.splitOnce '/' topic).2.map (Text.splitAll '/')).getD []) = true := by
  have head := (Namespaces.split_eq_some (selects.1.trans reserved)).1
  have first := (Namespaces.split_eq_some reserved).1
  obtain ⟨level, levels, split, read, others, fits⟩ := Topic.parse_split parsed
  obtain ⟨_, _, nameSplit, again, _⟩ := Topic.parse_split named
  rw [first, ← head, read] at again
  cases again
  have one : level ≠ .multi := by
    intro multi
    simp [Topic.hasWildcard, nameSplit, multi, Level.isWildcard] at plain
  refine ⟨levels, fits.2.2, others, ?_⟩
  have matching := selects.2
  unfold Topic.matchesName at matching
  rw [split, Text.splitAll_splitOnce, Topic.matchesFrom_cons fits.1 one,
    Bool.and_eq_true] at matching
  exact matching.2

theorem routes_reserved {ns : Namespaces} {filter topic space : String} {pattern name : Topic}
    (parsed : Topic.parse filter = .ok pattern) (named : Topic.parse topic = .ok name)
    (plain : name.hasWildcard = false) (reserved : ns.of topic = some space)
    (selects : Selects ns filter pattern topic) :
    Routes ns filter topic ↔ ¬Hides ns filter topic := by
  have rest := (Namespaces.split_eq_some (selects.1.trans reserved)).2
  have behind := (Namespaces.split_eq_some reserved).2
  obtain ⟨levels, fits, others, below⟩ := selects_rest parsed named plain reserved selects
  cases ending : (Text.splitOnce '/' filter).2 with
  | none =>
      rw [ending] at others rest
      cases others
      cases deeper : (Text.splitOnce '/' topic).2 with
      | some segments =>
          rw [deeper] at below
          simp [Topic.matchesFrom, Text.splitAll_ne_nil] at below
      | none =>
          rw [deeper] at behind
          have routes : Routes ns filter topic := by
            refine ⟨selects.1, ⟨[.blank]⟩, ?_⟩
            rw [rest, behind]
            exact ⟨rfl, rfl⟩
          have shown : ¬Hides ns filter topic := by
            rintro ⟨_, hidden, _⟩
            rw [behind] at hidden
            cases hidden
          exact iff_of_true routes shown
  | some remainder =>
      rw [ending] at others rest
      obtain ⟨bound, read, matching⟩ := Topic.parse_rest others fits
      have selected : Topic.matchesFrom false levels
          (Text.splitAll '/' ((Text.splitOnce '/' topic).2.getD "")) = true := by
        cases deeper : (Text.splitOnce '/' topic).2 with
        | some segments => simpa [deeper] using below
        | none =>
            rw [deeper] at below
            exact Topic.matchesFrom_blank others below
      have routes : Routes ns filter topic ↔
          bound.matchesName ((Text.splitOnce '/' topic).2.getD "") = true := by
        unfold Routes
        rw [rest, behind]
        simp [selects.1, read]
      have hides : Hides ns filter topic ↔
          ((Text.splitOnce '/' remainder).1 = "+" ∨ (Text.splitOnce '/' remainder).1 = "#") ∧
            Level.hidden (Text.splitOnce '/' ((Text.splitOnce '/' topic).2.getD "")).1 = true := by
        unfold Hides
        rw [rest, behind, reserved]
        simp [and_comm]
      rw [routes, matching, selected, hides, Bool.true_and, Bool.not_eq_true',
        ← Bool.not_eq_true, Bool.and_eq_true, decide_eq_true_eq]

/-- Of the topics that a filter selects, the exchange routes all to it that are not hidden from
it. -/
theorem routes_iff {ns : Namespaces} {filter topic : String} {pattern name : Topic}
    (parsed : Topic.parse filter = .ok pattern) (named : Topic.parse topic = .ok name)
    (plain : name.hasWildcard = false) (selects : Selects ns filter pattern topic) :
    Routes ns filter topic ↔ ¬Hides ns filter topic := by
  cases reserved : ns.of topic with
  | none =>
      obtain ⟨routes, shown⟩ := routes_common parsed reserved selects
      exact iff_of_true routes shown
  | some space => exact routes_reserved parsed named plain reserved selects

theorem bind_succeeds {filter : String} {pattern : Topic}
    (parsed : Topic.parse filter = .ok pattern) (x : Exchange) (uid : SessionUid) :
    ∃ x' added, x.bind filter uid = .ok (x', added) := by
  have read : ∃ bound, Topic.parse (x.namespaces.split filter).2 = .ok bound := by
    cases space : x.namespaces.of filter with
    | none =>
        rw [Namespaces.split_eq_none space]
        exact ⟨pattern, parsed⟩
    | some reserved =>
        rw [(Namespaces.split_eq_some space).2]
        obtain ⟨_, _, _, _, others, fits⟩ := Topic.parse_split parsed
        cases ending : (Text.splitOnce '/' filter).2 with
        | none => exact ⟨_, rfl⟩
        | some remainder =>
            rw [ending] at others
            obtain ⟨bound, read, _⟩ := Topic.parse_rest others fits.2.2
            exact ⟨bound, read⟩
  obtain ⟨bound, read⟩ := read
  simp only [bind, pattern_eq_parse, bind_eq_ok]
  exact ⟨_, _, bound, read, rfl⟩

end Exchange

/-! What a subscription grants -/

theorem foldl_isSome {α : Type} (pick : Option α → α → α) {values : List α} {best : Option α} :
    (values.foldl (fun best value => some (pick best value)) best).isSome = true ↔
      best.isSome = true ∨ values ≠ [] := by
  induction values generalizing best with
  | nil => simp
  | cons value rest ih => simp [ih]

theorem Session.granted_isSome {s : Session} {ns : Namespaces} {topic : String} :
    (s.granted ns topic).isSome = true ↔ ∃ filter ∈ s.matcher.find topic,
      ns.of filter = ns.of topic ∧ (s.info.subscriptions.get? filter).isSome = true := by
  unfold granted
  rw [foldl_isSome]
  simp [Option.isSome_iff_ne_none]

theorem Session.granted_single {s : Session} {ns : Namespaces} {filter topic : String}
    {pattern : Topic} (held : (s.info.subscriptions.get? filter).isSome = true)
    (found : ∀ other, other ∈ s.matcher.find topic ↔
      other = filter ∧ pattern.matchesName topic = true) :
    (s.granted ns topic).isSome = true ↔ Selects ns filter pattern topic := by
  rw [granted_isSome]
  constructor
  · rintro ⟨other, member, same, _⟩
    obtain ⟨rfl, selects⟩ := (found other).mp member
    exact ⟨same, selects⟩
  · rintro ⟨same, selects⟩
    exact ⟨filter, (found filter).mpr ⟨rfl, selects⟩, same, held⟩

namespace Broker

structure Unbound (b : Broker) (s : Session) : Prop where
  present : b.session? s.uid = some s
  empty : s.info.subscriptions = []
  matcher : ∀ name, s.matcher.find name = []
  exchange : ∀ name, s.uid ∉ b.exchange.recipients name

theorem create_unbound {b : Broker} (fresh : ∀ name, b.nextUid ∉ b.exchange.recipients name)
    (id : String) (clean : Bool) : (b.create id clean).1.Unbound
      (Session.new b.nextUid { id, cleanSession := clean } b.settings.mqtt) where
  present := by simp [create, session?_putSession, Session.new]
  empty := rfl
  matcher _ := rfl
  exchange := fresh

/-- A message on the topic that is published now is put in a queue of the session: the exchange
takes the session for a recipient, and the session finds a subscription that grants it. -/
def Reaches (b : Broker) (uid : SessionUid) (topic : String) : Prop :=
  uid ∈ b.exchange.recipients topic ∧
    ∃ s, b.session? uid = some s ∧ (s.granted b.namespaces topic).isSome = true

theorem reaches_iff {b b' : Broker} {s : Session} {filter topic : String} {qos : QoS}
    {added : Bool} {pattern : Topic} (unbound : b.Unbound s)
    (subscribed : b.subscribe s.uid filter qos = .ok (b', added))
    (parsed : Topic.parse filter = .ok pattern) :
    b'.Reaches s.uid topic ↔
      Selects b.namespaces filter pattern topic ∧
        Exchange.Routes b.namespaces filter topic := by
  obtain ⟨entered, opened, start, ready, again, present, _, provided, entering⟩ :=
    subscribe_ok subscribed
  rw [parsed] at again
  cases again
  rw [unbound.present] at present
  cases present
  obtain ⟨exchange, uid, info, matcher⟩ := provide_frame provided
  obtain ⟨_, rfl, ⟨held, _⟩ | ⟨_, x, bound, stats, binding, rfl⟩⟩ := enterSubscription_ok entering
  · simp [Session.holds, info, unbound.empty, Table.contains, Table.get?] at held
  · rw [uid, exchange] at binding
    have receives : s.uid ∈ x.recipients topic ↔ Exchange.Routes b.namespaces filter topic := by
      rw [Exchange.mem_recipients_bind binding]
      simp [unbound.exchange, namespaces]
    have found : ∀ other, other ∈ (ready.matcher.insert pattern filter).1.find topic ↔
        other = filter ∧ pattern.matchesName topic = true := by
      intro other
      rw [TopicTree.mem_find_insert parsed, matcher, unbound.matcher]
      simp
    have spaces : x.namespaces = b.namespaces := Exchange.bind_namespaces binding
    have held : ((Table.insert filter qos ready.info.subscriptions).get? filter).isSome = true := by
      simp [Table.get?_insert]
    unfold Reaches
    rw [session?_putSession, uid, if_pos rfl]
    constructor
    · rintro ⟨member, s, here, granted⟩
      cases here
      rw [← spaces]
      exact ⟨(Session.granted_single held found).mp granted, spaces ▸ receives.mp member⟩
    · rintro ⟨selects, routes⟩
      rw [← spaces] at selects
      exact ⟨receives.mpr routes, _, rfl, (Session.granted_single held found).mpr selects⟩

end Broker

/-! Retained messages -/

namespace RetainStore

/-- The stores of retained messages that come from an empty one. A storage that is read holds
records of messages on their own topics. -/
inductive Filled (ns : Namespaces) : RetainStore → Prop
  | empty : Filled ns { namespaces := ns }
  | set {r : RetainStore} (m : Storage.Memory) (p : Publish) :
      Filled ns r → Filled ns (r.set m p).1
  | load {r loaded : RetainStore} {m : Storage.Memory}
      {entries : List (String × Bytes)} (listed : m.entriesUnder keyStart = .ok entries)
      (own : ∀ e ∈ entries, ∀ record, Codec.Json.load? Codec.Json.toRetained? e.2 = some record →
        record.message.topic = record.topic)
      (read : r.load m = .ok loaded) : Filled ns r → Filled ns loaded

def Keyed (t : Table String Publish) : Prop := ∀ e ∈ t, e.2.topic = e.1

theorem Keyed.insert {t : Table String Publish} (keyed : Keyed t) {topic : String} {p : Publish}
    (own : p.topic = topic) : Keyed (t.insert topic p) := by
  intro e member
  rcases Table.mem_insert member with rfl | old
  · exact own
  · exact keyed e old

theorem Keyed.insertAll {records : List RetainedRecord} {t : Table String Publish}
    (keyed : Keyed t) (own : ∀ record ∈ records, record.message.topic = record.topic) :
    Keyed (records.foldl (fun t record => t.insert record.topic record.message) t) := by
  induction records generalizing t with
  | nil => exact keyed
  | cons record rest ih =>
      exact ih (keyed.insert (own record (List.mem_cons_self ..)))
        fun other later => own other (List.mem_cons_of_mem _ later)

theorem Filled.keyed {ns : Namespaces} {r : RetainStore} (filled : Filled ns r) :
    r.namespaces = ns ∧ Keyed r.messages := by
  induction filled with
  | empty => exact ⟨rfl, fun _ member => nomatch member⟩
  | set m p _ ih =>
      unfold RetainStore.set
      split
      · dsimp only
        split
        · exact ⟨ih.1, fun e member => ih.2 e (List.mem_filter.mp member).1⟩
        · exact ih
      · dsimp only
        split
        · exact ih
        · exact ⟨ih.1, ih.2.insert rfl⟩
  | @load r loaded m entries listed own read _ ih =>
      simp only [RetainStore.load, bind_eq_ok, listed] at read
      obtain ⟨_, same, read⟩ := read
      cases same
      cases read
      refine ⟨ih.1, ih.2.insertAll ?_⟩
      intro record member
      obtain ⟨e, entry, loads⟩ := List.mem_filterMap.mp member
      exact own e entry record loads

theorem Filled.mem_select {ns : Namespaces} {r : RetainStore} (filled : Filled ns r)
    {filter topic : String} {p : Publish} {pattern : Topic}
    (parsed : Topic.parse filter = .ok pattern) (kept : (topic, p) ∈ r.messages) :
    p ∈ r.select filter ↔ Selects ns filter pattern topic := by
  obtain ⟨spaces, keyed⟩ := filled.keyed
  unfold select
  rw [parsed]
  simp only [spaces, List.mem_map, List.mem_filter, Bool.and_eq_true, decide_eq_true_eq]
  constructor
  · rintro ⟨⟨other, q⟩, ⟨member, same, selects⟩, rfl⟩
    have here : topic = other := (keyed _ kept).symm.trans (keyed _ member)
    subst here
    exact ⟨same.symm, selects⟩
  · rintro ⟨same, selects⟩
    exact ⟨(topic, p), ⟨kept, same.symm, selects⟩, rfl⟩

end RetainStore

/-! The three together -/

/-- A retained message is replayed to a filter exactly if the filter selects its topic, and a message
published on the topic reaches a session subscribed to the filter alone exactly then, unless the
topic is hidden from the filter. -/
theorem selected_retained_and_reached {b b' : Broker} {r : RetainStore} {s : Session}
    {filter topic : String} {mostOfFilter mostOfTopic : Nat} {pattern name : Topic} {qos : QoS}
    {added : Bool} {p : Publish}
    (accepted : Topic.validate filter true mostOfFilter = .ok pattern)
    (named : Topic.validate topic false mostOfTopic = .ok name) (unbound : b.Unbound s)
    (subscribed : b.subscribe s.uid filter qos = .ok (b', added))
    (filled : RetainStore.Filled b.namespaces r) (kept : (topic, p) ∈ r.messages) :
    (p ∈ r.select filter ↔ Selects b.namespaces filter pattern topic) ∧
      (b'.Reaches s.uid topic ↔
        Selects b.namespaces filter pattern topic ∧ ¬Hides b.namespaces filter topic) := by
  have parsed := (Topic.validate_ok accepted).1
  obtain ⟨read, plain⟩ := Topic.validate_ok named
  refine ⟨filled.mem_select parsed kept, ?_⟩
  rw [Broker.reaches_iff unbound subscribed parsed]
  exact and_congr_right (Exchange.routes_iff parsed read (plain rfl))

def oneClient : Broker := ((Broker.new {} {} 0 0).create "client" true).1

theorem oneClient_unbound :
    oneClient.Unbound (Session.new 1 { id := "client", cleanSession := true } {}) :=
  Broker.create_unbound (b := Broker.new {} {} 0 0)
    (fun name => by simp [Broker.new, Exchange.recipients_new]) "client" true

def notice (topic : String) : Publish := { topic, qos := .atMostOnce, payload := [1] }

/-- The retained messages after one message. -/
def keeping (topic : String) : RetainStore :=
  (({ namespaces := oneClient.namespaces } : RetainStore).set {} (notice topic)).1

theorem anyLevel_selected_retained_and_reached : ∃ b' added,
    oneClient.subscribe 1 "$SYS/+" .atMostOnce = .ok (b', added) ∧
      (notice "$SYS/load" ∈ (keeping "$SYS/load").select "$SYS/+" ↔
        Selects oneClient.namespaces "$SYS/+" ⟨[.metadata "$SYS", .single]⟩ "$SYS/load") ∧
      (b'.Reaches 1 "$SYS/load" ↔
        Selects oneClient.namespaces "$SYS/+" ⟨[.metadata "$SYS", .single]⟩ "$SYS/load" ∧
          ¬Hides oneClient.namespaces "$SYS/+" "$SYS/load") := by
  have accepted : Topic.validate "$SYS/+" true 9 = .ok ⟨[.metadata "$SYS", .single]⟩ := rfl
  have named : Topic.validate "$SYS/load" false 9 =
    .ok ⟨[.metadata "$SYS", .normal "load"]⟩ := rfl
  have filled : RetainStore.Filled oneClient.namespaces (keeping "$SYS/load") :=
    .set {} (notice "$SYS/load") .empty
  have kept : ("$SYS/load", notice "$SYS/load") ∈ (keeping "$SYS/load").messages :=
    List.mem_singleton.mpr rfl
  exact ⟨_, _, rfl,
    selected_retained_and_reached accepted named oneClient_unbound rfl filled kept⟩

/-- A topic whose second level begins with a dollar sign is hidden behind a reserved namespace: a
subscriber gets its retained message, and no message that is published. -/
theorem hiddenLevel_retained_and_not_reached : ∃ b' added,
    oneClient.subscribe 1 "$SYS/+" .atMostOnce = .ok (b', added) ∧
      Selects oneClient.namespaces "$SYS/+" ⟨[.metadata "$SYS", .single]⟩ "$SYS/$load" ∧
      notice "$SYS/$load" ∈ (keeping "$SYS/$load").select "$SYS/+" ∧
      ¬b'.Reaches 1 "$SYS/$load" := by
  refine ⟨_, _, rfl, ⟨by decide, by decide⟩, by decide, ?_⟩
  intro reaches
  exact absurd reaches.1 (by decide)

end MqttBroker
