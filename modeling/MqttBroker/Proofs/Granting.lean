import MqttBroker.Proofs.Coherence

/-!
What a SUBSCRIBE is answered. Its requests are taken one after the other, each over the
subscriptions that those before it have left. One that is refused leaves them as they are.
-/

namespace MqttBroker

structure Answers where
  subscriptions : Table String QoS
  status : List SubscribeReturn := []
  granted : List (String × QoS) := []
deriving DecidableEq

namespace Answers

variable {allowed : String → Bool} {limit : Nat} {t : Table String QoS} {filter : String}
  {requests : List (String × QoS)}

/-- A filter is accepted if it is allowed and new only below the limit. There is none if it is
zero. -/
def accepts (allowed : String → Bool) (limit : Nat) (t : Table String QoS) (filter : String) :
    Bool :=
  allowed filter && (t.contains filter || limit = 0 || t.length < limit)

def answer (allowed : String → Bool) (limit : Nat) (a : Answers) (request : String × QoS) :
    Answers :=
  if accepts allowed limit a.subscriptions request.1 then
    let qos := request.2.lower .atLeastOnce
    { subscriptions := a.subscriptions.insert request.1 qos
      status := a.status ++ [.granted qos]
      granted := a.granted ++ [(request.1, qos)] }
  else { a with status := a.status ++ [.refused] }

def ofRequests (allowed : String → Bool) (limit : Nat) (t : Table String QoS)
    (requests : List (String × QoS)) : Answers :=
  requests.foldl (answer allowed limit) { subscriptions := t }

def followed (a later : Answers) : Answers :=
  { later with status := a.status ++ later.status, granted := a.granted ++ later.granted }

def successes (requests : List (String × QoS)) (status : List SubscribeReturn) :
    List (String × QoS) :=
  (requests.zip status).filterMap fun
    | ((filter, _), .granted qos) => some (filter, qos)
    | (_, .refused) => none

theorem followed_followed (a b c : Answers) :
    (a.followed b).followed c = a.followed (b.followed c) := by
  simp only [followed, List.append_assoc]

theorem answer_eq_followed (a : Answers) (request : String × QoS) :
    answer allowed limit a request =
      a.followed (answer allowed limit { subscriptions := a.subscriptions } request) := by
  unfold answer
  split
  · rfl
  · simp only [followed, List.nil_append, List.append_nil]

theorem foldl_answer (a : Answers) (requests : List (String × QoS)) :
    requests.foldl (answer allowed limit) a =
      a.followed (ofRequests allowed limit a.subscriptions requests) := by
  induction requests generalizing a with
  | nil => simp only [ofRequests, followed, List.foldl_nil, List.append_nil]
  | cons request rest ih =>
      let first := answer allowed limit { subscriptions := a.subscriptions } request
      calc rest.foldl (answer allowed limit) (answer allowed limit a request)
        _ = (a.followed first).followed (ofRequests allowed limit first.subscriptions rest) := by
            rw [ih, answer_eq_followed]
            rfl
        _ = a.followed (rest.foldl (answer allowed limit) first) := by rw [followed_followed, ih]

theorem ofRequests_append (front back : List (String × QoS)) :
    ofRequests allowed limit t (front ++ back) = (ofRequests allowed limit t front).followed
      (ofRequests allowed limit (ofRequests allowed limit t front).subscriptions back) := by
  unfold ofRequests
  rw [List.foldl_append, foldl_answer]
  rfl

theorem ofRequests_accepted (accepted : accepts allowed limit t filter = true) (qos : QoS)
    (rest : List (String × QoS)) :
    let later := ofRequests allowed limit (t.insert filter (qos.lower .atLeastOnce)) rest
    ofRequests allowed limit t ((filter, qos) :: rest) =
      { subscriptions := later.subscriptions
        status := .granted (qos.lower .atLeastOnce) :: later.status
        granted := (filter, qos.lower .atLeastOnce) :: later.granted } := by
  intro later
  unfold ofRequests
  rw [List.foldl_cons, foldl_answer, answer, if_pos accepted]
  rfl

theorem ofRequests_refused (refused : accepts allowed limit t filter = false) (qos : QoS)
    (rest : List (String × QoS)) :
    let later := ofRequests allowed limit t rest
    ofRequests allowed limit t ((filter, qos) :: rest) =
      { later with status := .refused :: later.status } := by
  intro later
  unfold ofRequests
  rw [List.foldl_cons, foldl_answer, answer, if_neg (Bool.eq_false_iff.mp refused)]
  rfl

theorem length_status (t : Table String QoS) (requests : List (String × QoS)) :
    (ofRequests allowed limit t requests).status.length = requests.length := by
  induction requests generalizing t with
  | nil => rfl
  | cons request rest ih =>
      obtain ⟨filter, qos⟩ := request
      cases accepted : accepts allowed limit t filter with
      | true => rw [ofRequests_accepted accepted, List.length_cons, ih, List.length_cons]
      | false => rw [ofRequests_refused accepted, List.length_cons, ih, List.length_cons]

theorem status_at (t : Table String QoS) (front : List (String × QoS)) (filter : String) (qos : QoS)
    (back : List (String × QoS)) :
    (ofRequests allowed limit t (front ++ (filter, qos) :: back)).status[front.length]? =
      some (if accepts allowed limit (ofRequests allowed limit t front).subscriptions filter
        then .granted (qos.lower .atLeastOnce) else .refused) := by
  rw [ofRequests_append, followed]
  have before : (ofRequests allowed limit t front).status.length = front.length := length_status ..
  rw [List.getElem?_append_right (by omega), before, Nat.sub_self]
  cases accepted : accepts allowed limit (ofRequests allowed limit t front).subscriptions filter with
  | true => rw [ofRequests_accepted accepted, List.getElem?_cons_zero, if_pos rfl]
  | false => rw [ofRequests_refused accepted, List.getElem?_cons_zero, if_neg Bool.false_ne_true]

theorem granted_eq (t : Table String QoS) (requests : List (String × QoS)) :
    (ofRequests allowed limit t requests).granted =
      successes requests (ofRequests allowed limit t requests).status := by
  induction requests generalizing t with
  | nil => rfl
  | cons request rest ih =>
      obtain ⟨filter, qos⟩ := request
      cases accepted : accepts allowed limit t filter with
      | true =>
          rw [ofRequests_accepted accepted, ih]
          rfl
      | false =>
          rw [ofRequests_refused accepted]
          exact ih t

theorem get?_unasked (t : Table String QoS) (unasked : filter ∉ requests.map Prod.fst) :
    (ofRequests allowed limit t requests).subscriptions.get? filter = t.get? filter := by
  induction requests generalizing t with
  | nil => rfl
  | cons request rest ih =>
      obtain ⟨first, qos⟩ := request
      rw [List.map_cons, List.mem_cons, not_or] at unasked
      cases accepted : accepts allowed limit t first with
      | true => rw [ofRequests_accepted accepted, ih _ unasked.2, Table.get?_insert, if_neg unasked.1]
      | false => rw [ofRequests_refused accepted, ih t unasked.2]

theorem within_insert (increasing : t.Increasing) (within : limit = 0 ∨ t.length ≤ limit)
    (accepted : accepts allowed limit t filter = true) (qos : QoS) :
    limit = 0 ∨ (t.insert filter qos).length ≤ limit := by
  have counted := increasing.length_insert filter qos
  unfold accepts Table.contains at accepted
  cases held : t.get? filter with
  | some old =>
      rw [held, Option.toList_some, List.length_singleton] at counted
      omega
  | none =>
      rw [held, Option.toList_none, List.length_nil] at counted
      simp only [held, Option.isSome_none, Bool.false_or, Bool.and_eq_true, Bool.or_eq_true,
        decide_eq_true_eq] at accepted
      omega

theorem within_limit (increasing : t.Increasing) (within : limit = 0 ∨ t.length ≤ limit)
    (requests : List (String × QoS)) :
    limit = 0 ∨ (ofRequests allowed limit t requests).subscriptions.length ≤ limit := by
  induction requests generalizing t with
  | nil => exact within
  | cons request rest ih =>
      obtain ⟨filter, qos⟩ := request
      cases accepted : accepts allowed limit t filter with
      | true =>
          rw [ofRequests_accepted accepted]
          exact ih (increasing.insert ..) (within_insert increasing within accepted _)
      | false =>
          rw [ofRequests_refused accepted]
          exact ih increasing within

end Answers

namespace Broker

variable {b : Broker} {uid : SessionUid} {s : Session}

theorem allows_eq (present : b.session? uid = some s) (grants : Grants) (filter : String) :
    b.allows uid grants filter = Answers.accepts (admits b.settings (some grants))
      b.settings.mqtt.maxSubscriptions s.info.subscriptions filter := by
  have checked : (b.checkFilter (some grants) filter).isOk = admits b.settings (some grants) filter := by
    rw [Bool.eq_iff_iff, ← checkFilter_eq_ok]
    cases b.checkFilter (some grants) filter <;> simp [Except.isOk, Except.toBool]
  rw [allows, checked, present, Option.all_some, hasRoomFor, Answers.accepts, Session.holds]
  simp only [Bool.or_comm]

theorem subscribeAll_answers (coherent : b.Coherent) (present : b.session? uid = some s)
    (live : s.closed = false) (opened : b.storage.closed = false) (grants : Grants)
    (requests : List (String × QoS)) :
    let answers := Answers.ofRequests (admits b.settings (some grants))
      b.settings.mqtt.maxSubscriptions s.info.subscriptions requests
    ∃ b' s', subscribeAll uid grants requests b = (b', .ok (answers.status, answers.granted)) ∧
      b'.storage.closed = false ∧ b'.session? uid = some s' ∧
      s'.info = { s.info with subscriptions := answers.subscriptions } ∧
      ∀ w, w ≠ uid → b'.session? w = b.session? w := by
  -- The rest of the requests is answered over what the first has left of the session.
  induction requests generalizing b s with
  | nil => exact ⟨b, s, rfl, opened, present, rfl, fun _ _ => rfl⟩
  | cons request rest ih =>
      obtain ⟨filter, qos⟩ := request
      have accepts := allows_eq present grants filter
      intro answers
      cases allowed : b.allows uid grants filter with
      | true =>
          have given : answers = _ := Answers.ofRequests_accepted (accepts ▸ allowed) qos rest
          obtain ⟨pattern, parsed⟩ := allows_parsed allowed
          obtain ⟨own, proper⟩ := coherent uid s present
          obtain ⟨next, added, done⟩ :=
            subscribe_succeeds opened present live parsed (qos.lower .atLeastOnce)
          obtain ⟨_, _, s', present', _, _, live', info⟩ :=
            subscribe_coherent present own proper.toCoherent done
          obtain ⟨b', s'', run, still, found, changed, apart⟩ := ih (coherent.subscribe done) present'
            live' ((subscribe_opened done).trans opened)
          rw [subscribe_settings done, info] at run changed
          refine ⟨b', s'', ?_, still, found, ?_, fun w other => ?_⟩
          · simp only [subscribeAll, allowed, if_true, done, run, given]
            rfl
          · rw [changed, given]
          · exact (apart w other).trans (coherent.subscribe_other done other)
      | false =>
          have given : answers = _ := Answers.ofRequests_refused (accepts ▸ allowed) qos rest
          obtain ⟨b', s', run, still, found, changed, apart⟩ := ih coherent present live opened
          refine ⟨b', s', ?_, still, found, ?_, apart⟩
          · simp only [subscribeAll, allowed, Bool.false_eq_true, if_false, run, given]
            rfl
          · rw [changed, given]

/-- The requests of a SUBSCRIBE are answered by a fold over them. Each has an answer, which is a
grant if its filter is accepted over the subscriptions at that point, and the grants are given in
order. Filters that were not asked for stay as they are, as do other sessions, and a limit that was
kept before is kept. -/
theorem requested_in_turn {settings : Settings} {storage : Storage.Memory} {now : Nat}
    {clock : Int64} {first : Broker} (started : start settings storage now clock = .ok first)
    (moves : List Move) (reached : Deeds (moves.foldl moved first) b)
    (present : b.session? uid = some s) (live : s.closed = false)
    (opened : b.storage.closed = false) (grants : Grants) (requests : List (String × QoS)) :
    let allowed := admits b.settings (some grants)
    let limit := b.settings.mqtt.maxSubscriptions
    let answers := requests.foldl (Answers.answer allowed limit)
      { subscriptions := s.info.subscriptions }
    (∃ b' s', b.requestSubscriptions uid grants requests =
        (b', .ok (answers.status, answers.granted)) ∧ b'.session? uid = some s' ∧
        s'.info = { s.info with subscriptions := answers.subscriptions } ∧
        ∀ w, w ≠ uid → b'.session? w = b.session? w) ∧
      answers.status.length = requests.length ∧
      (∀ front filter qos back, requests = front ++ (filter, qos) :: back →
        answers.status[front.length]? = some (if Answers.accepts allowed limit
            (front.foldl (Answers.answer allowed limit)
              { subscriptions := s.info.subscriptions }).subscriptions filter
          then .granted (qos.lower .atLeastOnce) else .refused)) ∧
      answers.granted = Answers.successes requests answers.status ∧
      (∀ filter, filter ∉ requests.map Prod.fst →
        answers.subscriptions.get? filter = s.info.subscriptions.get? filter) ∧
      (limit = 0 ∨ s.info.subscriptions.length ≤ limit →
        limit = 0 ∨ answers.subscriptions.length ≤ limit) := by
  intro allowed limit answers
  have coherent : b.Coherent := reached.coherent ((start_coherent started).run moves)
  obtain ⟨_, proper⟩ := coherent uid s present
  refine ⟨?_, Answers.length_status .., ?_, Answers.granted_eq .., ?_, fun within => ?_⟩
  · obtain ⟨b', s', run, still, found, info, apart⟩ :=
      subscribeAll_answers coherent present live opened grants requests
    obtain ⟨stored, done⟩ := persist_succeeds still uid
    have same : stored.sessions = b'.sessions := (counted_eq (persist_counted done)).1
    have kept : stored.session? = b'.session? := by
      unfold session?
      rw [same]
    refine ⟨stored, s', ?_, kept ▸ found, info, kept ▸ apart⟩
    simp only [requestSubscriptions, run, done]
    rfl
  · rintro front filter qos back rfl
    exact Answers.status_at ..
  · exact fun _ unasked => Answers.get?_unasked _ unasked
  · exact Answers.within_limit proper.increasing within requests

/-! Six requests of a client that may have two subscriptions -/

def twoAtMost : Settings := { mqtt := { maxSubscriptions := 2 } }

def newsOnly : Grants :=
  { superuser := false, publish := [], subscribe := [⟨[.normal "news", .multi]⟩], namespaces := {} }

def sixRequests : List (String × QoS) :=
  [("news/a", .exactlyOnce), ("news/#/a", .atMostOnce), ("weather", .atMostOnce),
    ("news/+", .atLeastOnce), ("news/b", .atLeastOnce), ("news/a", .atMostOnce)]

def arrival : List Move := [.attach "client" { id := "c", clean := false } true true]

theorem sixRequests_answered : start twoAtMost {} 0 0 = .ok (.new twoAtMost {} 0 0) ∧
    ∃ s b' s', (arrival.foldl moved (.new twoAtMost {} 0 0)).session? 1 = some s ∧
      s.closed = false ∧ (arrival.foldl moved (.new twoAtMost {} 0 0)).storage.closed = false ∧
      (arrival.foldl moved (.new twoAtMost {} 0 0)).requestSubscriptions 1 newsOnly sixRequests =
        (b', .ok ([.granted .atLeastOnce, .refused, .refused, .granted .atLeastOnce, .refused,
            .granted .atMostOnce],
          [("news/a", .atLeastOnce), ("news/+", .atLeastOnce), ("news/a", .atMostOnce)])) ∧
      b'.session? 1 = some s' ∧
      s'.info.subscriptions = [("news/+", .atLeastOnce), ("news/a", .atMostOnce)] := by
  have begun : start twoAtMost {} 0 0 = .ok (.new twoAtMost {} 0 0) := rfl
  have shown : (((arrival.foldl moved (.new twoAtMost {} 0 0)).session? 1).map fun s =>
      (s.closed, s.info.subscriptions)) = some (false, []) := by decide
  obtain ⟨s, present, facts⟩ := Option.map_eq_some_iff.mp shown
  obtain ⟨live, none⟩ := Prod.mk.inj facts
  have opened : (arrival.foldl moved (.new twoAtMost {} 0 0)).storage.closed = false := by decide
  obtain ⟨⟨b', s', run, found, info, _⟩, _⟩ :=
    requested_in_turn begun arrival (.refl _) present live opened newsOnly sixRequests
  have answers : sixRequests.foldl (Answers.answer (admits twoAtMost (some newsOnly)) 2)
      { subscriptions := [] } =
        { subscriptions := [("news/+", .atLeastOnce), ("news/a", .atMostOnce)]
          status := [.granted .atLeastOnce, .refused, .refused, .granted .atLeastOnce, .refused,
            .granted .atMostOnce]
          granted := [("news/a", .atLeastOnce), ("news/+", .atLeastOnce), ("news/a", .atMostOnce)] } := by
    decide
  have settings : (arrival.foldl moved (.new twoAtMost {} 0 0)).settings = twoAtMost := rfl
  have limit : twoAtMost.mqtt.maxSubscriptions = 2 := rfl
  rw [none, settings, limit, answers] at run info
  exact ⟨begun, s, b', s', present, live, opened, run, found, by rw [info]⟩

end Broker

end MqttBroker
