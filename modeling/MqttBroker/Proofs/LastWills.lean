import MqttBroker.Proofs.Moves

/-!
Last wills. Whatever a broker goes through from its start on, the will of a client is published once
when its connection is lost, unless another connection has resumed its session or the broker is
shutting down; no will is published otherwise.
-/

namespace MqttBroker

/-- What has happened to a broker: whom it has accepted, which connections were taken over, who is
gone, and what has been entered, and why. -/
structure Attendance where
  broker : Broker
  accepted : List Served := []
  overtaken : List ConnectionId := []
  parted : List Parting := []
  entered : List (Cause × Publish) := []

def Cause.will? : Cause → Option ConnectionId
  | .will conn => some conn
  | _ => none

theorem Broker.Move.cause_will? (m : Broker.Move) : m.cause.will? = none := by
  cases m <;> rfl

theorem Broker.reason_will? (b : Broker) (late : Bool) (x : Peer) :
    (b.reason late x).will? = none := by
  unfold reason
  rcases b.takes late x with _ | p
  · rfl
  · cases p <;> rfl

namespace Attendance

open Broker (Move start)

/-- The client that the next step with a link is about: it is served there, or is accepted. -/
def visited (h : Attendance) (peer : PeerId) (x : Peer) : Option Served :=
  (h.broker.newcomer peer x).or x.stage.client?

def leaver (h : Attendance) (peer : PeerId) (late : Bool) (x : Peer) : Option Served :=
  (h.visited peer x).filter fun _ =>
    (((h.broker.serve peer late x).getD h.broker).attended peer).isNone

def parting (h : Attendance) (peer : PeerId) (late : Bool) (x : Peer) (client : Served) :
    Parting where
  client := client
  graceful := h.broker.departs late x
  overtaken := decide (client.conn ∈ h.overtaken ++ (h.broker.resumes peer x).toList)
  down := h.broker.shuttingDown
  clock := h.broker.clock

def visit (h : Attendance) (peer : PeerId) (late : Bool) (x : Peer) : Attendance :=
  let broker := (h.broker.serve peer late x).getD h.broker
  let cause := ((h.leaver peer late x).map fun c => .will c.conn).getD (h.broker.reason late x)
  { broker
    accepted := h.accepted ++ (h.broker.newcomer peer x).toList
    overtaken := h.overtaken ++ (h.broker.resumes peer x).toList
    parted := h.parted ++ ((h.leaver peer late x).map (h.parting peer late x)).toList
    entered := h.entered ++ (h.broker.entered broker).map (cause, ·) }

def pass (h : Attendance) (m : Move) : Attendance :=
  let broker := h.broker.moved m
  { h with
    broker
    overtaken := h.overtaken ++ (h.broker.overtaken m).toList
    entered := h.entered ++ (h.broker.entered broker).map (m.cause, ·) }

def step (h : Attendance) : Move → Attendance
  | .serve peer late => ((h.broker.peers.get? peer).map (h.visit peer late)).getD h
  | m => h.pass m

def started (broker : Broker) : Attendance := { broker }

def run (h : Attendance) (moves : List Move) : Attendance := moves.foldl step h

def willOf? (conn : ConnectionId) (e : Cause × Publish) : Option Publish :=
  if e.1.will? = some conn then some e.2 else none

def willsOf (h : Attendance) (conn : ConnectionId) : List Publish :=
  h.entered.filterMap (willOf? conn)

structure Enrolled (h : Attendance) : Prop where
  numbered : h.broker.Numbered
  known : ∀ c ∈ h.accepted, (h.broker.handle? c.conn).isSome
  distinct : (h.accepted.map Served.conn).Nodup
  marked : ∀ c ∈ h.accepted, h.broker.marked c.conn = decide (c.conn ∈ h.overtaken)
  overtaken : ∀ conn ∈ h.overtaken, conn < h.broker.nextConnection

/-- Everybody who has been accepted is still there, or is gone and all that was to be published then
has been. -/
structure Accounted (h : Attendance) : Prop extends Enrolled h where
  attended : ∀ peer c, h.broker.attended peer = some c →
    c ∈ h.accepted ∧ ∀ t ∈ h.parted, t.client.conn ≠ c.conn
  alone : ∀ peer other c c', h.broker.attended peer = some c → h.broker.attended other = some c' →
    c.conn = c'.conn → peer = other
  parted : ∀ t ∈ h.parted, t.client ∈ h.accepted
  once : (h.parted.map fun t => t.client.conn).Nodup
  present : ∀ c ∈ h.accepted,
    (∃ t ∈ h.parted, t.client = c) ∨ ∃ peer, h.broker.attended peer = some c
  wills : ∀ conn, h.willsOf conn =
    h.parted.flatMap fun t => if t.client.conn = conn then t.messages else []
  explained : ∀ e ∈ h.entered, e.1.Explains e.2

theorem willsOf_entered (entered : List (Cause × Publish)) (cause : Cause)
    (messages : List Publish) (conn : ConnectionId) :
    (entered ++ messages.map (cause, ·)).filterMap (willOf? conn) =
      entered.filterMap (willOf? conn) ++ if cause.will? = some conn then messages else [] := by
  rw [List.filterMap_append, List.filterMap_map]
  congr 1
  split
  · rename_i own
    have all : willOf? conn ∘ (cause, ·) = some := funext fun m => if_pos own
    rw [all, List.filterMap_some]
  · rename_i other
    have none : ∀ m ∈ messages, (willOf? conn ∘ (cause, ·)) m = none := fun m _ => if_neg other
    exact List.filterMap_eq_nil_iff.mpr none

theorem pass_accounted {h : Attendance} (accounted : h.Accounted) {m : Move}
    (other : ∀ peer late, m ≠ .serve peer late) : (h.pass m).Accounted := by
  obtain ⟨proceeds, explained⟩ := h.broker.moved_passes accounted.numbered m other
  have attended : ∀ peer, (h.pass m).broker.attended peer = h.broker.attended peer :=
    fun peer => proceeds.attended peer (nomatch ·)
  refine ⟨⟨proceeds.numbered, fun c member => proceeds.known _ (accounted.known c member),
    accounted.distinct, fun c member => ?_, fun conn member => ?_⟩, fun peer c there => ?_,
    fun peer other c c' one two => ?_, accounted.parted, accounted.once, fun c member => ?_,
    fun conn => ?_, fun e member => ?_⟩
  · refine (proceeds.marked _ (accounted.known c member)).trans ?_
    rw [accounted.marked c member]
    simp [pass, Option.mem_toList, eq_comm]
  · rcases List.mem_append.mp member with before | now
    · exact (accounted.overtaken conn before).trans_le proceeds.next
    · exact proceeds.taken conn (Option.mem_toList.mp now)
  · exact accounted.attended peer c (attended peer ▸ there)
  · exact accounted.alone peer other c c' (attended peer ▸ one) (attended other ▸ two)
  · refine (accounted.present c member).imp id fun there => ?_
    obtain ⟨peer, there⟩ := there
    exact ⟨peer, (attended peer).trans there⟩
  · refine (willsOf_entered ..).trans ?_
    rw [m.cause_will?, if_neg (nomatch ·), List.append_nil]
    exact accounted.wills conn
  · rcases List.mem_append.mp member with before | now
    · exact accounted.explained e before
    · obtain ⟨message, entered, rfl⟩ := List.mem_map.mp now
      exact explained message entered

/-! Steps with links -/

section visit

variable {h : Attendance} {peer : PeerId} {late : Bool} {x : Peer}

theorem mem_visit (c : Served) : c ∈ (h.visit peer late x).accepted ↔
    c ∈ h.accepted ∨ h.broker.newcomer peer x = some c := by
  simp [visit, Option.mem_toList]

theorem Enrolled.fresh (enrolled : h.Enrolled)
    (visits : h.broker.Visits peer late x (h.visit peer late x).broker)
    {c c' : Served} (before : c ∈ h.accepted) (came : h.broker.newcomer peer x = some c') :
    c.conn ≠ c'.conn := by
  rw [visits.number c' came]
  exact Nat.ne_of_lt (enrolled.numbered.connections _ (enrolled.known c before))

theorem Enrolled.visit (enrolled : h.Enrolled)
    (visits : h.broker.Visits peer late x (h.visit peer late x).broker) :
    (h.visit peer late x).Enrolled where
  numbered := visits.proceeds.numbered
  known c member := by
    rcases (mem_visit c).mp member with before | came
    · exact visits.proceeds.known _ (enrolled.known c before)
    · exact visits.known c came
  distinct := by
    change ((h.accepted ++ (h.broker.newcomer peer x).toList).map Served.conn).Nodup
    cases came : h.broker.newcomer peer x with
    | none => simpa using enrolled.distinct
    | some c =>
        rw [List.map_append, List.nodup_append']
        refine ⟨enrolled.distinct, by simp, ?_⟩
        simp only [Option.toList_some, List.map_cons, List.map_nil, List.disjoint_singleton]
        intro member
        obtain ⟨c', before, same⟩ := List.mem_map.mp member
        exact enrolled.fresh visits before came same
  marked c member := by
    change _ = decide (c.conn ∈ h.overtaken ++ (h.broker.resumes peer x).toList)
    rcases (mem_visit c).mp member with before | came
    · rw [visits.proceeds.marked _ (enrolled.known c before), enrolled.marked c before]
      simp [Option.mem_toList, eq_comm]
    · have later : c.conn ∉ h.overtaken := fun member => by
        have below := enrolled.overtaken _ member
        exact absurd (visits.number c came) (Nat.ne_of_lt below)
      rw [visits.marked c came]
      simp [Option.mem_toList, later, eq_comm]
  overtaken conn member := by
    rcases List.mem_append.mp member with before | now
    · exact (enrolled.overtaken conn before).trans_le visits.proceeds.next
    · exact visits.proceeds.taken conn (Option.mem_toList.mp now)

theorem Accounted.visited (accounted : h.Accounted)
    (here : h.broker.attended peer = x.stage.client?)
    (visits : h.broker.Visits peer late x (h.visit peer late x).broker) {c : Served}
    (client : h.visited peer x = some c) :
    c ∈ (h.visit peer late x).accepted ∧ (∀ t ∈ h.parted, t.client.conn ≠ c.conn) ∧
      ∀ other c', other ≠ peer → h.broker.attended other = some c' → c'.conn ≠ c.conn := by
  rw [mem_visit]
  rcases Option.or_eq_some_iff.mp client with came | ⟨_, before⟩
  · refine ⟨Or.inr came, fun t member => ?_, fun other c' _ there => ?_⟩
    · exact accounted.fresh visits (accounted.parted t member) came
    · exact accounted.fresh visits (accounted.attended other c' there).1 came
  · rw [← here] at before
    obtain ⟨member, notGone⟩ := accounted.attended peer c before
    exact ⟨Or.inl member, notGone, fun other c' different there same =>
      different (accounted.alone other peer c' c there before same)⟩

theorem Accounted.present_visit (accounted : h.Accounted)
    (here : h.broker.attended peer = x.stage.client?)
    (visits : h.broker.Visits peer late x (h.visit peer late x).broker) {c : Served}
    (member : c ∈ (h.visit peer late x).accepted) :
    h.visited peer x = some c ∨ (∃ t ∈ h.parted, t.client = c) ∨
      ∃ other, other ≠ peer ∧ (h.visit peer late x).broker.attended other = some c := by
  rcases (mem_visit c).mp member with before | came
  · rcases accounted.present c before with gone | ⟨other, there⟩
    · exact Or.inr (Or.inl gone)
    · by_cases same : other = peer
      · rw [same, here] at there
        refine Or.inl ?_
        cases came : h.broker.newcomer peer x with
        | none => rw [Attendance.visited, came, Option.none_or, there]
        | some c' => cases there.symm.trans (visits.fresh c' came)
      · refine Or.inr (Or.inr ⟨other, same, ?_⟩)
        rw [visits.proceeds.attended other fun own => same (Option.some.inj own).symm, there]
  · exact Or.inl (by rw [Attendance.visited, came, Option.some_or])

theorem Accounted.alone_visit (accounted : h.Accounted)
    (here : h.broker.attended peer = x.stage.client?)
    (visits : h.broker.Visits peer late x (h.visit peer late x).broker)
    (client : ∀ c, (h.visit peer late x).broker.attended peer = some c → h.visited peer x = some c)
    {one two : PeerId} {c c' : Served} (first : (h.visit peer late x).broker.attended one = some c)
    (second : (h.visit peer late x).broker.attended two = some c') (same : c.conn = c'.conn) :
    one = two := by
  have elsewhere : ∀ other, other ≠ peer →
      (h.visit peer late x).broker.attended other = h.broker.attended other :=
    fun other different => visits.proceeds.attended other
      fun own => different (Option.some.inj own).symm
  by_cases oneHere : one = peer
  · by_cases twoHere : two = peer
    · rw [oneHere, twoHere]
    · subst oneHere
      obtain ⟨_, _, others⟩ := accounted.visited here visits (client c first)
      rw [elsewhere two twoHere] at second
      exact absurd same.symm (others two c' twoHere second)
  · rw [elsewhere one oneHere] at first
    by_cases twoHere : two = peer
    · subst twoHere
      obtain ⟨_, _, others⟩ := accounted.visited here visits (client c' second)
      exact absurd same (others one c oneHere first)
    · rw [elsewhere two twoHere] at second
      exact accounted.alone one two c c' first second same

theorem Accounted.visit_stays (accounted : h.Accounted)
    (here : h.broker.attended peer = x.stage.client?)
    (visits : h.broker.Visits peer late x (h.visit peer late x).broker)
    (client : (h.visit peer late x).broker.attended peer = h.visited peer x)
    (explained : ∀ m ∈ h.broker.entered (h.visit peer late x).broker,
      (h.broker.reason late x).Explains m) : (h.visit peer late x).Accounted := by
  have nobody : h.leaver peer late x = none := by
    change (h.visited peer x).filter
      (fun _ => ((h.visit peer late x).broker.attended peer).isNone) = none
    rw [client]
    cases h.visited peer x <;> rfl
  have parted : (h.visit peer late x).parted = h.parted := by
    simp [Attendance.visit, nobody]
  have entered : (h.visit peer late x).entered = h.entered ++
      (h.broker.entered (h.visit peer late x).broker).map (h.broker.reason late x, ·) := by
    simp [Attendance.visit, nobody]
  refine ⟨accounted.toEnrolled.visit visits, fun other c there => ?_, fun one two c c' => ?_,
    fun t member => ?_, ?_, fun c member => ?_, fun conn => ?_, fun e member => ?_⟩
  · rw [parted]
    by_cases same : other = peer
    · subst same
      obtain ⟨mine, notGone, _⟩ := accounted.visited here visits (client ▸ there)
      exact ⟨mine, notGone⟩
    · rw [visits.proceeds.attended other fun own => same (Option.some.inj own).symm] at there
      obtain ⟨before, notGone⟩ := accounted.attended other c there
      exact ⟨(mem_visit c).mpr (Or.inl before), notGone⟩
  · exact accounted.alone_visit here visits fun c there => client ▸ there
  · rw [parted] at member
    exact (mem_visit _).mpr (Or.inl (accounted.parted t member))
  · rw [parted]
    exact accounted.once
  · rw [parted]
    rcases accounted.present_visit here visits member with mine | gone | ⟨other, _, there⟩
    · exact Or.inr ⟨peer, client.trans mine⟩
    · exact Or.inl gone
    · exact Or.inr ⟨other, there⟩
  · rw [willsOf, entered, willsOf_entered, h.broker.reason_will?, if_neg (nomatch ·),
      List.append_nil, parted]
    exact accounted.wills conn
  · rw [entered] at member
    rcases List.mem_append.mp member with before | now
    · exact accounted.explained e before
    · obtain ⟨message, inside, rfl⟩ := List.mem_map.mp now
      exact explained message inside

theorem Accounted.visit_parts (accounted : h.Accounted)
    (here : h.broker.attended peer = x.stage.client?)
    (visits : h.broker.Visits peer late x (h.visit peer late x).broker) {c : Served}
    (client : h.visited peer x = some c)
    (unattended : (h.visit peer late x).broker.attended peer = none)
    (messages :
      h.broker.entered (h.visit peer late x).broker = (h.parting peer late x c).messages) :
    (h.visit peer late x).Accounted := by
  have gone : h.leaver peer late x = some c := by
    change (h.visited peer x).filter
      (fun _ => ((h.visit peer late x).broker.attended peer).isNone) = _
    rw [client, unattended]
    rfl
  have parted : (h.visit peer late x).parted = h.parted ++ [h.parting peer late x c] := by
    simp [Attendance.visit, gone]
  have entered : (h.visit peer late x).entered =
      h.entered ++ (h.parting peer late x c).messages.map (.will c.conn, ·) := by
    rw [← messages]
    simp [Attendance.visit, gone]
  obtain ⟨mine, notGone, others⟩ := accounted.visited here visits client
  refine ⟨accounted.toEnrolled.visit visits, fun other c' there => ?_, fun one two c c' => ?_,
    fun t member => ?_, ?_, fun c' member => ?_, fun conn => ?_, fun e member => ?_⟩
  · have different : other ≠ peer := fun same => by simp [same, unattended] at there
    rw [visits.proceeds.attended other fun own => different (Option.some.inj own).symm] at there
    obtain ⟨before, stays⟩ := accounted.attended other c' there
    refine ⟨(mem_visit c').mpr (Or.inl before), fun t member => ?_⟩
    rw [parted, List.mem_append, List.mem_singleton] at member
    rcases member with earlier | rfl
    · exact stays t earlier
    · exact (others other c' different there).symm
  · exact accounted.alone_visit here visits fun c there => by simp [unattended] at there
  · rw [parted, List.mem_append, List.mem_singleton] at member
    rcases member with earlier | rfl
    · exact (mem_visit _).mpr (Or.inl (accounted.parted t earlier))
    · exact mine
  · rw [parted, List.map_append, List.nodup_append']
    refine ⟨accounted.once, by simp, ?_⟩
    simp only [List.map_cons, List.map_nil, List.disjoint_singleton]
    intro member
    obtain ⟨t, earlier, same⟩ := List.mem_map.mp member
    exact notGone t earlier same
  · rcases accounted.present_visit here visits member with own | ⟨t, earlier, same⟩ |
      ⟨other, _, there⟩
    · cases client.symm.trans own
      exact Or.inl ⟨h.parting peer late x c, by simp [parted], rfl⟩
    · exact Or.inl ⟨t, by simp [parted, earlier], same⟩
    · exact Or.inr ⟨other, there⟩
  · rw [willsOf, entered, willsOf_entered, parted, List.flatMap_append, List.flatMap_singleton]
    refine congrArg₂ _ (accounted.wills conn) ?_
    by_cases own : c.conn = conn
    · simp [Cause.will?, parting, own]
    · simp [Cause.will?, parting, own]
  · rw [entered] at member
    rcases List.mem_append.mp member with before | now
    · exact accounted.explained e before
    · obtain ⟨message, _, rfl⟩ := List.mem_map.mp now
      trivial

theorem visit_accounted (accounted : h.Accounted) (present : h.broker.peers.get? peer = some x) :
    (h.visit peer late x).Accounted := by
  have here : h.broker.attended peer = x.stage.client? := by
    rw [Broker.attended, Broker.stage?, present, Option.map_some, Option.bind_some]
  have visits : h.broker.Visits peer late x (h.visit peer late x).broker :=
    Broker.serve_visits accounted.numbered late present fun c client =>
      accounted.known c (accounted.attended peer c (here.trans client)).1
  cases client : h.visited peer x with
  | none =>
      obtain ⟨unattended, explained⟩ := visits.nobody client
      exact accounted.visit_stays here visits (unattended.trans client.symm) explained
  | some c =>
      rcases visits.somebody c client with ⟨attended, explained⟩ | ⟨unattended, entered⟩
      · exact accounted.visit_stays here visits (attended.trans client.symm) explained
      · refine accounted.visit_parts here visits client unattended (entered.trans ?_)
        obtain ⟨mine, _⟩ := accounted.visited here visits client
        rw [(accounted.toEnrolled.visit visits).marked c mine]
        rfl

end visit

theorem step_accounted {h : Attendance} (accounted : h.Accounted) (m : Move) :
    (h.step m).Accounted := by
  by_cases serves : ∃ peer late, m = .serve peer late
  · obtain ⟨peer, late, rfl⟩ := serves
    simp only [step]
    cases present : h.broker.peers.get? peer with
    | none => exact accounted
    | some x => exact visit_accounted accounted present
  · have passes : h.step m = h.pass m := by
      cases m <;> first | rfl | exact absurd ⟨_, _, rfl⟩ serves
    rw [passes]
    exact pass_accounted accounted fun peer late same => serves ⟨peer, late, same⟩

theorem run_accounted {h : Attendance} (accounted : h.Accounted) (moves : List Move) :
    (h.run moves).Accounted := by
  induction moves generalizing h with
  | nil => exact accounted
  | cons m rest ih => exact ih (step_accounted accounted m)

/-! From the start on -/

theorem startKeeps_deserted :
    Broker.StartKeeps fun b => b.stage? = (fun _ => none) ∧ b.handle? = fun _ => none where
  added _ deserted := deserted
  subscribed deserted done :=
    have same := Broker.subscribe_stays done
    ⟨same.stage?.trans deserted.1, same.handle?.trans deserted.2⟩
  recorded deserted done :=
    have same := Broker.persist_stays done
    ⟨same.stage?.trans deserted.1, same.handle?.trans deserted.2⟩
  enrolled := by
    intro b b' id uid deserted done
    simp only [Broker.enroll] at done
    split at done
    · cases done
      exact deserted
    · simp only [bind_eq_ok, mapError_eq_ok] at done
      obtain ⟨⟨storage, h⟩, _, _, emptied, done⟩ := done
      cases emptied
      cases done
      exact deserted
  deleted deserted _ := deserted

theorem started_accounted {settings : Settings} {storage : Storage.Memory} {now : Nat}
    {clock : Int64} {fresh : Broker} (begun : start settings storage now clock = .ok fresh) :
    (started fresh).Accounted := by
  obtain ⟨links, connections⟩ := startKeeps_deserted.start (fun _ _ => ⟨rfl, rfl⟩) begun
  have nobody : ∀ peer c, (started fresh).broker.attended peer ≠ some c := by
    intro peer c there
    rw [Broker.attended, started, links] at there
    cases there
  have numbered : fresh.Numbered := by
    refine
      ⟨fresh.keyed_iff.mpr fun conn id known => ?_, fun conn known => ?_, fun peer known => ?_⟩
    · rw [Broker.number?, connections] at known
      cases known
    · rw [connections] at known
      cases known
    · rw [links] at known
      cases known
  refine ⟨⟨numbered, ?_, List.nodup_nil, ?_, ?_⟩, ?_, ?_, ?_, List.nodup_nil, ?_, fun _ => rfl, ?_⟩
  case refine_4 => exact fun peer c there => absurd there (nobody peer c)
  case refine_5 => exact fun peer _ c _ there => absurd there (nobody peer c)
  all_goals simp [started]

theorem filter_key {α κ : Type} [DecidableEq κ] {key : α → κ} {l : List α}
    (distinct : (l.map key).Nodup) {a : α} (member : a ∈ l) :
    l.filter (fun x => key x = key a) = [a] := by
  induction l with
  | nil => cases member
  | cons x rest ih =>
      obtain ⟨new, distinct⟩ := List.nodup_cons.mp distinct
      rcases List.mem_cons.mp member with rfl | later
      · have none : rest.filter (fun x => key x = key a) = [] := by
          refine List.filter_eq_nil_iff.mpr fun x inside same => new ?_
          exact (of_decide_eq_true same) ▸ List.mem_map_of_mem inside
        simp [none]
      · have different : key x ≠ key a := fun same => new (same ▸ List.mem_map_of_mem later)
        simp [different, ih distinct later]

theorem Accounted.wills_filter {h : Attendance} (accounted : h.Accounted) (conn : ConnectionId) :
    h.willsOf conn = (h.parted.filter fun t => t.client.conn = conn).flatMap Parting.messages := by
  rw [accounted.wills]
  induction h.parted with
  | nil => rfl
  | cons t rest ih =>
      rw [List.flatMap_cons, ih, List.filter_cons]
      by_cases own : t.client.conn = conn
      · simp [own]
      · simp [own]

/-- Whoever has been accepted is being served, and its will has not been published; or its
connection has ended once, and its will has been published once if the client had not sent
DISCONNECT, no other connection had resumed its session and the broker was not shutting down, and
else not at all. Nobody who was not accepted has a will published, and everything else is published
by clients or by the program, or has been retained. -/
theorem wills_published {settings : Settings} {storage : Storage.Memory} {now : Nat}
    {clock : Int64} {fresh : Broker} (begun : start settings storage now clock = .ok fresh)
    (moves : List Move) :
    let h := (started fresh).run moves
    (∀ c ∈ h.accepted,
      (∃ peer, h.broker.attended peer = some c) ∧
          (h.parted.filter fun t => t.client.conn = c.conn) = [] ∧ h.willsOf c.conn = [] ∨
        (∀ peer, h.broker.attended peer ≠ some c) ∧ ∃ t, t.client = c ∧
          (h.parted.filter fun t => t.client.conn = c.conn) = [t] ∧
          h.willsOf c.conn =
            if t.graceful || t.overtaken || t.down then []
            else (c.will.map fun w => (w.toPublish t.clock).announced).toList) ∧
      (∀ conn, (∀ c ∈ h.accepted, c.conn ≠ conn) → h.willsOf conn = []) ∧
      ∀ e ∈ h.entered, e.1.Explains e.2 := by
  intro h
  have accounted : h.Accounted := run_accounted (started_accounted begun) moves
  refine ⟨fun c member => ?_, fun conn stranger => ?_, accounted.explained⟩
  · by_cases there : ∃ peer, h.broker.attended peer = some c
    · obtain ⟨peer, there⟩ := there
      obtain ⟨_, notGone⟩ := accounted.attended peer c there
      have none : (h.parted.filter fun t => t.client.conn = c.conn) = [] :=
        List.filter_eq_nil_iff.mpr fun t gone same => notGone t gone (of_decide_eq_true same)
      refine Or.inl ⟨⟨peer, there⟩, none, ?_⟩
      rw [accounted.wills_filter, none, List.flatMap_nil]
    · obtain ⟨t, gone, rfl⟩ := (accounted.present c member).resolve_right there
      have once := filter_key accounted.once gone
      refine Or.inr ⟨fun peer here => there ⟨peer, here⟩, t, rfl, once, ?_⟩
      rw [accounted.wills_filter, once, List.flatMap_singleton]
      rfl
  · rw [accounted.wills_filter]
    have none : (h.parted.filter fun t => t.client.conn = conn) = [] :=
      List.filter_eq_nil_iff.mpr fun t gone same =>
        stranger t.client (accounted.parted t gone) (of_decide_eq_true same)
    rw [none, List.flatMap_nil]

theorem run_broker (h : Attendance) (moves : List Move) :
    (h.run moves).broker = moves.foldl Broker.moved h.broker := by
  induction moves generalizing h with
  | nil => rfl
  | cons m rest ih =>
      have one : (h.step m).broker = h.broker.moved m := by
        cases m with
        | serve peer late =>
            simp only [step, Broker.moved]
            cases h.broker.peers.get? peer <;> rfl
        | _ => rfl
      refine (ih _).trans ?_
      rw [one]
      rfl

/-- Whatever a broker goes through in time, and when it is shut down, can be accounted for. -/
theorem run_comes {b b' : Broker} (comes : b.Comes b') :
    ∃ moves, ((started b).run moves).broker = b' := by
  obtain ⟨moves, rfl⟩ := comes
  exact ⟨moves, run_broker (started b) moves⟩

/-! One client after the other connects with the same id, and the second link breaks -/

def lastWill : LastWill := { qos := .atMostOnce, retain := false, topic := "gone", message := [1] }

def connectWithWill : Connect := { Broker.connectAsAnybody false with lastWill := some lastWill }

def meeting : List Move :=
  [.openLink "first" none "", .receive 0 (.connect connectWithWill), .serve 0 false,
    .openLink "second" none "", .receive 1 (.connect connectWithWill), .serve 1 false,
    .serve 0 false, .serve 1 false, .breakLink 1, .serve 1 false]

theorem meeting_wills : start Broker.openHouse {} 0 0 = .ok (.new Broker.openHouse {} 0 0) ∧
    ∃ c c', ((started (.new Broker.openHouse {} 0 0)).run meeting).accepted = [c, c'] ∧
      ((started (.new Broker.openHouse {} 0 0)).run meeting).willsOf c.conn = [] ∧
      ((started (.new Broker.openHouse {} 0 0)).run meeting).willsOf c'.conn =
        [(lastWill.toPublish 0).announced] := by
  have begun : start Broker.openHouse {} 0 0 = .ok (.new Broker.openHouse {} 0 0) := rfl
  obtain ⟨settled, _, _⟩ := wills_published begun meeting
  have happened : ∃ c c' t t',
      ((started (.new Broker.openHouse {} 0 0)).run meeting).accepted = [c, c'] ∧
      (((started (.new Broker.openHouse {} 0 0)).run meeting).parted.filter fun t =>
        t.client.conn = c.conn) = [t] ∧ t.overtaken = true ∧
      (((started (.new Broker.openHouse {} 0 0)).run meeting).parted.filter fun t =>
        t.client.conn = c'.conn) = [t'] ∧
      (t'.graceful || t'.overtaken || t'.down) = false ∧ c'.will = some lastWill ∧ t'.clock = 0 :=
    ⟨_, _, _, _, rfl, rfl, rfl, rfl, rfl, rfl, rfl⟩
  obtain ⟨c, c', t, t', accepted, gone, overtaken, lost, alone, will, clock⟩ := happened
  refine ⟨begun, c, c', accepted, ?_, ?_⟩
  · rcases settled c (by simp [accepted]) with ⟨_, none, _⟩ | ⟨_, own, _, once, wills⟩
    · cases none.symm.trans gone
    · cases once.symm.trans gone
      simp [wills, overtaken]
  · rcases settled c' (by simp [accepted]) with ⟨_, none, _⟩ | ⟨_, own, _, once, wills⟩
    · cases none.symm.trans lost
    · cases once.symm.trans lost
      simp [wills, alone, will, clock]

end Attendance

end MqttBroker
