import MqttBroker.Codec.Json
import MqttBroker.Proofs.Binary
import MqttBroker.Proofs.JsonText

/-!
Reading the records of sessions and of retained messages back. What was stored is loaded again, and
subscriptions come back as a table.
-/

namespace MqttBroker.Codec.Json

open JsonValue

theorem toQoS?_ofQoS (q : QoS) : toQoS? (ofQoS q) = some q := by
  cases q <;> decide

theorem asByte?_integer (byte : UInt8) : asByte? (.integer byte.toNat) = some byte := by
  have small : byte.toNat < 256 := byte.toNat_lt
  have bounds : (0 ≤ (byte.toNat : Int) && (byte.toNat : Int) < 256) = true := by
    simp only [Bool.and_eq_true, decide_eq_true_eq]
    omega
  rw [asByte?, if_pos bounds, Int.toNat_natCast, UInt8.ofNat_toNat]

theorem asBytes?_ofBytes (b : Bytes) : (ofBytes b).asBytes? = some b := by
  have read : b.mapM (asByte? ∘ fun byte => .integer byte.toNat) = some (b.map id) := by
    refine mapM_eq_pure fun byte _ => ?_
    rw [Function.comp_apply, asByte?_integer]
    rfl
  rw [ofBytes, asBytes?, List.mapM_map, read, List.map_id]

theorem toLastWill?_ofLastWill (w : LastWill) : toLastWill? (ofLastWill w) = some w := by
  have fields : (ofLastWill w).record? ["qos", "retain", "topic", "message"] 4 =
      some [some (ofQoS w.qos), some (.bool w.retain), some (.string w.topic),
        some (ofBytes w.message)] := rfl
  simp only [toLastWill?, fields, Option.bind_eq_bind, Option.bind_some, toQoS?_ofQoS, asBool?,
    asString?, asBytes?_ofBytes]
  rfl

theorem toPrincipal?_ofPrincipal (p : Principal) : toPrincipal? (ofPrincipal p) = some p := by
  cases p <;> rfl

theorem asOption?_ofOption {α : Type} {write : α → JsonValue} {read : JsonValue → Option α}
    (reads : ∀ a, read (write a) = some a) (solid : ∀ a, write a ≠ .null) (a : Option α) :
    asOption? read (ofOption write a) = some a := by
  cases a with
  | none => rfl
  | some a =>
      simp only [ofOption]
      unfold asOption?
      split
      · rename_i none
        exact absurd none (solid a)
      · rw [reads]
        rfl

theorem toSubscriptions?_ofSubscriptions (t : Table String QoS) :
    toSubscriptions? (ofSubscriptions t) = some (Table.ofList t) := by
  have entries : (t.map fun e => (e.1, ofQoS e.2)).mapM (fun e => do
      let qos ← toQoS? e.2
      return (e.1, qos)) = some t := by
    rw [List.mapM_map]
    refine (mapM_eq_pure fun e _ => ?_).trans (congrArg some (List.map_id t))
    rw [Function.comp_apply, toQoS?_ofQoS]
    rfl
  simp only [ofSubscriptions, toSubscriptions?, entries]
  rfl

theorem toSession?_ofSession (s : SessionInfo) :
    toSession? (ofSession s) = some { s with subscriptions := Table.ofList s.subscriptions } := by
  have fields : (ofSession s).record?
      ["id", "clean_session", "subscriptions", "will", "principal"] 2 =
        some [some (.string s.id), some (.bool s.cleanSession),
          some (ofSubscriptions s.subscriptions), some (ofOption ofLastWill s.will),
          some (ofOption ofPrincipal s.principal)] := rfl
  have will := asOption?_ofOption toLastWill?_ofLastWill (fun _ null => nomatch null) s.will
  have principal := asOption?_ofOption toPrincipal?_ofPrincipal
    (fun p null => by cases p <;> cases null) s.principal
  simp only [toSession?, fields, Option.bind_eq_bind, Option.bind_some, asBool?, asString?,
    toSubscriptions?_ofSubscriptions, Option.getD_some, will, principal]
  rfl

/-! What is written is plain text -/

theorem ofOption_plain {α : Type} {write : α → JsonValue} (plain : ∀ a, (write a).Plain)
    (a : Option α) : (ofOption write a).Plain := by
  cases a with
  | none => trivial
  | some a => exact plain a

theorem ofSubscriptions_plain (t : Table String QoS) : (ofSubscriptions t).Plain := by
  induction t with
  | nil => trivial
  | cons e rest ih => exact ⟨trivial, ih⟩

theorem ofBytes_plain (b : Bytes) : (ofBytes b).Plain := by
  induction b with
  | nil => trivial
  | cons byte rest ih => exact ⟨trivial, ih⟩

theorem ofLastWill_plain (w : LastWill) : (ofLastWill w).Plain :=
  ⟨trivial, trivial, trivial, ofBytes_plain w.message, trivial⟩

theorem ofPrincipal_plain (p : Principal) : (ofPrincipal p).Plain := by
  cases p <;> simp [ofPrincipal, Plain, FieldsPlain, FieldPlain]

theorem ofSession_plain (s : SessionInfo) : (ofSession s).Plain :=
  ⟨trivial, trivial, ofSubscriptions_plain s.subscriptions, ofOption_plain ofLastWill_plain s.will,
    ofOption_plain ofPrincipal_plain s.principal, trivial⟩

/-- A session is loaded from the record that was stored of it. -/
theorem load?_ofSession (s : SessionInfo) :
    load? toSession? (store (ofSession s)) =
      some { s with subscriptions := Table.ofList s.subscriptions } := by
  simp only [load?, store, utf8?_utf8, read?_text (ofSession_plain s), Option.bind_eq_bind,
    Option.bind_some, toSession?_ofSession]

/-! Records of retained messages -/

theorem toPacketId?_integer (id : PacketId) : toPacketId? (.integer id.val) = some id := by
  obtain ⟨val, pos, small⟩ := id
  have positive : (0 : Int) < val := by omega
  simp only [toPacketId?, asInt?, Option.bind_eq_bind, Option.bind_some, if_pos positive,
    Int.toNat_natCast, PacketId.ofNat?]
  exact dif_pos ⟨pos, small⟩

theorem toTime?_integer (time : Int64) : toTime? (.integer time.toInt) = some time := by
  have word : SignedWord.inRange time.toInt = true := by
    have above : SignedWord.low ≤ time.toInt := Int64.le_toInt time
    have below : time.toInt ≤ SignedWord.high := Int.lt_add_one_iff.mp (Int64.toInt_lt time)
    simpa [SignedWord.inRange] using ⟨above, below⟩
  simp only [toTime?, asInt?, Option.bind_eq_bind, Option.bind_some, if_pos word,
    Int64.ofInt_toInt]

theorem toPublish?_ofPublish (p : Publish) : toPublish? (ofPublish p) = some p := by
  have fields : (ofPublish p).record?
      ["dup", "retain", "qos", "topic", "packet_id", "payload", "create_time"] 7 =
        some [some (.bool p.dup), some (.bool p.retain), some (ofQoS p.qos),
          some (.string p.topic), some (ofOption (fun id => .integer id.val) p.packetId),
          some (ofBytes p.payload),
          some (ofOption (fun time => .integer time.toInt) p.createTime)] := rfl
  have packetId := asOption?_ofOption toPacketId?_integer (fun _ null => nomatch null) p.packetId
  have createTime := asOption?_ofOption toTime?_integer (fun _ null => nomatch null) p.createTime
  simp only [toPublish?, fields, Option.bind_eq_bind, Option.bind_some, toQoS?_ofQoS, asBool?,
    asString?, asBytes?_ofBytes, Option.getD_some, packetId, createTime]
  rfl

theorem toRetained?_ofRetained (r : RetainedRecord) : toRetained? (ofRetained r) = some r := by
  have fields : (ofRetained r).record? ["topic", "message"] 2 =
      some [some (.string r.topic), some (ofPublish r.message)] := rfl
  simp only [toRetained?, fields, Option.bind_eq_bind, Option.bind_some, asString?,
    toPublish?_ofPublish]
  rfl

theorem ofPublish_plain (p : Publish) : (ofPublish p).Plain := by
  have packetId : (ofOption (fun id : PacketId => .integer id.val) p.packetId).Plain := by
    cases p.packetId <;> trivial
  have createTime : (ofOption (fun time : Int64 => .integer time.toInt) p.createTime).Plain := by
    cases p.createTime <;> trivial
  exact ⟨trivial, trivial, trivial, trivial, packetId, ofBytes_plain p.payload, createTime, trivial⟩

/-- A retained message is loaded from the record that was stored of it. -/
theorem load?_ofRetained (r : RetainedRecord) : load? toRetained? (store (ofRetained r)) = some r := by
  have plain : (ofRetained r).Plain := ⟨trivial, ofPublish_plain r.message, trivial⟩
  simp only [load?, store, utf8?_utf8, read?_text plain, Option.bind_eq_bind, Option.bind_some,
    toRetained?_ofRetained]

end MqttBroker.Codec.Json
