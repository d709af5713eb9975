import MqttBroker.Proofs.Records
import MqttBroker.Proofs.Table

/-!
What is stored as JSON is read back as it was. A session is read as well from a record in which its
subscriptions, its will or its principal are missing, and then has none.
-/

namespace MqttBroker

namespace JsonValue

def without (omitted : List String) : JsonValue → JsonValue
  | .object fields => .object (fields.filter fun f => f.1 ∉ omitted)
  | v => v

theorem FieldsPlain.filter {fields : List (String × JsonValue)} (plain : FieldsPlain fields)
    (keep : String × JsonValue → Bool) : FieldsPlain (fields.filter keep) := by
  induction fields with
  | nil => trivial
  | cons field rest ih =>
      rw [List.filter_cons]
      split
      · exact ⟨plain.1, ih plain.2⟩
      · exact ih plain.2

theorem Plain.without {v : JsonValue} (plain : v.Plain) (omitted : List String) :
    (v.without omitted).Plain := by
  cases v with
  | object fields => exact FieldsPlain.filter plain _
  | _ => exact plain

theorem filter_name {fields : List (String × JsonValue)} (once : (fields.map Prod.fst).Nodup)
    {f : String × JsonValue} (member : f ∈ fields) :
    fields.filter (fun field => field.1 = f.1) = [f] := by
  induction fields with
  | nil => cases member
  | cons field rest ih =>
      obtain ⟨first, once⟩ := List.nodup_cons.mp once
      rcases List.mem_cons.mp member with rfl | later
      · have others : rest.filter (fun field => field.1 = f.1) = [] := by
          refine List.filter_eq_nil_iff.mpr fun other among => ?_
          rw [decide_eq_true_eq]
          intro same
          exact first (same ▸ List.mem_map_of_mem among)
        rw [List.filter_cons_of_pos (by simp), others]
      · have other : field.1 ≠ f.1 := fun same => first (same ▸ List.mem_map_of_mem later)
        rw [List.filter_cons_of_neg (by simpa using other), ih once later]

theorem record?_without {fields : List (String × JsonValue)}
    (once : (fields.map Prod.fst).Nodup) (omitted : List String) (required : Nat) :
    ((object fields).without omitted).record? (fields.map Prod.fst) required =
      some (fields.map fun f => if f.1 ∈ omitted then none else some f.2) := by
  have known : (fields.filter fun f => f.1 ∉ omitted).all
      (fun f => (fields.map Prod.fst).contains f.1 || f.2.isPassable) = true := by
    refine List.all_eq_true.mpr fun f among => ?_
    have member : f.1 ∈ fields.map Prod.fst := List.mem_map_of_mem (List.mem_filter.mp among).1
    simp [member]
  simp only [without, record?]
  rw [if_pos known, List.mapM_map]
  refine mapM_eq_pure fun f member => ?_
  have left : (fields.filter fun f => f.1 ∉ omitted).filter (fun field => field.1 = f.1) =
      [f].filter fun f => f.1 ∉ omitted := by
    rw [← filter_name once member]
    simp only [List.filter_filter, Bool.and_comm]
  rw [Function.comp_apply, left]
  by_cases out : f.1 ∈ omitted
  · rw [List.filter_cons_of_neg (by simpa using out), if_pos out]
    rfl
  · rw [List.filter_cons_of_pos (by simpa using out), if_neg out]
    rfl

end JsonValue

def SessionInfo.optionalFields : List String := ["subscriptions", "will", "principal"]

def SessionInfo.cleared (s : SessionInfo) (omitted : List String) : SessionInfo :=
  { s with
    subscriptions := if "subscriptions" ∈ omitted then [] else s.subscriptions
    will := if "will" ∈ omitted then none else s.will
    principal := if "principal" ∈ omitted then none else s.principal }

namespace Codec.Json

open JsonValue

theorem asOption?_omitted {α : Type} {write : α → JsonValue} {read : JsonValue → Option α}
    (reads : ∀ a, read (write a) = some a) (solid : ∀ a, write a ≠ .null) (omitted : Prop)
    [Decidable omitted] (a : Option α) :
    asOption? read ((if omitted then none else some (ofOption write a)).getD .null) =
      some (if omitted then none else a) := by
  split
  · rfl
  · exact asOption?_ofOption reads solid a

theorem toSession?_without {s : SessionInfo} (increasing : s.subscriptions.Increasing)
    {omitted : List String} (optional : omitted ⊆ SessionInfo.optionalFields) :
    toSession? ((ofSession s).without omitted) = some (s.cleared omitted) := by
  have required : ∀ name, name ∉ SessionInfo.optionalFields → name ∉ omitted :=
    fun _ other member => other (optional member)
  have fields : ((ofSession s).without omitted).record?
      ["id", "clean_session", "subscriptions", "will", "principal"] 2 = _ :=
    record?_without (by simp) omitted 2
  have will := asOption?_omitted toLastWill?_ofLastWill (fun _ null => nomatch null)
    ("will" ∈ omitted) s.will
  have principal := asOption?_omitted toPrincipal?_ofPrincipal
    (fun p null => by cases p <;> cases null) ("principal" ∈ omitted) s.principal
  simp only [toSession?, fields, List.map_cons, List.map_nil, if_neg (required "id" (by decide)),
    if_neg (required "clean_session" (by decide)), Option.bind_eq_bind, Option.bind_some, asString?,
    asBool?, will, principal]
  by_cases out : "subscriptions" ∈ omitted
  · simp only [SessionInfo.cleared, if_pos out]
    rfl
  · simp only [SessionInfo.cleared, if_neg out, toSubscriptions?_ofSubscriptions, increasing.ofList]
    rfl

theorem load?_without {s : SessionInfo} (increasing : s.subscriptions.Increasing)
    {omitted : List String} (optional : omitted ⊆ SessionInfo.optionalFields) :
    load? toSession? (store ((ofSession s).without omitted)) = some (s.cleared omitted) := by
  have plain := (ofSession_plain s).without omitted
  simp only [load?, store, utf8?_utf8, read?_text plain, Option.bind_eq_bind, Option.bind_some,
    toSession?_without increasing optional]

/-- What is stored of a session is loaded as that session, and what is stored of a retained message
as that message. Of a session's subscriptions, will and principal any may be missing from the
record, and the session that is loaded has none of those and all else. -/
theorem stored_loaded {s : SessionInfo} (increasing : s.subscriptions.Increasing)
    (r : RetainedRecord) :
    load? toSession? (store (ofSession s)) = some s ∧
    load? toRetained? (store (ofRetained r)) = some r ∧
    ∀ omitted ⊆ SessionInfo.optionalFields,
      load? toSession? (store ((ofSession s).without omitted)) = some (s.cleared omitted) := by
  refine ⟨?_, load?_ofRetained r, fun omitted optional => load?_without increasing optional⟩
  rw [load?_ofSession, increasing.ofList]

def quotedSession : SessionInfo where
  id := "a\"\\\n\x01ä"
  cleanSession := false
  subscriptions := [("\t/#", .atLeastOnce), ("a/+", .atMostOnce)]
  will := some { qos := .exactlyOnce, retain := true, topic := "\x7f", message := [0, 34, 255] }
  principal := some (.certificate "𝄞")

def quotedMessage : RetainedRecord where
  topic := "\"/\r"
  message := { retain := true, qos := .atLeastOnce, topic := "\"/\r", packetId := some .one,
               payload := [10, 0], createTime := some (-1) }

theorem quotedSession_loaded :
    quotedSession.subscriptions.Increasing ∧
      load? toSession? (store (ofSession quotedSession)) = some quotedSession ∧
      load? toRetained? (store (ofRetained quotedMessage)) = some quotedMessage ∧
      load? toSession? (store ((ofSession quotedSession).without ["will", "subscriptions"])) =
        some { quotedSession with subscriptions := [], will := none } := by
  have increasing : quotedSession.subscriptions.Increasing := by
    unfold Table.Increasing
    decide
  obtain ⟨whole, message, partly⟩ := stored_loaded increasing quotedMessage
  exact ⟨increasing, whole, message, partly ["will", "subscriptions"] (by decide)⟩

end Codec.Json

end MqttBroker
