import MqttBroker.Proofs.Binary

/-!
Every message has one binary form. A reader takes from the front of some bytes what its writer puts
there and nothing else, so a message is read from its own record alone, and no record begins
another.
-/

namespace MqttBroker

theorem utf8_of_utf8? {bytes : Bytes} {text : String} (read : utf8? bytes = some text) :
    utf8 text = bytes := by
  unfold utf8? String.fromUTF8? at read
  split at read
  · cases read
    rfl
  · cases read

theorem QoS.value_of_ofNat? {n : Nat} {q : QoS} (known : ofNat? n = some q) : q.value = n := by
  unfold ofNat? at known
  split at known
  all_goals cases known
  all_goals rfl

theorem PacketId.val_of_ofNat? {n : Nat} {id : PacketId} (valid : ofNat? n = some id) :
    id.val = n := by
  unfold ofNat? at valid
  split at valid
  · cases valid
    rfl
  · cases valid

namespace Codec.Binary

theorem takeNat_eq_some_iff {count n : Nat} {bytes rest : Bytes} :
    takeNat count bytes = some (n, rest) ↔ n < 256 ^ count ∧ bytes = putNat count n ++ rest := by
  constructor
  · intro read
    induction count generalizing bytes n rest with
    | zero =>
        cases read
        exact ⟨Nat.one_pos, rfl⟩
    | succ count ih =>
        cases bytes with
        | nil => cases read
        | cons b bytes =>
            simp only [takeNat, Option.bind_eq_bind, Option.bind_eq_some_iff, Prod.exists] at read
            obtain ⟨high, behind, others, same⟩ := read
            cases same
            obtain ⟨below, rfl⟩ := ih others
            have byte : b.toNat < 256 := b.toNat_lt
            have lowest : (b.toNat + 256 * high) % 256 = b.toNat := by omega
            have higher : (b.toNat + 256 * high) / 256 = high := by omega
            constructor
            · rw [Nat.pow_succ]
              omega
            · rw [putNat, lowest, higher, UInt8.ofNat_toNat]
              rfl
  · rintro ⟨below, rfl⟩
    exact takeNat_putNat count n rest below

theorem takeBool_eq_some_iff {b : Bool} {bytes rest : Bytes} :
    takeBool bytes = some (b, rest) ↔ bytes = putBool b ++ rest := by
  constructor
  · intro read
    unfold takeBool at read
    split at read
    all_goals cases read
    all_goals rfl
  · rintro rfl
    exact takeBool_putBool b rest

theorem takeBytes_eq_some_iff {taken bytes rest : Bytes} :
    takeBytes bytes = some (taken, rest) ↔
      taken.length < Word.bound ∧ bytes = putBytes taken ++ rest := by
  constructor
  · intro read
    simp only [takeBytes, Option.bind_eq_bind, Option.bind_eq_some_iff, Prod.exists] at read
    obtain ⟨length, behind, counted, read⟩ := read
    obtain ⟨below, rfl⟩ := takeNat_eq_some_iff.mp counted
    split at read
    · cases read
    · rename_i enough
      cases read
      have size : (behind.take length).length = length :=
        List.length_take_of_le (Nat.le_of_not_lt enough)
      constructor
      · rw [size]
        exact below
      · rw [putBytes, size, List.append_assoc, List.take_append_drop]
  · rintro ⟨below, rfl⟩
    exact takeBytes_putBytes taken rest below

theorem takeOption_eq_some_iff {α : Type} {put : α → Bytes} {take : Bytes → Option (α × Bytes)}
    (own : ∀ {a bytes rest}, take bytes = some (a, rest) ↔ bytes = put a ++ rest)
    {a : Option α} {bytes rest : Bytes} :
    takeOption take bytes = some (a, rest) ↔ bytes = putOption put a ++ rest := by
  constructor
  · intro read
    unfold takeOption at read
    split at read
    · cases read
      rfl
    · obtain ⟨⟨value, behind⟩, taken, same⟩ := Option.map_eq_some_iff.mp read
      cases same
      rw [putOption, own.mp taken]
      rfl
    · cases read
  · rintro rfl
    exact takeOption_putOption (fun _ _ => own.mpr rfl) a rest

theorem takeId_eq_some_iff {id : PacketId} {bytes rest : Bytes} :
    takeId bytes = some (id, rest) ↔ bytes = putId id ++ rest := by
  constructor
  · intro read
    simp only [takeId, Option.bind_eq_bind, Option.bind_eq_some_iff, Prod.exists] at read
    obtain ⟨n, behind, taken, known, valid, same⟩ := read
    cases same
    rw [putId, PacketId.val_of_ofNat? valid]
    exact (takeNat_eq_some_iff.mp taken).2
  · rintro rfl
    exact takeId_putId id rest

theorem takeTime_eq_some_iff {time : Int64} {bytes rest : Bytes} :
    takeTime bytes = some (time, rest) ↔ bytes = putTime time ++ rest := by
  constructor
  · intro read
    simp only [takeTime, Option.bind_eq_bind, Option.bind_eq_some_iff, Prod.exists] at read
    obtain ⟨n, behind, taken, same⟩ := read
    cases same
    obtain ⟨word, rfl⟩ := takeNat_eq_some_iff.mp taken
    rw [putTime, UInt64.toUInt64_toInt64, UInt64.toNat_ofNat_of_lt' word]
  · rintro rfl
    exact takeTime_putTime time rest

/-- A message is read from its own form and from no other bytes. -/
theorem decode_eq_some_iff {bytes : Bytes} {p : Publish} {rest : Bytes} :
    decode bytes = some (p, rest) ↔ p.Sized ∧ bytes = encode p ++ rest := by
  constructor
  · intro read
    simp only [decode, Option.bind_eq_bind, Option.bind_eq_some_iff, Prod.exists,
      takeBool_eq_some_iff, takeNat_eq_some_iff, takeBytes_eq_some_iff,
      takeOption_eq_some_iff takeId_eq_some_iff, takeOption_eq_some_iff takeTime_eq_some_iff]
      at read
    obtain ⟨dup, _, rfl, retain, _, rfl, tag, _, ⟨_, rfl⟩, qos, known, name, _, ⟨named, rfl⟩, topic,
      text, packetId, _, rfl, payload, _, ⟨sized, rfl⟩, createTime, _, rfl, same⟩ := read
    cases same
    have written := utf8_of_utf8? text
    constructor
    · exact ⟨written ▸ named, sized⟩
    · simp only [encode, QoS.value_of_ofNat? known, written, List.append_assoc]
  · rintro ⟨sized, rfl⟩
    exact decode_encode_append p sized rest

theorem encode_append_injective {p q : Publish} (sized : p.Sized) (sized' : q.Sized)
    {rest rest' : Bytes} (same : encode p ++ rest = encode q ++ rest') : p = q ∧ rest = rest' := by
  have read := decode_encode_append p sized rest
  rw [same, decode_encode_append q sized' rest'] at read
  cases read
  exact ⟨rfl, rfl⟩

/-- A message is read from the bytes that begin with its form, whatever follows, and from no others.
So the form of one message does not begin that of another, and what is read as the same message are
the same bytes, up to what follows them. -/
theorem records_canonical :
    (∀ bytes p rest, decode bytes = some (p, rest) ↔ p.Sized ∧ bytes = encode p ++ rest) ∧
    (∀ p q : Publish, p.Sized → q.Sized → encode p <+: encode q → p = q) ∧
    (∀ bytes bytes' p rest rest', decode bytes = some (p, rest) →
      decode bytes' = some (p, rest') →
        ∃ record, bytes = record ++ rest ∧ bytes' = record ++ rest') := by
  refine ⟨fun bytes p rest => decode_eq_some_iff, fun p q sized sized' begins => ?_, ?_⟩
  · obtain ⟨rest, same⟩ := begins
    rw [← List.append_nil (encode q)] at same
    exact (encode_append_injective sized sized' same).1
  · intro bytes bytes' p rest rest' read read'
    exact ⟨encode p, (decode_eq_some_iff.mp read).2, (decode_eq_some_iff.mp read').2⟩

def answer : Publish :=
  { dup := true, qos := .exactlyOnce, topic := "ä/b", packetId := some .one, payload := [0, 255],
    createTime := some (-1) }

theorem answer_canonical :
    answer.Sized ∧ decode (encode answer ++ [7]) = some (answer, [7]) ∧
      ¬encode answer <+: encode { answer with retain := true } := by
  obtain ⟨reads, begins, _⟩ := records_canonical
  have sized : answer.Sized := ⟨by decide, by decide⟩
  refine ⟨sized, (reads _ _ _).mpr ⟨sized, rfl⟩, fun start => ?_⟩
  have same := begins answer { answer with retain := true } sized ⟨sized.topic, sized.payload⟩ start
  cases congrArg Publish.retain same

example : decode ((encode answer).set 19 0) = none := by decide

end Codec.Binary

end MqttBroker
