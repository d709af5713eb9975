import MqttBroker.Proofs.Inclusion
import MqttBroker.Proofs.Places

/-!
The grammar of topics. A topic is read if its text is short, clean and cut into few segments in
which wildcards stand alone, `#` last; each segment gives one level.
-/

namespace MqttBroker

namespace Text

structure Separated (sep : Char) (parts : List String) (text : String) : Prop where
  filled : parts ≠ []
  whole : ∀ part ∈ parts, sep ∉ part.toList
  joined : joinAll sep parts = text

theorem separated_iff {sep : Char} {parts : List String} {text : String} :
    Separated sep parts text ↔ parts = splitAll sep text := by
  constructor
  · rintro ⟨filled, whole, rfl⟩
    exact (splitAll_joinAll filled whole).symm
  · rintro rfl
    exact ⟨splitAll_ne_nil sep text, fun _ => not_mem_of_mem_splitAll, joinAll_splitAll sep text⟩

end Text

namespace Level

/-- Wildcards stand alone in a segment. -/
def Unmixed (segment : String) : Prop :=
  '+' ∈ segment.toList ∨ '#' ∈ segment.toList → segment = "+" ∨ segment = "#"

instance (segment : String) : Decidable (Unmixed segment) :=
  inferInstanceAs (Decidable (_ ∨ _ → _ ∨ _))

def classify (first : Bool) (segment : String) : Level :=
  if segment = "+" then .single
  else if segment = "#" then .multi
  else ofSegment first segment

theorem plain_of_unmixed {segment : String} (unmixed : Unmixed segment)
    (single : segment ≠ "+") (multi : segment ≠ "#") : Text.Plain segment := by
  intro c within
  constructor
  · rintro rfl
    exact (unmixed (Or.inl within)).elim single multi
  · rintro rfl
    exact (unmixed (Or.inr within)).elim single multi

theorem parse_unmixed {first : Bool} {segment : String} {level : Level}
    (parsed : parse first segment = .ok level) : Unmixed segment := by
  intro some
  by_contra neither
  rw [not_or] at neither
  have mixed : segment.toList.any (fun c => c = '+' || c = '#') = true := by
    rw [List.any_eq_true]
    rcases some with one | one
    · exact ⟨'+', one, rfl⟩
    · exact ⟨'#', one, rfl⟩
  have filled : segment ≠ "" := by
    rintro rfl
    exact some.elim List.not_mem_nil List.not_mem_nil
  simp [parse, neither, filled, mixed] at parsed

theorem parse_eq_ok_iff {first : Bool} {segment : String} {level : Level} :
    parse first segment = .ok level ↔ Unmixed segment ∧ level = classify first segment := by
  have classified (unmixed : Unmixed segment) :
      parse first segment = .ok (classify first segment) := by
    unfold classify
    by_cases single : segment = "+"
    · simp [parse, single]
    · by_cases multi : segment = "#"
      · simp [parse, multi]
      · rw [if_neg single, if_neg multi]
        exact parse_plain (plain_of_unmixed unmixed single multi) first
  constructor
  · intro parsed
    have unmixed := parse_unmixed parsed
    rw [classified unmixed] at parsed
    exact ⟨unmixed, (Except.ok.inj parsed).symm⟩
  · rintro ⟨unmixed, rfl⟩
    exact classified unmixed

theorem classify_eq_multi {first : Bool} {segment : String} :
    classify first segment = .multi ↔ segment = "#" := by
  unfold classify
  split
  · rename_i single
    simp [single]
  · split
    · rename_i multi
      simp [multi]
    · rename_i other
      simp [other, ofSegment_ne_multi]

theorem isWildcard_classify {first : Bool} {segment : String} :
    (classify first segment).isWildcard = true ↔ segment = "+" ∨ segment = "#" := by
  unfold classify
  split
  · rename_i single
    simp [single, isWildcard]
  · rename_i other
    split
    · rename_i multi
      simp [multi, isWildcard]
    · rename_i further
      simp only [other, further, or_self, iff_false]
      unfold ofSegment
      split
      · simp [isWildcard]
      · split <;> simp [isWildcard]

end Level

namespace Topic

def classifyAll (first : Bool) (segments : List String) : List Level :=
  segments.mapIdx fun i segment => Level.classify (first && i == 0) segment

theorem parseLevels_iff {first : Bool} {segments : List String} {levels : List Level} :
    parseLevels first segments = .ok levels ↔ (∀ segment ∈ segments, Level.Unmixed segment) ∧
      levels = classifyAll first segments := by
  induction segments generalizing first levels with
  | nil => simp [parseLevels, classifyAll, eq_comm]
  | cons segment rest ih =>
      simp only [parseLevels, bind_eq_ok, Level.parse_eq_ok_iff, ih, List.forall_mem_cons,
        classifyAll, List.mapIdx_cons]
      constructor
      · rintro ⟨_, ⟨own, rfl⟩, _, ⟨others, rfl⟩, same⟩
        cases same
        exact ⟨⟨own, others⟩, by simp⟩
      · rintro ⟨⟨own, others⟩, rfl⟩
        exact ⟨_, ⟨own, rfl⟩, _, ⟨others, rfl⟩, by simp; rfl⟩

theorem multi_mem_dropLast {first : Bool} {segments : List String} :
    .multi ∈ (classifyAll first segments).dropLast ↔
      ∃ i, i + 1 < segments.length ∧ segments[i]? = some "#" := by
  simp only [List.mem_iff_getElem?, List.getElem?_dropLast, classifyAll, List.getElem?_mapIdx,
    List.length_mapIdx, Nat.lt_sub_iff_add_lt]
  apply exists_congr
  intro i
  split
  · rename_i inside
    simp only [inside, true_and, Option.map_eq_some_iff, Level.classify_eq_multi]
    exact ⟨fun ⟨_, found, same⟩ => same ▸ found, fun found => ⟨"#", found, rfl⟩⟩
  · rename_i outside
    simp [outside]

theorem any_isWildcard {first : Bool} {segments : List String} :
    (classifyAll first segments).any Level.isWildcard = true ↔
      ∃ segment ∈ segments, segment = "+" ∨ segment = "#" := by
  simp only [List.any_eq_true, classifyAll, List.mem_mapIdx]
  constructor
  · rintro ⟨_, ⟨i, inside, rfl⟩, wild⟩
    exact ⟨segments[i], List.getElem_mem inside, Level.isWildcard_classify.mp wild⟩
  · rintro ⟨segment, member, wild⟩
    obtain ⟨i, inside, rfl⟩ := List.getElem_of_mem member
    exact ⟨_, ⟨i, inside, rfl⟩, Level.isWildcard_classify.mpr wild⟩

theorem parse_eq_ok_iff {text : String} {topic : Topic} :
    parse text = .ok topic ↔
      (∀ segment ∈ Text.splitAll '/' text, Level.Unmixed segment) ∧
      (∀ i, (Text.splitAll '/' text)[i]? = some "#" → i + 1 = (Text.splitAll '/' text).length) ∧
      topic = ⟨classifyAll true (Text.splitAll '/' text)⟩ := by
  have last : (classifyAll true (Text.splitAll '/' text)).dropLast.contains .multi = false ↔
      ∀ i, (Text.splitAll '/' text)[i]? = some "#" → i + 1 = (Text.splitAll '/' text).length := by
    rw [List.contains_eq_mem, decide_eq_false_iff_not, multi_mem_dropLast, not_exists]
    apply forall_congr'
    intro i
    rw [not_and', Nat.not_lt]
    refine forall_congr' fun found => ⟨fun above => ?_, fun same => same ▸ Nat.le_refl _⟩
    obtain ⟨inside, _⟩ := List.getElem?_eq_some_iff.mp found
    omega
  simp only [parse, bind_eq_ok, guard_eq_ok, parseLevels_iff]
  constructor
  · rintro ⟨_, ⟨unmixed, rfl⟩, single, same⟩
    cases same
    exact ⟨unmixed, last.mp (by simpa using single), rfl⟩
  · rintro ⟨unmixed, single, rfl⟩
    exact ⟨_, ⟨unmixed, rfl⟩, by simpa using last.mpr single, rfl⟩

structure Grammatical (text : String) (segments : List String) (wildcards : Bool) (most : Nat) :
    Prop where
  filled : text ≠ ""
  short : text.utf8ByteSize ≤ 255
  clean : '\x00' ∉ text.toList
  few : most = 0 ∨ segments.length ≤ most
  alone : ∀ segment ∈ segments, Level.Unmixed segment
  last : ∀ i, segments[i]? = some "#" → i + 1 = segments.length
  literal : wildcards = false → ∀ segment ∈ segments, segment ≠ "+" ∧ segment ≠ "#"

theorem validate_eq_ok_iff {text : String} {wildcards : Bool} {most : Nat} {topic : Topic} :
    validate text wildcards most = .ok topic ↔
      Grammatical text (Text.splitAll '/' text) wildcards most ∧
        topic = ⟨classifyAll true (Text.splitAll '/' text)⟩ := by
  have literal : (!wildcards && hasWildcard ⟨classifyAll true (Text.splitAll '/' text)⟩) = false ↔
      (wildcards = false → ∀ segment ∈ Text.splitAll '/' text, segment ≠ "+" ∧ segment ≠ "#") := by
    rw [hasWildcard, Bool.and_eq_false_imp, Bool.not_eq_true']
    apply forall_congr'
    intro _
    rw [← Bool.not_eq_true, any_isWildcard]
    simp only [not_exists, not_and, not_or]
  simp only [validate, bind_eq_ok, guard_eq_ok, parse_eq_ok_iff]
  constructor
  · rintro ⟨filled, short, clean, few, _, ⟨alone, last, rfl⟩, plain, same⟩
    cases same
    refine ⟨⟨filled, Nat.not_lt.mp short, by simpa using clean, ?_, alone, last,
      literal.mp (by simpa using plain)⟩, rfl⟩
    simp only [Bool.and_eq_true, decide_eq_true_eq, not_and, Nat.not_lt] at few
    exact most.eq_zero_or_pos.imp_right few
  · rintro ⟨grammatical, rfl⟩
    refine ⟨grammatical.filled, Nat.not_lt.mpr grammatical.short, by simpa using grammatical.clean,
      ?_, _, ⟨grammatical.alone, grammatical.last, rfl⟩,
      by simpa using literal.mpr grammatical.literal, rfl⟩
    simp only [Bool.and_eq_true, decide_eq_true_eq, not_and, Nat.not_lt]
    intro bounded
    exact grammatical.few.resolve_left (Nat.pos_iff_ne_zero.mp bounded)

/-- A text is cut at its slashes in one way, and it is accepted exactly if its segments follow the
grammar. The topic has one level for each segment and is written as the text. -/
theorem validate_accepts_grammar (text : String) (wildcards : Bool) (most : Nat) :
    ∃ segments, (∀ others, Text.Separated '/' others text ↔ others = segments) ∧
      ((∃ topic, validate text wildcards most = .ok topic) ↔
        Grammatical text segments wildcards most) ∧
      ∀ topic, validate text wildcards most = .ok topic →
        topic.levels = segments.mapIdx (fun i segment => Level.classify (i == 0) segment) ∧
          topic.display = text := by
  refine ⟨Text.splitAll '/' text, fun _ => Text.separated_iff, ?_, ?_⟩
  · simp only [validate_eq_ok_iff, exists_and_left, exists_eq, and_true]
  · intro topic accepted
    obtain ⟨parsed, _⟩ := validate_ok accepted
    obtain ⟨_, rfl⟩ := validate_eq_ok_iff.mp accepted
    exact ⟨rfl, parse_display parsed⟩

theorem anyPlayer_accepted :
    (∃ topic, validate "sport/+/player1/#" true 4 = .ok topic ∧
      topic.levels = [.normal "sport", .single, .normal "player1", .multi] ∧
      topic.display = "sport/+/player1/#") ∧
    ¬∃ topic, validate "sport/#/player1/+" true 4 = .ok topic := by
  constructor
  · obtain ⟨segments, cut, accepted, written⟩ :=
      validate_accepts_grammar "sport/+/player1/#" true 4
    have same : ["sport", "+", "player1", "#"] = segments := (cut _).mp
      { filled := by decide, whole := by decide, joined := by decide }
    subst same
    have last : ∀ i, ["sport", "+", "player1", "#"][i]? = some "#" → i + 1 = 4
      | 0 | 1 | 2 => by decide
      | 3 => fun _ => rfl
      | _ + 4 => nofun
    obtain ⟨topic, valid⟩ := accepted.mpr
      { filled := by decide, short := by decide, clean := by decide, few := by decide,
        alone := by decide, last := last, literal := nofun }
    exact ⟨topic, valid, (written topic valid).1.trans (by decide), (written topic valid).2⟩
  · obtain ⟨segments, cut, accepted, _⟩ := validate_accepts_grammar "sport/#/player1/+" true 4
    have same : ["sport", "#", "player1", "+"] = segments := (cut _).mp
      { filled := by decide, whole := by decide, joined := by decide }
    subst same
    intro valid
    exact absurd ((accepted.mp valid).last 1 rfl) (by decide)

end Topic

end MqttBroker
