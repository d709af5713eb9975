import MqttBroker.Proofs.Grammar

/-!
Topics and their texts. A topic is written as the text it was read from. The topics that some text
is read as are those whose levels are told from each other by their texts and places.
-/

namespace MqttBroker

namespace Text

def Literal (text : String) : Prop := ∀ c ∈ text.toList, c ≠ '/' ∧ c ≠ '+' ∧ c ≠ '#'

instance (text : String) : Decidable (Literal text) :=
  List.decidableBAll (fun c => c ≠ '/' ∧ c ≠ '+' ∧ c ≠ '#') text.toList

theorem literal_iff {text : String} : Literal text ↔ '/' ∉ text.toList ∧ Plain text := by
  constructor
  · intro literal
    exact ⟨fun slash => (literal '/' slash).1 rfl, fun c within => (literal c within).2⟩
  · rintro ⟨whole, plain⟩ c within
    exact ⟨fun slash => whole (slash ▸ within), plain c within⟩

end Text

namespace Level

def Legible (first : Bool) : Level → Prop
  | .normal text => text ≠ "" ∧ Text.Literal text ∧ (first = true → text.toList.head? ≠ some '$')
  | .metadata text => first = true ∧ text.toList.head? = some '$' ∧ Text.Literal text
  | _ => True

theorem unmixed_of_plain {segment : String} (plain : Text.Plain segment) : Unmixed segment := by
  rintro (single | multi)
  · exact absurd rfl (plain '+' single).1
  · exact absurd rfl (plain '#' multi).2

theorem classify_plain {segment : String} (plain : Text.Plain segment) (first : Bool) :
    classify first segment = ofSegment first segment := by
  have parsed := parse_plain plain first
  exact (parse_eq_ok_iff.mp parsed).2.symm

theorem legible_classify {first : Bool} {segment : String} (whole : '/' ∉ segment.toList)
    (unmixed : Unmixed segment) : (classify first segment).Legible first := by
  unfold classify
  split
  · trivial
  · rename_i single
    split
    · trivial
    · rename_i multi
      have literal : Text.Literal segment :=
        Text.literal_iff.mpr ⟨whole, plain_of_unmixed unmixed single multi⟩
      unfold ofSegment
      split
      · trivial
      · rename_i filled
        split
        · rename_i shown
          simp only [Bool.and_eq_true, hidden, decide_eq_true_eq] at shown
          exact ⟨shown.1, shown.2, literal⟩
        · rename_i shown
          simp only [Bool.and_eq_true, hidden, decide_eq_true_eq, not_and] at shown
          exact ⟨filled, literal, shown⟩

theorem Legible.reads {first : Bool} {level : Level} (legible : level.Legible first) :
    '/' ∉ level.display.toList ∧ Unmixed level.display ∧
      classify first level.display = level := by
  cases level with
  | normal text =>
      obtain ⟨filled, literal, shown⟩ := legible
      obtain ⟨whole, plain⟩ := Text.literal_iff.mp literal
      refine ⟨whole, unmixed_of_plain plain, (classify_plain plain first).trans ?_⟩
      simpa [ofSegment, filled, hidden] using shown
  | metadata text =>
      obtain ⟨rfl, shown, literal⟩ := legible
      obtain ⟨whole, plain⟩ := Text.literal_iff.mp literal
      have some : hidden text = true := decide_eq_true shown
      refine ⟨whole, unmixed_of_plain plain, (classify_plain plain true).trans ?_⟩
      simp [ofSegment, hidden_ne_empty some, some]
  | blank => cases first <;> decide
  | single => cases first <;> decide
  | multi => cases first <;> decide

end Level

namespace Topic

/-- Levels that are read from the text they are written as: there is one at least, each shows what
it is where it stands, and `#` stands last. -/
structure Legible (levels : List Level) : Prop where
  filled : levels ≠ []
  each : ∀ (i : Nat) (level : Level), levels[i]? = some level → level.Legible (i == 0)
  last : ∀ i, levels[i]? = some .multi → i + 1 = levels.length

theorem legible_of_parse {text : String} {topic : Topic} (parsed : parse text = .ok topic) :
    Legible topic.levels := by
  obtain ⟨unmixed, last, rfl⟩ := parse_eq_ok_iff.mp parsed
  have place (i : Nat) : (classifyAll true (Text.splitAll '/' text))[i]? =
      (Text.splitAll '/' text)[i]?.map (Level.classify (i == 0)) := by
    simp [classifyAll]
  constructor
  · intro empty
    exact Text.splitAll_ne_nil '/' text (by simpa [classifyAll] using empty)
  · intro i level found
    rw [place] at found
    obtain ⟨segment, cut, rfl⟩ := Option.map_eq_some_iff.mp found
    have member := List.mem_of_getElem? cut
    exact Level.legible_classify (Text.not_mem_of_mem_splitAll member) (unmixed segment member)
  · intro i found
    rw [place] at found
    obtain ⟨segment, cut, multi⟩ := Option.map_eq_some_iff.mp found
    rw [Level.classify_eq_multi.mp multi] at cut
    simpa [classifyAll] using last i cut

theorem Legible.parse_display {topic : Topic} (legible : Legible topic.levels) :
    parse topic.display = .ok topic := by
  have reads (level : Level) (member : level ∈ topic.levels) :
      '/' ∉ level.display.toList ∧ Level.Unmixed level.display := by
    obtain ⟨i, found⟩ := List.getElem?_of_mem member
    have shown := (legible.each i level found).reads
    exact ⟨shown.1, shown.2.1⟩
  have cut : Text.splitAll '/' topic.display = topic.levels.map Level.display := by
    apply Text.splitAll_joinAll
    · simpa using legible.filled
    · simpa using fun level member => (reads level member).1
  rw [parse_eq_ok_iff, cut]
  refine ⟨by simpa using fun level member => (reads level member).2, ?_, ?_⟩
  · intro i found
    rw [List.getElem?_map] at found
    obtain ⟨level, here, multi⟩ := Option.map_eq_some_iff.mp found
    have same := (legible.each i level here).reads.2.2
    rw [multi, Level.classify_eq_multi.mpr rfl] at same
    rw [List.length_map]
    exact legible.last i (same ▸ here)
  · have same : classifyAll true (topic.levels.map Level.display) = topic.levels := by
      apply List.ext_getElem?
      intro i
      simp only [classifyAll, List.getElem?_mapIdx, List.getElem?_map, Bool.true_and]
      cases here : topic.levels[i]? with
      | none => rfl
      | some level => exact congrArg some (legible.each i level here).reads.2.2
    rw [same]

theorem parse_display_iff {topic : Topic} :
    parse topic.display = .ok topic ↔ Legible topic.levels :=
  ⟨legible_of_parse, Legible.parse_display⟩

/-- A topic is written as the text it was read from, so no two texts are read as one topic. The
topics that are read from the text they are written as, and from any text at all, are those with
legible levels. -/
theorem written_as_read :
    (∀ text topic, parse text = .ok topic → topic.display = text) ∧
    (∀ topic : Topic, parse topic.display = .ok topic ↔ Legible topic.levels) ∧
    (∀ text other topic, parse text = .ok topic → parse other = .ok topic → text = other) ∧
    (∀ topic : Topic, (∃ text, parse text = .ok topic) ↔ Legible topic.levels) := by
  refine ⟨fun _ _ => parse_display, fun _ => parse_display_iff, fun _ _ _ => parse_injective, ?_⟩
  intro topic
  constructor
  · rintro ⟨text, parsed⟩
    exact legible_of_parse parsed
  · intro legible
    exact ⟨topic.display, legible.parse_display⟩

theorem systemTopic_written :
    Legible [.metadata "$SYS", .single, .blank, .multi] ∧
    parse "$SYS/+//#" = .ok ⟨[.metadata "$SYS", .single, .blank, .multi]⟩ ∧
    (⟨[.metadata "$SYS", .single, .blank, .multi]⟩ : Topic).display = "$SYS/+//#" ∧
    ¬∃ text, parse text = .ok ⟨[.normal "$SYS", .single, .blank, .multi]⟩ := by
  obtain ⟨written, reads, _, image⟩ := written_as_read
  have parsed : parse "$SYS/+//#" = .ok ⟨[.metadata "$SYS", .single, .blank, .multi]⟩ := by decide
  have display := written _ _ parsed
  refine ⟨(reads _).mp (display.symm ▸ parsed), parsed, display, fun found => ?_⟩
  have legible := (image _).mp found
  exact (legible.each 0 _ rfl).2.2 rfl (by decide)

end Topic

end MqttBroker
