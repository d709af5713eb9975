import MqttBroker.Access.Permission
import MqttBroker.Proofs.TopicTree

/-!
Patterns that include filters, and the grants that are given by them. Who may subscribe to a filter
may subscribe to every topic that the filter selects, by the same pattern.
-/

namespace MqttBroker

namespace Text

def Plain (text : String) : Prop := ∀ c ∈ text.toList, c ≠ '+' ∧ c ≠ '#'

instance (text : String) : Decidable (Plain text) :=
  List.decidableBAll (fun c => c ≠ '+' ∧ c ≠ '#') text.toList

theorem mem_of_mem_pieces {sep c : Char} {chars piece : List Char}
    (member : piece ∈ pieces sep chars) (within : c ∈ piece) : c ∈ chars := by
  induction chars generalizing piece with
  | nil =>
      rw [pieces, List.mem_singleton] at member
      exact member ▸ within
  | cons first rest ih =>
      unfold pieces at member
      split at member
      · rcases List.mem_cons.mp member with rfl | later
        · cases within
        · exact List.mem_cons_of_mem first (ih later within)
      · split at member
        · rename_i none
          rw [pieces_takeWhile] at none
          cases none
        · rename_i head more split
          rcases List.mem_cons.mp member with rfl | later
          · rcases List.mem_cons.mp within with rfl | inside
            · exact List.mem_cons_self ..
            · exact List.mem_cons_of_mem first (ih (split ▸ List.mem_cons_self ..) inside)
          · exact List.mem_cons_of_mem first (ih (split ▸ List.mem_cons_of_mem head later) within)

theorem Plain.segments {text : String} (plain : Plain text) (sep : Char) :
    ∀ segment ∈ splitAll sep text, Plain segment := by
  intro segment member c within
  obtain ⟨piece, among, rfl⟩ := List.mem_map.mp member
  rw [String.toList_ofList] at within
  exact plain c (mem_of_mem_pieces among within)

end Text

namespace Level

def ofSegment (first : Bool) (segment : String) : Level :=
  if segment = "" then .blank
  else if first && hidden segment then .metadata segment
  else .normal segment

theorem parse_plain {segment : String} (plain : Text.Plain segment) (first : Bool) :
    parse first segment = .ok (ofSegment first segment) := by
  have single : segment ≠ "+" := by
    rintro rfl
    exact (plain '+' (by decide)).1 rfl
  have multi : segment ≠ "#" := by
    rintro rfl
    exact (plain '#' (by decide)).2 rfl
  have unmixed : segment.toList.any (fun c => c = '+' || c = '#') = false := by
    rw [List.any_eq_false]
    intro c within
    simp [plain c within]
  simp only [parse, ofSegment, if_neg single, if_neg multi, unmixed, Bool.false_eq_true, if_false]
  split
  · rfl
  · split <;> rfl

theorem hidden_ne_empty {text : String} (some : hidden text = true) : text ≠ "" := by
  rintro rfl
  cases some

theorem isMetadata_ofSegment (first : Bool) (segment : String) :
    (first && (ofSegment first segment).isMetadata) = (first && hidden segment) := by
  cases first with
  | false => rfl
  | true =>
      by_cases blank : segment = ""
      · subst blank
        rfl
      · cases shown : hidden segment <;> simp [ofSegment, blank, shown, isMetadata]

theorem ofSegment_ne_multi (first : Bool) (segment : String) : ofSegment first segment ≠ .multi := by
  unfold ofSegment
  split
  · exact nofun
  · split <;> exact nofun

theorem ofSegment_eq_iff {first : Bool} {segment text : String} {level : Level}
    (proper : level.Proper first) (literal : level.text? = some text) :
    ofSegment first segment = level ↔ segment = text := by
  cases level with
  | normal own =>
      obtain ⟨filled, shown⟩ := proper
      cases literal
      constructor
      · intro same
        unfold ofSegment at same
        split at same
        · cases same
        · split at same
          · cases same
          · exact Level.normal.inj same
      · rintro rfl
        simp [ofSegment, filled, shown]
  | metadata own =>
      obtain ⟨rfl, some⟩ := proper
      cases literal
      constructor
      · intro same
        unfold ofSegment at same
        split at same
        · cases same
        · split at same
          · exact Level.metadata.inj same
          · cases same
      · rintro rfl
        simp [ofSegment, hidden_ne_empty some, some]
  | _ => cases literal

theorem ofSegment_eq_blank (first : Bool) (segment : String) :
    ofSegment first segment = .blank ↔ segment = "" := by
  unfold ofSegment
  by_cases blank : segment = ""
  · simp [blank]
  · simp only [blank, if_false, iff_false]
    split <;> exact nofun

end Level

namespace Topic

def nameLevels : Bool → List String → List Level
  | _, [] => []
  | first, segment :: rest => Level.ofSegment first segment :: nameLevels false rest

theorem parseLevels_plain {segments : List String}
    (plain : ∀ segment ∈ segments, Text.Plain segment) (first : Bool) :
    parseLevels first segments = .ok (nameLevels first segments) := by
  induction segments generalizing first with
  | nil => rfl
  | cons segment rest ih =>
      have read := Level.parse_plain (plain segment (List.mem_cons_self ..)) first
      have others := ih (fun other later => plain other (List.mem_cons_of_mem segment later)) false
      simp only [parseLevels, read, others]
      rfl

theorem multi_not_mem_nameLevels (first : Bool) (segments : List String) :
    .multi ∉ nameLevels first segments := by
  induction segments generalizing first with
  | nil => exact List.not_mem_nil
  | cons segment rest ih =>
      intro member
      rcases List.mem_cons.mp member with here | later
      · exact Level.ofSegment_ne_multi first segment here.symm
      · exact ih false later

theorem parse_plain {text : String} (plain : Text.Plain text) :
    parse text = .ok ⟨nameLevels true (Text.splitAll '/' text)⟩ := by
  have read := parseLevels_plain (plain.segments '/') true
  have single : (nameLevels true (Text.splitAll '/' text)).dropLast.contains .multi = false := by
    rw [List.contains_eq_mem, decide_eq_false_iff_not]
    exact fun member => multi_not_mem_nameLevels true _ ((List.dropLast_sublist _).subset member)
  simp only [parse, bind_eq_ok, guard_eq_ok]
  exact ⟨_, read, by simpa using single, rfl⟩

theorem follows_hidden {first : Bool} {level : Level} {segment : String}
    (proper : level.Proper first) (leads : Branches.follows first level segment = true)
    (hidden : (first && Level.hidden segment) = true) : (first && level.isMetadata) = true := by
  obtain ⟨rfl, hidden⟩ := Bool.and_eq_true_iff.mp hidden
  cases level with
  | metadata text => rfl
  | multi => cases leads
  | single => simp [Branches.follows, hidden] at leads
  | normal text => simp [Branches.follows, hidden] at leads
  | blank =>
      have blank : segment = "" := by simpa [Branches.follows] using leads
      exact absurd blank (Level.hidden_ne_empty hidden)

theorem hidden_of_selects {first : Bool} {filter : List Level} {segments : List String}
    (fits : Fits first filter) (selects : matchesFrom first filter segments = true)
    (hidden : (first && segments.head?.any Level.hidden) = true) :
    (first && filter.head?.any Level.isMetadata) = true := by
  cases segments with
  | nil => simp at hidden
  | cons segment rest =>
      cases filter with
      | nil => cases selects
      | cons level levels =>
          by_cases multi : level = .multi
          · subst multi
            simp only [matchesFrom, hidden, Bool.not_true] at selects
            cases selects
          · rw [matchesFrom_cons fits.1 multi, Bool.and_eq_true] at selects
            exact follows_hidden fits.1 selects.1 hidden

/-- A level of a pattern, which is not `#`, leads on wherever the level does that it includes. -/
theorem coversFrom_cons {first : Bool} {level other : Level} {rest others : List Level}
    (one : level ≠ .multi) (proper : other.Proper first)
    (covers : coversFrom first (level :: rest) (other :: others) = true) :
    other ≠ .multi ∧ coversFrom false rest others = true ∧
      ∀ segment, Branches.follows first other segment = true →
        Branches.follows first level segment = true := by
  by_cases single : level = .single
  · subst single
    simp only [coversFrom, Bool.and_eq_true, decide_eq_true_eq, Bool.not_eq_true'] at covers
    obtain ⟨⟨plain, shown⟩, further⟩ := covers
    refine ⟨plain, further, ?_⟩
    intro segment leads
    cases hidden : first && Level.hidden segment with
    | false => simp [Branches.follows, hidden]
    | true =>
        rw [follows_hidden proper leads hidden] at shown
        cases shown
  · have same : other = level ∧ coversFrom false rest others = true := by
      cases level with
      | multi => exact absurd rfl one
      | single => exact absurd rfl single
      | _ => simpa [coversFrom] using covers
    obtain ⟨rfl, further⟩ := same
    exact ⟨one, further, fun _ leads => leads⟩

theorem coversFrom_selects {first : Bool} {pattern filter : List Level} {segments : List String}
    (proper : Fits first pattern) (fits : Fits first filter)
    (covers : coversFrom first pattern filter = true)
    (selects : matchesFrom first filter segments = true) :
    matchesFrom first pattern segments = true := by
  induction pattern generalizing first filter segments with
  | nil =>
      cases filter with
      | nil => exact selects
      | cons _ _ => cases covers
  | cons level rest ih =>
      by_cases multi : level = .multi
      · subst multi
        simp only [coversFrom, matchesFrom, Bool.not_eq_true'] at covers ⊢
        refine Bool.eq_false_iff.mpr fun hidden => ?_
        rw [hidden_of_selects fits selects hidden] at covers
        cases covers
      · cases filter with
        | nil => cases level <;> first | exact absurd rfl multi | cases covers
        | cons other others =>
            obtain ⟨plain, further, wider⟩ := coversFrom_cons multi fits.1 covers
            cases segments with
            | nil => cases other <;> first | exact absurd rfl plain | cases selects
            | cons segment segments =>
                rw [matchesFrom_cons fits.1 plain, Bool.and_eq_true] at selects
                rw [matchesFrom_cons proper.1 multi, Bool.and_eq_true]
                exact ⟨wider segment selects.1, ih proper.2.2 fits.2.2 further selects.2⟩

theorem coversFrom_nameLevels {first : Bool} {pattern : List Level} (proper : Fits first pattern)
    (segments : List String) :
    coversFrom first pattern (nameLevels first segments) = matchesFrom first pattern segments := by
  induction pattern generalizing first segments with
  | nil => cases segments <;> rfl
  | cons level rest ih =>
      cases segments with
      | nil => cases level <;> rfl
      | cons segment segments =>
          have further := ih proper.2.2 segments
          have shown := Level.isMetadata_ofSegment first segment
          cases level with
          | multi => simp [coversFrom, matchesFrom, nameLevels, shown]
          | single =>
              have plain := Level.ofSegment_ne_multi first segment
              simp [coversFrom, matchesFrom, nameLevels, plain, shown, further]
          | blank =>
              have blank := Level.ofSegment_eq_blank first segment
              simp [coversFrom, matchesFrom, nameLevels, blank, further]
          | normal text =>
              have same : Level.ofSegment first segment = .normal text ↔ segment = text :=
                Level.ofSegment_eq_iff proper.1 rfl
              simp [coversFrom, matchesFrom, nameLevels, same, further]
          | metadata text =>
              have same : Level.ofSegment first segment = .metadata text ↔ segment = text :=
                Level.ofSegment_eq_iff proper.1 rfl
              simp [coversFrom, matchesFrom, nameLevels, same, further]

def Written (pattern : Topic) : Prop := ∃ text, parse text = .ok pattern

theorem Written.fits {pattern : Topic} (written : pattern.Written) : Fits true pattern.levels := by
  obtain ⟨_, parsed⟩ := written
  exact (parse_fits parsed).2

theorem covers_selects {pattern filter : Topic} {name : String} (written : pattern.Written)
    (own : filter.Written) (covers : pattern.covers filter = true)
    (selects : filter.matchesName name = true) : pattern.matchesName name = true :=
  coversFrom_selects written.fits own.fits covers selects

end Topic

namespace Grants

def Opens (pattern : Topic) (space : String) : Prop :=
  pattern.levels.head? = some (.normal space) ∨ pattern.levels.head? = some (.metadata space)

theorem names_iff (pattern : Topic) (space : String) :
    names pattern space = true ↔ Opens pattern space := by
  unfold names Opens
  cases pattern.levels.head? with
  | none => simp
  | some level => cases level <;> simp [Level.text?]

theorem authorizes_iff {g : Grants} (limited : g.superuser = false) (action : Action)
    (text : String) : g.authorizes action text = true ↔
      ∃ t, Topic.parse text = .ok t ∧ ∃ p ∈ g.patternsFor action, p.covers t = true ∧
        ∀ space, g.namespaces.of text = some space → Opens p space := by
  unfold authorizes
  rw [limited, Bool.false_or]
  cases Topic.parse text with
  | error e => simp
  | ok t =>
      simp only [List.any_eq_true, Bool.and_eq_true, Option.all_eq_true, names_iff]
      constructor
      · rintro ⟨p, member, opens, covers⟩
        exact ⟨t, rfl, p, member, covers, opens⟩
      · rintro ⟨_, same, p, member, covers, opens⟩
        cases same
        exact ⟨p, member, opens, covers⟩

theorem written_of_mem {permissions : Permissions} {ns : Namespaces}
    {vars : List (String × String)} {action : Action} {p : Topic}
    (member : p ∈ (ofPermissions permissions ns vars).patternsFor action) : p.Written := by
  have read : ∀ texts, p ∈ patterns vars texts → p.Written := by
    intro texts among
    obtain ⟨text, _, parsed⟩ := List.mem_filterMap.mp among
    cases found : Topic.parse (substitute vars text) with
    | error e =>
        rw [found] at parsed
        cases parsed
    | ok t =>
        rw [found] at parsed
        cases parsed
        exact ⟨_, found⟩
  cases action with
  | publish => exact read _ member
  | subscribe => exact read _ member

/-- On a topic name what is asked for is granted by the patterns that select the name. -/
theorem authorizes_name {permissions : Permissions} (limited : permissions.superuser = false)
    (ns : Namespaces) (vars : List (String × String)) (action : Action) {topic : String}
    (plain : Text.Plain topic) :
    (ofPermissions permissions ns vars).authorizes action topic = true ↔
      ∃ p ∈ (ofPermissions permissions ns vars).patternsFor action,
        p.matchesName topic = true ∧ ∀ space, ns.of topic = some space → Opens p space := by
  rw [authorizes_iff limited, Topic.parse_plain plain]
  constructor
  · rintro ⟨_, same, p, member, covers, opens⟩
    cases same
    rw [Topic.covers, Topic.coversFrom_nameLevels (written_of_mem member).fits] at covers
    exact ⟨p, member, covers, opens⟩
  · rintro ⟨p, member, selects, opens⟩
    refine ⟨_, rfl, p, member, ?_, opens⟩
    rw [Topic.covers, Topic.coversFrom_nameLevels (written_of_mem member).fits]
    exact selects

/-- Whoever may subscribe to a filter may subscribe to each topic of the filter's namespace that
the filter selects, and one pattern that includes the filter selects it. What is granted on the
name of a topic is what the patterns select, in a reserved namespace those that name it. -/
theorem granted_filters_select_granted {permissions : Permissions}
    (limited : permissions.superuser = false) (ns : Namespaces)
    (vars : List (String × String)) :
    let g := ofPermissions permissions ns vars
    (∀ filter, g.authorizes .subscribe filter = true → ∃ f, Topic.parse filter = .ok f ∧
      ∀ topic, Text.Plain topic → ns.of topic = ns.of filter → f.matchesName topic = true →
        g.authorizes .subscribe topic = true ∧
          ∃ p ∈ g.subscribe, p.covers f = true ∧ p.matchesName topic = true) ∧
    ∀ action topic, Text.Plain topic → (g.authorizes action topic = true ↔
      ∃ p ∈ g.patternsFor action, p.matchesName topic = true ∧
        ∀ space, ns.of topic = some space → Opens p space) := by
  intro g
  have named := fun action {topic : String} (plain : Text.Plain topic) =>
    authorizes_name limited ns vars action plain
  constructor
  · intro filter authorized
    obtain ⟨f, parsed, p, member, covers, opens⟩ := (authorizes_iff limited ..).mp authorized
    refine ⟨f, parsed, ?_⟩
    intro topic plain same selects
    have included := Topic.covers_selects (written_of_mem member) ⟨filter, parsed⟩ covers selects
    refine ⟨(named .subscribe plain).mpr ⟨p, member, included, ?_⟩, p, member, covers, included⟩
    intro space reserved
    exact opens space (same.symm.trans reserved)
  · exact fun action topic plain => named action plain

def watcher : Permissions where
  superuser := false
  publish := ["#"]
  subscribe := ["+/load", "$SYS/$u/#", "#"]

theorem watcher_granted_parent :
    let g := ofPermissions watcher (.ofList ["$SYS"]) [("$u", "broker")]
    g.authorizes .subscribe "$SYS/broker/+/#" = true ∧
      g.authorizes .subscribe "$SYS/broker/load" = true ∧
      (∃ p ∈ g.subscribe, p.matchesName "$SYS/broker/load" = true) ∧
      g.authorizes .publish "$SYS/broker/load" = false := by
  have limited : watcher.superuser = false := rfl
  obtain ⟨filters, names⟩ :=
    granted_filters_select_granted limited (.ofList ["$SYS"]) [("$u", "broker")]
  have authorized : (ofPermissions watcher (.ofList ["$SYS"]) [("$u", "broker")]).authorizes
      .subscribe "$SYS/broker/+/#" = true := by decide
  obtain ⟨f, parsed, granted⟩ := filters "$SYS/broker/+/#" authorized
  have plain : Text.Plain "$SYS/broker/load" := by decide
  have read : Topic.parse "$SYS/broker/+/#" =
      .ok ⟨[.metadata "$SYS", .normal "broker", .single, .multi]⟩ := rfl
  cases parsed.symm.trans read
  obtain ⟨topic, p, member, _, selects⟩ := granted "$SYS/broker/load" plain (by decide) (by decide)
  refine ⟨authorized, topic, ⟨p, member, selects⟩, ?_⟩
  rw [Bool.eq_false_iff]
  intro published
  obtain ⟨p, member, _, opens⟩ := (names .publish _ plain).mp published
  have opens := opens "$SYS" (by decide)
  have only : p = ⟨[.multi]⟩ := by simpa using (show p ∈ [⟨[.multi]⟩] from member)
  subst only
  rcases opens with none | none <;> cases none

end Grants

end MqttBroker
