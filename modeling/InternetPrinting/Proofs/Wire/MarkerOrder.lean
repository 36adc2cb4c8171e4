import InternetPrinting.Proofs.Store.FirstUseOrder
import InternetPrinting.Proofs.Store.UseHistory
import InternetPrinting.Proofs.Wire.ParsedResponse

/-!
# Markers and the order of groups

A marker announces a group, but it is the first value that makes one. So the groups of a
parsed response stand in the order of their first values, and that is the order of their
first markers exactly if no group overtakes another: if none is announced later and
filled earlier. A message whose groups are filled as soon as they are announced keeps
the order of its markers, and then a name is found in the group that was announced first.
-/

namespace InternetPrinting

open scoped List

namespace Entry

/-- The group that an entry announces. -/
def announced? : Entry → Option String
  | .marker group => some group
  | .attribute .. => none

/-- The groups that the markers name, in order. -/
def marked (entries : List Entry) : List String :=
  entries.filterMap announced?

/-- The groups in the order of their first markers. The one without a name needs no marker
and comes first. -/
def announced (entries : List Entry) : List (Option String) :=
  none :: (firstUses (marked entries)).map some

/-- Every group that gets a value gets one right behind its first marker. -/
def FilledAtOnce (entries : List Entry) : Prop :=
  ∀ before group after, entries = before ++ .marker group :: after → group ∉ marked before →
    some group ∈ (placements none entries).map (·.group) →
    ∃ name value rest, after = .attribute name value :: rest

variable {entries : List Entry}

theorem nodup_announced (entries : List Entry) : (announced entries).Nodup := by
  apply List.nodup_cons.mpr
  constructor
  · simp
  · exact (nodup_firstUses _).map (Option.some_injective _)

/-- Behind a marker the values go to its group. -/
theorem placements_append_marker (current : Option String) (before : List Entry)
    (group : String) (after : List Entry) :
    placements current (before ++ .marker group :: after) =
      placements current before ++ placements (some group) after := by
  induction before generalizing current with
  | nil => rfl
  | cons entry rest ih =>
      rcases entry with other | ⟨name, value⟩
      · exact ih (some other)
      · exact congrArg (_ :: ·) (ih current)

/-- A group that gets a value was announced, or was the current one from the start. -/
theorem marked_of_placed {current : Option String} {group : String}
    (filled : some group ∈ (placements current entries).map (·.group)) :
    current = some group ∨ group ∈ marked entries := by
  induction entries generalizing current with
  | nil => cases filled
  | cons entry rest ih =>
      rcases entry with other | ⟨name, value⟩
      · have marks : marked (.marker other :: rest) = other :: marked rest := rfl
        rw [marks, List.mem_cons]
        have behind : some group ∈ (placements (some other) rest).map (·.group) := filled
        rcases ih behind with same | later
        · exact .inr (.inl (Option.some.inj same).symm)
        · exact .inr (.inr later)
      · rcases List.mem_cons.mp filled with here | later
        · exact .inl here.symm
        · exact ih later

theorem mem_announced_of_placed {group : Option String}
    (filled : group ∈ (placements none entries).map (·.group)) : group ∈ announced entries := by
  cases group with
  | none => exact List.mem_cons_self
  | some group =>
      have marks := (marked_of_placed filled).resolve_left (Option.some_ne_none group).symm
      exact List.mem_cons_of_mem _ (List.mem_map_of_mem (mem_firstUses.mpr marks))

/-- The first marker of a group among the entries. -/
theorem exists_first_marker {front back : List String} {group : String}
    (split : marked entries = front ++ group :: back) :
    ∃ before after, entries = before ++ .marker group :: after ∧ marked before = front := by
  obtain ⟨start, rest, rfl, fronts, backs⟩ := List.filterMap_eq_append_iff.mp split
  obtain ⟨quiet, entry, after, rfl, silent, marks, -⟩ := List.filterMap_eq_cons_iff.mp backs
  rcases entry with other | ⟨name, value⟩
  · cases marks
    refine ⟨start ++ quiet, after, by simp, ?_⟩
    have nothing : marked quiet = [] := List.filterMap_eq_nil_iff.mpr silent
    rw [marked, List.filterMap_append, fronts]
    exact (congrArg (front ++ ·) nothing).trans (List.append_nil front)
  · cases marks

/-- Two groups with names are announced in the order of their first markers. -/
theorem pair_sublist_announced {slow fast : String} :
    [some slow, some fast] <+ announced entries ↔
      [slow, fast] <+ firstUses (marked entries) := by
  constructor
  · intro order
    simpa [announced] using order.filterMap id
  · intro order
    exact .cons _ (order.map some)

end Entry

namespace Groups

theorem value?_arranged (placed : List Placement) (group : Option String) (name : String) :
    (arranged placed).value? group name = lastValue? (placedIn placed group) name := by
  rw [value?, get?_arranged]
  split
  · exact Table.get?_ofLastValues _ _
  · next unused =>
    rw [placedIn_of_unused unused]
    rfl

end Groups

namespace Response

open Entry (announced marked placements FilledAtOnce)

variable {r : Response} {entries : List Entry}

/-- The groups stand in the order of their first markers. -/
def InMarkerOrder (r : Response) (entries : List Entry) : Prop :=
  r.groups.keys <+ announced entries

/-- A group that is announced after another and stands before it. -/
def Overtakes (r : Response) (entries : List Entry) (fast slow : String) : Prop :=
  [slow, fast] <+ firstUses (marked entries) ∧ [some fast, some slow] <+ r.groups.keys

/-- The order of the groups of a response that carries some entries. -/
structure OrderedBy (r : Response) (entries : List Entry) : Prop where
  filled : r.groups.keys = firstUses ((placements none entries).map (·.group))
  inMarkerOrder_iff : r.InMarkerOrder entries ↔ ∀ fast slow, ¬ r.Overtakes entries fast slow
  inMarkerOrder_of_filledAtOnce : FilledAtOnce entries → r.InMarkerOrder entries
  found : ∀ name, r.find? name = r.groups.keys.findSome? fun group =>
    lastValue? (Groups.placedIn (placements none entries) group) name
  found_of_inMarkerOrder : r.InMarkerOrder entries → ∀ name,
    r.find? name = (announced entries).findSome? fun group =>
      lastValue? (Groups.placedIn (placements none entries) group) name

/-- A group that gets a value as soon as it is announced is not overtaken. -/
theorem not_overtakes_of_filledAtOnce
    (filled : r.groups.keys = firstUses ((placements none entries).map (·.group)))
    (atOnce : FilledAtOnce entries) (fast slow : String) : ¬ r.Overtakes entries fast slow := by
  rintro ⟨announced, overtaken⟩
  rw [filled] at overtaken
  have fastFilled : some fast ∈ (placements none entries).map (·.group) :=
    mem_firstUses.mp (overtaken.subset (by simp))
  have slowFilled : some slow ∈ (placements none entries).map (·.group) :=
    mem_firstUses.mp (overtaken.subset (by simp))
  have apart : some slow ≠ some fast := by
    have nodup := (nodup_firstUses _).sublist overtaken
    exact Ne.symm (by simpa using nodup)
  obtain ⟨front, back, split, slowNew, fastNew, -⟩ := exists_front_of_pair_sublist announced
  obtain ⟨before, after, rfl, rfl⟩ := Entry.exists_first_marker split
  obtain ⟨name, value, rest, rfl⟩ := atOnce before slow after rfl slowNew slowFilled
  -- The slow group has its value before the fast one is even announced.
  have groups : (placements none (before ++ .marker slow :: .attribute name value :: rest)).map
      (·.group) = (placements none before).map (·.group) ++
        some slow :: (placements (some slow) rest).map (·.group) := by
    rw [Entry.placements_append_marker, List.map_append]
    rfl
  rw [groups] at fastFilled overtaken
  have unfilled : some fast ∉ (placements none before).map (·.group) := by
    intro early
    exact fastNew ((Entry.marked_of_placed early).resolve_left (Option.some_ne_none fast).symm)
  have later : some fast ∈ (placements (some slow) rest).map (·.group) := by
    simpa [unfilled, apart.symm] using fastFilled
  exact not_sublist_swap (nodup_firstUses _) overtaken
    (pair_sublist_firstUses unfilled apart later)

/-- The groups keep the order of their first markers exactly if none overtakes another. -/
theorem inMarkerOrder_iff
    (filled : r.groups.keys = firstUses ((placements none entries).map (·.group)))
    (unnamedFirst : none ∉ r.groups.keys.tail) :
    r.InMarkerOrder entries ↔ ∀ fast slow, ¬ r.Overtakes entries fast slow := by
  have nodup : r.groups.keys.Nodup := by
    rw [filled]
    exact nodup_firstUses _
  have subset : r.groups.keys ⊆ announced entries := by
    intro group member
    rw [filled, mem_firstUses] at member
    exact Entry.mem_announced_of_placed member
  rw [InMarkerOrder, sublist_iff_not_swapped nodup (Entry.nodup_announced entries) subset]
  constructor
  · rintro same fast slow ⟨announced, overtaken⟩
    exact same (some slow) (some fast) (Entry.pair_sublist_announced.mpr announced) overtaken
  · intro none a b order swapped
    cases b with
    | none =>
        have first : Option.none ∉ (announced entries).tail := by simp [announced]
        exact not_pair_sublist_of_notMem_tail first order
    | some fast =>
        cases a with
        | none => exact not_pair_sublist_of_notMem_tail unnamedFirst swapped
        | some slow => exact none fast slow ⟨Entry.pair_sublist_announced.mp order, swapped⟩

theorem orderedBy_of_arranged (assembled : r.groups = .arranged (placements none entries)) :
    r.OrderedBy entries := by
  have filled : r.groups.keys = firstUses ((placements none entries).map (·.group)) := by
    rw [assembled, Groups.keys_arranged]
  have unnamedFirst : none ∉ r.groups.keys.tail := by
    rw [assembled]
    exact Entry.none_notMem_tail_keys_arranged entries
  have order := inMarkerOrder_iff filled unnamedFirst
  have found (name : String) : r.find? name = r.groups.keys.findSome? fun group =>
      lastValue? (Groups.placedIn (placements none entries) group) name := by
    change r.groups.find? name = _
    rw [assembled, Groups.find?_eq_findSome?_keys (Groups.nodup_keys_arranged _)]
    simp only [Groups.value?_arranged]
  refine ⟨filled, order, ?_, found, ?_⟩
  · intro atOnce
    exact order.mpr (not_overtakes_of_filledAtOnce filled atOnce)
  · intro kept name
    rw [found]
    symm
    apply findSome?_eq_of_sublist (Entry.nodup_announced entries) kept
    -- A group that is announced and not there received nothing.
    intro group _ absent
    rw [filled, mem_firstUses] at absent
    rw [Groups.placedIn_of_unused absent]
    rfl

/-- The groups of a parsed response stand in the order of their first values. That is the
order of their first markers exactly if none overtakes another, and a look-up goes by the
order in which the groups stand. -/
theorem orderedBy_of_parse {data : Bytes} (parsed : parse data = .ok r) :
    ∃ entries, Message.Carries data entries ∧
      (∀ others, Message.Carries data others → others = entries) ∧ r.OrderedBy entries := by
  cases parse_eq_ok_iff.mp parsed with
  | @intro major minor status requestId attributes ending entries payload spelled ends =>
      have carried : Message.Carries
          (Message.header major minor status requestId ++ attributes ++ ending) entries :=
        ⟨_, _, _, _, Message.length_header _ _ _ _, spelled, ends, rfl⟩
      exact ⟨entries, carried, fun others => carried.unique, orderedBy_of_arranged rfl⟩

/-- A message with some entries. -/
def messageOf (entries : List Entry) : Bytes :=
  Message.header 1 1 0 7 ++ entries.flatMap Entry.bytes ++ [0x03]

theorem parse_messageOf {entries : List Entry} (writable : ∀ entry ∈ entries, entry.Writable) :
    parse (messageOf entries) = .ok
      { major := 1, minor := 1, status := 0, requestId := 7
        groups := .arranged (placements none entries)
        payload := none } :=
  parse_eq_ok_iff.mpr (.intro 1 1 0 7 (Entry.spellsAll_flatMap_bytes writable) .tag)

theorem carries_messageOf {entries : List Entry} (writable : ∀ entry ∈ entries, entry.Writable) :
    Message.Carries (messageOf entries) entries :=
  ⟨_, _, _, _, Message.length_header _ _ _ _, Entry.spellsAll_flatMap_bytes writable, .tag, rfl⟩

/-- Entries that announce a job, which gets no value, and a printer. -/
def emptyJob : List Entry :=
  [.attribute "copies" (.integer 3), .marker "job", .marker "printer",
    .attribute "sides" (.keyword "one-sided"), .attribute "copies" (.integer 1)]

theorem orderedBy_of_parse_emptyJob :
    ∃ r, parse (messageOf emptyJob) = .ok r ∧ r.OrderedBy emptyJob ∧ r.InMarkerOrder emptyJob ∧
      (∀ fast slow, ¬ r.Overtakes emptyJob fast slow) ∧ r.groups.keys = [none, some "printer"] := by
  have writable : ∀ entry ∈ emptyJob, entry.Writable := by decide
  have parsed := parse_messageOf writable
  obtain ⟨entries, -, unique, ordered⟩ := orderedBy_of_parse parsed
  obtain rfl : emptyJob = entries := unique _ (carries_messageOf writable)
  have kept : ([none, some "printer"] : List (Option String)) <+ announced emptyJob := by decide
  exact ⟨_, parsed, ordered, kept, ordered.inMarkerOrder_iff.mp kept, by decide⟩

/-- Entries that announce a job, fill a printer first, and come back to the job. -/
def overtaking : List Entry :=
  [.marker "job", .marker "printer", .attribute "copies" (.integer 1), .marker "job",
    .attribute "copies" (.integer 2)]

/-- The job is announced first, but the printer overtakes it and its value is found. -/
theorem not_inMarkerOrder_overtaking :
    ∃ r, parse (messageOf overtaking) = .ok r ∧ Message.Carries (messageOf overtaking) overtaking ∧
      firstUses (marked overtaking) = ["job", "printer"] ∧
      r.groups.keys = [some "printer", some "job"] ∧ ¬ r.InMarkerOrder overtaking ∧
      r.find? "copies" = some (.integer 1) ∧
      r.groups.value? (some "job") "copies" = some (.integer 2) := by
  have writable : ∀ entry ∈ overtaking, entry.Writable := by decide
  refine ⟨_, parse_messageOf writable, carries_messageOf writable, by decide, by decide, ?_,
    by decide, by decide⟩
  unfold InMarkerOrder
  decide

end Response

end InternetPrinting
