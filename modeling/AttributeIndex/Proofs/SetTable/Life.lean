import AttributeIndex.Proofs.SetTable.Calls
import Mathlib.Data.List.Induction

namespace AttributeIndex

open Observed

/-- A call through the handle, or a new handle in the place of the old one, which is dropped as it
is. -/
inductive Event (D : Type)
  | call (call : Call D)
  | reopen (limit cacheSize : Nat)

inductive Holding (σ D : Type) [Ord D]
  | dropped (stores : Stores σ)
  | opened (table : SetTable σ D)

namespace Stores

variable {σ : Type}

def reopened [Observed σ] (stores : Stores σ) : Stores σ :=
  ⟨Observed.reopen stores.primary, Observed.reopen stores.overflow⟩

def Redirects [Observed σ] (stores : Stores σ) (key : Bytes) (id : UInt64) : Prop :=
  (contents stores.primary).find? key = some (Redirect.mk id).encode

instance [Observed σ] (stores : Stores σ) (key : Bytes) (id : UInt64) :
    Decidable (stores.Redirects key id) :=
  inferInstanceAs (Decidable (_ = _))

variable [Table σ] [LawfulTable σ]

theorem failures_reopened (stores : Stores σ) : stores.reopened.failures = stores.failures := by
  rw [failures, reopened, LawfulTable.failures_reopen, LawfulTable.failures_reopen, failures]

omit [Table σ] [LawfulTable σ] in
theorem Browsed.failures_le [Observed σ] {before after : Stores σ} (browsed : Browsed before after) :
    before.failures ≤ after.failures :=
  Nat.add_le_add browsed.primary.failures_le browsed.overflow.failures_le

end Stores

namespace Holding

variable {σ D : Type} [Ord D] [Table σ] [LawfulTable σ]

def stores : Holding σ D → Stores σ
  | dropped stores => stores
  | opened table => table.stores

def next (name : String) (codec : Codec D) (holding : Holding σ D) : Event D → Holding σ D
  | .call call =>
    match holding with
    | dropped stores => dropped stores
    | opened table => opened (call.perform table).2
  | .reopen limit cacheSize =>
    match SetTable.openOver name codec limit cacheSize holding.stores.reopened with
    | (.ok table, _) => opened table
    | (.error _, left) => dropped left

def answer? (holding : Holding σ D) (request : Request D) : Option (Except Error (Answer D)) :=
  match holding with
  | dropped _ => none
  | opened table => some (request.perform table).1

end Holding

namespace Stores

variable {σ D : Type} [Ord D] [Table σ] [LawfulTable σ]

def after (stores : Stores σ) (name : String) (codec : Codec D) (events : List (Event D)) :
    Holding σ D :=
  events.foldl (fun holding event => holding.next name codec event) (.dropped stores)

theorem after_concat (stores : Stores σ) (name : String) (codec : Codec D) (events : List (Event D))
    (event : Event D) :
    stores.after name codec (events ++ [event]) =
      (stores.after name codec events).next name codec event := by
  rw [after, List.foldl_append]
  rfl

end Stores

/-! ## What the stores hold by themselves -/

namespace Layout

variable {D : Type} [Ord D] {layout : Layout D}

def dropped (layout : Layout D) : Layout D :=
  { layout with
    sets := layout.sets.clear
    count := ({ layout with sets := layout.sets.clear } : Layout D).view.total }

theorem leads_iff {key : Bytes} {id : UInt64} :
    layout.Leads key id ↔ layout.slots.find? key = some (Redirect.mk id).encode := by
  constructor
  · intro leads
    obtain ⟨bytes, found, parsed⟩ := Option.bind_eq_some_iff.1 leads
    cases form : Redirect.hasForm bytes with
    | true =>
      obtain ⟨redirect, decoded, same⟩ := parse_of_redirect form parsed
      cases same
      rw [found, Redirect.encode_of_decode decoded]
    | false =>
      obtain ⟨set, -, impossible⟩ := parse_of_set form parsed
      cases impossible
  · intro found
    rw [Leads, slot?, found]
    exact parse_encode layout.codec ⟨id⟩

def isRecorded (layout : Layout D) (slot : Bytes) : Bool :=
  match Redirect.decode slot with
  | .ok redirect => (layout.stored? redirect.recordId).any fun list => !list.isEmpty
  | .error _ => true

theorem recorded_iff :
    layout.Recorded ↔ ∀ entry ∈ layout.slots.entries, layout.isRecorded entry.2 = true := by
  constructor
  · intro recorded entry member
    rw [isRecorded]
    cases decoded : Redirect.decode entry.2 with
    | error failure => rfl
    | ok redirect =>
      have found := SortedMap.find?_eq_some.2 member
      rw [← Redirect.encode_of_decode decoded] at found
      obtain ⟨list, stored, nonempty⟩ := recorded entry.1 redirect.recordId (leads_iff.2 found)
      simp [stored, nonempty]
  · intro checked key id leads
    have present := checked _ (SortedMap.find?_eq_some.1 (leads_iff.1 leads))
    rw [isRecorded, Redirect.decode_encode] at present
    obtain ⟨list, stored, nonempty⟩ := (Option.any_eq_true _ _).1 present
    exact ⟨list, stored, by simpa using nonempty⟩

instance : Decidable layout.Recorded :=
  decidable_of_iff _ recorded_iff.symm

theorem stored?_congr {before after : Layout D} (codec : after.codec = before.codec)
    (records : after.records = before.records) (id : UInt64) :
    after.stored? id = before.stored? id := by
  rw [stored?, stored?, codec, records]

theorem current?_dropped (id : UInt64) : layout.dropped.current? id = layout.stored? id := by
  have gone : layout.dropped.sets.find? id = none := Lru.find?_clear
  exact current?_of_absent gone

theorem setOf_dropped_of_leads {key : Bytes} {id : UInt64} (leads : layout.Leads key id) :
    layout.dropped.view.setOf key = (layout.stored? id).getD [] := by
  have slot : layout.dropped.slot? key = some (.overflow ⟨id⟩) := leads
  rw [setOf_view, slot]
  exact congrArg (Option.getD · []) (current?_dropped id)

theorem setOf_dropped_of_not_leads {key : Bytes} (unled : ∀ id, ¬ layout.Leads key id) :
    layout.dropped.view.setOf key = layout.view.setOf key := by
  have slot : layout.dropped.slot? key = layout.slot? key := rfl
  rw [setOf_view, setOf_view, slot]
  cases found : layout.slot? key with
  | none => rfl
  | some entry =>
    cases entry with
    | inline set => rfl
    | overflow redirect => exact absurd found (unled redirect.recordId)

theorem Coherent.setOf_dropped_of_idle (coherent : layout.Coherent) {key : Bytes}
    (idle : ∀ id, layout.Leads key id → ¬ layout.Waits id) :
    layout.dropped.view.setOf key = layout.view.setOf key := by
  by_cases unled : ∀ id, ¬ layout.Leads key id
  · exact setOf_dropped_of_not_leads unled
  · obtain ⟨id, leads⟩ := not_forall_not.1 unled
    rw [setOf_dropped_of_leads leads, coherent.stored_of_idle (idle id leads),
      (coherent.current_of_leads leads).1, Option.getD_some]

theorem Coherent.dropped (coherent : layout.Coherent) (recorded : layout.Recorded) :
    layout.dropped.Coherent where
  faithful := coherent.faithful
  holds key bytes found := by
    obtain ⟨slot, list, parsed, held, nonempty⟩ := coherent.holds key bytes found
    cases slot with
    | inline set => exact ⟨.inline set, list, parsed, held, nonempty⟩
    | overflow redirect =>
      obtain ⟨stored, present, full⟩ := recorded key redirect.recordId parsed
      exact ⟨.overflow redirect, stored, parsed, (current?_dropped _).trans present, full⟩
  distinct := coherent.distinct
  issued := coherent.issued
  bounded := Lru.bounded_clear coherent.bounded
  backs id cached found := by cases Lru.find?_clear.symm.trans found
  filed := coherent.filed

theorem Coherent.recorded_of_idle (coherent : layout.Coherent)
    (idle : ∀ id, ¬ layout.Waits id) : layout.Recorded := by
  intro key id leads
  obtain ⟨current, nonempty⟩ := coherent.current_of_leads leads
  exact ⟨_, (coherent.stored_of_idle (idle id)).trans current, nonempty⟩

theorem Fitted.fits (fitted : layout.Fitted) (uncached : ∀ id, layout.sets.find? id = none) :
    layout.view.Fits layout.codec := by
  intro key
  rw [setOf_view]
  cases slot : layout.slot? key with
  | none => exact SetMap.fits_nil
  | some entry =>
    cases entry with
    | inline set => exact fitted.inline key set slot
    | overflow redirect =>
      have current : layout.held? (.overflow redirect) = layout.stored? redirect.recordId :=
        current?_of_absent (uncached redirect.recordId)
      rw [Option.bind_some, current]
      cases stored : layout.stored? redirect.recordId with
      | none => exact SetMap.fits_nil
      | some list => exact fitted.stored key redirect.recordId list slot stored

end Layout

namespace SetTable

open Layout Stores

variable {σ D : Type} [Ord D] [Table σ] [LawfulTable σ] {codec : Codec D} {map : SetMap D}
  {ids : Nat} {table : SetTable σ D} {stores : Stores σ}

theorem Models.dropped {layout : Layout D} (models : Models codec map ids layout)
    (recorded : layout.Recorded) : Models codec layout.dropped.view ids layout.dropped :=
  ⟨models.coherent.dropped recorded, rfl, models.codec_eq, rfl, models.nextId_le⟩

structure Hold (codec : Codec D) (map : SetMap D) (ids : Nat) (layout : Layout D)
    (stores : Stores σ) : Prop where
  models : Models codec map ids layout
  rests : Rests layout stores
  fitted : layout.Fitted

theorem hold_initial (faithful : codec.Faithful) (noSlots : contents stores.primary = .empty)
    (noRecords : contents stores.overflow = .empty) :
    Hold codec .empty 1 (Layout.initial codec) stores where
  models := models_initial faithful
  rests := rests_initial faithful noSlots noRecords
  fitted := ⟨fun _ _ slot => (by cases slot), fun _ _ _ leads => (by cases leads)⟩

theorem Hold.of_table (models : Models codec map ids table.layout) (fitted : table.layout.Fitted)
    (recorded : table.layout.Recorded) :
    Hold codec table.layout.dropped.view ids table.layout.dropped table.stores where
  models := models.dropped recorded
  rests := ⟨models.coherent.dropped recorded, fun _ => Lru.find?_clear, rfl, rfl⟩
  fitted := ⟨fitted.inline, fitted.stored⟩

theorem Hold.later {layout : Layout D} (hold : Hold codec map ids layout stores) {more : Nat}
    (enough : ids ≤ more) : Hold codec map more layout stores :=
  ⟨hold.models.later enough, hold.rests, hold.fitted⟩

structure Fresh (codec : Codec D) (map : SetMap D) (ids : Nat) (table : SetTable σ D) : Prop where
  live : table.Live
  models : Models codec map ids table.layout
  fitted : table.layout.Fitted
  uncached : ∀ id, table.layout.sets.find? id = none

theorem Fresh.idle (fresh : Fresh codec map ids table) (id : UInt64) :
    ¬ table.layout.Waits id := by
  rintro ⟨cached, found, _⟩
  cases (fresh.uncached id).symm.trans found

theorem Fresh.recorded (fresh : Fresh codec map ids table) : table.layout.Recorded :=
  fresh.models.coherent.recorded_of_idle fresh.idle

theorem Fresh.fits (fresh : Fresh codec map ids table) : map.Fits codec := by
  rw [← fresh.models.view_eq, ← fresh.models.codec_eq]
  exact fresh.fitted.fits fresh.uncached

theorem Hold.reopen {layout : Layout D} (hold : Hold codec map ids layout stores) (name : String)
    (limit cacheSize : Nat) :
    (openOver name codec limit cacheSize).Meets stores.reopened
      (fun table _ => Fresh codec map ids table)
      (fun _ after => Hold codec map ids layout after ∧
        (0 < limit → 0 < cacheSize → stores.failures < after.failures)) := by
  have rests := hold.rests.reopen
  have browses := openOver_browses name codec limit cacheSize stores.reopened
  have opens (limited : 0 < limit) (cached : 0 < cacheSize) := openOver_meets name rests.coherent
    rests.uncached rests.slots_eq rests.records_eq limited cached
  rw [hold.models.codec_eq] at opens
  apply Action.Meets.intro
  · intro table left performed
    obtain ⟨_, _, sets_eq, _, limited, cached⟩ := browses.ok_of performed
    have resumed := (opens limited cached).ok_of performed
    have records : table.layout.records = layout.records :=
      resumed.still.overflow.contents_eq.trans rests.records_eq
    have fitted : table.layout.Fitted := hold.fitted.of_slots resumed.codec_eq
      (slot?_congr resumed.codec_eq resumed.slots_eq) fun _ id _ _ present =>
        (stored?_congr resumed.codec_eq records id).symm.trans present
    exact ⟨resumed.live (LawfulTable.isOpen_reopen _) (LawfulTable.isOpen_reopen _),
      resumed.models hold.models, fitted, uncached_of_empty sets_eq⟩
  · intro failure left performed
    have browsed := browses.failed_of performed
    refine ⟨⟨hold.models, ⟨rests.coherent, rests.uncached, ?_, ?_⟩, hold.fitted⟩, ?_⟩
    · exact browsed.primary.contents_eq.trans rests.slots_eq
    · exact browsed.overflow.contents_eq.trans rests.records_eq
    · intro limited cached
      have faulted := (opens limited cached).failed_of performed
      rw [← stores.failures_reopened]
      exact faulted (LawfulTable.isOpen_reopen _) (LawfulTable.isOpen_reopen _)

/-! ## What a life keeps -/

inductive Keeps (codec : Codec D) (ids : Nat) : Holding σ D → Prop
  | dropped {layout : Layout D} {map : SetMap D} {stores : Stores σ}
      (hold : Hold codec map ids layout stores) : Keeps codec ids (.dropped stores)
  | opened {map : SetMap D} {table : SetTable σ D} (models : Models codec map ids table.layout)
      (fitted : table.layout.Fitted) : Keeps codec ids (.opened table)

def Leaves : Holding σ D → Prop
  | .dropped _ => True
  | .opened table => table.layout.Recorded

/-- Every handle that is dropped leaves the records of all sets behind. -/
def DropsLeaveRecords (stores : Stores σ) (name : String) (codec : Codec D)
    (events : List (Event D)) : Prop :=
  ∀ done limit cacheSize, done ++ [.reopen limit cacheSize] <+: events →
    Leaves (stores.after name codec done)

variable {name : String} {holding : Holding σ D}

instance : (holding : Holding σ D) → Decidable (Leaves holding)
  | .dropped _ => .isTrue trivial
  | .opened table => inferInstanceAs (Decidable table.layout.Recorded)

theorem dropsLeaveRecords_nil : DropsLeaveRecords stores name codec [] := fun done _ _ front =>
  absurd (List.prefix_nil.1 front) (List.append_ne_nil_of_right_ne_nil done (List.cons_ne_nil _ _))

theorem DropsLeaveRecords.reopen {events : List (Event D)}
    (leaveRecords : DropsLeaveRecords stores name codec events)
    (leaves : Leaves (stores.after name codec events)) (limit cacheSize : Nat) :
    DropsLeaveRecords stores name codec (events ++ [.reopen limit cacheSize]) := by
  intro done _ _ front
  rcases List.prefix_concat_iff.1 front with same | earlier
  · rw [(List.append_inj' same rfl).1]
    exact leaves
  · exact leaveRecords done _ _ earlier

theorem DropsLeaveRecords.call {events : List (Event D)}
    (leaveRecords : DropsLeaveRecords stores name codec events)
    (call : Call D) : DropsLeaveRecords stores name codec (events ++ [.call call]) := by
  intro done _ _ front
  rcases List.prefix_concat_iff.1 front with same | earlier
  · cases (List.append_inj' same rfl).2
  · exact leaveRecords done _ _ earlier

theorem Keeps.hold (keeps : Keeps codec ids holding) (leaves : Leaves holding) :
    ∃ layout map, Hold codec map ids layout holding.stores := by
  cases keeps with
  | dropped hold => exact ⟨_, _, hold⟩
  | opened models fitted => exact ⟨_, _, .of_table models fitted leaves⟩

theorem Hold.next {layout : Layout D} (hold : Hold codec map ids layout holding.stores)
    (name : String) (limit cacheSize : Nat) :
    (∃ table, holding.next name codec (.reopen limit cacheSize) = .opened table ∧
      Fresh codec map ids table) ∨
    ∃ left, holding.next name codec (.reopen limit cacheSize) = .dropped left ∧
      Hold codec map ids layout left ∧
      (0 < limit → 0 < cacheSize → holding.stores.failures < left.failures) := by
  have reopens := hold.reopen name limit cacheSize
  rw [Holding.next]
  split
  · rename_i performed
    exact .inl ⟨_, rfl, reopens.ok_of performed⟩
  · rename_i performed
    exact .inr ⟨_, rfl, reopens.failed_of performed⟩

variable [Std.TransOrd D]

theorem Keeps.next (keeps : Keeps codec ids holding) (event : Event D)
    (leaves : ∀ limit cacheSize, event = .reopen limit cacheSize → Leaves holding)
    (room : ids + 1 < 2 ^ 64) : Keeps codec (ids + 1) (holding.next name codec event) := by
  have later := Nat.le_succ ids
  cases event with
  | call call =>
    cases keeps with
    | dropped hold => exact .dropped (hold.later later)
    | opened models fitted =>
      obtain ⟨next, onward⟩ := afterCalls_models [call] models room
      exact .opened onward ((afterCalls_persists [call] models room).fitted fitted)
  | reopen limit cacheSize =>
    obtain ⟨layout, map, hold⟩ := keeps.hold (leaves limit cacheSize rfl)
    rcases hold.next name limit cacheSize with ⟨table, opened, fresh⟩ | ⟨left, refused, still, _⟩
    · rw [opened]
      exact .opened (fresh.models.later later) fresh.fitted
    · rw [refused]
      exact .dropped (still.later later)

theorem keeps_after (faithful : codec.Faithful) (noSlots : contents stores.primary = .empty)
    (noRecords : contents stores.overflow = .empty) (events : List (Event D))
    (leaveRecords : DropsLeaveRecords stores name codec events) (short : events.length + 1 < 2 ^ 64) :
    Keeps codec (events.length + 1) (stores.after name codec events) := by
  -- Each reopening is judged by the life before it, so the last event is taken off.
  induction events using List.reverseRecOn with
  | nil => exact .dropped (hold_initial faithful noSlots noRecords)
  | append_singleton events event ih =>
    rw [List.length_append, List.length_singleton] at short ⊢
    have earlier : DropsLeaveRecords stores name codec events := fun done limit cacheSize front =>
      leaveRecords done limit cacheSize (front.trans (List.prefix_append _ _))
    rw [Stores.after_concat]
    refine (ih earlier (by omega)).next event ?_ (by omega)
    rintro limit cacheSize rfl
    exact leaveRecords events limit cacheSize (List.prefix_refl _)

/-! ## Lives in which no store call fails

That no call has failed is known of a whole life. That none has failed in its beginning is needed
first, and a bounded and ordered cache is enough for it. -/

def CacheOrdered : Holding σ D → Prop
  | .dropped _ => True
  | .opened table => table.layout.CacheOrdered

theorem next_cacheOrdered (name : String) (codec : Codec D) (event : Event D)
    (cache : CacheOrdered holding) :
    CacheOrdered (holding.next name codec event) ∧
      holding.stores.failures ≤ (holding.next name codec event).stores.failures := by
  cases event with
  | call call =>
    cases holding with
    | dropped stores => exact ⟨trivial, Nat.le_refl _⟩
    | opened table =>
      have ran := call_ran call cache
      exact ⟨ran.cacheOrdered cache, ran.failures_le⟩
  | reopen limit cacheSize =>
    have browses := openOver_browses name codec limit cacheSize holding.stores.reopened
    rw [Holding.next]
    split
    · rename_i performed
      obtain ⟨browsed, _, sets_eq, _, _, cached⟩ := browses.ok_of performed
      rw [← failures_reopened]
      exact ⟨cacheOrdered_of_empty cached sets_eq, browsed.failures_le⟩
    · rename_i performed
      rw [← failures_reopened]
      exact ⟨trivial, (browses.failed_of performed).failures_le⟩

theorem cacheOrdered_after (stores : Stores σ) (name : String) (codec : Codec D)
    (events : List (Event D)) :
    CacheOrdered (stores.after name codec events) ∧
      stores.failures ≤ (stores.after name codec events).stores.failures := by
  induction events using List.reverseRecOn with
  | nil => exact ⟨trivial, Nat.le_refl _⟩
  | append_singleton events event ih =>
    obtain ⟨cache, further⟩ := next_cacheOrdered name codec event ih.1
    rw [Stores.after_concat]
    exact ⟨cache, Nat.le_trans ih.2 further⟩

theorem quiet_init {events : List (Event D)} {event : Event D}
    (quiet : (stores.after name codec (events ++ [event])).stores.failures = stores.failures) :
    (stores.after name codec events).stores.failures = stores.failures := by
  obtain ⟨cache, atLeast⟩ := cacheOrdered_after stores name codec events
  obtain ⟨_, further⟩ := next_cacheOrdered name codec event cache
  rw [Stores.after_concat] at quiet
  omega

theorem next_leaves (keeps : Keeps codec ids holding) (leaves : Leaves holding) (event : Event D)
    (room : ids + 1 < 2 ^ 64)
    (quiet : (holding.next name codec event).stores.failures = holding.stores.failures) :
    Leaves (holding.next name codec event) := by
  cases event with
  | call call =>
    cases keeps with
    | dropped hold => trivial
    | opened models fitted =>
      exact (afterCalls_persists [call] models room).recorded quiet leaves
  | reopen limit cacheSize =>
    obtain ⟨layout, map, hold⟩ := keeps.hold leaves
    rcases hold.next name limit cacheSize with ⟨table, opened, fresh⟩ | ⟨left, refused, _⟩
    · rw [opened]
      exact fresh.recorded
    · rw [refused]
      trivial

theorem quiet_after (faithful : codec.Faithful) (noSlots : contents stores.primary = .empty)
    (noRecords : contents stores.overflow = .empty) (events : List (Event D))
    (quiet : (stores.after name codec events).stores.failures = stores.failures)
    (short : events.length + 1 < 2 ^ 64) :
    Keeps codec (events.length + 1) (stores.after name codec events) ∧
      Leaves (stores.after name codec events) := by
  induction events using List.reverseRecOn with
  | nil => exact ⟨.dropped (hold_initial faithful noSlots noRecords), trivial⟩
  | append_singleton events event ih =>
    rw [List.length_append, List.length_singleton] at short ⊢
    -- Failures are only added, so none had been counted before the last event.
    have earlier := quiet_init quiet
    obtain ⟨keeps, leaves⟩ := ih earlier (by omega)
    rw [Stores.after_concat] at quiet ⊢
    exact ⟨keeps.next event (fun _ _ _ => leaves) (by omega),
      next_leaves keeps leaves event (by omega) (quiet.trans earlier.symm)⟩

def stuckStores : Stores Unreliable where
  primary := (Unreliable.ofEntries .empty).setPlan .remove (.after 0)
  overflow := .ofEntries .empty

end SetTable

end AttributeIndex
