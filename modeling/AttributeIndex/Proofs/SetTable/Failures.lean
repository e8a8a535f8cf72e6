import AttributeIndex.Proofs.SetTable.Browsing
import AttributeIndex.Proofs.SetTable.Refinement

namespace AttributeIndex

open Observed

inductive Call (D : Type)
  | ask (request : Request D)
  | rawSlot (key : Bytes)
  | close

namespace Call

variable {σ D : Type} [Ord D] [Table σ]

def perform : Call D → Action (SetTable σ D) Error Unit
  | ask request => discard request.perform
  | rawSlot key => discard (SetTable.rawSlot key)
  | close => SetTable.close

def isReading : Call D → Bool
  | ask request => request.isReading
  | rawSlot _ => true
  | close => false

def mapAfter (map : SetMap D) : Call D → SetMap D
  | ask request => map.after request
  | _ => map

end Call

namespace SetTable

variable {σ D : Type} [Ord D] [Table σ]

def afterCalls (table : SetTable σ D) (calls : List (Call D)) : SetTable σ D :=
  calls.foldl (fun table call => (call.perform table).2) table

/-- The counts are those of the map, and whatever is read in between, a reading that succeeds answers
as the map does. Through a live handle it succeeds if no store call fails during it and all sets can
be stored. -/
structure Shows [Observed σ] (codec : Codec D) (map : SetMap D) (table : SetTable σ D) : Prop where
  count_eq : table.count = map.total
  keyCount_eq : table.keyCount = map.size
  answers : ∀ earlier : List (Call D), (∀ call ∈ earlier, call.isReading = true) →
    ∀ request : Request D, request.isReading = true →
      ∀ answer after, request.perform (table.afterCalls earlier) = (.ok answer, after) →
        answer = map.answer request
  succeeds : ∀ earlier : List (Call D), (∀ call ∈ earlier, call.isReading = true) →
    ∀ request : Request D, request.isReading = true →
      ∀ outcome after, request.perform (table.afterCalls earlier) = (outcome, after) →
        table.Live → map.Fits codec → failures after = failures (table.afterCalls earlier) →
          ∃ answer, outcome = .ok answer

variable [Std.TransOrd D] [LawfulTable σ] {codec : Codec D} {map : SetMap D} {ids : Nat}
  {table : SetTable σ D}

omit [Std.TransOrd D] in
theorem rawSlot_does {fit : Prop} (key : Bytes) :
    Does (rawSlot key) table fit (fun _ after => after = table.layout)
      (fun after => after = table.layout) := by
  apply does_bind (requireOpen_does.mono (fun _ _ done => done.2) fun _ same => same)
  intro _ opened _ same
  rw [← same]
  apply (onPrimary_does (LawfulTable.get key)).mono
  · intro _ after ⟨_, _, unchanged⟩
    exact unchanged
  · exact fun _ unchanged => unchanged

theorem call_meets (call : Call D) (models : Models codec map ids table.layout)
    (room : ids + 1 < 2 ^ 64) :
    call.perform.Meets table
      (fun _ after => Models codec (call.mapAfter map) (ids + 1) after.layout)
      (fun _ after => Models codec map (ids + 1) after.layout ∧
        (call ≠ .close → Kept table after)) := by
  cases call with
  | ask request =>
    apply Action.meets_discard.2
    apply Action.Meets.mono
      (perform_does request models room fun impossible : False => impossible.elim)
    · exact fun _ _ ⟨_, _, further⟩ => further
    · exact fun _ _ ⟨rough, further⟩ => ⟨further, fun _ => rough.toKept⟩
  | rawSlot key =>
    have later := models.later (Nat.le_succ ids)
    apply Action.meets_discard.2
    apply Action.Meets.mono (rawSlot_does key : Does _ _ False _ _)
    · intro _ after ⟨_, same⟩
      rw [same]
      exact later
    · intro _ after ⟨rough, same⟩
      rw [same]
      exact ⟨later, fun _ => rough.toKept⟩
  | close =>
    apply (close_meets models.coherent fun impossible : False => impossible.elim).mono
    · intro _ after ⟨_, settled, _⟩
      exact (models.settled settled).later (Nat.le_succ ids)
    · intro _ after ⟨_, _, settled, _⟩
      exact ⟨(models.settled settled).later (Nat.le_succ ids), fun other => absurd rfl other⟩

theorem afterCalls_models (calls : List (Call D)) (models : Models codec map ids table.layout)
    (room : ids + calls.length < 2 ^ 64) :
    ∃ map, Models codec map (ids + calls.length) (table.afterCalls calls).layout := by
  induction calls generalizing table map ids with
  | nil => exact ⟨map, models⟩
  | cons call calls ih =>
    rw [List.length_cons] at room
    have step : call.perform.Meets table
        (fun _ after => ∃ next, Models codec next (ids + 1) after.layout)
        (fun _ after => ∃ next, Models codec next (ids + 1) after.layout) :=
      (call_meets call models (by omega)).mono (fun _ _ onward => ⟨_, onward⟩)
        fun _ _ ⟨onward, _⟩ => ⟨_, onward⟩
    obtain ⟨next, onward⟩ := step.left
    obtain ⟨last, reached⟩ := ih onward (by omega)
    refine ⟨last, reached.later ?_⟩
    rw [List.length_cons]
    omega

theorem reading_meets {call : Call D} (reading : call.isReading = true)
    (models : Models codec map ids table.layout) :
    call.perform.Meets table
      (fun _ after => Models codec map ids after.layout ∧ Kept table after)
      (fun _ after => Models codec map ids after.layout ∧ Kept table after) := by
  cases call with
  | ask request =>
    apply Action.meets_discard.2
    apply Action.Meets.mono
      (reading_does reading models fun impossible : False => impossible.elim)
    · exact fun _ _ ⟨quiet, _, same⟩ => ⟨same, quiet.toKept⟩
    · exact fun _ _ ⟨rough, same⟩ => ⟨same, rough.toKept⟩
  | rawSlot key =>
    apply Action.meets_discard.2
    apply Action.Meets.mono (rawSlot_does key : Does _ _ False _ _)
    · intro _ after ⟨quiet, same⟩
      rw [same]
      exact ⟨models, quiet.toKept⟩
    · intro _ after ⟨rough, same⟩
      rw [same]
      exact ⟨models, rough.toKept⟩
  | close => cases reading

theorem afterCalls_reading {calls : List (Call D)}
    (reading : ∀ call ∈ calls, call.isReading = true) (models : Models codec map ids table.layout) :
    Models codec map ids (table.afterCalls calls).layout ∧ Kept table (table.afterCalls calls) := by
  induction calls generalizing table with
  | nil => exact ⟨models, .refl table⟩
  | cons call calls ih =>
    obtain ⟨first, others⟩ := List.forall_mem_cons.1 reading
    obtain ⟨still, kept⟩ := (reading_meets first models).left
    obtain ⟨reached, further⟩ := ih others still
    exact ⟨reached, kept.trans further⟩

theorem Models.shows (models : Models codec map ids table.layout) : Shows codec map table where
  count_eq := count_eq models
  keyCount_eq := keyCount_eq models
  answers earlier reading request asks answer after performed := by
    obtain ⟨still, _⟩ := afterCalls_reading reading models
    have done := reading_does asks still fun impossible : False => impossible.elim
    exact (Action.Meets.ok_of done performed).2.1
  succeeds earlier reading request asks outcome after performed live fits quiet := by
    obtain ⟨still, kept⟩ := afterCalls_reading reading models
    have done := reading_does asks still fun _ : True => fits
    cases outcome with
    | ok answer => exact ⟨answer, rfl⟩
    | error failure =>
      obtain ⟨rough, _⟩ := Action.Meets.failed_of done performed
      have more := rough.blame (kept.live_iff.2 live) trivial
      omega

/-! ## Failed calls -/

omit [Std.TransOrd D] in
theorem settings_of_openOver {name : String} {limit cacheSize : Nat} {stores left : Stores σ}
    (opening : openOver name codec limit cacheSize stores = (.ok table, left)) :
    0 < limit ∧ 0 < cacheSize := by
  obtain ⟨_, _, _, _, settings⟩ :=
    (openOver_browses name codec limit cacheSize stores).ok_of opening
  exact settings

omit [Std.TransOrd D] in
theorem resumed_of_empty (faithful : codec.Faithful) {stores left : Stores σ}
    (noSlots : contents stores.primary = .empty) (noRecords : contents stores.overflow = .empty)
    {name : String} {limit cacheSize : Nat}
    (opening : openOver name codec limit cacheSize stores = (.ok table, left)) :
    Resumed (Layout.initial codec) limit stores table := by
  obtain ⟨limited, cached⟩ := settings_of_openOver opening
  exact (openOver_meets name (models_initial faithful).coherent (fun _ => Lru.find?_empty) noSlots
    noRecords limited cached).ok_of opening

/-- A call that fails is not seen through the handle: whatever was done before, and whichever store
calls failed, the counts and all that can be read are as they were. Record ids have 64 bits, so there
must be fewer calls. -/
theorem failed_call_unseen (faithful : codec.Faithful) {stores left : Stores σ}
    (noSlots : contents stores.primary = .empty) (noRecords : contents stores.overflow = .empty)
    {name : String} {limit cacheSize : Nat} {opened : SetTable σ D}
    (opening : openOver name codec limit cacheSize stores = (.ok opened, left))
    (history : List (Call D)) (short : history.length + 2 < 2 ^ 64) (call : Call D)
    {failure : Error} {after : SetTable σ D}
    (failed : call.perform (opened.afterCalls history) = (.error failure, after)) :
    after.count = (opened.afterCalls history).count ∧
      after.keyCount = (opened.afterCalls history).keyCount ∧
      (call ≠ .close → (after.Live ↔ (opened.afterCalls history).Live)) ∧
      ∃ map, Shows codec map (opened.afterCalls history) ∧ Shows codec map after := by
  have start := (resumed_of_empty faithful noSlots noRecords opening).models (models_initial faithful)
  obtain ⟨map, before⟩ := afterCalls_models history start (by omega)
  obtain ⟨after, kept⟩ := (call_meets call before (by omega)).failed_of failed
  refine ⟨?_, ?_, fun other => (kept other).live_iff, map, before.shows, after.shows⟩
  · rw [count_eq after, count_eq before]
  · rw [keyCount_eq after, keyCount_eq before]

def passing (call : TableCall) (store : Unreliable) : Unreliable :=
  store.setPlan call (store.plans.find call).advance

def overEmpty (name : String) (codec : Codec D) (limit : Nat) (stores : Stores Unreliable) :
    SetTable Unreliable D where
  name := name
  codec := codec
  limit := limit
  stores := {
    primary := passing .cursor stores.primary
    overflow := passing .cursor (passing .get stores.overflow) }
  sets := .empty 1
  nextId := 1
  headerDirty := false
  count := 0
  isClosed := false

def fullStores : Stores Unreliable where
  primary := (Unreliable.ofEntries .empty).setPlan .put (.after 1)
  overflow := (Unreliable.ofEntries .empty).setPlan .remove (.after 0)

theorem failed_call_unseen_move :
    openOver "ids" .uint64 1 1 fullStores =
        (.ok (overEmpty "ids" .uint64 1 fullStores), (overEmpty "ids" .uint64 1 fullStores).stores) ∧
      ∃ after,
        Call.perform (.ask (.put [7] 3))
            ((overEmpty "ids" .uint64 1 fullStores).afterCalls [.ask (.put [7] 5)]) =
          (.error (.io "ids" (.failed "put failed: disk full")), after) ∧
        after.count =
          ((overEmpty "ids" .uint64 1 fullStores).afterCalls [.ask (.put [7] 5)]).count ∧
        after.keyCount =
          ((overEmpty "ids" .uint64 1 fullStores).afterCalls [.ask (.put [7] 5)]).keyCount ∧
        (Call.ask (.put [7] (3 : UInt64)) ≠ .close → (after.Live ↔
          ((overEmpty "ids" .uint64 1 fullStores).afterCalls [.ask (.put [7] 5)]).Live)) ∧
        ∃ map, Shows .uint64 map
            ((overEmpty "ids" .uint64 1 fullStores).afterCalls [.ask (.put [7] 5)]) ∧
          Shows .uint64 map after := by
  have opening : openOver "ids" .uint64 1 1 fullStores =
      (.ok (overEmpty "ids" .uint64 1 fullStores), _) := rfl
  have failed : Call.perform (.ask (.put [7] 3))
      ((overEmpty "ids" .uint64 1 fullStores).afterCalls [.ask (.put [7] 5)]) =
      (.error (.io "ids" (.failed "put failed: disk full")), _) := Prod.ext (by decide +kernel) rfl
  exact ⟨opening, _, failed, failed_call_unseen Codec.uint64_faithful rfl rfl opening _ (by decide)
    _ failed⟩

end SetTable

end AttributeIndex
