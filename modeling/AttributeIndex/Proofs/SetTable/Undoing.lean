import AttributeIndex.Proofs.SetTable.Life

namespace AttributeIndex

open Observed
open SetTable (recordKey headerId)

namespace Layout

variable {D : Type} [Ord D] {before middle after layout : Layout D} {key : Bytes} {id : UInt64}

/-- The slot of the key leads to a record that is not there. -/
def Lost (layout : Layout D) (key : Bytes) : Prop :=
  ∃ id, layout.Leads key id ∧ layout.records.find? (recordKey id) = none

theorem Lost.not_recorded (lost : layout.Lost key) : ¬ layout.Recorded := by
  intro recorded
  obtain ⟨id, leads, missing⟩ := lost
  obtain ⟨list, stored, _⟩ := recorded key id leads
  obtain ⟨bytes, _, found, _⟩ := stored?_eq_some.1 stored
  cases missing.symm.trans found

theorem Slip.idle_or_lost {lost : Option Bytes} (slip : Slip lost before after)
    (idle : ∀ id, ¬ before.Waits id) :
    (∀ id, ¬ after.Waits id) ∨ ∃ key, lost = some key ∧ after.Lost key := by
  cases slip with
  | orphaned moves orphan =>
    refine .inl fun id ⟨cached, found, dirty⟩ => ?_
    rw [orphan.sets_eq] at found
    exact idle id ⟨cached, moves.waits found dirty, dirty⟩
  | @unfiled _ _ _ key moves unfile =>
    refine .inr ⟨key, rfl, ?_⟩
    cases unfile with
    | @lost id cached leads found =>
      exact ⟨id, leads, (SortedMap.find?_erase _ _ _).trans (if_pos rfl)⟩

theorem Move.missing (move : Move before after) (proper : id ≠ headerId)
    (absent : before.sets.find? id = none)
    (missing : before.records.find? (recordKey id) = none) :
    after.sets.find? id = none ∧ after.records.find? (recordKey id) = none := by
  cases move with
  | recache bounded capacity kept =>
    refine ⟨?_, missing⟩
    rcases kept id with same | ⟨gone, _⟩
    · exact same.trans absent
    · exact gone
  | @writeBack written _ _ _ found _ _ _ _ others _ =>
    have apart : id ≠ written := by
      rintro rfl
      cases absent.symm.trans found
    exact ⟨(others id apart).trans absent,
      (SortedMap.find?_insert _ _ _ _).trans ((if_neg (mt recordKey_inj.1 apart)).trans missing)⟩
  | @load _ loaded _ _ _ _ located _ room =>
    have apart : id ≠ loaded := by
      rintro rfl
      cases missing.symm.trans located
    exact ⟨(Lru.find?_insert room _ _ _).trans ((if_neg apart).trans absent), missing⟩
  | announce =>
    exact ⟨absent,
      (SortedMap.find?_insert _ _ _ _).trans ((if_neg (mt recordKey_inj.1 proper)).trans missing)⟩

theorem Moves.missing (moves : Moves before after) (proper : id ≠ headerId)
    (absent : before.sets.find? id = none)
    (missing : before.records.find? (recordKey id) = none) :
    after.sets.find? id = none ∧ after.records.find? (recordKey id) = none := by
  induction moves with
  | refl => exact ⟨absent, missing⟩
  | tail _ move earlier => exact move.missing proper earlier.1 earlier.2

theorem Coherent.view_dropped [Std.TransOrd D] (coherent : layout.Coherent)
    (idle : ∀ id, ¬ layout.Waits id) : layout.dropped.view = layout.view :=
  SetMap.Proper.ext (coherent.dropped (coherent.recorded_of_idle idle)).proper coherent.proper
    fun _ => coherent.setOf_dropped_of_idle fun id _ => idle id

end Layout

namespace SetTable

open Layout Stores

variable {σ D : Type} [Ord D] [Std.TransOrd D] [Table σ] [LawfulTable σ] {codec : Codec D}
  {map : SetMap D} {ids : Nat} {table synced after again : SetTable σ D} {stores : Stores σ}

theorem synced_idle (models : Models codec map ids table.layout) {answer : Answer D}
    (done : Request.sync.perform table = (.ok answer, synced)) :
    Models codec map ids synced.layout ∧ ∀ id, ¬ synced.layout.Waits id := by
  have syncs : Does Request.sync.perform table False
      (fun _ after => Settled table.layout after ∧ Clean after) (Settled table.layout) :=
    does_bind (sync_does models.coherent False.elim) fun _ _ _ clean => does_pure clean
  obtain ⟨_, settled, clean⟩ := Action.Meets.ok_of syncs done
  refine ⟨models.settled settled, fun id ⟨cached, found, dirty⟩ => ?_⟩
  rw [clean id cached found] at dirty
  cases dirty

theorem failed_idle_or_lost (request : Request D) (cache : table.layout.CacheOrdered)
    (idle : ∀ id, ¬ table.layout.Waits id) {failure : Error}
    (failed : request.perform table = (.error failure, after)) :
    (∀ id, ¬ after.layout.Waits id) ∨
      ∃ key, request.releases? = some key ∧ after.layout.Lost key := by
  obtain ⟨_, moves | ⟨slip, _⟩⟩ := Action.Meets.failed_of (perform_passes request cache) failed
  · exact .inl fun id ⟨cached, found, dirty⟩ =>
      idle id ⟨cached, Moves.waits moves found dirty, dirty⟩
  · exact slip.idle_or_lost idle

theorem elements_of_missing {key : Bytes} {id : UInt64} (cache : table.layout.CacheOrdered)
    (leads : table.layout.Leads key id) (proper : id ≠ headerId)
    (absent : table.layout.sets.find? id = none)
    (missing : table.layout.records.find? (recordKey id) = none) {answer : Answer D}
    (read : Request.perform (.elements key) table = (.ok answer, after)) : answer = .set none := by
  have reads : Does (Request.perform (.elements key)) table False
      (fun answer _ => answer = .set none) (fun _ => True) := by
    refine does_bind ((elements_moves cache False.elim).mono (fun _ _ done => done)
      fun _ _ => trivial) ?_
    intro set after _ ⟨moves, _, same, _⟩
    obtain ⟨gone, nowhere⟩ := moves.missing proper absent missing
    have current : after.layout.current? id = none := by
      rw [current?_of_absent gone, stored?, nowhere]
      rfl
    rw [moves.alike.slot?_eq, leads, Option.bind_some] at same
    exact does_pure (congrArg Answer.set (same.trans current))
  exact (Action.Meets.ok_of reads read).2

omit [Std.TransOrd D] in
theorem reads_same_stores {name : String} {holding : Holding σ D} {limit cacheSize : Nat}
    (reached : holding.next name codec (.reopen limit cacheSize) = .opened again) :
    again.layout.slots = contents holding.stores.primary ∧
      again.layout.records = contents holding.stores.overflow ∧
      again.layout.CacheOrdered ∧ ∀ id, again.layout.sets.find? id = none := by
  have browses := openOver_browses name codec limit cacheSize holding.stores.reopened
  rw [Holding.next] at reached
  split at reached
  · rename_i performed
    cases reached
    obtain ⟨browsed, _, sets_eq, _, _, cached⟩ := browses.ok_of performed
    exact ⟨browsed.primary.contents_eq.trans (LawfulTable.contents_reopen _),
      browsed.overflow.contents_eq.trans (LawfulTable.contents_reopen _),
      cacheOrdered_of_empty cached sets_eq, uncached_of_empty sets_eq⟩
  · cases reached

theorem elements_of_lost {name : String} {key : Bytes} {limit cacheSize : Nat}
    (coherent : table.layout.Coherent) (lost : table.layout.Lost key)
    (reached : (Holding.opened table).next name codec (.reopen limit cacheSize) = .opened again)
    {answer : Answer D} (read : Request.perform (.elements key) again = (.ok answer, after)) :
    answer = .set none := by
  obtain ⟨id, leads, missing⟩ := lost
  obtain ⟨slots, records, cache, uncached⟩ := reads_same_stores reached
  refine elements_of_missing cache (leads_iff.2 ?_) (coherent.ne_header leads) (uncached id) ?_ read
  · rw [slots]
    exact leads_iff.1 leads
  · rw [records]
    exact missing

omit [Std.TransOrd D] [Table σ] [LawfulTable σ] in
theorem Models.find?_of_lost {layout : Layout D} {key : Bytes} (models : Models codec map ids layout)
    (lost : layout.Lost key) : ∃ set, map.find? key = some set := by
  obtain ⟨id, leads, _⟩ := lost
  refine ⟨layout.view.setOf key, ?_⟩
  rw [← models.view_eq, models.coherent.find?_view, leads]
  exact (models.coherent.current_of_leads leads).1

structure Restores (codec : Codec D) (map : SetMap D) (again : SetTable σ D) : Prop where
  live : again.Live
  shows : Shows codec map again
  fits : map.Fits codec

theorem reopen_of_idle (models : Models codec map ids table.layout) (fitted : table.layout.Fitted)
    (idle : ∀ id, ¬ table.layout.Waits id) (name : String) {limit cacheSize : Nat}
    (limited : 0 < limit) (cached : 0 < cacheSize)
    (quiet : ((Holding.opened table).next name codec (.reopen limit cacheSize)).stores.failures =
      table.stores.failures) :
    ∃ again, (Holding.opened table).next name codec (.reopen limit cacheSize) = .opened again ∧
      Restores codec map again ∧ again.count = map.total := by
  have hold : Hold codec _ _ _ (Holding.opened table).stores :=
    .of_table models fitted (models.coherent.recorded_of_idle idle)
  rw [models.coherent.view_dropped idle, models.view_eq] at hold
  rcases hold.next name limit cacheSize with ⟨again, opened, fresh⟩ | ⟨left, refused, _, more⟩
  · exact ⟨again, opened, ⟨fresh.live, fresh.models.shows, fresh.fits⟩, count_eq fresh.models⟩
  · rw [refused] at quiet
    exact absurd quiet (Nat.ne_of_gt (more limited cached))

/-- After a request that fails right after everything was made durable, the handle may be dropped and
the next one shows what was shown before, if the records of all sets are there. Otherwise the request
was to give up a set, and that set cannot be read any more. Record ids have 64 bits, so the life must
be shorter. -/
theorem reopen_after_failed (faithful : codec.Faithful) (noSlots : contents stores.primary = .empty)
    (noRecords : contents stores.overflow = .empty) (name : String) (events : List (Event D))
    (leaveRecords : DropsLeaveRecords stores name codec events) (short : events.length + 3 < 2 ^ 64)
    (reached : stores.after name codec events = .opened table) {answer : Answer D}
    (done : Request.sync.perform table = (.ok answer, synced)) (request : Request D)
    {failure : Error} (failed : request.perform synced = (.error failure, after)) :
    ∃ map, Shows codec map synced ∧
      (after.layout.Recorded → ∀ limit cacheSize, 0 < limit → 0 < cacheSize →
        ((Holding.opened after).next name codec (.reopen limit cacheSize)).stores.failures =
          after.stores.failures →
        ∃ again, (Holding.opened after).next name codec (.reopen limit cacheSize) = .opened again ∧
          Restores codec map again ∧ again.count = synced.count) ∧
      (¬ after.layout.Recorded → ∃ key set, request.releases? = some key ∧
        map.find? key = some set ∧ ∀ limit cacheSize again,
          (Holding.opened after).next name codec (.reopen limit cacheSize) = .opened again →
          ∀ answer last, Request.perform (.elements key) again = (.ok answer, last) →
            answer ≠ .set (some set)) := by
  have keeps := keeps_after faithful noSlots noRecords events leaveRecords (by omega)
  rw [reached] at keeps
  cases keeps with
  | @opened map _ models fitted =>
    obtain ⟨rests, idle⟩ := synced_idle models done
    have roomy := models.nextId_le
    have syncedRan := (request_ran .sync models.coherent.cacheOrdered).ok_of done
    have syncedFitted := (syncedRan.persists models.coherent (by omega)).fitted fitted
    have still := rests.nextId_le
    have ran := (request_ran request rests.coherent.cacheOrdered).failed_of failed
    have afterFitted := (ran.persists rests.coherent (by omega)).fitted syncedFitted
    have same : Models codec map _ after.layout := (Action.Meets.failed_of
      (perform_does request rests (by omega) fun impossible : False => impossible.elim) failed).2
    refine ⟨map, rests.shows, ?_⟩
    rcases failed_idle_or_lost request rests.coherent.cacheOrdered idle failed with
      idle | ⟨key, gives, lost⟩
    · have recorded := same.coherent.recorded_of_idle idle
      refine ⟨fun _ limit cacheSize limited cached quiet => ?_, absurd recorded⟩
      obtain ⟨again, opened, restores, counted⟩ :=
        reopen_of_idle same afterFitted idle name limited cached quiet
      exact ⟨again, opened, restores, counted.trans (count_eq rests).symm⟩
    · refine ⟨fun recorded => absurd recorded lost.not_recorded, fun _ => ?_⟩
      obtain ⟨set, found⟩ := same.find?_of_lost lost
      refine ⟨key, set, gives, found, fun limit cacheSize again opened answer last read => ?_⟩
      rw [elements_of_lost same.coherent lost opened read]
      rintro ⟨⟩

def halfFull : SetTable Unreliable UInt64 :=
  (overEmpty "ids" .uint64 1 fullStores).afterCalls [.ask (.put [7] 5)]

theorem reopen_after_failed_move :
    fullStores.after "ids" .uint64 [.reopen 1 1, .call (.ask (.put [7] 5))] = .opened halfFull ∧
    ∃ synced after again map,
      Request.sync.perform halfFull = (.ok .done, synced) ∧
      (Request.put [7] 3).perform synced =
        (.error (.io "ids" (.failed "put failed: disk full")), after) ∧
      (Holding.opened after).next "ids" .uint64 (.reopen 2 2) = .opened again ∧
      Shows .uint64 map synced ∧ Restores .uint64 map again ∧ again.count = synced.count := by
  have reached : fullStores.after "ids" .uint64 [.reopen 1 1, .call (.ask (.put [7] 5))] =
      .opened halfFull := rfl
  have leaveRecords :
      DropsLeaveRecords fullStores "ids" .uint64 [.reopen 1 1, .call (.ask (.put [7] 5))] :=
    (dropsLeaveRecords_nil.reopen trivial 1 1).call _
  have done : Request.sync.perform halfFull = (.ok .done, _) := Prod.ext (by decide +kernel) rfl
  have failed : (Request.put [7] 3).perform (Request.sync.perform halfFull).2 =
      (.error (.io "ids" (.failed "put failed: disk full")), _) := Prod.ext (by decide +kernel) rfl
  obtain ⟨map, shows, restored, _⟩ := reopen_after_failed Codec.uint64_faithful rfl rfl "ids" _
    leaveRecords (by decide) reached done _ failed
  obtain ⟨again, opened, restores, counted⟩ := restored (by decide +kernel) 2 2 (by decide)
    (by decide) (by decide +kernel)
  exact ⟨reached, _, _, again, map, done, failed, opened, shows, restores, counted⟩

def moved : List (Event UInt64) :=
  [.reopen 1 4, .call (.ask (.put [7] 1)), .call (.ask (.put [7] 2))]

/-- A set could not be given up, and its record is gone. -/
theorem not_reopen_after_failed_take :
    (stuckStores.after "ids" .uint64 moved).answer? .sync = some (.ok .done) ∧
    (stuckStores.after "ids" .uint64 (moved ++ [.call (.ask .sync)])).answer? (.elements [7]) =
      some (.ok (.set (some [1, 2]))) ∧
    (stuckStores.after "ids" .uint64 (moved ++ [.call (.ask .sync)])).answer? (.take [7]) =
      some (.error (.io "ids" (.failed "remove failed: disk full"))) ∧
    (stuckStores.after "ids" .uint64 (moved ++ [.call (.ask .sync), .call (.ask (.take [7])),
      .reopen 1 4])).answer? (.elements [7]) = some (.error (.notFound "ids overflow record 1")) := by
  refine ⟨?_, ?_, ?_, ?_⟩ <;> decide +kernel

end SetTable

end AttributeIndex
