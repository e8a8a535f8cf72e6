import AttributeIndex.Proofs.Log.Reading
import Mathlib.Data.List.Flatten

namespace AttributeIndex

open AttributeIndex.Action AttributeIndex.Frame

namespace Frame

def putsOf (entries : SortedMap Bytes Bytes) : List Frame :=
  entries.entries.map fun entry => ⟨.put, entry.1, entry.2⟩

theorem mem_putsOf {entries : SortedMap Bytes Bytes} {frame : Frame} :
    frame ∈ putsOf entries ↔ frame.op = .put ∧ entries.find? frame.key = some frame.value := by
  rw [putsOf, List.mem_map, SortedMap.find?_eq_some]
  constructor
  · rintro ⟨entry, member, rfl⟩
    exact ⟨rfl, member⟩
  · rintro ⟨put, member⟩
    obtain ⟨op, key, value⟩ := frame
    obtain rfl := put
    exact ⟨(key, value), member, rfl⟩

theorem contentsOf_putsOf (entries : SortedMap Bytes Bytes) :
    contentsOf (putsOf entries) = entries := by
  refine SortedMap.ext_find? fun key => Option.ext fun value => ?_
  rw [find?_contentsOf]
  constructor
  · rintro ⟨before, last⟩
    exact (mem_putsOf.1 last.mem).2
  · intro found
    obtain ⟨before, after, split⟩ := List.append_of_mem (SortedMap.find?_eq_some.1 found)
    have distinct := entries.nodup_keys
    rw [SortedMap.keys, split] at distinct
    refine ⟨before.map fun entry => ⟨.put, entry.1, entry.2⟩,
      after.map fun entry => ⟨.put, entry.1, entry.2⟩, by simp [putsOf, split], ?_⟩
    intro frame member same
    obtain ⟨entry, later, rfl⟩ := List.mem_map.1 member
    simp only [List.map_append, List.map_cons] at distinct
    have fresh := (List.nodup_cons.1 distinct.of_append_right).1
    exact fresh (List.mem_map.2 ⟨entry, later, same⟩)

theorem length_putsOf_le (frames : List Frame) :
    (encodeAll (putsOf (contentsOf frames))).length ≤ (encodeAll frames).length := by
  have distinct : (putsOf (contentsOf frames)).Nodup := by
    refine (contentsOf frames).nodup_entries.map fun first second same => ?_
    simp only [Frame.mk.injEq, true_and] at same
    exact Prod.ext same.1 same.2
  have among : putsOf (contentsOf frames) ⊆ frames := by
    rintro ⟨op, key, value⟩ member
    obtain ⟨rfl, found⟩ := mem_putsOf.1 member
    obtain ⟨before, last⟩ := find?_contentsOf.1 found
    exact last.mem
  obtain ⟨chosen, same, within⟩ := List.subperm_of_subset distinct among
  calc (encodeAll (putsOf (contentsOf frames))).length
      = (encodeAll chosen).length := (same.symm.flatMap_right encode).length_eq
    _ ≤ (encodeAll frames).length := (within.flatMap encode).length_le

end Frame

namespace LogState

theorem append_put {state : LogState} {key value : Bytes} (fresh : state.directory.find? key = none) :
    state.append ⟨.put, key, value⟩ =
      ⟨state.directory.insert key ⟨state.size + headerSize + key.length, value.length⟩,
        state.size + lengthOf key.length value.length, state.garbage⟩ := by
  simp [append, frameLengthOf, fresh, Frame.length]

def place (state : LogState) (entry : Bytes × Location) : LogState where
  directory := state.directory.insert entry.1
    ⟨state.size + headerSize + entry.1.length, entry.2.length⟩
  size := state.size + entry.2.frameLength entry.1.length
  garbage := 0

theorem foldl_place {bytes : Bytes} (entries : List (Bytes × Location)) (state : LogState)
    (clean : state.garbage = 0) (distinct : (entries.map Prod.fst).Nodup)
    (fresh : ∀ entry ∈ entries, state.directory.find? entry.1 = none)
    (sized : ∀ entry ∈ entries, (entry.2.slice bytes).length = entry.2.length) :
    entries.foldl place state =
      (entries.map fun entry => ⟨.put, entry.1, entry.2.slice bytes⟩).foldl append state := by
  induction entries generalizing state with
  | nil => rfl
  | cons entry entries ih =>
    obtain ⟨absent, others⟩ := List.forall_mem_cons.1 fresh
    obtain ⟨here, there⟩ := List.forall_mem_cons.1 sized
    rw [List.map_cons, List.nodup_cons] at distinct
    have placed : state.append ⟨.put, entry.1, entry.2.slice bytes⟩ = state.place entry := by
      rw [append_put absent, clean, here]
      rfl
    rw [List.map_cons, List.foldl_cons, List.foldl_cons, placed]
    refine ih _ rfl distinct.2 (fun other member => ?_) there
    have apart : other.1 ≠ entry.1 :=
      fun same => distinct.1 (List.mem_map.2 ⟨other, member, same⟩)
    rw [place, SortedMap.find?_insert, if_neg apart]
    exact others other member

theorem compacted_eq {directory : SortedMap Bytes Location} {bytes : Bytes}
    (sized : ∀ entry ∈ directory.entries, (entry.2.slice bytes).length = entry.2.length) :
    compacted directory =
      ofFrames (putsOf (directory.mapValues fun _ location => location.slice bytes)) := by
  have start : compacted directory = directory.entries.foldl place empty := rfl
  rw [start, foldl_place _ _ rfl directory.nodup_keys (fun _ _ => rfl) sized, ofFrames, putsOf,
    SortedMap.mapValues, List.map_map]
  rfl

theorem compacted_ofFrames (frames : List Frame) :
    compacted (ofFrames frames).directory = ofFrames (putsOf (contentsOf frames)) := by
  rw [contentsOf_eq]
  refine compacted_eq fun entry member => Location.length_slice ?_
  obtain ⟨before, value, last, placed⟩ := find?_ofFrames.1 (SortedMap.find?_eq_some.2 member)
  exact placed ▸ last.inside

end LogState

namespace LogTable

variable {path : String} {refusals : SortedMap String IoError} {frames : List Frame}
  {table flushed : LogTable}

/-! ## Copying -/

def withSibling (content : Bytes) (table : LogTable) : LogTable :=
  { table with files := table.files.write (siblingPath table.path) content }

def sibling (table : LogTable) : Bytes :=
  table.files.content (siblingPath table.path)

@[simp]
theorem sibling_withSibling (content : Bytes) : (table.withSibling content).sibling = content :=
  table.files.content_write (siblingPath table.path) content

@[simp]
theorem withSibling_withSibling (first content : Bytes) :
    (table.withSibling first).withSibling content = table.withSibling content := by
  simp [withSibling]

theorem file_withSibling (apart : siblingPath table.path ≠ table.path) (content : Bytes) :
    (table.withSibling content).file = table.file :=
  table.files.content_write_of_ne (siblingPath table.path) content apart.symm

theorem copyValues_cons {key : Bytes} {location : Location} {frame : Bytes}
    (framed : (table.readValue location >>= fun value => Frame.write ⟨.put, key, value⟩) =
      .ok frame) (entries : List (Bytes × Location)) (pending : Bytes) :
    copyValues ((key, location) :: entries) pending table =
      copyValues entries (Appender.write ⟨table.sibling, pending⟩ frame).pending
        (table.withSibling (Appender.write ⟨table.sibling, pending⟩ frame).file) := by
  simp only [copyValues, framed]
  rfl

theorem copyValues_eq (bytes : Bytes) (entries : List (Bytes × Location))
    (apart : siblingPath table.path ≠ table.path)
    (readable : ∀ entry ∈ entries, table.readValue entry.2 = .ok (entry.2.slice bytes))
    (fits : ∀ entry ∈ entries, Fits ⟨.put, entry.1, entry.2.slice bytes⟩) (pending : Bytes) :
    copyValues entries pending table =
      (.ok (), table.withSibling (table.sibling ++ pending ++
        encodeAll (entries.map fun entry => ⟨.put, entry.1, entry.2.slice bytes⟩))) := by
  induction entries generalizing table pending with
  | nil =>
    rw [List.map_nil, encodeAll_nil, List.append_nil]
    rfl
  | cons entry entries ih =>
    obtain ⟨key, location⟩ := entry
    obtain ⟨first, others⟩ := List.forall_mem_cons.1 readable
    obtain ⟨fit, fits⟩ := List.forall_mem_cons.1 fits
    have framed : (table.readValue location >>= fun value => Frame.write ⟨.put, key, value⟩) =
        .ok (encode ⟨.put, key, location.slice bytes⟩) := by
      rw [first, ok_bind, write_of_fits fit]
    have added : (Appender.write ⟨table.sibling, pending⟩
        (encode ⟨.put, key, location.slice bytes⟩)).toBytes = table.sibling ++ pending ++
          encode ⟨.put, key, location.slice bytes⟩ := Appender.toBytes_write _ _
    rw [copyValues_cons framed]
    generalize Appender.write ⟨table.sibling, pending⟩ _ = out at added ⊢
    -- Only the file beside the log is written, so what is still to be copied reads as before.
    have unchanged : ∀ entry ∈ entries,
        (table.withSibling out.file).readValue entry.2 = .ok (entry.2.slice bytes) := by
      intro entry member
      rw [readValue, file_withSibling apart]
      exact others entry member
    have still : siblingPath (table.withSibling out.file).path ≠ (table.withSibling out.file).path :=
      apart
    rw [ih still unchanged fits, sibling_withSibling, withSibling_withSibling]
    rw [Appender.toBytes] at added
    simp [added]

theorem copyValues_meets (entries : List (Bytes × Location)) (pending : Bytes) :
    (copyValues entries pending).Meets table
      (fun _ after => ∃ content, after = table.withSibling content)
      fun _ after => ∃ content, after = table.withSibling content := by
  induction entries generalizing table pending with
  | nil => exact ⟨_, rfl⟩
  | cons entry entries ih =>
    obtain ⟨key, location⟩ := entry
    cases framed : table.readValue location >>= fun value => Frame.write ⟨.put, key, value⟩ with
    | error failure =>
      have failed : copyValues ((key, location) :: entries) pending table =
          (.error failure, flushSibling pending table) := by
        simp only [copyValues, framed]
      rw [Meets, failed]
      exact ⟨_, rfl⟩
    | ok frame =>
      rw [Meets, copyValues_cons framed]
      refine (ih _).mono ?_ ?_
      · rintro _ _ ⟨content, rfl⟩
        exact ⟨content, withSibling_withSibling _ _⟩
      · rintro _ _ ⟨content, rfl⟩
        exact ⟨content, withSibling_withSibling _ _⟩

theorem replaceBySibling_withSibling (content : Bytes) :
    replaceBySibling (table.withSibling content) =
      ⟨table.path, (table.files.erase (siblingPath table.path)).write table.path content, some [],
        .compacted table.state.directory⟩ := by
  simp [replaceBySibling, withSibling]

/-! ## Compaction -/

/-- The state of the table is what the given frames say, whatever has become of its file. -/
structure Recalls (path : String) (refusals : SortedMap String IoError) (frames : List Frame)
    (table : LogTable) : Prop where
  path_eq : table.path = path
  refusals_eq : table.files.refusals = refusals
  fits : ∀ frame ∈ frames, frame.Fits
  state_eq : table.state = .ofFrames frames

theorem Logs.recalls (logs : Logs path refusals frames table) : Recalls path refusals frames table :=
  ⟨logs.path_eq, logs.refusals_eq, logs.fits, logs.state_eq⟩

theorem Recalls.flushes (recalls : Recalls path refusals frames table)
    (flushes : Flushes table flushed) : Recalls path refusals frames flushed where
  path_eq := flushes.path_eq.trans recalls.path_eq
  refusals_eq := flushes.refusals_eq.trans recalls.refusals_eq
  fits := recalls.fits
  state_eq := flushes.state_eq.trans recalls.state_eq

theorem Recalls.fits_values (recalls : Recalls path refusals frames table)
    (readable : table.Readable) : ∀ frame ∈ putsOf table.values, frame.Fits := by
  rintro ⟨op, key, value⟩ member
  obtain ⟨rfl, stored⟩ := mem_putsOf.1 member
  rw [find?_values, Option.map_eq_some_iff] at stored
  obtain ⟨location, found, rfl⟩ := stored
  have sized := (readable.readValue_eq found).2
  rw [recalls.state_eq] at found
  obtain ⟨before, value, last, placed⟩ := LogState.find?_ofFrames.1 found
  have fit := recalls.fits _ last.mem
  have length : location.length = value.length := by rw [placed, Location.behind]
  exact ⟨fit.key_le, (sized.trans length).trans_le fit.value_le⟩

theorem Recalls.copyValues_values (recalls : Recalls path refusals frames table)
    (apart : siblingPath table.path ≠ table.path) (readable : table.Readable) :
    copyValues table.state.directory.entries [] (table.withSibling []) =
      (.ok (), table.withSibling (encodeAll (putsOf table.values))) := by
  have listed : putsOf table.values = table.state.directory.entries.map fun entry =>
      ⟨.put, entry.1, entry.2.slice table.file⟩ := by
    rw [putsOf, values, SortedMap.mapValues, List.map_map]
    rfl
  have fits := recalls.fits_values readable
  rw [listed] at fits ⊢
  have started : siblingPath (table.withSibling []).path ≠ (table.withSibling []).path := apart
  rw [copyValues_eq table.file _ started ?_ (List.forall_mem_map.1 fits)]
  · simp
  · intro entry member
    rw [readValue, file_withSibling apart]
    exact (readable.readValue_eq (SortedMap.find?_eq_some.2 member)).1

def rewritten (path : String) (files : Files) (entries : SortedMap Bytes Bytes) : LogTable :=
  ofFrames path (files.erase (siblingPath path)) (putsOf entries)

theorem Recalls.compact_eq (recalls : Recalls path refusals frames flushed)
    (flushes : Flushes table flushed) (granted : refusals.find? (siblingPath path) = none)
    (apart : siblingPath path ≠ path) (readable : flushed.Readable) :
    compact table = (.ok (), rewritten path flushed.files flushed.values) := by
  obtain rfl := recalls.path_eq
  have made : flushed.files.create (siblingPath flushed.path) [] =
      .ok (flushed.withSibling []).files :=
    flushed.files.create_of_granted _ [] (by rwa [recalls.refusals_eq])
  have sized : ∀ entry ∈ flushed.state.directory.entries,
      (entry.2.slice flushed.file).length = entry.2.length :=
    fun entry member => (readable.readValue_eq (SortedMap.find?_eq_some.2 member)).2
  have copied := recalls.copyValues_values apart readable
  apply Meets.eq_ok
  unfold compact
  rw [meets_bind]
  refine meets_of_eq_ok flushes.flush_eq ?_
  rw [meets_bind, meets_get, meets_bind, meets_ofResult, made]
  dsimp only
  rw [meets_bind, meets_set, meets_bind, meets_get, meets_bind]
  have replaced : replaceBySibling (flushed.withSibling (encodeAll (putsOf flushed.values))) =
      rewritten flushed.path flushed.files flushed.values := by
    rw [replaceBySibling_withSibling, LogState.compacted_eq sized]
    rfl
  exact meets_of_eq_ok copied (meets_modify.2 ⟨rfl, replaced⟩)

theorem Flushes.compact_of_refused (flushes : Flushes table flushed) {failure : IoError}
    (refused : flushed.files.refusals.find? (siblingPath flushed.path) = some failure) :
    compact table = (.error failure, flushed) := by
  apply Meets.eq_error
  unfold compact
  rw [meets_bind]
  refine meets_of_eq_ok flushes.flush_eq ?_
  rw [meets_bind, meets_get, meets_bind, meets_ofResult, Files.create, refused]
  exact ⟨rfl, rfl⟩

theorem compact_of_closed (closed : table.pending = none) :
    compact table = (.error table.closedError, table) := by
  rw [compact, bind_apply, flush_of_closed closed]

theorem Recalls.fits_putsOf (recalls : Recalls path refusals frames table) :
    ∀ frame ∈ putsOf (contentsOf frames), frame.Fits := by
  rintro ⟨op, key, value⟩ member
  obtain ⟨rfl, stored⟩ := mem_putsOf.1 member
  exact fits_of_stored recalls.fits stored

theorem Recalls.withSibling (recalls : Recalls path refusals frames table) (content : Bytes) :
    Recalls path refusals frames (table.withSibling content) :=
  ⟨recalls.path_eq, recalls.refusals_eq, recalls.fits, recalls.state_eq⟩

theorem Recalls.compact_meets (recalls : Recalls path refusals frames table) :
    compact.Meets table
      (fun _ after => Recalls path refusals (putsOf (contentsOf frames)) after)
      (fun _ after => Recalls path refusals frames after) := by
  rcases closed_or_flushes table with closed | ⟨flushed, flushes⟩
  · rw [Meets, compact_of_closed closed]
    exact recalls
  · have held := recalls.flushes flushes
    cases refused : flushed.files.refusals.find? (siblingPath flushed.path) with
    | some failure =>
      rw [Meets, flushes.compact_of_refused refused]
      exact held
    | none =>
      unfold compact
      rw [meets_bind]
      refine meets_of_eq_ok flushes.flush_eq ?_
      rw [meets_bind, meets_get, meets_bind, meets_ofResult, Files.create_of_granted _ _ _ refused]
      dsimp only
      rw [meets_bind, meets_set, meets_bind, meets_get, meets_bind]
      refine (copyValues_meets _ _).mono ?_ ?_
      · rintro _ _ ⟨content, rfl⟩
        refine meets_modify.2 ⟨held.path_eq, held.refusals_eq, held.fits_putsOf, ?_⟩
        rw [← LogState.compacted_ofFrames, ← held.state_eq]
        rfl
      · rintro _ _ ⟨content, rfl⟩
        exact (held.withSibling []).withSibling content

theorem Logs.compact_meets (logs : Logs path refusals frames table) (opened : table.pending.isSome)
    (room : table.logSize < positionLimit) (apart : siblingPath path ≠ path) :
    compact.Meets table
      (fun _ after => refusals.find? (siblingPath path) = none ∧ after.pending.isSome ∧
        Logs path refusals (putsOf (contentsOf frames)) after)
      (fun failure after => refusals.find? (siblingPath path) = some failure ∧
        after.pending.isSome ∧ Logs path refusals frames after) := by
  obtain ⟨flushed, flushes⟩ := exists_flushes opened
  obtain ⟨written, held⟩ := (logs.flush_meets opened).ok_of flushes.flush_eq
  have same : flushed.logSize = table.logSize := by rw [held.logSize_eq, logs.logSize_eq]
  have drained : flushed.pending.getD [] = [] := by rw [written]; rfl
  cases refused : refusals.find? (siblingPath path) with
  | some failure =>
    have stopped : compact table = (.error failure, flushed) :=
      flushes.compact_of_refused (by rw [held.path_eq, held.refusals_eq, refused])
    rw [Meets, stopped]
    exact ⟨rfl, by simp [written], held⟩
  | none =>
    have readable := held.readable drained (same ▸ room)
    rw [Meets, held.recalls.compact_eq flushes refused apart readable, held.values_eq drained]
    have copied := logs_ofFrames path (flushed.files.erase (siblingPath path))
      held.recalls.fits_putsOf
    exact ⟨rfl, rfl, by simpa [rewritten, Files.erase, held.refusals_eq] using copied⟩

end LogTable

end AttributeIndex
