import AttributeIndex.Proofs.Log.Opening

namespace AttributeIndex

open AttributeIndex.Action AttributeIndex.Frame

namespace LogTable

def log (table : LogTable) : Bytes :=
  table.file ++ table.pending.getD []

/-- The table at a path holds the given frames: its bytes are theirs and its state is what they say. -/
structure Logs (path : String) (refusals : SortedMap String IoError) (frames : List Frame)
    (table : LogTable) : Prop where
  path_eq : table.path = path
  refusals_eq : table.files.refusals = refusals
  fits : ∀ frame ∈ frames, frame.Fits
  log_eq : table.log = encodeAll frames
  state_eq : table.state = .ofFrames frames

variable {path : String} {refusals : SortedMap String IoError} {frames : List Frame}
  {table : LogTable}

theorem content_release (table : LogTable) : table.release.content table.path = table.log := by
  rw [release, log]
  cases table.pending with
  | none => simp [file]
  | some pending => simp

theorem refusals_release (table : LogTable) : table.release.refusals = table.files.refusals := by
  rw [release]
  cases table.pending <;> rfl

namespace Logs

theorem logSize_eq (logs : Logs path refusals frames table) :
    table.logSize = (encodeAll frames).length := by
  rw [logSize, logs.state_eq, LogState.size_ofFrames]

theorem file_eq (logs : Logs path refusals frames table) (written : table.pending.getD [] = []) :
    table.file = encodeAll frames := by
  rw [← logs.log_eq, log, written, List.append_nil]

theorem content_release (logs : Logs path refusals frames table) :
    table.release.content path = encodeAll frames := by
  rw [← logs.path_eq, LogTable.content_release, logs.log_eq]

theorem refusals_release (logs : Logs path refusals frames table) :
    table.release.refusals = refusals := by
  rw [LogTable.refusals_release, logs.refusals_eq]

theorem contentsOf_eq (logs : Logs path refusals frames table) :
    contentsOf frames =
      table.state.directory.mapValues fun _ location => location.slice (encodeAll frames) := by
  rw [logs.state_eq, LogState.contentsOf_eq]

theorem find?_contents (logs : Logs path refusals frames table) (key : Bytes) :
    (contentsOf frames).find? key =
      (table.state.directory.find? key).map fun location => location.slice (encodeAll frames) := by
  rw [logs.contentsOf_eq, SortedMap.find?_mapValues]

theorem contains_eq (logs : Logs path refusals frames table) (key : Bytes) :
    table.state.directory.contains key = (contentsOf frames).contains key := by
  simp [SortedMap.contains, logs.find?_contents]

theorem lastPut_of_found (logs : Logs path refusals frames table) {key : Bytes} {location : Location}
    (found : table.state.directory.find? key = some location) :
    ∃ before value, LastPut frames key before value ∧ location = .behind before key value := by
  rw [logs.state_eq] at found
  exact LogState.find?_ofFrames.1 found

end Logs

theorem logs_ofFrames (path : String) (files : Files) (fits : ∀ frame ∈ frames, frame.Fits) :
    Logs path files.refusals frames (ofFrames path files frames) where
  path_eq := rfl
  refusals_eq := rfl
  fits := fits
  log_eq := by simp [log, file, ofFrames]
  state_eq := rfl

theorem readAt_of_inside {location : Location} {content : Bytes} (inside : location.Inside content)
    (room : content.length < positionLimit) :
    readAt content location.offset location.length = .ok (location.slice content) := by
  unfold readAt Location.slice
  unfold Location.Inside at inside
  split
  · rename_i none
    simp [none]
  · rw [if_neg (by omega), Bytes.split?_eq, if_pos (by simp; omega)]

theorem Logs.readValue_eq (logs : Logs path refusals frames table)
    (written : table.pending.getD [] = []) (room : table.logSize < positionLimit) {key : Bytes}
    {location : Location} (found : table.state.directory.find? key = some location) :
    table.readValue location = .ok (location.slice (encodeAll frames)) := by
  obtain ⟨before, value, last, rfl⟩ := logs.lastPut_of_found found
  rw [logs.logSize_eq] at room
  rw [readValue, logs.file_eq written]
  exact readAt_of_inside last.inside room

theorem Logs.flush_meets (logs : Logs path refusals frames table) (opened : table.pending.isSome) :
    flush.Meets table
      (fun _ after => after.pending = some [] ∧ Logs path refusals frames after)
      fun _ _ => False := by
  obtain rfl := logs.path_eq
  obtain ⟨path, files, pending, state⟩ := table
  cases pending with
  | none => cases opened
  | some pending =>
    cases pending with
    | nil => exact ⟨rfl, logs⟩
    | cons byte bytes =>
      refine ⟨rfl, rfl, logs.refusals_eq, logs.fits, ?_, logs.state_eq⟩
      rw [← logs.log_eq]
      simp [log, file, Appender.flush]

theorem Logs.find?_meets (logs : Logs path refusals frames table) (opened : table.pending.isSome)
    (room : table.logSize < positionLimit) (key : Bytes) :
    (find? key).Meets table
      (fun found after => found = (contentsOf frames).find? key ∧ after.pending = some [] ∧
        Logs path refusals frames after)
      fun _ _ => False := by
  unfold find?
  rw [meets_bind]
  refine (logs.flush_meets opened).mono ?_ fun _ _ => False.elim
  rintro _ after ⟨written, flushed⟩
  have same : after.logSize = table.logSize := by rw [flushed.logSize_eq, logs.logSize_eq]
  rw [meets_bind, meets_get, flushed.find?_contents]
  cases found : after.state.directory.find? key with
  | none => exact ⟨rfl, written, flushed⟩
  | some location =>
    have read := flushed.readValue_eq (by rw [written]; rfl) (same ▸ room) found
    rw [meets_map, meets_query, read]
    exact ⟨rfl, written, flushed⟩

/-! ## Changes -/

theorem write_meets (opened : table.pending.isSome) (bytes : Bytes) :
    (write bytes).Meets table
      (fun _ after => after.pending.isSome ∧ after.log = table.log ++ bytes ∧
        after.path = table.path ∧ after.files.refusals = table.files.refusals ∧
        after.state = table.state)
      fun _ _ => False := by
  obtain ⟨path, files, pending, state⟩ := table
  cases pending with
  | none => cases opened
  | some pending =>
    refine ⟨rfl, ?_, rfl, rfl, rfl⟩
    have added := Appender.toBytes_write ⟨files.content path, pending⟩ bytes
    simpa [log, file, Appender.toBytes] using added

theorem append_meets (opened : table.pending.isSome) (frame : Frame) :
    (append frame).Meets table
      (fun _ after => frame.Fits ∧ after.pending.isSome ∧ after.log = table.log ++ frame.encode ∧
        after.path = table.path ∧ after.files.refusals = table.files.refusals ∧
        after.state = table.state.append frame)
      fun _ after => ¬frame.Fits ∧ after = table := by
  have writing : ¬table.pending.isNone := by simp [Option.isSome_iff_ne_none.1 opened]
  unfold append
  rw [meets_bind, meets_get, if_neg writing, meets_bind, meets_query]
  by_cases fits : frame.Fits
  · rw [write_of_fits fits]
    dsimp only
    rw [meets_bind]
    refine (write_meets opened _).mono ?_ fun _ _ => False.elim
    rintro _ after ⟨still, added, path_eq, refusals_eq, state_eq⟩
    rw [meets_modify, ← state_eq]
    exact ⟨fits, still, added, path_eq, refusals_eq, rfl⟩
  · cases written : frame.write with
    | ok bytes => exact absurd (fits_of_write written) fits
    | error failure => exact ⟨fits, rfl⟩

theorem Logs.append_meets (logs : Logs path refusals frames table) (opened : table.pending.isSome)
    (frame : Frame) :
    (append frame).Meets table
      (fun _ after => frame.Fits ∧ after.pending.isSome ∧
        Logs path refusals (frames ++ [frame]) after)
      fun _ after => ¬frame.Fits ∧ after = table := by
  refine (LogTable.append_meets opened frame).mono ?_ fun _ _ => id
  rintro _ after ⟨fits, still, added, path_eq, refusals_eq, state_eq⟩
  refine ⟨fits, still, path_eq.trans logs.path_eq, refusals_eq.trans logs.refusals_eq, ?_, ?_, ?_⟩
  · simpa [or_imp, forall_and] using ⟨logs.fits, fits⟩
  · rw [added, logs.log_eq]
    simp
  · rw [state_eq, logs.state_eq, LogState.ofFrames_concat]

def removal (frames : List Frame) (key : Bytes) : List Frame :=
  if (contentsOf frames).contains key then [⟨.remove, key, []⟩] else []

theorem contentsOf_removal (frames : List Frame) (key : Bytes) :
    contentsOf (frames ++ removal frames key) = (contentsOf frames).erase key := by
  unfold removal
  split
  · rw [contentsOf_concat]
    rfl
  · rename_i absent
    rw [List.append_nil, SortedMap.erase_eq_self]
    simpa [SortedMap.contains] using absent

theorem fits_of_stored (fits : ∀ frame ∈ frames, frame.Fits) {key value : Bytes}
    (stored : (contentsOf frames).find? key = some value) : Fits ⟨.put, key, value⟩ := by
  obtain ⟨before, last⟩ := find?_contentsOf.1 stored
  exact fits _ last.mem

theorem Logs.remove_meets (logs : Logs path refusals frames table) (opened : table.pending.isSome)
    (key : Bytes) :
    (remove key).Meets table
      (fun removed after => removed = (contentsOf frames).contains key ∧ after.pending.isSome ∧
        Logs path refusals (frames ++ removal frames key) after)
      fun _ _ => False := by
  have writing : ¬table.pending.isNone := by simp [Option.isSome_iff_ne_none.1 opened]
  unfold remove removal
  rw [meets_bind, meets_get, if_neg writing, logs.contains_eq]
  cases present : (contentsOf frames).contains key with
  | false =>
    rw [if_neg Bool.false_ne_true, if_neg Bool.false_ne_true, List.append_nil]
    exact ⟨rfl, opened, logs⟩
  | true =>
    rw [if_pos rfl, if_pos rfl, meets_bind]
    refine (logs.append_meets opened ⟨.remove, key, []⟩).mono ?_ ?_
    · rintro _ after ⟨-, still, added⟩
      exact ⟨rfl, still, added⟩
    · rintro _ _ ⟨refused, -⟩
      obtain ⟨value, stored⟩ := Option.isSome_iff_exists.1 present
      exact refused ⟨(fits_of_stored logs.fits stored).key_le, Nat.zero_le _⟩

theorem Logs.close_meets (logs : Logs path refusals frames table) :
    close.Meets table (fun _ after => after.pending = none ∧ Logs path refusals frames after)
      fun _ _ => False := by
  unfold close
  rw [meets_bind, meets_get]
  cases pending : table.pending with
  | none => exact ⟨pending, logs⟩
  | some bytes =>
    rw [if_pos Option.isSome_some, meets_bind]
    refine (logs.flush_meets (by simp [pending])).mono ?_ fun _ _ => False.elim
    rintro _ after ⟨written, flushed⟩
    rw [meets_modify]
    refine ⟨rfl, flushed.path_eq, flushed.refusals_eq, flushed.fits, ?_, flushed.state_eq⟩
    rw [← flushed.log_eq, log, log, written]
    rfl

section

variable (closed : table.pending = none)

include closed

theorem flush_of_closed : flush table = (.error table.closedError, table) := by
  unfold flush
  rw [closed]

theorem find?_of_closed (key : Bytes) :
    find? key table = (.error table.closedError, table) := by
  apply Meets.eq_error
  unfold find?
  rw [meets_bind, Meets, flush_of_closed closed]
  exact ⟨rfl, rfl⟩

theorem append_of_closed (frame : Frame) :
    append frame table = (.error table.closedError, table) := by
  apply Meets.eq_error
  unfold append
  rw [meets_bind, meets_get, closed]
  exact ⟨rfl, rfl⟩

theorem remove_of_closed (key : Bytes) :
    remove key table = (.error table.closedError, table) := by
  apply Meets.eq_error
  unfold remove
  rw [meets_bind, meets_get, closed]
  exact ⟨rfl, rfl⟩

end

theorem Logs.reopen (logs : Logs path refusals frames table)
    (granted : refusals.find? path = none) :
    ∃ again, openAt path table.release = (.ok again, again.files) ∧ again.pending = some [] ∧
      Logs path refusals frames again := by
  have parts : Parts (table.release.content path) frames [] := by
    rw [logs.content_release]
    simpa using Parts.of_unfinished logs.fits unfinished_nil
  refine ⟨_, openAt_of_unfinished (by rwa [logs.refusals_release]) parts unfinished_nil, rfl, ?_⟩
  simpa [logs.refusals_release] using logs_ofFrames path table.release logs.fits

end LogTable

end AttributeIndex
