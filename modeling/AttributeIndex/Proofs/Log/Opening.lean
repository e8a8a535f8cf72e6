import AttributeIndex.Proofs.Action
import AttributeIndex.Proofs.Log.Replay

namespace AttributeIndex

open AttributeIndex.Action AttributeIndex.Frame

namespace Files

variable (files : Files) (path : String) (content : Bytes)

@[simp]
theorem content_write : (files.write path content).content path = content := by
  simp [Files.content, write, SortedMap.find?_insert]

theorem content_write_of_ne {other : String} (distinct : other ≠ path) :
    (files.write path content).content other = files.content other := by
  simp [Files.content, write, SortedMap.find?_insert, distinct]

@[simp]
theorem refusals_write : (files.write path content).refusals = files.refusals :=
  rfl

@[simp]
theorem write_write (first : Bytes) :
    (files.write path first).write path content = files.write path content :=
  congrArg (Files.mk · files.refusals) (SortedMap.insert_insert ..)

@[simp]
theorem erase_write : (files.write path content).erase path = files.erase path :=
  congrArg (Files.mk · files.refusals) (SortedMap.erase_insert ..)

theorem erase_write_of_ne {other : String} (distinct : other ≠ path) :
    (files.write path content).erase other = (files.erase other).write path content :=
  congrArg (Files.mk · files.refusals) (SortedMap.erase_insert_of_ne _ distinct _)

@[simp]
theorem erase_erase : (files.erase path).erase path = files.erase path :=
  congrArg (Files.mk · files.refusals) (SortedMap.erase_erase ..)

theorem write_content (present : files.contents.find? path = some content) :
    files.write path content = files := by
  have same : files.contents.insert path content = files.contents := by
    refine SortedMap.ext_find? fun other => ?_
    rw [SortedMap.find?_insert]
    split
    · rename_i equal
      rw [equal, present]
    · rfl
  simp [write, same]

theorem find?_of_content_ne_nil (filled : files.content path ≠ []) :
    files.contents.find? path = some (files.content path) := by
  unfold Files.content at *
  cases found : files.contents.find? path with
  | none => simp [found] at filled
  | some content => rfl

theorem create_of_granted (granted : files.refusals.find? path = none) :
    files.create path content = .ok (files.write path content) := by
  simp [create, granted]

end Files

namespace LogTable

def ofFrames (path : String) (files : Files) (frames : List Frame) : LogTable :=
  ⟨path, files.write path (encodeAll frames), some [], .ofFrames frames⟩

theorem openAt_of_ok {path : String} {files : Files} {frames : List Frame} {last : Reading}
    (granted : files.refusals.find? path = none)
    (readable : readAll (files.content path) (files.content path).length = (frames, .ok last)) :
    openAt path files =
      (.ok ⟨path, files.write path ((files.content path).take (LogState.ofFrames frames).size),
        some [], .ofFrames frames⟩,
        files.write path ((files.content path).take (LogState.ofFrames frames).size)) := by
  have made := files.create_of_granted path (files.content path) granted
  apply Action.Meets.eq_ok
  unfold openAt
  rw [meets_bind, meets_get, meets_bind, meets_query, made]
  dsimp only
  rw [meets_bind, meets_set, readable]
  dsimp only
  rw [meets_bind, meets_modify, meets_bind, meets_get, meets_pure]
  simp

theorem openAt_of_error {path : String} {files : Files} {frames : List Frame} {failure : IoError}
    (granted : files.refusals.find? path = none)
    (damaged : readAll (files.content path) (files.content path).length =
      (frames, .error failure)) :
    openAt path files = (.error failure, files.write path (files.content path)) := by
  have made := files.create_of_granted path (files.content path) granted
  apply Action.Meets.eq_error
  unfold openAt
  rw [meets_bind, meets_get, meets_bind, meets_query, made]
  dsimp only
  rw [meets_bind, meets_set, damaged]
  exact ⟨rfl, rfl⟩

variable {path : String} {files : Files} {frames : List Frame} {rest : Bytes}

theorem openAt_of_refused {failure : IoError}
    (refused : files.refusals.find? path = some failure) :
    openAt path files = (.error failure, files) := by
  apply Action.Meets.eq_error
  unfold openAt
  rw [meets_bind, meets_get, meets_bind, meets_query, Files.create, refused]
  exact ⟨rfl, rfl⟩

theorem openAt_of_unfinished (granted : files.refusals.find? path = none)
    (parts : Parts (files.content path) frames rest) (unfinished : Unfinished rest) :
    openAt path files = (.ok (ofFrames path files frames), (ofFrames path files frames).files) := by
  have readable := parts.readAll_eq
  rw [read_unfinished unfinished] at readable
  have kept : (files.content path).take (LogState.ofFrames frames).size = encodeAll frames := by
    rw [parts.content_eq, LogState.size_ofFrames, List.take_left]
  rw [openAt_of_ok granted readable, kept]
  rfl

theorem openAt_of_damaged (granted : files.refusals.find? path = none)
    (parts : Parts (files.content path) frames rest) (finished : ¬Unfinished rest) :
    openAt path files = (.error (damage rest), files) := by
  have damaged := parts.readAll_eq
  rw [read_damaged finished parts.stops] at damaged
  have filled : files.content path ≠ [] := by
    rw [parts.content_eq]
    rintro empty
    exact finished ((List.append_eq_nil_iff.1 empty).2 ▸ unfinished_nil)
  rw [openAt_of_error granted damaged,
    files.write_content path _ (files.find?_of_content_ne_nil path filled)]

theorem release_ofFrames :
    (ofFrames path files frames).release = (ofFrames path files frames).files := by
  simp [release, ofFrames, file]

/-- The file of a table holds the given frames and nothing else, the directory has the latest value
of each key, and opening the file again finds the same table. -/
structure Replays (path : String) (files : Files) (frames : List Frame) (table : LogTable) : Prop where
  path_eq : table.path = path
  pending_eq : table.pending = some []
  files_eq : table.files = files.write path (encodeAll frames)
  logSize_eq : table.logSize = (encodeAll frames).length
  directory : ∀ key location, table.state.directory.find? key = some location ↔
    ∃ before value, LastPut frames key before value ∧ location = .behind before key value
  again : (openAt path).perform table.release = (.ok table, table.files)

theorem replays_ofFrames (granted : files.refusals.find? path = none)
    (fits : ∀ frame ∈ frames, frame.Fits) :
    Replays path files frames (ofFrames path files frames) where
  path_eq := rfl
  pending_eq := rfl
  files_eq := rfl
  logSize_eq := LogState.size_ofFrames frames
  directory _ _ := LogState.find?_ofFrames
  again := by
    have parts : Parts ((files.write path (encodeAll frames)).content path) frames [] := by
      simpa using Parts.of_unfinished fits unfinished_nil
    rw [release_ofFrames, Action.perform]
    refine Eq.trans (openAt_of_unfinished ?_ parts unfinished_nil) ?_
    · exact granted
    · simp [ofFrames]

/-- The frames at the front of a log are found and never run past its end. Whether the table opens
on them is settled by what is left where no frame follows. -/
theorem openAt_exact (path : String) (files : Files)
    (granted : files.refusals.find? path = none) :
    (∃ frames rest, Parts (files.content path) frames rest) ∧
      ∀ frames rest, Parts (files.content path) frames rest →
        (readAll (files.content path) (files.content path).length).1 = frames ∧
        (∀ before, before <+: frames →
          (LogState.ofFrames before).size ≤ (files.content path).length) ∧
        (Unfinished rest → ∃ table, (openAt path).perform files = (.ok table, table.files) ∧
          Replays path files frames table) ∧
        (¬Unfinished rest → (openAt path).perform files = (.error (damage rest), files) ∧
          (damage rest).kind = .invalidData) := by
  refine ⟨exists_parts _, fun frames rest parts => ⟨?_, ?_, fun unfinished => ?_, fun finished => ?_⟩⟩
  · rw [parts.readAll_eq]
  · rintro before ⟨after, rfl⟩
    rw [parts.content_eq, LogState.size_ofFrames]
    simp
  · exact ⟨_, openAt_of_unfinished granted parts unfinished, replays_ofFrames granted parts.fits⟩
  · exact ⟨openAt_of_damaged granted parts finished, kind_damage rest⟩

theorem openAt_exact_torn :
    let frame : Frame := ⟨.put, [1], [2, 3]⟩
    let files := Files.empty.write "t.tbl" (frame.encode ++ [1, 0])
    files.refusals.find? "t.tbl" = none ∧
      ∃ table, (openAt "t.tbl").perform files = (.ok table, table.files) ∧
        table.file = frame.encode ∧ table.logSize = 20 := by
  intro frame files
  have fits : ∀ other ∈ [frame], other.Fits := by
    simpa using ⟨by decide, by decide⟩
  have torn : Unfinished [1, 0] := .inl (by decide)
  have parts : Parts (files.content "t.tbl") [frame] [1, 0] := by
    simpa [files] using Parts.of_unfinished fits torn
  obtain ⟨-, exact⟩ := openAt_exact "t.tbl" files rfl
  obtain ⟨-, -, opens, -⟩ := exact [frame] [1, 0] parts
  obtain ⟨table, opened, replays⟩ := opens torn
  refine ⟨rfl, table, opened, ?_, ?_⟩
  · simp [file, replays.path_eq, replays.files_eq]
  · rw [replays.logSize_eq]
    simp [frame, Frame.length, lengthOf, headerSize, checksumSize]

end LogTable

end AttributeIndex
