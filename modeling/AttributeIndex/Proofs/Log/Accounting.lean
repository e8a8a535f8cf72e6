import AttributeIndex.Proofs.Log.Course

namespace AttributeIndex

open AttributeIndex.Action AttributeIndex.Frame

namespace LogState

def live (directory : SortedMap Bytes Location) : Nat :=
  (directory.entries.map fun entry => entry.2.frameLength entry.1.length).sum

theorem live_insert (directory : SortedMap Bytes Location) (key : Bytes) (location : Location) :
    live (directory.insert key location) =
      location.frameLength key.length + live (directory.erase key) := by
  rw [live, ((SortedMap.entries_insert_perm directory key location).map _).sum_eq]
  rfl

theorem live_eq_erase (state : LogState) (key : Bytes) :
    live state.directory = state.frameLengthOf key + live (state.directory.erase key) := by
  unfold frameLengthOf
  cases found : state.directory.find? key with
  | none => rw [SortedMap.erase_eq_self found, Nat.zero_add]
  | some location =>
    rw [live, ((SortedMap.entries_erase_perm found).map _).sum_eq]
    rfl

def Balanced (state : LogState) : Prop :=
  state.size = state.garbage + live state.directory

theorem Balanced.append {state : LogState} (balanced : state.Balanced) (frame : Frame) :
    (state.append frame).Balanced := by
  -- What the frame supersedes counts as live before it, and as garbage from now on.
  have taken := state.live_eq_erase frame.key
  unfold Balanced at *
  unfold LogState.append
  cases frame.op with
  | put =>
    dsimp only
    rw [live_insert]
    simp only [Location.frameLength, Frame.length]
    omega
  | remove =>
    dsimp only
    omega

theorem balanced_ofFrames (frames : List Frame) : (ofFrames frames).Balanced := by
  induction frames using List.reverseRecOn with
  | nil => rfl
  | append_singleton frames frame ih =>
    rw [ofFrames_concat]
    exact ih.append frame

theorem live_ofFrames (frames : List Frame) :
    live (ofFrames frames).directory =
      ((contentsOf frames).entries.map fun entry =>
        lengthOf entry.1.length entry.2.length).sum := by
  rw [contentsOf_eq, SortedMap.mapValues, List.map_map, live]
  refine congrArg List.sum (List.map_congr_left fun entry member => ?_)
  obtain ⟨before, value, last, placed⟩ := find?_ofFrames.1 (SortedMap.find?_eq_some.2 member)
  have inside := last.inside
  rw [← placed] at inside
  simp only [Function.comp, Location.length_slice inside]
  rfl

end LogState

namespace LogTable

variable {path : String} {refusals : SortedMap String IoError} {frames : List Frame}
  {table : LogTable}

/-- The table tells exactly how much of its log compaction would reclaim: all but one frame for each
entry. -/
structure Accounted (tree : FileTree) (path : String) (entries : SortedMap Bytes Bytes)
    (table : LogTable) : Prop where
  keys_eq : Table.keys table = entries.keys
  get_eq : table.pending.isSome → table.logSize < positionLimit → ∀ key,
    (Table.get key table).1 = .ok (entries.find? key)
  length_log : table.log.length = table.logSize
  logSize_eq : table.logSize = table.garbageSize +
    (entries.entries.map fun entry => lengthOf entry.1.length entry.2.length).sum
  reclaims : FileName.extension? path ≠ some "compact" →
    compact.Meets table
      (fun _ after => after.garbageSize = 0 ∧ after.logSize + table.garbageSize = table.logSize)
      (fun _ after => after.state = table.state)
  compacts : FileName.extension? path ≠ some "compact" → table.pending.isSome →
    table.logSize < positionLimit →
    ∀ {spot}, tree.locateFile (siblingPath path) = .ok spot → ∃ after, compact table = (.ok (), after)
  reopens : ∃ again, LogTable.reopen table = (.ok (), again) ∧ again.state = table.state
  closes : ∃ closed again, close table = (.ok (), closed) ∧
    LogTable.reopen closed = (.ok (), again) ∧ again.state = table.state

theorem Logs.logSize_sum (logs : Logs path refusals frames table) :
    table.logSize = table.garbageSize +
      ((contentsOf frames).entries.map fun entry => lengthOf entry.1.length entry.2.length).sum := by
  rw [logSize, garbageSize, logs.state_eq, ← LogState.live_ofFrames]
  exact LogState.balanced_ofFrames frames

theorem Logs.exists_reopen (logs : Logs path refusals frames table)
    (granted : refusals.find? path = none) :
    ∃ again, LogTable.reopen table = (.ok (), again) ∧ again.state = table.state := by
  obtain ⟨again, opens, -, held⟩ := logs.reopen granted
  exact ⟨again, reopen_of_ok logs.path_eq opens, held.state_eq.trans logs.state_eq.symm⟩

theorem Logs.reclaims (logs : Logs path refusals frames table) (apart : siblingPath path ≠ path) :
    compact.Meets table
      (fun _ after => after.garbageSize = 0 ∧ after.logSize + table.garbageSize = table.logSize)
      (fun _ after => after.state = table.state) := by
  refine .intro (fun _ after done => ?_) fun _ after failed => ?_
  · obtain ⟨flushed, -, -, -, rfl⟩ := logs.compact_eq apart done
    refine ⟨garbage_putsOf _, ?_⟩
    rw [(logs.rewritten flushed.files).logSize_eq, length_encodeAll_putsOf, logs.logSize_sum]
    exact Nat.add_comm _ _
  · rcases compact_failed failed with ⟨-, rfl⟩ | ⟨flushed, flushes, rfl | ⟨content, rfl⟩⟩
    · rfl
    · exact flushes.state_eq
    · exact flushes.state_eq

/-- Garbage is told exactly, after every run of a table that was opened on any log. -/
theorem accounted_after {tree after : FileTree} {start : LogTable}
    (opened : openIn path tree = (.ok start, after)) {steps : List Step}
    (extension : .compact ∈ steps → FileName.extension? path ≠ some "compact")
    (reached : (outcomes Step.perform steps start).2 = table) :
    ∃ entries, Accounted tree path entries table := by
  obtain ⟨files, opens⟩ := exists_openAt_of_openIn opened
  have granted := granted_of_openAt opens
  have apart : FileName.extension? path ≠ some "compact" → siblingPath path ≠ path :=
    FileName.withExtension_ne (by decide) (FileTree.named_of_granted granted)
  obtain ⟨frames, logs⟩ := exists_logs opened steps fun member => apart (extension member)
  rw [reached] at logs
  refine ⟨contentsOf frames, ?_⟩
  constructor
  case keys_eq =>
    show table.state.directory.keys = _
    rw [logs.contentsOf_eq, SortedMap.keys_mapValues]
  case get_eq =>
    intro isOpen room key
    obtain ⟨_, _, performed, rfl, -⟩ := (logs.find?_meets isOpen room key).succeeds
    exact congrArg Prod.fst performed
  case length_log => rw [logs.log_eq, logs.logSize_eq]
  case logSize_eq => exact logs.logSize_sum
  case reclaims => exact fun named => logs.reclaims (apart named)
  case compacts =>
    intro named isOpen room spot located
    have free := FileTree.granted_beside (apart named) located
    have compacts := logs.compact_meets isOpen room (apart named)
    obtain ⟨_, after, done, -⟩ := compacts.succeeds_unless fun _ _ failed => by
      rw [free] at failed
      cases failed.1
    exact ⟨after, done⟩
  case reopens => exact logs.exists_reopen granted
  case closes =>
    obtain ⟨_, closed, performed, -, held⟩ := logs.close_meets.succeeds
    obtain ⟨again, opens, same⟩ := held.exists_reopen granted
    exact ⟨closed, again, performed, opens, same.trans (held.state_eq.trans logs.state_eq.symm)⟩

theorem accounted_after_handmade :
    let frames : List Frame := [⟨.put, [1], [7]⟩, ⟨.remove, [9], [5, 5]⟩, ⟨.put, [1], [8, 9]⟩]
    let tree : FileTree := ⟨[("t.tbl", .file (encodeAll frames))]⟩
    let steps : List Step := [.ask (.put [2] [3]), .ask (.remove [1]), .ask (.remove [4])]
    ∃ start after table entries, openIn "t.tbl" tree = (.ok start, after) ∧
      FileName.extension? "t.tbl" ≠ some "compact" ∧
      (outcomes Step.perform steps start).2 = table ∧ Accounted tree "t.tbl" entries table ∧
      table.logSize = 96 ∧ table.garbageSize = 77 := by
  intro frames tree steps
  have plain : FileTree.Plain "t.tbl" := ⟨by decide, by decide, by decide⟩
  have plainSibling : FileTree.Plain (siblingPath "t.tbl") := ⟨by decide, by decide, by decide⟩
  have lent : tree.lend "t.tbl" = Files.empty.write "t.tbl" (encodeAll frames) :=
    plain.lend_stored (by decide) plainSibling (by decide) rfl rfl
  have fits : ∀ frame ∈ frames, frame.Fits := by decide
  have opened : openIn "t.tbl" tree = _ :=
    openIn_of_frames (by rw [lent]; rfl) fits (by rw [lent, Files.content_write])
  have extension : FileName.extension? "t.tbl" ≠ some "compact" := by decide
  have reached : (outcomes Step.perform steps (ofFrames "t.tbl" (tree.lend "t.tbl") frames)).2 = _ :=
    rfl
  obtain ⟨entries, accounted⟩ := accounted_after opened (fun _ => extension) reached
  exact ⟨_, _, _, entries, opened, extension, rfl, accounted, rfl, rfl⟩

end LogTable

end AttributeIndex
