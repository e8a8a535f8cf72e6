import AttributeIndex.Proofs.FileTree
import AttributeIndex.Proofs.Log.Refinement

namespace AttributeIndex

open AttributeIndex.Action AttributeIndex.Frame

namespace LogTable

variable {path : String} {files : Files} {refusals : SortedMap String IoError} {frames : List Frame}
  {table flushed : LogTable} {entries : SortedMap Bytes Bytes}

structure Canonical (entries : SortedMap Bytes Bytes) (table : LogTable) : Prop where
  reads : ∀ request : Table.Request, request.Reads →
    (request.perform table).1 = (request.perform (Volatile.ofEntries entries)).1
  file_eq : table.file = encodeAll (putsOf entries)
  logSize_eq : table.logSize = table.file.length
  logSize_sum : table.logSize =
    (entries.entries.map fun entry => lengthOf entry.1.length entry.2.length).sum
  garbageSize_eq : table.garbageSize = 0
  located : ∀ key value, entries.find? key = some value ↔
    ∃ location, table.state.directory.find? key = some location ∧
      table.readValue location = .ok value
  compact_eq : compact table = (.ok (), table)
  reopen_eq : outcomes Step.perform [.reopen] table = ([.ok .done], table)
  close_reopen_eq : outcomes Step.perform [.ask .close, .reopen] table =
    ([.ok .done, .ok .done], table)

/-! ## Canonical logs -/

theorem length_encodeAll_putsOf (entries : SortedMap Bytes Bytes) :
    (encodeAll (putsOf entries)).length =
      (entries.entries.map fun entry => lengthOf entry.1.length entry.2.length).sum := by
  rw [putsOf]
  induction entries.entries with
  | nil => rfl
  | cons entry rest ih =>
    rw [List.map_cons, encodeAll_cons, List.length_append, ih, List.map_cons, List.sum_cons,
      length_encode]
    rfl

theorem garbage_compacted (directory : SortedMap Bytes Location) :
    (LogState.compacted directory).garbage = 0 := by
  have clean : ∀ (entries : List (Bytes × Location)) (state : LogState), state.garbage = 0 →
      (entries.foldl LogState.place state).garbage = 0 := by
    intro entries
    induction entries with
    | nil => exact fun _ => id
    | cons entry rest ih => exact fun state _ => ih _ rfl
  exact clean directory.entries .empty rfl

theorem garbage_putsOf (entries : SortedMap Bytes Bytes) :
    (LogState.ofFrames (putsOf entries)).garbage = 0 := by
  have same := LogState.compacted_ofFrames (putsOf entries)
  rw [contentsOf_putsOf] at same
  rw [← same]
  exact garbage_compacted _

theorem ofFrames_write (content : Bytes) :
    ofFrames path (files.write path content) frames = ofFrames path files frames := by
  simp [ofFrames]

theorem openAt_ofFrames (granted : files.refusals.find? path = none)
    (fits : ∀ frame ∈ frames, frame.Fits) :
    openAt path (ofFrames path files frames).files =
      (.ok (ofFrames path files frames), (ofFrames path files frames).files) := by
  have again := (replays_ofFrames granted fits).again
  rwa [release_ofFrames] at again

theorem outcomes_reopen (granted : files.refusals.find? path = none)
    (fits : ∀ frame ∈ frames, frame.Fits) :
    outcomes Step.perform [.reopen] (ofFrames path files frames) =
      ([.ok .done], ofFrames path files frames) := by
  have called : LogTable.reopen (ofFrames path files frames) =
      (.ok (), ofFrames path files frames) := by
    have opens := openAt_ofFrames granted fits
    rw [← release_ofFrames] at opens
    exact reopen_of_ok rfl opens
  simp only [outcomes, Step.perform, map_apply, called]
  rfl

theorem outcomes_close_reopen (granted : files.refusals.find? path = none)
    (fits : ∀ frame ∈ frames, frame.Fits) :
    outcomes Step.perform [.ask .close, .reopen] (ofFrames path files frames) =
      ([.ok .done, .ok .done], ofFrames path files frames) := by
  have closes : (Table.close : Action LogTable IoError Unit) (ofFrames path files frames) =
      (.ok (), { ofFrames path files frames with pending := none }) := rfl
  have called : LogTable.reopen { ofFrames path files frames with pending := none } =
      (.ok (), ofFrames path files frames) := by
    exact reopen_of_ok rfl (openAt_ofFrames granted fits)
  simp only [outcomes, Step.perform, Table.Request.perform, map_apply, closes, called]
  rfl

theorem canonical_rewritten (granted : files.refusals.find? path = none)
    (beside : files.refusals.find? (siblingPath path) = none) (apart : siblingPath path ≠ path)
    (fits : ∀ frame ∈ putsOf entries, frame.Fits)
    (room : (encodeAll (putsOf entries)).length < positionLimit) :
    Canonical entries (rewritten path files entries) := by
  have logs : Logs path files.refusals (putsOf entries) (rewritten path files entries) :=
    logs_ofFrames path (files.erase (siblingPath path)) fits
  have drained : (rewritten path files entries).pending.getD [] = [] := rfl
  have flushes : Flushes (rewritten path files entries) (rewritten path files entries) :=
    .of_written rfl
  have readable := logs.readable drained (by rwa [logs.logSize_eq])
  have file_eq := logs.file_eq drained
  have values_eq : (rewritten path files entries).values = entries := by
    rw [logs.values_eq drained, contentsOf_putsOf]
  constructor
  case reads =>
    intro request reads
    rw [flushes.perform_eq readable request reads, values_eq]
  case file_eq => exact file_eq
  case logSize_eq => rw [logs.logSize_eq, file_eq]
  case logSize_sum => rw [logs.logSize_eq, length_encodeAll_putsOf]
  case garbageSize_eq => exact garbage_putsOf entries
  case located =>
    intro key value
    have stored := find?_values (rewritten path files entries) key
    rw [values_eq] at stored
    rw [stored, Option.map_eq_some_iff]
    constructor
    · rintro ⟨location, found, rfl⟩
      exact ⟨location, found, (readable.readValue_eq found).1⟩
    · rintro ⟨location, found, read⟩
      rw [(readable.readValue_eq found).1] at read
      exact ⟨location, found, Except.ok.inj read⟩
  case compact_eq =>
    rw [logs.recalls.compact_eq flushes beside apart readable, values_eq]
    refine congrArg (Prod.mk _) ?_
    -- The file beside the log is made and taken away again, and the log gets the bytes it has.
    show ofFrames path (Files.erase _ (Files.write path _ _)) _ = _
    rw [Files.erase_write_of_ne _ _ _ apart, Files.erase_erase, ofFrames_write]
    rfl
  case reopen_eq => exact outcomes_reopen granted fits
  case close_reopen_eq => exact outcomes_close_reopen granted fits

theorem Recalls.length_values_le (recalls : Recalls path refusals frames table)
    (readable : table.Readable) : (encodeAll (putsOf table.values)).length ≤ table.logSize := by
  have sized : ∀ entry ∈ table.state.directory.entries,
      (entry.2.slice table.file).length = entry.2.length :=
    fun entry member => (readable.readValue_eq (SortedMap.find?_eq_some.2 member)).2
  calc (encodeAll (putsOf table.values)).length
      = (LogState.compacted table.state.directory).size := by
        rw [LogState.compacted_eq sized, LogState.size_ofFrames]
        rfl
    _ = (encodeAll (putsOf (contentsOf frames))).length := by
        rw [recalls.state_eq, LogState.compacted_ofFrames, LogState.size_ofFrames]
    _ ≤ (encodeAll frames).length := length_putsOf_le frames
    _ = table.logSize := by rw [logSize, recalls.state_eq, LogState.size_ofFrames]

/-! ## What becomes of an open table -/

inductive Event
  | own (step : Step)
  | overwrite (content : Bytes)
  deriving DecidableEq, Repr

def overwrite (content : Bytes) : Action LogTable IoError Unit :=
  update fun table => { table with files := table.files.write table.path content }

def Event.perform : Event → Action LogTable IoError Table.Answer
  | own step => step.perform
  | overwrite content => (fun _ => .done) <$> LogTable.overwrite content

def Recalling (path : String) (refusals : SortedMap String IoError) (table : LogTable) : Prop :=
  ∃ frames, Recalls path refusals frames table

namespace Recalling

variable (recalling : Recalling path refusals table)

include recalling

theorem of_same {after : LogTable} (path_eq : after.path = table.path)
    (refusals_eq : after.files.refusals = table.files.refusals)
    (state_eq : after.state = table.state) :
    Recalling path refusals after := by
  obtain ⟨frames, recalls⟩ := recalling
  exact ⟨frames, path_eq.trans recalls.path_eq, refusals_eq.trans recalls.refusals_eq, recalls.fits,
    state_eq.trans recalls.state_eq⟩

theorem of_flushes (flushes : Flushes table flushed) : Recalling path refusals flushed :=
  recalling.of_same flushes.path_eq flushes.refusals_eq flushes.state_eq

theorem flush : Recalling path refusals (LogTable.flush table).2 := by
  rcases closed_or_flushes table with closed | ⟨flushed, flushes⟩
  · rw [flush_of_closed closed]
    exact recalling
  · rw [flushes.flush_eq]
    exact recalling.of_flushes flushes

theorem find? (key : Bytes) : Recalling path refusals (LogTable.find? key table).2 := by
  rcases closed_or_flushes table with closed | ⟨flushed, flushes⟩
  · rw [find?_of_closed closed]
    exact recalling
  · rw [flushes.find?_eq]
    exact recalling.of_flushes flushes

theorem append_meets (frame : Frame) :
    (LogTable.append frame).Meets table (fun _ => Recalling path refusals)
      fun _ => Recalling path refusals := by
  cases pending : table.pending with
  | none =>
    rw [Meets, append_of_closed pending]
    exact recalling
  | some bytes =>
    have opened : table.pending.isSome := by simp [pending]
    refine (LogTable.append_meets opened frame).mono ?_ ?_
    · rintro _ after ⟨fits, -, -, path_eq, refusals_eq, state_eq⟩
      obtain ⟨frames, recalls⟩ := recalling
      refine ⟨frames ++ [frame], path_eq.trans recalls.path_eq,
        refusals_eq.trans recalls.refusals_eq, ?_, ?_⟩
      · simpa [or_imp, forall_and] using ⟨recalls.fits, fits⟩
      · rw [state_eq, recalls.state_eq, LogState.ofFrames_concat]
    · rintro _ _ ⟨-, rfl⟩
      exact recalling

theorem remove_meets (key : Bytes) :
    (LogTable.remove key).Meets table (fun _ => Recalling path refusals)
      fun _ => Recalling path refusals := by
  cases pending : table.pending with
  | none =>
    rw [Meets, remove_of_closed pending]
    exact recalling
  | some bytes =>
    have writing : ¬table.pending.isNone := by simp [pending]
    unfold LogTable.remove
    rw [meets_bind, meets_get, if_neg writing]
    split
    · rw [meets_bind]
      exact recalling.append_meets _
    · exact recalling

theorem close_meets :
    LogTable.close.Meets table (fun _ => Recalling path refusals)
      fun _ => Recalling path refusals := by
  unfold LogTable.close
  rw [meets_bind, meets_get]
  split
  · rename_i opened
    obtain ⟨flushed, flushes⟩ := exists_flushes opened
    rw [meets_bind]
    refine meets_of_eq_ok flushes.flush_eq (meets_modify.2 ?_)
    exact (recalling.of_flushes flushes).of_same rfl rfl rfl
  · exact recalling

theorem request (request : Table.Request) :
    Recalling path refusals ((request.perform : Action LogTable IoError Table.Answer) table).2 := by
  cases request with
  | get key => exact left_map (recalling.find? key)
  | put key value => exact left_map (recalling.append_meets _).left
  | remove key => exact left_map (recalling.remove_meets key).left
  | size => exact recalling
  | isEmpty => exact recalling
  | scan steps => exact Table.perform_scan_keeps recalling.flush (fun _ _ => id) steps
  | sync => exact left_map recalling.flush
  | close => exact left_map recalling.close_meets.left

end Recalling

theorem granted_of_openAt {after : Files} (opened : openAt path files = (.ok table, after)) :
    files.refusals.find? path = none := by
  cases refused : files.refusals.find? path with
  | none => rfl
  | some failure =>
    rw [openAt_of_refused refused] at opened
    cases opened

theorem openAt_meets (granted : files.refusals.find? path = none) :
    (openAt path).Meets files (fun table _ => Recalling path files.refusals table)
      fun _ after => after.refusals = files.refusals := by
  obtain ⟨frames, rest, parts⟩ := exists_parts (files.content path)
  by_cases unfinished : Unfinished rest
  · rw [Meets, openAt_of_unfinished granted parts unfinished]
    exact ⟨frames, (logs_ofFrames path files parts.fits).recalls⟩
  · rw [Meets, openAt_of_damaged granted parts unfinished]

theorem Recalling.reopen (recalling : Recalling path refusals table)
    (granted : refusals.find? path = none) :
    Recalling path refusals (LogTable.reopen table).2 := by
  obtain ⟨frames, recalls⟩ := recalling
  have kept : table.release.refusals = refusals :=
    (refusals_release table).trans recalls.refusals_eq
  have opens : (openAt path).Meets table.release _ _ := openAt_meets (by rwa [kept])
  rw [kept] at opens
  unfold LogTable.reopen
  rw [recalls.path_eq]
  cases opened : openAt path table.release with
  | mk outcome after =>
    cases outcome with
    | ok again => exact opens.ok_of opened
    | error failure =>
      have same := opens.failed_of opened
      exact ⟨frames, rfl, same, recalls.fits, recalls.state_eq⟩

theorem Recalling.event (recalling : Recalling path refusals table)
    (granted : refusals.find? path = none) (event : Event) :
    Recalling path refusals (event.perform table).2 := by
  cases event with
  -- The bytes of the file are no part of what is recalled.
  | overwrite content => exact left_map (recalling.of_same rfl rfl rfl)
  | own step =>
    cases step with
    | ask request => exact recalling.request request
    | compact =>
      obtain ⟨frames, recalls⟩ := recalling
      have compacts : LogTable.compact.Meets table (fun _ => Recalling path refusals)
          fun _ => Recalling path refusals :=
        recalls.compact_meets.mono (fun _ _ left => ⟨_, left⟩) fun _ _ left => ⟨_, left⟩
      exact left_map compacts.left
    | reopen => exact left_map (recalling.reopen granted)

theorem Recalling.events (recalling : Recalling path refusals table)
    (granted : refusals.find? path = none) (events : List Event) :
    Recalling path refusals (outcomes Event.perform events table).2 := by
  induction events generalizing table with
  | nil => exact recalling
  | cons first rest ih => exact ih (recalling.event granted first)

/-! ## Compaction -/

theorem Recalls.exists_canonical (recalls : Recalls path refusals frames table)
    (granted : refusals.find? path = none) (beside : refusals.find? (siblingPath path) = none)
    (apart : siblingPath path ≠ path) (isOpen : table.pending.isSome)
    (readable : ∀ key, ∃ value?, (Table.get key table).1 = .ok value?)
    (room : table.logSize < positionLimit) :
    ∃ compacted entries, compact table = (.ok (), compacted) ∧ Canonical entries compacted ∧
      ∀ request : Table.Request, request.Reads →
        (request.perform table).1 = (request.perform compacted).1 := by
  -- What is copied are the values that the flushed file has now, whatever was put.
  obtain ⟨flushed, flushes⟩ := exists_flushes isOpen
  have held := recalls.flushes flushes
  have legible := flushes.readable readable
  have short : (encodeAll (putsOf flushed.values)).length < positionLimit := by
    have shorter := held.length_values_le legible
    rw [logSize, flushes.state_eq] at shorter
    exact Nat.lt_of_le_of_lt shorter room
  have canonical : Canonical flushed.values (rewritten path flushed.files flushed.values) :=
    canonical_rewritten (held.refusals_eq ▸ granted) (held.refusals_eq ▸ beside) apart
      (held.fits_values legible) short
  refine ⟨_, flushed.values, held.compact_eq flushes beside apart legible, canonical, ?_⟩
  intro request reads
  rw [flushes.perform_eq legible request reads, canonical.reads request reads]

theorem exists_openAt_of_openIn {tree after : FileTree} {start : LogTable}
    (opened : openIn path tree = (.ok start, after)) :
    ∃ files, openAt path (tree.lend path) = (.ok start, files) := by
  rw [openIn, on_apply] at opened
  generalize tree.lend path = lent at opened ⊢
  cases opens : openAt path lent with
  | mk outcome files =>
    rw [opens] at opened
    cases outcome with
    | error failure => cases opened
    | ok table =>
      cases opened
      exact ⟨files, rfl⟩

/-- Compaction of any open table whose values can be read, and beside whose log a file can be made,
succeeds. It changes no answer, and makes the log canonical. -/
theorem compact_canonical {tree after : FileTree} {start : LogTable} {spot : FileTree.Place × String}
    (opened : openIn path tree = (.ok start, after))
    (extension : FileName.extension? path ≠ some "compact")
    (beside : tree.locateFile (siblingPath path) = .ok spot) {events : List Event}
    (reached : (outcomes Event.perform events start).2 = table) (isOpen : table.pending.isSome)
    (readable : ∀ key, ∃ value?, (Table.get key table).1 = .ok value?)
    (room : table.logSize < positionLimit) :
    ∃ compacted entries, compact table = (.ok (), compacted) ∧ Canonical entries compacted ∧
      ∀ request : Table.Request, request.Reads →
        (request.perform table).1 = (request.perform compacted).1 := by
  obtain ⟨files, opens⟩ := exists_openAt_of_openIn opened
  have granted := granted_of_openAt opens
  have named := FileTree.named_of_granted granted
  have apart : siblingPath path ≠ path := FileName.withExtension_ne (by decide) named extension
  have free := FileTree.granted_beside apart beside
  generalize tree.lend path = lent at opens granted free
  have recalling : Recalling path lent.refusals start := (openAt_meets granted).ok_of opens
  obtain ⟨frames, recalls⟩ := recalling.events granted events
  rw [reached] at recalls
  exact recalls.exists_canonical granted free apart isOpen readable room

theorem openIn_of_openAt {tree : FileTree} {start : LogTable}
    (opens : openAt path (tree.lend path) = (.ok start, files)) :
    openIn path tree = (.ok start, tree.takeBack path files) := by
  rw [openIn, on_apply, opens]
  rfl

theorem compact_canonical_overwritten :
    ∃ start after table compacted entries,
      openIn "t.tbl" FileTree.empty = (.ok start, after) ∧
      (outcomes Event.perform [.own (.ask (.put [1] [7])), .own (.ask .sync),
        .overwrite (List.replicate 18 5)] start).2 = table ∧
      (table.pending.isSome ∧ ∀ key, ∃ value?, (Table.get key table).1 = .ok value?) ∧
      compact table = (.ok (), compacted) ∧ Canonical entries compacted ∧
      ((Table.Request.get [1]).perform compacted).1 = .ok (.value (some [5])) := by
  have sibling : siblingPath "t.tbl" = "t.compact" := by decide
  have plain : FileTree.Plain "t.tbl" := ⟨by decide, by decide, by decide⟩
  have plainSibling : FileTree.Plain (siblingPath "t.tbl") :=
    sibling ▸ ⟨by decide, by decide, by decide⟩
  have room : FileName.isTooLong (siblingPath "t.tbl") = false := by decide
  have lent := plain.lend_empty (by decide) plainSibling room
  have parts : Parts (Files.empty.content "t.tbl") [] [] :=
    Parts.of_unfinished (List.forall_mem_nil Frame.Fits) unfinished_nil
  have opens : openAt "t.tbl" (FileTree.empty.lend "t.tbl") =
      (.ok (ofFrames "t.tbl" Files.empty []), (ofFrames "t.tbl" Files.empty []).files) := by
    rw [lent]
    exact openAt_of_unfinished rfl parts unfinished_nil
  have opened := openIn_of_openAt opens
  let events : List Event :=
    [.own (.ask (.put [1] [7])), .own (.ask .sync), .overwrite (List.replicate 18 5)]
  let table := (outcomes Event.perform events (ofFrames "t.tbl" Files.empty [])).2
  have file_eq : table.file = List.replicate 18 5 := Files.content_write _ _ _
  have read : table.readValue ⟨10, 1⟩ = .ok [5] := by
    rw [readValue, file_eq]
    rfl
  have get_eq : ∀ key, find? key table = (.ok (if key = [1] then some [5] else none), table) := by
    intro key
    have flushes : Flushes table table := .of_written rfl
    have placed : table.state.directory.find? key = if key = [1] then some ⟨10, 1⟩ else none :=
      SortedMap.find?_insert _ _ _ _
    rw [flushes.find?_eq, placed]
    by_cases same : key = [1]
    · rw [if_pos same, if_pos same]
      dsimp only
      rw [read]
      rfl
    · rw [if_neg same, if_neg same]
  have readable : ∀ key, ∃ value?, (Table.get key table).1 = .ok value? :=
    fun key => ⟨_, congrArg Prod.fst (get_eq key)⟩
  have answered : ((Table.Request.get [1]).perform table).1 = .ok (.value (some [5])) := by
    have called : Table.get [1] table = _ := get_eq [1]
    rw [Table.Request.perform, map_apply, called]
    rfl
  obtain ⟨compacted, entries, compacts, canonical, same⟩ :=
    compact_canonical opened (by decide) (plainSibling.located room).2 rfl rfl readable (by decide)
  refine ⟨_, _, table, compacted, entries, opened, rfl, ⟨rfl, readable⟩, compacts, canonical, ?_⟩
  rw [← answered, same (.get [1]) trivial]

/-- A log whose name leaves no room for the extension cannot be compacted. -/
theorem not_compact_beside_longName :
    let path := String.ofList (List.replicate 250 'x')
    FileName.extension? path ≠ some "compact" ∧
      ∃ start after table, openIn path FileTree.empty = (.ok start, after) ∧
        (outcomes Event.perform [.own (.ask (.put [1] [7]))] start).2 = table ∧
        (table.pending.isSome ∧ ∀ key, ∃ value?, (Table.get key table).1 = .ok value?) ∧
        table.logSize < positionLimit ∧ (compact table).1 = .error .nameTooLong := by
  intro path
  have letters : path.toList = List.replicate 250 'x' := String.toList_ofList
  obtain ⟨plain, distinct, lent⟩ := FileTree.lend_empty_of_replicate (by decide) (by decide) letters
  have granted : (FileTree.empty.lend path).refusals.find? path = none := by
    rw [lent, Files.refuse, SortedMap.find?_insert, if_neg distinct]
    rfl
  have parts : Parts ((FileTree.empty.lend path).content path) [] [] := by
    rw [lent]
    exact Parts.of_unfinished (List.forall_mem_nil Frame.Fits) unfinished_nil
  have opens := openAt_of_unfinished granted parts unfinished_nil
  have logs := logs_ofFrames path (FileTree.empty.lend path) parts.fits
  have fits : Fits ⟨.put, [1], [7]⟩ := ⟨by decide, by decide⟩
  obtain ⟨_, table, performed, -, still, held⟩ := ((logs.append_meets rfl ⟨.put, [1], [7]⟩).mono
    (fun _ _ => id) fun _ _ refused => refused.1 fits).succeeds
  have room : table.logSize < positionLimit := by
    rw [held.logSize_eq]
    decide
  obtain ⟨flushed, flushes⟩ := exists_flushes still
  have kept := held.recalls.flushes flushes
  have refused : flushed.files.refusals.find? (siblingPath flushed.path) = some .nameTooLong := by
    rw [kept.refusals_eq, kept.path_eq, lent, Files.refuse, SortedMap.find?_insert, if_pos rfl]
  have put : Table.put [1] [7] (ofFrames path (FileTree.empty.lend path) []) = (.ok (), table) :=
    performed
  refine ⟨by simp [plain], _, _, table, openIn_of_openAt opens, ?_, ⟨still, fun key => ?_⟩, room, ?_⟩
  · simp only [outcomes, Event.perform, Step.perform, Table.Request.perform, map_apply, put]
  · obtain ⟨found, after, read, -⟩ := (held.find?_meets still room key).succeeds
    exact ⟨found, congrArg Prod.fst read⟩
  · rw [flushes.compact_of_refused refused]

end LogTable

end AttributeIndex
