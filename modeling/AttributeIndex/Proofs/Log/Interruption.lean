import AttributeIndex.Proofs.Log.Course

namespace AttributeIndex

open AttributeIndex.Action AttributeIndex.Frame

theorem Files.content_erase_of_ne {files : Files} {path other : String} (distinct : other ≠ path) :
    (files.erase path).content other = files.content other := by
  simp [Files.content, Files.erase, SortedMap.find?_erase, distinct]

namespace LogTable

variable {path : String} {refusals : SortedMap String IoError} {frames : List Frame}
  {table flushed left right compacted : LogTable}

def leaveBeside (content? : Option Bytes) (table : LogTable) : LogTable where
  path := table.path
  files :=
    match content? with
    | some content => table.files.write (siblingPath table.path) content
    | none => table.files.erase (siblingPath table.path)
  pending := table.pending
  state := table.state

inductive Interrupted (table : LogTable) : LogTable → Prop
  | failing {failure : IoError} {left : LogTable} (failed : compact table = (.error failure, left)) :
      Interrupted table left
  | flushing {pending : Bytes} (waits : table.pending = some pending) (count : Nat) :
      Interrupted table { table with
        files := table.files.write table.path (table.file ++ pending.take count)
        pending := some (pending.drop count) }
  | copying {flushed : LogTable} (flushes : Flushes table flushed) (content? : Option Bytes) :
      Interrupted table (flushed.leaveBeside content?)
  | replacing {flushed : LogTable} (flushes : Flushes table flushed) (content? : Option Bytes) :
      Interrupted table { flushed.leaveBeside content? with pending := none }
  | resuming {compacted : LogTable} (done : compact table = (.ok (), compacted)) :
      Interrupted table { compacted with pending := none, state := table.state }

/-! ## The log that is left -/

theorem sameLog_leaveBeside (located : table.path = path) (apart : siblingPath path ≠ path)
    (content? : Option Bytes) : SameLog path table (table.leaveBeside content?) := by
  cases content? with
  | some content => exact sameLog_withSibling located apart content
  | none =>
    refine ⟨located, located, rfl, rfl, ?_, rfl⟩
    obtain rfl := located
    exact congrArg (· ++ _) (Files.content_erase_of_ne apart.symm).symm

theorem sameLog_flushing (located : table.path = path) {pending : Bytes}
    (waits : table.pending = some pending) (count : Nat) :
    SameLog path table { table with
      files := table.files.write table.path (table.file ++ pending.take count)
      pending := some (pending.drop count) } where
  left_path := located
  right_path := located
  refusals_eq := rfl
  isOpen_eq := by rw [waits]; rfl
  log_eq := by simp [log, file, waits]
  state_eq := rfl

theorem SameFile.closed (same : SameFile path left right) :
    SameLog path { left with pending := none } { right with pending := none } where
  left_path := same.left_path
  right_path := same.right_path
  refusals_eq := same.refusals_eq
  isOpen_eq := rfl
  log_eq := congrArg (· ++ []) same.file_eq
  state_eq := same.state_eq

section

variable (located : table.path = path) (apart : siblingPath path ≠ path)
  (isOpen : table.pending.isSome)

include located apart isOpen

theorem sameLog_of_failed {failure : IoError} (failed : compact table = (.error failure, left)) :
    SameLog path table left ∧ left.pending = some [] := by
  rcases compact_failed failed with ⟨closed, -⟩ | ⟨flushed, flushes, same⟩
  · simp [closed] at isOpen
  · have kept := flushes.sameLog located
    rcases same with rfl | ⟨content, rfl⟩
    · exact ⟨kept, flushes.pending_eq⟩
    · exact ⟨kept.trans (sameLog_withSibling kept.right_path apart content), flushes.pending_eq⟩

namespace Interrupted

variable (interrupted : Interrupted table left)

include interrupted

theorem sameLog (still : left.pending.isSome) : SameLog path table left := by
  cases interrupted with
  | failing failed => exact (sameLog_of_failed located apart isOpen failed).1
  | flushing waits count => exact sameLog_flushing located waits count
  | copying flushes content? =>
    have kept := flushes.sameLog located
    exact kept.trans (sameLog_leaveBeside kept.right_path apart content?)
  | replacing | resuming => cases still

theorem closed_cases (closed : left.pending = none) :
    (∃ flushed, Flushes table flushed ∧ SameLog path { flushed with pending := none } left) ∨
      ∃ compacted, compact table = (.ok (), compacted) ∧
        left = { compacted with pending := none, state := table.state } := by
  cases interrupted with
  | failing failed =>
    rw [(sameLog_of_failed located apart isOpen failed).2] at closed
    cases closed
  | flushing => cases closed
  | copying flushes =>
    have waits := flushes.pending_eq.symm.trans closed
    cases waits
  | replacing flushes content? =>
    have kept := sameLog_leaveBeside (flushes.path_eq.trans located) apart content?
    exact .inl ⟨_, flushes, (SameFile.of_written kept flushes.written flushes.written).closed⟩
  | resuming done => exact .inr ⟨_, done, rfl⟩

end Interrupted

end

/-! ## What the table does from there -/

/-- A table whose compaction has failed goes on as if that had not been asked. If it has let go of its
log by then, it is as after closing, or its file holds the compacted log. -/
structure Unharmed (table left : LogTable) : Prop where
  written : ∀ failure, compact table = (.error failure, left) →
    left.pending = some [] ∧ left.file = table.log
  log_eq : left.pending.isSome → left.log = table.log
  outcomes_eq : left.pending.isSome → ∀ steps,
    (outcomes Step.perform steps left).1 = (outcomes Step.perform steps table).1
  closed : left.pending = none →
    (left.file = table.log ∧ ∀ steps,
      (outcomes Step.perform (.ask .close :: steps) left).1 =
        (outcomes Step.perform (.ask .close :: steps) table).1) ∨
    ∃ compacted, compact table = (.ok (), compacted) ∧ left.file = compacted.file

theorem outcomes_close {after : LogTable} (closes : close table = (.ok (), after))
    (steps : List Step) :
    (outcomes Step.perform (.ask .close :: steps) table).1 =
      .ok .done :: (outcomes Step.perform steps after).1 := by
  have first : (Step.ask .close).perform table = (.ok .done, after) := by
    show ((fun _ => Table.Answer.done) <$> close) table = _
    rw [map_apply, closes]
    rfl
  simp only [outcomes, first]

theorem Interrupted.unharmed (interrupted : Interrupted table left) (isOpen : table.pending.isSome)
    (apart : siblingPath table.path ≠ table.path) : Unharmed table left where
  written failure failed := by
    obtain ⟨same, written⟩ := sameLog_of_failed rfl apart isOpen failed
    exact ⟨written, by rw [file_of_written (by rw [written]; rfl), same.log_eq]⟩
  log_eq still := (interrupted.sameLog rfl apart isOpen still).log_eq.symm
  outcomes_eq still steps :=
    ((interrupted.sameLog rfl apart isOpen still).outcomes_eq apart steps).symm
  closed shut := by
    rcases interrupted.closed_cases rfl apart isOpen shut with
      ⟨flushed, flushes, same⟩ | ⟨compacted, done, rfl⟩
    · have written : left.file = flushed.file := by
        rw [file_of_written (by rw [shut]; rfl), ← same.log_eq]
        exact List.append_nil _
      refine .inl ⟨?_, fun steps => ?_⟩
      · rw [written, file_of_written flushes.written, flushes.log_eq]
      · rw [outcomes_close (close_of_closed shut), outcomes_close flushes.close_eq,
          same.outcomes_eq apart]
    · exact .inr ⟨compacted, done, rfl⟩

theorem Logs.sameLog (logs : Logs path refusals frames left) (held : Logs path refusals frames right)
    (isOpen_eq : left.pending.isSome = right.pending.isSome) : SameLog path left right where
  left_path := logs.path_eq
  right_path := held.path_eq
  refusals_eq := logs.refusals_eq.trans held.refusals_eq.symm
  isOpen_eq := isOpen_eq
  log_eq := logs.log_eq.trans held.log_eq.symm
  state_eq := logs.state_eq.trans held.state_eq.symm

theorem Logs.reads_compacted (logs : Logs path refusals frames table) (apart : siblingPath path ≠ path)
    (room : table.logSize < positionLimit) (done : compact table = (.ok (), compacted))
    (request : Table.Request) (reads : request.Reads) :
    (request.perform compacted).1 = (request.perform table).1 := by
  obtain ⟨flushed, flushes, readable, values_eq, rfl⟩ := logs.compact_eq apart done
  have held := logs.rewritten flushed.files
  have short : (LogTable.rewritten path flushed.files (contentsOf frames)).logSize < positionLimit := by
    rw [held.logSize_eq]
    rw [logs.logSize_eq] at room
    exact Nat.lt_of_le_of_lt (length_putsOf_le frames) room
  have again : Flushes (LogTable.rewritten path flushed.files (contentsOf frames)) _ := .of_written rfl
  rw [flushes.perform_eq readable request reads, values_eq,
    again.perform_eq (held.readable rfl short) request reads, held.values_eq rfl, contentsOf_putsOf]

theorem Interrupted.logs_or_compacted (interrupted : Interrupted table left)
    (logs : Logs path refusals frames table) (apart : siblingPath path ≠ path)
    (isOpen : table.pending.isSome) :
    Logs path refusals frames left ∨ ∃ compacted, compact table = (.ok (), compacted) ∧
      left = { compacted with pending := none, state := table.state } := by
  cases waits : left.pending with
  | some bytes =>
    have same := interrupted.sameLog logs.path_eq apart isOpen (by simp [waits])
    exact .inl (same.logs logs)
  | none =>
    refine (interrupted.closed_cases logs.path_eq apart isOpen waits).imp_left ?_
    rintro ⟨flushed, flushes, same⟩
    have held := (flushes.sameLog logs.path_eq).logs logs
    refine same.logs ⟨held.path_eq, held.refusals_eq, held.fits, ?_, held.state_eq⟩
    exact (List.append_nil _).trans (held.file_eq flushes.written)

theorem Interrupted.reopen (interrupted : Interrupted table left)
    (logs : Logs path refusals frames table) (granted : refusals.find? path = none)
    (apart : siblingPath path ≠ path) (isOpen : table.pending.isSome)
    (room : table.logSize < positionLimit) :
    ∃ again, LogTable.reopen left = (.ok (), again) ∧
      ∀ request : Table.Request, request.Reads →
        (request.perform again).1 = (request.perform table).1 := by
  rcases interrupted.logs_or_compacted logs apart isOpen with kept | ⟨compacted, done, rfl⟩
  · obtain ⟨again, opens, opened, held⟩ := kept.reopen granted
    refine ⟨again, reopen_of_ok kept.path_eq opens, fun request _ => ?_⟩
    exact ((held.sameLog logs (by rw [opened, isOpen]; rfl)).request_agree request).1
  · -- The closed table still has the directory of the old log; opening it reads the new one.
    refine ⟨compacted, ?_, logs.reads_compacted apart room done⟩
    obtain ⟨flushed, flushes, -, -, rfl⟩ := logs.compact_eq apart done
    have held := (flushes.sameLog logs.path_eq).logs logs
    exact reopen_of_ok rfl (openAt_ofFrames (held.refusals_eq ▸ granted) logs.recalls.fits_putsOf)

/-- Unless the copy is made in the place of the log itself, a compaction that fails loses nothing. -/
theorem compact_interrupted (isOpen : table.pending.isSome)
    (apart : siblingPath table.path ≠ table.path) (interrupted : Interrupted table left) :
    Unharmed table left ∧
      ∀ {tree after : FileTree} {start : LogTable} {steps : List Step},
        openIn table.path tree = (.ok start, after) → (outcomes Step.perform steps start).2 = table →
        table.logSize < positionLimit →
        ∃ again, LogTable.reopen left = (.ok (), again) ∧
          ∀ request : Table.Request, request.Reads →
            (request.perform again).1 = (request.perform table).1 := by
  refine ⟨interrupted.unharmed isOpen apart, ?_⟩
  intro tree after start steps opened reached room
  obtain ⟨files, opens⟩ := exists_openAt_of_openIn opened
  obtain ⟨frames, logs⟩ := exists_logs opened steps fun _ => apart
  rw [reached] at logs
  exact interrupted.reopen logs (granted_of_openAt opens) apart isOpen room

theorem compact_interrupted_beside_longName :
    let path := String.ofList (List.replicate 250 'x')
    ∃ start after table left again, openIn path FileTree.empty = (.ok start, after) ∧
      (outcomes Step.perform [.ask (.put [1] [7])] start).2 = table ∧
      (table.pending.isSome ∧ siblingPath table.path ≠ table.path ∧
        table.logSize < positionLimit) ∧
      compact table = (.error .nameTooLong, left) ∧ left.file = table.log ∧
      LogTable.reopen left = (.ok (), again) ∧
      ((Table.Request.get [1]).perform again).1 = .ok (.value (some [7])) := by
  intro path
  have letters : path.toList = List.replicate 250 'x' := String.toList_ofList
  obtain ⟨-, distinct, lent⟩ := FileTree.lend_empty_of_replicate (by decide) (by decide) letters
  have granted : (FileTree.empty.lend path).refusals.find? path = none := by
    rw [lent, Files.refuse, SortedMap.find?_insert, if_neg distinct]
    rfl
  have opened := openIn_of_frames granted (List.forall_mem_nil Fits) (by rw [lent]; rfl)
  have logs := logs_ofFrames path (FileTree.empty.lend path) (List.forall_mem_nil Fits)
  have fits : Fits ⟨.put, [1], [7]⟩ := ⟨by decide, by decide⟩
  obtain ⟨_, table, performed, -, still, held⟩ :=
    (logs.append_meets rfl ⟨.put, [1], [7]⟩).succeeds_unless fun _ _ refused => refused.1 fits
  have room : table.logSize < positionLimit := by
    rw [held.logSize_eq]
    decide
  obtain ⟨flushed, flushes⟩ := exists_flushes still
  have kept := held.recalls.flushes flushes
  have refused : flushed.files.refusals.find? (siblingPath flushed.path) = some .nameTooLong := by
    rw [kept.refusals_eq, kept.path_eq, lent, Files.refuse, SortedMap.find?_insert, if_pos rfl]
  have failed := flushes.compact_of_refused refused
  have apart : siblingPath table.path ≠ table.path := held.path_eq ▸ distinct.symm
  have reached : (outcomes Step.perform [.ask (.put [1] [7])]
      (ofFrames path (FileTree.empty.lend path) [])).2 = table := by
    have put : Table.put [1] [7] (ofFrames path (FileTree.empty.lend path) []) = (.ok (), table) :=
      performed
    simp only [outcomes, Step.perform, Table.Request.perform, map_apply, put]
  obtain ⟨unharmed, reopens⟩ := compact_interrupted still apart (.failing failed)
  obtain ⟨again, opens, same⟩ := reopens (by rw [held.path_eq]; exact opened) reached room
  refine ⟨_, _, table, flushed, again, opened, reached, ⟨still, apart, room⟩, failed,
    (unharmed.written _ failed).2, opens, ?_⟩
  obtain ⟨_, _, read, rfl, -⟩ := (held.find?_meets still room [1]).succeeds
  have called : Table.get [1] table = _ := read
  rw [same (.get [1]) trivial, Table.Request.perform, map_apply, called]
  rfl

/-- A log that has the name of its copy is lost before the copy is made. -/
theorem compact_in_place_loses_log :
    ∃ start after table left, openIn "t.compact" FileTree.empty = (.ok start, after) ∧
      (outcomes Step.perform [.ask (.put [1] [7])] start).2 = table ∧ table.pending.isSome ∧
      compact table = (.error .unexpectedEnd, left) ∧
      table.log ≠ [] ∧ left.file = [] ∧
      ((Table.Request.get [1]).perform table).1 = .ok (.value (some [7])) ∧
      ((Table.Request.get [1]).perform left).1 = .error .unexpectedEnd := by
  have plain : FileTree.Plain "t.compact" := ⟨by decide, by decide, by decide⟩
  have inPlace : siblingPath "t.compact" = "t.compact" := by decide
  have lent : FileTree.empty.lend "t.compact" = .empty :=
    plain.lend_empty (by decide) (inPlace.symm ▸ plain) (by decide)
  have opened : openIn "t.compact" FileTree.empty = _ :=
    openIn_of_frames (by rw [lent]; rfl) (List.forall_mem_nil Fits) (by rw [lent]; rfl)
  rw [lent] at opened
  refine ⟨_, _, _, _, opened, rfl, rfl, rfl, ?_, ?_, ?_, ?_⟩
  · exact List.cons_ne_nil _ _
  · rfl
  · rfl
  · rfl

end LogTable

end AttributeIndex
