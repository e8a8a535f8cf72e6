import AttributeIndex.Proofs.Log.Canonical
import AttributeIndex.Proofs.Log.Faithful

namespace AttributeIndex

open AttributeIndex.Action AttributeIndex.Frame

namespace LogTable

variable {path : String} {files other : Files} {refusals : SortedMap String IoError}
  {frames : List Frame} {table flushed after left right : LogTable}

structure SameLog (path : String) (left right : LogTable) : Prop where
  left_path : left.path = path
  right_path : right.path = path
  refusals_eq : left.files.refusals = right.files.refusals
  isOpen_eq : left.pending.isSome = right.pending.isSome
  log_eq : left.log = right.log
  state_eq : left.state = right.state

namespace SameLog

theorem symm (same : SameLog path left right) : SameLog path right left :=
  ⟨same.right_path, same.left_path, same.refusals_eq.symm, same.isOpen_eq.symm, same.log_eq.symm,
    same.state_eq.symm⟩

theorem trans {third : LogTable} (first : SameLog path left right)
    (second : SameLog path right third) : SameLog path left third :=
  ⟨first.left_path, second.right_path, first.refusals_eq.trans second.refusals_eq,
    first.isOpen_eq.trans second.isOpen_eq, first.log_eq.trans second.log_eq,
    first.state_eq.trans second.state_eq⟩

theorem closed_or_open (same : SameLog path left right) :
    (left.pending = none ∧ right.pending = none) ∨ (left.pending.isSome ∧ right.pending.isSome) := by
  have isOpen_eq := same.isOpen_eq
  cases shut : left.pending with
  | none => exact .inl ⟨rfl, by simpa [shut] using isOpen_eq.symm⟩
  | some bytes => exact .inr ⟨rfl, by simpa [shut] using isOpen_eq.symm⟩

theorem closedError_eq (same : SameLog path left right) : left.closedError = right.closedError :=
  congrArg IoError.closed (same.left_path.trans same.right_path.symm)

theorem logs (same : SameLog path left right) (logs : Logs path refusals frames left) :
    Logs path refusals frames right :=
  ⟨same.right_path, same.refusals_eq.symm.trans logs.refusals_eq, logs.fits,
    same.log_eq.symm.trans logs.log_eq, same.state_eq.symm.trans logs.state_eq⟩

end SameLog

theorem file_of_written (written : table.pending.getD [] = []) : table.file = table.log := by
  rw [log, written, List.append_nil]

theorem Flushes.log_eq (flushes : Flushes table flushed) : flushed.log = table.log := by
  obtain ⟨path, files, pending, state⟩ := table
  have flushed_eq := flushes.flush_eq
  match pending with
  | none => cases flushed_eq
  | some [] =>
    cases flushed_eq
    rfl
  | some (byte :: bytes) =>
    cases flushed_eq
    simp [log, file, Appender.flush]

theorem Flushes.isOpen (flushes : Flushes table flushed) : table.pending.isSome := by
  rw [Option.isSome_iff_ne_none]
  intro closed
  have stopped := flush_of_closed closed
  rw [flushes.flush_eq] at stopped
  cases stopped

theorem Flushes.written (flushes : Flushes table flushed) : flushed.pending.getD [] = [] := by
  rw [flushes.pending_eq]
  rfl

theorem Flushes.sameLog (flushes : Flushes table flushed) (located : table.path = path) :
    SameLog path table flushed where
  left_path := located
  right_path := flushes.path_eq.trans located
  refusals_eq := flushes.refusals_eq.symm
  isOpen_eq := by rw [flushes.isOpen, flushes.pending_eq]; rfl
  log_eq := flushes.log_eq.symm
  state_eq := flushes.state_eq.symm

theorem sameLog_withSibling (located : table.path = path) (apart : siblingPath path ≠ path)
    (content : Bytes) : SameLog path table (table.withSibling content) where
  left_path := located
  right_path := located
  refusals_eq := rfl
  isOpen_eq := rfl
  log_eq := by
    obtain rfl := located
    rw [log, log, file_withSibling apart]
    rfl
  state_eq := rfl

/-! ## Requests -/

theorem append_of_refused {frame : Frame} {failure : IoError} (opened : table.pending.isSome)
    (refused : frame.write = .error failure) : append frame table = (.error failure, table) := by
  have writing : ¬table.pending.isNone := by simp [Option.isSome_iff_ne_none.1 opened]
  apply Meets.eq_error
  unfold append
  rw [meets_bind, meets_get, if_neg writing, meets_bind, meets_query, refused]
  exact ⟨rfl, rfl⟩

section

variable {key : Bytes} (opened : table.pending.isSome)

include opened

theorem remove_of_absent (absent : table.state.directory.contains key = false) :
    remove key table = (.ok false, table) := by
  have writing : ¬table.pending.isNone := by simp [Option.isSome_iff_ne_none.1 opened]
  apply Meets.eq_ok
  unfold remove
  rw [meets_bind, meets_get, if_neg writing, absent]
  exact ⟨rfl, rfl⟩

theorem remove_of_present (present : table.state.directory.contains key = true) :
    remove key table = ((fun _ => true) <$> append ⟨.remove, key, []⟩) table := by
  have writing : ¬table.pending.isNone := by simp [Option.isSome_iff_ne_none.1 opened]
  unfold remove
  rw [bind_apply, get_apply]
  dsimp only
  rw [if_neg writing, if_pos present, bind_apply, map_apply]
  cases append ⟨.remove, key, []⟩ table with
  | mk outcome after => cases outcome <;> rfl

end

theorem close_of_closed (closed : table.pending = none) : close table = (.ok (), table) := by
  unfold close
  rw [bind_apply, get_apply]
  dsimp only
  rw [closed]
  rfl

theorem Flushes.close_eq (flushes : Flushes table flushed) :
    close table = (.ok (), { flushed with pending := none }) := by
  apply Meets.eq_ok
  unfold close
  rw [meets_bind, meets_get, if_pos flushes.isOpen, meets_bind]
  exact meets_of_eq_ok flushes.flush_eq (meets_modify.2 ⟨rfl, rfl⟩)

structure SameFile (path : String) (left right : LogTable) : Prop extends SameLog path left right where
  file_eq : left.file = right.file

namespace SameFile

theorem of_written (same : SameLog path left right) (first : left.pending.getD [] = [])
    (second : right.pending.getD [] = []) : SameFile path left right :=
  ⟨same, by rw [file_of_written first, file_of_written second, same.log_eq]⟩

theorem readValue_eq (same : SameFile path left right) (location : Location) :
    left.readValue location = right.readValue location := by
  rw [readValue, readValue, same.file_eq]

theorem matched : Scan.Matched (SameFile path) where
  keys_eq same := congrArg (fun state : LogState => state.directory.keys) same.state_eq
  load key same := by
    refine ⟨?_, same⟩
    simp only [Table.load, query, same.state_eq, same.readValue_eq]

end SameFile

theorem SameLog.closed_or_flushes (same : SameLog path left right) :
    (left.pending = none ∧ right.pending = none) ∨
      ∃ first second, Flushes left first ∧ Flushes right second ∧ SameFile path first second := by
  refine same.closed_or_open.imp_right fun ⟨opened, still⟩ => ?_
  obtain ⟨first, flushes⟩ := exists_flushes opened
  obtain ⟨second, follows⟩ := exists_flushes still
  have flushed : SameLog path first second :=
    (flushes.sameLog same.left_path).symm.trans (same.trans (follows.sameLog same.right_path))
  exact ⟨first, second, flushes, follows, .of_written flushed flushes.written follows.written⟩

namespace SameLog

theorem flush_agree (same : SameLog path left right) :
    Agree (SameFile path) flush flush left right := by
  rcases same.closed_or_flushes with ⟨closed, shut⟩ | ⟨first, second, flushes, follows, flushed⟩
  · refine .of_eq (flush_of_closed closed) ?_ (.of_written same (by rw [closed]; rfl) (by rw [shut]; rfl))
    rw [flush_of_closed shut, same.closedError_eq]
  · exact .of_eq flushes.flush_eq follows.flush_eq flushed

theorem find?_agree (same : SameLog path left right) (key : Bytes) :
    Agree (SameLog path) (find? key) (find? key) left right := by
  rcases same.closed_or_flushes with ⟨closed, shut⟩ | ⟨first, second, flushes, follows, flushed⟩
  · refine .of_eq (find?_of_closed closed key) ?_ same
    rw [find?_of_closed shut, same.closedError_eq]
  · refine .of_eq (flushes.find?_eq key) ?_ flushed.toSameLog
    rw [follows.find?_eq, flushed.state_eq]
    simp only [flushed.readValue_eq]

theorem append_agree (same : SameLog path left right) (frame : Frame) :
    Agree (SameLog path) (append frame) (append frame) left right := by
  rcases same.closed_or_open with ⟨closed, shut⟩ | ⟨opened, still⟩
  · refine .of_eq (append_of_closed closed frame) ?_ same
    rw [append_of_closed shut, same.closedError_eq]
  · cases written : frame.write with
    | error failure =>
      exact .of_eq (append_of_refused opened written) (append_of_refused still written) same
    | ok bytes =>
      have fits := fits_of_write written
      obtain ⟨_, first, performed, -, firstOpen, firstLog, firstPath, firstRefusals, firstState⟩ :=
        (LogTable.append_meets opened frame).succeeds_unless fun _ _ refused => refused.1 fits
      obtain ⟨_, second, answered, -, secondOpen, secondLog, secondPath, secondRefusals,
        secondState⟩ :=
        (LogTable.append_meets still frame).succeeds_unless fun _ _ refused => refused.1 fits
      refine .of_eq performed answered ⟨firstPath.trans same.left_path,
        secondPath.trans same.right_path, ?_, by rw [firstOpen, secondOpen], ?_, ?_⟩
      · rw [firstRefusals, secondRefusals, same.refusals_eq]
      · rw [firstLog, secondLog, same.log_eq]
      · rw [firstState, secondState, same.state_eq]

theorem remove_agree (same : SameLog path left right) (key : Bytes) :
    Agree (SameLog path) (remove key) (remove key) left right := by
  rcases same.closed_or_open with ⟨closed, shut⟩ | ⟨opened, still⟩
  · refine .of_eq (remove_of_closed closed key) ?_ same
    rw [remove_of_closed shut, same.closedError_eq]
  · have present := congrArg (fun state : LogState => state.directory.contains key) same.state_eq
    cases held : left.state.directory.contains key with
    | false =>
      rw [held] at present
      exact .of_eq (remove_of_absent opened held) (remove_of_absent still present.symm) same
    | true =>
      rw [held] at present
      obtain ⟨outcome_eq, kept⟩ := (same.append_agree ⟨.remove, key, []⟩).map fun _ => true
      unfold Agree
      rw [remove_of_present opened held, remove_of_present still present.symm]
      exact ⟨outcome_eq, kept⟩

theorem close_agree (same : SameLog path left right) :
    Agree (SameLog path) close close left right := by
  rcases same.closed_or_flushes with ⟨closed, shut⟩ | ⟨first, second, flushes, follows, flushed⟩
  · exact .of_eq (close_of_closed closed) (close_of_closed shut) same
  · refine .of_eq flushes.close_eq follows.close_eq
      ⟨flushed.left_path, flushed.right_path, flushed.refusals_eq, rfl, ?_, flushed.state_eq⟩
    exact congrArg (· ++ []) flushed.file_eq

theorem request_agree (same : SameLog path left right) (request : Table.Request) :
    Agree (SameLog path) (request.perform : Action LogTable IoError Table.Answer) request.perform left
      right := by
  have size_eq : Table.size left = Table.size right :=
    congrArg (fun state : LogState => state.directory.size) same.state_eq
  have flushes : Agree (SameLog path) flush flush left right :=
    ⟨same.flush_agree.1, same.flush_agree.2.toSameLog⟩
  cases request with
  | get key => exact (same.find?_agree key).map _
  | put key value => exact (same.append_agree _).map _
  | remove key => exact (same.remove_agree key).map _
  | size => exact ⟨congrArg (fun count => Except.ok (Table.Answer.size count)) size_eq, same⟩
  | isEmpty =>
    exact ⟨congrArg (fun count => Except.ok (Table.Answer.flag (count == 0))) size_eq, same⟩
  | scan steps =>
    obtain ⟨answered, kept⟩ := Table.perform_scan_agree SameFile.matched same.flush_agree steps
    exact ⟨answered, kept.toSameLog⟩
  | sync => exact flushes.map _
  | close => exact same.close_agree.map _

end SameLog

theorem openAt_like (content_eq : files.content path = other.content path)
    (refusals_eq : files.refusals = other.refusals) :
    (∃ failure, openAt path files = (.error failure, files) ∧
      openAt path other = (.error failure, other)) ∨
      ∃ frames, openAt path files = (.ok (ofFrames path files frames),
          (ofFrames path files frames).files) ∧
        openAt path other = (.ok (ofFrames path other frames), (ofFrames path other frames).files) := by
  cases granted : files.refusals.find? path with
  | some failure =>
    exact .inl ⟨failure, openAt_of_refused granted, openAt_of_refused (refusals_eq ▸ granted)⟩
  | none =>
    obtain ⟨frames, rest, parts⟩ := exists_parts (files.content path)
    have also := parts
    rw [content_eq] at also
    by_cases unfinished : Unfinished rest
    · exact .inr ⟨frames, openAt_of_unfinished granted parts unfinished,
        openAt_of_unfinished (refusals_eq ▸ granted) also unfinished⟩
    · exact .inl ⟨damage rest, openAt_of_damaged granted parts unfinished,
        openAt_of_damaged (refusals_eq ▸ granted) also unfinished⟩

theorem SameLog.reopen_agree (same : SameLog path left right) :
    Agree (SameLog path) LogTable.reopen LogTable.reopen left right := by
  have content_of : ∀ {table : LogTable}, table.path = path → table.release.content path = table.log :=
    fun {table} located => located ▸ content_release table
  have content_eq : left.release.content path = right.release.content path := by
    rw [content_of same.left_path, content_of same.right_path, same.log_eq]
  have refusals_eq : left.release.refusals = right.release.refusals := by
    rw [refusals_release, refusals_release, same.refusals_eq]
  rcases openAt_like content_eq refusals_eq with ⟨failure, opens, reopens⟩ | ⟨frames, opens, reopens⟩
  · refine .of_eq (reopen_of_error same.left_path opens) (reopen_of_error same.right_path reopens)
      ⟨same.left_path, same.right_path, refusals_eq, rfl, ?_, same.state_eq⟩
    simp only [log, file, same.left_path, same.right_path, content_eq]
  · refine .of_eq (reopen_of_ok same.left_path opens) (reopen_of_ok same.right_path reopens)
      ⟨rfl, rfl, refusals_eq, rfl, ?_, rfl⟩
    simp [log, file, ofFrames]

/-! ## Compaction -/

theorem Flushes.compact_of_granted (flushes : Flushes table flushed)
    (granted : flushed.files.refusals.find? (siblingPath flushed.path) = none) :
    compact table =
      (copyValues flushed.state.directory.entries [] >>= fun _ => modify replaceBySibling)
        (flushed.withSibling []) := by
  have made : flushed.files.create (siblingPath flushed.path) [] =
      .ok (flushed.withSibling []).files := flushed.files.create_of_granted _ [] granted
  unfold compact
  rw [bind_apply, flushes.flush_eq]
  dsimp only
  rw [bind_apply, get_apply]
  dsimp only
  rw [bind_apply, ofResult, made]
  rfl

structure SameFiles (path : String) (left right : LogTable) : Prop extends SameFile path left right where
  sibling_eq : left.sibling = right.sibling

theorem SameFile.withSibling (same : SameFile path left right) (apart : siblingPath path ≠ path)
    (content : Bytes) : SameFiles path (left.withSibling content) (right.withSibling content) where
  toSameLog := (sameLog_withSibling same.left_path apart content).symm.trans
    (same.toSameLog.trans (sameLog_withSibling same.right_path apart content))
  file_eq := by
    have left_apart : siblingPath left.path ≠ left.path := same.left_path ▸ apart
    have right_apart : siblingPath right.path ≠ right.path := same.right_path ▸ apart
    rw [file_withSibling left_apart, file_withSibling right_apart, same.file_eq]
  sibling_eq := by rw [sibling_withSibling, sibling_withSibling]

theorem copyValues_nil (table : LogTable) (pending : Bytes) :
    copyValues [] pending table = (.ok (), table.withSibling (table.sibling ++ pending)) :=
  rfl

theorem copyValues_of_error {key : Bytes} {location : Location} {failure : IoError}
    (framed : (table.readValue location >>= fun value => Frame.write ⟨.put, key, value⟩) =
      .error failure) (entries : List (Bytes × Location)) (pending : Bytes) :
    copyValues ((key, location) :: entries) pending table =
      (.error failure, table.withSibling (table.sibling ++ pending)) := by
  simp only [copyValues, framed]
  rfl

theorem SameFiles.copyValues_agree (same : SameFiles path left right)
    (apart : siblingPath path ≠ path) (entries : List (Bytes × Location))
    (pending : Bytes) :
    Agree (SameFiles path) (copyValues entries pending) (copyValues entries pending) left right := by
  induction entries generalizing left right pending with
  | nil =>
    have last := copyValues_nil right pending
    rw [← same.sibling_eq] at last
    exact .of_eq (copyValues_nil left pending) last (same.toSameFile.withSibling apart _)
  | cons entry entries ih =>
    obtain ⟨key, location⟩ := entry
    cases framed : left.readValue location >>= fun value => Frame.write ⟨.put, key, value⟩ with
    | error failure =>
      have also := framed
      rw [same.readValue_eq] at also
      have stopped := copyValues_of_error also entries pending
      rw [← same.sibling_eq] at stopped
      exact .of_eq (copyValues_of_error framed entries pending) stopped
        (same.toSameFile.withSibling apart _)
    | ok frame =>
      have also := framed
      rw [same.readValue_eq] at also
      unfold Agree
      rw [copyValues_cons framed, copyValues_cons also, same.sibling_eq]
      exact ih (same.toSameFile.withSibling apart _) _

theorem SameFiles.replaceBySibling (same : SameFiles path left right) :
    SameLog path left.replaceBySibling right.replaceBySibling where
  left_path := same.left_path
  right_path := same.right_path
  refusals_eq := same.refusals_eq
  isOpen_eq := rfl
  log_eq := by
    have copied : ∀ table : LogTable, table.replaceBySibling.log = table.sibling := by
      intro table
      simp [log, file, LogTable.replaceBySibling, sibling]
    rw [copied, copied, same.sibling_eq]
  state_eq := congrArg (fun state : LogState => LogState.compacted state.directory) same.state_eq

theorem SameLog.compact_agree (same : SameLog path left right) (apart : siblingPath path ≠ path) :
    Agree (SameLog path) compact compact left right := by
  rcases same.closed_or_flushes with ⟨closed, shut⟩ | ⟨first, second, flushes, follows, flushed⟩
  · refine .of_eq (compact_of_closed closed) ?_ same
    rw [compact_of_closed shut, same.closedError_eq]
  · have paths_eq : first.path = second.path := flushed.left_path.trans flushed.right_path.symm
    cases refused : first.files.refusals.find? (siblingPath first.path) with
    | some failure =>
      refine .of_eq (flushes.compact_of_refused refused) (follows.compact_of_refused ?_)
        flushed.toSameLog
      rw [← flushed.refusals_eq, ← paths_eq, refused]
    | none =>
      have granted := refused
      rw [flushed.refusals_eq, paths_eq] at granted
      obtain ⟨copied, files⟩ := (flushed.withSibling apart []).copyValues_agree apart
        first.state.directory.entries []
      unfold Agree
      rw [flushes.compact_of_granted refused, follows.compact_of_granted granted, bind_apply,
        bind_apply, ← flushed.state_eq]
      cases left : copyValues first.state.directory.entries [] (first.withSibling []) with
      | mk outcome after =>
        cases right : copyValues first.state.directory.entries [] (second.withSibling []) with
        | mk reply later =>
          rw [left, right] at copied files
          obtain rfl : outcome = reply := copied
          cases outcome with
          | ok done => exact ⟨rfl, files.replaceBySibling⟩
          | error failure => exact ⟨rfl, files.toSameLog⟩

namespace SameLog

theorem step_agree (same : SameLog path left right) (apart : siblingPath path ≠ path) (step : Step) :
    Agree (SameLog path) step.perform step.perform left right := by
  cases step with
  | ask request => exact same.request_agree request
  | compact => exact (same.compact_agree apart).map _
  | reopen => exact same.reopen_agree.map _

theorem outcomes_eq (same : SameLog path left right) (apart : siblingPath path ≠ path)
    (steps : List Step) :
    (outcomes Step.perform steps left).1 = (outcomes Step.perform steps right).1 :=
  (outcomes_agree (fun _ => SameLog path) (fun step _ _ _ same => same.step_agree apart step) steps
    same).1

end SameLog

end LogTable

end AttributeIndex
