import AttributeIndex.Proofs.Log.Compaction
import AttributeIndex.Proofs.Table.Lawful
import AttributeIndex.Proofs.Table.Requests
import AttributeIndex.Proofs.Text.FileName

namespace AttributeIndex

open AttributeIndex.Action AttributeIndex.Frame

namespace LogTable

inductive Step
  | ask (request : Table.Request)
  | compact
  | reopen
  deriving DecidableEq, Repr

def reopen : Action LogTable IoError Unit :=
  fun table =>
    match openAt table.path table.release with
    | (.ok again, _) => (.ok (), again)
    | (.error failure, files) => (.error failure, { table with files, pending := none })

theorem reopen_of_ok {table again : LogTable} {path : String} {files : Files}
    (located : table.path = path) (opens : openAt path table.release = (.ok again, files)) :
    reopen table = (.ok (), again) := by
  rw [reopen, located, opens]

theorem reopen_of_error {table : LogTable} {path : String} {failure : IoError} {files : Files}
    (located : table.path = path) (opens : openAt path table.release = (.error failure, files)) :
    reopen table = (.error failure, { table with files, pending := none }) := by
  rw [reopen, located, opens]

def renamed (path : String) : IoError → IoError
  | .closed _ => .closed path
  | failure => failure

namespace Step

def perform : Step → Action LogTable IoError Table.Answer
  | ask request => request.perform
  | compact => (fun _ => .done) <$> LogTable.compact
  | reopen => (fun _ => .done) <$> LogTable.reopen

/-- What the step is for a table in memory: only requests change it. Compaction fails for a closed
table, and where there cannot be a file beside the log. -/
def inMemory (path : String) (refusal? : Option IoError) : Step → Action Volatile IoError Table.Answer
  | ask request => relating (renamed path) request.perform
  | compact => do
    relating (renamed path) Table.sync
    match refusal? with
    | some failure => throw failure
    | none => return .done
  | reopen => (fun _ => .done) <$> update Observed.reopen

def Fits : Step → Prop
  | ask (.put key value) => key.length ≤ maxFieldLength ∧ value.length ≤ maxFieldLength
  | _ => True

def growth : Step → Nat
  | ask (.put key value) => lengthOf key.length value.length
  | ask (.remove key) => lengthOf key.length 0
  | _ => 0

end Step

def FitsInFile (steps : List Step) (table : LogTable) : Prop :=
  ∀ done, done <+: steps → (outcomes Step.perform done table).2.logSize < positionLimit

/-- The frames of the log say what the table in memory holds. -/
structure Twin (path : String) (refusals : SortedMap String IoError) (table : LogTable)
    (memory : Volatile) : Prop where
  logged : ∃ frames, Logs path refusals frames table ∧ contentsOf frames = memory.entries
  isClosed_eq : memory.isClosed = table.pending.isNone

structure Follows (path : String) (refusals : SortedMap String IoError) (growth : Nat)
    (before after : LogTable) (memory : Volatile) : Prop extends Twin path refusals after memory where
  logSize_le : after.logSize ≤ before.logSize + growth

variable {path : String} {refusals : SortedMap String IoError} {frames : List Frame}
  {table : LogTable} {memory : Volatile} {growth : Nat} {α β : Type}

theorem Twin.follows (twin : Twin path refusals table memory) :
    Follows path refusals growth table table memory :=
  ⟨twin, Nat.le_add_right _ _⟩

theorem Logs.follows {after : LogTable} {later : List Frame} {memory : Volatile}
    (logs : Logs path refusals frames table) (left : Logs path refusals later after)
    (same : contentsOf later = memory.entries) (closed : memory.isClosed = after.pending.isNone)
    (short : (encodeAll later).length ≤ (encodeAll frames).length + growth) :
    Follows path refusals growth table after memory :=
  ⟨⟨⟨later, left, same⟩, closed⟩, by rwa [left.logSize_eq, logs.logSize_eq]⟩

/-! ## Calls -/

theorem Twin.whileOpen_agrees {call : Action LogTable IoError α}
    {work : SortedMap Bytes Bytes → α × SortedMap Bytes Bytes}
    (twin : Twin path refusals table memory)
    (closed : table.pending = none → call table = (.error table.closedError, table))
    (opened : table.pending.isSome → ∀ frames, Logs path refusals frames table →
      call.Meets table
        (fun answer after => after.pending.isSome ∧ ∃ later, Logs path refusals later after ∧
          work (contentsOf frames) = (answer, contentsOf later) ∧
          (encodeAll later).length ≤ (encodeAll frames).length + growth)
        fun _ _ => False) :
    Agree (Follows path refusals growth table) call
      (relating (renamed path) (Volatile.whileOpen work)) table memory := by
  obtain ⟨⟨frames, logs, same⟩, shut⟩ := twin
  cases pending : table.pending with
  | none =>
    rw [pending] at shut
    refine .of_eq (closed pending) ?_ (logs.follows logs same (by rw [shut, pending]) (by omega))
    rw [relating_apply, Volatile.whileOpen_of_closed shut, closedError, logs.path_eq]
    rfl
  | some bytes =>
    rw [pending] at shut
    obtain ⟨answer, after, performed, still, later, left, answered, short⟩ :=
      (opened (by simp [pending]) frames logs).succeeds
    have kept : Follows path refusals growth table after ⟨contentsOf later, false⟩ :=
      logs.follows left rfl (by simp [still]) short
    refine .of_eq performed ?_ kept
    rw [relating_apply, Volatile.whileOpen_of_open shut, ← same, answered, shut]
    rfl

theorem Twin.get_agrees (twin : Twin path refusals table memory)
    (room : table.logSize < positionLimit) (key : Bytes) :
    Agree (Follows path refusals growth table) (Table.get key)
      (relating (renamed path) (Table.get key)) table memory := by
  refine twin.whileOpen_agrees (fun closed => find?_of_closed closed key) fun opened frames logs => ?_
  refine (logs.find?_meets opened room key).mono ?_ fun _ _ => id
  rintro _ after ⟨rfl, written, left⟩
  exact ⟨by simp [written], frames, left, rfl, Nat.le_add_right _ _⟩

theorem Twin.put_agrees (twin : Twin path refusals table memory) {key value : Bytes}
    (fits : Fits ⟨.put, key, value⟩) :
    Agree (Follows path refusals (lengthOf key.length value.length) table) (Table.put key value)
      (relating (renamed path) (Table.put key value)) table memory := by
  refine twin.whileOpen_agrees (fun closed => append_of_closed closed _) fun opened frames logs => ?_
  refine (logs.append_meets opened _).mono ?_ fun _ _ refused => refused.1 fits
  rintro _ after ⟨-, still, left⟩
  refine ⟨still, _, left, ?_, ?_⟩
  · rw [contentsOf_concat]
    rfl
  · simp [Frame.length]

theorem Twin.remove_agrees (twin : Twin path refusals table memory) (key : Bytes) :
    Agree (Follows path refusals (lengthOf key.length 0) table) (Table.remove key)
      (relating (renamed path) (Table.remove key)) table memory := by
  refine twin.whileOpen_agrees (fun closed => remove_of_closed closed key) fun opened frames logs => ?_
  refine (logs.remove_meets opened key).mono ?_ fun _ _ => id
  rintro _ after ⟨rfl, still, left⟩
  refine ⟨still, _, left, ?_, ?_⟩
  · rw [contentsOf_removal]
  · unfold removal
    split
    · simp [Frame.length]
    · simp

theorem Twin.sync_agrees (twin : Twin path refusals table memory) :
    Agree (Follows path refusals growth table) (Table.sync : Action LogTable IoError Unit)
      (relating (renamed path) (Table.sync : Action Volatile IoError Unit)) table memory := by
  refine twin.whileOpen_agrees (fun closed => flush_of_closed closed) fun opened frames logs => ?_
  refine (logs.flush_meets opened).mono ?_ fun _ _ => id
  rintro _ after ⟨written, left⟩
  exact ⟨by simp [written], frames, left, rfl, Nat.le_add_right _ _⟩

theorem Twin.close_agrees (twin : Twin path refusals table memory) :
    Agree (Follows path refusals growth table) (Table.close : Action LogTable IoError Unit)
      (relating (renamed path) (Table.close : Action Volatile IoError Unit)) table memory := by
  obtain ⟨⟨frames, logs, same⟩, shut⟩ := twin
  obtain ⟨_, after, performed, closed, left⟩ := logs.close_meets.succeeds
  have call : (Table.close : Action LogTable IoError Unit) table = (.ok (), after) := performed
  unfold Agree
  rw [call]
  exact ⟨rfl, logs.follows left same (by rw [closed]; rfl) (Nat.le_add_right _ _)⟩

theorem Logs.alike (logs : Logs path refusals frames table) (written : table.pending = some [])
    (room : table.logSize < positionLimit) (same : contentsOf frames = memory.entries) :
    Scan.Alike table memory := by
  have flushed : table.pending.getD [] = [] := by rw [written]; rfl
  exact (logs.readable flushed room).alike ((logs.values_eq flushed).trans same)

theorem Twin.scan_agrees (twin : Twin path refusals table memory)
    (room : table.logSize < positionLimit) (steps : List (Cursor.Step Tuple)) :
    Agree (Follows path refusals growth table)
      (Table.Request.perform (.scan steps) : Action LogTable IoError Table.Answer)
      (relating (renamed path) (Table.Request.perform (.scan steps))) table memory := by
  obtain ⟨⟨frames, logs, same⟩, shut⟩ := twin
  cases pending : table.pending with
  | none =>
    rw [pending] at shut
    have begins : (Table.beginScan : Action LogTable IoError Unit) table =
        (.error table.closedError, table) := flush_of_closed pending
    have starts : (Table.beginScan : Action Volatile IoError Unit) memory =
        (.error (.closed "memory"), memory) := Volatile.whileOpen_of_closed shut _
    refine .of_eq (Table.perform_scan_of_error begins steps) ?_
      (logs.follows logs same (by rw [shut, pending]) (by omega))
    rw [relating_apply, Table.perform_scan_of_error starts steps, closedError, logs.path_eq]
    rfl
  | some bytes =>
    rw [pending] at shut
    obtain ⟨_, begun, performed, written, left⟩ := (logs.flush_meets (by simp [pending])).succeeds
    have begins : (Table.beginScan : Action LogTable IoError Unit) table = (.ok (), begun) :=
      performed
    have starts : (Table.beginScan : Action Volatile IoError Unit) memory = (.ok (), memory) :=
      Volatile.whileOpen_of_open shut _
    have kept : begun.logSize = table.logSize := by rw [left.logSize_eq, logs.logSize_eq]
    obtain ⟨answer, called, answered⟩ := Table.exists_perform_scan begins starts
      (left.alike written (kept ▸ room) same) steps
    refine .of_eq called ?_ (logs.follows left same (by rw [shut, written]; rfl) (by omega))
    rw [relating_apply, answered]
    rfl

theorem Twin.size_eq (twin : Twin path refusals table memory) :
    Table.size table = Table.size memory := by
  obtain ⟨⟨frames, logs, same⟩, -⟩ := twin
  show table.state.directory.size = memory.entries.size
  rw [← same, logs.contentsOf_eq, SortedMap.size_mapValues]

theorem Twin.request_agrees (twin : Twin path refusals table memory)
    (room : table.logSize < positionLimit) (request : Table.Request)
    (fits : (Step.ask request).Fits) :
    Agree (Follows path refusals (Step.ask request).growth table)
      (request.perform : Action LogTable IoError Table.Answer)
      (relating (renamed path) request.perform) table memory := by
  cases request with
  | get key => exact (twin.get_agrees room key).map_relating _
  | put key value => exact (twin.put_agrees ⟨fits.1, fits.2⟩).map_relating _
  | remove key => exact (twin.remove_agrees key).map_relating _
  | size =>
    refine ⟨?_, twin.follows⟩
    show Except.ok (Table.Answer.size (Table.size table)) = .ok (.size (Table.size memory))
    rw [twin.size_eq]
  | isEmpty =>
    refine ⟨?_, twin.follows⟩
    show Except.ok (Table.Answer.flag (Table.size table == 0)) =
      .ok (.flag (Table.size memory == 0))
    rw [twin.size_eq]
  | scan steps => exact twin.scan_agrees room steps
  | sync => exact twin.sync_agrees.map_relating _
  | close => exact twin.close_agrees.map_relating _

/-! ## Runs -/

theorem inMemory_compact_of_closed (shut : memory.isClosed = true) (refusal? : Option IoError) :
    Step.compact.inMemory path refusal? memory = (.error (.closed path), memory) := by
  have synced : (Table.sync : Action Volatile IoError Unit) memory =
      (.error (.closed "memory"), memory) := Volatile.whileOpen_of_closed shut _
  unfold Step.inMemory
  dsimp only
  rw [bind_apply, relating_apply, synced]
  rfl

theorem inMemory_compact_of_open (shut : memory.isClosed = false) (refusal? : Option IoError) :
    Step.compact.inMemory path refusal? memory =
      (match refusal? with
        | some failure => .error failure
        | none => .ok .done, memory) := by
  have synced : (Table.sync : Action Volatile IoError Unit) memory = (.ok (), memory) :=
    Volatile.whileOpen_of_open shut _
  unfold Step.inMemory
  dsimp only
  rw [bind_apply, relating_apply, synced]
  cases refusal? <;> rfl

theorem Twin.compact_agrees (twin : Twin path refusals table memory)
    (room : table.logSize < positionLimit) (apart : siblingPath path ≠ path) :
    Agree (Follows path refusals growth table) Step.compact.perform
      (Step.compact.inMemory path (refusals.find? (siblingPath path))) table memory := by
  obtain ⟨⟨frames, logs, same⟩, shut⟩ := twin
  have step : Step.compact.perform table =
      ((LogTable.compact table).1.map fun _ => .done, (LogTable.compact table).2) :=
    map_apply _ LogTable.compact table
  cases pending : table.pending with
  | none =>
    rw [pending] at shut
    rw [compact_of_closed pending, closedError, logs.path_eq] at step
    exact .of_eq step (inMemory_compact_of_closed shut _)
      (logs.follows logs same (by rw [shut, pending]) (by omega))
  | some bytes =>
    rw [pending] at shut
    have answered : Step.compact.inMemory path (refusals.find? (siblingPath path)) memory = _ :=
      inMemory_compact_of_open shut _
    have compacts := logs.compact_meets (by simp [pending]) room apart
    cases performed : LogTable.compact table with
    | mk outcome after =>
      rw [performed] at step
      cases outcome with
      | ok done =>
        obtain ⟨granted, still, left⟩ := compacts.ok_of performed
        rw [granted] at answered ⊢
        refine .of_eq step answered (logs.follows left ?_ (by simp [shut, still]) ?_)
        · rw [contentsOf_putsOf, same]
        · exact (length_putsOf_le frames).trans (Nat.le_add_right _ _)
      | error failure =>
        obtain ⟨refused, still, left⟩ := compacts.failed_of performed
        rw [refused] at answered ⊢
        exact .of_eq step answered (logs.follows left same (by simp [shut, still]) (by omega))

theorem Twin.reopen_agrees (twin : Twin path refusals table memory)
    (granted : refusals.find? path = none) (refusal? : Option IoError) :
    Agree (Follows path refusals growth table) Step.reopen.perform
      (Step.reopen.inMemory path refusal?) table memory := by
  obtain ⟨⟨frames, logs, same⟩, shut⟩ := twin
  obtain ⟨again, opens, opened, held⟩ := logs.reopen granted
  refine Agree.map _ ?_
  unfold Agree
  rw [reopen_of_ok logs.path_eq opens]
  exact ⟨rfl, logs.follows held same (by rw [opened]; rfl) (Nat.le_add_right _ _)⟩

theorem Twin.step_agrees (twin : Twin path refusals table memory)
    (granted : refusals.find? path = none) (apart : siblingPath path ≠ path)
    (room : table.logSize < positionLimit) (step : Step) (fits : step.Fits) :
    Agree (Follows path refusals step.growth table) step.perform
      (step.inMemory path (refusals.find? (siblingPath path))) table memory := by
  cases step with
  | ask request => exact twin.request_agrees room request fits
  | compact => exact twin.compact_agrees room apart
  | reopen => exact twin.reopen_agrees granted _

theorem FitsInFile.here {steps : List Step} (fitsInFile : FitsInFile steps table) :
    table.logSize < positionLimit :=
  fitsInFile [] List.nil_prefix

theorem FitsInFile.tail {first : Step} {rest : List Step}
    (fitsInFile : FitsInFile (first :: rest) table) :
    FitsInFile rest (first.perform table).2 :=
  fun done front => fitsInFile (first :: done) ((List.prefix_cons_inj first).2 front)

theorem Twin.fitsInFile (twin : Twin path refusals table memory) (granted : refusals.find? path = none)
    (apart : siblingPath path ≠ path) {steps : List Step} (fits : ∀ step ∈ steps, step.Fits)
    (short : table.logSize + (steps.map Step.growth).sum < positionLimit) :
    FitsInFile steps table := by
  -- The log grows in no step by more than what the step stores.
  induction steps generalizing table memory with
  | nil =>
    intro done front
    rw [List.prefix_nil.1 front]
    exact Nat.lt_of_le_of_lt (Nat.le_add_right _ _) short
  | cons first rest ih =>
    obtain ⟨fit, fits⟩ := List.forall_mem_cons.1 fits
    rw [List.map_cons, List.sum_cons] at short
    obtain ⟨-, follows⟩ := twin.step_agrees granted apart (by omega) first fit
    have grown := follows.logSize_le
    intro done front
    rcases List.prefix_cons_iff.1 front with rfl | ⟨later, rfl, further⟩
    · show table.logSize < positionLimit
      omega
    · exact ih follows.toTwin fits (by omega) later further

/-- A table that is opened on a log answers every run as a table in memory does that starts with the
map of that log. Each table names itself when it is closed, and compaction may be refused the file it
needs. A file, and so a log, is shorter than the positions that it can be read at; and a path that
leads up is that of a directory. -/
theorem outcomes_eq_inMemory {path : String} {files : Files} {frames : List Frame} {rest : Bytes}
    (granted : files.refusals.find? path = none) (parts : Parts (files.content path) frames rest)
    (unfinished : Unfinished rest) (named : FileName.last path ≠ "..")
    (extension : FileName.extension? path ≠ some "compact") :
    ∃ table, (openAt path).perform files = (.ok table, table.files) ∧
      ∀ steps, (∀ step ∈ steps, step.Fits) → FitsInFile steps table →
        (outcomes Step.perform steps table).1 =
          (outcomes (Step.inMemory path (files.refusals.find? (siblingPath path))) steps
            (Volatile.ofEntries (contentsOf frames))).1 := by
  have apart : siblingPath path ≠ path := FileName.withExtension_ne (by decide) named extension
  have twin : Twin path files.refusals (ofFrames path files frames)
      (Volatile.ofEntries (contentsOf frames)) :=
    ⟨⟨frames, logs_ofFrames path files parts.fits, rfl⟩, rfl⟩
  refine ⟨_, openAt_of_unfinished granted parts unfinished, fun steps fits fitsInFile => ?_⟩
  let kept := fun (steps : List Step) table memory =>
    Twin path files.refusals table memory ∧ (∀ step ∈ steps, step.Fits) ∧ FitsInFile steps table
  refine (outcomes_agree kept ?_ steps ⟨twin, fits, fitsInFile⟩).1
  rintro first rest table memory ⟨twin, fits, fitsInFile⟩
  obtain ⟨fit, fits⟩ := List.forall_mem_cons.1 fits
  obtain ⟨same, follows⟩ := twin.step_agrees granted apart fitsInFile.here first fit
  exact ⟨same, follows.toTwin, fits, fitsInFile.tail⟩

theorem outcomes_eq_inMemory_compacted :
    ∃ table, (openAt "t.tbl").perform Files.empty = (.ok table, table.files) ∧
      (outcomes Step.perform [.ask (.put [2] [7]), .ask (.put [1] [8, 9]), .ask (.put [2] []),
        .compact, .ask (.remove [3]), .reopen, .ask (.get [2]),
        .ask (.scan [.next, .get, .next, .next]), .ask .close, .ask (.get [1]), .ask .size]
        table).1 =
        [.ok .done, .ok .done, .ok .done, .ok .done, .ok (.flag false), .ok .done,
          .ok (.value (some [])),
          .ok (.scanned [.ok (.flag true), .ok (.element ⟨[1], [8, 9]⟩), .ok (.flag true),
            .ok (.flag false)]),
          .ok .done, .error (.closed "t.tbl"), .ok (.size 2)] := by
  have parts : Parts (Files.empty.content "t.tbl") [] [] :=
    Parts.of_unfinished (List.forall_mem_nil Frame.Fits) unfinished_nil
  have named : FileName.last "t.tbl" ≠ ".." := by decide
  have extension : FileName.extension? "t.tbl" ≠ some "compact" := by decide
  obtain ⟨table, opened, runs⟩ := outcomes_eq_inMemory rfl parts unfinished_nil named extension
  have same : table = ofFrames "t.tbl" Files.empty [] := by
    have performed := opened.symm.trans (openAt_of_unfinished rfl parts unfinished_nil)
    exact Except.ok.inj (congrArg Prod.fst performed)
  have twin : Twin "t.tbl" Files.empty.refusals table Volatile.empty :=
    same ▸ ⟨⟨[], logs_ofFrames "t.tbl" Files.empty parts.fits, rfl⟩, rfl⟩
  have apart : siblingPath "t.tbl" ≠ "t.tbl" := by decide
  refine ⟨table, opened, (runs _ ?_ ?_).trans rfl⟩
  · simp [Step.Fits, maxFieldLength]
  · refine twin.fitsInFile rfl apart (by simp [Step.Fits, maxFieldLength]) ?_
    rw [same]
    decide

end LogTable

end AttributeIndex
