import AttributeIndex.Proofs.Log.Reading
import AttributeIndex.Proofs.Table.ReadCache

namespace AttributeIndex

open AttributeIndex.Action AttributeIndex.Frame

namespace LogTable

variable {path : String} {refusals : SortedMap String IoError} {frames : List Frame}
  {table flushed : LogTable} {α : Type}

def Logged (table : LogTable) : Prop :=
  ∃ path refusals frames, Logs path refusals frames table

def recorded (table : LogTable) : Volatile where
  entries := table.state.directory.mapValues fun _ location => location.slice table.log
  isClosed := table.pending.isNone

theorem Logs.recorded_eq (logs : Logs path refusals frames table) :
    recorded table = ⟨contentsOf frames, table.pending.isNone⟩ := by
  rw [recorded, logs.contentsOf_eq, logs.log_eq]

theorem Logs.recorded_of_open (logs : Logs path refusals frames table)
    (opened : table.pending.isSome) : recorded table = ⟨contentsOf frames, false⟩ := by
  rw [logs.recorded_eq]
  simpa using opened

theorem mirrors_whileOpen {call : Action LogTable IoError α}
    {work : SortedMap Bytes Bytes → α × SortedMap Bytes Bytes}
    (closed : ∀ table : LogTable, table.pending = none → call table = (.error table.closedError, table))
    (opened : ∀ {path refusals frames} {table : LogTable}, Logs path refusals frames table →
      table.pending.isSome → call.Meets table
        (fun answer after => after.pending.isSome ∧ ∃ later, Logs path refusals later after ∧
          work (contentsOf frames) = (answer, contentsOf later))
        fun _ after => after.pending.isSome ∧ Logs path refusals frames after) :
    Table.Mirrors Logged recorded call (Volatile.whileOpen work) := by
  rintro table ⟨path, refusals, frames, logs⟩
  cases pending : table.pending with
  | none =>
    rw [Meets, closed table pending]
    exact ⟨⟨path, refusals, frames, logs⟩, rfl⟩
  | some bytes =>
    have writing : table.pending.isSome := by simp [pending]
    refine (opened logs writing).mono ?_ ?_
    · rintro answer after ⟨still, later, left, done⟩
      refine ⟨⟨path, refusals, later, left⟩, ?_⟩
      rw [logs.recorded_of_open writing, left.recorded_of_open still,
        Volatile.whileOpen_of_open rfl, done]
    · rintro _ after ⟨still, left⟩
      refine ⟨⟨path, refusals, frames, left⟩, ?_⟩
      rw [logs.recorded_of_open writing, left.recorded_of_open still]

theorem mirrors_get (key : Bytes) :
    Table.Mirrors Logged recorded (Table.get key) (Table.get key) := by
  refine mirrors_whileOpen (fun _ closed => find?_of_closed closed key) ?_
  intro path refusals frames table logs writing
  obtain ⟨flushed, flushes⟩ := exists_flushes writing
  obtain ⟨written, held⟩ := (logs.flush_meets writing).ok_of flushes.flush_eq
  have still : flushed.pending.isSome := by simp [written]
  have called : Table.get key table = _ := flushes.find?_eq key
  rw [Meets, called]
  cases found : flushed.state.directory.find? key with
  | none => exact ⟨still, frames, held, by rw [held.find?_contents, found]; rfl⟩
  | some location =>
    dsimp only
    cases read : flushed.readValue location with
    | error failure => exact ⟨still, held⟩
    | ok value =>
      obtain ⟨rfl, -⟩ := eq_slice_of_readAt read
      refine ⟨still, frames, held, ?_⟩
      rw [held.find?_contents, found, held.file_eq (by rw [written]; rfl)]
      rfl

theorem mirrors_flush :
    Table.Mirrors Logged recorded flush (Volatile.whileOpen fun entries => ((), entries)) := by
  refine mirrors_whileOpen (fun _ closed => flush_of_closed closed) fun logs writing => ?_
  refine (logs.flush_meets writing).mono ?_ fun _ _ => False.elim
  rintro _ after ⟨written, left⟩
  exact ⟨by simp [written], _, left, rfl⟩

theorem faithful : Table.Faithful Logged recorded where
  get := mirrors_get
  put key value := by
    refine mirrors_whileOpen (fun _ closed => append_of_closed closed _) fun logs writing => ?_
    refine (logs.append_meets writing _).mono ?_ ?_
    · rintro _ after ⟨-, still, left⟩
      exact ⟨still, _, left, by rw [contentsOf_concat]; rfl⟩
    · rintro _ _ ⟨-, rfl⟩
      exact ⟨writing, logs⟩
  remove key := by
    refine mirrors_whileOpen (fun _ closed => remove_of_closed closed key) fun logs writing => ?_
    refine (logs.remove_meets writing key).mono ?_ fun _ _ => False.elim
    rintro _ after ⟨rfl, still, left⟩
    exact ⟨still, _, left, by rw [contentsOf_removal]⟩
  beginScan := mirrors_flush
  load key table valid := by
    have kept : Table.Kept Logged recorded table table := ⟨valid, rfl⟩
    have same : ((Table.load key : Action LogTable IoError Bytes) table).2 = table := rfl
    refine .intro (fun _ after performed => ?_) fun _ after performed => ?_
    · rw [performed] at same
      exact same ▸ kept
    · rw [performed] at same
      exact same ▸ kept
  sync := mirrors_flush
  close table := by
    rintro ⟨path, refusals, frames, logs⟩
    refine logs.close_meets.mono ?_ fun _ _ => False.elim
    rintro _ after ⟨closed, left⟩
    refine ⟨⟨path, refusals, frames, left⟩, ?_⟩
    rw [logs.recorded_eq, left.recorded_eq, closed]
    rfl

theorem transparent_cached {files : Files}
    (fits : ∀ frame ∈ frames, frame.Fits) (capacity : Nat) (steps : List ReadCache.Step) :
    ReadCache.Transparent recorded (outcomes ReadCache.Step.perform steps
      (ReadCache.ofTable (ofFrames path files frames) capacity)).2 := by
  have logged : Logged (ofFrames path files frames) := ⟨_, _, _, logs_ofFrames path files fits⟩
  have started : ReadCache.Coherent Logged recorded
      (ReadCache.ofTable (ofFrames path files frames) capacity) := .of_empty logged rfl
  exact (started.outcomes faithful steps).transparent faithful

end LogTable

end AttributeIndex
