import AttributeIndex.Proofs.Log.Writing
import AttributeIndex.Proofs.Table.Lawful
import AttributeIndex.Proofs.Table.Requests

namespace AttributeIndex

open AttributeIndex.Action AttributeIndex.Frame

def Table.Request.Reads : Table.Request → Prop
  | get _ | size | isEmpty | scan _ => True
  | _ => False

theorem eq_slice_of_readAt {content value : Bytes} {location : Location}
    (found : readAt content location.offset location.length = .ok value) :
    value = location.slice content ∧ (location.slice content).length = location.length := by
  unfold readAt at found
  split at found
  · rename_i none
    cases found
    simp [Location.slice, none]
  · split at found
    · cases found
    · rw [Bytes.split?_eq] at found
      by_cases room : location.length ≤ (content.drop location.offset).length
      · rw [if_pos room] at found
        cases found
        exact ⟨rfl, List.length_take_of_le room⟩
      · rw [if_neg room] at found
        cases found

namespace LogTable

variable {path : String} {refusals : SortedMap String IoError} {frames : List Frame}
  {table flushed : LogTable}

def values (table : LogTable) : SortedMap Bytes Bytes :=
  table.state.directory.mapValues fun _ location => location.slice table.file

def Readable (table : LogTable) : Prop :=
  ∀ key location, table.state.directory.find? key = some location →
    ∃ value, table.readValue location = .ok value

theorem find?_values (table : LogTable) (key : Bytes) :
    table.values.find? key =
      (table.state.directory.find? key).map fun location => location.slice table.file :=
  SortedMap.find?_mapValues _ _ _

theorem flush_of_written (written : table.pending = some []) : flush table = (.ok (), table) := by
  unfold flush
  rw [written]

structure Flushes (table flushed : LogTable) : Prop where
  flush_eq : flush table = (.ok (), flushed)
  pending_eq : flushed.pending = some []
  path_eq : flushed.path = table.path
  refusals_eq : flushed.files.refusals = table.files.refusals
  state_eq : flushed.state = table.state

theorem exists_flushes (opened : table.pending.isSome) : ∃ flushed, Flushes table flushed := by
  obtain ⟨path, files, pending, state⟩ := table
  match pending with
  | none => cases opened
  | some [] => exact ⟨_, rfl, rfl, rfl, rfl, rfl⟩
  | some (byte :: bytes) => exact ⟨_, rfl, rfl, rfl, rfl, rfl⟩

theorem closed_or_flushes (table : LogTable) :
    table.pending = none ∨ ∃ flushed, Flushes table flushed := by
  cases pending : table.pending with
  | none => exact .inl rfl
  | some bytes => exact .inr (exists_flushes (by simp [pending]))

theorem Flushes.of_written (written : table.pending = some []) : Flushes table table :=
  ⟨flush_of_written written, written, rfl, rfl, rfl⟩

theorem Flushes.find?_eq (flushes : Flushes table flushed) (key : Bytes) :
    find? key table =
      (match flushed.state.directory.find? key with
        | some location => (flushed.readValue location).map some
        | none => .ok none, flushed) := by
  unfold find?
  rw [bind_apply, flushes.flush_eq]
  dsimp only
  rw [bind_apply, get_apply]
  dsimp only
  cases flushed.state.directory.find? key with
  | none => rfl
  | some location => exact map_apply _ _ _

namespace Readable

variable (readable : table.Readable)

include readable

theorem readValue_eq {key : Bytes} {location : Location}
    (found : table.state.directory.find? key = some location) :
    table.readValue location = .ok (location.slice table.file) ∧
      (location.slice table.file).length = location.length := by
  obtain ⟨value, read⟩ := readable key location found
  obtain ⟨rfl, sized⟩ := eq_slice_of_readAt read
  exact ⟨read, sized⟩

theorem alike {memory : Volatile} (same : table.values = memory.entries) :
    Scan.Alike table memory where
  size_eq := by
    show table.state.directory.size = memory.entries.size
    rw [← same, values, SortedMap.size_mapValues]
  keys_eq := by
    show table.state.directory.keys = memory.entries.keys
    rw [← same, values, SortedMap.keys_mapValues]
  loads key := by
    refine ⟨(memory.entries.find? key).getD [], ?_, rfl⟩
    rw [← same, find?_values]
    simp only [Table.load, Action.query]
    cases found : table.state.directory.find? key with
    | none => rfl
    | some location =>
      simp only [(readable.readValue_eq found).1]
      rfl

end Readable

theorem Flushes.perform_eq (flushes : Flushes table flushed) (readable : flushed.Readable)
    (request : Table.Request) (reads : request.Reads) :
    ((request.perform : Action LogTable IoError Table.Answer) table).1 =
      ((request.perform : Action Volatile IoError Table.Answer)
        (Volatile.ofEntries flushed.values)).1 := by
  have alike : Scan.Alike flushed (Volatile.ofEntries flushed.values) := readable.alike rfl
  have size_eq : Table.size table = Table.size (Volatile.ofEntries flushed.values) := by
    rw [← alike.size_eq]
    show table.state.directory.size = flushed.state.directory.size
    rw [flushes.state_eq]
  cases request with
  | get key =>
    have called : Table.get key table = _ := flushes.find?_eq key
    rw [Table.Request.perform, Table.Request.perform, map_apply, map_apply, called]
    show Except.map Table.Answer.value _ = Except.map Table.Answer.value (.ok (flushed.values.find? key))
    rw [find?_values]
    cases found : flushed.state.directory.find? key with
    | none => rfl
    | some location =>
      dsimp only
      rw [(readable.readValue_eq found).1]
      rfl
  | size => exact congrArg (fun count => Except.ok (Table.Answer.size count)) size_eq
  | isEmpty => exact congrArg (fun count => Except.ok (Table.Answer.flag (count == 0))) size_eq
  | scan steps =>
    have begins : (Table.beginScan : Action LogTable IoError Unit) table = (.ok (), flushed) :=
      flushes.flush_eq
    have starts : (Table.beginScan : Action Volatile IoError Unit)
        (Volatile.ofEntries flushed.values) = (.ok (), Volatile.ofEntries flushed.values) := rfl
    obtain ⟨answer, called, answered⟩ := Table.exists_perform_scan begins starts alike steps
    rw [called]
    exact congrArg Prod.fst answered.symm
  | put | remove | sync | close => cases reads

theorem Logs.values_eq (logs : Logs path refusals frames table)
    (written : table.pending.getD [] = []) :
    table.values = contentsOf frames := by
  rw [values, logs.file_eq written, logs.contentsOf_eq]

theorem Logs.readable (logs : Logs path refusals frames table)
    (written : table.pending.getD [] = [])
    (room : table.logSize < positionLimit) : table.Readable :=
  fun _ _ found => ⟨_, logs.readValue_eq written room found⟩

theorem Flushes.readable (flushes : Flushes table flushed)
    (answers : ∀ key, ∃ value?, (find? key table).1 = .ok value?) : flushed.Readable := by
  intro key location found
  obtain ⟨value?, answered⟩ := answers key
  rw [flushes.find?_eq, found] at answered
  cases read : flushed.readValue location with
  | ok value => exact ⟨value, rfl⟩
  | error failure =>
    dsimp only at answered
    rw [read] at answered
    cases answered

end LogTable

end AttributeIndex
