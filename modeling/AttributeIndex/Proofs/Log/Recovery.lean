import AttributeIndex.Proofs.Log.Writing
import Mathlib.Data.Nat.Find

namespace AttributeIndex

open AttributeIndex.Action AttributeIndex.Frame LogTable

theorem Frame.exists_take_encodeAll {before after : List Frame} {frame : Frame} {cut : Nat}
    (fits : frame.Fits) (low : (encodeAll before).length ≤ cut)
    (high : cut < (encodeAll (before ++ [frame])).length) :
    ∃ rest, (encodeAll (before ++ [frame] ++ after)).take cut = encodeAll before ++ rest ∧
      Unfinished rest := by
  refine ⟨frame.encode.take (cut - (encodeAll before).length), ?_, unfinished_take fits ?_⟩
  · simp at high
    rw [encodeAll_append, encodeAll_append, List.append_assoc, List.take_append,
      List.take_of_length_le low]
    congr 1
    rw [encodeAll_cons, encodeAll_nil, List.append_nil,
      List.take_append_of_le_length (by simp; omega)]
  · simp at high
    omega

inductive Mutation
  | put (key value : Bytes)
  | remove (key : Bytes)
  deriving DecidableEq, Repr

namespace Mutation

def perform : Mutation → Action LogTable IoError Unit
  | put key value => Table.put key value
  | remove key => discard (Table.remove key)

/-- What becomes of a map. Fields that are too long for a frame are refused. -/
def applyTo (entries : SortedMap Bytes Bytes) : Mutation → SortedMap Bytes Bytes
  | put key value =>
    if key.length ≤ maxFieldLength ∧ value.length ≤ maxFieldLength then entries.insert key value
    else entries
  | remove key => entries.erase key

def contentsAfter (mutations : List Mutation) : SortedMap Bytes Bytes :=
  mutations.foldl applyTo .empty

def framesBehind (held : List Frame) : Mutation → List Frame
  | put key value => if Fits ⟨.put, key, value⟩ then [⟨.put, key, value⟩] else []
  | remove key => removal held key

theorem contentsOf_framesBehind (held : List Frame) (mutation : Mutation) :
    contentsOf (held ++ mutation.framesBehind held) = mutation.applyTo (contentsOf held) := by
  cases mutation with
  | put key value =>
    rw [framesBehind, applyTo]
    by_cases fits : Fits ⟨.put, key, value⟩
    · rw [if_pos fits, if_pos ⟨fits.key_le, fits.value_le⟩, contentsOf_concat]
      rfl
    · rw [if_neg fits, if_neg fun ⟨short, small⟩ => fits ⟨short, small⟩, List.append_nil]
  | remove key => exact contentsOf_removal held key

theorem length_framesBehind (held : List Frame) (mutation : Mutation) :
    (mutation.framesBehind held).length ≤ 1 := by
  cases mutation with
  | put key value =>
    rw [framesBehind]
    split <;> simp
  | remove key =>
    rw [framesBehind, removal]
    split <;> simp

def framesAfter (held : List Frame) (mutations : List Mutation) : List Frame :=
  mutations.foldl (fun held mutation => held ++ mutation.framesBehind held) held

@[simp]
theorem framesAfter_concat (held : List Frame) (mutations : List Mutation) (mutation : Mutation) :
    framesAfter held (mutations ++ [mutation]) =
      framesAfter held mutations ++ mutation.framesBehind (framesAfter held mutations) := by
  simp [framesAfter]

theorem contentsOf_framesAfter (held : List Frame) (mutations : List Mutation) :
    contentsOf (framesAfter held mutations) = mutations.foldl applyTo (contentsOf held) := by
  induction mutations using List.reverseRecOn with
  | nil => rfl
  | append_singleton mutations mutation ih =>
    rw [framesAfter_concat, contentsOf_framesBehind, ih]
    simp

theorem contentsAfter_eq (mutations : List Mutation) :
    contentsAfter mutations = contentsOf (framesAfter [] mutations) :=
  (contentsOf_framesAfter [] mutations).symm

theorem isPrefix_framesAfter (held : List Frame) (mutations : List Mutation) (count : Nat) :
    framesAfter held (mutations.take count) <+: framesAfter held mutations := by
  -- What a mutation writes depends on the frames before it, so the last one is taken off.
  induction mutations using List.reverseRecOn with
  | nil => simp
  | append_singleton mutations mutation ih =>
    by_cases whole : mutations.length < count
    · have all : (mutations ++ [mutation]).take count = mutations ++ [mutation] :=
        List.take_of_length_le (by simpa using Nat.succ_le_of_lt whole)
      exact ⟨[], by rw [all, List.append_nil]⟩
    · rw [List.take_append_of_le_length (Nat.not_lt.1 whole), framesAfter_concat]
      exact ih.trans (List.prefix_append _ _)

def logAfter (mutations : List Mutation) (count : Nat) : Bytes :=
  encodeAll (framesAfter [] (mutations.take count))

theorem isPrefix_logAfter (mutations : List Mutation) {low high : Nat} (below : low ≤ high) :
    logAfter mutations low <+: logAfter mutations high := by
  have front := isPrefix_framesAfter [] (mutations.take high) low
  rw [List.take_take, Nat.min_eq_left below] at front
  obtain ⟨later, same⟩ := front
  exact ⟨encodeAll later, by rw [logAfter, logAfter, ← same, encodeAll_append]⟩

theorem exists_take_logAfter {mutations : List Mutation} {count cut : Nat}
    (fits : ∀ frame ∈ framesAfter [] mutations, frame.Fits) (more : count < mutations.length)
    (low : (logAfter mutations count).length ≤ cut)
    (high : cut < (logAfter mutations (count + 1)).length) :
    ∃ rest, (encodeAll (framesAfter [] mutations)).take cut = logAfter mutations count ++ rest ∧
      Unfinished rest := by
  obtain ⟨later, whole⟩ := isPrefix_framesAfter [] mutations (count + 1)
  have single := length_framesBehind (framesAfter [] (mutations.take count)) mutations[count]
  rw [logAfter] at low high ⊢
  rw [List.take_succ_eq_append_getElem more, framesAfter_concat] at high whole
  match added : mutations[count].framesBehind (framesAfter [] (mutations.take count)) with
  | [] =>
    rw [added, List.append_nil] at high
    omega
  | [frame] =>
    rw [added] at high whole
    rw [← whole]
    exact exists_take_encodeAll (fits frame (by simp [← whole])) low high
  | _ :: _ :: _ => simp [added] at single

theorem exists_kept (mutations : List Mutation)
    (fits : ∀ frame ∈ framesAfter [] mutations, frame.Fits) (cut : Nat) :
    ∃ kept ≤ mutations.length,
      (∀ count ≤ mutations.length, (logAfter mutations count).length ≤ cut ↔ count ≤ kept) ∧
      ∃ rest, (encodeAll (framesAfter [] mutations)).take cut = logAfter mutations kept ++ rest ∧
        Unfinished rest := by
  let Before := fun count => (logAfter mutations count).length ≤ cut
  let kept := Nat.findGreatest Before mutations.length
  have bounded : kept ≤ mutations.length := Nat.findGreatest_le _
  have low : Before kept := Nat.findGreatest_spec (Nat.zero_le _) (Nat.zero_le cut)
  refine ⟨kept, bounded, fun count within => ⟨fun before => Nat.le_findGreatest within before,
    fun below => (isPrefix_logAfter mutations below).length_le.trans low⟩, ?_⟩
  rcases bounded.eq_or_lt with all | more
  · have every : logAfter mutations kept = encodeAll (framesAfter [] mutations) := by
      rw [logAfter, all, List.take_length]
    refine ⟨[], ?_, unfinished_nil⟩
    rw [every, List.append_nil]
    exact List.take_of_length_le (every ▸ low)
  · refine exists_take_logAfter fits more low (Nat.not_le.1 fun before => ?_)
    exact absurd (Nat.le_findGreatest more before) (Nat.not_succ_le_self kept)

end Mutation

namespace LogTable

def after (table : LogTable) (mutations : List Mutation) : LogTable :=
  mutations.foldl (fun table mutation => (mutation.perform.perform table).2) table

/-- The table answers as the map does, as long as its log is no longer than a file can be. -/
structure Shows (entries : SortedMap Bytes Bytes) (table : LogTable) : Prop where
  size_eq : Table.size table = entries.size
  keys_eq : Table.keys table = entries.keys
  get : table.logSize < positionLimit → ∀ key,
    ((Table.get key : Action LogTable IoError _).perform table).1 = .ok (entries.find? key)

variable {path : String} {refusals : SortedMap String IoError} {frames : List Frame}
  {table : LogTable}

theorem Logs.shows (logs : Logs path refusals frames table) (opened : table.pending.isSome) :
    Shows (contentsOf frames) table where
  size_eq := by
    rw [logs.contentsOf_eq, SortedMap.size_mapValues]
    rfl
  keys_eq := by
    rw [logs.contentsOf_eq, SortedMap.keys_mapValues]
    rfl
  get room key := by
    obtain ⟨_, _, performed, rfl, -⟩ := (logs.find?_meets opened room key).succeeds
    exact congrArg Prod.fst performed

theorem Logs.mutate (logs : Logs path refusals frames table) (opened : table.pending.isSome)
    (mutation : Mutation) :
    (mutation.perform.perform table).2.pending.isSome ∧
      Logs path refusals (frames ++ mutation.framesBehind frames)
        (mutation.perform.perform table).2 := by
  refine Meets.left (?_ : mutation.perform.Meets table (fun _ after => after.pending.isSome ∧
    Logs path refusals (frames ++ mutation.framesBehind frames) after) _)
  cases mutation with
  | put key value =>
    refine (logs.append_meets opened ⟨.put, key, value⟩).mono ?_ ?_
    · rintro _ after ⟨fits, still, added⟩
      rw [Mutation.framesBehind, if_pos fits]
      exact ⟨still, added⟩
    · rintro _ _ ⟨refused, rfl⟩
      rw [Mutation.framesBehind, if_neg refused, List.append_nil]
      exact ⟨opened, logs⟩
  | remove key =>
    refine meets_discard.2 ((logs.remove_meets opened key).mono ?_ fun _ _ => False.elim)
    exact fun _ after ⟨_, still, removed⟩ => ⟨still, removed⟩

theorem Logs.after (logs : Logs path refusals frames table) (opened : table.pending.isSome)
    (mutations : List Mutation) :
    (table.after mutations).pending.isSome ∧
      Logs path refusals (Mutation.framesAfter frames mutations) (table.after mutations) := by
  induction mutations using List.reverseRecOn with
  | nil => exact ⟨opened, logs⟩
  | append_singleton mutations mutation ih =>
    obtain ⟨still, held⟩ := ih
    simpa [LogTable.after] using held.mutate still mutation

/-- The file opens to the given map and is cut back to the given bytes. What is added then is there
after the table was closed and opened again. -/
def Recovers (path : String) (files : Files) (content : Bytes) (entries : SortedMap Bytes Bytes) :
    Prop :=
  ∃ recovered, (openAt path).perform files = (.ok recovered, recovered.files) ∧
    recovered.file = content ∧ Shows entries recovered ∧
    ∀ more, ∃ again,
      (openAt path).perform (close.perform (recovered.after more)).2.release =
        (.ok again, again.files) ∧
      Shows (more.foldl Mutation.applyTo entries) again

theorem recovers_of_unfinished {files : Files} {rest : Bytes}
    (granted : files.refusals.find? path = none)
    (parts : Parts (files.content path) frames rest) (unfinished : Unfinished rest) :
    Recovers path files (encodeAll frames) (contentsOf frames) := by
  have logs := logs_ofFrames path files parts.fits
  refine ⟨_, openAt_of_unfinished granted parts unfinished, logs.file_eq rfl, logs.shows rfl,
    fun more => ?_⟩
  obtain ⟨-, added⟩ := logs.after rfl more
  obtain ⟨_, closed, performed, -, shut⟩ := added.close_meets.succeeds
  obtain ⟨again, opens, opened, found⟩ := shut.reopen granted
  refine ⟨again, ?_, ?_⟩
  · rw [Action.perform, Action.perform, performed]
    exact opens
  · rw [← Mutation.contentsOf_framesAfter]
    exact found.shows (by simp [opened])

/-- A log of mutations, cut anywhere, opens to what those mutations made whose frames lie before the
cut. -/
theorem openAt_cut (path : String) (files : Files) (granted : files.refusals.find? path = none)
    (blank : files.content path = []) :
    ∃ table, (openAt path).perform files = (.ok table, table.files) ∧
      ∀ (mutations : List Mutation) (cut : Nat), ∃ kept ≤ mutations.length,
        let log := fun count => (table.after (mutations.take count)).release.content path
        (∀ count ≤ mutations.length, log count <+: log mutations.length ∧
          ((log count).length ≤ cut ↔ count ≤ kept)) ∧
        Recovers path ((table.after mutations).release.write path ((log mutations.length).take cut))
          (log kept) (Mutation.contentsAfter (mutations.take kept)) := by
  have parts : Parts (files.content path) [] [] := by
    rw [blank]
    exact Parts.of_unfinished (List.forall_mem_nil Fits) unfinished_nil
  refine ⟨_, openAt_of_unfinished granted parts unfinished_nil, fun mutations cut => ?_⟩
  have held := fun mutations => ((logs_ofFrames path files parts.fits).after rfl mutations).2
  obtain ⟨kept, within, exact, rest, taken, unfinished⟩ :=
    Mutation.exists_kept mutations (held mutations).fits cut
  refine ⟨kept, within, ?_⟩
  intro log
  have logged : ∀ count, log count = Mutation.logAfter mutations count :=
    fun count => (held (mutations.take count)).content_release
  have every : Mutation.logAfter mutations mutations.length =
      encodeAll (Mutation.framesAfter [] mutations) := by
    rw [Mutation.logAfter, List.take_length]
  have cutParts : Parts (Mutation.logAfter mutations kept ++ rest)
      (Mutation.framesAfter [] (mutations.take kept)) rest :=
    .of_unfinished (held (mutations.take kept)).fits unfinished
  refine ⟨fun count below => ?_, ?_⟩
  · rw [logged, logged]
    exact ⟨Mutation.isPrefix_logAfter mutations below, exact count below⟩
  · rw [logged, logged, every, taken, Mutation.contentsAfter_eq]
    refine recovers_of_unfinished ?_ ?_ unfinished
    · rwa [Files.refusals_write, (held mutations).refusals_release]
    · rwa [Files.content_write]

theorem openAt_cut_second :
    let mutations : List Mutation := [.put [1] [2, 3], .remove [1]]
    Files.empty.refusals.find? "t.tbl" = none ∧ Files.empty.content "t.tbl" = [] ∧
      ∃ table, (openAt "t.tbl").perform Files.empty = (.ok table, table.files) ∧
        let log := fun count => (table.after (mutations.take count)).release.content "t.tbl"
        Recovers "t.tbl" ((table.after mutations).release.write "t.tbl" ((log 2).take 30)) (log 1)
          (.ofList [([1], [2, 3])]) := by
  intro mutations
  have parts : Parts (Files.empty.content "t.tbl") [] [] :=
    Parts.of_unfinished (List.forall_mem_nil Fits) unfinished_nil
  obtain ⟨table, opened, recovers⟩ := openAt_cut "t.tbl" Files.empty rfl rfl
  have same : table = ofFrames "t.tbl" Files.empty [] := by
    have performed := opened.symm.trans (openAt_of_unfinished rfl parts unfinished_nil)
    exact Except.ok.inj (congrArg Prod.fst performed)
  have size : ∀ count, ((table.after (mutations.take count)).release.content "t.tbl").length =
      (Mutation.logAfter mutations count).length := by
    intro count
    rw [same, ((logs_ofFrames "t.tbl" Files.empty parts.fits).after rfl _).2.content_release]
    rfl
  obtain ⟨kept, within, exact, recovered⟩ := recovers mutations 30
  have one : Mutation.framesAfter [] (mutations.take 1) = [⟨.put, [1], [2, 3]⟩] := by decide
  have two : Mutation.framesAfter [] (mutations.take 2) =
      [⟨.put, [1], [2, 3]⟩, ⟨.remove, [1], []⟩] := by decide
  have first := (exact 1 (by decide)).2
  have second := (exact 2 (by decide)).2
  rw [size, Mutation.logAfter, one] at first
  rw [size, Mutation.logAfter, two] at second
  simp [Frame.length, lengthOf, headerSize, checksumSize] at first second
  obtain rfl : kept = 1 := by omega
  exact ⟨rfl, rfl, table, opened, recovered⟩

end LogTable

end AttributeIndex
