import AttributeIndex.Log.Table
import AttributeIndex.Proofs.Log.Frame
import AttributeIndex.Proofs.SortedMap
import Mathlib.Data.List.Induction

namespace AttributeIndex

namespace Frame

def LastPut (frames : List Frame) (key : Bytes) (before : List Frame) (value : Bytes) : Prop :=
  ∃ after, frames = before ++ ⟨.put, key, value⟩ :: after ∧ ∀ frame ∈ after, frame.key ≠ key

theorem not_lastPut_nil {key value : Bytes} {before : List Frame} :
    ¬LastPut [] key before value := by
  rintro ⟨after, same, -⟩
  simp at same

theorem lastPut_concat_same {frames before : List Frame} {frame : Frame} {value : Bytes} :
    LastPut (frames ++ [frame]) frame.key before value ↔
      frame.op = .put ∧ before = frames ∧ value = frame.value := by
  constructor
  · rintro ⟨after, same, others⟩
    rcases List.eq_nil_or_concat after with rfl | ⟨middle, final, rfl⟩
    · obtain ⟨rfl, last⟩ := List.append_inj' same rfl
      have stored := (List.cons.inj last).1
      exact ⟨by rw [stored], rfl, by rw [stored]⟩
    · rw [List.concat_eq_append, ← List.cons_append, ← List.append_assoc] at same
      obtain ⟨-, last⟩ := List.append_inj' same rfl
      obtain rfl := (List.cons.inj last).1
      exact absurd rfl (others frame (by simp))
  · rintro ⟨put, rfl, rfl⟩
    obtain ⟨op, key, value⟩ := frame
    obtain rfl := put
    exact ⟨[], rfl, by simp⟩

theorem lastPut_concat_other {frames before : List Frame} {frame : Frame} {key value : Bytes}
    (distinct : frame.key ≠ key) :
    LastPut (frames ++ [frame]) key before value ↔ LastPut frames key before value := by
  constructor
  · rintro ⟨after, same, others⟩
    rcases List.eq_nil_or_concat after with rfl | ⟨middle, final, rfl⟩
    · obtain ⟨-, last⟩ := List.append_inj' same rfl
      obtain rfl := (List.cons.inj last).1
      exact absurd rfl distinct
    · rw [List.concat_eq_append, ← List.cons_append, ← List.append_assoc] at same
      refine ⟨middle, (List.append_inj' same rfl).1, fun other member => others other ?_⟩
      simp [member]
  · rintro ⟨after, rfl, others⟩
    refine ⟨after ++ [frame], by simp, fun other member => ?_⟩
    rcases List.mem_append.1 member with member | member
    · exact others other member
    · obtain rfl := List.mem_singleton.1 member
      exact distinct

theorem LastPut.mem {frames before : List Frame} {key value : Bytes}
    (last : LastPut frames key before value) : ⟨.put, key, value⟩ ∈ frames := by
  obtain ⟨after, rfl, -⟩ := last
  simp

def applyTo (frame : Frame) (entries : SortedMap Bytes Bytes) : SortedMap Bytes Bytes :=
  match frame.op with
  | .put => entries.insert frame.key frame.value
  | .remove => entries.erase frame.key

def contentsOf (frames : List Frame) : SortedMap Bytes Bytes :=
  frames.foldl (fun entries frame => frame.applyTo entries) .empty

@[simp]
theorem contentsOf_concat (frames : List Frame) (frame : Frame) :
    contentsOf (frames ++ [frame]) = frame.applyTo (contentsOf frames) := by
  simp [contentsOf]

theorem find?_applyTo (frame : Frame) (entries : SortedMap Bytes Bytes) (key : Bytes) :
    (frame.applyTo entries).find? key =
      if key = frame.key then (if frame.op = .put then some frame.value else none)
      else entries.find? key := by
  unfold applyTo
  cases frame.op with
  | put => simp [SortedMap.find?_insert]
  | remove => simp [SortedMap.find?_erase]

theorem find?_contentsOf {frames : List Frame} {key value : Bytes} :
    (contentsOf frames).find? key = some value ↔ ∃ before, LastPut frames key before value := by
  induction frames using List.reverseRecOn with
  | nil => simp [contentsOf, SortedMap.find?, SortedMap.empty, not_lastPut_nil]
  | append_singleton frames frame ih =>
    rw [contentsOf_concat, find?_applyTo]
    split
    · rename_i same
      subst same
      simp only [lastPut_concat_same]
      split
      · rename_i put
        simp [put, eq_comm]
      · rename_i removal
        simp [removal]
    · rename_i distinct
      simp only [ih, lastPut_concat_other (Ne.symm distinct)]

end Frame

/-! ## Where values stand -/

namespace Location

def behind (before : List Frame) (key value : Bytes) : Location :=
  ⟨(Frame.encodeAll before).length + Frame.headerSize + key.length, value.length⟩

def slice (location : Location) (bytes : Bytes) : Bytes :=
  (bytes.drop location.offset).take location.length

def Inside (location : Location) (bytes : Bytes) : Prop :=
  location.offset + location.length ≤ bytes.length

theorem length_slice {location : Location} {bytes : Bytes} (inside : location.Inside bytes) :
    (location.slice bytes).length = location.length := by
  unfold Inside at inside
  simp [slice]
  omega

end Location

open AttributeIndex.Frame

theorem Frame.LastPut.bytes_eq {frames before : List Frame} {key value : Bytes}
    (last : LastPut frames key before value) :
    ∃ front rest, encodeAll frames = front ++ (value ++ rest) ∧
      front.length = (Location.behind before key value).offset := by
  obtain ⟨after, rfl, -⟩ := last
  refine ⟨encodeAll before ++ (header .put key.length value.length ++ key),
    Bytes.ofUInt64 (Checksum.ofBytes (content ⟨.put, key, value⟩)) ++ encodeAll after, ?_, ?_⟩
  · rw [encodeAll_append, encodeAll_cons, encode_eq]
    simp only [List.append_assoc]
  · simp [Location.behind]
    omega

theorem Frame.LastPut.inside {frames before : List Frame} {key value : Bytes}
    (last : LastPut frames key before value) :
    (Location.behind before key value).Inside (encodeAll frames) := by
  obtain ⟨front, rest, same, size⟩ := last.bytes_eq
  rw [Location.Inside, same, ← size]
  simp [Location.behind]

theorem Frame.LastPut.slice_eq {frames before : List Frame} {key value : Bytes}
    (last : LastPut frames key before value) :
    (Location.behind before key value).slice (encodeAll frames) = value := by
  obtain ⟨front, rest, same, size⟩ := last.bytes_eq
  rw [Location.slice, same, ← size, List.drop_left]
  exact List.take_left

namespace LogState

theorem ofFrames_concat (frames : List Frame) (frame : Frame) :
    ofFrames (frames ++ [frame]) = (ofFrames frames).append frame := by
  simp [ofFrames]

@[simp]
theorem size_append (state : LogState) (frame : Frame) :
    (state.append frame).size = state.size + frame.length := by
  unfold append
  cases frame.op <;> rfl

theorem find?_append (state : LogState) (frame : Frame) (key : Bytes) :
    (state.append frame).directory.find? key =
      if key = frame.key then
        (if frame.op = .put then
          some ⟨state.size + headerSize + frame.key.length, frame.value.length⟩
        else none)
      else state.directory.find? key := by
  unfold append
  cases frame.op with
  | put => simp [SortedMap.find?_insert]
  | remove => simp [SortedMap.find?_erase]

@[simp]
theorem size_ofFrames (frames : List Frame) :
    (ofFrames frames).size = (encodeAll frames).length := by
  induction frames using List.reverseRecOn with
  | nil => rfl
  | append_singleton frames frame ih => simp [ofFrames_concat, ih]

theorem find?_ofFrames {frames : List Frame} {key : Bytes} {location : Location} :
    (ofFrames frames).directory.find? key = some location ↔
      ∃ before value, LastPut frames key before value ∧
        location = Location.behind before key value := by
  induction frames using List.reverseRecOn with
  | nil => simp [ofFrames, empty, SortedMap.find?, SortedMap.empty, not_lastPut_nil]
  | append_singleton frames frame ih =>
    rw [ofFrames_concat, find?_append, size_ofFrames]
    split
    · rename_i same
      subst same
      simp only [lastPut_concat_same]
      split
      · rename_i put
        simp [put, Location.behind, eq_comm]
      · rename_i removal
        simp [removal]
    · rename_i distinct
      simp only [ih, lastPut_concat_other (Ne.symm distinct)]

theorem contentsOf_eq (frames : List Frame) :
    contentsOf frames =
      (ofFrames frames).directory.mapValues fun _ location => location.slice (encodeAll frames) := by
  refine SortedMap.ext_find? fun key => Option.ext fun value => ?_
  rw [SortedMap.find?_mapValues, Option.map_eq_some_iff, find?_contentsOf]
  constructor
  · rintro ⟨before, last⟩
    exact ⟨_, find?_ofFrames.2 ⟨before, value, last, rfl⟩, last.slice_eq⟩
  · rintro ⟨location, found, rfl⟩
    obtain ⟨before, value, last, rfl⟩ := find?_ofFrames.1 found
    exact ⟨before, last.slice_eq.symm ▸ last⟩

end LogState

end AttributeIndex
