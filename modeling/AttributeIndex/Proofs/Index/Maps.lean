import AttributeIndex.Index.Basic
import AttributeIndex.Proofs.SetTable.SetMap

namespace AttributeIndex

namespace SetMap

variable {D : Type} [Ord D] {map : SetMap D} {element : D} {key : Bytes} {keys : List Bytes}

def removeAll (map : SetMap D) (keys : List Bytes) (element : D) : SetMap D :=
  keys.foldl (fun map key => map.remove key element) map

theorem removeAll_append (map : SetMap D) (keys others : List Bytes) (element : D) :
    map.removeAll (keys ++ others) element = (map.removeAll keys element).removeAll others element :=
  List.foldl_append

theorem setOf_removeAll (map : SetMap D) (keys : List Bytes) (element : D) (other : Bytes) :
    (map.removeAll keys element).setOf other =
      if other ∈ keys then Sequence.erase compare element (map.setOf other) else map.setOf other := by
  induction keys generalizing map with
  | nil => rfl
  | cons key keys ih =>
    show ((map.remove key element).removeAll keys element).setOf other = _
    rw [ih, setOf_remove]
    by_cases same : other = key
    · subst same
      simp [Sequence.erase, List.filter_filter]
    · simp [same]

theorem Proper.removeAll (proper : map.Proper) (keys : List Bytes) (element : D) :
    (map.removeAll keys element).Proper := by
  induction keys generalizing map with
  | nil => exact proper
  | cons key keys ih => exact ih (proper.remove key element)

theorem Fits.removeAll {codec : Codec D} (fits : map.Fits codec) (keys : List Bytes) (element : D) :
    (map.removeAll keys element).Fits codec := by
  induction keys generalizing map with
  | nil => exact fits
  | cons key keys ih => exact ih (fits.remove key element)

variable [Std.TransOrd D]

theorem put_removeAll [Std.LawfulEqOrd D] (proper : map.Proper) (fresh : key ∉ keys)
    (present : map.has key element = true) :
    (map.removeAll (key :: keys) element).put key element = map.removeAll keys element := by
  apply Proper.ext ((proper.removeAll _ _).put key element) (proper.removeAll _ _)
  intro other
  rw [setOf_put, setOf_removeAll, setOf_removeAll, setOf_removeAll]
  by_cases same : other = key
  · subst same
    simp only [if_true, List.mem_cons, true_or, fresh, if_false]
    exact Sequence.add_erase (proper.ascending other) present
  · simp [same]

theorem has_of_removeAll (present : (map.removeAll keys element).has key element = true) :
    key ∉ keys ∧ map.has key element = true := by
  rw [has, setOf_removeAll] at present
  by_cases listed : key ∈ keys
  · rw [if_pos listed] at present
    obtain ⟨other, member, equal⟩ := Sequence.has_iff.1 present
    exact absurd (Std.OrientedCmp.eq_symm equal) (Sequence.mem_erase.1 member).2
  · rw [if_neg listed] at present
    exact ⟨listed, present⟩

omit [Std.TransOrd D] in
theorem has_removeAll [Std.LawfulEqOrd D] {value : D} :
    (map.removeAll keys element).has key value = true ↔
      map.has key value = true ∧ ¬(key ∈ keys ∧ value = element) := by
  rw [has_iff_mem, has_iff_mem, setOf_removeAll]
  by_cases listed : key ∈ keys
  · simp only [listed, if_true, Sequence.mem_erase, ne_eq, Std.LawfulEqCmp.compare_eq_iff_eq, true_and]
  · simp [listed]

end SetMap

structure Maps where
  forward : SetMap UInt64
  reverse : SetMap Bytes

namespace Index

inductive Request (V : Type)
  | add (value : V) (id : UInt64)
  | remove (value : V) (id : UInt64)
  | dropEntry (id : UInt64)
  | lookup (value : V)
  | has (value : V) (id : UInt64)
  | countOf (value : V)
  | reverseLookup (id : UInt64)
  | reverseValues (id : UInt64)
  | entries
  | sync

inductive Answer (V : Type)
  | done
  | flag (value : Bool)
  | number (value : Nat)
  | ids (items : List (Except Error UInt64))
  | value (value : V)
  | values (values : List V)
  | pairs (pairs : List (V × UInt64))
  deriving DecidableEq

namespace Request

variable {σ V : Type} [Table σ]

def perform : Request V → Action (Index σ V) Error (Answer V)
  | add value id => do return .flag (← Index.add value id)
  | remove value id => do return .flag (← Index.remove value id)
  | dropEntry id => do return .number (← Index.dropEntry id)
  | lookup value => do return .ids (Cursor.rest (← Index.lookup value)).1
  | has value id => do return .flag (← Index.has value id)
  | countOf value => do return .number (← Index.countOf value)
  | reverseLookup id => do return .value (← Index.reverseLookup id)
  | reverseValues id => do return .values (← Index.reverseValues id)
  | entries => do return .pairs (← Index.entries)
  | sync => do
    Index.sync
    return .done

def isReading : Request V → Bool
  | add .. | remove .. | dropEntry .. => false
  | _ => true

end Request

end Index

namespace Maps

variable {V : Type}

def pairsOf (codec : Codec V) (entry : Bytes × List UInt64) : Except Error (List (V × UInt64)) := do
  let value ← codec.decode entry.1
  return entry.2.map fun id => (value, id)

def answer (name : String) (codec : Codec V) (maps : Maps) :
    Index.Request V → Except Error (Index.Answer V)
  | .add value id => do
    let key ← codec.encode value
    return .flag (!maps.forward.has key id)
  | .remove value id => do
    let key ← codec.encode value
    return .flag (maps.forward.has key id)
  | .dropEntry id => return .number (maps.reverse.setOf (Index.entryKey id)).length
  | .lookup value => do
    let key ← codec.encode value
    return .ids ((maps.forward.setOf key).map .ok)
  | .has value id => do
    let key ← codec.encode value
    return .flag (maps.forward.has key id)
  | .countOf value => do
    let key ← codec.encode value
    return .number (maps.forward.setOf key).length
  | .reverseLookup id =>
    match (maps.reverse.setOf (Index.entryKey id)).head? with
    | some key => return .value (← codec.decode key)
    | none => throw (.notFound (name ++ " of entry " ++ toString id.toNat))
  | .reverseValues id =>
    return .values (← (maps.reverse.setOf (Index.entryKey id)).mapM codec.decode)
  | .entries => return .pairs (← maps.forward.entries.mapM (pairsOf codec)).flatten
  | .sync => return .done

def after (codec : Codec V) (maps : Maps) : Index.Request V → Maps
  | .add value id =>
    match codec.encode value with
    | .ok key => ⟨maps.forward.put key id, maps.reverse.put (Index.entryKey id) key⟩
    | .error _ => maps
  | .remove value id =>
    match codec.encode value with
    | .ok key => ⟨maps.forward.remove key id, maps.reverse.remove (Index.entryKey id) key⟩
    | .error _ => maps
  | .dropEntry id =>
    ⟨maps.forward.removeAll (maps.reverse.setOf (Index.entryKey id)) id,
      maps.reverse.take (Index.entryKey id)⟩
  | _ => maps

def Agree (maps : Maps) : Prop :=
  ∀ key entry, maps.reverse.has entry key = true ↔
    ∃ id, entry = Index.entryKey id ∧ maps.forward.has key id = true

theorem after_of_isReading {codec : Codec V} {maps : Maps} {request : Index.Request V}
    (reading : request.isReading = true) : maps.after codec request = maps := by
  cases request <;> first | rfl | cases reading

theorem after_of_refused {name : String} {codec : Codec V} {maps : Maps} {request : Index.Request V}
    {failure : Error} (refused : maps.answer name codec request = .error failure) :
    maps.after codec request = maps := by
  cases request with
  | add value id =>
    rw [answer] at refused
    rw [after]
    cases encoded : codec.encode value with
    | ok key =>
      rw [encoded] at refused
      cases refused
    | error failure => rfl
  | remove value id =>
    rw [answer] at refused
    rw [after]
    cases encoded : codec.encode value with
    | ok key =>
      rw [encoded] at refused
      cases refused
    | error failure => rfl
  | dropEntry id => cases refused
  | _ => rfl

structure Fits (maps : Maps) : Prop where
  forward : maps.forward.Fits .uint64
  reverse : maps.reverse.Fits .bytes

/-! ## Maps that agree -/

variable {maps : Maps} {id other : UInt64} {key : Bytes}

theorem entryKey_inj : Index.entryKey id = Index.entryKey other ↔ id = other := by
  constructor
  · intro same
    rw [← Bytes.toUInt64_ofUInt64 id, ← Bytes.toUInt64_ofUInt64 other]
    exact congrArg Bytes.toUInt64 same
  · exact congrArg Index.entryKey

theorem agree_of_empty {maps : Maps} (forward : maps.forward.entries = [])
    (reverse : maps.reverse.entries = []) : maps.Agree := by
  obtain rfl : maps = ⟨.empty, .empty⟩ :=
    congrArg₂ Maps.mk (SortedMap.ext forward) (SortedMap.ext reverse)
  intro key entry
  have untold : SetMap.has (.empty : SetMap Bytes) entry key = false := rfl
  have unheld : ∀ id, SetMap.has (.empty : SetMap UInt64) key id = false := fun _ => rfl
  simp [untold, unheld]

theorem Agree.put (agree : maps.Agree) (key : Bytes) (id : UInt64) :
    (⟨maps.forward.put key id, maps.reverse.put (Index.entryKey id) key⟩ : Maps).Agree := by
  intro value entry
  rw [SetMap.has_put, agree]
  constructor
  · rintro (⟨rfl, rfl⟩ | ⟨holder, rfl, present⟩)
    · exact ⟨id, rfl, SetMap.has_put.2 (.inl ⟨rfl, rfl⟩)⟩
    · exact ⟨holder, rfl, SetMap.has_put.2 (.inr present)⟩
  · rintro ⟨holder, rfl, present⟩
    obtain ⟨rfl, rfl⟩ | present := SetMap.has_put.1 present
    · exact .inl ⟨rfl, rfl⟩
    · exact .inr ⟨holder, rfl, present⟩

theorem Agree.remove (agree : maps.Agree) (key : Bytes) (id : UInt64) :
    (⟨maps.forward.remove key id, maps.reverse.remove (Index.entryKey id) key⟩ : Maps).Agree := by
  intro value entry
  rw [SetMap.has_remove, agree]
  constructor
  · rintro ⟨⟨holder, rfl, present⟩, different⟩
    refine ⟨holder, rfl, SetMap.has_remove.2 ⟨present, ?_⟩⟩
    rintro ⟨rfl, rfl⟩
    exact different ⟨rfl, rfl⟩
  · rintro ⟨holder, rfl, present⟩
    obtain ⟨present, different⟩ := SetMap.has_remove.1 present
    refine ⟨⟨holder, rfl, present⟩, ?_⟩
    rintro ⟨same, rfl⟩
    exact different ⟨rfl, entryKey_inj.1 same⟩

theorem Agree.drop (agree : maps.Agree) (id : UInt64) :
    (⟨maps.forward.removeAll (maps.reverse.setOf (Index.entryKey id)) id,
      maps.reverse.take (Index.entryKey id)⟩ : Maps).Agree := by
  intro value entry
  rw [SetMap.has_take, agree]
  constructor
  · rintro ⟨⟨holder, rfl, present⟩, different⟩
    refine ⟨holder, rfl, SetMap.has_removeAll.2 ⟨present, ?_⟩⟩
    rintro ⟨-, rfl⟩
    exact different rfl
  · rintro ⟨holder, rfl, left⟩
    obtain ⟨present, different⟩ := SetMap.has_removeAll.1 left
    refine ⟨⟨holder, rfl, present⟩, fun same => ?_⟩
    obtain rfl := entryKey_inj.1 same
    exact different ⟨SetMap.has_iff_mem.1 ((agree value _).2 ⟨holder, rfl, present⟩), rfl⟩

theorem Agree.after (agree : maps.Agree) (codec : Codec V) (request : Index.Request V) :
    (maps.after codec request).Agree := by
  cases request with
  | add value id =>
    rw [Maps.after]
    cases codec.encode value with
    | ok key => exact agree.put key id
    | error failure => exact agree
  | remove value id =>
    rw [Maps.after]
    cases codec.encode value with
    | ok key => exact agree.remove key id
    | error failure => exact agree
  | dropEntry id => exact agree.drop id
  | _ => exact agree

theorem Agree.total_eq (agree : maps.Agree) (forwardProper : maps.forward.Proper)
    (reverseProper : maps.reverse.Proper) : maps.reverse.total = maps.forward.total := by
  have turned : (maps.forward.pairs.map fun pair => (Index.entryKey pair.2, pair.1)).Perm
      maps.reverse.pairs := by
    apply (List.perm_ext_iff_of_nodup _ (SetMap.nodup_pairs reverseProper)).2
    · rintro ⟨entry, value⟩
      rw [SetMap.mem_pairs, agree, List.mem_map]
      constructor
      · rintro ⟨⟨_, holder⟩, listed, same⟩
        cases same
        exact ⟨holder, rfl, SetMap.mem_pairs.1 listed⟩
      · rintro ⟨holder, rfl, present⟩
        exact ⟨(value, holder), SetMap.mem_pairs.2 present, rfl⟩
    · apply (SetMap.nodup_pairs forwardProper).map
      rintro ⟨first, one⟩ ⟨second, two⟩ same
      obtain ⟨holders, values⟩ := Prod.mk.inj same
      exact Prod.ext values (entryKey_inj.1 holders)
  rw [← SetMap.length_pairs, ← SetMap.length_pairs, ← turned.length_eq, List.length_map]

end Maps

end AttributeIndex
