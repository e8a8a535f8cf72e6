import AttributeIndex.Proofs.SetTable.Inspection
import AttributeIndex.Proofs.SetTable.Slots

namespace AttributeIndex

open Observed
open SetTable (recordKey storedSize?)

namespace Layout

variable {D : Type} [Ord D] {layout before middle after : Layout D}

def recorded? (layout : Layout D) (id : UInt64) : Option (OrderedSet D compare) :=
  (layout.records.find? (recordKey id)).bind fun bytes => (layout.codec.set.decode bytes).toOption

def fetch? (layout : Layout D) : Slot D → Option (OrderedSet D compare)
  | .inline set => some set
  | .overflow redirect => layout.recorded? redirect.recordId

structure Copied (layout : Layout D) : Prop where
  bounded : layout.sets.Bounded
  cached : ∀ id cached, layout.sets.find? id = some cached →
    cached.dirty = false ∧ layout.recorded? id = some cached.set

structure Recached (before after : Layout D) : Prop where
  same : after = { before with sets := after.sets }
  copied : after.Copied

theorem Copied.refl (copied : layout.Copied) : Recached layout layout :=
  ⟨rfl, copied⟩

theorem Recached.trans (first : Recached before middle) (second : Recached middle after) :
    Recached before after := by
  refine ⟨?_, second.copied⟩
  rw [second.same, first.same]

theorem Copied.recache (copied : layout.Copied) {sets : Lru UInt64 (CachedSet D)}
    (bounded : sets.Bounded)
    (kept : ∀ id cached, sets.find? id = some cached → layout.sets.find? id = some cached) :
    Recached layout { layout with sets } :=
  ⟨rfl, bounded, fun id cached found => copied.cached id cached (kept id cached found)⟩

theorem Copied.load (copied : layout.Copied) {id : UInt64} {set : OrderedSet D compare}
    (recorded : layout.recorded? id = some set) (room : layout.sets.isFull = false) :
    Recached layout { layout with sets := layout.sets.insert id ⟨set, false⟩ } := by
  refine ⟨rfl, Lru.bounded_insert copied.bounded room id _, fun other cached found => ?_⟩
  rw [Lru.find?_insert room] at found
  split at found
  · rename_i same
    cases found
    exact ⟨rfl, same ▸ recorded⟩
  · exact copied.cached other cached found

theorem find?_of_readSlot {key : Bytes} (read : layout.readSlot key = .ok none) :
    layout.slots.find? key = none := by
  rw [readSlot] at read
  cases found : layout.slots.find? key with
  | none => rfl
  | some bytes =>
    rw [found] at read
    dsimp only at read
    split at read
    · cases decoded : Redirect.decode bytes <;> rw [decoded] at read <;> cases read
    · cases decoded : layout.codec.set.decode bytes <;> rw [decoded] at read <;> cases read

theorem announced?_of_fetch {key slot : Bytes} {set : OrderedSet D compare}
    (found : layout.slots.find? key = some slot)
    (fetched : (layout.slot? key).bind layout.fetch? = some set) :
    announced? layout.records slot = some set.toList.length ∧ set.size = set.toList.length := by
  obtain ⟨entry, parsed, fetched⟩ := Option.bind_eq_some_iff.1 fetched
  rw [slot?, found, Option.bind_some] at parsed
  have sized : ∀ bytes, leadsTo? layout.records slot = some bytes →
      layout.codec.set.decode bytes = .ok set →
      announced? layout.records slot = some set.toList.length ∧ set.size = set.toList.length := by
    intro bytes leads decoded
    rw [announced?, leads, Option.bind_some]
    exact ⟨Codec.storedSize?_of_decode decoded, Codec.size_of_decode decoded⟩
  cases form : Redirect.hasForm slot with
  | true =>
    obtain ⟨redirect, decoded, rfl⟩ := parse_of_redirect form parsed
    obtain ⟨bytes, located, read⟩ := Option.bind_eq_some_iff.1 fetched
    refine sized bytes ?_ (toOption_eq_some.1 read)
    rw [leadsTo?, if_pos form, decoded]
    exact located
  | false =>
    obtain ⟨read, decoded, rfl⟩ := parse_of_set form parsed
    cases fetched
    exact sized slot (if_neg (by simp [form])) decoded

end Layout

namespace SetTable

open Layout

variable {σ D : Type} [Ord D] [Table σ] [LawfulTable σ] {table : SetTable σ D}

theorem makeRoom_recaches (copied : table.layout.Copied) :
    makeRoom.Meets table
      (fun _ after => Recached table.layout after.layout ∧ after.sets.isFull = false)
      fun _ _ => True := by
  rw [makeRoom, Action.meets_bind, Action.meets_get]
  split
  · rename_i full
    obtain ⟨id, cached, rest, evicted, evicts⟩ := Lru.evict_of_isFull copied.bounded full
    rw [Action.meets_bind, Action.meets_get, show table.sets.evict = _ from evicted]
    dsimp only
    -- A clean set is given up without a call to the stores.
    rw [Action.meets_bind, Action.meets_modify, (copied.cached id cached evicts.found).1]
    refine ⟨copied.recache evicts.bounded fun other kept located => ?_, evicts.isFull_eq⟩
    rw [evicts.others] at located
    split at located
    · cases located
    · exact located
  · rename_i room
    exact ⟨copied.refl, Bool.eq_false_of_not_eq_true room⟩

theorem touch_recaches {id : UInt64} {cached : CachedSet D} (copied : table.layout.Copied)
    (found : table.layout.sets.find? id = some cached) :
    (do
      modify fun table : SetTable σ D => { table with sets := table.sets.touch id }
      match (← get).sets.find? id with
      | some cached => return cached.set
      | none => throw (.invalidOperation "overflow set cache") :
        Action (SetTable σ D) Error (OrderedSet D compare)).Meets table
      (fun set after => Recached table.layout after.layout ∧
        table.layout.recorded? id = some set)
      fun _ _ => True := by
  have same := Lru.find?_touch table.sets id
  rw [Action.meets_bind, Action.meets_modify, Action.meets_bind, Action.meets_get, same,
    show table.sets.find? id = _ from found]
  refine ⟨?_, (copied.cached id cached found).2⟩
  exact copied.recache (Lru.bounded_touch copied.bounded id) fun other kept located =>
    (same other).symm.trans located

theorem useOverflowSet_reads (id : UInt64) (copied : table.layout.Copied) :
    (useOverflowSet id).Meets table
      (fun set after => Recached table.layout after.layout ∧
        table.layout.recorded? id = some set)
      fun _ _ => True := by
  rw [useOverflowSet, Action.meets_bind, Action.meets_get]
  dsimp only
  split
  · rename_i present
    obtain ⟨cached, found⟩ := Option.isSome_iff_exists.1 present
    exact touch_recaches copied found
  · rw [Action.meets_bind]
    refine Action.Meets.mono (readRecord_does (False.elim : False → _)) ?_ fun _ _ _ => trivial
    rintro set after ⟨-, unchanged, bytes, located, decoded⟩
    have recorded : after.layout.recorded? id = some set := by
      rw [unchanged, recorded?, located, Option.bind_some, decoded]
      rfl
    rw [← unchanged] at copied ⊢
    rw [Action.meets_bind]
    refine (makeRoom_recaches copied).mono ?_ fun _ _ _ => trivial
    rintro _ roomy ⟨recached, room⟩
    have same : roomy.layout.recorded? id = after.layout.recorded? id := by
      rw [recached.same]
      rfl
    have loaded := recached.copied.load (same.trans recorded) room
    rw [Action.meets_bind, cacheClean, Action.meets_modify]
    let full : SetTable σ D := { roomy with sets := roomy.sets.insert id ⟨set, false⟩ }
    have copied : full.layout.Copied := loaded.copied
    have found : full.layout.sets.find? id = some ⟨set, false⟩ :=
      (Lru.find?_insert room id id _).trans (if_pos rfl)
    refine (touch_recaches copied found).mono ?_ fun _ _ _ => trivial
    rintro answer last ⟨further, again⟩
    exact ⟨(recached.trans loaded).trans further, same.symm.trans again⟩

theorem elements_reads (key : Bytes) (copied : table.layout.Copied) :
    (elements key).Meets table
      (fun answer after => Recached table.layout after.layout ∧
        answer = (table.layout.slot? key).bind table.layout.fetch? ∧
        (answer = none → table.layout.slots.find? key = none))
      fun _ _ => True := by
  rw [elements, Action.meets_bind]
  refine Action.Meets.mono (requireOpen_does : Does _ _ False _ _) ?_ fun _ _ _ => trivial
  rintro _ opened ⟨-, -, same⟩
  rw [← same] at copied ⊢
  rw [Action.meets_bind]
  refine (readSlot_meets key).mono ?_ fun _ _ _ => trivial
  rintro slot after ⟨_, unchanged, read⟩
  have parsed := slot?_of_readSlot read
  rw [← unchanged] at copied parsed ⊢
  cases slot with
  | none =>
    refine ⟨copied.refl, by rw [parsed]; rfl, fun _ => ?_⟩
    rw [unchanged]
    exact find?_of_readSlot read
  | some entry =>
    cases entry with
    | inline set => exact ⟨copied.refl, by rw [parsed]; rfl, fun none => by cases none⟩
    | overflow redirect =>
      rw [Action.meets_bind]
      refine (useOverflowSet_reads redirect.recordId copied).mono ?_ fun _ _ _ => trivial
      rintro set last ⟨recached, recorded⟩
      refine ⟨recached, ?_, fun none => by cases none⟩
      rw [parsed]
      exact recorded.symm

theorem countOf_reads (key : Bytes) (copied : table.layout.Copied) :
    (countOf key).Meets table
      (fun count after => Recached table.layout after.layout ∧
        ∀ slot, table.layout.slots.find? key = some slot →
          announced? table.layout.records slot = some count)
      fun _ _ => True := by
  rw [countOf, Action.meets_bind]
  refine (elements_reads key copied).mono ?_ fun _ _ _ => trivial
  rintro answer after ⟨recached, fetched, present⟩
  refine ⟨recached, fun slot found => ?_⟩
  cases answer with
  | none => cases (present rfl).symm.trans found
  | some set =>
    obtain ⟨announced, sized⟩ := announced?_of_fetch found fetched.symm
    rw [announced, ← sized]
    rfl

theorem mapM_countOf_reads {keys : List Bytes} (copied : table.layout.Copied)
    (present : ∀ key ∈ keys, ∃ slot, table.layout.slots.find? key = some slot) :
    (keys.mapM countOf).Meets table
      (fun counts _ => counts = keys.map fun key =>
        ((table.layout.slots.find? key).bind (announced? table.layout.records)).getD 0)
      fun _ _ => True := by
  -- The keys are counted one after the other, so sets pass through the cache meanwhile.
  induction keys generalizing table with
  | nil => exact rfl
  | cons key keys ih =>
    obtain ⟨⟨slot, found⟩, others⟩ := List.forall_mem_cons.1 present
    rw [List.mapM_cons, Action.meets_bind]
    refine (countOf_reads key copied).mono ?_ fun _ _ _ => trivial
    rintro count after ⟨recached, counted⟩
    have slots : after.layout.slots = table.layout.slots := by rw [recached.same]
    have records : after.layout.records = table.layout.records := by rw [recached.same]
    rw [← slots] at others
    rw [Action.meets_bind]
    refine (ih recached.copied others).mono ?_ fun _ _ _ => trivial
    rintro _ _ rfl
    rw [Action.meets_pure, slots, records, List.map_cons, found, Option.bind_some, counted slot found]
    rfl

/-- Whatever is in the stores, the number of elements at opening adds up what the slots announce. A
slot whose set can be read has announced its size, and one that announces nothing cannot be read; so
if the set of every key can be counted, the sum is the same, also if one is counted after the other. -/
theorem openOver_counts {name : String} {codec : Codec D} {limit cacheSize : Nat}
    {stores left : Stores σ} {opened : SetTable σ D}
    (opening : openOver name codec limit cacheSize stores = (.ok opened, left)) :
    let slots := contents stores.primary
    let announced := announced? (contents stores.overflow)
    opened.count = (slots.entries.map fun entry => (announced entry.2).getD 0).sum ∧
      (∀ key slot, slots.find? key = some slot →
        (∀ answer after, elements key opened = (.ok answer, after) →
          ∃ set, answer = some set ∧ announced slot = some set.toList.length) ∧
        (announced slot = none → ∃ failure, (elements key opened).1 = .error failure)) ∧
      (∀ sizes : Bytes → Nat, (∀ key ∈ slots.keys, (countOf key opened).1 = .ok (sizes key)) →
        opened.count = (slots.keys.map sizes).sum) ∧
      ∀ sizes after, (slots.keys.mapM countOf : Action (SetTable σ D) Error (List Nat)) opened =
        (.ok sizes, after) → opened.count = sizes.sum := by
  intro slots announced
  have total := ((openOver_reads name codec limit cacheSize stores).ok_of opening).count_eq
  obtain ⟨browsed, _, cache, _, _, cached⟩ :=
    (openOver_browses name codec limit cacheSize stores).ok_of opening
  have sameSlots : opened.layout.slots = slots := browsed.primary.contents_eq
  have sameRecords : opened.layout.records = contents stores.overflow := browsed.overflow.contents_eq
  have copied : opened.layout.Copied := by
    have empty : opened.layout.sets = .empty cacheSize := cache
    refine ⟨empty ▸ Lru.bounded_empty cached, fun id cached found => ?_⟩
    rw [empty] at found
    cases found
  have byKeys : opened.count = (slots.keys.map fun key =>
      ((slots.find? key).bind announced).getD 0).sum := by
    rw [total, announcedTotal, SortedMap.keys, List.map_map]
    congr 1
    refine List.map_congr_left fun entry member => ?_
    rw [Function.comp_apply, SortedMap.find?_eq_some.2 member]
    rfl
  have reads : ∀ key slot, slots.find? key = some slot → ∀ answer after,
      elements key opened = (.ok answer, after) →
        ∃ set, answer = some set ∧ announced slot = some set.toList.length := by
    intro key slot found answer after performed
    rw [← sameSlots] at found
    obtain ⟨-, fetched, present⟩ := (elements_reads key copied).ok_of performed
    cases answer with
    | none => cases (present rfl).symm.trans found
    | some set =>
      have counted := (announced?_of_fetch found fetched.symm).1
      rw [sameRecords] at counted
      exact ⟨set, rfl, counted⟩
  refine ⟨total, fun key slot found => ⟨reads key slot found, fun skipped => ?_⟩, ?_, ?_⟩
  · cases performed : elements key opened with
    | mk outcome after =>
      cases outcome with
      | error failure => exact ⟨failure, rfl⟩
      | ok answer =>
        obtain ⟨set, -, counted⟩ := reads key slot found answer after performed
        cases skipped.symm.trans counted
  · intro sizes counts
    rw [byKeys]
    congr 1
    refine List.map_congr_left fun key member => ?_
    obtain ⟨slot, found⟩ := SortedMap.mem_keys.1 member
    have counted := (countOf_reads key copied).ok_of (Prod.ext (counts key member) rfl)
    rw [sameSlots, sameRecords] at counted
    rw [found, Option.bind_some]
    exact congrArg (Option.getD · 0) (counted.2 slot found)
  · intro sizes after performed
    have counted := (mapM_countOf_reads copied fun key member =>
      SortedMap.mem_keys.1 (sameSlots ▸ member)).ok_of performed
    rw [byKeys, counted, sameSlots, sameRecords]

def sharing : Stores Volatile where
  primary := .ofEntries ⟨[([1], [0, 0, 0, 2, 0, 0, 0, 1, 7, 0, 0, 0, 1, 8]),
    ([2], (Redirect.mk 5).encode), ([3], (Redirect.mk 5).encode), ([4], (Redirect.mk 6).encode)],
    by decide⟩
  overflow := .ofEntries ⟨[(recordKey 5, [0, 0, 0, 1, 0, 0, 0, 1, 7]),
    (recordKey 6, [0, 0, 0, 1, 0, 0, 0, 0])], by decide⟩

def damaged : Stores Volatile where
  primary := .ofEntries ⟨[([1], [0, 0, 0, 2, 0, 0, 0, 1, 7, 0, 0, 0, 1, 8]),
    ([2], (Redirect.mk 5).encode), ([3], [0, 0, 0, 1, 0, 0, 0, 9]), ([4], [0, 0, 0])], by decide⟩
  overflow := .ofEntries .empty

theorem openOver_counts_stored :
    (∃ opened left after, openOver "ids" .bytes 1 1 sharing = (.ok opened, left) ∧
      ((contents sharing.primary).keys.mapM countOf :
        Action (SetTable Volatile Bytes) Error (List Nat)) opened = (.ok [2, 1, 1, 1], after) ∧
      opened.count = [2, 1, 1, 1].sum) ∧
    ∃ opened left, openOver "ids" .bytes 1 1 damaged = (.ok opened, left) ∧ opened.count = 3 ∧
      announced? (contents damaged.overflow) (Redirect.mk 5).encode = none ∧
      ∃ failure, (elements [2] opened).1 = .error failure := by
  constructor
  · have counted : (openOver "ids" .bytes 1 1 sharing).1.map
        (fun opened => (((contents sharing.primary).keys.mapM countOf :
          Action (SetTable Volatile Bytes) Error (List Nat)) opened).1) = .ok (.ok [2, 1, 1, 1]) := by
      decide +kernel
    obtain ⟨opened, opening, counted⟩ := map_eq_ok.1 counted
    have opening := Action.performed_of_outcome opening
    have counting := Action.performed_of_outcome counted
    exact ⟨opened, _, _, opening, counting, (openOver_counts opening).2.2.2 _ _ counting⟩
  · have counted : (openOver "ids" .bytes 1 1 damaged).1.map SetTable.count = .ok 3 := by
      decide +kernel
    obtain ⟨opened, opening, counted⟩ := map_eq_ok.1 counted
    have opening := Action.performed_of_outcome opening
    have found : (contents damaged.primary).find? [2] = some (Redirect.mk 5).encode := by
      decide +kernel
    have dangling : announced? (contents damaged.overflow) (Redirect.mk 5).encode = none := by
      decide +kernel
    obtain ⟨-, reads, -⟩ := openOver_counts opening
    exact ⟨opened, _, opening, counted, dangling, (reads [2] _ found).2 dangling⟩

end SetTable

end AttributeIndex
