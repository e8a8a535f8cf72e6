import AttributeIndex.Proofs.SetTable.Filing
import AttributeIndex.Proofs.SetTable.Opening

namespace AttributeIndex

open Observed
open SetTable (recordKey headerId)

/-! ## Ids in use -/

namespace Layout

variable {D : Type} [Ord D] {before after : Layout D} {bound : Nat}

structure Within (bound : Nat) (layout : Layout D) : Prop where
  records : ∀ id bytes, layout.records.find? (recordKey id) = some bytes → id.toNat < bound
  sets : ∀ id cached, layout.sets.find? id = some cached → id.toNat < bound

theorem Within.mono {larger : Nat} (within : before.Within bound) (grown : bound ≤ larger) :
    before.Within larger where
  records id bytes found := Nat.lt_of_lt_of_le (within.records id bytes found) grown
  sets id cached found := Nat.lt_of_lt_of_le (within.sets id cached found) grown

theorem lt_of_find?_insert {records : SortedMap Bytes Bytes}
    (below : ∀ id bytes, records.find? (recordKey id) = some bytes → id.toNat < bound)
    {issued : UInt64} (small : issued.toNat < bound) {written : Bytes} (id : UInt64) (bytes : Bytes)
    (found : (records.insert (recordKey issued) written).find? (recordKey id) = some bytes) :
    id.toNat < bound := by
  rw [SortedMap.find?_insert] at found
  split at found
  · rename_i same
    rw [recordKey_inj.1 same]
    exact small
  · exact below id bytes found

theorem lt_of_find?_erase {records : SortedMap Bytes Bytes}
    (below : ∀ id bytes, records.find? (recordKey id) = some bytes → id.toNat < bound)
    {key : Bytes} (id : UInt64) (bytes : Bytes)
    (found : (records.erase key).find? (recordKey id) = some bytes) : id.toNat < bound := by
  rw [SortedMap.find?_erase] at found
  split at found
  · cases found
  · exact below id bytes found

theorem lt_of_cached_insert {sets : Lru UInt64 (CachedSet D)} (room : sets.isFull = false)
    (below : ∀ id cached, sets.find? id = some cached → id.toNat < bound)
    {issued : UInt64} (small : issued.toNat < bound) {entered : CachedSet D} (id : UInt64)
    (cached : CachedSet D) (found : (sets.insert issued entered).find? id = some cached) :
    id.toNat < bound := by
  rw [Lru.find?_insert room] at found
  split at found
  · rename_i same
    rw [same]
    exact small
  · exact below id cached found

theorem lt_of_cached_modify {sets : Lru UInt64 (CachedSet D)}
    (below : ∀ id cached, sets.find? id = some cached → id.toNat < bound)
    {changed : UInt64} {change : CachedSet D → CachedSet D} (id : UInt64) (cached : CachedSet D)
    (found : (sets.modify changed change).find? id = some cached) : id.toNat < bound := by
  rw [Lru.find?_modify] at found
  split at found
  · obtain ⟨old, present, -⟩ := Option.map_eq_some_iff.1 found
    exact below id old present
  · exact below id cached found

theorem Move.within (move : Move before after) (positive : 0 < bound)
    (within : before.Within bound) : after.Within bound := by
  cases move with
  | recache bounded capacity kept =>
    refine ⟨within.records, fun id cached found => ?_⟩
    rcases kept id with same | ⟨gone, _⟩
    · exact within.sets id cached (same ▸ found)
    · cases gone.symm.trans found
  | @writeBack id cached _ _ found dirty encoded bounded capacity others here =>
    have small := within.sets id cached found
    refine ⟨lt_of_find?_insert within.records small, fun other kept located => ?_⟩
    by_cases same : other = id
    · rw [same]
      exact small
    · exact within.sets other kept ((others other same).symm.trans located)
  | @load _ id bytes _ leads absent located decoded room =>
    exact ⟨within.records, lt_of_cached_insert room within.sets (within.records id bytes located)⟩
  | announce =>
    have small : headerId.toNat < bound := positive
    exact ⟨lt_of_find?_insert within.records small, within.sets⟩

theorem Moves.within (moves : Moves before after) (positive : 0 < bound)
    (within : before.Within bound) : after.Within bound := by
  induction moves with
  | refl => exact within
  | tail _ move earlier => exact move.within positive earlier

theorem Change.within {key : Bytes} {list : List D} (change : Change key list before after)
    (within : before.Within bound)
    (next : after.nextId = before.nextId ∨ before.nextId.toNat < bound) : after.Within bound := by
  cases change with
  | write | drop => exact ⟨within.records, within.sets⟩
  | rewrite leads found ordered nonempty =>
    exact ⟨within.records, lt_of_cached_modify within.sets⟩
  | migrate vacant ordered nonempty encoded notFull full =>
    -- The next id is not what it was, so the bound is past the one that was used up.
    have small := next.resolve_left (succ_ne _)
    exact ⟨lt_of_find?_insert within.records small, lt_of_cached_insert notFull within.sets small⟩
  | release leads =>
    refine ⟨lt_of_find?_erase within.records, fun id cached located => ?_⟩
    rw [Lru.find?_erase] at located
    split at located
    · cases located
    · exact within.sets id cached located

theorem Orphan.within {key : Bytes} (orphan : Orphan key before after) (within : before.Within bound)
    (next : after.nextId = before.nextId ∨ before.nextId.toNat < bound) : after.Within bound := by
  have small : before.nextId.toNat < bound := by
    cases orphan <;> exact next.resolve_left (succ_ne _)
  cases orphan with
  | left full => exact ⟨lt_of_find?_insert within.records small, within.sets⟩
  | removed full => exact ⟨lt_of_find?_erase (lt_of_find?_insert within.records small), within.sets⟩

theorem Unfile.within {key : Bytes} (unfile : Unfile key before after)
    (within : before.Within bound) : after.Within bound := by
  cases unfile with
  | lost leads found =>
    exact ⟨lt_of_find?_erase within.records, lt_of_cached_modify within.sets⟩

theorem Pass.within (pass : Pass before after) (positive : 0 < bound) (within : before.Within bound)
    (next : after.nextId = before.nextId ∨ before.nextId.toNat < bound) : after.Within bound := by
  cases pass with
  | moved moves => exact moves.within positive within
  | changed prepared change count =>
    have sameId := prepared.moves.alike.nextId_eq
    rw [← sameId] at next
    have reached := change.within (prepared.moves.within positive within) next
    exact ⟨reached.records, reached.sets⟩

theorem Slip.within {lost : Option Bytes} (slip : Slip lost before after) (positive : 0 < bound)
    (within : before.Within bound)
    (next : after.nextId = before.nextId ∨ before.nextId.toNat < bound) : after.Within bound := by
  cases slip with
  | orphaned moves orphan =>
    rw [← moves.alike.nextId_eq] at next
    exact orphan.within (moves.within positive within) next
  | unfiled moves unfile => exact unfile.within (moves.within positive within)

end Layout

namespace SetTable

open Layout

section Fresh

variable {D : Type} [Ord D] {filing : Filing D}

/-- Nothing that is there is written over: not the header, not another record and not a set in the
cache. -/
structure Filing.Fresh (filing : Filing D) : Prop extends filing.Done where
  proper : filing.id ≠ headerId
  absent : filing.start.records.find? (recordKey filing.id) = none
  unrecorded : filing.before.records.find? (recordKey filing.id) = none
  uncached : filing.before.sets.find? filing.id = none

theorem Filing.Fresh.kept (fresh : filing.Fresh) {key bytes : Bytes}
    (found : filing.before.records.find? key = some bytes) :
    filing.after.records.find? key = some bytes := by
  obtain ⟨written, -, layout⟩ := fresh.stored
  rw [layout, SortedMap.find?_insert, if_neg]
  · exact found
  · rintro rfl
    cases fresh.unrecorded.symm.trans found

end Fresh

/-! ## Runs -/

variable {σ D : Type} [Ord D]

theorem Ran.within [Observed σ] {bound : Nat} {before after : SetTable σ D} (ran : Ran before after)
    (positive : 0 < bound) (within : before.layout.Within bound)
    (next : after.nextId = before.nextId ∨ before.nextId.toNat < bound) :
    after.layout.Within bound := by
  rcases ran.passes with pass | ⟨_, slip, _⟩
  · exact pass.within positive within next
  · exact slip.within positive within next

variable [Table σ] [LawfulTable σ] [Std.TransOrd D] {table : SetTable σ D}

theorem filings_fresh (calls : List (Call D)) {bound : Nat} (cache : table.layout.CacheOrdered)
    (positive : 0 < bound) (named : table.nextId = UInt64.ofNat bound)
    (within : table.layout.Within bound) (room : bound + (table.filings calls).length ≤ 2 ^ 64) :
    (table.filings calls).map (·.id.toNat) = List.range' bound (table.filings calls).length ∧
      ∀ filing ∈ table.filings calls, filing.Fresh := by
  -- The next id is above all that are in use, and a call that files a set raises both by one.
  induction calls generalizing table bound with
  | nil => exact ⟨rfl, fun _ impossible => by cases impossible⟩
  | cons call calls ih =>
    have ran := call_ran call cache
    have issues := call_issues call cache
    rw [filings, List.length_append] at room
    rw [filings]
    generalize table.filing? call = filing? at *
    cases issues with
    | none same =>
      simp only [Option.toList_none, List.length_nil, Nat.zero_add] at room
      exact ih (ran.cacheOrdered cache) positive (same.trans named)
        (ran.within positive within (.inl same)) room
    | @filed filing done start_eq id_eq next =>
      simp only [Option.toList_some, List.length_singleton] at room
      have small : table.nextId.toNat = bound := by
        rw [named, UInt64.toNat_ofNat']
        exact Nat.mod_eq_of_lt (by omega)
      have spelled : filing.id.toNat = bound := by rw [id_eq, small]
      have begun : filing.start.Within bound := start_eq ▸ within
      have ready := done.moves.within positive begun
      have unused : ∀ {layout : Layout D}, layout.Within bound →
          layout.records.find? (recordKey filing.id) = none := fun within =>
        Option.eq_none_iff_forall_ne_some.2 fun bytes found =>
          absurd (within.records _ bytes found) (by omega)
      have fresh : filing.Fresh := by
        refine ⟨done, fun header => ?_, unused begun, unused ready, ?_⟩
        · rw [header] at spelled
          exact absurd spelled (Nat.ne_of_lt positive)
        · refine Option.eq_none_iff_forall_ne_some.2 fun cached found => ?_
          exact absurd (ready.sets _ cached found) (by omega)
      have onward : (call.perform table).2.nextId = UInt64.ofNat (bound + 1) := by
        rw [next, named, UInt64.ofNat_add]
        rfl
      obtain ⟨ids, others⟩ := ih (ran.cacheOrdered cache) (Nat.succ_pos bound) onward
        (ran.within (Nat.succ_pos bound) (within.mono (Nat.le_succ bound)) (.inr (by omega))) (by omega)
      rw [Option.toList_some, List.singleton_append]
      refine ⟨?_, List.forall_mem_cons.2 ⟨fresh, others⟩⟩
      rw [List.map_cons, List.length_cons, List.range'_succ, ids, spelled]

/-- Neither the header nor any record has so great an id that ids run out when so many sets move. -/
structure LeavesIds (records : SortedMap Bytes Bytes) (moves : Nat) : Prop where
  few : moves < 2 ^ 64
  header : ∀ header, records.find? (recordKey headerId) = some header →
    header.toUInt64.toNat + moves < 2 ^ 64
  record : ∀ id bytes, records.find? (recordKey id) = some bytes → id.toNat + moves < 2 ^ 64

theorem LeavesIds.idAfter_le {records : SortedMap Bytes Bytes} {moves : Nat}
    (leaves : LeavesIds records moves) (numbered : Numbered records) :
    (idAfter records).toNat + moves ≤ 2 ^ 64 := by
  have few := leaves.few
  have announced : (announcedId records).toNat ≤ 2 ^ 64 - moves := by
    cases found : records.find? (recordKey headerId) with
    | none =>
      have first : announcedId records = headerId + 1 := by rw [announcedId, found]
      rw [first, show (headerId + 1).toNat = 1 from rfl]
      omega
    | some header =>
      have small := leaves.header header found
      rw [announcedId_of_header found]
      omega
  have above : ∀ id bytes, records.find? (recordKey id) = some bytes → id.toNat + 1 ≤ 2 ^ 64 - moves :=
    fun id bytes found => by
      have small := leaves.record id bytes found
      omega
  have next := numbered.idAfter_le announced above
  omega

/-- Whatever opening found in the overflow store, whatever was done and whichever store calls failed:
sets that moved were filed under greater and greater ids, each of them new, and every record that was
there has stayed as it was. The ids of the header and of all records must be small enough for that. -/
theorem filed_under_new_ids {name : String} {codec : Codec D} {limit cacheSize : Nat}
    {stores left : Stores σ} {opened : SetTable σ D}
    (opening : openOver name codec limit cacheSize stores = (.ok opened, left))
    (calls : List (Call D))
    (leaves : LeavesIds (contents stores.overflow) (opened.filings calls).length) :
    ((opened.filings calls).map Filing.id).Pairwise (· < ·) ∧
      (∀ filing ∈ opened.filings calls, filing.Fresh ∧
        ∀ key bytes, filing.before.records.find? key = some bytes →
          filing.after.records.find? key = some bytes) ∧
      (opened.afterCalls calls).nextId =
        opened.nextId + UInt64.ofNat (opened.filings calls).length := by
  have inspected := (openOver_reads name codec limit cacheSize stores).ok_of opening
  have layout := inspected.layout_eq
  have cache : opened.layout.CacheOrdered :=
    cacheOrdered_of_empty inspected.cached (congrArg Layout.sets layout)
  have fresh : ((opened.filings calls).map Filing.id).Pairwise (· < ·) ∧
      ∀ filing ∈ opened.filings calls, filing.Fresh := by
    -- The greatest id of all leaves no room, so nothing need be known of the next id then.
    by_cases none : opened.filings calls = []
    · rw [none]
      exact ⟨.nil, fun _ impossible => by cases impossible⟩
    · have some := List.length_pos_of_ne_nil none
      have room : ∀ id bytes, (contents stores.overflow).find? (recordKey id) = .some bytes →
          id.toNat + 1 < 2 ^ 64 := fun id bytes found => by
        have small := leaves.record id bytes found
        omega
      have within : opened.layout.Within opened.nextId.toNat := by
        refine ⟨fun id bytes found => ?_, fun id cached found => ?_⟩
        · rw [inspected.nextId_eq]
          rw [layout] at found
          exact inspected.numbered.lt_idAfter room found
        · cases (uncached_of_empty (congrArg Layout.sets layout) id).symm.trans found
      have positive : 0 < opened.nextId.toNat := by
        rw [inspected.nextId_eq]
        exact inspected.numbered.idAfter_pos room
      have enough := leaves.idAfter_le inspected.numbered
      rw [← inspected.nextId_eq] at enough
      obtain ⟨ids, fresh⟩ :=
        filings_fresh calls cache positive UInt64.ofNat_toNat.symm within enough
      refine ⟨?_, fresh⟩
      have ascending : ((opened.filings calls).map (·.id.toNat)).Pairwise (· < ·) := by
        rw [ids]
        exact List.pairwise_lt_range'
      rw [List.pairwise_map] at ascending ⊢
      exact ascending.imp fun less => UInt64.lt_iff_toNat_lt.2 less
  exact ⟨fresh.1, fun filing member =>
    ⟨fresh.2 filing member, fun _ _ => (fresh.2 filing member).kept⟩, afterCalls_nextId calls cache⟩

def crowdedStores : Stores Unreliable where
  primary := (Unreliable.ofEntries .empty).setPlan .put ⟨(· == 1), 0⟩
  overflow := (Unreliable.ofEntries ⟨[(recordKey headerId, Bytes.ofUInt64 3), (recordKey 4, [9])],
    by decide⟩).setPlan .remove (.after 0)

def overCrowded : SetTable Unreliable UInt64 :=
  { overEmpty "ids" .uint64 1 crowdedStores with
    stores := {
      primary := passing .cursor crowdedStores.primary
      overflow := passing .load (passing .cursor (passing .get crowdedStores.overflow)) }
    nextId := 5 }

theorem filed_under_new_ids_again :
    let calls : List (Call UInt64) := [.ask (.put [7] 5), .ask (.put [7] 3), .ask (.put [7] 3)]
    openOver "ids" .uint64 1 1 crowdedStores = (.ok overCrowded, overCrowded.stores) ∧
      LeavesIds (contents crowdedStores.overflow) (overCrowded.filings calls).length ∧
      (overCrowded.filings calls).map Filing.id = [5, 6] ∧
      ((overCrowded.filings calls).map Filing.id).Pairwise (· < ·) ∧
      (∀ filing ∈ overCrowded.filings calls, filing.Fresh ∧
        ∀ key bytes, filing.before.records.find? key = some bytes →
          filing.after.records.find? key = some bytes) ∧
      (overCrowded.afterCalls calls).nextId =
        overCrowded.nextId + UInt64.ofNat (overCrowded.filings calls).length := by
  intro calls
  have opening : openOver "ids" .uint64 1 1 crowdedStores = (.ok overCrowded, overCrowded.stores) := rfl
  have ids : (overCrowded.filings calls).map Filing.id = [5, 6] := by decide +kernel
  have two : (overCrowded.filings calls).length = 2 := by
    rw [← List.length_map Filing.id, ids]
    rfl
  have leaves : LeavesIds (contents crowdedStores.overflow) (overCrowded.filings calls).length := by
    rw [two]
    refine ⟨by decide, ?_, fun id bytes found => ?_⟩
    · rintro _ ⟨⟩
      decide +kernel
    · have member : (recordKey id, bytes) ∈
          [(recordKey headerId, Bytes.ofUInt64 3), (recordKey 4, [9])] := SortedMap.find?_eq_some.1 found
      rcases List.mem_pair.1 member with same | same
      · rw [recordKey_inj.1 (congrArg Prod.fst same)]
        decide
      · rw [recordKey_inj.1 (congrArg Prod.fst same)]
        decide
  exact ⟨opening, leaves, ids, filed_under_new_ids opening calls leaves⟩

end SetTable

end AttributeIndex
