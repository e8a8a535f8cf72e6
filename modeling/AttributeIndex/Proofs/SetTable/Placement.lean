import AttributeIndex.Proofs.SetTable.Change
import AttributeIndex.Proofs.SetTable.Effect
import AttributeIndex.SetTable.Operations

namespace AttributeIndex.SetTable

open Observed Layout

variable {σ D : Type} [Ord D] [Table σ] [LawfulTable σ] {table : SetTable σ D} {fit : Prop}

structure Settled (before after : Layout D) : Prop extends Rearranged before after where
  coherent : after.Coherent
  nextId_eq : after.nextId = before.nextId

theorem Settled.refl {layout : Layout D} (coherent : layout.Coherent) : Settled layout layout :=
  ⟨.refl layout, coherent, rfl⟩

theorem Settled.of_eq {before after : Layout D} (coherent : before.Coherent)
    (same : after = before) : Settled before after := by
  rw [same]
  exact .refl coherent

theorem Settled.trans {first second third : Layout D} (before : Settled first second)
    (after : Settled second third) : Settled first third :=
  ⟨before.toRearranged.trans after.toRearranged, after.coherent,
    after.nextId_eq.trans before.nextId_eq⟩

section Moves

variable [Std.TransOrd D]

theorem Settled.of_moves {before after : Layout D} (coherent : before.Coherent)
    (moves : Moves before after) : Settled before after := by
  obtain ⟨last, rearranged⟩ := moves.rearranged coherent
  exact ⟨rearranged, last, moves.alike.nextId_eq⟩

theorem Does.settled {α : Type} {action : Action (SetTable σ D) Error α} {ok : α → Layout D → Prop}
    (does : Does action table fit (fun answer after => Moves table.layout after ∧ ok answer after)
      (Moves table.layout)) (coherent : table.layout.Coherent) :
    Does action table fit (fun answer after => Settled table.layout after ∧ ok answer after)
      (Settled table.layout) :=
  does.mono (fun _ _ ⟨moves, done⟩ => ⟨.of_moves coherent moves, done⟩)
    fun _ => .of_moves coherent

end Moves

/-! ## Encoding and decoding -/

theorem encodeSet_does {set : OrderedSet D compare} [Std.TransOrd D] (ordered : set.Ordered)
    (fits : fit → table.layout.codec.Fits set.toList) :
    Does (encodeSet set) table fit
      (fun bytes after => table.layout.codec.set.encode set = .ok bytes ∧ after = table.layout)
      (fun after => after = table.layout) := by
  apply does_query
  · intro bytes encoded
    exact ⟨encoded, rfl⟩
  · intro failure refused
    refine ⟨rfl, fun _ fit => ?_⟩
    obtain ⟨bytes, encoded⟩ := (Codec.exists_encode_set ordered).2 (fits fit)
    have refused : table.codec.set.encode set = .error failure := refused
    rw [show table.codec.set.encode set = .ok bytes from encoded] at refused
    cases refused

theorem decodeSet_does {bytes : Bytes}
    (readable : fit → ∃ set, table.layout.codec.set.decode bytes = .ok set) :
    Does (decodeSet bytes) table fit
      (fun answer after => table.layout.codec.set.decode bytes = .ok answer ∧ after = table.layout)
      (fun after => after = table.layout) := by
  apply does_query
  · intro answer read
    exact ⟨read, rfl⟩
  · intro failure refused
    refine ⟨rfl, fun _ fit => ?_⟩
    obtain ⟨set, decoded⟩ := readable fit
    cases refused.symm.trans decoded

theorem writeInline_does [Std.TransOrd D] {key : Bytes} {set : OrderedSet D compare}
    (ordered : set.Ordered) (fits : fit → table.layout.codec.Fits set.toList) :
    Does (writeInline key set) table fit
      (fun _ after => ∃ bytes, table.layout.codec.set.encode set = .ok bytes ∧
        after = { table.layout with slots := table.layout.slots.insert key bytes })
      (fun after => after = table.layout) := by
  refine does_bind (encodeSet_does ordered fits) fun bytes after _ ⟨encoded, same⟩ => ?_
  refine (onPrimary_does (LawfulTable.put key bytes)).mono ?_ ?_
  · intro _ last ⟨_, _, written⟩
    rw [same] at written
    exact ⟨bytes, encoded, written⟩
  · intro last left
    exact left.trans same

theorem writeRecord_does [Std.TransOrd D] {id : UInt64} {set : OrderedSet D compare}
    (ordered : set.Ordered) (fits : fit → table.layout.codec.Fits set.toList) :
    Does (writeRecord id set) table fit
      (fun _ after => ∃ bytes, table.layout.codec.set.encode set = .ok bytes ∧
        after = { table.layout with records := table.layout.records.insert (recordKey id) bytes })
      (fun after => after = table.layout) := by
  refine does_bind (encodeSet_does ordered fits) fun bytes after _ ⟨encoded, same⟩ => ?_
  refine (onOverflow_does (LawfulTable.put (recordKey id) bytes)).mono ?_ ?_
  · intro _ last ⟨_, written⟩
    rw [same] at written
    exact ⟨bytes, encoded, written⟩
  · intro last left
    exact left.trans same

theorem readSlot_does {key : Bytes} (coherent : fit → table.layout.Coherent) :
    Does (readSlot key) table fit
      (fun slot after => isOpen table.stores.primary = true ∧ slot = table.layout.slot? key ∧
        after = table.layout)
      (fun after => after = table.layout) := by
  refine does_bind (onPrimary_does (LawfulTable.get key)) ?_
  rintro answer after _ ⟨opened, found, same⟩
  have unchanged : after.layout = table.layout := same
  cases located : table.layout.slots.find? key with
  | none =>
    obtain rfl : answer = none := found.trans located
    refine does_pure ⟨opened, ?_, unchanged⟩
    rw [slot?, located]
    rfl
  | some bytes =>
    obtain rfl : answer = some bytes := found.trans located
    have slot : table.layout.slot? key = parse table.layout.codec bytes := by
      rw [slot?, located]
      rfl
    cases form : Redirect.hasForm bytes with
    | true =>
      have decoded : Redirect.decode bytes = .ok ⟨Bytes.toUInt64 (bytes.drop Redirect.tag.length)⟩ :=
        if_pos form
      simp only [form, decoded, if_true]
      refine does_pure ⟨opened, ?_, unchanged⟩
      rw [slot, parse, if_pos form, decoded]
      rfl
    | false =>
      simp only [form, Bool.false_eq_true, if_false]
      have readable : fit → ∃ set, after.layout.codec.set.decode bytes = .ok set := by
        intro fit
        obtain ⟨entry, -, parsed, -⟩ := (coherent fit).holds key bytes located
        obtain ⟨set, decoded, -⟩ := parse_of_set form (slot.symm.trans parsed)
        exact ⟨set, unchanged ▸ decoded⟩
      refine does_bind
        ((decodeSet_does readable).mono (fun _ _ => id) fun _ left => left.trans unchanged) ?_
      rintro set last _ ⟨decoded, kept⟩
      refine does_pure ⟨opened, ?_, kept.trans unchanged⟩
      rw [unchanged] at decoded
      rw [slot, parse, if_neg (by simp [form]), decoded]
      rfl

theorem dropSlot_does {key : Bytes} :
    Does (discard (onPrimary (Table.remove key))) table fit
      (fun _ after => after = { table.layout with slots := table.layout.slots.erase key })
      (fun after => after = table.layout) :=
  does_map ((onPrimary_does (LawfulTable.remove key)).mono (fun _ _ ⟨_, _, gone⟩ => gone)
    fun _ left => left)

/-! ## The cache -/

variable [Std.TransOrd D]

section Evicted

variable {id : UInt64} {cached : CachedSet D} {rest : Lru UInt64 (CachedSet D)}

omit [Std.TransOrd D] in
theorem move_giveUp (evicts : table.layout.sets.Evicts id cached rest)
    (clean : ¬ cached.dirty = true) : Move table.layout { table.layout with sets := rest } := by
  refine .recache evicts.bounded evicts.capacity_eq fun other => ?_
  rw [evicts.others]
  split
  · rename_i same
    refine .inr ⟨rfl, fun kept located => ?_⟩
    rw [same] at located
    cases evicts.found.symm.trans located
    exact Bool.eq_false_of_not_eq_true clean
  · exact .inl rfl

omit [Std.TransOrd D] in
theorem move_writeBack {bytes : Bytes} (evicts : table.layout.sets.Evicts id cached rest)
    (dirty : cached.dirty = true) (encoded : table.layout.codec.set.encode cached.set = .ok bytes) :
    Move table.layout { table.layout with
      records := table.layout.records.insert (recordKey id) bytes, sets := rest } := by
  refine .writeBack evicts.found dirty encoded evicts.bounded evicts.capacity_eq ?_ (.inl ?_)
  · exact fun other different => (evicts.others other).trans (if_neg different)
  · exact (evicts.others id).trans (if_pos rfl)

omit [Std.TransOrd D] in
theorem move_putBack (evicts : table.layout.sets.Evicts id cached rest) :
    Move table.layout { table.layout with sets := rest.insert id cached } :=
  .recache (Lru.bounded_insert evicts.bounded evicts.isFull_eq id cached)
    ((Lru.capacity_insert rest id cached).trans evicts.capacity_eq)
    fun other => .inl (evicts.find?_putBack other)

end Evicted

theorem makeRoom_moves (cache : table.layout.CacheOrdered) (flushable : fit → table.layout.Flushable) :
    Does makeRoom table fit
      (fun _ after => Moves table.layout after ∧ after.sets.isFull = false ∧
        ∀ id, table.layout.sets.find? id = none → after.sets.find? id = none ∧
          after.records.find? (recordKey id) = table.layout.records.find? (recordKey id))
      (Moves table.layout) := by
  refine does_get_bind ?_
  split
  · rename_i full
    obtain ⟨id, cached, rest, evicted, evicts⟩ := Lru.evict_of_isFull cache.bounded full
    have found : table.layout.sets.find? id = some cached := evicts.found
    refine does_get_bind ?_
    rw [show table.sets.evict = _ from evicted]
    have giveUp : Does (modify fun table => { table with sets := rest }) table fit
        (fun _ after => after = { table.layout with sets := rest }) (Moves table.layout) :=
      does_modify ⟨⟨rfl, rfl, rfl, rfl⟩, rfl⟩ rfl
    refine does_bind giveUp fun _ after _ given => ?_
    split
    · rename_i dirty
      have fitting : fit → after.layout.codec.Fits cached.set.toList := by
        intro fit
        rw [given]
        exact flushable fit id cached found dirty
      refine does_attempt_bind (writeRecord_does (cache.ordered id cached found) fitting) ?_ ?_
      · rintro _ last _ ⟨bytes, encoded, written⟩
        rw [given] at encoded written
        refine does_pure ?_
        rw [written]
        refine ⟨.single (move_writeBack evicts dirty encoded), evicts.isFull_eq, ?_⟩
        intro other none
        refine ⟨evicts.absent none, (SortedMap.find?_insert _ _ _ _).trans (if_neg fun same => ?_)⟩
        rw [recordKey_inj.1 same] at none
        cases none.symm.trans found
      · intro failure last left
        rw [Action.meets_bind, Action.meets_modify, Action.meets_throw]
        have layout : last.layout = { table.layout with sets := rest } := left.trans given
        have back : ({ last with sets := last.sets.insert id cached } : SetTable σ D).layout =
            { table.layout with sets := rest.insert id cached } :=
          congrArg (fun held : Layout D => { held with sets := held.sets.insert id cached }) layout
        refine ⟨⟨rfl, rfl, rfl, rfl⟩, Nat.le_refl _, ?_⟩
        rw [back]
        exact .single (move_putBack evicts)
    · rename_i clean
      refine does_pure ?_
      rw [given]
      exact ⟨.single (move_giveUp evicts clean), evicts.isFull_eq,
        fun other none => ⟨evicts.absent none, rfl⟩⟩
  · rename_i room
    exact does_pure ⟨.refl, Bool.eq_false_of_not_eq_true room, fun _ none => ⟨none, rfl⟩⟩

omit [Std.TransOrd D] in
theorem readRecord_does {id : UInt64} (readable : fit → ∃ list, table.layout.stored? id = some list) :
    Does (readRecord id) table fit
      (fun set after => after = table.layout ∧
        ∃ bytes, table.layout.records.find? (recordKey id) = some bytes ∧
          table.layout.codec.set.decode bytes = .ok set)
      (fun after => after = table.layout) := by
  refine does_bind (onOverflow_does (LawfulTable.get (recordKey id)))
    fun answer after _ ⟨found, unchanged⟩ => ?_
  have unchanged : after.layout = table.layout := unchanged
  cases located : table.layout.records.find? (recordKey id) with
  | none =>
    obtain rfl : answer = none := found.trans located
    refine does_get_bind (does_throw unchanged fun _ fit => ?_)
    obtain ⟨list, stored⟩ := readable fit
    obtain ⟨bytes, set, present, -⟩ := stored?_eq_some.1 stored
    cases located.symm.trans present
  | some bytes =>
    obtain rfl : answer = some bytes := found.trans located
    have decodes : fit → ∃ set, after.layout.codec.set.decode bytes = .ok set := by
      intro fit
      obtain ⟨list, stored⟩ := readable fit
      obtain ⟨other, set, present, decoded, -⟩ := stored?_eq_some.1 stored
      cases located.symm.trans present
      exact ⟨set, unchanged ▸ decoded⟩
    refine (decodeSet_does decodes).mono ?_ fun _ left => left.trans unchanged
    rintro set last ⟨decoded, kept⟩
    exact ⟨kept.trans unchanged, bytes, rfl, unchanged ▸ decoded⟩

omit [Std.TransOrd D] in
theorem cacheClean_does {id : UInt64} {set : OrderedSet D compare} {failed : Layout D → Prop} :
    Does (cacheClean id set) table fit
      (fun _ after => after = { table.layout with sets := table.layout.sets.insert id ⟨set, false⟩ })
      failed :=
  does_modify ⟨⟨rfl, rfl, rfl, rfl⟩, rfl⟩ rfl

omit [Std.TransOrd D] in
theorem cacheDirty_does {id : UInt64} {set : OrderedSet D compare} {failed : Layout D → Prop} :
    Does (cacheDirty id set) table fit
      (fun _ after =>
        after = { table.layout with sets := table.layout.sets.modify id fun _ => ⟨set, true⟩ })
      failed :=
  does_modify ⟨⟨rfl, rfl, rfl, rfl⟩, rfl⟩ rfl

omit [Std.TransOrd D] in
theorem touch_moves {id : UInt64} {cached : CachedSet D} {failed : Layout D → Prop}
    (cache : table.layout.CacheOrdered) (found : table.layout.sets.find? id = some cached) :
    Does (do
      modify fun table : SetTable σ D => { table with sets := table.sets.touch id }
      match (← get).sets.find? id with
      | some cached => return cached.set
      | none => throw (.invalidOperation "overflow set cache")) table fit
      (fun set after => Moves table.layout after ∧ after.records = table.layout.records ∧
        after.sets.find? id = some cached ∧ cached.set = set) failed := by
  have same := Lru.find?_touch table.layout.sets id
  have touch : Does (modify fun table : SetTable σ D => { table with sets := table.sets.touch id })
      table fit (fun _ after => after = { table.layout with sets := table.layout.sets.touch id })
      failed := does_modify ⟨⟨rfl, rfl, rfl, rfl⟩, rfl⟩ rfl
  refine does_bind touch fun _ after _ touched => ?_
  refine does_get_bind ?_
  have here : after.layout.sets.find? id = some cached := by
    rw [touched]
    exact (same id).trans found
  rw [show after.sets.find? id = _ from here]
  refine does_pure ⟨?_, ?_, here, rfl⟩
  · rw [touched]
    exact .single (.recache (Lru.bounded_touch cache.bounded id) (Lru.capacity_touch _ _)
      fun other => .inl (same other))
  · rw [touched]

theorem useOverflowSet_moves {key : Bytes} {id : UInt64} (cache : table.layout.CacheOrdered)
    (sound : fit → table.layout.Sound) (leads : table.layout.Leads key id) :
    Does (useOverflowSet id) table fit
      (fun set after => Moves table.layout after ∧
        after.records.find? (recordKey id) = table.layout.records.find? (recordKey id) ∧
        ∃ cached, after.sets.find? id = some cached ∧ cached.set = set)
      (Moves table.layout) := by
  refine does_get_bind ?_
  dsimp only
  split
  · rename_i present
    obtain ⟨cached, found⟩ := Option.isSome_iff_exists.1 present
    refine (touch_moves cache found).mono ?_ fun _ left => left
    rintro set last ⟨moves, records, here, same⟩
    exact ⟨moves, by rw [records], cached, here, same⟩
  · rename_i missing
    have absent : table.layout.sets.find? id = none :=
      Option.not_isSome_iff_eq_none.1 missing
    have readable : fit → ∃ list, table.layout.stored? id = some list := by
      intro fit
      have current := ((sound fit).coherent.current_of_leads leads).1
      rw [current?_of_absent absent] at current
      exact ⟨_, current⟩
    refine does_bind ((readRecord_does readable).mono (fun _ _ read => read) ?_) ?_
    · rintro _ rfl
      exact .refl
    rintro set after _ ⟨unchanged, bytes, located, decoded⟩
    rw [← unchanged] at cache sound leads absent located decoded ⊢
    have flushable : fit → after.layout.Flushable := fun fit => (sound fit).flushable
    refine does_bind ((makeRoom_moves cache flushable).mono (fun _ _ done => done)
      fun _ left => left) ?_
    rintro _ roomy _ ⟨moves, room, others⟩
    -- Making room writes only sets that are cached, so the record is what has been read.
    obtain ⟨still, record⟩ := others id absent
    have load := Move.load (moves.alike.leads_iff.2 leads) still (record.trans located)
      (moves.alike.codec_eq ▸ decoded) room
    refine does_bind cacheClean_does fun _ full _ filled => ?_
    rw [← filled] at load
    have reached : Moves after.layout full.layout := moves.tail load
    have found : full.layout.sets.find? id = some ⟨set, false⟩ := by
      rw [filled]
      exact (Lru.find?_insert room id id _).trans (if_pos rfl)
    refine (touch_moves (reached.cacheOrdered cache) found).mono ?_ fun _ left => left
    rintro answer last ⟨further, records, here, same⟩
    refine ⟨reached.trans further, ?_, _, here, same⟩
    rw [records, filled]
    exact record

theorem migrate_tries {key : Bytes} {set : OrderedSet D compare} (cache : table.layout.CacheOrdered)
    (flushable : fit → table.layout.Flushable) (opened : isOpen table.stores.primary = true)
    (vacant : ∀ id, ¬ table.layout.Leads key id) (ordered : set.Ordered) (nonempty : set.toList ≠ [])
    (setFits : fit → table.layout.codec.Fits set.toList) (full : ¬ table.layout.Spare key) :
    Tries (migrate key set) table fit
      (fun _ after => ∃ middle, Moves table.layout middle ∧ Change key set.toList middle after)
      (Moves table.layout)
      (fun after => ∃ middle, Moves table.layout middle ∧ Orphan key middle after) := by
  unfold migrate
  refine tries_bind ((makeRoom_moves cache flushable).tries.mono (fun _ _ done => done)
    (fun _ left => left) fun _ => False.elim) ?_
  intro _ roomy calm ⟨moves, notFull, _⟩
  refine tries_get_bind ?_
  have same : roomy.nextId = roomy.layout.nextId := rfl
  have setFits : fit → roomy.layout.codec.Fits set.toList := moves.alike.codec_eq ▸ setFits
  refine tries_bind ((writeRecord_does ordered setFits).tries.mono (fun _ _ done => done) ?_
    fun _ => False.elim) ?_
  · rintro _ rfl
    exact moves
  intro _ written quiet ⟨bytes, encoded, filed⟩
  have give : Does (modify fun table : SetTable σ D =>
      { table with nextId := roomy.nextId + 1, headerDirty := true }) written fit
      (fun _ after => after = { written.layout with nextId := roomy.nextId + 1 }) (fun _ => False) :=
    does_modify ⟨⟨rfl, rfl, rfl, rfl⟩, rfl⟩ rfl
  refine tries_bind (give.tries.mono (fun _ _ given => given) (fun _ => False.elim)
    fun _ => False.elim) fun _ given still layout => ?_
  rw [filed] at layout
  have opened : isOpen given.stores.primary = true :=
    still.primary_eq.trans (quiet.primary_eq.trans (calm.primary_eq.trans opened))
  have vacant : ∀ id, ¬ roomy.layout.Leads key id := fun id leads =>
    vacant id (moves.alike.leads_iff.1 leads)
  have full : ¬ roomy.layout.Spare key := fun spare => full fun other slot => by
    rw [← moves.alike.limit_eq]
    exact spare other ((moves.alike.slot?_eq key).trans slot)
  refine tries_attempt_bind (onPrimary_tries (LawfulTable.put key _) opened) ?_ ?_
  · intro _ placed _ ⟨_, slotted⟩
    rw [layout] at slotted
    refine cacheClean_does.mono ?_ fun _ impossible => impossible
    rintro _ last rfl
    rw [slotted]
    exact ⟨_, moves, .migrate vacant ordered nonempty encoded notFull full⟩
  · rintro failure left unchanged
    rw [layout] at unchanged
    -- No slot leads to the new record. It is removed again, or stays where nothing leads.
    dsimp only
    rw [Action.meets_bind, Action.meets_ignoring]
    have removal : Does (onOverflow (Table.remove (recordKey roomy.nextId))) left fit _ _ :=
      onOverflow_does (LawfulTable.remove (recordKey roomy.nextId))
    refine Action.Meets.mono removal ?_ ?_
    · intro _ last ⟨quiet, _, gone⟩
      rw [unchanged] at gone
      rw [Action.meets_bind, Action.meets_throw, gone]
      exact ⟨quiet.toKept, Nat.le_of_eq quiet.failures_eq.symm, _, moves, .removed full⟩
    · intro _ last ⟨rough, kept⟩
      rw [Action.meets_bind, Action.meets_throw, kept, unchanged]
      exact ⟨rough.toKept, rough.failures_le, _, moves, .left full⟩

omit [Std.TransOrd D] in
theorem release_tries {key : Bytes} {id : UInt64} {cached : CachedSet D}
    (opened : isOpen table.stores.primary = true) (leads : table.layout.Leads key id)
    (found : table.layout.sets.find? id = some cached) :
    Tries (release key id) table fit
      (fun _ after => Change key [] table.layout after ∧ after.nextId = table.layout.nextId ∧
        after.slot? key = none)
      (fun after => after = table.layout) (Unfile key table.layout) := by
  refine tries_bind ((onOverflow_does (LawfulTable.remove _)).tries.mono (fun _ _ done => done)
    (fun _ same => same) fun _ => False.elim) ?_
  intro _ removed calm ⟨_, gone⟩
  have opened : isOpen removed.stores.primary = true := calm.primary_eq.trans opened
  refine tries_attempt_bind (onPrimary_tries (LawfulTable.remove key) opened) ?_ ?_
  · intro _ vacated _ ⟨_, slotted⟩
    rw [gone] at slotted
    refine does_modify ⟨⟨rfl, rfl, rfl, rfl⟩, rfl⟩ ?_
    have layout : ({ vacated with sets := vacated.sets.erase id } : SetTable σ D).layout =
        { vacated.layout with sets := vacated.layout.sets.erase id } := rfl
    rw [layout, slotted]
    refine ⟨.release leads, rfl, ?_⟩
    rw [slot?, SortedMap.find?_erase, if_pos rfl]
    rfl
  · intro failure left same
    rw [gone] at same
    -- The slot still leads to the record that is gone, so the set has to be written again.
    dsimp only
    rw [Action.meets_bind, Action.meets_modify, Action.meets_bind, Action.meets_throw]
    have layout : ({ left with
        sets := left.sets.modify id fun cached => { cached with dirty := true } } :
          SetTable σ D).layout =
        { left.layout with
          sets := left.layout.sets.modify id fun cached => { cached with dirty := true } } := rfl
    refine ⟨⟨rfl, rfl, rfl, rfl⟩, Nat.le_refl _, ?_⟩
    rw [layout, same]
    exact .lost leads found

theorem writeBack_moves {id : UInt64} (cache : table.layout.CacheOrdered)
    (flushable : fit → table.layout.Flushable) :
    Does (writeBack id) table fit
      (fun _ after => Moves table.layout after ∧ ¬ after.Waits id ∧
        ∀ other, other ≠ id → after.sets.find? other = table.layout.sets.find? other)
      (Moves table.layout) := by
  refine does_get_bind ?_
  cases located : table.layout.sets.find? id with
  | none =>
    rw [show table.sets.find? id = none from located]
    refine does_pure ⟨.refl, ?_, fun _ _ => rfl⟩
    rintro ⟨cached, found, -⟩
    cases located.symm.trans found
  | some cached =>
    rw [show table.sets.find? id = some cached from located]
    dsimp only
    split
    · rename_i dirty
      have fitting : fit → table.layout.codec.Fits cached.set.toList := fun fit =>
        flushable fit id cached located dirty
      refine does_bind ((writeRecord_does (cache.ordered id cached located) fitting).mono
        (fun _ _ done => done) ?_) ?_
      · rintro _ rfl
        exact .refl
      rintro _ written _ ⟨bytes, encoded, filed⟩
      have others : ∀ other, other ≠ id →
          (table.layout.sets.modify id fun cached => { cached with dirty := false }).find? other =
            table.layout.sets.find? other := fun other different =>
        (Lru.find?_modify table.layout.sets id other _).trans (if_neg different)
      have here : (table.layout.sets.modify id fun cached => { cached with dirty := false }).find? id =
          some ⟨cached.set, false⟩ := by
        rw [Lru.find?_modify, if_pos rfl, located]
        rfl
      refine does_modify ⟨⟨rfl, rfl, rfl, rfl⟩, rfl⟩ ?_
      have layout : ({ written with
          sets := written.sets.modify id fun cached => { cached with dirty := false } } :
            SetTable σ D).layout =
          { written.layout with
            sets := written.layout.sets.modify id fun cached => { cached with dirty := false } } := rfl
      rw [layout, filed]
      refine ⟨.single (.writeBack located dirty encoded (Lru.bounded_modify cache.bounded id _) rfl others
        (.inr here)), ?_, others⟩
      rintro ⟨kept, found, waiting⟩
      cases here.symm.trans found
      cases waiting
    · rename_i clean
      refine does_pure ⟨.refl, ?_, fun _ _ => rfl⟩
      rintro ⟨kept, found, waiting⟩
      cases located.symm.trans found
      exact clean waiting

omit [Std.TransOrd D] in
theorem writeHeader_moves :
    Does writeHeader table fit
      (fun _ after => Moves table.layout after ∧ after.sets = table.layout.sets)
      (Moves table.layout) := by
  refine does_get_bind ?_
  split
  · refine does_bind ((onOverflow_does (LawfulTable.put (recordKey headerId)
      (Bytes.ofUInt64 table.nextId))).mono (fun _ _ done => done) ?_) ?_
    · rintro _ rfl
      exact .refl
    intro _ written _ ⟨_, filed⟩
    refine does_modify ⟨⟨rfl, rfl, rfl, rfl⟩, rfl⟩ ?_
    have layout : ({ written with headerDirty := false } : SetTable σ D).layout = written.layout := rfl
    rw [layout, filed]
    exact ⟨.single .announce, rfl⟩
  · exact does_pure ⟨.refl, rfl⟩

end AttributeIndex.SetTable
