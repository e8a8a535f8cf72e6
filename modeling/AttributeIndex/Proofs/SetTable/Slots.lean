import AttributeIndex.Proofs.SetTable.Placement

namespace AttributeIndex

open Observed

namespace Layout

variable {D : Type} [Ord D]

def readSlot (layout : Layout D) (key : Bytes) : Except Error (Option (Slot D)) :=
  match layout.slots.find? key with
  | none => .ok none
  | some bytes =>
    if Redirect.hasForm bytes then
      (Redirect.decode bytes).map fun redirect => some (.overflow redirect)
    else (layout.codec.set.decode bytes).map fun set => some (.inline set)

theorem slot?_eq_readSlot (layout : Layout D) (key : Bytes) :
    layout.slot? key = (layout.readSlot key).toOption.join := by
  rw [slot?, readSlot]
  cases layout.slots.find? key with
  | none => rfl
  | some bytes =>
    rw [Option.bind_some, parse]
    dsimp only
    split
    · cases Redirect.decode bytes <;> rfl
    · cases layout.codec.set.decode bytes <;> rfl

theorem slot?_of_readSlot {layout : Layout D} {key : Bytes} {slot : Option (Slot D)}
    (read : layout.readSlot key = .ok slot) : layout.slot? key = slot := by
  rw [slot?_eq_readSlot, read]
  rfl

end Layout

theorem Codec.decode_redirect {D : Type} [Ord D] (codec : Codec D) (redirect : Redirect) :
    codec.set.decode redirect.encode =
      .error (.invalidFormat "count" "count <= rest.len() / 4") := by
  have parts : redirect.encode =
      Bytes.ofNat 4 1919247465 ++ ([0x72, 0x65, 0x63, 0x74] ++ Bytes.ofUInt64 redirect.recordId) := by
    rw [Redirect.encode, ← List.append_assoc]
    rfl
  have short : ¬ 1919247465 ≤
      ([0x72, 0x65, 0x63, 0x74] ++ Bytes.ofUInt64 redirect.recordId).length / 4 := by
    simp
  rw [parts]
  simp only [Codec.set, Codec.takeNumber_append (show 1919247465 ≤ maxFieldLength by decide), ok_bind,
    Error.requireFormat, decide_eq_false short, Bool.false_eq_true, if_false, error_bind]

namespace SetTable

variable {σ D : Type} [Ord D] [Table σ] [LawfulTable σ] {table : SetTable σ D}

/-! ## Reading and writing slots -/

theorem readSlot_meets (key : Bytes) :
    (readSlot key).Meets table
      (fun slot after => Quiet table after ∧ after.layout = table.layout ∧
        table.layout.readSlot key = .ok slot)
      (fun failure after => Kept table after ∧ after.layout = table.layout ∧
        (table.layout.readSlot key = .error failure ∨
          (isOpen table.stores.primary = true → failures table < failures after))) := by
  rw [readSlot, Action.meets_bind]
  refine (onPrimary_meets (LawfulTable.get key)).mono ?_ ?_
  · intro answer after ⟨quiet, _, found, same⟩
    have same : after.layout = table.layout := same
    have codec : after.codec = table.layout.codec := congrArg Layout.codec same
    rw [Layout.readSlot]
    cases located : table.layout.slots.find? key with
    | none =>
      obtain rfl : answer = none := found.trans located
      exact ⟨quiet, same, rfl⟩
    | some bytes =>
      obtain rfl : answer = some bytes := found.trans located
      dsimp only
      split
      · rw [Action.meets_bind, Action.meets_ofResult]
        cases Redirect.decode bytes with
        | ok redirect => exact ⟨quiet, same, rfl⟩
        | error failure => exact ⟨quiet.toKept, same, .inl rfl⟩
      · rw [Action.meets_bind, decodeSet, Action.meets_query, codec]
        cases table.layout.codec.set.decode bytes with
        | ok set => exact ⟨quiet, same, rfl⟩
        | error failure => exact ⟨quiet.toKept, same, .inl rfl⟩
  · exact fun _ _ ⟨kept, _, more, same⟩ => ⟨kept, same, .inr more⟩

theorem writeInline_meets (key : Bytes) (set : OrderedSet D compare) :
    (writeInline key set).Meets table
      (fun _ after => Quiet table after ∧ isOpen table.stores.primary = true ∧
        ∃ bytes, table.codec.set.encode set = .ok bytes ∧
          after.layout = { table.layout with slots := table.layout.slots.insert key bytes })
      (fun failure after => Kept table after ∧ after.layout = table.layout ∧
        (table.codec.set.encode set = .error failure ∨
          (isOpen table.stores.primary = true → failures table < failures after))) := by
  rw [writeInline, Action.meets_bind, encodeSet, Action.meets_query]
  cases encoded : table.codec.set.encode set with
  | error failure => exact ⟨.refl table, rfl, .inl rfl⟩
  | ok bytes =>
    refine (onPrimary_meets (LawfulTable.put key bytes)).mono ?_ ?_
    · exact fun _ after ⟨quiet, opened, _, written⟩ => ⟨quiet, opened, bytes, rfl, written⟩
    · exact fun _ after ⟨kept, _, more, same⟩ => ⟨kept, same, .inr more⟩

theorem writeRecord_meets (id : UInt64) (set : OrderedSet D compare) :
    (writeRecord id set).Meets table
      (fun _ after => Quiet table after ∧ ∃ bytes, table.codec.set.encode set = .ok bytes ∧
        after.layout =
          { table.layout with records := table.layout.records.insert (recordKey id) bytes })
      (fun failure after => Kept table after ∧ after.layout = table.layout ∧
        (table.codec.set.encode set = .error failure ∨
          (table.Live → failures table < failures after))) := by
  rw [writeRecord, Action.meets_bind, encodeSet, Action.meets_query]
  cases encoded : table.codec.set.encode set with
  | error failure => exact ⟨.refl table, rfl, .inl rfl⟩
  | ok bytes =>
    have put : Does (onOverflow (Table.put (recordKey id) bytes)) table True _ _ :=
      onOverflow_does (LawfulTable.put (recordKey id) bytes)
    refine Action.Meets.mono put ?_ ?_
    · exact fun _ after ⟨quiet, _, written⟩ => ⟨quiet, bytes, rfl, written⟩
    · exact fun _ after ⟨rough, same⟩ =>
        ⟨rough.toKept, same, .inr fun live => rough.blame live trivial⟩

theorem makeRoom_nextId :
    makeRoom.Meets table (fun _ after => after.nextId = table.nextId) fun _ _ => True := by
  rw [makeRoom, Action.meets_bind, Action.meets_get]
  split
  · rw [Action.meets_bind, Action.meets_get]
    dsimp only
    split
    · rename_i id cached _
      rw [Action.meets_bind, Action.meets_modify]
      split
      · rw [Action.meets_bind, Action.meets_attempt]
        refine (writeRecord_meets id cached.set).mono ?_ ?_
        · intro _ after ⟨_, _, _, written⟩
          exact congrArg Layout.nextId written
        · exact fun _ _ _ => trivial
      · rfl
    · rfl
  · rfl

theorem migrate_meets (key : Bytes) (set : OrderedSet D compare) :
    (migrate key set).Meets table
      (fun _ after => isOpen after.stores.primary = true ∧
        after.layout.slots.find? key = some (Redirect.mk table.nextId).encode)
      fun _ _ => True := by
  rw [migrate, Action.meets_bind]
  refine makeRoom_nextId.mono (fun _ roomy sameId => ?_) fun _ _ _ => trivial
  rw [Action.meets_bind, Action.meets_get, Action.meets_bind]
  refine (writeRecord_meets roomy.nextId set).mono (fun _ written _ => ?_) fun _ _ _ => trivial
  rw [Action.meets_bind, Action.meets_modify, Action.meets_bind, Action.meets_attempt]
  refine (onPrimary_meets (LawfulTable.put key _)).mono ?_ ?_
  · intro _ placed ⟨quiet, opened, _, slotted⟩
    refine ⟨quiet.primary_eq.trans opened, ?_⟩
    have slots := congrArg (fun layout => layout.slots.find? key) slotted
    refine slots.trans ((SortedMap.find?_insert _ _ _ _).trans ((if_pos rfl).trans ?_))
    rw [sameId]
  · intro failure left _
    dsimp only
    rw [Action.meets_bind, Action.meets_ignoring]
    exact Action.Meets.intro (fun _ _ _ => trivial) fun _ _ _ => trivial

/-- Sets and redirects are told apart by their bytes alone, whatever elements the sets have and how
many, and both are read as what was written. So unless a store call fails, a slot is read as the set
or the redirect that was put there; of a set, the codec has the last word on its elements. -/
theorem slots_unambiguous [Std.TransOrd D] (codec : Codec D) :
    (∀ set bytes, set.Ordered → codec.set.encode set = .ok bytes →
      Redirect.hasForm bytes = false) ∧
    (∀ redirect : Redirect, Redirect.hasForm redirect.encode = true ∧
      Redirect.decode redirect.encode = .ok redirect ∧
      codec.set.decode redirect.encode =
        .error (.invalidFormat "count" "count <= rest.len() / 4")) ∧
    (∀ bytes redirect, Redirect.decode bytes = .ok redirect → redirect.encode = bytes) ∧
    (∀ (table after : SetTable σ D) key set, table.codec = codec → set.Ordered →
      writeInline key set table = (.ok (), after) →
        ∃ bytes, codec.set.encode set = .ok bytes ∧
          (readSlot key).Meets after
            (fun slot _ => ∃ read, codec.set.decode bytes = .ok read ∧ slot = some (.inline read))
            (fun failure last =>
              codec.set.decode bytes = .error failure ∨ failures after < failures last) ∧
          (codec.Faithful → ∃ read, codec.set.decode bytes = .ok read ∧ read.toList = set.toList)) ∧
    ∀ (table after : SetTable σ D) key set, migrate key set table = (.ok (), after) →
      (readSlot key).Meets after (fun slot _ => slot = some (.overflow ⟨table.nextId⟩))
        fun _ last => failures after < failures last := by
  refine ⟨fun set bytes ordered => Codec.hasForm_encode_set ordered,
    fun redirect => ⟨redirect.hasForm_encode, redirect.decode_encode, codec.decode_redirect redirect⟩,
    fun bytes redirect => Redirect.encode_of_decode, ?_, ?_⟩
  · rintro table after key set rfl ordered performed
    obtain ⟨quiet, opened, bytes, encoded, written⟩ := (writeInline_meets key set).ok_of performed
    have form := Codec.hasForm_encode_set ordered encoded
    have stands : after.layout.readSlot key =
        (table.codec.set.decode bytes).map fun set => some (.inline set) := by
      rw [Layout.readSlot, written, SortedMap.find?_insert, if_pos rfl]
      simp only [form, Bool.false_eq_true, if_false]
      rfl
    refine ⟨bytes, encoded, (readSlot_meets key).mono ?_ ?_, fun faithful =>
      Codec.decode_encode_set faithful ordered encoded⟩
    · intro slot last ⟨_, _, read⟩
      rw [stands] at read
      cases decoded : table.codec.set.decode bytes with
      | error failure => simp [decoded, Except.map] at read
      | ok set => exact ⟨set, rfl, by simpa [decoded, Except.map, eq_comm] using read⟩
    · intro failure last ⟨_, _, cause⟩
      refine cause.imp (fun refused => ?_) fun more => more (quiet.primary_eq.trans opened)
      rw [stands] at refused
      cases decoded : table.codec.set.decode bytes with
      | error other => simpa [decoded, Except.map] using refused
      | ok set => simp [decoded, Except.map] at refused
  · intro table after key set performed
    obtain ⟨opened, redirected⟩ := (migrate_meets key set).ok_of performed
    have stands : after.layout.readSlot key = .ok (some (.overflow ⟨table.nextId⟩)) := by
      rw [Layout.readSlot, redirected]
      simp [Except.map]
    refine (readSlot_meets key).mono ?_ ?_
    · intro slot last ⟨_, _, read⟩
      exact (Except.ok.inj (stands.symm.trans read)).symm
    · intro failure last ⟨_, _, cause⟩
      rw [stands] at cause
      exact cause.resolve_left (fun refused => by cases refused) opened

def vacant {D : Type} [Ord D] (name : String) (codec : Codec D) (limit cacheSize : Nat) :
    SetTable Volatile D where
  name := name
  codec := codec
  limit := limit
  stores := ⟨.ofEntries .empty, .ofEntries .empty⟩
  sets := .empty cacheSize
  nextId := 1
  headerDirty := false
  count := 0
  isClosed := false

theorem slots_unambiguous_tag :
    let set : OrderedSet Bytes compare := (OrderedSet.empty.insert Redirect.tag).2
    set.Ordered ∧
    Codec.bytes.set.encode set = .ok ([0, 0, 0, 1, 0, 0, 0, 8] ++ Redirect.tag) ∧
    ([0, 0, 0, 1, 0, 0, 0, 8] ++ Redirect.tag).length = Redirect.size ∧
    Redirect.hasForm ([0, 0, 0, 1, 0, 0, 0, 8] ++ Redirect.tag) = false ∧
    (∃ after, writeInline [7] set (vacant "names" .bytes 1 1) = (.ok (), after) ∧
      ∃ bytes, Codec.bytes.set.encode set = .ok bytes ∧ (readSlot [7]).Meets after
        (fun slot _ => ∃ read, Codec.bytes.set.decode bytes = .ok read ∧ slot = some (.inline read))
        fun failure last =>
          Codec.bytes.set.decode bytes = .error failure ∨ failures after < failures last) ∧
    ∃ after, migrate [7] set (vacant "names" .bytes 1 1) = (.ok (), after) ∧
      (readSlot [7]).Meets after (fun slot _ => slot = some (.overflow ⟨1⟩))
        fun _ last => failures after < failures last := by
  intro set
  have ordered : set.Ordered := OrderedSet.ordered_insert OrderedSet.ordered_empty _
  obtain ⟨neverForm, -, -, inline, moved⟩ :=
    @slots_unambiguous Volatile Bytes _ _ _ inferInstance Codec.bytes
  have encoded : Codec.bytes.set.encode set =
      .ok ([0, 0, 0, 1, 0, 0, 0, 8] ++ Redirect.tag) := by decide +kernel
  refine ⟨ordered, encoded, rfl, neverForm set _ ordered encoded, ⟨_, rfl, ?_⟩, _, rfl, ?_⟩
  · obtain ⟨bytes, written, reads, -⟩ := inline (vacant "names" .bytes 1 1) _ [7] set rfl ordered rfl
    exact ⟨bytes, written, reads⟩
  · exact moved (vacant "names" .bytes 1 1) _ [7] set rfl

end SetTable

end AttributeIndex
