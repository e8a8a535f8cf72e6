import AttributeIndex.Proofs.SetTable.Life

namespace AttributeIndex.SetTable

open Layout Observed Stores

variable {σ D : Type} [Ord D] [Table σ] [LawfulTable σ] {codec : Codec D} {stores : Stores σ}
  {name : String} {table again : SetTable σ D}

/-- The key had the set when its record was written last. Since then its record has stayed, and what
was changed has waited in the cache. -/
def LastWritten (stores : Stores σ) (name : String) (codec : Codec D) (events : List (Event D))
    (key : Bytes) (id : UInt64) (list : List D) : Prop :=
  ∃ (done rest : List (Event D)) (table : SetTable σ D) (map : SetMap D),
    events = done ++ rest ∧ stores.after name codec done = .opened table ∧
    Shows codec map table ∧ map.setOf key = list ∧
    table.layout.Leads key id ∧ ¬ table.layout.Waits id ∧
    ∀ more, more ≠ [] → more <+: rest → ∃ later : SetTable σ D,
      stores.after name codec (done ++ more) = .opened later ∧
      later.layout.Leads key id ∧ later.layout.Waits id ∧
      later.layout.records.find? (recordKey id) = table.layout.records.find? (recordKey id)

structure Recovers (stores : Stores σ) (name : String) (codec : Codec D) (events : List (Event D))
    (table again : SetTable σ D) (old map : SetMap D) : Prop where
  live : again.Live
  before : Shows codec old table
  shows : Shows codec map again
  fits : map.Fits codec
  keys_eq : map.keys = old.keys
  written : ∀ key, (∀ id, table.layout.Leads key id → ¬ table.layout.Waits id) →
    map.setOf key = old.setOf key
  waiting : ∀ key id, table.layout.Leads key id → table.layout.Waits id →
    LastWritten stores name codec events key id (map.setOf key)
  count_eq : again.count = (map.keys.map fun key => (map.setOf key).length).sum

theorem LastWritten.concat {events : List (Event D)} {event : Event D} {key : Bytes} {id : UInt64}
    {list : List D} (earlier : LastWritten stores name codec events key id list)
    {before after : SetTable σ D} (reached : stores.after name codec events = .opened before)
    (onward : stores.after name codec (events ++ [event]) = .opened after)
    (leads : after.layout.Leads key id) (waits : after.layout.Waits id)
    (same : after.layout.records.find? (recordKey id) = before.layout.records.find? (recordKey id)) :
    LastWritten stores name codec (events ++ [event]) key id list := by
  obtain ⟨done, rest, table, map, rfl, opened, shows, set, lead, idle, since⟩ := earlier
  refine ⟨done, rest ++ [event], table, map, List.append_assoc _ _ _, opened, shows, set, lead, idle,
    fun more nonempty front => ?_⟩
  rcases List.prefix_concat_iff.1 front with rfl | within
  · refine ⟨after, by rw [← List.append_assoc]; exact onward, leads, waits, same.trans ?_⟩
    by_cases empty : rest = []
    · subst empty
      rw [List.append_nil, opened] at reached
      cases reached
      rfl
    · obtain ⟨later, arrived, -, -, unwritten⟩ := since rest empty (List.prefix_refl _)
      cases reached.symm.trans arrived
      exact unwritten
  · exact since more nonempty within

variable [Std.TransOrd D]

theorem LastWritten.of_pass {events : List (Event D)} {event : Event D} {before after : SetTable σ D}
    {map : SetMap D} {ids : Nat} (models : Models codec map ids before.layout)
    (reached : stores.after name codec events = .opened before)
    (onward : stores.after name codec (events ++ [event]) = .opened after)
    (sameCodec : after.layout.codec = before.layout.codec) (pass : Pass before.layout after.layout)
    {key : Bytes} {id : UInt64} (leads : after.layout.Leads key id) (waits : after.layout.Waits id)
    (earlier : before.layout.Leads key id → before.layout.Waits id →
      LastWritten stores name codec events key id ((before.layout.stored? id).getD [])) :
    LastWritten stores name codec (events ++ [event]) key id
      ((after.layout.stored? id).getD []) := by
  obtain ⟨lead, same⟩ := pass.waits models.coherent leads waits
  have stored : after.layout.stored? id = before.layout.stored? id := by
    rw [stored?, stored?, sameCodec, same]
  rw [stored]
  by_cases still : before.layout.Waits id
  · exact (earlier lead still).concat reached onward leads waits same
  · -- The change was made just now, so the record holds the set as it was before.
    have current := (models.coherent.current_of_leads lead).1
    rw [models.coherent.stored_of_idle still, current, models.view_eq]
    refine ⟨events, [event], before, map, rfl, reached, models.shows, rfl, lead, still,
      fun more nonempty front => ?_⟩
    rw [← List.nil_append [event]] at front
    rcases List.prefix_concat_iff.1 front with rfl | none
    · exact ⟨after, onward, leads, waits, same⟩
    · exact absurd (List.prefix_nil.1 none) nonempty

theorem lastWritten_of_waits (faithful : codec.Faithful)
    (noSlots : contents stores.primary = .empty) (noRecords : contents stores.overflow = .empty)
    (events : List (Event D))
    (quiet : (stores.after name codec events).stores.failures = stores.failures)
    (short : events.length + 1 < 2 ^ 64) (reached : stores.after name codec events = .opened table)
    {key : Bytes} {id : UInt64} (leads : table.layout.Leads key id)
    (waits : table.layout.Waits id) :
    LastWritten stores name codec events key id ((table.layout.stored? id).getD []) := by
  induction events using List.reverseRecOn generalizing table with
  | nil => cases reached
  | append_singleton events event ih =>
    have onward := reached
    rw [List.length_append, List.length_singleton] at short
    have earlier := quiet_init quiet
    obtain ⟨keeps, leaves⟩ := quiet_after faithful noSlots noRecords events earlier (by omega)
    rw [Stores.after_concat] at quiet reached
    cases event with
    | reopen limit cacheSize =>
      obtain ⟨layout, map, hold⟩ := keeps.hold leaves
      rcases hold.next name limit cacheSize with ⟨opened, arrived, fresh⟩ | ⟨left, refused, _⟩
      · cases reached.symm.trans arrived
        -- Nothing waits in a table that has just been opened.
        exact absurd waits (fresh.idle id)
      · cases reached.symm.trans refused
    | call call =>
      cases holding : stores.after name codec events with
      | dropped left =>
        rw [holding] at reached
        cases reached
      | opened before =>
        have calm := earlier
        rw [holding] at reached keeps calm quiet
        cases reached
        cases keeps with
        | opened models fitted =>
          obtain ⟨next, following⟩ := afterCalls_models [call] models (by
            rw [List.length_singleton]
            omega)
          rcases (call_ran call models.coherent.cacheOrdered).passes with pass | ⟨_, _, more⟩
          · exact LastWritten.of_pass models holding onward
              (following.codec_eq.trans models.codec_eq.symm) pass leads waits
              (ih earlier (by omega) holding)
          · exact absurd (quiet.trans calm.symm) (Nat.ne_of_gt more)

/-- After a life in which no store call fails, a handle may be dropped at any moment. The next one
opens and shows all keys of the old one. A set is as it was at the drop unless changes of it waited in
the cache, and else as it was when its record was last written. All sets can be read, the count is
theirs, and no record id is given out that a slot leads to. Record ids have 64 bits, so the life must
be shorter. -/
theorem reopen_recovers (faithful : codec.Faithful) (noSlots : contents stores.primary = .empty)
    (noRecords : contents stores.overflow = .empty) (events : List (Event D))
    (reached : stores.after name codec events = .opened table) {limit cacheSize : Nat}
    (limited : 0 < limit) (cached : 0 < cacheSize)
    (quiet : (stores.after name codec (events ++ [.reopen limit cacheSize])).stores.failures =
      stores.failures)
    (short : events.length + 1 < 2 ^ 64) :
    ∃ again old map,
      stores.after name codec (events ++ [.reopen limit cacheSize]) = .opened again ∧
      Recovers stores name codec events table again old map ∧
      ∀ calls : List (Call D), events.length + 1 + calls.length < 2 ^ 64 → ∀ key id,
        (again.afterCalls calls).stores.Redirects key id →
          id.toNat < (again.afterCalls calls).nextId.toNat := by
  have earlier := quiet_init quiet
  have lastWritten : ∀ key id, table.layout.Leads key id → table.layout.Waits id →
      LastWritten stores name codec events key id ((table.layout.stored? id).getD []) := fun _ _ =>
    lastWritten_of_waits faithful noSlots noRecords events earlier short reached
  obtain ⟨keeps, leaves⟩ := quiet_after faithful noSlots noRecords events earlier short
  rw [Stores.after_concat, reached] at quiet ⊢
  rw [reached] at keeps leaves earlier
  cases keeps with
  | @opened old _ models fitted =>
    have coherent := models.coherent
    have hold : Hold codec _ _ _ (Holding.opened table).stores := .of_table models fitted leaves
    rcases hold.next name limit cacheSize with ⟨again, opened, fresh⟩ | ⟨left, refused, _, more⟩
    · refine ⟨again, old, table.layout.dropped.view, opened, ?_, ?_⟩
      · refine ⟨fresh.live, models.shows, fresh.models.shows, fresh.fits, ?_, ?_, ?_, ?_⟩
        · rw [← models.view_eq, keys_view, keys_view]
          rfl
        · intro key idle
          rw [coherent.setOf_dropped_of_idle idle, models.view_eq]
        · intro key id leads waits
          rw [setOf_dropped_of_leads leads]
          exact lastWritten key id leads waits
        · rw [count_eq fresh.models, SetMap.total_eq_sum]
      · intro calls room key id redirects
        obtain ⟨map, models⟩ := afterCalls_models calls fresh.models room
        exact (models.coherent.issued key id (leads_iff.2 redirects)).2
    · rw [refused] at quiet
      have increased := more limited cached
      rw [earlier, ← quiet] at increased
      exact absurd increased (Nat.lt_irrefl _)

def behind : List (Event UInt64) :=
  [.reopen 1 1, .call (.ask (.put [7] 5)), .call (.ask (.put [7] 3)), .call (.ask (.put [8] 1)),
    .call (.ask (.put [8] 2)), .call (.ask (.put [7] 4))]

theorem reopen_recovers_behind :
    ∃ table again old map,
      Stores.after ⟨Volatile.empty, Volatile.empty⟩ "ids" .uint64 behind = .opened table ∧
      table.layout.Waits 1 ∧
      Stores.after ⟨Volatile.empty, Volatile.empty⟩ "ids" .uint64 (behind ++ [.reopen 2 3]) =
        .opened again ∧
      Recovers ⟨Volatile.empty, Volatile.empty⟩ "ids" .uint64 behind table again old map := by
  obtain ⟨table, reached, dirty⟩ : ∃ table : SetTable Volatile UInt64,
      Stores.after ⟨Volatile.empty, Volatile.empty⟩ "ids" .uint64 behind = .opened table ∧
        (table.sets.find? 1).any CachedSet.dirty = true := ⟨_, rfl, by decide +kernel⟩
  have waits : table.layout.Waits 1 := (Option.any_eq_true _ _).1 dirty
  obtain ⟨again, old, map, opened, recovers, _⟩ := reopen_recovers Codec.uint64_faithful rfl rfl
    behind reached (by decide : 0 < 2) (by decide : 0 < 3) rfl (by decide)
  exact ⟨table, again, old, map, reached, waits, opened, recovers⟩

/-- A limit of zero is refused. -/
theorem not_reopen_recovers_unlimited :
    ∃ table : SetTable Volatile UInt64,
      Stores.after ⟨Volatile.empty, Volatile.empty⟩ "ids" .uint64 behind = .opened table ∧
      ¬ ∀ limit cacheSize, ∃ again,
        Stores.after ⟨Volatile.empty, Volatile.empty⟩ "ids" .uint64
          (behind ++ [.reopen limit cacheSize]) = .opened again := by
  refine ⟨_, rfl, fun opens => ?_⟩
  obtain ⟨again, opened⟩ := opens 0 1
  cases opened

end AttributeIndex.SetTable
