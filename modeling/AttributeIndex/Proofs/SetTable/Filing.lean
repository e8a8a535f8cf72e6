import AttributeIndex.Proofs.SetTable.Calls

namespace AttributeIndex

open Observed
open SetTable (recordKey headerId)

namespace SetTable

/-! ## Filing a set -/

section Filing

variable {σ D : Type} [Ord D]

inductive Settlement (D : Type) [Ord D]
  | done (inserted : Bool)
  | outgrown (set : OrderedSet D compare)

variable [Table σ]

/-- Puts an element in the set of a key, except that a set which has to move is not filed yet. -/
def settle (key : Bytes) (element : D) : Action (SetTable σ D) Error (Settlement D) := do
  requireOpen
  match ← readSlot key with
  | none =>
    writeInline key (OrderedSet.empty.insert element).2
    return .done true
  | some (.inline set) =>
    let (inserted, set) := set.insert element
    unless inserted do return .done false
    if (← get).limit < set.size then
      makeRoom
      return .outgrown set
    else
      writeInline key set
      return .done true
  | some (.overflow redirect) =>
    let (inserted, set) := (← useOverflowSet redirect.recordId).insert element
    unless inserted do return .done false
    cacheDirty redirect.recordId set
    return .done true

def fileSet (set : OrderedSet D compare) : Action (SetTable σ D) Error UInt64 := do
  let id := (← get).nextId
  writeRecord id set
  modify fun table => { table with nextId := id + 1, headerDirty := true }
  return id

def redirectTo (key : Bytes) (id : UInt64) (set : OrderedSet D compare) :
    Action (SetTable σ D) Error Unit := do
  if let .error failure ← Action.attempt (onPrimary (Table.put key (Redirect.mk id).encode)) then
    Action.ignoring (onOverflow (Table.remove (recordKey id)))
    throw failure
  cacheClean id set

def completePut (key : Bytes) (id : UInt64) (set : OrderedSet D compare) :
    Action (SetTable σ D) Error Bool := do
  redirectTo key id set
  modify fun table => { table with count := table.count + 1 }
  return true

theorem migrate_eq (key : Bytes) (set : OrderedSet D compare) :
    (migrate key set : Action (SetTable σ D) Error Unit) = (do
      makeRoom
      let id ← fileSet set
      redirectTo key id set) := by
  simp only [fileSet, redirectTo, bind_assoc, pure_bind]
  rfl

theorem put_eq (key : Bytes) (element : D) :
    (put key element : Action (SetTable σ D) Error Bool) = (do
      match ← settle key element with
      | .done inserted =>
        if inserted then modify fun table => { table with count := table.count + 1 }
        return inserted
      | .outgrown set =>
        let id ← fileSet set
        completePut key id set) := by
  simp only [completePut]
  rw [put, settle, bind_assoc]
  refine congrArg _ (funext fun _ => ?_)
  rw [bind_assoc]
  refine congrArg _ (funext fun slot => ?_)
  cases slot with
  | none => simp only [bind_assoc, pure_bind, if_true]
  | some slot =>
    cases slot with
    | inline set =>
      simp only [migrate_eq]
      cases (set.insert element).1 with
      | false => simp
      | true =>
        simp only [if_true, bind_assoc]
        refine congrArg _ (funext fun table => ?_)
        split
        · simp
        · simp
    | overflow redirect =>
      simp only [bind_assoc]
      refine congrArg _ (funext fun used => ?_)
      cases (used.insert element).1 with
      | false => simp
      | true => simp

end Filing

/-- What putting an element did when it filed a set. The layouts are those before the call, before and
after the record of the set was written, and after the call. -/
structure Filing (D : Type) [Ord D] where
  id : UInt64
  set : OrderedSet D compare
  start : Layout D
  before : Layout D
  after : Layout D
  outcome : Except Error Bool
  left : Layout D

namespace Filing

variable {D : Type} [Ord D]

def Stored (filing : Filing D) : Prop :=
  ∃ bytes, filing.before.codec.set.encode filing.set = .ok bytes ∧
    filing.after =
      { filing.before with
        records := filing.before.records.insert (recordKey filing.id) bytes
        nextId := filing.id + 1 }

/-- The call leaves the record that was written, unless it failed and took the record back. -/
structure Done (filing : Filing D) : Prop where
  moves : Layout.Moves filing.start filing.before
  stored : filing.Stored
  left : filing.left.records = filing.after.records ∨
    filing.outcome.isOk = false ∧
      filing.left.records = filing.after.records.erase (recordKey filing.id)

end Filing

section Filings

variable {σ D : Type} [Ord D] [Table σ] [Observed σ]

def filing? (table : SetTable σ D) : Call D → Option (Filing D)
  | .ask (.put key element) =>
    match settle key element table with
    | (.ok (.outgrown set), ready) =>
      match fileSet set ready with
      | (.ok id, filed) =>
        some {
          id, set
          start := table.layout
          before := ready.layout
          after := filed.layout
          outcome := (put key element table).1
          left := (put key element table).2.layout }
      | _ => none
    | _ => none
  | _ => none

def filings (table : SetTable σ D) : List (Call D) → List (Filing D)
  | [] => []
  | call :: calls => (table.filing? call).toList ++ (call.perform table).2.filings calls

end Filings

open Layout

variable {σ D : Type} [Ord D] [Table σ] [LawfulTable σ] {table : SetTable σ D}

theorem fileSet_meets (set : OrderedSet D compare) :
    (fileSet set).Meets table
      (fun id after => id = table.nextId ∧ ∃ bytes, table.codec.set.encode set = .ok bytes ∧
        after.layout =
          { table.layout with
            records := table.layout.records.insert (recordKey table.nextId) bytes
            nextId := table.nextId + 1 })
      (fun _ after => after.nextId = table.nextId) := by
  rw [fileSet, Action.meets_bind, Action.meets_get, Action.meets_bind]
  refine (writeRecord_meets table.nextId set).mono ?_ ?_
  · intro _ written ⟨_, bytes, encoded, filed⟩
    rw [Action.meets_bind, Action.meets_modify, Action.meets_pure]
    exact ⟨rfl, bytes, encoded, congrArg (fun layout => { layout with nextId := table.nextId + 1 }) filed⟩
  · exact fun _ _ ⟨_, same, _⟩ => congrArg Layout.nextId same

theorem redirectTo_meets (key : Bytes) (id : UInt64) (set : OrderedSet D compare) :
    (redirectTo key id set).Meets table
      (fun _ after => after.nextId = table.nextId ∧ after.layout.records = table.layout.records)
      fun _ after => after.nextId = table.nextId ∧
        (after.layout.records = table.layout.records ∨
          after.layout.records = table.layout.records.erase (recordKey id)) := by
  rw [redirectTo, Action.meets_bind, Action.meets_attempt]
  refine (onPrimary_meets (LawfulTable.put key _)).mono ?_ ?_
  · intro _ placed ⟨_, _, _, slotted⟩
    have nextId := congrArg Layout.nextId slotted
    have records := congrArg Layout.records slotted
    exact ⟨nextId, records⟩
  · intro failure left ⟨_, _, _, same⟩
    dsimp only
    rw [Action.meets_bind, Action.meets_ignoring]
    have removal : Does (onOverflow (Table.remove (recordKey id))) left False _ _ :=
      onOverflow_does (LawfulTable.remove (recordKey id))
    refine Action.Meets.mono removal ?_ ?_
    · intro _ last ⟨_, _, gone⟩
      rw [same] at gone
      exact ⟨congrArg Layout.nextId gone, .inr (congrArg Layout.records gone)⟩
    · intro _ last ⟨_, kept⟩
      rw [same] at kept
      exact ⟨congrArg Layout.nextId kept, .inl (congrArg Layout.records kept)⟩

theorem completePut_meets (key : Bytes) (id : UInt64) (set : OrderedSet D compare) :
    (completePut key id set).Meets table
      (fun _ after => after.nextId = table.nextId ∧ after.layout.records = table.layout.records)
      fun _ after => after.nextId = table.nextId ∧
        (after.layout.records = table.layout.records ∨
          after.layout.records = table.layout.records.erase (recordKey id)) := by
  rw [completePut, Action.meets_bind]
  exact (redirectTo_meets key id set).mono (fun _ _ same => same) fun _ _ same => same

variable [Std.TransOrd D]

theorem settle_moves (key : Bytes) (element : D) (cache : table.layout.CacheOrdered) :
    Does (settle key element) table False
      (fun settlement after => after.nextId = table.layout.nextId ∧
        ∀ set, settlement = .outgrown set → Moves table.layout after)
      (Moves table.layout) := by
  refine Tries.toDoes (?_ : Tries _ _ _ _ _ fun _ => False) fun _ => False.elim
  refine openSlot_tries False.elim .refl fun after _ _ same => Does.tries ?_
  have stays : Moves table.layout after.layout := same ▸ .refl
  have place : ∀ set : OrderedSet D compare, set.Ordered → Does (do
      writeInline key set
      return (Settlement.done true : Settlement D)) after False
      (fun settlement after => after.nextId = table.layout.nextId ∧
        ∀ set, settlement = .outgrown set → Moves table.layout after)
      (Moves table.layout) := by
    intro set ordered
    refine does_bind ((writeInline_does ordered False.elim).mono (fun _ _ done => done) ?_) ?_
    · rintro _ rfl
      exact stays
    · rintro _ written _ ⟨bytes, -, placed⟩
      refine does_pure ⟨?_, fun _ impossible => by cases impossible⟩
      rw [placed, same]
  dsimp only
  cases slot : table.layout.slot? key with
  | none => exact place _ (OrderedSet.ordered_insert OrderedSet.ordered_empty element)
  | some entry =>
    cases entry with
    | inline set =>
      have larger := OrderedSet.ordered_insert (ordered_inline slot) element
      dsimp only
      generalize (set.insert element).1 = isNew
      generalize (set.insert element).2 = set' at larger ⊢
      cases isNew with
      | false =>
        exact does_pure ⟨congrArg Layout.nextId same, fun _ impossible => by cases impossible⟩
      | true =>
        rw [if_pos rfl]
        refine does_get_bind ?_
        split
        · rw [← same] at cache
          refine does_bind ((makeRoom_moves cache False.elim).mono (fun _ _ done => done)
            fun _ => stays.trans) fun _ roomy _ ⟨moves, _, _⟩ => ?_
          have reached : Moves table.layout roomy.layout := stays.trans moves
          exact does_pure ⟨reached.alike.nextId_eq, fun _ _ => reached⟩
        · exact place set' larger
    | overflow redirect =>
      rw [← same] at cache slot
      refine does_bind ((useOverflowSet_moves cache False.elim slot).mono (fun _ _ done => done)
        fun _ => stays.trans) fun set used _ ⟨moves, _, _⟩ => ?_
      have reached : Moves table.layout used.layout := stays.trans moves
      have sameId := reached.alike.nextId_eq
      cases (set.insert element).1 with
      | false => exact does_pure ⟨sameId, fun _ impossible => by cases impossible⟩
      | true =>
        rw [if_pos rfl]
        refine does_bind cacheDirty_does fun _ dirtied _ replaced => ?_
        refine does_pure ⟨?_, fun _ impossible => by cases impossible⟩
        rw [replaced]
        exact sameId

inductive Issues (table after : SetTable σ D) : Option (Filing D) → Prop
  | none (same : after.nextId = table.nextId) : Issues table after none
  | filed {filing : Filing D} (done : filing.Done) (start_eq : filing.start = table.layout)
      (id_eq : filing.id = table.nextId) (next : after.nextId = table.nextId + 1) :
      Issues table after (some filing)

theorem put_issues (key : Bytes) (element : D) (cache : table.layout.CacheOrdered) :
    Issues table (put key element table).2 (table.filing? (.ask (.put key element))) := by
  -- The id of a set that is filed is used up whatever comes of its slot.
  have settles := settle_moves key element cache
  rw [filing?, put_eq, Action.bind_apply]
  cases settled : settle key element table with
  | mk outcome ready =>
    cases outcome with
    | error failure =>
      obtain ⟨_, moves⟩ := Action.Meets.failed_of settles settled
      exact .none moves.alike.nextId_eq
    | ok settlement =>
      obtain ⟨_, sameId, moved⟩ := Action.Meets.ok_of settles settled
      have sameId : ready.nextId = table.nextId := sameId
      cases settlement with
      | done inserted => cases inserted <;> exact .none sameId
      | outgrown set =>
        have files : (fileSet set).Meets ready _ _ := fileSet_meets set
        dsimp only
        rw [Action.bind_apply]
        cases performed : fileSet set ready with
        | mk outcome filed =>
          cases outcome with
          | error failure => exact .none ((files.failed_of performed).trans sameId)
          | ok id =>
            obtain ⟨rfl, bytes, encoded, layout⟩ := files.ok_of performed
            have next : filed.nextId = table.nextId + 1 := by
              rw [← sameId]
              exact congrArg Layout.nextId layout
            have completes : (completePut key ready.nextId set).Meets filed _ _ :=
              completePut_meets key ready.nextId set
            have stored : ∀ outcome left, Filing.Stored
                ⟨ready.nextId, set, table.layout, ready.layout, filed.layout, outcome, left⟩ :=
              fun _ _ => ⟨bytes, encoded, layout⟩
            dsimp only
            cases completed : completePut key ready.nextId set filed with
            | mk outcome left =>
              cases outcome with
              | ok inserted =>
                obtain ⟨onward, same⟩ := completes.ok_of completed
                exact .filed ⟨moved set rfl, stored _ _, .inl same⟩ rfl sameId
                  (onward.trans next)
              | error failure =>
                obtain ⟨onward, same | gone⟩ := completes.failed_of completed
                · exact .filed ⟨moved set rfl, stored _ _, .inl same⟩ rfl sameId
                    (onward.trans next)
                · exact .filed ⟨moved set rfl, stored _ _, .inr ⟨rfl, gone⟩⟩ rfl sameId
                    (onward.trans next)

theorem call_nextId (call : Call D) (cache : table.layout.CacheOrdered)
    (other : ∀ key element, call ≠ .ask (.put key element)) :
    (call.perform table).2.nextId = table.nextId := by
  have sound : False → table.layout.Sound := False.elim
  have sameId : ∀ after : SetTable σ D, Moves table.layout after.layout →
      after.nextId = table.nextId := fun _ moves => moves.alike.nextId_eq
  have reads : ∀ request : Request D, request.isReading = true →
      request.perform.Meets table (fun _ after => after.nextId = table.nextId)
        fun _ after => after.nextId = table.nextId := fun request reading =>
    Action.Meets.mono (reading_moves reading cache) (fun _ after done => sameId after done.2)
      fun _ after left => sameId after left.2
  have unfiled : ∀ {key : Bytes} (after : SetTable σ D),
      (Moves table.layout after.layout ∨
        (∃ middle, Moves table.layout middle ∧ Unfile key middle after.layout) ∧
          failures table < failures after) → after.nextId = table.nextId := by
    rintro key after (moves | ⟨⟨middle, moves, unfile⟩, _⟩)
    · exact sameId after moves
    · exact unfile.nextId_eq.trans moves.alike.nextId_eq
  have kept : call.perform.Meets table (fun _ after => after.nextId = table.nextId)
      fun _ after => after.nextId = table.nextId := by
    cases call with
    | ask request =>
      refine Action.meets_discard.2 ?_
      cases request with
      | put key element => exact absurd rfl (other key element)
      | remove key element =>
        rw [Request.perform, Action.meets_bind]
        refine Action.Meets.mono (remove_tries cache sound) ?_ fun _ after left => unfiled after left.2
        rintro _ after ⟨_, _, middle, prepared, removes⟩
        exact removes.nextId_eq.trans prepared.moves.alike.nextId_eq
      | take key =>
        rw [Request.perform, Action.meets_bind]
        refine Action.Meets.mono (take_tries cache sound) ?_ fun _ after left => unfiled after left.2
        rintro _ after ⟨_, _, middle, prepared, takes⟩
        exact takes.nextId_eq.trans prepared.moves.alike.nextId_eq
      | contains | countOf | elements | firstElement | slots | sync => exact reads _ rfl
    | rawSlot key =>
      refine Action.meets_discard.2 (Action.Meets.mono (rawSlot_does key : Does _ _ False _ _) ?_ ?_)
      · exact fun _ _ done => congrArg Layout.nextId done.2
      · exact fun _ _ left => congrArg Layout.nextId left.2
    | close =>
      refine (close_moves cache (False.elim : False → _)).mono ?_ ?_
      · exact fun _ after done => sameId after done.2.1
      · exact fun _ after left => sameId after left.2.2.1
  exact kept.left

theorem call_issues (call : Call D) (cache : table.layout.CacheOrdered) :
    Issues table (call.perform table).2 (table.filing? call) := by
  cases call with
  | ask request =>
    cases request with
    | put key element =>
      have same : ((Call.ask (.put key element)).perform table).2 = (put key element table).2 := by
        refine (congrArg Prod.snd (Action.map_apply (fun _ => ()) (Request.perform _) table)).trans ?_
        rw [Request.perform, Action.bind_apply]
        cases put key element table with
        | mk outcome after => cases outcome <;> rfl
      rw [same]
      exact put_issues key element cache
    | remove | take | contains | countOf | elements | firstElement | slots | sync =>
      exact .none (call_nextId _ cache fun _ _ impossible => by cases impossible)
  | rawSlot | close => exact .none (call_nextId _ cache fun _ _ impossible => by cases impossible)

theorem afterCalls_nextId (calls : List (Call D)) (cache : table.layout.CacheOrdered) :
    (table.afterCalls calls).nextId = table.nextId + UInt64.ofNat (table.filings calls).length := by
  induction calls generalizing table with
  | nil => exact (UInt64.add_zero _).symm
  | cons call calls ih =>
    have issues := call_issues call cache
    have onward := ih ((call_ran call cache).cacheOrdered cache)
    rw [filings]
    refine onward.trans ?_
    generalize table.filing? call = filing? at *
    cases issues with
    | none same => rw [same, Option.toList_none, List.nil_append]
    | filed done start_eq id_eq next =>
      rw [next, Option.toList_some, List.length_append, List.length_singleton, UInt64.ofNat_add,
        UInt64.add_assoc]
      rfl

end SetTable

end AttributeIndex
