import AttributeIndex.Proofs.Index.Requests

namespace AttributeIndex

namespace SetTable

variable {σ D : Type} [Ord D] [Table σ] [LawfulTable σ]

/-- The table, as if it and its stores were never closed unless it is asked. -/
def revivedUnless (asked : Bool) (table : SetTable σ D) : SetTable σ D :=
  if asked then table
  else { table with
    stores := ⟨Observed.reopen table.stores.primary, Observed.reopen table.stores.overflow⟩
    isClosed := false }

theorem layout_revivedUnless (asked : Bool) (table : SetTable σ D) :
    (table.revivedUnless asked).layout = table.layout := by
  cases asked with
  | true => rfl
  | false =>
    simp only [layout, revivedUnless, Bool.false_eq_true, if_false, LawfulTable.contents_reopen]

theorem failures_revivedUnless (asked : Bool) (table : SetTable σ D) :
    failures (table.revivedUnless asked) = failures table := by
  cases asked with
  | true => rfl
  | false =>
    simp only [failures, revivedUnless, Bool.false_eq_true, if_false, LawfulTable.failures_reopen]

theorem live_revivedUnless {asked : Bool} {table : SetTable σ D}
    (live : asked = true → table.Live) : (table.revivedUnless asked).Live := by
  cases asked with
  | true => exact live rfl
  | false => exact ⟨rfl, LawfulTable.isOpen_reopen _, LawfulTable.isOpen_reopen _⟩

end SetTable

namespace Index

open AttributeIndex.Action

variable {σ V : Type}

def Request.asksForward : Request V → Bool
  | .reverseLookup _ | .reverseValues _ => false
  | _ => true

def Request.asksReverse : Request V → Bool
  | .lookup _ | .has .. | .countOf _ | .entries => false
  | _ => true

structure LiveFor [Observed σ] (request : Request V) (index : Index σ V) : Prop where
  isClosed_eq : index.isClosed = false
  forward : request.asksForward = true → index.forward.Live
  reverse : request.asksReverse = true → index.reverse.Live

theorem Kept.liveFor [Observed σ] {request : Request V} {before after : Index σ V}
    (kept : Kept before after) (live : before.LiveFor request) : after.LiveFor request :=
  ⟨kept.isClosed_eq.trans live.isClosed_eq,
    fun asked => kept.forward.live_iff.2 (live.forward asked),
    fun asked => kept.reverse.live_iff.2 (live.reverse asked)⟩

variable [Table σ] [LawfulTable σ] {request : Request V} {index : Index σ V} {α : Type}

def revivedBeside (request : Request V) (index : Index σ V) : Index σ V :=
  { index with
    forward := index.forward.revivedUnless request.asksForward
    reverse := index.reverse.revivedUnless request.asksReverse }

theorem LiveFor.live (live : index.LiveFor request) : (index.revivedBeside request).Live :=
  ⟨live.isClosed_eq, SetTable.live_revivedUnless live.forward,
    SetTable.live_revivedUnless live.reverse⟩

theorem failures_revivedBeside (request : Request V) (index : Index σ V) :
    failures (index.revivedBeside request) = failures index :=
  congrArg₂ (· + ·) (SetTable.failures_revivedUnless _ _) (SetTable.failures_revivedUnless _ _)

theorem Models.revivedBeside {codec : Codec V} {maps : Maps} {ids : Nat} (request : Request V)
    (models : Models codec maps ids index) :
    Models codec maps ids (index.revivedBeside request) where
  codec_eq := models.codec_eq
  forward := SetTable.layout_revivedUnless request.asksForward index.forward ▸ models.forward
  reverse := SetTable.layout_revivedUnless request.asksReverse index.reverse ▸ models.reverse

theorem commutes_requireOpen :
    Commutes (revivedBeside request) (requireOpen : Action (Index σ V) Error Unit) := by
  apply commutes_get_bind
  · exact fun _ => rfl
  · intro index
    split
    · exact commutes_throw _
    · exact commutes_pure _

theorem commutes_encode (value : V) :
    Commutes (revivedBeside request) (encode value : Action (Index σ V) Error Bytes) :=
  commutes_query fun _ => rfl

theorem commutes_onForward (asked : request.asksForward = true)
    (work : Action (SetTable σ UInt64) Error α) :
    Commutes (revivedBeside request) (onForward work : Action (Index σ V) Error α) := by
  intro index
  simp only [onForward, on_apply, revivedBeside, SetTable.revivedUnless, asked, if_true]

theorem commutes_onReverse (asked : request.asksReverse = true)
    (work : Action (SetTable σ Bytes) Error α) :
    Commutes (revivedBeside request) (onReverse work : Action (Index σ V) Error α) := by
  intro index
  simp only [onReverse, on_apply, revivedBeside, SetTable.revivedUnless, asked, if_true]

theorem commutes_keyed {value : V} {next : Bytes → Action (Index σ V) Error α}
    (further : ∀ key, Commutes (revivedBeside request) (next key)) :
    Commutes (revivedBeside request) (do requireOpen; next (← encode value)) :=
  commutes_bind commutes_requireOpen fun _ => commutes_bind (commutes_encode value) further

theorem commutes_reading (reading : request.isReading = true) :
    Commutes (revivedBeside request) (request.perform : Action (Index σ V) Error _) := by
  cases request with
  | add | remove | dropEntry => cases reading
  | lookup value =>
    refine commutes_bind (commutes_keyed fun key => ?_) fun _ => commutes_pure _
    exact commutes_bind (commutes_onForward rfl _) fun _ => commutes_pure _
  | has value id =>
    exact commutes_bind (commutes_keyed fun _ => commutes_onForward rfl _) fun _ => commutes_pure _
  | countOf value =>
    exact commutes_bind (commutes_keyed fun _ => commutes_onForward rfl _) fun _ => commutes_pure _
  | reverseLookup id =>
    refine commutes_bind (commutes_bind commutes_requireOpen fun _ =>
      commutes_bind (commutes_onReverse rfl _) fun first? => ?_) fun _ => commutes_pure _
    cases first? with
    | some key => exact commutes_query fun _ => rfl
    | none => exact commutes_get_bind (fun _ => rfl) fun _ => commutes_throw _
  | reverseValues id =>
    refine commutes_bind (commutes_bind commutes_requireOpen fun _ =>
      commutes_bind (commutes_onReverse rfl _) fun keys? => ?_) fun _ => commutes_pure _
    cases keys? with
    | some keys => exact commutes_query fun _ => rfl
    | none => exact commutes_pure _
  | entries =>
    refine commutes_bind (commutes_bind commutes_requireOpen fun _ =>
      commutes_bind (commutes_onForward rfl _) fun slots => ?_) fun _ => commutes_pure _
    exact commutes_bind (commutes_query fun _ => rfl) fun _ => commutes_pure _
  | sync =>
    refine commutes_bind (commutes_bind commutes_requireOpen fun _ =>
      commutes_bind (commutes_onForward rfl _) fun _ => commutes_onReverse rfl _) fun _ =>
        commutes_pure _

theorem reading_blames {codec : Codec V} {maps : Maps} {ids : Nat} {name : String} {failure : Error}
    {after : Index σ V} (reading : request.isReading = true) (models : Models codec maps ids index)
    (named : index.config.attributeId = name)
    (failed : request.perform index = (.error failure, after)) (live : index.LiveFor request)
    (unforeseen : Unforeseen name codec maps request failure) :
    failures index < failures after := by
  -- With the tables beside revived the index is live, so the failure is blamed on a store call.
  have beside : request.perform (index.revivedBeside request) =
      (.error failure, after.revivedBeside request) := by
    rw [commutes_reading reading, failed]
  have reads := reads_perform reading _ (models.revivedBeside request) named
  have more := (Meets.failed_of reads beside).1.blame live.live unforeseen
  rwa [failures_revivedBeside, failures_revivedBeside] at more

end Index

end AttributeIndex
