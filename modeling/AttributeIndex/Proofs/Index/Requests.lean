import AttributeIndex.Proofs.Index.Effect
import AttributeIndex.Proofs.Index.Maps
import AttributeIndex.Proofs.OrderedSet.Walk

namespace AttributeIndex.Index

section

variable {σ V : Type} [Observed σ]

def maps (index : Index σ V) : Maps :=
  ⟨index.forward.layout.view, index.reverse.layout.view⟩

structure Models (codec : Codec V) (maps : Maps) (ids : Nat) (index : Index σ V) : Prop where
  codec_eq : index.codec = codec
  forward : SetTable.Models .uint64 maps.forward ids index.forward.layout
  reverse : SetTable.Models .bytes maps.reverse ids index.reverse.layout

variable {codec : Codec V} {maps : Maps} {ids : Nat} {index : Index σ V} {guilty : Error → Prop}

theorem Models.maps_eq (models : Models codec maps ids index) : index.maps = maps := by
  unfold Index.maps
  rw [models.forward.view_eq, models.reverse.view_eq]

theorem Models.later (models : Models codec maps ids index) {more : Nat} (enough : ids ≤ more) :
    Models codec maps more index :=
  ⟨models.codec_eq, models.forward.later enough, models.reverse.later enough⟩

theorem Models.withForward (models : Models codec maps ids index) {forward : SetTable σ UInt64}
    {map : SetMap UInt64} (changed : SetTable.Models .uint64 map ids forward.layout) :
    Models codec { maps with forward := map } ids { index with forward } :=
  ⟨models.codec_eq, changed, models.reverse⟩

structure Settled (before after : Index σ V) : Prop where
  codec_eq : after.codec = before.codec
  forward : SetTable.Settled before.forward.layout after.forward.layout
  reverse : SetTable.Settled before.reverse.layout after.reverse.layout

theorem Models.refl (models : Models codec maps ids index) : Settled index index :=
  ⟨rfl, .refl models.forward.coherent, .refl models.reverse.coherent⟩

theorem Settled.trans {first second third : Index σ V} (before : Settled first second)
    (after : Settled second third) : Settled first third :=
  ⟨after.codec_eq.trans before.codec_eq, before.forward.trans after.forward,
    before.reverse.trans after.reverse⟩

theorem Models.settled {after : Index σ V} (models : Models codec maps ids index)
    (settled : Settled index after) : Models codec maps ids after :=
  ⟨settled.codec_eq.trans models.codec_eq, models.forward.settled settled.forward,
    models.reverse.settled settled.reverse⟩

theorem readForward_does {α : Type} {work : Action (SetTable σ UInt64) Error α} {done : α → Prop}
    (models : Models codec maps ids index)
    (does : SetTable.Does work index.forward maps.Fits
      (fun answer after => done answer ∧ SetTable.Settled index.forward.layout after)
      (SetTable.Settled index.forward.layout))
    (fits : ∀ failure, guilty failure → maps.Fits) :
    Does (onForward work) index guilty (fun answer after => done answer ∧ Settled index after)
      (Settled index) := by
  have settled : ∀ forward : SetTable σ UInt64,
      SetTable.Settled index.forward.layout forward.layout → Settled index { index with forward } :=
    fun forward settled => ⟨rfl, settled, .refl models.reverse.coherent⟩
  apply Action.Meets.mono (onForward_does does fits settled)
  · rintro answer _ ⟨quiet, forward, rfl, reached, same⟩
    exact ⟨quiet, reached, settled forward same⟩
  · exact fun _ _ left => left

theorem readReverse_does {α : Type} {work : Action (SetTable σ Bytes) Error α} {done : α → Prop}
    (models : Models codec maps ids index)
    (does : SetTable.Does work index.reverse maps.Fits
      (fun answer after => done answer ∧ SetTable.Settled index.reverse.layout after)
      (SetTable.Settled index.reverse.layout))
    (fits : ∀ failure, guilty failure → maps.Fits) :
    Does (onReverse work) index guilty (fun answer after => done answer ∧ Settled index after)
      (Settled index) := by
  have settled : ∀ reverse : SetTable σ Bytes,
      SetTable.Settled index.reverse.layout reverse.layout → Settled index { index with reverse } :=
    fun reverse settled => ⟨rfl, .refl models.forward.coherent, settled⟩
  apply Action.Meets.mono (onReverse_does does fits settled)
  · rintro answer _ ⟨quiet, reverse, rfl, reached, same⟩
    exact ⟨quiet, reached, settled reverse same⟩
  · exact fun _ _ left => left

theorem keyed_does {α : Type} {value : V} {next : Bytes → Action (Index σ V) Error α}
    {ok : α → Index σ V → Prop} {failed : Index σ V → Prop} (models : Models codec maps ids index)
    (stays : failed index)
    (excuse : ∀ failure, codec.encode value = .error failure → ¬ guilty failure)
    (further : ∀ key, codec.encode value = .ok key → Does (next key) index guilty ok failed) :
    Does (do requireOpen; next (← encode value)) index guilty ok failed := by
  rw [← models.codec_eq] at excuse further
  apply does_bind (requireOpen_does stays)
  rintro _ _ _ rfl
  apply does_bind (encode_does stays excuse)
  rintro key _ _ ⟨rfl, encoded⟩
  exact further key encoded

end

def Unforeseen {V : Type} (name : String) (codec : Codec V) (maps : Maps) (request : Request V)
    (failure : Error) : Prop :=
  maps.Fits ∧ maps.answer name codec request ≠ .error failure

variable {σ V : Type} [Table σ] [LawfulTable σ]

def Reads {α : Type} (name : String) (codec : Codec V) (maps : Maps) (ids : Nat) (request : Request V)
    (action : Action (Index σ V) Error α) (wrap : α → Answer V) : Prop :=
  ∀ index : Index σ V, Models codec maps ids index → index.config.attributeId = name →
    Does action index (Unforeseen name codec maps request)
      (fun result after => maps.answer name codec request = .ok (wrap result) ∧ Settled index after)
      (Settled index)

variable {codec : Codec V} {maps : Maps} {ids : Nat} {index : Index σ V} {name : String}

theorem reads_lookup (value : V) :
    Reads name codec maps ids (.lookup value) (lookup value : Action (Index σ V) Error _)
      fun walk => .ids (Cursor.rest walk).1 := by
  intro index models _
  apply keyed_does models models.refl
  · intro failure refused unforeseen
    apply unforeseen.2
    rw [Maps.answer, refused]
    rfl
  · intro key encoded
    apply does_bind (readForward_does models
      (SetTable.elements_models models.forward Maps.Fits.forward) fun _ => And.left)
    rintro ids? after _ ⟨⟨found, ordered⟩, same⟩
    have yields : (Cursor.rest (OrderedSet.Walk.start (ids?.getD .empty))).1 =
        (maps.forward.setOf key).map .ok := by
      rw [SetTable.setOf_of_elements found]
      apply OrderedSet.Walk.rest_start
      cases ids? with
      | none => exact OrderedSet.ordered_empty
      | some set => exact ordered set rfl
    apply does_pure
    refine ⟨?_, same⟩
    dsimp only
    rw [Maps.answer, encoded, yields]
    rfl

theorem reads_has (value : V) (id : UInt64) :
    Reads name codec maps ids (.has value id) (has value id : Action (Index σ V) Error _) .flag := by
  intro index models _
  apply keyed_does models models.refl
  · intro failure refused unforeseen
    apply unforeseen.2
    rw [Maps.answer, refused]
    rfl
  · intro key encoded
    apply Action.Meets.mono (readForward_does models
      (SetTable.contains_models models.forward Maps.Fits.forward) fun _ => And.left)
    · rintro answer after ⟨quiet, found, same⟩
      rw [Maps.answer, encoded, found]
      exact ⟨quiet, rfl, same⟩
    · exact fun _ _ left => left

theorem reads_countOf (value : V) :
    Reads name codec maps ids (.countOf value) (countOf value : Action (Index σ V) Error _)
      .number := by
  intro index models _
  apply keyed_does models models.refl
  · intro failure refused unforeseen
    apply unforeseen.2
    rw [Maps.answer, refused]
    rfl
  · intro key encoded
    apply Action.Meets.mono (readForward_does models
      (SetTable.countOf_models models.forward Maps.Fits.forward) fun _ => And.left)
    · rintro answer after ⟨quiet, counted, same⟩
      rw [Maps.answer, encoded, counted]
      exact ⟨quiet, rfl, same⟩
    · exact fun _ _ left => left

theorem reads_reverseLookup (id : UInt64) :
    Reads name codec maps ids (.reverseLookup id)
      (reverseLookup id : Action (Index σ V) Error _) .value := by
  intro index models named
  apply does_bind (requireOpen_does models.refl)
  rintro _ _ _ rfl
  apply does_bind (readReverse_does models
    (SetTable.firstElement_models models.reverse Maps.Fits.reverse) fun _ => And.left)
  intro first? after quiet ⟨found, same⟩
  cases first? with
  | some key =>
    apply does_query
    · intro value decoded
      rw [same.codec_eq, models.codec_eq] at decoded
      refine ⟨?_, same⟩
      rw [Maps.answer, ← found]
      dsimp only
      rw [decoded]
      rfl
    · intro failure refused
      rw [same.codec_eq, models.codec_eq] at refused
      refine ⟨same, fun unforeseen => unforeseen.2 ?_⟩
      rw [Maps.answer, ← found]
      dsimp only
      rw [refused]
      rfl
  | none =>
    apply does_get_bind
    apply does_throw same
    intro _ unforeseen
    apply unforeseen.2
    rw [Maps.answer, ← found, quiet.config_eq, named]
    rfl

theorem reads_reverseValues (id : UInt64) :
    Reads name codec maps ids (.reverseValues id)
      (reverseValues id : Action (Index σ V) Error _) .values := by
  intro index models _
  apply does_bind (requireOpen_does models.refl)
  rintro _ _ _ rfl
  apply does_bind (readReverse_does models
    (SetTable.elements_models models.reverse Maps.Fits.reverse) fun _ => And.left)
  intro keys? after _ ⟨⟨found, _⟩, same⟩
  have listed := SetTable.setOf_of_elements found
  cases keys? with
  | none =>
    apply does_pure
    rw [Maps.answer, listed]
    exact ⟨rfl, same⟩
  | some keys =>
    apply does_query
    · intro values decoded
      rw [same.codec_eq, models.codec_eq] at decoded
      refine ⟨?_, same⟩
      rw [Maps.answer, listed, Option.getD_some, decoded]
      rfl
    · intro failure refused
      rw [same.codec_eq, models.codec_eq] at refused
      refine ⟨same, fun unforeseen => unforeseen.2 ?_⟩
      rw [Maps.answer, listed, Option.getD_some, refused]
      rfl

theorem reads_entries :
    Reads name codec maps ids .entries (entries : Action (Index σ V) Error _) .pairs := by
  intro index models _
  apply does_bind (requireOpen_does models.refl)
  rintro _ opened _ rfl
  apply does_bind (readForward_does models
    (SetTable.slots_models models.forward Maps.Fits.forward) fun _ => And.left)
  intro slots after _ ⟨listed, same⟩
  have decoded : Does (Action.query fun index : Index σ V => slots.mapM fun entry => do
        let value ← index.codec.decode entry.1
        return entry.2.toList.map fun id => (value, id)) after (Unforeseen name codec maps .entries)
      (fun groups last => maps.forward.entries.mapM (Maps.pairsOf codec) = .ok groups ∧ last = after)
      (Settled opened) := by
    have groups : (slots.mapM fun entry => do
          let value ← after.codec.decode entry.1
          return entry.2.toList.map fun id => (value, id)) =
        maps.forward.entries.mapM (Maps.pairsOf codec) := by
      rw [← listed, List.mapM_map, same.codec_eq, models.codec_eq]
      rfl
    apply does_query
    · intro answer answered
      exact ⟨groups.symm.trans answered, rfl⟩
    · intro failure refused
      refine ⟨same, fun unforeseen => unforeseen.2 ?_⟩
      rw [Maps.answer, ← groups, refused]
      rfl
  apply does_bind decoded
  rintro groups _ _ ⟨listed, rfl⟩
  apply does_pure
  rw [Maps.answer, listed]
  exact ⟨rfl, same⟩

theorem reads_sync :
    Reads name codec maps ids .sync (sync : Action (Index σ V) Error _) fun _ => .done := by
  intro index models _
  apply does_bind (requireOpen_does models.refl)
  rintro _ _ _ rfl
  apply does_bind (readForward_does models
    ((SetTable.sync_models models.forward Maps.Fits.forward).mono
      (fun _ _ settled => ⟨trivial, settled⟩) fun _ settled => settled) fun _ => And.left)
  intro _ half _ ⟨_, settled⟩
  have models := models.settled settled
  apply Action.Meets.mono (readReverse_does models
    ((SetTable.sync_models models.reverse Maps.Fits.reverse).mono
      (fun _ _ settled => ⟨trivial, settled⟩) fun _ settled => settled) fun _ => And.left)
  · exact fun _ _ ⟨quiet, _, further⟩ => ⟨quiet, rfl, settled.trans further⟩
  · exact fun _ _ ⟨rough, further⟩ => ⟨rough, settled.trans further⟩

theorem reads_perform {request : Request V} (reading : request.isReading = true) :
    Reads name codec maps ids request (request.perform : Action (Index σ V) Error _)
      fun answer => answer := by
  intro index models named
  cases request with
  | add value id => cases reading
  | remove value id => cases reading
  | dropEntry id => cases reading
  | lookup value =>
    apply does_bind (reads_lookup value index models named)
    exact fun _ _ _ done => does_pure done
  | has value id =>
    apply does_bind (reads_has value id index models named)
    exact fun _ _ _ done => does_pure done
  | countOf value =>
    apply does_bind (reads_countOf value index models named)
    exact fun _ _ _ done => does_pure done
  | reverseLookup id =>
    apply does_bind (reads_reverseLookup id index models named)
    exact fun _ _ _ done => does_pure done
  | reverseValues id =>
    apply does_bind (reads_reverseValues id index models named)
    exact fun _ _ _ done => does_pure done
  | entries =>
    apply does_bind (reads_entries index models named)
    exact fun _ _ _ done => does_pure done
  | sync =>
    apply does_bind (reads_sync index models named)
    exact fun _ _ _ done => does_pure done

end AttributeIndex.Index
