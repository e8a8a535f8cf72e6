import AttributeIndex.Proofs.Config.Validation
import AttributeIndex.Proofs.Index.Requests
import AttributeIndex.Proofs.SetTable.Refinement

namespace AttributeIndex

open Observed

namespace Index

variable {σ V : Type} [Table σ] [LawfulTable σ] {config : Config} {codec : Codec V}
  {tables : Tables σ} {forward : Layout UInt64} {reverse : Layout Bytes} {index : Index σ V}

structure TablesOpen (tables : Tables σ) : Prop where
  forward : isOpen tables.forward.primary = true
  forwardOverflow : isOpen tables.forward.overflow = true
  reverse : isOpen tables.reverse.primary = true
  reverseOverflow : isOpen tables.reverse.overflow = true

structure Resumed (config : Config) (codec : Codec V) (forward : Layout UInt64)
    (reverse : Layout Bytes) (tables : Tables σ) (index : Index σ V) : Prop where
  config_eq : index.config = config
  codec_eq : index.codec = codec
  isClosed_eq : index.isClosed = false
  valid : config.validate = .ok ()
  forward : SetTable.Resumed forward config.duplicateLimit tables.forward index.forward
  reverse : SetTable.Resumed reverse config.duplicateLimit tables.reverse index.reverse

theorem Resumed.models {maps : Maps} {ids : Nat}
    (resumed : Resumed config codec forward reverse tables index)
    (forwardModels : SetTable.Models .uint64 maps.forward ids forward)
    (reverseModels : SetTable.Models .bytes maps.reverse ids reverse) :
    Models codec maps ids index :=
  ⟨resumed.codec_eq, resumed.forward.models forwardModels, resumed.reverse.models reverseModels⟩

theorem Resumed.live (resumed : Resumed config codec forward reverse tables index)
    (opened : TablesOpen tables) : index.Live :=
  ⟨resumed.isClosed_eq, resumed.forward.live opened.forward opened.forwardOverflow,
    resumed.reverse.live opened.reverse opened.reverseOverflow⟩

structure TablesEmpty (tables : Tables σ) : Prop where
  forward : contents tables.forward.primary = .empty
  forwardOverflow : contents tables.forward.overflow = .empty
  reverse : contents tables.reverse.primary = .empty
  reverseOverflow : contents tables.reverse.overflow = .empty

theorem TablesEmpty.rests_forward (empty : TablesEmpty tables) :
    SetTable.Rests (.initial .uint64) tables.forward :=
  SetTable.rests_initial Codec.uint64_faithful empty.forward empty.forwardOverflow

theorem TablesEmpty.rests_reverse (empty : TablesEmpty tables) :
    SetTable.Rests (.initial .bytes) tables.reverse :=
  SetTable.rests_initial Codec.bytes_faithful empty.reverse empty.reverseOverflow

theorem Resumed.models_empty
    (resumed : Resumed config codec (.initial .uint64) (.initial .bytes) tables index) :
    Models codec ⟨.empty, .empty⟩ 1 index :=
  resumed.models (SetTable.models_initial Codec.uint64_faithful)
    (SetTable.models_initial Codec.bytes_faithful)

theorem openOver_meets (forwardRests : SetTable.Rests forward tables.forward)
    (reverseRests : SetTable.Rests reverse tables.reverse) (forwardCodec : forward.codec = .uint64)
    (reverseCodec : reverse.codec = .bytes) :
    (openOver config codec).Meets tables
      (fun index _ => Resumed config codec forward reverse tables index)
      (fun failure after => config.validate = .error failure ∨
        Stores.Faulted tables.forward after.forward ∨ Stores.Faulted tables.reverse after.reverse) := by
  rw [openOver, Action.meets_bind, Action.meets_ofResult]
  cases valid : config.validate with
  | error failure => exact .inl rfl
  | ok done =>
    obtain ⟨-, -, cached, limited, -⟩ := Config.validate_eq_ok.1 valid
    dsimp only
    rw [Action.meets_bind, Action.meets_on, ← forwardCodec]
    apply (SetTable.openOver_meets _ forwardRests.coherent forwardRests.uncached
      forwardRests.slots_eq forwardRests.records_eq limited cached).mono
    · intro first left resumedForward
      rw [Action.meets_bind, Action.meets_on, ← reverseCodec]
      apply (SetTable.openOver_meets _ reverseRests.coherent reverseRests.uncached
        reverseRests.slots_eq reverseRests.records_eq limited cached).mono
      · intro second right resumedReverse
        exact ⟨rfl, rfl, rfl, valid, resumedForward, resumedReverse⟩
      · intro failure after faulted
        exact .inr (.inr faulted)
    · intro failure after faulted
      exact .inr (.inl faulted)

theorem openOver_never (never : NeverFails σ) (forwardRests : SetTable.Rests forward tables.forward)
    (reverseRests : SetTable.Rests reverse tables.reverse) (forwardCodec : forward.codec = .uint64)
    (reverseCodec : reverse.codec = .bytes) (allOpen : TablesOpen tables)
    (valid : config.validate = .ok ()) :
    (openOver config codec).Meets tables
      (fun index _ => Resumed config codec forward reverse tables index) (fun _ _ => False) := by
  apply (openOver_meets forwardRests reverseRests forwardCodec reverseCodec).mono
  · exact fun _ _ resumed => resumed
  · rintro failure after (refused | faulted | faulted)
    · cases valid.symm.trans refused
    · exact Stores.not_faulted never allOpen.forward allOpen.forwardOverflow faulted
    · exact Stores.not_faulted never allOpen.reverse allOpen.reverseOverflow faulted

end Index

end AttributeIndex
