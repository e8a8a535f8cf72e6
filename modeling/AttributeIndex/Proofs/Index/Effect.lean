import AttributeIndex.Index.Basic
import AttributeIndex.Proofs.SetTable.Requests

namespace AttributeIndex.Index

open Observed

variable {σ V α β : Type} [Observed σ]

def failures (index : Index σ V) : Nat :=
  SetTable.failures index.forward + SetTable.failures index.reverse

structure Live (index : Index σ V) : Prop where
  isClosed_eq : index.isClosed = false
  forward : index.forward.Live
  reverse : index.reverse.Live

structure Kept (before after : Index σ V) : Prop where
  config_eq : after.config = before.config
  codec_eq : after.codec = before.codec
  isClosed_eq : after.isClosed = before.isClosed
  forward : SetTable.Kept before.forward after.forward
  reverse : SetTable.Kept before.reverse after.reverse

structure Quiet (before after : Index σ V) : Prop extends Kept before after where
  forward_eq : SetTable.failures after.forward = SetTable.failures before.forward
  reverse_eq : SetTable.failures after.reverse = SetTable.failures before.reverse

/-- Something failed; if the index is live and there is no excuse, then a store call did. -/
structure Rough (guilty : Prop) (before after : Index σ V) : Prop extends Kept before after where
  forward_le : SetTable.failures before.forward ≤ SetTable.failures after.forward
  reverse_le : SetTable.failures before.reverse ≤ SetTable.failures after.reverse
  blame : before.Live → guilty → failures before < failures after

theorem Kept.refl (index : Index σ V) : Kept index index :=
  ⟨rfl, rfl, rfl, .refl _, .refl _⟩

theorem Kept.trans {first second third : Index σ V} (before : Kept first second)
    (after : Kept second third) : Kept first third :=
  ⟨after.config_eq.trans before.config_eq, after.codec_eq.trans before.codec_eq,
    after.isClosed_eq.trans before.isClosed_eq, before.forward.trans after.forward,
    before.reverse.trans after.reverse⟩

theorem Kept.live_iff {before after : Index σ V} (kept : Kept before after) :
    after.Live ↔ before.Live := by
  constructor
  · intro live
    exact ⟨kept.isClosed_eq.symm.trans live.isClosed_eq, kept.forward.live_iff.1 live.forward,
      kept.reverse.live_iff.1 live.reverse⟩
  · intro live
    exact ⟨kept.isClosed_eq.trans live.isClosed_eq, kept.forward.live_iff.2 live.forward,
      kept.reverse.live_iff.2 live.reverse⟩

theorem Quiet.refl (index : Index σ V) : Quiet index index :=
  ⟨.refl index, rfl, rfl⟩

theorem Quiet.trans {first second third : Index σ V} (before : Quiet first second)
    (after : Quiet second third) : Quiet first third :=
  ⟨before.toKept.trans after.toKept, after.forward_eq.trans before.forward_eq,
    after.reverse_eq.trans before.reverse_eq⟩

theorem Quiet.failures_eq {before after : Index σ V} (quiet : Quiet before after) :
    failures after = failures before := by
  rw [failures, failures, quiet.forward_eq, quiet.reverse_eq]

theorem Quiet.rough {guilty : Prop} {first second third : Index σ V} (before : Quiet first second)
    (after : Rough guilty second third) : Rough guilty first third where
  toKept := before.toKept.trans after.toKept
  forward_le := before.forward_eq ▸ after.forward_le
  reverse_le := before.reverse_eq ▸ after.reverse_le
  blame live guilt := by
    rw [← before.failures_eq]
    exact after.blame (before.live_iff.2 live) guilt

theorem Rough.of_excused {guilty : Prop} {index : Index σ V} (excuse : index.Live → ¬ guilty) :
    Rough guilty index index :=
  ⟨.refl index, Nat.le_refl _, Nat.le_refl _, fun live guilt => absurd guilt (excuse live)⟩

def Does (action : Action (Index σ V) Error α) (index : Index σ V) (guilty : Error → Prop)
    (ok : α → Index σ V → Prop) (failed : Index σ V → Prop) : Prop :=
  action.Meets index (fun answer after => Quiet index after ∧ ok answer after)
    (fun failure after => Rough (guilty failure) index after ∧ failed after)

variable {index : Index σ V} {guilty : Error → Prop} {ok : α → Index σ V → Prop}
  {failed : Index σ V → Prop}

theorem does_pure {answer : α} (done : ok answer index) : Does (pure answer) index guilty ok failed :=
  ⟨.refl index, done⟩

theorem does_throw {failure : Error} (left : failed index) (excuse : index.Live → ¬ guilty failure) :
    Does (throw failure : Action (Index σ V) Error α) index guilty ok failed :=
  ⟨.of_excused excuse, left⟩

theorem does_bind {first : Action (Index σ V) Error β} {next : β → Action (Index σ V) Error α}
    {middle : β → Index σ V → Prop} (does : Does first index guilty middle failed)
    (further : ∀ answer after, Quiet index after → middle answer after →
      Does (next answer) after guilty ok failed) : Does (first >>= next) index guilty ok failed := by
  rw [Does, Action.meets_bind]
  apply Action.Meets.mono does
  · intro answer after ⟨quiet, reached⟩
    apply Action.Meets.mono (further answer after quiet reached)
    · exact fun _ _ ⟨calm, done⟩ => ⟨quiet.trans calm, done⟩
    · exact fun _ _ ⟨rough, left⟩ => ⟨quiet.rough rough, left⟩
  · exact fun _ _ => id

theorem does_get_bind {next : Index σ V → Action (Index σ V) Error α}
    (does : Does (next index) index guilty ok failed) :
    Does (get >>= next) index guilty ok failed := by
  rw [Does, Action.meets_bind, Action.meets_get]
  exact does

theorem does_query {answer : Index σ V → Except Error α}
    (done : ∀ value, answer index = .ok value → ok value index)
    (left : ∀ failure, answer index = .error failure → failed index ∧ ¬ guilty failure) :
    Does (Action.query answer) index guilty ok failed := by
  rw [Does, Action.meets_query]
  cases outcome : answer index with
  | ok value => exact ⟨.refl index, done value outcome⟩
  | error failure =>
    obtain ⟨stays, excuse⟩ := left failure outcome
    exact ⟨.of_excused fun _ => excuse, stays⟩

theorem requireOpen_does (stays : failed index) :
    Does requireOpen index guilty (fun _ after => after = index) failed := by
  apply does_get_bind
  split
  · rename_i shut
    apply does_throw stays
    intro live
    rw [live.isClosed_eq] at shut
    cases shut
  · exact does_pure rfl

theorem encode_does {value : V} (stays : failed index)
    (excuse : ∀ failure, index.codec.encode value = .error failure → ¬ guilty failure) :
    Does (encode value) index guilty
      (fun key after => after = index ∧ index.codec.encode value = .ok key) failed :=
  does_query (fun _ encoded => ⟨rfl, encoded⟩) fun failure refused => ⟨stays, excuse failure refused⟩

/-! ## The two directions -/

omit [Observed σ] in
theorem meets_onForward {work : Action (SetTable σ UInt64) Error α}
    {failed : Error → Index σ V → Prop} :
    (onForward work).Meets index ok failed ↔
      work.Meets index.forward (fun answer after => ok answer { index with forward := after })
        (fun failure after => failed failure { index with forward := after }) :=
  Action.meets_on

omit [Observed σ] in
theorem meets_onReverse {work : Action (SetTable σ Bytes) Error α}
    {failed : Error → Index σ V → Prop} :
    (onReverse work).Meets index ok failed ↔
      work.Meets index.reverse (fun answer after => ok answer { index with reverse := after })
        (fun failure after => failed failure { index with reverse := after }) :=
  Action.meets_on

theorem Quiet.onForward {forward : SetTable σ UInt64} (quiet : SetTable.Quiet index.forward forward) :
    Quiet index { index with forward } :=
  ⟨⟨rfl, rfl, rfl, quiet.toKept, .refl _⟩, quiet.failures_eq, rfl⟩

theorem Quiet.onReverse {reverse : SetTable σ Bytes} (quiet : SetTable.Quiet index.reverse reverse) :
    Quiet index { index with reverse } :=
  ⟨⟨rfl, rfl, rfl, .refl _, quiet.toKept⟩, rfl, quiet.failures_eq⟩

theorem Rough.onForward {fit : Prop} {forward : SetTable σ UInt64}
    (rough : SetTable.Rough fit index.forward forward) : Rough fit index { index with forward } where
  toKept := ⟨rfl, rfl, rfl, rough.toKept, .refl _⟩
  forward_le := rough.failures_le
  reverse_le := Nat.le_refl _
  blame live fit := Nat.add_lt_add_right (rough.blame live.forward fit) _

theorem Rough.onReverse {fit : Prop} {reverse : SetTable σ Bytes}
    (rough : SetTable.Rough fit index.reverse reverse) : Rough fit index { index with reverse } where
  toKept := ⟨rfl, rfl, rfl, .refl _, rough.toKept⟩
  forward_le := Nat.le_refl _
  reverse_le := rough.failures_le
  blame live fit := Nat.add_lt_add_left (rough.blame live.reverse fit) _

theorem Rough.mono {guilt guilt' : Prop} {before after : Index σ V} (rough : Rough guilt before after)
    (stronger : guilt' → guilt) : Rough guilt' before after :=
  ⟨rough.toKept, rough.forward_le, rough.reverse_le, fun live guilty =>
    rough.blame live (stronger guilty)⟩

theorem onForward_does {fit : Prop} {work : Action (SetTable σ UInt64) Error α}
    {done : α → Layout UInt64 → Prop} {left : Layout UInt64 → Prop}
    (does : SetTable.Does work index.forward fit done left) (fits : ∀ failure, guilty failure → fit)
    (stays : ∀ forward : SetTable σ UInt64, left forward.layout → failed { index with forward }) :
    Does (onForward work) index guilty
      (fun answer after => ∃ forward, after = { index with forward } ∧ done answer forward.layout)
      failed := by
  rw [Does, meets_onForward]
  apply Action.Meets.mono does
  · exact fun _ forward ⟨quiet, reached⟩ => ⟨.onForward quiet, forward, rfl, reached⟩
  · exact fun failure forward ⟨rough, reached⟩ =>
      ⟨(Rough.onForward rough).mono (fits failure), stays forward reached⟩

theorem onReverse_does {fit : Prop} {work : Action (SetTable σ Bytes) Error α}
    {done : α → Layout Bytes → Prop} {left : Layout Bytes → Prop}
    (does : SetTable.Does work index.reverse fit done left) (fits : ∀ failure, guilty failure → fit)
    (stays : ∀ reverse : SetTable σ Bytes, left reverse.layout → failed { index with reverse }) :
    Does (onReverse work) index guilty
      (fun answer after => ∃ reverse, after = { index with reverse } ∧ done answer reverse.layout)
      failed := by
  rw [Does, meets_onReverse]
  apply Action.Meets.mono does
  · exact fun _ reverse ⟨quiet, reached⟩ => ⟨.onReverse quiet, reverse, rfl, reached⟩
  · exact fun failure reverse ⟨rough, reached⟩ =>
      ⟨(Rough.onReverse rough).mono (fits failure), stays reverse reached⟩

end AttributeIndex.Index
