import AttributeIndex.Proofs.Index.Maps
import Mathlib.Data.Finset.Card

namespace AttributeIndex

namespace Codec

variable {α : Type} {codec : Codec α}

def Below (codec : Codec α) (first second : α) : Prop :=
  ∃ low high, codec.encode first = .ok low ∧ codec.encode second = .ok high ∧
    compare low high = .lt

theorem below_irrefl (value : α) : ¬ codec.Below value value := by
  rintro ⟨low, high, one, other, below⟩
  obtain rfl : low = high := Except.ok.inj (one.symm.trans other)
  simp [Std.ReflCmp.compare_self] at below

theorem Faithful.eq_of_encode {first second : α} {bytes : Bytes} (faithful : codec.Faithful)
    (one : codec.encode first = .ok bytes) (other : codec.encode second = .ok bytes) :
    first = second :=
  Except.ok.inj ((faithful first bytes one).symm.trans (faithful second bytes other))

theorem Faithful.decode_all {keys : List Bytes} (faithful : codec.Faithful)
    (encoded : ∀ key ∈ keys, ∃ value, codec.encode value = .ok key) :
    ∃ values, keys.mapM codec.decode = .ok values ∧
      values.map codec.encode = keys.map .ok := by
  induction keys with
  | nil => exact ⟨[], rfl, rfl⟩
  | cons key keys ih =>
    obtain ⟨⟨value, here⟩, others⟩ := List.forall_mem_cons.1 encoded
    obtain ⟨values, decoded, same⟩ := ih others
    refine ⟨value :: values, ?_, ?_⟩
    · rw [List.mapM_cons, faithful value key here, decoded]
      rfl
    · rw [List.map_cons, List.map_cons, here, same]

end Codec

/-! ## Pairs -/

abbrev Pairs (V : Type) := Finset (V × UInt64)

namespace Pairs

open Index

variable {V : Type} {codec : Codec V}

/-- The order in which pairs are listed: by encoded value, and by entry where the value is the same. -/
def Precedes (codec : Codec V) (first second : V × UInt64) : Prop :=
  codec.Below first.1 second.1 ∨ first.1 = second.1 ∧ first.2 < second.2

structure Mirrors (codec : Codec V) (pairs : Pairs V) (maps : Maps) : Prop where
  forwardProper : maps.forward.Proper
  reverseProper : maps.reverse.Proper
  agree : maps.Agree
  has_iff : ∀ key id, maps.forward.has key id = true ↔
    ∃ value, codec.encode value = .ok key ∧ (value, id) ∈ pairs
  encodes : ∀ pair ∈ pairs, ∃ key, codec.encode pair.1 = .ok key

variable {pairs : Pairs V} {maps : Maps} {value : V} {key : Bytes}

theorem mirrors_empty : Mirrors codec ∅ ⟨.empty, .empty⟩ where
  forwardProper _ _ found := by cases found
  reverseProper _ _ found := by cases found
  agree key entry := by
    constructor
    · intro present
      cases present
    · rintro ⟨_, _, present⟩
      cases present
  has_iff key id := by
    constructor
    · intro present
      cases present
    · rintro ⟨_, _, member⟩
      exact absurd member (Finset.notMem_empty _)
  encodes _ member := absurd member (Finset.notMem_empty _)

theorem Mirrors.has_iff_mem (mirrors : Mirrors codec pairs maps) (faithful : codec.Faithful)
    (encoded : codec.encode value = .ok key) {id : UInt64} :
    maps.forward.has key id = true ↔ (value, id) ∈ pairs := by
  rw [mirrors.has_iff]
  constructor
  · rintro ⟨other, same, member⟩
    obtain rfl := faithful.eq_of_encode encoded same
    exact member
  · exact fun member => ⟨value, encoded, member⟩

theorem Mirrors.mem_ids (mirrors : Mirrors codec pairs maps) (faithful : codec.Faithful)
    (encoded : codec.encode value = .ok key) {id : UInt64} :
    id ∈ maps.forward.setOf key ↔ (value, id) ∈ pairs := by
  rw [← SetMap.has_iff_mem]
  exact mirrors.has_iff_mem faithful encoded

theorem Mirrors.mem_keys (mirrors : Mirrors codec pairs maps) {id : UInt64} :
    key ∈ maps.reverse.setOf (entryKey id) ↔
      ∃ value, codec.encode value = .ok key ∧ (value, id) ∈ pairs := by
  rw [← SetMap.has_iff_mem, mirrors.agree, ← mirrors.has_iff]
  constructor
  · rintro ⟨holder, same, present⟩
    obtain rfl := Maps.entryKey_inj.1 same
    exact present
  · exact fun present => ⟨id, rfl, present⟩

theorem Mirrors.keys_encode (mirrors : Mirrors codec pairs maps) :
    ∀ entry ∈ maps.forward.entries, ∃ value, codec.encode value = .ok entry.1 := by
  rintro ⟨key, set⟩ member
  have found := SortedMap.find?_eq_some.2 member
  obtain ⟨holder, held⟩ := List.exists_mem_of_ne_nil set (mirrors.forwardProper key set found).1
  have present : maps.forward.has key holder = true := by
    rw [SetMap.has_iff_mem, SetMap.setOf, found]
    exact held
  obtain ⟨value, encoded, _⟩ := (mirrors.has_iff key holder).1 present
  exact ⟨value, encoded⟩

theorem Mirrors.values_of (mirrors : Mirrors codec pairs maps) (faithful : codec.Faithful)
    (id : UInt64) :
    ∃ values, (maps.reverse.setOf (entryKey id)).mapM codec.decode = .ok values ∧
      values.map codec.encode = (maps.reverse.setOf (entryKey id)).map .ok ∧
      values.Pairwise codec.Below ∧ ∀ value, value ∈ values ↔ (value, id) ∈ pairs := by
  obtain ⟨values, decoded, same⟩ := faithful.decode_all fun key member =>
    (mirrors.mem_keys.1 member).imp fun _ => And.left
  refine ⟨values, decoded, same, ?_, fun value => ?_⟩
  · have below : ((maps.reverse.setOf (entryKey id)).map Except.ok).Pairwise
        fun first second : Except Error Bytes =>
          ∃ low high, first = .ok low ∧ second = .ok high ∧ compare low high = .lt :=
      List.pairwise_map.2 ((mirrors.reverseProper.ascending _).imp
        fun order => ⟨_, _, rfl, rfl, order⟩)
    rw [← same] at below
    exact (List.pairwise_map (f := codec.encode)).1 below
  · constructor
    · intro listed
      have image := List.mem_map_of_mem (f := codec.encode) listed
      rw [same] at image
      obtain ⟨key, member, encoded⟩ := List.mem_map.1 image
      obtain ⟨other, others, held⟩ := mirrors.mem_keys.1 member
      obtain rfl := faithful.eq_of_encode encoded.symm others
      exact held
    · intro held
      obtain ⟨key, encoded⟩ := mirrors.encodes _ held
      have member := mirrors.mem_keys.2 ⟨value, encoded, held⟩
      have image : Except.ok key ∈ values.map codec.encode := same ▸ List.mem_map_of_mem member
      obtain ⟨other, listed, others⟩ := List.mem_map.1 image
      obtain rfl := faithful.eq_of_encode encoded others
      exact listed

theorem pairsOf_all {entries : List (Bytes × List UInt64)} (faithful : codec.Faithful)
    (encoded : ∀ entry ∈ entries, ∃ value, codec.encode value = .ok entry.1) :
    ∃ groups, entries.mapM (Maps.pairsOf codec) = .ok groups ∧
      groups.flatten.map (Prod.map codec.encode id) =
        (entries.flatMap fun entry => entry.2.map fun element => (entry.1, element)).map
          (Prod.map .ok id) := by
  induction entries with
  | nil => exact ⟨[], rfl, rfl⟩
  | cons entry entries ih =>
    obtain ⟨⟨value, here⟩, others⟩ := List.forall_mem_cons.1 encoded
    obtain ⟨groups, decoded, same⟩ := ih others
    refine ⟨entry.2.map (fun id => (value, id)) :: groups, ?_, ?_⟩
    · rw [List.mapM_cons, Maps.pairsOf, faithful value entry.1 here, decoded]
      rfl
    · rw [List.flatten_cons, List.map_append, same, List.flatMap_cons, List.map_append]
      congr 1
      rw [List.map_map, List.map_map]
      apply List.map_congr_left
      intro holder _
      exact Prod.ext here rfl

theorem Mirrors.listed (mirrors : Mirrors codec pairs maps) (faithful : codec.Faithful) :
    ∃ groups, maps.forward.entries.mapM (Maps.pairsOf codec) = .ok groups ∧
      groups.flatten.Pairwise (Precedes codec) ∧
      (∀ pair, pair ∈ groups.flatten ↔ pair ∈ pairs) ∧
      groups.flatten.length = maps.forward.total := by
  obtain ⟨groups, decoded, same⟩ := pairsOf_all faithful mirrors.keys_encode
  change _ = maps.forward.pairs.map (Prod.map Except.ok id) at same
  refine ⟨groups, decoded, ?_, fun pair => ?_, ?_⟩
  · have ordered : (maps.forward.pairs.map (Prod.map Except.ok id)).Pairwise
        fun first second : Except Error Bytes × UInt64 =>
          ∃ low high, first.1 = .ok low ∧ second.1 = .ok high ∧
            (compare low high = .lt ∨ low = high ∧ compare first.2 second.2 = .lt) :=
      List.pairwise_map.2 ((SetMap.pairwise_pairs mirrors.forwardProper).imp
        fun order => ⟨_, _, rfl, rfl, order⟩)
    rw [← same] at ordered
    apply ((List.pairwise_map (f := Prod.map codec.encode id)).1 ordered).imp
    rintro first second ⟨low, high, one, other, below | ⟨rfl, below⟩⟩
    · exact .inl ⟨low, high, one, other, below⟩
    · exact .inr ⟨faithful.eq_of_encode one other, Std.compare_eq_lt.1 below⟩
  · constructor
    · intro listed
      have image := List.mem_map_of_mem (f := Prod.map codec.encode id) listed
      rw [same] at image
      obtain ⟨⟨key, holder⟩, member, equal⟩ := List.mem_map.1 image
      obtain ⟨encoded, rfl⟩ := Prod.mk.inj equal
      exact (mirrors.has_iff_mem faithful encoded.symm).1 (SetMap.mem_pairs.1 member)
    · intro held
      obtain ⟨key, encoded⟩ := mirrors.encodes pair held
      have member : (key, pair.2) ∈ maps.forward.pairs :=
        SetMap.mem_pairs.2 ((mirrors.has_iff_mem faithful encoded).2 held)
      have image : (Except.ok key, pair.2) ∈ groups.flatten.map (Prod.map codec.encode id) :=
        same ▸ List.mem_map_of_mem member
      obtain ⟨other, listed, equal⟩ := List.mem_map.1 image
      obtain ⟨others, holders⟩ := Prod.mk.inj equal
      have unique : other = pair := Prod.ext (faithful.eq_of_encode others encoded) holders
      exact unique ▸ listed
  · have lengths := congrArg List.length same
    rw [List.length_map, List.length_map] at lengths
    exact lengths.trans (SetMap.length_pairs maps.forward)

theorem precedes_irrefl (pair : V × UInt64) : ¬ Precedes codec pair pair := by
  rintro (below | ⟨-, below⟩)
  · exact Codec.below_irrefl _ below
  · exact UInt64.lt_irrefl _ below

theorem card_eq_length {α : Type} [DecidableEq α] {set : Finset α} {list : List α}
    (nodup : list.Nodup) (listed : ∀ element, element ∈ list ↔ element ∈ set) :
    set.card = list.length := by
  rw [← List.toFinset_card_of_nodup nodup]
  congr 1
  ext element
  rw [List.mem_toFinset, listed]

variable [DecidableEq V]

theorem Mirrors.total_eq (mirrors : Mirrors codec pairs maps) (faithful : codec.Faithful) :
    maps.forward.total = pairs.card := by
  obtain ⟨groups, -, ordered, listed, length⟩ := mirrors.listed faithful
  have nodup : groups.flatten.Nodup := by
    apply ordered.imp
    rintro pair _ precedes rfl
    exact precedes_irrefl pair precedes
  rw [card_eq_length nodup listed, length]

theorem Mirrors.length_ids (mirrors : Mirrors codec pairs maps) (faithful : codec.Faithful)
    (encoded : codec.encode value = .ok key) :
    (maps.forward.setOf key).length = (pairs.filter fun pair => pair.1 = value).card := by
  have nodup : ((maps.forward.setOf key).map fun id => (value, id)).Nodup := by
    apply List.Nodup.map fun _ _ same => (Prod.mk.inj same).2
    apply (mirrors.forwardProper.ascending key).imp
    rintro first _ below rfl
    simp [Std.ReflCmp.compare_self] at below
  have listed : ∀ pair, pair ∈ (maps.forward.setOf key).map (fun id => (value, id)) ↔
      pair ∈ pairs.filter fun pair => pair.1 = value := by
    rintro ⟨other, holder⟩
    rw [List.mem_map, Finset.mem_filter]
    constructor
    · rintro ⟨id, member, same⟩
      cases same
      exact ⟨(mirrors.mem_ids faithful encoded).1 member, rfl⟩
    · rintro ⟨held, rfl⟩
      exact ⟨holder, (mirrors.mem_ids faithful encoded).2 held, rfl⟩
  rw [card_eq_length nodup listed, List.length_map]

theorem Mirrors.length_keys (mirrors : Mirrors codec pairs maps) (faithful : codec.Faithful)
    (id : UInt64) :
    (maps.reverse.setOf (entryKey id)).length = (pairs.filter fun pair => pair.2 = id).card := by
  obtain ⟨values, -, same, ordered, listed⟩ := mirrors.values_of faithful id
  have nodup : (values.map fun value => (value, id)).Nodup := by
    apply List.Nodup.map fun _ _ same => (Prod.mk.inj same).1
    apply ordered.imp
    rintro value _ below rfl
    exact Codec.below_irrefl value below
  have member : ∀ pair, pair ∈ values.map (fun value => (value, id)) ↔
      pair ∈ pairs.filter fun pair => pair.2 = id := by
    rintro ⟨value, holder⟩
    rw [List.mem_map, Finset.mem_filter]
    constructor
    · rintro ⟨other, member, equal⟩
      cases equal
      exact ⟨(listed value).1 member, rfl⟩
    · rintro ⟨held, rfl⟩
      exact ⟨value, (listed value).2 held, rfl⟩
  rw [card_eq_length nodup member, List.length_map, ← List.length_map (f := codec.encode), same,
    List.length_map]

/-! ## Requests -/

def Keyed (codec : Codec V) (value : V) (answered : Except Error (Index.Answer V) → Prop)
    (outcome : Except Error (Index.Answer V)) : Prop :=
  match codec.encode value with
  | .ok _ => answered outcome
  | .error failure => outcome = .error failure

/-- What a request has to come to, for an index of some attribute id that holds the pairs. -/
def Answers (name : String) (codec : Codec V) (pairs : Pairs V) :
    Index.Request V → Except Error (Index.Answer V) → Prop
  | .add value id => Keyed codec value (· = .ok (.flag (decide ((value, id) ∉ pairs))))
  | .remove value id => Keyed codec value (· = .ok (.flag (decide ((value, id) ∈ pairs))))
  | .dropEntry id => (· = .ok (.number (pairs.filter fun pair => pair.2 = id).card))
  | .lookup value => Keyed codec value fun outcome =>
    ∃ ids : List UInt64, outcome = .ok (.ids (ids.map .ok)) ∧ ids.Pairwise (· < ·) ∧
      ∀ id, id ∈ ids ↔ (value, id) ∈ pairs
  | .has value id => Keyed codec value (· = .ok (.flag (decide ((value, id) ∈ pairs))))
  | .countOf value =>
    Keyed codec value (· = .ok (.number (pairs.filter fun pair => pair.1 = value).card))
  | .reverseLookup id => fun outcome =>
    (∃ value, outcome = .ok (.value value) ∧ (value, id) ∈ pairs ∧
      ∀ other, (other, id) ∈ pairs → other = value ∨ codec.Below value other) ∨
    (∀ value, (value, id) ∉ pairs) ∧
      outcome = .error (.notFound (name ++ " of entry " ++ toString id.toNat))
  | .reverseValues id => fun outcome =>
    ∃ values, outcome = .ok (.values values) ∧ values.Pairwise codec.Below ∧
      ∀ value, value ∈ values ↔ (value, id) ∈ pairs
  | .entries => fun outcome =>
    ∃ list, outcome = .ok (.pairs list) ∧ list.Pairwise (Precedes codec) ∧
      ∀ pair, pair ∈ list ↔ pair ∈ pairs
  | .sync => (· = .ok .done)

def after (codec : Codec V) (pairs : Pairs V) : Index.Request V → Pairs V
  | .add value id =>
    match codec.encode value with
    | .ok _ => insert (value, id) pairs
    | .error _ => pairs
  | .remove value id => pairs.erase (value, id)
  | .dropEntry id => pairs.filter fun pair => pair.2 ≠ id
  | _ => pairs

omit [DecidableEq V] in
theorem keyed_bind {answered : Except Error (Index.Answer V) → Prop}
    {next : Bytes → Except Error (Index.Answer V)}
    (further : ∀ key, codec.encode value = .ok key → answered (next key)) :
    Keyed codec value answered (codec.encode value >>= next) := by
  unfold Keyed
  cases encoded : codec.encode value with
  | ok key => exact further key encoded
  | error failure => rfl

theorem Mirrors.has_eq (mirrors : Mirrors codec pairs maps) (faithful : codec.Faithful)
    (encoded : codec.encode value = .ok key) (id : UInt64) :
    maps.forward.has key id = decide ((value, id) ∈ pairs) := by
  rw [Bool.eq_iff_iff, decide_eq_true_iff]
  exact mirrors.has_iff_mem faithful encoded

theorem Mirrors.answers_reverseLookup (mirrors : Mirrors codec pairs maps)
    (faithful : codec.Faithful) (name : String) (id : UInt64) :
    Answers name codec pairs (.reverseLookup id) (maps.answer name codec (.reverseLookup id)) := by
  obtain ⟨values, decoded, same, ordered, listed⟩ := mirrors.values_of faithful id
  cases keys : maps.reverse.setOf (entryKey id) with
  | nil =>
    rw [keys] at same
    obtain rfl := List.map_eq_nil_iff.1 same
    refine .inr ⟨fun value held => absurd ((listed value).2 held) List.not_mem_nil, ?_⟩
    rw [Maps.answer, keys]
    rfl
  | cons key rest =>
    rw [keys] at same
    obtain ⟨value, others, rfl, encoded, -⟩ := List.map_eq_cons_iff.1 same
    refine .inl ⟨value, ?_, (listed value).1 (List.mem_cons_self ..), fun other held => ?_⟩
    · rw [Maps.answer, keys, List.head?_cons]
      dsimp only
      rw [faithful value key encoded]
      rfl
    · obtain rfl | later := List.mem_cons.1 ((listed other).2 held)
      · exact .inl rfl
      · exact .inr ((List.pairwise_cons.1 ordered).1 other later)

theorem Mirrors.answers (mirrors : Mirrors codec pairs maps) (faithful : codec.Faithful)
    (name : String) (request : Index.Request V) :
    Answers name codec pairs request (maps.answer name codec request) := by
  cases request with
  | add value id =>
    rw [Answers, Maps.answer]
    apply keyed_bind
    intro key encoded
    rw [mirrors.has_eq faithful encoded, decide_not]
    rfl
  | remove value id =>
    rw [Answers, Maps.answer]
    apply keyed_bind
    intro key encoded
    rw [mirrors.has_eq faithful encoded]
    rfl
  | dropEntry id =>
    show Except.ok (Index.Answer.number _) = _
    rw [mirrors.length_keys faithful]
  | lookup value =>
    rw [Answers, Maps.answer]
    apply keyed_bind
    intro key encoded
    refine ⟨maps.forward.setOf key, rfl, ?_, fun id => mirrors.mem_ids faithful encoded⟩
    exact (mirrors.forwardProper.ascending key).imp Std.compare_eq_lt.1
  | has value id =>
    rw [Answers, Maps.answer]
    apply keyed_bind
    intro key encoded
    rw [mirrors.has_eq faithful encoded]
    rfl
  | countOf value =>
    rw [Answers, Maps.answer]
    apply keyed_bind
    intro key encoded
    rw [mirrors.length_ids faithful encoded]
    rfl
  | reverseLookup id => exact mirrors.answers_reverseLookup faithful name id
  | reverseValues id =>
    obtain ⟨values, decoded, -, ordered, listed⟩ := mirrors.values_of faithful id
    refine ⟨values, ?_, ordered, listed⟩
    rw [Maps.answer, decoded]
    rfl
  | entries =>
    obtain ⟨groups, decoded, ordered, listed, -⟩ := mirrors.listed faithful
    refine ⟨groups.flatten, ?_, ordered, listed⟩
    rw [Maps.answer, decoded]
    rfl
  | sync => rfl

theorem Mirrors.put (mirrors : Mirrors codec pairs maps) {value : V} {key : Bytes} (id : UInt64)
    (encoded : codec.encode value = .ok key) :
    Mirrors codec (insert (value, id) pairs)
      ⟨maps.forward.put key id, maps.reverse.put (entryKey id) key⟩ where
  forwardProper := mirrors.forwardProper.put key id
  reverseProper := mirrors.reverseProper.put _ key
  agree := mirrors.agree.put key id
  has_iff := by
    intro other holder
    rw [SetMap.has_put, mirrors.has_iff]
    constructor
    · rintro (⟨rfl, rfl⟩ | ⟨held, same, member⟩)
      · exact ⟨value, encoded, Finset.mem_insert_self _ _⟩
      · exact ⟨held, same, Finset.mem_insert_of_mem member⟩
    · rintro ⟨held, same, member⟩
      obtain equal | member := Finset.mem_insert.1 member
      · cases equal
        exact .inl ⟨Except.ok.inj (same.symm.trans encoded), rfl⟩
      · exact .inr ⟨held, same, member⟩
  encodes := by
    intro pair member
    obtain rfl | member := Finset.mem_insert.1 member
    · exact ⟨key, encoded⟩
    · exact mirrors.encodes pair member

theorem Mirrors.remove (mirrors : Mirrors codec pairs maps) (faithful : codec.Faithful) {value : V}
    {key : Bytes} (id : UInt64) (encoded : codec.encode value = .ok key) :
    Mirrors codec (pairs.erase (value, id))
      ⟨maps.forward.remove key id, maps.reverse.remove (entryKey id) key⟩ where
  forwardProper := mirrors.forwardProper.remove key id
  reverseProper := mirrors.reverseProper.remove _ key
  agree := mirrors.agree.remove key id
  has_iff := by
    intro other holder
    rw [SetMap.has_remove, mirrors.has_iff]
    constructor
    · rintro ⟨⟨held, same, member⟩, different⟩
      refine ⟨held, same, Finset.mem_erase.2 ⟨fun equal => ?_, member⟩⟩
      cases equal
      exact different ⟨Except.ok.inj (same.symm.trans encoded), rfl⟩
    · rintro ⟨held, same, left⟩
      obtain ⟨different, member⟩ := Finset.mem_erase.1 left
      refine ⟨⟨held, same, member⟩, ?_⟩
      rintro ⟨rfl, rfl⟩
      exact different (Prod.ext (faithful.eq_of_encode same encoded) rfl)
  encodes pair member := mirrors.encodes pair (Finset.mem_of_mem_erase member)

omit [DecidableEq V] in
theorem Mirrors.drop (mirrors : Mirrors codec pairs maps) (id : UInt64) :
    Mirrors codec (pairs.filter fun pair => pair.2 ≠ id)
      ⟨maps.forward.removeAll (maps.reverse.setOf (entryKey id)) id,
        maps.reverse.take (entryKey id)⟩ where
  forwardProper := mirrors.forwardProper.removeAll _ id
  reverseProper := mirrors.reverseProper.store _ .nil
  agree := mirrors.agree.drop id
  has_iff := by
    intro other holder
    rw [SetMap.has_removeAll, mirrors.has_iff]
    constructor
    · rintro ⟨⟨held, same, member⟩, different⟩
      refine ⟨held, same, Finset.mem_filter.2 ⟨member, ?_⟩⟩
      rintro rfl
      exact different ⟨mirrors.mem_keys.2 ⟨held, same, member⟩, rfl⟩
    · rintro ⟨held, same, left⟩
      obtain ⟨member, different⟩ := Finset.mem_filter.1 left
      exact ⟨⟨held, same, member⟩, fun both => different both.2⟩
  encodes pair member := mirrors.encodes pair (Finset.mem_filter.1 member).1

theorem Mirrors.after (mirrors : Mirrors codec pairs maps) (faithful : codec.Faithful)
    (request : Index.Request V) :
    Mirrors codec (pairs.after codec request) (maps.after codec request) := by
  cases request with
  | add value id =>
    rw [Pairs.after, Maps.after]
    cases encoded : codec.encode value with
    | error failure => exact mirrors
    | ok key => exact mirrors.put id encoded
  | remove value id =>
    rw [Pairs.after, Maps.after]
    cases encoded : codec.encode value with
    | error failure =>
      have absent : (value, id) ∉ pairs := by
        intro held
        obtain ⟨key, other⟩ := mirrors.encodes _ held
        cases encoded.symm.trans other
      rw [Finset.erase_eq_of_notMem absent]
      exact mirrors
    | ok key => exact mirrors.remove faithful id encoded
  | dropEntry id => exact mirrors.drop id
  | _ => exact mirrors

structure Fits (codec : Codec V) (pairs : Pairs V) : Prop where
  ids : ∀ value, (pairs.filter fun pair => pair.1 = value).card ≤ Codec.maxFieldLength
  values : ∀ id, (pairs.filter fun pair => pair.2 = id).card ≤ Codec.maxFieldLength
  accepts : ∀ pair ∈ pairs, codec.Accepts pair.1

theorem Mirrors.fits (mirrors : Mirrors codec pairs maps) (faithful : codec.Faithful)
    (fits : pairs.Fits codec) : maps.Fits where
  forward := by
    intro key
    refine ⟨?_, fun id _ => Codec.uint64_accepts id⟩
    cases set : maps.forward.setOf key with
    | nil => exact Nat.zero_le _
    | cons id rest =>
      have present : id ∈ maps.forward.setOf key := set ▸ List.mem_cons_self ..
      obtain ⟨value, encoded, -⟩ := (mirrors.has_iff key id).1 (SetMap.has_iff_mem.2 present)
      rw [← set, mirrors.length_ids faithful encoded]
      exact fits.ids value
  reverse := by
    intro entry
    have held : ∀ key ∈ maps.reverse.setOf entry, ∃ id, entry = entryKey id ∧
        maps.forward.has key id = true :=
      fun key member => (mirrors.agree key entry).1 (SetMap.has_iff_mem.2 member)
    constructor
    · cases set : maps.reverse.setOf entry with
      | nil => exact Nat.zero_le _
      | cons key rest =>
        obtain ⟨id, rfl, -⟩ := held key (set ▸ List.mem_cons_self ..)
        rw [← set, mirrors.length_keys faithful]
        exact fits.values id
    · intro key member
      obtain ⟨id, -, present⟩ := held key member
      obtain ⟨value, encoded, member⟩ := (mirrors.has_iff key id).1 present
      obtain ⟨bytes, same, short⟩ := fits.accepts _ member
      obtain rfl := Except.ok.inj (encoded.symm.trans same)
      exact ⟨key, rfl, short⟩

theorem card_after_le (codec : Codec V) (pairs : Pairs V) (request : Index.Request V) :
    (pairs.after codec request).card ≤ pairs.card + 1 := by
  cases request with
  | add value id =>
    rw [Pairs.after]
    cases codec.encode value with
    | ok key => exact Finset.card_insert_le _ _
    | error failure => exact Nat.le_succ _
  | remove value id => exact (Finset.card_erase_le).trans (Nat.le_succ _)
  | dropEntry id => exact (Finset.card_filter_le _ _).trans (Nat.le_succ _)
  | _ => exact Nat.le_succ _

theorem fits_of_card (accepts : ∀ value, codec.Accepts value)
    (few : pairs.card ≤ Codec.maxFieldLength) : pairs.Fits codec :=
  ⟨fun _ => (Finset.card_filter_le _ _).trans few, fun _ => (Finset.card_filter_le _ _).trans few,
    fun pair _ => accepts pair.1⟩

end Pairs

end AttributeIndex
