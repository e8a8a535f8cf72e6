import AttributeIndex.Proofs.Bytes
import AttributeIndex.Proofs.SetTable.Browsing
import AttributeIndex.Proofs.SetTable.Rearrangement

namespace AttributeIndex

open Observed
open SetTable (recordKey headerId storedSize?)

namespace Stores

variable {σ : Type} [Observed σ]

structure Still (before after : Stores σ) : Prop where
  primary : Unchanged before.primary after.primary
  overflow : Unchanged before.overflow after.overflow

def failures (stores : Stores σ) : Nat :=
  Observed.failures stores.primary + Observed.failures stores.overflow

def Faulted (before after : Stores σ) : Prop :=
  isOpen before.primary = true → isOpen before.overflow = true → failures before < failures after

theorem Still.trans {first second third : Stores σ} (before : Still first second)
    (after : Still second third) : Still first third :=
  ⟨before.primary.trans after.primary, before.overflow.trans after.overflow⟩

theorem Still.faulted {first second third : Stores σ} (before : Still first second)
    (after : Faulted second third) : Faulted first third := by
  intro primary overflow
  have counted := after (before.primary.isOpen_eq.trans primary)
    (before.overflow.isOpen_eq.trans overflow)
  rw [failures, failures, before.primary.failures_eq, before.overflow.failures_eq] at counted
  exact counted

theorem not_faulted (never : NeverFails σ) {before after : Stores σ}
    (primary : isOpen before.primary = true) (overflow : isOpen before.overflow = true) :
    ¬ Faulted before after := by
  intro faulted
  have counted := faulted primary overflow
  rw [failures, failures, never, never, never, never] at counted
  omega

end Stores

def leadsTo? (records : SortedMap Bytes Bytes) (slot : Bytes) : Option Bytes :=
  if Redirect.hasForm slot then
    (Redirect.decode slot).toOption.bind fun redirect => records.find? (recordKey redirect.recordId)
  else some slot

def announced? (records : SortedMap Bytes Bytes) (slot : Bytes) : Option Nat :=
  (leadsTo? records slot).bind storedSize?

def announcedTotal (slots records : SortedMap Bytes Bytes) : Nat :=
  (slots.entries.map fun entry => (announced? records entry.2).getD 0).sum

/-! ## The next id -/

namespace Layout

def resumedId (announced : UInt64) (last? : Option UInt64) : UInt64 :=
  match last? with
  | some last => max announced (last + 1)
  | none => announced

def announcedId (records : SortedMap Bytes Bytes) : UInt64 :=
  match records.find? (recordKey headerId) with
  | some header => header.toUInt64
  | none => headerId + 1

def idAfter (records : SortedMap Bytes Bytes) : UInt64 :=
  resumedId (announcedId records) (records.keys.getLast?.map Bytes.toUInt64)

structure Numbered (records : SortedMap Bytes Bytes) : Prop where
  header : ∀ header, records.find? (recordKey headerId) = some header → header.length = 8
  last : ∀ key, records.keys.getLast? = some key → key.length = 8

variable {records : SortedMap Bytes Bytes}

theorem le_last {id last : UInt64} {bytes : Bytes}
    (found : records.find? (recordKey id) = some bytes)
    (final : records.keys.getLast? = some (recordKey last)) : id.toNat ≤ last.toNat := by
  have member : recordKey id ∈ records.keys := SortedMap.mem_keys.2 ⟨bytes, found⟩
  have parts : records.keys.dropLast ++ [recordKey last] = records.keys :=
    List.dropLast_append_getLast? _ final
  have ascending : records.keys.Pairwise fun first second => compare first second = .lt :=
    List.pairwise_map.2 records.sorted
  rw [← parts] at member ascending
  rcases List.mem_append.1 member with earlier | same
  · have below := (List.pairwise_append.1 ascending).2.2 _ earlier _ (List.mem_singleton.2 rfl)
    rw [recordKey, recordKey, Bytes.compare_ofUInt64] at below
    exact Nat.le_of_lt (Nat.compare_eq_lt.1 below)
  · rw [recordKey_inj.1 (List.mem_singleton.1 same)]

theorem Numbered.exists_last (numbered : Numbered records) {key : Bytes}
    (final : records.keys.getLast? = some key) :
    ∃ last bytes, key = recordKey last ∧ records.find? (recordKey last) = some bytes := by
  obtain ⟨bytes, found⟩ := SortedMap.mem_keys.1 (List.mem_of_getLast? final)
  rw [← Bytes.ofUInt64_toUInt64 (numbered.last key final)] at found ⊢
  exact ⟨_, bytes, rfl, found⟩

theorem announcedId_of_header {header : Bytes}
    (found : records.find? (recordKey headerId) = some header) :
    announcedId records = header.toUInt64 := by
  rw [announcedId, found]

theorem announcedId_le : (announcedId records).toNat ≤ (idAfter records).toNat := by
  rw [idAfter]
  cases records.keys.getLast? with
  | none => exact Nat.le_refl _
  | some last =>
    rw [Option.map_some, resumedId, UInt64.toNat_max]
    exact Nat.le_max_left _ _

theorem idAfter_of_last {last : UInt64} (final : records.keys.getLast? = some (recordKey last)) :
    idAfter records = max (announcedId records) (last + 1) := by
  rw [idAfter, final, Option.map_some, recordKey, Bytes.toUInt64_ofUInt64, resumedId]

theorem Numbered.lt_idAfter (numbered : Numbered records)
    (room : ∀ id bytes, records.find? (recordKey id) = some bytes → id.toNat + 1 < 2 ^ 64)
    {id : UInt64}
    {bytes : Bytes} (found : records.find? (recordKey id) = some bytes) :
    id.toNat < (idAfter records).toNat := by
  have member : recordKey id ∈ records.keys := SortedMap.mem_keys.2 ⟨bytes, found⟩
  cases final : records.keys.getLast? with
  | none => simp [List.getLast?_eq_none_iff.1 final] at member
  | some key =>
    obtain ⟨last, bytes, rfl, present⟩ := numbered.exists_last final
    have below := le_last found final
    have next : (last + 1).toNat = last.toNat + 1 := by
      rw [UInt64.toNat_add]
      exact Nat.mod_eq_of_lt (room last bytes present)
    rw [idAfter_of_last final, UInt64.toNat_max, next]
    omega

theorem Numbered.idAfter_pos (numbered : Numbered records)
    (room : ∀ id bytes, records.find? (recordKey id) = some bytes → id.toNat + 1 < 2 ^ 64) :
    0 < (idAfter records).toNat := by
  cases header : records.find? (recordKey headerId) with
  | none =>
    have first : announcedId records = headerId + 1 := by rw [announcedId, header]
    have least : (announcedId records).toNat ≤ (idAfter records).toNat := announcedId_le
    rw [first, show (headerId + 1).toNat = 1 from rfl] at least
    omega
  | some bytes =>
    have past := numbered.lt_idAfter room header
    omega

theorem Numbered.idAfter_le (numbered : Numbered records) {bound : Nat}
    (announced : (announcedId records).toNat ≤ bound)
    (above : ∀ id bytes, records.find? (recordKey id) = some bytes → id.toNat + 1 ≤ bound) :
    (idAfter records).toNat ≤ bound := by
  cases final : records.keys.getLast? with
  | none =>
    rw [idAfter, final]
    exact announced
  | some key =>
    obtain ⟨last, bytes, rfl, present⟩ := numbered.exists_last final
    have next : (last + 1).toNat ≤ last.toNat + 1 := by
      rw [UInt64.toNat_add]
      exact Nat.mod_le _ _
    have small := above last bytes present
    rw [idAfter_of_last final, UInt64.toNat_max]
    omega

end Layout

/-! ## Opening -/

namespace SetTable

open Layout Stores

variable {σ : Type} [Table σ] [LawfulTable σ]

theorem headerNextId_reads (name : String) (stores : Stores σ) :
    (headerNextId name).Meets stores
      (fun announced after => Still stores after ∧ isOpen stores.overflow = true ∧
        announced = announcedId (contents stores.overflow) ∧
        ∀ header, (contents stores.overflow).find? (recordKey headerId) = some header →
          header.length = 8)
      (fun _ after => Faulted stores after ∨ ¬ Numbered (contents stores.overflow)) := by
  rw [headerNextId, Action.meets_bind, Stores.onOverflow, Action.meets_on, announcedId]
  refine (LawfulTable.get (recordKey headerId) stores.overflow).mono ?_ ?_
  · rintro header after ⟨opened, stays, counted, done⟩
    have still : Still stores { stores with overflow := after } :=
      ⟨.refl _, congrArg Prod.snd done, stays.trans opened.symm, counted⟩
    have found : header = (contents stores.overflow).find? (recordKey headerId) :=
      congrArg Prod.fst done
    rw [← found]
    cases header with
    | none => exact ⟨still, opened, rfl, fun _ located => by cases located⟩
    | some header =>
      dsimp only
      rw [Action.meets_bind, Action.meets_ofResult, Error.requireFormat]
      by_cases long : header.length = 8
      · simp only [long, decide_true, if_true]
        refine ⟨still, opened, rfl, ?_⟩
        rintro _ ⟨⟩
        exact long
      · simp only [long, decide_false, Bool.false_eq_true, if_false]
        exact .inr fun numbered => long (numbered.header header found.symm)
  · exact fun _ after refused => .inl fun _ opened =>
      Nat.add_lt_add_left (refused.failures_lt opened) _

theorem last_meets {store : σ} :
    (Cursor.last : Action (Scan σ) Error Bool).Meets (Scan.start store)
      (fun moved after => Unchanged store after.table ∧
        match (contents store).keys.getLast? with
        | none => moved = false
        | some key => moved = true ∧ ∃ value, Cursor.get after = .ok ⟨key, value⟩)
      (fun _ after => Refused store after.table) := by
  have step : (Cursor.last : Action (Scan σ) Error Bool) (Scan.start store) =
      Scan.land (contents store).keys.getLast? .afterLast (Scan.start store) := by
    show Scan.land ((Table.keys store).getLast?) .afterLast (Scan.start store) = _
    rw [LawfulTable.keys_eq]
  rw [Action.Meets, step]
  cases (contents store).keys.getLast? with
  | none => exact ⟨.refl _, rfl⟩
  | some key =>
    have loads := LawfulTable.load key (Scan.start store).table
    rw [Action.Meets] at loads
    rw [Scan.land]
    cases performed : (Table.load key : Action σ IoError Bytes) (Scan.start store).table with
    | mk outcome table =>
      rw [performed] at loads
      cases outcome with
      | error failure => exact loads
      | ok value =>
        obtain ⟨-, kept, stays, counted⟩ := loads
        exact ⟨⟨kept, stays, counted⟩, rfl, value, rfl⟩

theorem lastRecordId_reads (store : σ) :
    lastRecordId.Meets store
      (fun last? after => Unchanged store after ∧
        last? = (contents store).keys.getLast?.map Bytes.toUInt64 ∧
        ∀ key, (contents store).keys.getLast? = some key → key.length = 8)
      (fun _ after => Refused store after ∨ ¬ Numbered (contents store)) := by
  rw [lastRecordId, Table.meets_scanning]
  refine (LawfulTable.beginScan store).mono ?_ fun _ _ refused => .inl refused
  rintro _ begun ⟨opened, stays, counted, done⟩
  have same : Unchanged store begun := ⟨congrArg Prod.snd done, stays.trans opened.symm, counted⟩
  rw [Action.meets_bind, Action.meets_relating]
  refine last_meets.mono ?_ fun _ _ refused => .inl (same.refused refused)
  rintro moved after ⟨still, landed⟩
  rw [same.contents_eq] at landed
  cases final : (contents store).keys.getLast? with
  | none =>
    rw [final] at landed
    subst landed
    exact ⟨same.trans still, rfl, fun _ impossible => by cases impossible⟩
  | some key =>
    rw [final] at landed
    obtain ⟨rfl, value, here⟩ := landed
    simp only [if_true]
    rw [Action.meets_bind, Action.meets_query, here]
    by_cases long : key.length = 8
    · simp only [Except.mapError, long, if_true]
      refine ⟨same.trans still, rfl, ?_⟩
      rintro _ ⟨⟩
      exact long
    · simp only [Except.mapError, long, if_false]
      exact .inr fun numbered => long (numbered.last key final)

theorem storedSet_meets (name : String) (slot : Bytes) (overflow : σ) :
    (storedSet name slot).Meets overflow
      (fun stored? after => Unchanged overflow after ∧ stored? = leadsTo? (contents overflow) slot)
      (fun _ after => Refused overflow after) := by
  rw [storedSet, leadsTo?]
  split
  · rename_i form
    have decoded : Redirect.decode slot = .ok ⟨Bytes.toUInt64 (slot.drop Redirect.tag.length)⟩ :=
      if_pos form
    rw [Action.meets_bind, Action.meets_ofResult, decoded]
    dsimp only
    rw [Action.meets_relating]
    refine (LawfulTable.get (recordKey _) overflow).mono ?_ fun _ _ refused => refused
    rintro stored? after ⟨opened, stays, counted, done⟩
    exact ⟨⟨congrArg Prod.snd done, stays.trans opened.symm, counted⟩, congrArg Prod.fst done⟩
  · exact ⟨.refl _, rfl⟩

theorem countFrom_meets (name : String) (overflow : σ) {limit : Nat} {scan : Scan σ}
    {rest : List (Bytes × Bytes)} (stands : Scan.Stands scan rest) (enough : rest.length < limit) :
    (countFrom name limit).Meets (scan, overflow)
      (fun count after =>
        count = (rest.map fun entry => (announced? (contents overflow) entry.2).getD 0).sum ∧
        Still ⟨scan.table, overflow⟩ ⟨after.1.table, after.2⟩)
      (fun _ after => Faulted ⟨scan.table, overflow⟩ ⟨after.1.table, after.2⟩) := by
  induction limit generalizing scan overflow rest with
  | zero => omega
  | succ limit ih =>
    rw [countFrom, Action.meets_bind, Action.meets_on]
    refine (Scan.next_meets stands).mono ?_ ?_
    · rintro moved after ⟨same, landed⟩
      cases rest with
      | nil =>
        subst landed
        exact ⟨rfl, same, .refl _⟩
      | cons entry rest =>
        obtain ⟨rfl, here, further⟩ := landed
        simp only [if_true]
        rw [Action.meets_bind, Action.meets_query]
        dsimp only
        rw [here]
        dsimp only
        rw [Action.meets_bind, Action.meets_on]
        refine (storedSet_meets name entry.2 overflow).mono ?_ ?_
        · rintro _ left ⟨still, rfl⟩
          have reached : Still ⟨scan.table, overflow⟩ ⟨after.table, left⟩ := ⟨same, still⟩
          rw [Action.meets_bind]
          refine (ih left further (by simpa using enough)).mono ?_ ?_
          · rintro count last ⟨counted, stays⟩
            refine ⟨?_, reached.trans stays⟩
            rw [counted, still.contents_eq, List.map_cons, List.sum_cons, announced?]
          · intro _ last faulted
            exact reached.faulted faulted
        · intro failure left refused
          have reached : Still ⟨scan.table, overflow⟩ ⟨after.table, overflow⟩ := ⟨same, .refl _⟩
          exact reached.faulted fun _ opened => Nat.add_lt_add_left (refused.failures_lt opened) _
    · intro failure after refused opened _
      exact Nat.add_lt_add_right (refused.failures_lt opened) _

theorem countStored_meets (name : String) (stores : Stores σ) :
    (countStored name).Meets stores
      (fun count after =>
        count = announcedTotal (contents stores.primary) (contents stores.overflow) ∧
        isOpen stores.primary = true ∧ Still stores after)
      (fun _ after => Faulted stores after) := by
  have begins := LawfulTable.beginScan stores.primary
  unfold Action.Meets at begins ⊢
  unfold countStored
  cases performed : (Table.beginScan : Action σ IoError Unit) stores.primary with
  | mk outcome begun =>
    rw [performed] at begins
    cases outcome with
    | error failure =>
      intro opened _
      exact Nat.add_lt_add_right (begins.failures_lt opened) _
    | ok done =>
      obtain ⟨opened, stays, counted, done⟩ := begins
      have same : Unchanged stores.primary begun :=
        ⟨congrArg Prod.snd done, stays.trans opened.symm, counted⟩
      have reached : Still stores ⟨begun, stores.overflow⟩ := ⟨same, .refl _⟩
      have enough : (contents begun).entries.length < Table.size begun + 1 := by
        rw [LawfulTable.size_eq]
        exact Nat.lt_succ_self _
      have stands : Scan.Stands (Scan.start begun) (contents begun).entries := .start rfl
      have counts := countFrom_meets name stores.overflow stands enough
      unfold Action.Meets at counts
      dsimp only
      cases counting : countFrom name (Table.size begun + 1) (Scan.start begun, stores.overflow) with
      | mk outcome left =>
        rw [counting] at counts
        cases outcome with
        | error failure => exact reached.faulted counts
        | ok count =>
          obtain ⟨counted, still⟩ := counts
          rw [same.contents_eq] at counted
          exact ⟨counted, opened, reached.trans still⟩

variable {D : Type} [Ord D] {name : String} {codec : Codec D} {limit cacheSize : Nat}
  {stores : Stores σ} {table : SetTable σ D}

structure Inspected (name : String) (codec : Codec D) (limit cacheSize : Nat) (stores : Stores σ)
    (table : SetTable σ D) : Prop where
  limited : 0 < limit
  cached : 0 < cacheSize
  primary : isOpen stores.primary = true
  overflow : isOpen stores.overflow = true
  numbered : Numbered (contents stores.overflow)
  still : Still stores table.stores
  table_eq : table =
    { name, codec, limit
      stores := table.stores
      sets := .empty cacheSize
      nextId := idAfter (contents stores.overflow)
      headerDirty := false
      count := announcedTotal (contents stores.primary) (contents stores.overflow)
      isClosed := false }

theorem openOver_reads (name : String) (codec : Codec D) (limit cacheSize : Nat) (stores : Stores σ) :
    (openOver name codec limit cacheSize).Meets stores
      (fun table _ => Inspected name codec limit cacheSize stores table)
      (fun _ after => Faulted stores after ∨
        ¬ (0 < limit ∧ 0 < cacheSize ∧ Numbered (contents stores.overflow))) := by
  rw [openOver, Action.meets_bind, Action.meets_ofResult, Error.requireArgument]
  by_cases limited : 0 < limit
  · simp only [limited, decide_true, if_true]
    rw [Action.meets_bind, Action.meets_ofResult, Error.requireArgument]
    by_cases cached : 0 < cacheSize
    · simp only [cached, decide_true, if_true, true_and]
      rw [Action.meets_bind]
      refine (headerNextId_reads name stores).mono ?_ fun _ _ failed => failed
      rintro announced afterHeader ⟨still, overflow, rfl, header⟩
      rw [Action.meets_bind, Stores.onOverflow, Action.meets_on]
      refine (lastRecordId_reads afterHeader.overflow).mono ?_ ?_
      · rintro last? scanned ⟨same, rfl, last⟩
        have still : Still stores { afterHeader with overflow := scanned } := still.trans ⟨.refl _, same⟩
        rw [Action.meets_bind]
        refine (countStored_meets name _).mono ?_ fun _ _ faulted => .inl (still.faulted faulted)
        rintro count counted ⟨rfl, primary, further⟩
        rw [Action.meets_bind, Action.meets_get]
        have records := still.overflow.contents_eq
        have slots := still.primary.contents_eq
        rw [same.contents_eq.symm.trans records] at last ⊢
        rw [records, slots]
        exact ⟨limited, cached, still.primary.isOpen_eq ▸ primary, overflow, ⟨header, last⟩,
          still.trans further, rfl⟩
      · rintro failure after (refused | unnumbered)
        · exact .inl (still.faulted fun _ opened =>
            Nat.add_lt_add_left (refused.failures_lt opened) _)
        · exact .inr (still.overflow.contents_eq ▸ unnumbered)
    · simp only [cached, decide_false, Bool.false_eq_true, if_false]
      exact .inr fun settings => settings.2.1
  · simp only [limited, decide_false, Bool.false_eq_true, if_false]
    exact .inr fun settings => settings.1

namespace Inspected

variable (inspected : Inspected name codec limit cacheSize stores table)
include inspected

theorem count_eq :
    table.count = announcedTotal (contents stores.primary) (contents stores.overflow) := by
  rw [inspected.table_eq]

theorem nextId_eq : table.nextId = idAfter (contents stores.overflow) := by
  rw [inspected.table_eq]

theorem layout_eq : table.layout =
    { codec, limit
      slots := contents stores.primary
      records := contents stores.overflow
      sets := .empty cacheSize
      nextId := idAfter (contents stores.overflow)
      count := announcedTotal (contents stores.primary) (contents stores.overflow) } := by
  rw [inspected.table_eq, layout]
  simp only [inspected.still.primary.contents_eq, inspected.still.overflow.contents_eq]

theorem live : table.Live where
  isClosed_eq := by rw [inspected.table_eq]
  primary := inspected.still.primary.isOpen_eq.trans inspected.primary
  overflow := inspected.still.overflow.isOpen_eq.trans inspected.overflow

end Inspected

end SetTable

end AttributeIndex
