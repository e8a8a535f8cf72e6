import AttributeIndex.Proofs.Log.Reading
import AttributeIndex.Proofs.OrderedSet.Position
import AttributeIndex.Proofs.SortedMap
import AttributeIndex.Proofs.Table.Lawful

/-!
A scan as a position on the tuples of its table.

On a list a cursor stands in a gap or on a tuple. A scan goes by keys instead, and fetches a value
whenever it comes to one. Where it stands after any steps is a place on the list all the same, and it
fails where an ideal scan cannot have the value of the tuple that it comes to.
-/

namespace AttributeIndex

open AttributeIndex.Action AttributeIndex.Sequence

namespace Scan

variable {σ : Type} {entries : SortedMap Bytes Bytes} {scan : Scan σ}

def tuplesOf (entries : SortedMap Bytes Bytes) : List Tuple :=
  entries.entries.map fun entry => ⟨entry.1, entry.2⟩

abbrev Place (entries : SortedMap Bytes Bytes) : Type :=
  Spot (compareOn Tuple.key) (tuplesOf entries)

theorem keys_eq (entries : SortedMap Bytes Bytes) :
    entries.keys = (tuplesOf entries).map Tuple.key := by
  simp [SortedMap.keys, tuplesOf]

theorem ascending_tuplesOf (entries : SortedMap Bytes Bytes) :
    Ascending (compareOn Tuple.key) (tuplesOf entries) :=
  List.pairwise_map.2 entries.sorted

theorem find?_getElem {index : Nat} (inside : index < (tuplesOf entries).length) :
    entries.find? (tuplesOf entries)[index].key = some (tuplesOf entries)[index].value := by
  rw [SortedMap.find?_eq_some]
  simp [tuplesOf]

/-! ## The ideal scan -/

/-- A position on the tuples, and the table that says which of its values cannot be fetched. -/
structure Ideal (σ : Type) (entries : SortedMap Bytes Bytes) where
  table : σ
  place : Place entries

namespace Ideal

def start (entries : SortedMap Bytes Bytes) (table : σ) : Ideal σ entries :=
  ⟨table, .gap 0⟩

def get (ideal : Ideal σ entries) : Except Error Tuple :=
  match ideal.place with
  | .element index => .ok ((tuplesOf entries).get index)
  | .gap _ => .error (.invalidPosition label)
  | .closed => .error (.closed label)

def wait (place : Place entries) : Action (Ideal σ entries) Error Unit :=
  fun ideal =>
    if ideal.place.isClosed then (.error (.closed label), ideal)
    else (.ok (), { ideal with place })

variable [Table σ]

def land (place : Place entries) : Action (Ideal σ entries) Error Bool :=
  fun ideal =>
    match place with
    | .element index =>
      match (Table.load ((tuplesOf entries).get index).key : Action σ IoError Bytes) ideal.table with
      | (.ok _, table) => (.ok true, ⟨table, place⟩)
      | (.error failure, table) =>
        (.error (.io (label ++ " value load") failure), { ideal with table })
    | _ => (.ok false, { ideal with place })

def move (target : Place entries → Place entries) : Action (Ideal σ entries) Error Bool :=
  fun ideal =>
    if ideal.place.isClosed then (.error (.closed label), ideal)
    else land (target ideal.place) ideal

instance : Cursor (Ideal σ entries) Tuple where
  isAvailable ideal := ideal.place.isAvailable
  before target := wait (.before target)
  after target := wait (.after target)
  beforeFirst := wait (.gap 0)
  afterLast := wait (.gap (Fin.last _))
  first := move fun _ => .elementOr 0 0
  last := move fun _ => .elementBefore (tuplesOf entries).length
  previous := move Spot.back
  next := move Spot.ahead
  get := get
  isElementReused _ := true
  close := update fun ideal => { ideal with place := .closed }
  isClosed ideal := ideal.place.isClosed
  extent _ := (tuplesOf entries).length

end Ideal

/-! ## Where a scan stands -/

def isAhead (scan : Scan σ) (key : Bytes) : Bool :=
  match scan.position with
  | .beforeFirst => true
  | .afterLast | .closed => false
  | .onTuple => compare key scan.current.key == .gt
  | .before anchor => compare key anchor != .lt
  | .after anchor => compare key anchor == .gt

def isBehind (scan : Scan σ) (key : Bytes) : Bool :=
  match scan.position with
  | .beforeFirst | .closed => false
  | .afterLast => true
  | .onTuple => compare key scan.current.key == .lt
  | .before anchor => compare key anchor == .lt
  | .after anchor => compare key anchor != .gt

theorem ahead?_eq (keys : List Bytes) (scan : Scan σ) :
    ahead? keys scan = keys.find? scan.isAhead := by
  unfold ahead? isAhead
  cases scan.position with
  | beforeFirst => cases keys <;> rfl
  | afterLast | closed => exact (List.find?_eq_none.2 fun _ _ => Bool.false_ne_true).symm
  | onTuple | before | after => rfl

theorem back?_eq (keys : List Bytes) (scan : Scan σ) :
    back? keys scan = (keys.takeWhile scan.isBehind).getLast? := by
  unfold back? isBehind
  cases scan.position with
  | beforeFirst | closed => cases keys <;> rfl
  | afterLast =>
    have none : keys.findIdx (fun _ => !true) = keys.length := List.findIdx_eq_length.2 fun _ _ => rfl
    rw [List.takeWhile_eq_take_findIdx_not, none, List.take_length]
  | onTuple | before | after => rfl

inductive Marks (entries : SortedMap Bytes Bytes) : Position → Tuple → Place entries → Prop
  | beforeFirst {current : Tuple} : Marks entries .beforeFirst current (.gap 0)
  | afterLast {current : Tuple} : Marks entries .afterLast current (.gap (Fin.last _))
  | on (index : Fin (tuplesOf entries).length) :
    Marks entries .onTuple ((tuplesOf entries).get index) (.element index)
  | before {current : Tuple} (target : Tuple) : Marks entries (.before target.key) current (.before target)
  | after {current : Tuple} (target : Tuple) : Marks entries (.after target.key) current (.after target)
  | closed {current : Tuple} : Marks entries .closed current .closed

end Scan

namespace Sequence.Spot

variable {α : Type} {cmp : α → α → Ordering} {list : List α}

def passed : Spot cmp list → Nat
  | gap index => index
  | element index => index + 1
  | closed => list.length

def behind : Spot cmp list → Nat
  | gap index => index
  | element index => index
  | closed => 0

theorem ahead_eq {spot : Spot cmp list} (opened : spot.isClosed = false) :
    spot.ahead = elementOr spot.passed (Fin.last _) := by
  cases spot with
  | gap | element => rfl
  | closed => cases opened

theorem back_eq {spot : Spot cmp list} (opened : spot.isClosed = false) :
    spot.back = elementBefore spot.behind := by
  cases spot with
  | gap | element => rfl
  | closed => cases opened

theorem behind_le (spot : Spot cmp list) : spot.behind ≤ list.length := by
  cases spot with
  | gap index => exact Nat.le_of_lt_succ index.isLt
  | element index => exact Nat.le_of_lt index.isLt
  | closed => exact Nat.zero_le _

end Sequence.Spot

namespace Scan

variable {σ : Type} {entries : SortedMap Bytes Bytes} {scan : Scan σ} {place : Place entries}

theorem compare_getElem {lower upper : Nat} (below : lower < upper)
    (inside : upper < (tuplesOf entries).length) :
    compare (tuplesOf entries)[lower].key (tuplesOf entries)[upper].key = .lt :=
  List.pairwise_iff_getElem.1 (ascending_tuplesOf entries) lower upper (by omega) inside below

theorem findIdx_true {α : Type} (list : List α) : list.findIdx (fun _ => true) = 0 := by
  cases list <;> rfl

theorem findIdx_above (target : Tuple) :
    (tuplesOf entries).findIdx (fun tuple => compare tuple.key target.key == .gt) =
      (Spot.after target : Place entries).passed := by
  have monotone : (tuplesOf entries).Pairwise fun first second =>
      (compare first.key target.key == .gt) = true → (compare second.key target.key == .gt) = true := by
    refine (ascending_tuplesOf entries).imp fun {first second} below reached => ?_
    simp only [beq_iff_eq] at reached ⊢
    exact Std.TransCmp.gt_trans (Std.OrientedCmp.gt_of_lt below) reached
  exact (length_sub_findIdx_reverse monotone).symm

theorem findIdx_above_getElem (index : Fin (tuplesOf entries).length) :
    (tuplesOf entries).findIdx (fun tuple =>
      compare tuple.key ((tuplesOf entries).get index).key == .gt) = index + 1 := by
  have below : ∀ lower, lower < index.val + 1 → ∀ within : lower < (tuplesOf entries).length,
      (compare (tuplesOf entries)[lower].key ((tuplesOf entries).get index).key == .gt) = false := by
    intro lower low within
    rcases Nat.lt_or_eq_of_le (Nat.le_of_lt_succ low) with less | rfl
    · simp [compare_getElem less index.isLt]
    · simp
  by_cases inside : index.val + 1 < (tuplesOf entries).length
  · refine (List.findIdx_eq inside).2 ⟨?_, fun lower low => below lower low _⟩
    simp [Std.OrientedCmp.gt_of_lt (compare_getElem (Nat.lt_succ_self index.val) inside)]
  · have last : index.val + 1 = (tuplesOf entries).length := by omega
    rw [last, List.findIdx_eq_length]
    intro tuple member
    obtain ⟨lower, within, rfl⟩ := List.getElem_of_mem member
    exact below lower (by omega) within

theorem Marks.findIdx_isAhead (marks : Marks entries scan.position scan.current place) :
    (tuplesOf entries).findIdx (fun tuple => scan.isAhead tuple.key) = place.passed := by
  unfold isAhead
  generalize scan.position = position at marks
  generalize scan.current = current at marks
  cases marks with
  | beforeFirst => exact findIdx_true _
  | afterLast | closed => exact List.findIdx_eq_length.2 fun _ _ => rfl
  | on index => exact findIdx_above_getElem index
  | before target => rfl
  | after target => exact findIdx_above target

theorem Marks.findIdx_isBehind (marks : Marks entries scan.position scan.current place) :
    (tuplesOf entries).findIdx (fun tuple => !scan.isBehind tuple.key) = place.behind := by
  unfold isBehind
  generalize scan.position = position at marks
  generalize scan.current = current at marks
  cases marks with
  | beforeFirst | closed => exact findIdx_true _
  | afterLast => exact List.findIdx_eq_length.2 fun _ _ => rfl
  | on index =>
    refine (List.findIdx_eq index.isLt).2 ⟨by simp, fun lower below => ?_⟩
    simp [compare_getElem below index.isLt]
  | before target => rfl
  | after target =>
    have turned : ∀ order : Ordering, (!(order != .gt)) = (order == .gt) := by decide
    simp only [turned]
    exact findIdx_above target

/-! ## The nearest tuple -/

def keyAt? : Place entries → Option Bytes
  | .element index => some ((tuplesOf entries).get index).key
  | _ => none

theorem keyAt?_elementOr (index : Nat) (edge : Fin ((tuplesOf entries).length + 1)) :
    keyAt? (.elementOr index edge : Place entries) = (tuplesOf entries)[index]?.map Tuple.key := by
  by_cases inside : index < (tuplesOf entries).length
  · rw [Spot.elementOr_of_lt inside, List.getElem?_eq_getElem inside]
    rfl
  · rw [Spot.elementOr_of_le (Nat.not_lt.1 inside), List.getElem?_eq_none (Nat.not_lt.1 inside)]
    rfl

theorem keyAt?_elementBefore {count : Nat} (within : count ≤ (tuplesOf entries).length) :
    keyAt? (.elementBefore count : Place entries) =
      ((tuplesOf entries).take count).getLast?.map Tuple.key := by
  cases count with
  | zero => rfl
  | succ index =>
    rw [Spot.elementBefore, keyAt?_elementOr, List.getLast?_take, if_neg (Nat.succ_ne_zero _),
      Nat.add_sub_cancel, List.getElem?_eq_getElem (by omega), Option.some_or]

structure Leads (found : Option Bytes) (edge : Position) (target : Place entries) : Prop where
  aims : found = keyAt? target
  waits {current : Tuple} : found = none → Marks entries edge current target

theorem leads_elementOr {found : Option Bytes} {index : Nat} (waits : Position)
    {edge : Fin ((tuplesOf entries).length + 1)}
    (aims : found = (tuplesOf entries)[index]?.map Tuple.key)
    (marks : ∀ current, Marks entries waits current (.gap edge)) :
    Leads found waits (.elementOr index edge : Place entries) where
  aims := aims.trans (keyAt?_elementOr index edge).symm
  waits := by
    rintro current rfl
    have outside : (tuplesOf entries).length ≤ index := by simpa using aims.symm
    rw [Spot.elementOr_of_le outside]
    exact marks current

theorem leads_elementBefore {found : Option Bytes} {count : Nat} (waits : Position)
    (within : count ≤ (tuplesOf entries).length)
    (aims : found = ((tuplesOf entries).take count).getLast?.map Tuple.key)
    (marks : count = 0 → ∀ current, Marks entries waits current (.gap 0)) :
    Leads found waits (.elementBefore count : Place entries) where
  aims := aims.trans (keyAt?_elementBefore within).symm
  waits := by
    rintro current rfl
    have nothing : (tuplesOf entries).take count = [] := by simpa using aims.symm
    obtain rfl : count = 0 := by rw [← List.length_take_of_le within, nothing, List.length_nil]
    exact marks rfl current

theorem leads_first : Leads entries.keys.head? .beforeFirst (.elementOr 0 0 : Place entries) := by
  refine leads_elementOr _ ?_ fun _ => .beforeFirst
  rw [keys_eq, List.head?_map, List.head?_eq_getElem?]

theorem leads_last : Leads entries.keys.getLast? .afterLast
    (.elementBefore (tuplesOf entries).length : Place entries) := by
  refine leads_elementBefore _ (Nat.le_refl _) ?_ fun empty _ => ?_
  · rw [List.take_length, keys_eq, List.getLast?_map]
  · -- Among no tuples the gap before the first is that after the last.
    have only : (0 : Fin ((tuplesOf entries).length + 1)) = Fin.last _ := Fin.ext empty.symm
    rw [only]
    exact .afterLast

namespace Marks

variable (marks : Marks entries scan.position scan.current place) (opened : place.isClosed = false)

include marks opened

theorem leads_ahead : Leads (ahead? entries.keys scan) .afterLast place.ahead := by
  rw [Spot.ahead_eq opened]
  refine leads_elementOr _ ?_ fun _ => .afterLast
  rw [ahead?_eq, keys_eq, List.find?_map, ← marks.findIdx_isAhead, List.find?_eq_getElem?_findIdx]
  rfl

theorem leads_back : Leads (back? entries.keys scan) .beforeFirst place.back := by
  rw [Spot.back_eq opened]
  refine leads_elementBefore _ place.behind_le ?_ fun _ _ => .beforeFirst
  rw [back?_eq, keys_eq, List.takeWhile_map, List.getLast?_map, ← marks.findIdx_isBehind,
    List.takeWhile_eq_take_findIdx_not]
  rfl

end Marks

/-! ## Steps -/

structure Shows (entries : SortedMap Bytes Bytes) (valid : σ → Prop) (scan : Scan σ)
    (ideal : Ideal σ entries) : Prop where
  table_eq : ideal.table = scan.table
  valid : valid scan.table
  marks : Marks entries scan.position scan.current ideal.place

variable {valid : σ → Prop} {ideal : Ideal σ entries}

namespace Shows

variable (shows : Shows entries valid scan ideal)

include shows

theorem told_eq : scan.isAvailable = ideal.place.isAvailable ∧ scan.isClosed = ideal.place.isClosed ∧
    scan.get = ideal.get := by
  obtain ⟨table, position, current⟩ := scan
  obtain ⟨other, place⟩ := ideal
  obtain ⟨-, -, marks⟩ := shows
  cases marks <;> exact ⟨rfl, rfl, rfl⟩

theorem wait_agree {position : Position} {place : Place entries}
    (marks : Marks entries position scan.current place) :
    Agree (Shows entries valid) (wait position) (Ideal.wait place) scan ideal := by
  unfold Agree wait Ideal.wait
  rw [shows.told_eq.2.1]
  split
  · exact ⟨rfl, shows⟩
  · exact ⟨rfl, shows.table_eq, shows.valid, marks⟩

end Shows

variable [Table σ]

/-- Tables with the given tuples, from which some values may fail to come at times. -/
structure Serves (entries : SortedMap Bytes Bytes) (valid : σ → Prop) : Prop where
  keys_eq {table : σ} : valid table → Table.keys table = entries.keys
  load (key : Bytes) {table : σ} : valid table →
    (Table.load key : Action σ IoError Bytes).Meets table
      (fun value after => value = (entries.find? key).getD [] ∧ valid after) fun _ => valid

inductive Landed (entries : SortedMap Bytes Bytes) (valid : σ → Prop) (scan : Scan σ)
    (edge : Position) : Option Bytes → Except Error Bool × Scan σ → Prop
  | rests : Landed entries valid scan edge none (.ok false, { scan with position := edge })
  | lands {key : Bytes} {table : σ}
      (loads : (Table.load key : Action σ IoError Bytes) scan.table =
        (.ok ((entries.find? key).getD []), table)) (still : valid table) :
      Landed entries valid scan edge (some key)
        (.ok true, ⟨table, .onTuple, ⟨key, (entries.find? key).getD []⟩⟩)
  | fails {key : Bytes} {cause : IoError} {table : σ}
      (loads : (Table.load key : Action σ IoError Bytes) scan.table = (.error cause, table))
      (still : valid table) :
      Landed entries valid scan edge (some key)
        (.error (.io (label ++ " value load") cause), { scan with table })

theorem Serves.landed (serves : Serves entries valid) (still : valid scan.table)
    (found : Option Bytes) (edge : Position) :
    Landed entries valid scan edge found (land found edge scan) := by
  cases found with
  | none => exact .rests
  | some key =>
    have loads := serves.load key still
    unfold land
    dsimp only
    cases performed : (Table.load key : Action σ IoError Bytes) scan.table with
    | mk outcome table =>
      cases outcome with
      | error cause => exact .fails performed (loads.failed_of performed)
      | ok value =>
        obtain ⟨rfl, kept⟩ := loads.ok_of performed
        exact .lands performed kept

namespace Shows

variable (shows : Shows entries valid scan ideal) (serves : Serves entries valid)

include shows serves

theorem land_agree {found : Option Bytes} {edge : Position} {target : Place entries}
    (leads : Leads found edge target) :
    Agree (Shows entries valid) (land found edge) (Ideal.land target) scan ideal := by
  -- Both ask the same table for the same key, so they fail at the same calls.
  have landed := serves.landed shows.valid found edge
  unfold Agree
  generalize land found edge scan = performed at landed ⊢
  obtain ⟨rfl, waits⟩ := leads
  cases target with
  | gap | closed =>
    cases landed
    exact ⟨rfl, shows.table_eq, shows.valid, waits rfl⟩
  | element index =>
    unfold Ideal.land
    dsimp only
    rw [shows.table_eq]
    cases landed with
    | fails loads still =>
      rw [loads]
      exact ⟨rfl, rfl, still, shows.marks⟩
    | lands loads still =>
      have stored : entries.find? ((tuplesOf entries).get index).key = _ := find?_getElem index.isLt
      rw [loads, stored]
      exact ⟨rfl, rfl, still, .on index⟩

theorem move_agree {find : List Bytes → Scan σ → Option Bytes} {edge : Position}
    {target : Place entries → Place entries}
    (leads : ideal.place.isClosed = false → Leads (find entries.keys scan) edge (target ideal.place)) :
    Agree (Shows entries valid) (move find edge) (Ideal.move target) scan ideal := by
  unfold Agree move Ideal.move
  rw [shows.told_eq.2.1, serves.keys_eq shows.valid]
  split
  · exact ⟨rfl, shows⟩
  · rename_i opened
    exact shows.land_agree serves (leads (by simpa using opened))

end Shows

theorem simulates (serves : Serves entries valid) : Cursor.Simulates (Shows entries valid) where
  isAvailable_eq shows := shows.told_eq.1
  before target shows := shows.wait_agree (.before target)
  after target shows := shows.wait_agree (.after target)
  beforeFirst shows := shows.wait_agree .beforeFirst
  afterLast shows := shows.wait_agree .afterLast
  first shows := shows.move_agree serves fun _ => leads_first
  last shows := shows.move_agree serves fun _ => leads_last
  previous shows := shows.move_agree serves shows.marks.leads_back
  next shows := shows.move_agree serves shows.marks.leads_ahead
  get_eq shows := shows.told_eq.2.2
  isElementReused_eq _ := rfl
  close shows := ⟨rfl, shows.table_eq, shows.valid, .closed⟩
  isClosed_eq shows := shows.told_eq.2.1

theorem serves_of_lawful [LawfulTable σ] (store : σ) :
    Serves (Observed.contents store) fun other : σ =>
      Observed.contents other = Observed.contents store where
  keys_eq same := by rw [LawfulTable.keys_eq, same]
  load key other same := by
    refine (LawfulTable.load key other).mono ?_ fun _ _ refused => refused.contents_eq.trans same
    rintro _ after ⟨rfl, kept, -⟩
    exact ⟨by rw [same], kept.trans same⟩

theorem serves_log (table : LogTable) : Serves table.values (· = table) where
  keys_eq := by
    rintro _ rfl
    exact (SortedMap.keys_mapValues _ _).symm
  load := by
    rintro key store rfl
    refine .intro (fun value after performed => ?_) fun _ _ failed => (congrArg Prod.snd failed).symm
    obtain ⟨answered, rfl⟩ := Prod.mk.inj performed
    refine ⟨?_, rfl⟩
    beta_reduce at answered
    rw [LogTable.find?_values]
    cases found : store.state.directory.find? key with
    | none =>
      rw [found] at answered
      cases answered
      rfl
    | some location =>
      rw [found] at answered
      exact (eq_slice_of_readAt answered).1

theorem matched_memory (serves : Serves entries valid)
    (loads : ∀ key table, valid table →
      ∃ value after, (Table.load key : Action σ IoError Bytes) table = (.ok value, after)) :
    Matched fun (table : σ) memory => valid table ∧ memory = Volatile.ofEntries entries where
  keys_eq := by
    rintro table _ ⟨still, rfl⟩
    exact serves.keys_eq still
  load := by
    rintro table _ key ⟨still, rfl⟩
    obtain ⟨value, after, performed⟩ := loads key table still
    obtain ⟨rfl, kept⟩ := (serves.load key still).ok_of performed
    exact .of_eq performed rfl ⟨kept, rfl⟩

end Scan

end AttributeIndex
