import Mathlib.Data.Finite.Prod
import CairoVM.Memory.Segments
import CairoVM.Memory.Store

/-!
# The memories that can be reached

The counter tells how many segments were created, up to its wrap, and a cell is occupied
only if its segment was created.  The last segment index of all is never below the
counter, so no cell of that segment is occupied.  Nothing else is true of every run: any
store with these properties is that of some run.
-/

namespace CairoVM

open WriteOnce

variable {Table : Type} [CCHashTable Table Relocatable MaybeRelocatable]

instance : Finite Relocatable :=
  Finite.of_injective (fun ptr : Relocatable => (ptr.segmentIndex.toFin, ptr.offset.toFin))
    fun first second same => by
      cases first
      cases second
      simpa [UInt32.toFin_inj] using same

/-- What is true of the store of a run that creates so many segments. -/
structure CellStore.ReachedBy (created : Nat) (store : CellStore) : Prop where
  counter : store.numSegments = UInt32.ofNat created
  bounded : ∀ ptr value, store.contents ptr = some value →
    ptr.segmentIndex.toNat < min created (2 ^ 32 - 1)

/-! ## Runs that create segments -/

omit [CCHashTable Table Relocatable MaybeRelocatable] in
theorem segmentsAdded_replicate (count : Nat) :
    segmentsAdded (List.replicate count .addSegment) = count :=
  List.count_replicate_self

omit [CCHashTable Table Relocatable MaybeRelocatable] in
theorem segmentsAdded_inserts (writes : List (Relocatable × MaybeRelocatable)) :
    segmentsAdded (writes.map fun write => .insert write.1 write.2) = 0 := by
  simp [segmentsAdded, List.count_eq_zero]

theorem store_run_replicate (mem : Memory Table) (count : Nat) :
    (Machine.run memoryStep mem (List.replicate count .addSegment)).store =
      ⟨mem.numSegments + UInt32.ofNat count, cells mem⟩ := by
  induction count generalizing mem with
  | zero => simp [Memory.store]
  | succ count ih =>
      rw [List.replicate_succ, Machine.run_cons, ih]
      simp only [memoryStep_addSegment, numSegments_memoryAddSegment, cells_memoryAddSegment,
        UInt32.ofNat_add, CellStore.mk.injEq, and_true]
      rw [UInt32.add_assoc, UInt32.add_comm 1]
      rfl

variable [LawfulCCHashTable Table memoryConf]

/-! ## Runs that fill cells -/

theorem store_run_inserts {mem : Memory Table}
    {contents : Contents Relocatable MaybeRelocatable}
    {writes : List (Relocatable × MaybeRelocatable)}
    (below : contents.Extends (cells mem)) (recorded : Recorded contents writes)
    (created : ∀ write ∈ writes, Created mem.numSegments write.1) :
    (Machine.run memoryStep mem (writes.map fun write => .insert write.1 write.2)).store =
      ⟨mem.numSegments, putAll (cells mem) writes⟩ := by
  induction writes generalizing mem with
  | nil => rfl
  | cons write writes ih =>
      have agrees : Agrees (cells mem) write :=
        (recorded.agrees List.mem_cons_self).of_extends below
      have accepted : Accepts (Created mem.numSegments) (cells mem) write :=
        ⟨created write List.mem_cons_self, agrees⟩
      have written : cells (memoryStep mem (.insert write.1 write.2)) =
          put (cells mem) write :=
        cells_memoryInsert_of_accepted accepted
      have counter : (memoryStep mem (.insert write.1 write.2)).numSegments =
          mem.numSegments := numSegments_memoryInsert mem write.1 write.2
      have stillBelow : contents.Extends (put (cells mem) write) := by
        intro key value present
        rcases (put_eq_some_iff agrees key value).mp present with before | rfl
        · exact below key value before
        · exact recorded _ List.mem_cons_self
      rw [List.map_cons, Machine.run_cons, putAll_cons, ih, written, counter]
      · rwa [written]
      · exact fun other member => recorded other (List.mem_cons_of_mem write member)
      · intro other member
        rw [counter]
        exact created other (List.mem_cons_of_mem write member)

/-! ## What every run keeps -/

/-- An occupied cell was occupied before the call, or its segment was created. -/
theorem stored_memoryStep {mem : Memory Table} {op : MemoryOp Values} {ptr : Relocatable}
    {value : MaybeRelocatable} (present : cells (memoryStep mem op) ptr = some value) :
    cells mem ptr = some value ∨ Created mem.numSegments ptr := by
  cases op with
  | addSegment => exact Or.inl present
  | insert target written =>
      rcases memoryInsert_cases mem target written with
        ⟨accepted, -, -, stored⟩ | ⟨-, failed⟩
      · rw [memoryStep_insert, stored, put_eq_some_iff accepted.2] at present
        rcases present with before | same
        · exact Or.inl before
        · rw [← same] at accepted
          exact Or.inr accepted.1
      · rw [memoryStep_insert, failed] at present
        exact Or.inl present
  | loadData start data =>
      rw [memoryStep_loadData, cells_memoryLoadData] at present
      exact permits_of_attempt_snd _ present

/-- No segment index is above the largest counter. -/
theorem segmentIndex_lt_of_memoryRun (ops : List (MemoryOp Values)) :
    ∀ ptr value, cells (memoryRun Table ops) ptr = some value →
      ptr.segmentIndex.toNat < 2 ^ 32 - 1 := by
  refine Machine.run_induction memoryStep (memoryNew Table)
    (fun _ mem => ∀ ptr value, cells mem ptr = some value →
      ptr.segmentIndex.toNat < 2 ^ 32 - 1) ?_ ?_ ops
  · intro ptr value present
    rw [cells_memoryNew] at present
    cases present
  · intro before op bounded ptr value present
    rcases stored_memoryStep present with earlier | created
    · exact bounded ptr value earlier
    · have below := UInt32.lt_iff_toNat_lt.mp created
      have limit := (Machine.run memoryStep (memoryNew Table) before).numSegments.toNat_lt
      omega

theorem reachedBy_memoryRun (ops : List (MemoryOp Values)) :
    (memoryRun Table ops).store.ReachedBy (segmentsAdded ops) where
  counter := (within_memoryRun ops).counter
  bounded ptr value present :=
    lt_min ((within_memoryRun ops).bounded ptr value present)
      (segmentIndex_lt_of_memoryRun ops ptr value present)

/-! ## Every such store is reached -/

/-- The stores of the runs that create so many segments. -/
theorem exists_memoryRun_store_iff (created : Nat) (store : CellStore) :
    (∃ ops, segmentsAdded ops = created ∧ (memoryRun Table ops).store = store) ↔
      store.ReachedBy created := by
  constructor
  · rintro ⟨ops, rfl, rfl⟩
    exact reachedBy_memoryRun ops
  · rintro ⟨counter, bounded⟩
    -- The cells are filled before the counter can wrap.
    let early := min created (2 ^ 32 - 1)
    have noWrap : early < 2 ^ 32 := by omega
    obtain ⟨writes, recorded, written⟩ := exists_recorded_putAll_eq store.contents
    let segments : List (MemoryOp Values) := List.replicate early .addSegment
    let inserts : List (MemoryOp Values) := writes.map fun write => .insert write.1 write.2
    let later : List (MemoryOp Values) := List.replicate (created - early) .addSegment
    have opened : (memoryRun Table segments).store = ⟨UInt32.ofNat early, fun _ => none⟩ := by
      rw [memoryRun, store_run_replicate, cells_memoryNew]
      exact congrArg (CellStore.mk · _) (UInt32.zero_add _)
    have openedCounter : (memoryRun Table segments).numSegments = UInt32.ofNat early :=
      congrArg CellStore.numSegments opened
    have openedCells : cells (memoryRun Table segments) = fun _ => none :=
      congrArg CellStore.contents opened
    have filled : (memoryRun Table (segments ++ inserts)).store =
        ⟨UInt32.ofNat early, store.contents⟩ := by
      have below : store.contents.Extends (cells (memoryRun Table segments)) := by
        intro ptr value present
        rw [openedCells] at present
        cases present
      have inside : ∀ write ∈ writes,
          Created (memoryRun Table segments).numSegments write.1 := by
        intro write member
        rw [openedCounter, Created, UInt32.lt_iff_toNat_lt, UInt32.toNat_ofNat',
          Nat.mod_eq_of_lt noWrap]
        exact bounded write.1 write.2 (recorded write member)
      rw [memoryRun_append, store_run_inserts below recorded inside, openedCounter,
        openedCells, written]
    refine ⟨segments ++ inserts ++ later, ?_, ?_⟩
    · rw [segmentsAdded_append, segmentsAdded_append, segmentsAdded_replicate,
        segmentsAdded_inserts, segmentsAdded_replicate]
      omega
    · have filledCounter : (memoryRun Table (segments ++ inserts)).numSegments =
          UInt32.ofNat early := congrArg CellStore.numSegments filled
      have filledCells : cells (memoryRun Table (segments ++ inserts)) = store.contents :=
        congrArg CellStore.contents filled
      have all : early + (created - early) = created := by omega
      rw [memoryRun_append, store_run_replicate, filledCounter, filledCells,
        ← UInt32.ofNat_add, all, ← counter]

/-- A store with a cell high up in the only segment. -/
theorem exists_memoryRun_store_high : ∃ ops, segmentsAdded ops = 1 ∧
    (memoryRun CellTable ops).store =
      ⟨1, fun ptr => if ptr = ⟨0, 0xFFFFFFFF⟩ then some (.relocatable ⟨7, 7⟩) else none⟩ := by
  refine (exists_memoryRun_store_iff 1 _).mpr ⟨rfl, fun ptr value present => ?_⟩
  obtain ⟨rfl, -⟩ := Option.ite_none_right_eq_some.mp present
  decide

end CairoVM
