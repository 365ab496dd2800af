import CairoVM.Memory.History

/-!
# Segment indices

A segment is known by the value that the segment counter had when it was created.
The counter is an `unsigned int` that is never checked, so the indices handed out
are the number of segments created so far, modulo `2 ^ 32`.  They identify segments
in exactly the runs that create fewer than `2 ^ 32` of them.
-/

namespace CairoVM

open WriteOnce

variable {Table : Type} [CCHashTable Table Relocatable MaybeRelocatable]

/-- The pointers that one call returns as those of new segments. -/
def returnedSegments (mem : Memory Table) : MemoryOp Values → List Relocatable
  | .addSegment => [(memoryAddSegment mem).1]
  | .insert _ _ => []
  | .loadData _ _ => []

/-- The pointers returned by the `memory_add_segment` calls of a run. -/
def memoryRunSegments (Table : Type)
    [CCHashTable Table Relocatable MaybeRelocatable] (ops : List (MemoryOp Values)) :
    List Relocatable :=
  Machine.log memoryStep returnedSegments (memoryNew Table) ops

@[simp] theorem memoryRunSegments_concat (ops : List (MemoryOp Values))
    (op : MemoryOp Values) :
    memoryRunSegments Table (ops ++ [op]) =
      memoryRunSegments Table ops ++ returnedSegments (memoryRun Table ops) op :=
  Machine.log_concat memoryStep returnedSegments (memoryNew Table) ops op

/-- The number of segments that a sequence of calls creates. -/
def segmentsAdded (ops : List (MemoryOp Values)) : Nat := ops.count .addSegment

@[simp] theorem segmentsAdded_nil : segmentsAdded [] = 0 := rfl

@[simp] theorem segmentsAdded_append (first second : List (MemoryOp Values)) :
    segmentsAdded (first ++ second) = segmentsAdded first + segmentsAdded second :=
  List.count_append

@[simp] theorem segmentsAdded_addSegment (ops : List (MemoryOp Values)) :
    segmentsAdded (.addSegment :: ops) = segmentsAdded ops + 1 :=
  List.count_cons_self

theorem segmentsAdded_of_ne {op : MemoryOp Values} (other : op ≠ .addSegment) :
    segmentsAdded [op] = 0 :=
  List.count_singleton.trans (if_neg (by simpa using other))

/-- Some prefix of the calls has created a given number of segments and is about to
create the next one. -/
theorem exists_prefix_of_lt_segmentsAdded {ops : List (MemoryOp Values)} {count : Nat}
    (bound : count < segmentsAdded ops) :
    ∃ before after, ops = before ++ .addSegment :: after ∧
      segmentsAdded before = count := by
  induction ops using List.reverseRecOn with
  | nil => cases bound
  | append_singleton ops op ih =>
      by_cases earlier : count < segmentsAdded ops
      · obtain ⟨before, after, split, counted⟩ := ih earlier
        exact ⟨before, after ++ [op], by simp [split], counted⟩
      · have isAdd : op = .addSegment := by
          by_contra other
          rw [segmentsAdded_append, segmentsAdded_of_ne other] at bound
          exact earlier bound
        subst isAdd
        simp only [segmentsAdded_append, segmentsAdded_addSegment,
          segmentsAdded_nil] at bound
        exact ⟨ops, [], rfl, by omega⟩

variable [LawfulCCHashTable Table memoryConf]

/-- A memory in which `created` segments have been created: the counter is their
number modulo `2 ^ 32`, and no cell lies outside them. -/
structure Within (created : Nat) (mem : Memory Table) : Prop where
  counter : mem.numSegments = UInt32.ofNat created
  bounded : ∀ ptr value, cells mem ptr = some value →
    ptr.segmentIndex.toNat < created

namespace Within

theorem initially : Within 0 (memoryNew Table) where
  counter := rfl
  bounded ptr value present := by
    rw [cells_memoryNew] at present
    cases present

omit [LawfulCCHashTable Table memoryConf] in
theorem toNat_numSegments {created : Nat} {mem : Memory Table}
    (within : Within created mem) (noWrap : created < 2 ^ 32) :
    mem.numSegments.toNat = created := by
  rw [within.counter, UInt32.toNat_ofNat', Nat.mod_eq_of_lt noWrap]

omit [LawfulCCHashTable Table memoryConf] in
theorem created_iff {created : Nat} {mem : Memory Table} (within : Within created mem)
    (noWrap : created < 2 ^ 32) {ptr : Relocatable} :
    Created mem.numSegments ptr ↔ ptr.segmentIndex.toNat < created := by
  rw [Created, UInt32.lt_iff_toNat_lt, within.toNat_numSegments noWrap]

omit [LawfulCCHashTable Table memoryConf] in
/-- No cell of a segment that is still to be created is occupied. -/
theorem cells_eq_none {created : Nat} {mem : Memory Table}
    (within : Within created mem) {ptr : Relocatable}
    (outside : created ≤ ptr.segmentIndex.toNat) : cells mem ptr = none := by
  by_contra occupied
  obtain ⟨value, present⟩ := Option.ne_none_iff_exists'.mp occupied
  have below := within.bounded ptr value present
  omega

omit [LawfulCCHashTable Table memoryConf] in
theorem addSegment {created : Nat} {mem : Memory Table} (within : Within created mem) :
    Within (created + 1) (memoryAddSegment mem).2 where
  counter := by
    rw [numSegments_memoryAddSegment, within.counter, UInt32.ofNat_add]
    rfl
  bounded ptr value present :=
    Nat.lt_succ_of_lt (within.bounded ptr value present)

omit [LawfulCCHashTable Table memoryConf] in
/-- A call that creates no segment and whose cells were there before or lie in a
created segment keeps the memory within its segments. -/
theorem of_cells {created : Nat} {mem after : Memory Table}
    (within : Within created mem) (same : after.numSegments = mem.numSegments)
    (stored : ∀ ptr value, cells after ptr = some value →
      cells mem ptr = some value ∨ Created mem.numSegments ptr) :
    Within created after where
  counter := same.trans within.counter
  bounded ptr value present := by
    rcases stored ptr value present with before | inside
    · exact within.bounded ptr value before
    · have bound : ptr.segmentIndex.toNat < created % 2 ^ 32 := by
        rw [← UInt32.toNat_ofNat', ← within.counter]
        exact UInt32.lt_iff_toNat_lt.mp inside
      have fewer := Nat.mod_le created (2 ^ 32)
      omega

theorem loadData {created : Nat} {mem : Memory Table} (within : Within created mem)
    (ptr : Relocatable) (data : Values) :
    Within created (memoryLoadData mem ptr data).2 := by
  refine within.of_cells (numSegments_memoryLoadData mem ptr data) ?_
  intro address value present
  rw [cells_memoryLoadData] at present
  exact permits_of_attempt_snd _ present

theorem insert {created : Nat} {mem : Memory Table} (within : Within created mem)
    (ptr : Relocatable) (value : MaybeRelocatable) :
    Within created (memoryInsert mem ptr value).2 := by
  refine within.of_cells (numSegments_memoryInsert mem ptr value) ?_
  intro address held present
  rw [cells_memoryInsert] at present
  split at present
  · rename_i accepted
    rcases (put_eq_some_iff accepted.2 _ _).mp present with before | written
    · exact Or.inl before
    · rw [← written] at accepted
      exact Or.inr accepted.1
  · exact Or.inl present

theorem step {created : Nat} {mem : Memory Table} (within : Within created mem)
    (op : MemoryOp Values) :
    Within (created + segmentsAdded [op]) (memoryStep mem op) := by
  cases op with
  | addSegment => exact within.addSegment
  | insert ptr value => exact within.insert ptr value
  | loadData ptr data => exact within.loadData ptr data

end Within

/-- The counter is the number of created segments modulo `2 ^ 32`, and no call writes
a cell outside the segments created so far. -/
theorem within_memoryRun (ops : List (MemoryOp Values)) :
    Within (segmentsAdded ops) (memoryRun Table ops) := by
  refine Machine.run_induction memoryStep (memoryNew Table)
    (fun ops mem => Within (segmentsAdded ops) mem) Within.initially ?_ ops
  intro before op within
  rw [segmentsAdded_append]
  exact within.step op

/-- Every segment index handed out is the number of segments created before it. -/
theorem memoryRunSegments_eq (ops : List (MemoryOp Values)) :
    memoryRunSegments Table ops =
      (List.range (segmentsAdded ops)).map fun index => ⟨UInt32.ofNat index, 0⟩ := by
  induction ops using List.reverseRecOn with
  | nil => rfl
  | append_singleton ops op ih =>
      rw [memoryRunSegments_concat, ih, segmentsAdded_append]
      cases op with
      | addSegment =>
          simp [returnedSegments, memoryAddSegment, (within_memoryRun ops).counter,
            List.range_succ]
      | insert ptr value => simp [returnedSegments, segmentsAdded]
      | loadData ptr data => simp [returnedSegments, segmentsAdded]

/-- An index was handed out exactly when it is below the number of segments. -/
theorem exists_mem_memoryRunSegments_iff {ops : List (MemoryOp Values)} {index : UInt32}
    (noWrap : segmentsAdded ops ≤ 2 ^ 32) :
    (∃ segment ∈ memoryRunSegments Table ops, segment.segmentIndex = index) ↔
      index.toNat < segmentsAdded ops := by
  rw [memoryRunSegments_eq]
  simp only [List.mem_map, List.mem_range]
  constructor
  · rintro ⟨segment, ⟨count, bound, rfl⟩, rfl⟩
    rw [UInt32.toNat_ofNat', Nat.mod_eq_of_lt (by omega)]
    exact bound
  · intro bound
    exact ⟨_, ⟨index.toNat, bound, rfl⟩, UInt32.ofNat_toNat⟩

/-! ## Identification of segments -/

/-- In every state of the run, indices identify segments: a new segment gets an
index that no earlier segment got and none of its cells is readable, and a value can
be put into an unoccupied cell exactly when the segment of the cell was created. -/
structure SegmentsIdentified (Table : Type)
    [CCHashTable Table Relocatable MaybeRelocatable] (ops : List (MemoryOp Values)) :
    Prop where
  fresh : ∀ before after, ops = before ++ .addSegment :: after →
    (memoryAddSegment (memoryRun Table before)).1.offset = 0 ∧
    (∀ earlier ∈ memoryRunSegments Table before, earlier.segmentIndex ≠
      (memoryAddSegment (memoryRun Table before)).1.segmentIndex) ∧
    ∀ offset, memoryGet (memoryAddSegment (memoryRun Table before)).2
      ⟨(memoryAddSegment (memoryRun Table before)).1.segmentIndex, offset⟩ =
        .error .get
  accepts : ∀ before after, ops = before ++ after → ∀ ptr value,
    memoryGet (memoryRun Table before) ptr = .error .get →
      ((memoryInsert (memoryRun Table before) ptr value).1 = .ok () ↔
        ∃ segment ∈ memoryRunSegments Table before,
          segment.segmentIndex = ptr.segmentIndex)

theorem segmentsIdentified_of_lt {ops : List (MemoryOp Values)}
    (noWrap : segmentsAdded ops < 2 ^ 32) : SegmentsIdentified Table ops where
  fresh := by
    rintro before after rfl
    rw [segmentsAdded_append, segmentsAdded_addSegment] at noWrap
    have index : (memoryAddSegment (memoryRun Table before)).1.segmentIndex.toNat =
        segmentsAdded before := by
      rw [memoryAddSegment, (within_memoryRun _).counter, UInt32.toNat_ofNat',
        Nat.mod_eq_of_lt (by omega)]
    refine ⟨rfl, ?_, ?_⟩
    · intro earlier member same
      have below := (exists_mem_memoryRunSegments_iff (by omega)).mp
        ⟨earlier, member, rfl⟩
      rw [same, index] at below
      exact Nat.lt_irrefl _ below
    · intro offset
      rw [memoryGet_eq_error_iff, cells_memoryAddSegment]
      exact ⟨(within_memoryRun before).cells_eq_none (Nat.le_of_eq index.symm), rfl⟩
  accepts := by
    rintro before after rfl ptr value unoccupied
    rw [segmentsAdded_append] at noWrap
    have empty := (memoryGet_eq_error_iff.mp unoccupied).1
    rw [exists_mem_memoryRunSegments_iff (by omega), memoryInsert_ok_iff]
    have within : Within (segmentsAdded before) (memoryRun Table before) :=
      within_memoryRun before
    rw [← within.created_iff (by omega)]
    exact ⟨fun accepted => accepted.1,
      fun present => ⟨present, agrees_of_none empty⟩⟩

/-- When the counter wraps to zero, the segment created by the wrapping call was
handed out but no longer accepts a value. -/
theorem not_segmentsIdentified_of_wrap {ops : List (MemoryOp Values)}
    (wraps : 2 ^ 32 ≤ segmentsAdded ops) : ¬SegmentsIdentified Table ops := by
  intro identified
  have bound : 2 ^ 32 - 1 < segmentsAdded ops := by omega
  obtain ⟨before, after, split, counted⟩ := exists_prefix_of_lt_segmentsAdded bound
  have splitLater : ops = (before ++ [.addSegment]) ++ after := by simp [split]
  have lastIndex : UInt32.toNat (UInt32.ofNat (2 ^ 32 - 1)) = 2 ^ 32 - 1 :=
    UInt32.toNat_ofNat_of_lt' (by decide)
  have noSegments : (memoryRun Table (before ++ [.addSegment])).numSegments = 0 := by
    rw [(within_memoryRun _).counter, segmentsAdded_append, counted]
    rfl
  have unoccupied : memoryGet (memoryRun Table (before ++ [.addSegment]))
      ⟨UInt32.ofNat (2 ^ 32 - 1), 0⟩ = .error .get := by
    have outside : segmentsAdded before ≤ UInt32.toNat (UInt32.ofNat (2 ^ 32 - 1)) := by
      rw [counted, lastIndex]
    rw [memoryGet_eq_error_iff, memoryRun_concat, memoryStep_addSegment,
      cells_memoryAddSegment]
    exact ⟨(within_memoryRun before).cells_eq_none outside, rfl⟩
  have returned : ∃ segment ∈ memoryRunSegments Table (before ++ [.addSegment]),
      segment.segmentIndex = UInt32.ofNat (2 ^ 32 - 1) := by
    rw [exists_mem_memoryRunSegments_iff] <;>
      rw [segmentsAdded_append, counted]
    · rw [lastIndex]
      decide
    · decide
  have accepted := (identified.accepts _ _ splitLater _
    (.relocatable ⟨0, 0⟩) unoccupied).mpr returned
  have created := (memoryInsert_ok_iff.mp accepted).1
  rw [noSegments] at created
  exact absurd (UInt32.lt_iff_toNat_lt.mp created) (Nat.not_lt_zero _)

/-- Segment indices identify segments in exactly the runs that create fewer than
`2 ^ 32` of them. -/
theorem segmentsIdentified_iff (ops : List (MemoryOp Values)) :
    SegmentsIdentified Table ops ↔ segmentsAdded ops < 2 ^ 32 := by
  constructor
  · intro identified
    by_contra wraps
    exact not_segmentsIdentified_of_wrap (Nat.not_lt.mp wraps) identified
  · exact segmentsIdentified_of_lt

theorem segmentsIdentified_two_segments :
    SegmentsIdentified CellTable
      [.addSegment, .insert ⟨0, 7⟩ (.relocatable ⟨5, 1⟩), .addSegment] :=
  (segmentsIdentified_iff _).mpr (by decide)

/-- After `2 ^ 32` calls of `memory_add_segment` every insert is rejected, although
every index was handed out. -/
theorem segmentsIdentified_fails_at_wrap :
    ¬∀ ops : List (MemoryOp Values), SegmentsIdentified CellTable ops := by
  intro identified
  refine not_segmentsIdentified_of_wrap ?_
    (identified (List.replicate (2 ^ 32) .addSegment))
  exact Nat.le_of_eq List.count_replicate_self.symm

end CairoVM
