import CairoVM.Memory.Load
import CairoVM.Memory.Segments

/-!
# Replaying a load

A successful load pins every cell that it targets to the element it put there.  No
later call can change such a cell, so the same load can be performed again at any
time: it succeeds, returns the same pointer, and changes nothing.
-/

namespace CairoVM

open WriteOnce

variable {Table : Type} [CCHashTable Table Relocatable MaybeRelocatable]
  [LawfulCCHashTable Table memoryConf]

/-- After a successful load all its writes are in the memory. -/
theorem recorded_of_memoryLoadData_ok {mem : Memory Table} {ptr endPtr : Relocatable}
    {data : Values}
    (loaded : (memoryLoadData mem ptr data).1 = .ok endPtr) :
    Recorded (cells (memoryLoadData mem ptr data).2) (loadWrites ptr data) := by
  obtain ⟨-, accepted⟩ := memoryLoadData_ok_iff.mp loaded
  rw [cells_memoryLoadData,
    attempt_snd_of_accepted _ ((attempt_fst_iff _ _ _).mpr accepted)]
  exact accepted.2.recorded

/-- A load whose writes are in the memory succeeds and changes nothing. -/
theorem memoryLoadData_of_recorded {mem : Memory Table} {ptr : Relocatable}
    {data : Values}
    (created : ∀ write ∈ loadWrites ptr data, Created mem.numSegments write.1)
    (recorded : Recorded (cells mem) (loadWrites ptr data)) :
    (memoryLoadData mem ptr data).1 = .ok (ptr.advance data.length) ∧
      cells (memoryLoadData mem ptr data).2 = cells mem := by
  obtain ⟨verdict, stored, -⟩ := memoryLoadData_refines mem ptr data
  rw [attempt_of_recorded _ created recorded] at verdict stored
  exact ⟨verdict, stored⟩

/-- Segments stay created as long as the segment counter does not wrap. -/
theorem created_memoryRun_append {before later : List (MemoryOp Values)} {ptr : Relocatable}
    (noWrap : segmentsAdded (before ++ later) < 2 ^ 32)
    (created : Created (memoryRun Table before).numSegments ptr) :
    Created (memoryRun Table (before ++ later)).numSegments ptr := by
  have counted := segmentsAdded_append before later
  rw [(within_memoryRun before).created_iff (by omega)] at created
  rw [(within_memoryRun (before ++ later)).created_iff noWrap]
  omega

/-- A load that succeeded once in a run can be repeated at the end of the run: it
succeeds, returns the same pointer, and changes nothing. -/
theorem memoryLoadData_replay (before later : List (MemoryOp Values))
    (ptr endPtr : Relocatable)
    (data : Values)
    (noWrap : segmentsAdded (before ++ .loadData ptr data :: later) < 2 ^ 32)
    (loaded : (memoryLoadData (memoryRun Table before) ptr data).1 = .ok endPtr) :
    let mem := memoryRun Table (before ++ .loadData ptr data :: later)
    (memoryLoadData mem ptr data).1 = .ok endPtr ∧
      (memoryLoadData mem ptr data).2.numSegments = mem.numSegments ∧
      ∀ address, memoryGet (memoryLoadData mem ptr data).2 address =
        memoryGet mem address := by
  intro mem
  obtain ⟨atEnd, created, -⟩ := memoryLoadData_ok_iff.mp loaded
  have stillCreated : ∀ write ∈ loadWrites ptr data, Created mem.numSegments write.1 :=
    fun write member => created_memoryRun_append noWrap (created write member)
  have recorded : Recorded (cells mem) (loadWrites ptr data) := by
    have pinned := recorded_of_memoryLoadData_ok loaded
    have grows : (cells mem).Extends
        (cells (memoryLoadData (memoryRun Table before) ptr data).2) := by
      change (cells (memoryRun Table _)).Extends _
      rw [memoryRun_append]
      exact cells_run_extends _ later
    exact pinned.of_extends grows
  obtain ⟨replayed, unchanged⟩ := memoryLoadData_of_recorded stillCreated recorded
  refine ⟨by rw [replayed, atEnd], numSegments_memoryLoadData mem ptr data, ?_⟩
  intro address
  exact memoryGet_congr (congrFun unchanged address)

/-- Two elements at the last offset of a segment, so that the second one wraps to
offset 0, replayed after a rejected insert and another load. -/
theorem memoryLoadData_replay_wrapped :
    let mem := memoryRun CellTable
      ([.addSegment] ++
        .loadData ⟨0, 0xFFFFFFFF⟩ [.relocatable ⟨1, 0⟩, .felt #v[0, 0, 0, 2]] ::
        [.insert ⟨0, 0⟩ (.relocatable ⟨1, 0⟩), .addSegment,
          .loadData ⟨1, 0⟩ [.felt #v[0, 0, 0, 2]]])
    (memoryLoadData mem ⟨0, 0xFFFFFFFF⟩
      [.relocatable ⟨1, 0⟩, .felt #v[0, 0, 0, 2]]).1 = .ok ⟨0, 1⟩ :=
  (memoryLoadData_replay _ _ _ ⟨0, 1⟩ _ (by decide) rfl).1

end CairoVM
