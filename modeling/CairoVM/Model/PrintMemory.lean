import CairoVM.Library.Decimal
import CairoVM.Model.Memory

/-!
# Printing the memory

`print_memory` of `memory.c`.  The text of every `printf` call is one line.  The inner
loop of the function may run for ever, so the model takes the number of iterations that
it may make.
-/

namespace CairoVM

open Decimal

variable {Table : Type} [CCHashTable Table Relocatable MaybeRelocatable]

/-- `%i` with an `unsigned int`. -/
def formatInt (value : UInt32) : List Char := intText value.toInt32.toInt

/-- `%llu`. -/
def formatUnsigned (value : UInt64) : List Char := natText value.toNat

/-- The first line. -/
def printHeader : List Char := "------------------MEMORY------------------\n".toList

/-- The last line. -/
def printFooter : List Char := "------------------------------------------\n".toList

/-- The line of a cell. -/
def printCell (ptr : Relocatable) : MaybeRelocatable → List Char
  | .felt f =>
      formatInt ptr.segmentIndex ++ (":".toList ++ (formatInt ptr.offset ++
        (" : [".toList ++ (List.intercalate ", ".toList (f.toList.map formatUnsigned) ++
          "]\n".toList))))
  | .relocatable r =>
      formatInt ptr.segmentIndex ++ (":".toList ++ (formatInt ptr.offset ++
        (" : ".toList ++ (formatInt r.segmentIndex ++ (":".toList ++
          (formatInt r.offset ++ "\n".toList))))))

/-- The `while` loop: print the cells from an address on, until `memory_get` fails. -/
def printCells (mem : Memory Table) : Nat → Relocatable → Option (List (List Char))
  | 0, _ => none
  | fuel + 1, ptr =>
      match memoryGet mem ptr with
      | .error _ => some []
      | .ok v =>
          (printCells mem fuel { ptr with offset := ptr.offset + 1 }).map
            (printCell ptr v :: ·)

/-- `print_memory`.  The counter of the `for` loop is an `int`, and so is its bound. -/
def printMemory (fuel : Nat) (mem : Memory Table) : Option (List (List Char)) := do
  let bound : Int := mem.numSegments.toInt32.toInt
  let segments ← (List.range bound.toNat).mapM fun i =>
    printCells mem fuel ⟨UInt32.ofNat i, 0⟩
  pure (printHeader :: (segments.flatten ++ [printFooter]))

end CairoVM
