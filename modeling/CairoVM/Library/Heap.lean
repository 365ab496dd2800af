import Mathlib.Data.Finmap
import Mathlib.Order.Lattice.Nat
import CairoVM.Library.Failing

/-!
# Programs on a heap

A heap is a finite map from addresses to blocks.  Programs allocate, release, read and
write blocks through pointers, and stop with a fault where C leaves their behaviour
undefined: on an access through a pointer that designates no block, and on the release
of a block that `malloc` did not return or that was released before.
-/

namespace HeapLogic

abbrev Address := Nat

/-- The value of a pointer variable.  An indeterminate pointer was never assigned. -/
inductive Pointer where
  | null
  | indeterminate
  | target (address : Address)
  deriving DecidableEq, Repr

/-- Dynamic blocks come from `malloc`, automatic ones are local variables. -/
inductive Storage where
  | dynamic
  | automatic
  deriving DecidableEq, Repr

structure Block (Content : Type) where
  storage : Storage
  content : Content
  deriving DecidableEq, Repr

/-- The blocks that exist, by address. -/
abbrev Heap (Content : Type) := Finmap fun _ : Address => Block Content

/-- Why a program has no defined behaviour. -/
inductive Fault where
  | nullAccess
  | indeterminateAccess
  | danglingAccess
  | outOfBounds
  | unexpectedContent
  | wrongRelease
  deriving DecidableEq, Repr

/-- Why a program does not return: a fault, or an error that nobody catches. -/
inductive Stop (Error : Type) where
  | fault (reason : Fault)
  | thrown (error : Error)
  deriving DecidableEq, Repr

/-- Where blocks are placed.  Nothing is known about the choice except that the address
is not in use; `malloc` may also fail. -/
structure Platform (Content : Type) where
  place : Heap Content → Content → Option Address
  place_fresh : ∀ {heap content address},
    place heap content = some address → address ∉ heap
  placeLocal : Heap Content → Content → Address
  placeLocal_fresh : ∀ heap content, placeLocal heap content ∉ heap

/-- Some allocation fails. -/
def Platform.MayFail {Content : Type} (platform : Platform Content) : Prop :=
  ∃ heap content, platform.place heap content = none

/-- A program transforms the heap and returns a result, unless it stops. -/
abbrev Program (Content Error : Type) : Type → Type :=
  StateT (Heap Content) (Except (Stop Error))

section Operations

variable {Content Error Result : Type}

/-- Stop. -/
def stop (reason : Stop Error) : Program Content Error Result :=
  fun _ => .error reason

/-- `malloc`, of a block with the given content until it is written. -/
def malloc (platform : Platform Content) (initial : Content) :
    Program Content Error Pointer := fun heap =>
  match platform.place heap initial with
  | none => .ok (.null, heap)
  | some address => .ok (.target address, heap.insert address ⟨.dynamic, initial⟩)

/-- `free`. -/
def free : Pointer → Program Content Error Unit
  | .null => pure ()
  | .indeterminate => stop (.fault .indeterminateAccess)
  | .target address => fun heap =>
      match heap.lookup address with
      | none => .error (.fault .danglingAccess)
      | some ⟨.automatic, _⟩ => .error (.fault .wrongRelease)
      | some ⟨.dynamic, _⟩ => .ok ((), heap.erase address)

/-- Read the block that a pointer designates. -/
def load : Pointer → Program Content Error Content
  | .null => stop (.fault .nullAccess)
  | .indeterminate => stop (.fault .indeterminateAccess)
  | .target address => fun heap =>
      match heap.lookup address with
      | none => .error (.fault .danglingAccess)
      | some block => .ok (block.content, heap)

/-- Write the block that a pointer designates. -/
def store (pointer : Pointer) (content : Content) : Program Content Error Unit :=
  match pointer with
  | .null => stop (.fault .nullAccess)
  | .indeterminate => stop (.fault .indeterminateAccess)
  | .target address => fun heap =>
      match heap.lookup address with
      | none => .error (.fault .danglingAccess)
      | some block => .ok ((), heap.insert address ⟨block.storage, content⟩)

/-- Read the block that a pointer designates at the type that the program expects. -/
def loadAs {Value : Type} (select : Content → Option Value) (pointer : Pointer) :
    Program Content Error Value := do
  let content ← load pointer
  match select content with
  | some value => pure value
  | none => stop (.fault .unexpectedContent)

/-- Run a function body with a local variable, which is gone when the body returns. -/
def withLocal (platform : Platform Content) (initial : Content)
    (body : Pointer → Program Content Error Result) : Program Content Error Result :=
  fun heap =>
    let address := platform.placeLocal heap initial
    match body (.target address) (heap.insert address ⟨.automatic, initial⟩) with
    | .error reason => .error reason
    | .ok (result, heap) => .ok (result, heap.erase address)

end Operations

/-- A program that returns has returned from each of its parts. -/
theorem run_bind_eq_ok_iff {Content Error Result Next : Type}
    {program : Program Content Error Result} {next : Result → Program Content Error Next}
    {heap : Heap Content} {outcome : Next × Heap Content} :
    (program >>= next) heap = .ok outcome ↔
      ∃ result middle, program heap = .ok (result, middle) ∧
        next result middle = .ok outcome := by
  change (program heap >>= fun middle => next middle.1 middle.2) = .ok outcome ↔ _
  rw [Failing.bind_eq_ok_iff, Prod.exists]

/-! ## A platform that never fails -/

/-- An address above all that are in use. -/
def nextAddress {Content : Type} (heap : Heap Content) : Address :=
  heap.keys.sup id + 1

theorem nextAddress_fresh {Content : Type} (heap : Heap Content) :
    nextAddress heap ∉ heap := by
  intro member
  have bound : nextAddress heap ≤ heap.keys.sup id :=
    Finset.le_sup (f := id) (Finmap.mem_keys.mpr member)
  exact absurd bound (Nat.not_succ_le_self _)

/-- Blocks are placed above all others. -/
def bumpPlatform (Content : Type) : Platform Content where
  place heap _ := some (nextAddress heap)
  place_fresh := by
    rintro heap content address placed
    obtain rfl := Option.some.inj placed
    exact nextAddress_fresh heap
  placeLocal heap _ := nextAddress heap
  placeLocal_fresh heap _ := nextAddress_fresh heap

theorem not_mayFail_bumpPlatform (Content : Type) :
    ¬(bumpPlatform Content).MayFail := by
  rintro ⟨heap, content, failed⟩
  cases failed

end HeapLogic
