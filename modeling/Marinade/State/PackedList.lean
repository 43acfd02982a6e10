import Marinade.Foundation.Buffer
import Marinade.State.List

/-!
# The bytes of a record list

A list of records is kept in two accounts: the size of a slot and the number of live ones are in the
state, the slots are in the data of an account of their own, behind a discriminator of eight bytes.
The functions here work on these bytes the way the source does, with its products of 32 bits and its
slices, either of which could be out of range.

A call that fails has done what it did up to there, so the state is kept along with the error.
-/

open Foundation

namespace Marinade

/-- The `List` of the state together with the data of its account. -/
structure PackedList where
  itemSize : ℕ
  count : ℕ
  data : List UInt8
  deriving DecidableEq, Repr

/-- A computation on a list that may fail half way. -/
abbrev ListM (α : Type) := ExceptT Error (StateM PackedList) α

/-- The result and the list it leaves. -/
def ListM.exec {α : Type} (x : ListM α) (s : PackedList) : Except Error α × PackedList :=
  x.run s

/-- Stop with `e` unless `c` holds. -/
def ListM.require (c : Prop) [Decidable c] (e : Error) : ListM Unit :=
  if c then pure () else throw e

namespace PackedList

open ListM

variable {α : Type}

/-- `init_account`: the discriminator goes in front of an account that is not in use yet. -/
def new (discriminator : Vector UInt8 8) (itemSize : ℕ) (data : List UInt8) :
    Except Error PackedList := do
  ensure (8 ≤ data.length) .constraint
  ensure (data.take 8 = List.replicate 8 0) .constraint
  return { itemSize, count := 0, data := overwrite data 0 discriminator.toList }

def capacity (list : PackedList) (accountLen : ℕ) : Except Error ℕ :=
  if accountLen < 8 then .error .accountDataTooSmall
  else if u32Max < accountLen - 8 then .error MarinadeError.calculationFailure
  else if list.itemSize = 0 then .ok u32Max
  else .ok ((accountLen - 8) / list.itemSize)

/-- `data[start..start + n]` -/
def bytesAt (start n : ℕ) : ListM (List UInt8) := do
  let list ← getThe PackedList
  require (start + n ≤ list.data.length) (.assertion .sliceRange)
  return slice list.data start n

/-- Serialize into `data[start..start + n]`. The cursor stops at the end of the slice. -/
def write (codec : Codec α UInt8) (start n : ℕ) (item : α) : ListM Unit := do
  let _ ← bytesAt start n
  modify fun list ↦
    { list with data := overwrite list.data start ((codec.serialize item).take n) }
  require ((codec.serialize item).length ≤ n) .borshIo

def get (codec : Codec α UInt8) (index : ℕ) : ListM α := do
  let list ← getThe PackedList
  require (index < list.count) MarinadeError.listIndexOutOfBounds
  let offset ← checkedMul32 index list.itemSize
  let bytes ← bytesAt (8 + offset) list.itemSize
  match codec.deserialize bytes with
  | some item => return item
  | none => throw .borshIo

def set (codec : Codec α UInt8) (index : ℕ) (item : α) : ListM Unit := do
  let list ← getThe PackedList
  require (index < list.count) MarinadeError.listIndexOutOfBounds
  let offset ← checkedMul32 index list.itemSize
  write codec (8 + offset) list.itemSize item

def push (codec : Codec α UInt8) (item : α) : ListM Unit := do
  let list ← getThe PackedList
  let capacity ← list.capacity list.data.length
  require (list.count < capacity) MarinadeError.listOverflow
  let offset ← checkedMul32 list.count list.itemSize
  write codec (8 + offset) list.itemSize item
  let count ← addUpTo u32Max list.count 1
  modify fun list ↦ { list with count }

/-- `copy_within`: both ranges must be inside. -/
def copyWithin (src n dest : ℕ) : ListM Unit := do
  let bytes ← bytesAt src n
  let _ ← bytesAt dest n
  modify fun list ↦ { list with data := overwrite list.data dest bytes }

def remove (index : ℕ) : ListM Unit := do
  let list ← getThe PackedList
  require (index < list.count) MarinadeError.listIndexOutOfBounds
  -- there is an index below the count
  let count := list.count - 1
  modify fun list ↦ { list with count }
  if index = count then return ()
  else
    let offset ← checkedMul32 index list.itemSize
    let lastOffset ← checkedMul32 count list.itemSize
    copyWithin (8 + lastOffset) list.itemSize (8 + offset)

/-- The account with `newLen` bytes. What the new ones are is not said. -/
def resize (fresh : ℕ → UInt8) (newLen : ℕ) (data : List UInt8) : List UInt8 :=
  data.take newLen ++ (List.range (newLen - data.length)).map fresh

/-- `realloc_stake_list` and `realloc_validator_list`: the account is resized before the count is
compared. -/
def realloc (fresh : ℕ → UInt8) (capacity : ℕ) : ListM Unit := do
  let list ← getThe PackedList
  let len ← checkedMul32 list.itemSize capacity
  modify fun list ↦ { list with data := resize fresh (8 + len) list.data }
  require (list.count ≤ capacity) MarinadeError.shrinkingListWithDeletingContents

end PackedList

/-! ## Running a computation -/

namespace ListM

variable {α β : Type} {x : ListM α} {f : α → ListM β} {s s' : PackedList} {a : α} {e : Error}
  {c : Prop} [Decidable c]

theorem exec_bind_of_ok (h : x.exec s = (.ok a, s')) : (x >>= f).exec s = (f a).exec s' := by
  have hx : x.run s = (.ok a, s') := h
  change StateT.bind x.run (ExceptT.bindCont f) s = _
  simp only [StateT.bind, hx]
  rfl

theorem exec_bind_of_error (h : x.exec s = (.error e, s')) :
    (x >>= f).exec s = (.error e, s') := by
  have hx : x.run s = (.error e, s') := h
  change StateT.bind x.run (ExceptT.bindCont f) s = _
  simp only [StateT.bind, hx]
  rfl

theorem exec_pure : (pure a : ListM α).exec s = (.ok a, s) :=
  rfl

theorem exec_getThe : (getThe PackedList : ListM PackedList).exec s = (.ok s, s) :=
  rfl

theorem exec_modify {g : PackedList → PackedList} :
    (modify g : ListM PUnit).exec s = (.ok (), g s) :=
  rfl

theorem exec_require (h : c) : (require c e).exec s = (.ok (), s) := by
  rw [require, if_pos h]
  rfl

theorem exec_require_not (h : ¬c) : (require c e).exec s = (.error e, s) := by
  rw [require, if_neg h]
  rfl

/-- A computation that does not look at the list. -/
theorem exec_lift {y : Except Error α} (h : y = .ok a) :
    (liftM y : ListM α).exec s = (.ok a, s) := by
  rw [h]
  rfl

theorem exec_lift_error {y : Except Error α} (h : y = .error e) :
    (liftM y : ListM α).exec s = (.error e, s) := by
  rw [h]
  rfl

end ListM

end Marinade
