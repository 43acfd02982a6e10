import Marinade.Error
import Marinade.Foundation.Records

/-!
# Record lists kept in account data

The stake list and the validator list are arrays of fixed-size slots behind an eight byte
discriminator. Only the first `count` slots are live, and removing a record moves the last live one
into its slot. The model keeps the live records as a list; what the bytes behind them hold is never
read.

`fits` says that the live slots are inside the account data, so the slices the source takes are
always in range.
-/

open Foundation

namespace Marinade

/-- A list of records in the data of an account. -/
structure AccountList (α : Type) where
  items : List α
  /-- Bytes of one slot. -/
  itemSize : ℕ
  /-- Bytes of the account. -/
  dataLen : ℕ
  fits : 8 + items.length * itemSize ≤ dataLen

namespace AccountList

variable {α : Type}

/-- The list that initialization leaves in an account: the discriminator and no records. -/
def new (itemSize : ℕ) (dataLen : ℕ) : Except Error (AccountList α) :=
  if h : 8 ≤ dataLen then .ok ⟨[], itemSize, dataLen, by simpa using h⟩
  else .error .constraint

def len (list : AccountList α) : ℕ :=
  list.items.length

def capacity (list : AccountList α) : Except Error ℕ :=
  if list.dataLen < 8 then .error .accountDataTooSmall
  else if u32Max < list.dataLen - 8 then .error MarinadeError.calculationFailure
  else if list.itemSize = 0 then .ok u32Max
  else .ok ((list.dataLen - 8) / list.itemSize)

def get (list : AccountList α) (index : ℕ) : Except Error α :=
  orError list.items[index]? MarinadeError.listIndexOutOfBounds

def set (list : AccountList α) (index : ℕ) (item : α) : Except Error (AccountList α) :=
  if index < list.len then
    .ok { list with
      items := list.items.set index item
      fits := by rw [List.length_set]; exact list.fits }
  else .error MarinadeError.listIndexOutOfBounds

private theorem push_fits (list : AccountList α) {c : ℕ} (hc : list.capacity = .ok c)
    (h : list.len < c) (item : α) :
    8 + (list.items ++ [item]).length * list.itemSize ≤ list.dataLen := by
  unfold capacity at hc
  unfold len at h
  rw [List.length_append, List.length_singleton]
  split at hc
  · cases hc
  split at hc
  · cases hc
  split at hc
  · have hf := list.fits
    simp_all
  · cases hc
    have hmul := Nat.mul_le_mul_right list.itemSize (Nat.succ_le_of_lt h)
    have hdiv := Nat.div_mul_le_self (list.dataLen - 8) list.itemSize
    simp only [Nat.succ_eq_add_one] at hmul
    omega

def push (list : AccountList α) (item : α) : Except Error (AccountList α) :=
  match hc : list.capacity with
  | .error e => .error e
  | .ok c =>
    if h : list.len < c then
      .ok { list with items := list.items ++ [item], fits := push_fits list hc h item }
    else .error MarinadeError.listOverflow

private theorem remove_fits (list : AccountList α) {index : ℕ} (h : index < list.len) :
    8 + (swapRemove list.items index).length * list.itemSize ≤ list.dataLen := by
  have hlen := length_swapRemove (List.getElem?_eq_getElem h)
  have hf := list.fits
  have hmul : (swapRemove list.items index).length * list.itemSize
      ≤ list.items.length * list.itemSize := Nat.mul_le_mul_right _ (by omega)
  omega

def remove (list : AccountList α) (index : ℕ) : Except Error (AccountList α) :=
  if h : index < list.len then
    .ok { list with items := swapRemove list.items index, fits := remove_fits list h }
  else .error MarinadeError.listIndexOutOfBounds

section

variable {list list' : AccountList α} {index : ℕ} {item : α} {e : Error}

theorem get_eq_ok : list.get index = .ok item ↔ list.items[index]? = some item :=
  orError_eq_ok

/-- What `get` found is a record of the list. -/
theorem mem_of_get (h : list.get index = .ok item) : item ∈ list.items :=
  List.mem_of_getElem? (get_eq_ok.mp h)

theorem set_items (h : list.set index item = .ok list') :
    list'.items = list.items.set index item := by
  unfold set at h
  split at h
  · cases h; rfl
  · cases h

/-- What was written is there. -/
theorem get_of_set (h : list.set index item = .ok list') : list'.items[index]? = some item := by
  unfold set at h
  split at h
  · rename_i hi
    cases h
    exact List.getElem?_set_self hi
  · cases h

/-- The same overwrite a second time changes nothing. -/
theorem set_again (h : list.set index item = .ok list') : list'.set index item = .ok list' := by
  unfold set at h ⊢
  split at h
  · rename_i hi
    cases h
    rw [if_pos (by rw [len, List.length_set]; exact hi)]
    simp only [List.set_set]
  · cases h

theorem push_items (h : list.push item = .ok list') : list'.items = list.items ++ [item] := by
  unfold push at h
  split at h
  · cases h
  · split at h
    · cases h; rfl
    · cases h

theorem remove_items (h : list.remove index = .ok list') :
    list'.items = swapRemove list.items index := by
  unfold remove at h
  split at h
  · cases h; rfl
  · cases h

theorem new_items {itemSize : ℕ} {dataLen : ℕ} (h : new itemSize dataLen = .ok list) :
    list.items = [] := by
  unfold new at h
  split at h
  · cases h; rfl
  · cases h

/-- An overwrite of a record that was read does not fail. -/
theorem set_ok_of_get (item' : α) (h : list.get index = .ok item) :
    ∃ list', list.set index item' = .ok list' := by
  have hi := (List.getElem?_eq_some_iff.mp (get_eq_ok.mp h)).1
  exact ⟨_, if_pos hi⟩

end

end AccountList

end Marinade
