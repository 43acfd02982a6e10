import Marinade.Instructions.Admin.Config
import Marinade.Foundation.System
import Marinade.State.PackedList

/-!
# The bytes refine the list

Whatever is done to the bytes of a record list, they stand for a plain list of records, and what is
done to them is what would be done to it. Along the way no product leaves its 32 bits and no slice
is out of range, because the live slots are inside the account and the account is not larger than
what 32 bits can say.
-/

open Foundation

namespace Marinade

/-- What can be done to a record list. -/
inductive ListOp (α : Type)
  | push (item : α)
  | get (index : ℕ)
  | set (index : ℕ) (item : α)
  | remove (index : ℕ)
  | realloc (capacity : ℕ)
  deriving DecidableEq, Repr

namespace ListOp

variable {α : Type}

/-- A resized account counts only if the instruction succeeds. -/
def Accepted : ListOp α → Except Error (Option α) → Prop
  | realloc _, r => r = .ok none
  | _, _ => True

/-- The one slot that may be written. -/
def touches (count : ℕ) : ListOp α → Option ℕ
  | push _ => some count
  | set index _ => some index
  | remove index => some index
  | get _ => none
  | realloc _ => none

/-- What a call returns and makes of a plain list, when there is room for `capacity` records. -/
def apply (capacity : ℕ) (items : List α) : ListOp α → Except Error (Option α) × List α
  | push item =>
    if items.length < capacity then (.ok none, items ++ [item])
    else (.error MarinadeError.listOverflow, items)
  | get index =>
    match items[index]? with
    | some item => (.ok (some item), items)
    | none => (.error MarinadeError.listIndexOutOfBounds, items)
  | set index item =>
    if index < items.length then (.ok none, items.set index item)
    else (.error MarinadeError.listIndexOutOfBounds, items)
  | remove index =>
    if index < items.length then (.ok none, swapRemove items index)
    else (.error MarinadeError.listIndexOutOfBounds, items)
  | realloc _ => (.ok none, items)

end ListOp

/-! ## Bytes and records -/

namespace PackedList

variable {α : Type}

def perform (codec : Codec α UInt8) (fresh : ℕ → UInt8) : ListOp α → ListM (Option α)
  | .push item => do
    push codec item
    return none
  | .get index => do
    let item ← get codec index
    return some item
  | .set index item => do
    set codec index item
    return none
  | .remove index => do
    remove index
    return none
  | .realloc capacity => do
    realloc fresh capacity
    return none

/-- The list in the bytes of an account, and what happens to it. -/
def system (codec : Codec α UInt8) (itemSize : ℕ) :
    System PackedList (ListOp α × Except Error (Option α)) where
  init s := s.itemSize = itemSize ∧ s.count = 0 ∧ 8 ≤ s.data.length ∧ s.data.length < 2 ^ 32
  step s l s' := l.1.Accepted l.2 ∧ ∃ fresh, (perform codec fresh l.1).exec s = (l.2, s')

end PackedList

namespace AccountList

variable {α : Type}

/-- A call that changes the list if it succeeds. -/
def keeping (list : AccountList α) :
    Except Error (AccountList α) → Except Error (Option α) × AccountList α
  | .ok list' => (.ok none, list')
  | .error e => (.error e, list)

def perform (list : AccountList α) : ListOp α → Except Error (Option α) × AccountList α
  | .push item => list.keeping (list.push item)
  | .get index => (some <$> list.get index, list)
  | .set index item => list.keeping (list.set index item)
  | .remove index => list.keeping (list.remove index)
  | .realloc capacity => list.keeping (list.realloc capacity)

/-- The plain list, and what happens to it. -/
def system (α : Type) (itemSize : ℕ) :
    System (AccountList α) (ListOp α × Except Error (Option α)) where
  init list := ∃ dataLen, dataLen < 2 ^ 32 ∧ new itemSize dataLen = .ok list
  step list l list' := l.1.Accepted l.2 ∧ list.perform l.1 = (l.2, list')

end AccountList

/-- The live slots hold the records, and the account is large enough but not too large. -/
structure Represents {α : Type} (codec : Codec α UInt8) (s : PackedList) (list : AccountList α) :
    Prop where
  size_pos : 0 < s.itemSize
  size_eq : s.itemSize = list.itemSize
  count_eq : s.count = list.len
  len_eq : s.data.length = list.dataLen
  in_range : s.data.length ≤ 8 + u32Max
  slots : ∀ i item, list.items[i]? = some item →
    ∃ padding, slot 8 s.itemSize s.data i = codec.serialize item ++ padding

/-- What a call leaves alone: all bytes outside of the slot it may write, and everything if it
fails. -/
structure Kept {α : Type} (op : ListOp α) (r : Except Error (Option α)) (s s' : PackedList) :
    Prop where
  size_eq : s'.itemSize = s.itemSize
  bytes : ∀ p, p < s.data.length → p < s'.data.length →
    (∀ i, op.touches s.count = some i →
      p < 8 + i * s.itemSize ∨ 8 + i * s.itemSize + s.itemSize ≤ p) →
    s'.data[p]? = s.data[p]?
  failed : ∀ e, r = .error e → s' = s

section

variable {α : Type} {codec : Codec α UInt8} {s s' : PackedList} {list list' : AccountList α}
  {item : α} {index n : ℕ} {fresh : ℕ → UInt8}

open PackedList ListM

namespace Represents

/-- A live slot is inside the account, and its offset fits 32 bits. -/
theorem inside (h : Represents codec s list) (hi : index < s.count) :
    8 + index * s.itemSize + s.itemSize ≤ s.data.length := by
  have hfits := list.fits
  rw [← h.size_eq, ← h.len_eq] at hfits
  have hcount : s.count = list.items.length := h.count_eq
  rw [← hcount] at hfits
  exact (slot_end_le 8 s.itemSize hi).trans hfits

theorem offset_ok (h : Represents codec s list)
    (hin : 8 + index * s.itemSize + s.itemSize ≤ s.data.length) :
    checkedMul32 index s.itemSize = .ok (index * s.itemSize) := by
  have := h.in_range
  rw [checkedMul32, if_pos (by omega)]

theorem capacity_eq (h : Represents codec s list) :
    s.capacity s.data.length = .ok ((s.data.length - 8) / s.itemSize) ∧
      list.capacity = .ok ((s.data.length - 8) / s.itemSize) := by
  have hfits := list.fits
  have hlen := h.len_eq
  have hrange := h.in_range
  have hpos := h.size_pos
  constructor
  · rw [capacity, if_neg (by omega), if_neg (by omega), if_neg (by omega)]
  · rw [AccountList.capacity, ← hlen, ← h.size_eq, if_neg (by omega), if_neg (by omega),
      if_neg (by omega)]

/-- A slot below the capacity is inside the account. -/
theorem inside_of_lt_capacity (h : Represents codec s list)
    (hi : index < (s.data.length - 8) / s.itemSize) :
    8 + index * s.itemSize + s.itemSize ≤ s.data.length := by
  have hle := slot_end_le 8 s.itemSize hi
  have hdiv := Nat.div_mul_le_self (s.data.length - 8) s.itemSize
  have hfits := list.fits
  have hlen := h.len_eq
  omega

theorem count_le_capacity (h : Represents codec s list) :
    s.count ≤ (s.data.length - 8) / s.itemSize := by
  rw [Nat.le_div_iff_mul_le h.size_pos]
  have hfits := list.fits
  rw [← h.size_eq, ← h.len_eq] at hfits
  have hcount : s.count = list.items.length := h.count_eq
  rw [hcount]
  omega

end Represents

/-! ## Each call -/

theorem exec_bytesAt (h : index + n ≤ s.data.length) :
    (bytesAt index n).exec s = (.ok (slice s.data index n), s) := by
  rw [bytesAt, exec_bind_of_ok exec_getThe, exec_bind_of_ok (exec_require h)]
  rfl

theorem exec_write (hfits : codec.Fits n) (h : index + n ≤ s.data.length) :
    (write codec index n item).exec s
      = (.ok (), { s with data := overwrite s.data index (codec.serialize item) }) := by
  rw [write, exec_bind_of_ok (exec_bytesAt h), List.take_of_length_le (hfits.length_le item),
    exec_bind_of_ok exec_modify, exec_require (hfits.length_le item)]

theorem exec_get (h : Represents codec s list) (hfits : codec.Fits s.itemSize) :
    (perform codec fresh (.get index)).exec s = (some <$> list.get index, s) := by
  have hcount : s.count = list.items.length := h.count_eq
  by_cases hi : index < s.count
  · have hin := h.inside hi
    obtain ⟨item, hitem⟩ : ∃ item, list.items[index]? = some item :=
      ⟨_, List.getElem?_eq_getElem (by omega)⟩
    obtain ⟨padding, hslot⟩ := h.slots index item hitem
    have hget : (PackedList.get codec index).exec s = (.ok item, s) := by
      rw [PackedList.get, exec_bind_of_ok exec_getThe, exec_bind_of_ok (exec_require hi),
        exec_bind_of_ok (exec_lift (h.offset_ok hin)), exec_bind_of_ok (exec_bytesAt hin)]
      change (match codec.deserialize (slot 8 s.itemSize s.data index) with
        | some item => (pure item : ListM α)
        | none => throw Error.borshIo).exec s = _
      rw [hslot, hfits.deserialize_append]
      rfl
    rw [perform, exec_bind_of_ok hget, AccountList.get, hitem]
    rfl
  · have hget : (PackedList.get codec index).exec s
        = (.error MarinadeError.listIndexOutOfBounds, s) := by
      rw [PackedList.get, exec_bind_of_ok exec_getThe, exec_bind_of_error (exec_require_not hi)]
    rw [perform, exec_bind_of_error hget, AccountList.get,
      List.getElem?_eq_none_iff.mpr (by omega)]
    rfl

/-! ## What a call writes -/

/-- Writing one slot, so that it holds the record the new list has there. -/
theorem Represents.of_overwrite {bytes : List UInt8} {count : ℕ} (h : Represents codec s list)
    (hin : 8 + index * s.itemSize + s.itemSize ≤ s.data.length)
    (hbytes : bytes.length ≤ s.itemSize) (hsize : list'.itemSize = list.itemSize)
    (hdata : list'.dataLen = list.dataLen) (hcount : count = list'.len)
    (hitems : ∀ i item, list'.items[i]? = some item →
      (i = index ∧ ∃ padding, bytes = codec.serialize item ++ padding) ∨
        (i ≠ index ∧ list.items[i]? = some item)) :
    Represents codec { s with count, data := overwrite s.data (8 + index * s.itemSize) bytes }
      list' := by
  have hlen : (overwrite s.data (8 + index * s.itemSize) bytes).length = s.data.length :=
    length_overwrite (by omega)
  refine ⟨h.size_pos, h.size_eq.trans hsize.symm, hcount, ?_, ?_, ?_⟩
  · exact hlen.trans (h.len_eq.trans hdata.symm)
  · exact hlen.trans_le h.in_range
  · intro i item hitem
    rcases hitems i item hitem with ⟨rfl, padding, hpadding⟩ | ⟨hne, hold⟩
    · obtain ⟨rest, hslot⟩ := slot_overwrite_self hbytes hin
      refine ⟨padding ++ rest, ?_⟩
      rw [← List.append_assoc, ← hpadding]
      exact hslot
    · obtain ⟨padding, hslot⟩ := h.slots i item hold
      refine ⟨padding, ?_⟩
      rw [← hslot]
      exact slot_overwrite_of_ne hbytes hin hne.symm

theorem Kept.refl {op : ListOp α} {r : Except Error (Option α)} : Kept op r s s :=
  ⟨rfl, fun _ _ _ _ ↦ rfl, fun _ _ ↦ rfl⟩

theorem Kept.of_overwrite {op : ListOp α} {a : Option α} {bytes : List UInt8} {count : ℕ}
    (htouches : op.touches s.count = some index) (hbytes : bytes.length ≤ s.itemSize)
    (hin : 8 + index * s.itemSize + s.itemSize ≤ s.data.length) :
    Kept op (.ok a) s
      { s with count, data := overwrite s.data (8 + index * s.itemSize) bytes } := by
  refine ⟨rfl, ?_, fun e he ↦ by cases he⟩
  intro p _ _ hp
  rw [getElem?_overwrite (by omega), if_neg]
  have := hp index htouches
  omega

/-- A call does to the bytes what it does to the list. -/
def Simulated (codec : Codec α UInt8) (op : ListOp α) (list : AccountList α) (s : PackedList)
    (p : Except Error (Option α) × PackedList) : Prop :=
  ∃ list', list.perform op = (p.1, list') ∧ Represents codec p.2 list' ∧ Kept op p.1 s p.2

theorem simulated_get (h : Represents codec s list) (hfits : codec.Fits s.itemSize) :
    Simulated codec (.get index) list s ((PackedList.perform codec fresh (.get index)).exec s) := by
  rw [exec_get h hfits]
  exact ⟨list, rfl, h, .refl⟩

theorem simulated_set (h : Represents codec s list) (hfits : codec.Fits s.itemSize) :
    Simulated codec (.set index item) list s
      ((PackedList.perform codec fresh (.set index item)).exec s) := by
  have hcount : s.count = list.len := h.count_eq
  by_cases hi : index < s.count
  · have hin := h.inside hi
    have hset : (PackedList.set codec index item).exec s = (.ok (), { s with
        data := overwrite s.data (8 + index * s.itemSize) (codec.serialize item) }) := by
      rw [PackedList.set, exec_bind_of_ok exec_getThe, exec_bind_of_ok (exec_require hi),
        exec_bind_of_ok (exec_lift (h.offset_ok hin)), exec_write hfits hin]
    rw [PackedList.perform, exec_bind_of_ok hset]
    refine ⟨_, by rw [AccountList.perform, AccountList.set, if_pos (hcount ▸ hi)]; rfl, ?_,
      .of_overwrite rfl (hfits.length_le item) hin⟩
    refine h.of_overwrite hin (hfits.length_le item) rfl rfl ?_ ?_
    · exact hcount.trans List.length_set.symm
    · intro i item' hitem
      rw [List.getElem?_set] at hitem
      by_cases heq : index = i
      · rw [if_pos heq] at hitem
        split at hitem
        · cases hitem
          exact .inl ⟨heq.symm, [], (List.append_nil _).symm⟩
        · cases hitem
      · rw [if_neg heq] at hitem
        exact .inr ⟨Ne.symm heq, hitem⟩
  · have hset : (PackedList.set codec index item).exec s
        = (.error MarinadeError.listIndexOutOfBounds, s) := by
      rw [PackedList.set, exec_bind_of_ok exec_getThe, exec_bind_of_error (exec_require_not hi)]
    rw [PackedList.perform, exec_bind_of_error hset]
    refine ⟨list, ?_, h, .refl⟩
    rw [AccountList.perform, AccountList.set, if_neg (hcount ▸ hi)]
    rfl

theorem push_of_lt (item : α) (h : list.capacity = .ok n) (hlt : list.len < n) :
    ∃ list', list.push item = .ok list' ∧ list'.items = list.items ++ [item] ∧
      list'.itemSize = list.itemSize ∧ list'.dataLen = list.dataLen := by
  have hok : ∃ list', list.push item = .ok list' ∧ list'.itemSize = list.itemSize ∧
      list'.dataLen = list.dataLen := by
    unfold AccountList.push
    split
    · rename_i heq
      rw [h] at heq
      cases heq
    · rename_i c heq
      obtain rfl : n = c := Except.ok.inj (h.symm.trans heq)
      rw [dif_pos hlt]
      exact ⟨_, rfl, rfl, rfl⟩
  obtain ⟨list', hpush, hsize, hdata⟩ := hok
  exact ⟨list', hpush, AccountList.push_items hpush, hsize, hdata⟩

theorem push_of_not_lt (h : list.capacity = .ok n) (hlt : ¬list.len < n) :
    list.push item = .error MarinadeError.listOverflow := by
  unfold AccountList.push
  split
  · rename_i heq
    rw [h] at heq
    cases heq
  · rename_i c heq
    obtain rfl : n = c := Except.ok.inj (h.symm.trans heq)
    rw [dif_neg hlt]

theorem simulated_push (h : Represents codec s list) (hfits : codec.Fits s.itemSize) :
    Simulated codec (.push item) list s
      ((PackedList.perform codec fresh (.push item)).exec s) := by
  have hcount : s.count = list.len := h.count_eq
  obtain ⟨hcapacity, hcapacity'⟩ := h.capacity_eq
  by_cases hlt : s.count < (s.data.length - 8) / s.itemSize
  · have hin := h.inside_of_lt_capacity hlt
    have hcount_le : s.count + 1 ≤ u32Max := by
      have hdiv := Nat.div_le_self (s.data.length - 8) s.itemSize
      have := h.in_range
      omega
    have hpush : (PackedList.push codec item).exec s = (.ok (), { s with
        count := s.count + 1
        data := overwrite s.data (8 + s.count * s.itemSize) (codec.serialize item) }) := by
      rw [PackedList.push, exec_bind_of_ok exec_getThe, exec_bind_of_ok (exec_lift hcapacity),
        exec_bind_of_ok (exec_require hlt), exec_bind_of_ok (exec_lift (h.offset_ok hin)),
        exec_bind_of_ok (exec_write hfits hin),
        exec_bind_of_ok (exec_lift (addUpTo_eq_ok.mpr ⟨hcount_le, rfl⟩)), exec_modify]
    obtain ⟨list', hlist, hitems, hsize, hdata⟩ :=
      push_of_lt item hcapacity' (hcount ▸ hlt)
    rw [PackedList.perform, exec_bind_of_ok hpush]
    refine ⟨list', by rw [AccountList.perform, hlist]; rfl, ?_,
      .of_overwrite rfl (hfits.length_le item) hin⟩
    refine h.of_overwrite hin (hfits.length_le item) hsize hdata ?_ ?_
    · rw [AccountList.len, hitems, List.length_append, List.length_singleton, hcount]
      rfl
    · intro i item' hitem
      rw [hitems] at hitem
      have hlen : list.items.length = s.count := hcount.symm
      rcases Nat.lt_trichotomy i s.count with hbefore | rfl | hbehind
      · rw [List.getElem?_append_left (by omega)] at hitem
        exact .inr ⟨by omega, hitem⟩
      · rw [List.getElem?_append_right (by omega), hlen, Nat.sub_self] at hitem
        cases hitem
        exact .inl ⟨rfl, [], (List.append_nil _).symm⟩
      · rw [List.getElem?_eq_none (by simp; omega)] at hitem
        cases hitem
  · have hpush : (PackedList.push codec item).exec s
        = (.error MarinadeError.listOverflow, s) := by
      rw [PackedList.push, exec_bind_of_ok exec_getThe, exec_bind_of_ok (exec_lift hcapacity),
        exec_bind_of_error (exec_require_not hlt)]
    rw [PackedList.perform, exec_bind_of_error hpush]
    refine ⟨list, ?_, h, .refl⟩
    rw [AccountList.perform, push_of_not_lt hcapacity' (hcount ▸ hlt)]
    rfl

theorem exec_copyWithin {src dest : ℕ} (hsrc : src + n ≤ s.data.length)
    (hdest : dest + n ≤ s.data.length) : (copyWithin src n dest).exec s
      = (.ok (), { s with data := overwrite s.data dest (slice s.data src n) }) := by
  rw [copyWithin, exec_bind_of_ok (exec_bytesAt hsrc), exec_bind_of_ok (exec_bytesAt hdest),
    exec_modify]

theorem simulated_remove (h : Represents codec s list) :
    Simulated codec (.remove index) list s
      ((PackedList.perform codec fresh (.remove index)).exec s) := by
  have hcount : s.count = list.len := h.count_eq
  by_cases hi : index < s.count
  · have hlast : s.count - 1 < s.count := by omega
    have hin := h.inside hi
    have hin' := h.inside hlast
    have hlen : list.items.length = s.count := hcount.symm
    obtain ⟨list', hlist, hitems, hsize, hdata⟩ : ∃ list', list.remove index = .ok list' ∧
        list'.items = swapRemove list.items index ∧ list'.itemSize = list.itemSize ∧
        list'.dataLen = list.dataLen := by
      rw [AccountList.remove, dif_pos (hcount ▸ hi)]
      exact ⟨_, rfl, rfl, rfl, rfl⟩
    have hcount' : s.count - 1 = list'.len := by
      have := length_swapRemove (List.getElem?_eq_getElem (hlen.symm ▸ hi))
      rw [AccountList.len, hitems]
      omega
    have hold : ∀ i item, list'.items[i]? = some item → i < s.count - 1 ∧
        (i = index → list.items[s.count - 1]? = some item) ∧
        (i ≠ index → list.items[i]? = some item) := by
      intro i item hitem
      rw [hitems, getElem?_swapRemove (by omega), hlen] at hitem
      split at hitem
      · split at hitem
        · exact ⟨by omega, fun _ ↦ hitem, fun hne ↦ absurd ‹_› hne⟩
        · exact ⟨by omega, fun heq ↦ absurd heq ‹_›, fun _ ↦ hitem⟩
      · cases hitem
    have hperform : list.perform (.remove index) = (.ok none, list') := by
      rw [AccountList.perform, hlist]
      rfl
    by_cases heq : index = s.count - 1
    · -- the last record goes by itself
      have hremove : (PackedList.remove index).exec s
          = (.ok (), { s with count := s.count - 1 }) := by
        rw [PackedList.remove, exec_bind_of_ok exec_getThe, exec_bind_of_ok (exec_require hi),
          exec_bind_of_ok exec_modify, if_pos heq]
        rfl
      rw [PackedList.perform, exec_bind_of_ok hremove]
      refine ⟨list', hperform, ⟨h.size_pos, h.size_eq.trans hsize.symm, hcount',
        h.len_eq.trans hdata.symm, h.in_range, ?_⟩, rfl, fun _ _ _ _ ↦ rfl, fun e he ↦ by cases he⟩
      intro i item hitem
      obtain ⟨hi', -, hne⟩ := hold i item hitem
      exact h.slots i item (hne (by omega))
    · have hremove : (PackedList.remove index).exec s = (.ok (), { s with
          count := s.count - 1
          data := overwrite s.data (8 + index * s.itemSize)
            (slot 8 s.itemSize s.data (s.count - 1)) }) := by
        rw [PackedList.remove, exec_bind_of_ok exec_getThe, exec_bind_of_ok (exec_require hi),
          exec_bind_of_ok exec_modify, if_neg heq, exec_bind_of_ok (exec_lift (h.offset_ok hin)),
          exec_bind_of_ok (exec_lift (h.offset_ok hin'))]
        exact exec_copyWithin (s := { s with count := s.count - 1 }) hin' hin
      have hbytes : (slot 8 s.itemSize s.data (s.count - 1)).length = s.itemSize :=
        length_slice hin'
      rw [PackedList.perform, exec_bind_of_ok hremove]
      refine ⟨list', hperform, h.of_overwrite hin hbytes.le hsize hdata hcount' ?_,
        .of_overwrite rfl hbytes.le hin⟩
      intro i item hitem
      obtain ⟨-, hmoved, hkept⟩ := hold i item hitem
      by_cases hii : i = index
      · exact .inl ⟨hii, h.slots _ _ (hmoved hii)⟩
      · exact .inr ⟨hii, hkept hii⟩
  · have hremove : (PackedList.remove index).exec s
        = (.error MarinadeError.listIndexOutOfBounds, s) := by
      rw [PackedList.remove, exec_bind_of_ok exec_getThe, exec_bind_of_error (exec_require_not hi)]
    rw [PackedList.perform, exec_bind_of_error hremove]
    refine ⟨list, ?_, h, .refl⟩
    rw [AccountList.perform, AccountList.remove, dif_neg (hcount ▸ hi)]
    rfl

theorem length_resize (fresh : ℕ → UInt8) (n : ℕ) (data : List UInt8) :
    (resize fresh n data).length = n := by
  rw [resize, List.length_append, List.length_take, List.length_map, List.length_range]
  omega

/-- What was there and still fits is there. -/
theorem getElem?_resize {data : List UInt8} {p : ℕ} (h : p < data.length) (h' : p < n) :
    (resize fresh n data)[p]? = data[p]? := by
  rw [resize, List.getElem?_append_left (by rw [List.length_take]; omega), List.getElem?_take,
    if_pos h']

theorem simulated_realloc (h : Represents codec s list)
    (hr : ((PackedList.perform codec fresh (.realloc n)).exec s).1 = .ok none) :
    Simulated codec (.realloc n) list s
      ((PackedList.perform codec fresh (.realloc n)).exec s) := by
  have hcount : s.count = list.len := h.count_eq
  by_cases hproduct : s.itemSize * n ≤ u32Max
  · have hmul : checkedMul32 s.itemSize n = .ok (s.itemSize * n) := if_pos hproduct
    by_cases hfits : s.count ≤ n
    · have hrealloc : (PackedList.realloc fresh n).exec s
          = (.ok (), { s with data := resize fresh (8 + s.itemSize * n) s.data }) := by
        rw [PackedList.realloc, exec_bind_of_ok exec_getThe, exec_bind_of_ok (exec_lift hmul),
          exec_bind_of_ok exec_modify, exec_require hfits]
      obtain ⟨list', hlist, hitems, hsize, hdata⟩ : ∃ list', list.realloc n = .ok list' ∧
          list'.items = list.items ∧ list'.itemSize = list.itemSize ∧
          list'.dataLen = 8 + list.itemSize * n := by
        rw [AccountList.realloc, if_pos (h.size_eq ▸ hproduct), dif_pos (hcount ▸ hfits)]
        exact ⟨_, rfl, rfl, rfl, rfl⟩
      rw [PackedList.perform, exec_bind_of_ok hrealloc, exec_pure]
      refine ⟨list', by rw [AccountList.perform, hlist]; rfl, ⟨h.size_pos,
        h.size_eq.trans hsize.symm, ?_, ?_, ?_, ?_⟩, rfl, ?_, fun e he ↦ by cases he⟩
      · exact hcount.trans (congrArg List.length hitems.symm)
      · exact (length_resize _ _ _).trans (by rw [hdata, h.size_eq])
      · exact (length_resize _ _ _).trans_le (by omega)
      · intro i item hitem
        rw [hitems] at hitem
        obtain ⟨padding, hslot⟩ := h.slots i item hitem
        have hlt : i < s.count := by
          have := (List.getElem?_eq_some_iff.mp hitem).1
          rw [hcount]
          exact this
        have hin := h.inside hlt
        have hend := slot_end_le 8 s.itemSize (hlt.trans_le hfits)
        rw [Nat.mul_comm n] at hend
        have hkept : slot 8 s.itemSize (resize fresh (8 + s.itemSize * n) s.data) i
            = slot 8 s.itemSize s.data i :=
          slice_congr fun p _ _ ↦ getElem?_resize (by omega) (by omega)
        exact ⟨padding, hkept.trans hslot⟩
      · intro p hp hp' _
        have hlen : p < 8 + s.itemSize * n := by
          have := length_resize fresh (8 + s.itemSize * n) s.data
          simp only at hp'
          omega
        exact getElem?_resize hp hlen
    · have hrealloc : ((PackedList.realloc fresh n).exec s)
          = (.error MarinadeError.shrinkingListWithDeletingContents,
            { s with data := resize fresh (8 + s.itemSize * n) s.data }) := by
        rw [PackedList.realloc, exec_bind_of_ok exec_getThe, exec_bind_of_ok (exec_lift hmul),
          exec_bind_of_ok exec_modify, exec_require_not hfits]
      rw [PackedList.perform, exec_bind_of_error hrealloc] at hr
      cases hr
  · have hmul : checkedMul32 s.itemSize n = .error .overflow := if_neg hproduct
    have hrealloc : (PackedList.realloc fresh n).exec s = (.error .overflow, s) := by
      rw [PackedList.realloc, exec_bind_of_ok exec_getThe,
        exec_bind_of_error (exec_lift_error hmul)]
    rw [PackedList.perform, exec_bind_of_error hrealloc] at hr
    cases hr

/-! ## Every run -/

theorem Represents.step {op : ListOp α} {r : Except Error (Option α)} {itemSize : ℕ}
    (h : Represents codec s list) (hfits : codec.Fits s.itemSize)
    (hs : (PackedList.system codec itemSize).step s (op, r) s') :
    ∃ list', list.perform op = (r, list') ∧ Represents codec s' list' ∧ Kept op r s s' := by
  obtain ⟨haccepted, fresh, hexec⟩ := hs
  have hsimulated : Simulated codec op list s ((PackedList.perform codec fresh op).exec s) := by
    cases op with
    | push item => exact simulated_push h hfits
    | get index => exact simulated_get h hfits
    | set index item => exact simulated_set h hfits
    | remove index => exact simulated_remove h
    | realloc capacity => exact simulated_realloc h (by rw [hexec]; exact haccepted)
  rw [hexec] at hsimulated
  exact hsimulated

/-- What the plain list makes of a call, in terms of its records alone. -/
theorem AccountList.perform_eq {op : ListOp α} {r : Except Error (Option α)}
    (hcapacity : list.capacity = .ok n) (haccepted : op.Accepted r)
    (h : list.perform op = (r, list')) : op.apply n list.items = (r, list'.items) := by
  cases op with
  | push item =>
    rw [ListOp.apply]
    by_cases hlt : list.len < n
    · obtain ⟨list'', hpush, hitems, -⟩ := push_of_lt item hcapacity hlt
      rw [perform, hpush] at h
      cases h
      rw [hitems]
      exact if_pos hlt
    · rw [perform, push_of_not_lt hcapacity hlt] at h
      cases h
      exact if_neg hlt
  | get index =>
    rw [perform, AccountList.get] at h
    rw [ListOp.apply]
    cases hitem : list.items[index]? with
    | some item =>
      rw [hitem] at h
      cases h
      rfl
    | none =>
      rw [hitem] at h
      cases h
      rfl
  | set index item =>
    rw [ListOp.apply]
    by_cases hi : index < list.len
    · rw [perform, AccountList.set, if_pos hi] at h
      cases h
      exact if_pos hi
    · rw [perform, AccountList.set, if_neg hi] at h
      cases h
      exact if_neg hi
  | remove index =>
    rw [ListOp.apply]
    by_cases hi : index < list.len
    · rw [perform, AccountList.remove, dif_pos hi] at h
      cases h
      exact if_pos hi
    · rw [perform, AccountList.remove, dif_neg hi] at h
      cases h
      exact if_neg hi
  | realloc capacity =>
    have hr : r = .ok none := haccepted
    subst hr
    rw [perform] at h
    cases hrealloc : list.realloc capacity with
    | ok list'' =>
      rw [hrealloc] at h
      cases h
      rw [ListOp.apply, realloc_items hrealloc]
    | error e =>
      rw [hrealloc] at h
      cases h

/-- A plain list is full, or has no such index; nothing else goes wrong. -/
theorem ListOp.error_of_apply {op : ListOp α} {items : List α} {e : Error}
    (h : (op.apply n items).1 = .error e) :
    e = MarinadeError.listOverflow ∨ e = MarinadeError.listIndexOutOfBounds := by
  cases op with
  | push item =>
    rw [apply] at h
    split at h
    · cases h
    · cases h
      exact .inl rfl
  | get index =>
    rw [apply] at h
    split at h
    · cases h
    · cases h
      exact .inr rfl
  | set index item =>
    rw [apply] at h
    split at h
    · cases h
    · cases h
      exact .inr rfl
  | remove index =>
    rw [apply] at h
    split at h
    · cases h
    · cases h
      exact .inr rfl
  | realloc capacity => cases h

/-- A new list is one without records. -/
theorem init_of_new {discriminator : Vector UInt8 8} {itemSize : ℕ} {data : List UInt8}
    (h : PackedList.new discriminator itemSize data = .ok s) (hlen : data.length < 2 ^ 32) :
    (PackedList.system codec itemSize).init s ∧ s.data.take 8 = discriminator.toList := by
  simp only [PackedList.new, bind_eq_ok, ensure_eq_ok, pure_eq_ok, exists_const] at h
  obtain ⟨hle, -, rfl⟩ := h
  have hsize : discriminator.toList.length = 8 := discriminator.length_toList
  have hwritten : (overwrite data 0 discriminator.toList).length = data.length :=
    length_overwrite (by omega)
  refine ⟨⟨rfl, rfl, hwritten.symm ▸ hle, hwritten.symm ▸ hlen⟩, ?_⟩
  rw [overwrite, List.take_zero, List.nil_append, List.take_append_of_le_length hsize.ge,
    List.take_of_length_le hsize.le]

/-- The start: no records, in an account of any other contents. -/
theorem represents_of_init {itemSize : ℕ} (hsize : 0 < itemSize)
    (h : (PackedList.system codec itemSize).init s) :
    ∃ list, (AccountList.system α itemSize).init list ∧ Represents codec s list := by
  obtain ⟨rfl, hcount, hlen, hlt⟩ := h
  refine ⟨⟨[], s.itemSize, s.data.length, by simpa using hlen⟩,
    ⟨s.data.length, hlt, by rw [AccountList.new, dif_pos hlen]⟩, ⟨hsize, rfl, hcount, rfl, ?_, ?_⟩⟩
  · have : u32Max + 1 = 2 ^ 32 := rfl
    omega
  · intro i item hitem
    cases hitem

/-- The discriminator is in front of the slots. -/
theorem Kept.take_eq {op : ListOp α} {r : Except Error (Option α)} (h : Kept op r s s')
    (hlen : 8 ≤ s.data.length) (hlen' : 8 ≤ s'.data.length) :
    s'.data.take 8 = s.data.take 8 := by
  refine List.ext_getElem? fun p ↦ ?_
  rw [List.getElem?_take, List.getElem?_take]
  split
  · exact h.bytes p (by omega) (by omega) fun i _ ↦ .inl (by omega)
  · rfl

theorem Represents.eight_le (h : Represents codec s list) : 8 ≤ s.data.length := by
  have hfits := list.fits
  have hlen := h.len_eq
  omega

/-- Whatever is done to the bytes of an account is what would be done to a plain list, and no
product and no slice is out of range. -/
theorem packed_refines {itemSize : ℕ} (hsize : 0 < itemSize) (hfits : codec.Fits itemSize)
    {s₀ : PackedList} {ls : List (ListOp α × Except Error (Option α))}
    (h₀ : (PackedList.system codec itemSize).init s₀)
    (h : (PackedList.system codec itemSize).Run s₀ ls s) :
    ∃ list₀ list, (AccountList.system α itemSize).init list₀ ∧
      (AccountList.system α itemSize).Run list₀ ls list ∧ Represents codec s list ∧
      s.data.take 8 = s₀.data.take 8 ∧
      ∃ capacity, s.capacity s.data.length = .ok capacity ∧ s.count ≤ capacity ∧
        ∀ op r s', (PackedList.system codec itemSize).step s (op, r) s' →
          Kept op r s s' ∧
          (∀ e, r = .error e →
            e = MarinadeError.listOverflow ∨ e = MarinadeError.listIndexOutOfBounds) ∧
          ∃ list', Represents codec s' list' ∧ op.apply capacity list.items = (r, list'.items) := by
  obtain ⟨list₀, hinit, hrep₀⟩ := represents_of_init hsize h₀
  obtain ⟨list, hrun, hrep, hitemSize, hfront⟩ := h.simulate (T := AccountList.system α itemSize)
    (R := fun s list ↦ Represents codec s list ∧ s.itemSize = itemSize ∧
      s.data.take 8 = s₀.data.take 8) ⟨hrep₀, h₀.1, rfl⟩ (by
    rintro s list ⟨op, r⟩ s' ⟨hrep, hitemSize, hfront⟩ hs
    obtain ⟨list', hperform, hrep', hkept⟩ := hrep.step (hitemSize ▸ hfits) hs
    exact ⟨list', ⟨hs.1, hperform⟩, hrep', hkept.size_eq.trans hitemSize,
      (hkept.take_eq hrep.eight_le hrep'.eight_le).trans hfront⟩)
  obtain ⟨hcapacity, hcapacity'⟩ := hrep.capacity_eq
  refine ⟨list₀, list, hinit, hrun, hrep, hfront, _, hcapacity, hrep.count_le_capacity, ?_⟩
  intro op r s' hs
  obtain ⟨list', hperform, hrep', hkept⟩ := hrep.step (hitemSize ▸ hfits) hs
  have happly := AccountList.perform_eq hcapacity' hs.1 hperform
  refine ⟨hkept, ?_, list', hrep', happly⟩
  rintro e rfl
  exact ListOp.error_of_apply (congrArg Prod.fst happly)

end

/-! ## A list of bytes -/

namespace Sample

/-- A byte is written as itself. -/
def byteCodec : Codec UInt8 UInt8 where
  serialize b := [b]
  deserialize bytes := bytes.head?

theorem byteCodec_fits : byteCodec.Fits 1 :=
  ⟨fun _ ↦ le_rfl, fun _ _ ↦ rfl⟩

/-- Room for two bytes. -/
def emptyBytes : PackedList :=
  ⟨1, 0, List.replicate 10 0⟩

/-- Two bytes are added, a third finds no room, and the first is removed. -/
def byteCalls : List (ListOp UInt8 × Except Error (Option UInt8)) := [
  (.get 0, .ok (some 10)), (.remove 0, .ok none),
  (.push 11, .error MarinadeError.listOverflow), (.push 10, .ok none), (.push 9, .ok none)]

/-- The slot of the removed byte has the other one, which is still in its old slot too. -/
def oneByte : PackedList :=
  ⟨1, 1, List.replicate 8 0 ++ [10, 10]⟩

theorem byteCalls_run : (PackedList.system byteCodec 1).Run emptyBytes byteCalls oneByte := by
  have hstep : ∀ op s, op.Accepted ((PackedList.perform byteCodec (fun _ ↦ 0) op).exec s).1 →
      (PackedList.system byteCodec 1).step s
        (op, ((PackedList.perform byteCodec (fun _ ↦ 0) op).exec s).1)
        ((PackedList.perform byteCodec (fun _ ↦ 0) op).exec s).2 :=
    fun _ _ haccepted ↦ ⟨haccepted, _, rfl⟩
  have h₁ := System.Run.nil.snoc (hstep (.push 9) emptyBytes trivial)
  have h₂ := h₁.snoc (hstep (.push 10) _ trivial)
  have h₃ := h₂.snoc (hstep (.push 11) _ trivial)
  have h₄ := h₃.snoc (hstep (.remove 0) _ trivial)
  exact h₄.snoc (hstep (.get 0) _ trivial)

end Sample

theorem packed_refines_sample :
    ∃ list₀ list, (AccountList.system UInt8 1).init list₀ ∧
      (AccountList.system UInt8 1).Run list₀ Sample.byteCalls list ∧
      Represents Sample.byteCodec Sample.oneByte list ∧
      Sample.oneByte.data.take 8 = Sample.emptyBytes.data.take 8 ∧
      ∃ capacity, Sample.oneByte.capacity Sample.oneByte.data.length = .ok capacity ∧
        Sample.oneByte.count ≤ capacity ∧
        ∀ op r s', (PackedList.system Sample.byteCodec 1).step Sample.oneByte (op, r) s' →
          Kept op r Sample.oneByte s' ∧
          (∀ e, r = .error e →
            e = MarinadeError.listOverflow ∨ e = MarinadeError.listIndexOutOfBounds) ∧
          ∃ list', Represents Sample.byteCodec s' list' ∧
            op.apply capacity list.items = (r, list'.items) :=
  packed_refines (by decide) Sample.byteCodec_fits ⟨rfl, rfl, by decide, by decide⟩
    Sample.byteCalls_run

end Marinade
