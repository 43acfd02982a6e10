import Mathlib.Tactic.Common

/-!
# Slots in a buffer

A packed array lives in a buffer of bytes: a header, and behind it slots of equal size. Everything
that happens to such a buffer overwrites a part of it, so one lemma says it all: overwriting changes
what lies in its range and nothing before or behind it. That different slots do not overlap is then
a matter of their positions alone.

A codec writes items to bytes and reads them back from the front of some bytes, whatever follows. It
fits a slot when no item is longer.
-/

namespace Foundation

variable {α β : Type*}

/-- The `n` bytes from `start` on. -/
def slice (buf : List β) (start n : ℕ) : List β :=
  (buf.drop start).take n

/-- Write `bytes` over what is there from `start` on. -/
def overwrite (buf : List β) (start : ℕ) (bytes : List β) : List β :=
  buf.take start ++ (bytes ++ buf.drop (start + bytes.length))

/-- The slot at `i`, of `size` bytes, behind a header. -/
def slot (header size : ℕ) (buf : List β) (i : ℕ) : List β :=
  slice buf (header + i * size) size

/-- How items are written and read back. -/
structure Codec (α β : Type*) where
  serialize : α → List β
  deserialize : List β → Option α

/-- Every item fits into `size` bytes, and is read back from what it was written to. -/
structure Codec.Fits (codec : Codec α β) (size : ℕ) : Prop where
  length_le : ∀ a, (codec.serialize a).length ≤ size
  deserialize_append : ∀ a padding, codec.deserialize (codec.serialize a ++ padding) = some a

section

variable {buf bytes : List β} {start start' n i j p header size : ℕ}

theorem getElem?_slice : (slice buf start n)[p]? = if p < n then buf[start + p]? else none := by
  rw [slice, List.getElem?_take, List.getElem?_drop]

/-- The bytes from `start` on are the new ones, and all the others are the old ones. -/
theorem getElem?_overwrite (h : start + bytes.length ≤ buf.length) :
    (overwrite buf start bytes)[p]?
      = if start ≤ p ∧ p < start + bytes.length then bytes[p - start]? else buf[p]? := by
  have hstart : (buf.take start).length = start := List.length_take_of_le (by omega)
  by_cases hbefore : p < start
  · rw [overwrite, List.getElem?_append_left (by omega), List.getElem?_take, if_pos hbefore,
      if_neg (by omega)]
  · rw [overwrite, List.getElem?_append_right (by omega), hstart]
    by_cases hin : p < start + bytes.length
    · rw [List.getElem?_append_left (by omega), if_pos ⟨by omega, hin⟩]
    · rw [List.getElem?_append_right (by omega), List.getElem?_drop, if_neg (by omega)]
      congr 1
      omega

theorem length_overwrite (h : start + bytes.length ≤ buf.length) :
    (overwrite buf start bytes).length = buf.length := by
  rw [overwrite, List.length_append, List.length_append, List.length_take, List.length_drop]
  omega

theorem length_slice (h : start + n ≤ buf.length) : (slice buf start n).length = n := by
  rw [slice, List.length_take, List.length_drop]
  omega

/-- What was written is there again, in front of the rest of its range. -/
theorem slice_overwrite_self (h : start + n ≤ buf.length) (hn : bytes.length ≤ n) :
    slice (overwrite buf start bytes) start n
      = bytes ++ slice buf (start + bytes.length) (n - bytes.length) := by
  refine List.ext_getElem? fun p ↦ ?_
  rw [getElem?_slice, getElem?_overwrite (by omega)]
  by_cases hin : p < bytes.length
  · rw [if_pos (by omega), if_pos (by omega), List.getElem?_append_left hin]
    congr 1
    omega
  · rw [List.getElem?_append_right (by omega), getElem?_slice]
    by_cases hp : p < n
    · rw [if_pos hp, if_neg (by omega), if_pos (by omega)]
      congr 1
      omega
    · rw [if_neg hp, if_neg (by omega)]

/-- Ranges that agree byte by byte are equal. -/
theorem slice_congr {buf' : List β}
    (h : ∀ p, start ≤ p → p < start + n → buf'[p]? = buf[p]?) :
    slice buf' start n = slice buf start n := by
  refine List.ext_getElem? fun p ↦ ?_
  rw [getElem?_slice, getElem?_slice]
  split
  · exact h _ (by omega) (by omega)
  · rfl

/-- What lies before or behind is not touched. -/
theorem slice_overwrite_of_disjoint (h : start + bytes.length ≤ buf.length)
    (hdisjoint : start' + n ≤ start ∨ start + bytes.length ≤ start') :
    slice (overwrite buf start bytes) start' n = slice buf start' n := by
  refine slice_congr fun p _ _ ↦ ?_
  rw [getElem?_overwrite h, if_neg (by omega)]

/-- Different slots do not overlap. -/
theorem slots_disjoint (header size : ℕ) (h : i ≠ j) :
    header + j * size + size ≤ header + i * size ∨
      header + i * size + size ≤ header + j * size := by
  rcases Nat.lt_or_gt_of_ne h with hlt | hlt
  · right
    have hmul := Nat.mul_le_mul_right size (Nat.succ_le_of_lt hlt)
    rw [Nat.succ_mul] at hmul
    omega
  · left
    have hmul := Nat.mul_le_mul_right size (Nat.succ_le_of_lt hlt)
    rw [Nat.succ_mul] at hmul
    omega

/-- Writing into a slot leaves the others alone. -/
theorem slot_overwrite_of_ne (hfit : bytes.length ≤ size)
    (h : header + i * size + size ≤ buf.length) (hne : i ≠ j) :
    slot header size (overwrite buf (header + i * size) bytes) j = slot header size buf j := by
  refine slice_overwrite_of_disjoint (by omega) ?_
  rcases slots_disjoint header size hne with hbefore | hbehind
  · exact .inl hbefore
  · exact .inr (by omega)

/-- Writing an item into a slot lets it be read from there. -/
theorem slot_overwrite_self (hfit : bytes.length ≤ size)
    (h : header + i * size + size ≤ buf.length) :
    ∃ padding, slot header size (overwrite buf (header + i * size) bytes) i = bytes ++ padding :=
  ⟨_, slice_overwrite_self h hfit⟩

/-- The slots below `n` end where slot `n` would start. -/
theorem slot_end_le (header size : ℕ) (h : i < n) :
    header + i * size + size ≤ header + n * size := by
  have hmul := Nat.mul_le_mul_right size (Nat.succ_le_of_lt h)
  rw [Nat.succ_mul] at hmul
  omega

end

end Foundation
