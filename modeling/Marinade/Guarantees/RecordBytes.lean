import Marinade.Guarantees.PackedList
import Marinade.State.RecordFormat

/-!
# The bytes of the two lists

Every record is serialized to the same number of bytes, is read back from them, and has no other
representation. With that the lists the program works on can be read off the bytes of their
accounts at any time, whatever has been done to them: behind the discriminator, slot by slot.
-/

open Foundation

namespace Marinade

/-! ## One record -/

section

variable {bytes : List UInt8}

theorem StakeStatus.accepts_iff : format.Accepts bytes ↔
    bytes[0]? = some 0 ∨ bytes[0]? = some 1 ∨ bytes[0]? = some 2 := by
  rw [format, Format.accepts_tagged_byte]
  constructor
  · rintro ⟨status, hs⟩
    cases status with
    | unknown => exact .inl hs
    | active => exact .inr (.inl hs)
    | deactivating => exact .inr (.inr hs)
  · rintro (h | h | h)
    · exact ⟨unknown, h⟩
    · exact ⟨active, h⟩
    · exact ⟨deactivating, h⟩

/-- A stake record is accepted when it is long enough, its flag is one, and its status is known. -/
theorem StoredStakeRecord.accepts_iff : format.Accepts bytes ↔
    (bytes[48]? = some 0 ∨ bytes[48]? = some 1) ∧
      (bytes[49]? = some 0 ∨ bytes[49]? = some 1 ∨ bytes[49]? = some 2) := by
  rw [format, Format.accepts_iso, Format.accepts_pair, Format.accepts_pair, Format.accepts_pair,
    Format.accepts_pair, Format.accepts_bytes, Format.accepts_u64, Format.accepts_u64,
    Format.accepts_bool, StakeStatus.accepts_iff]
  simp only [Format.bytes_size, Format.u64_size, Format.bool_size, List.drop_drop,
    List.getElem?_drop, List.length_drop]
  constructor
  · rintro ⟨-, -, -, hflag, hstatus⟩
    exact ⟨hflag, hstatus⟩
  · rintro ⟨hflag, hstatus⟩
    have hlen : 49 < bytes.length := by
      rcases hstatus with h | h | h
      all_goals exact (List.getElem?_eq_some_iff.mp h).1
    exact ⟨by omega, by omega, by omega, hflag, hstatus⟩

theorem StoredValidatorRecord.accepts_iff :
    format.Accepts bytes ↔ ValidatorRecord.len ≤ bytes.length := by
  rw [format, Format.accepts_iso, Format.accepts_pair, Format.accepts_pair, Format.accepts_pair,
    Format.accepts_pair, Format.accepts_pair, Format.accepts_bytes, Format.accepts_u64,
    Format.accepts_u32, Format.accepts_u64, Format.accepts_byte, Format.accepts_u64]
  simp only [Format.bytes_size, Format.u64_size, Format.u32_size, Format.byte_size,
    List.length_drop, ValidatorRecord.len]
  omega

/-- The records of both lists are written to as many bytes as the slots are made for. They are read
back from in front of anything, nothing else is read as a record, and of the bytes of a slot only a
flag or a status can be refused. -/
theorem stored_records (bytes : List UInt8) :
    (∀ r rest, (StoredStakeRecord.format.write r).length = stakeRecordLen ∧
      (StoredStakeRecord.format.read bytes = some (r, rest) ↔
        bytes = StoredStakeRecord.format.write r ++ rest)) ∧
    ((∃ r rest, StoredStakeRecord.format.read bytes = some (r, rest)) ↔
      (bytes[48]? = some 0 ∨ bytes[48]? = some 1) ∧
        (bytes[49]? = some 0 ∨ bytes[49]? = some 1 ∨ bytes[49]? = some 2)) ∧
    (∀ r rest, (StoredValidatorRecord.format.write r).length = ValidatorRecord.len ∧
      (StoredValidatorRecord.format.read bytes = some (r, rest) ↔
        bytes = StoredValidatorRecord.format.write r ++ rest)) ∧
    ((∃ r rest, StoredValidatorRecord.format.read bytes = some (r, rest)) ↔
      ValidatorRecord.len ≤ bytes.length) := by
  refine ⟨fun r rest ↦ ⟨?_, ?_⟩, StoredStakeRecord.accepts_iff, fun r rest ↦ ⟨?_, ?_⟩,
    StoredValidatorRecord.accepts_iff⟩
  · exact StoredStakeRecord.format.length_write r
  · exact StoredStakeRecord.format.read_iff bytes r rest
  · exact StoredValidatorRecord.format.length_write r
  · exact StoredValidatorRecord.format.read_iff bytes r rest

end

/-! ## Records under their names -/

/-- The call on the records that are stood for. -/
def ListOp.map {α β : Type} (f : α → β) : ListOp α → ListOp β
  | push item => push (f item)
  | get index => get index
  | set index item => set index (f item)
  | remove index => remove index
  | realloc capacity => realloc capacity

/-- The call and what it returns. -/
def ListOp.mapLabel {α β : Type} (f : α → β) (l : ListOp α × Except Error (Option α)) :
    ListOp β × Except Error (Option β) :=
  (l.1.map f, l.2.map (Option.map f))

namespace AccountList

variable {α β : Type} {f : α → β} {list list' : AccountList α} {index capacity : ℕ} {item : α}
  {op : ListOp α} {r : Except Error (Option α)}

/-- The list of the records that are stood for. -/
def map (f : α → β) (list : AccountList α) : AccountList β where
  items := list.items.map f
  itemSize := list.itemSize
  dataLen := list.dataLen
  fits := by
    rw [List.length_map]
    exact list.fits

theorem ext_of {list list' : AccountList α} (hitems : list.items = list'.items)
    (hsize : list.itemSize = list'.itemSize) (hlen : list.dataLen = list'.dataLen) :
    list = list' := by
  cases list
  cases list'
  cases hitems
  cases hsize
  cases hlen
  rfl

theorem len_map : (list.map f).len = list.len :=
  List.length_map _

theorem push_of_error {e : Error} (h : list.capacity = .error e) : list.push item = .error e := by
  unfold push
  split
  · rename_i heq
    rw [h] at heq
    cases heq
    rfl
  · rename_i heq
    rw [h] at heq
    cases heq

theorem push_map : (list.map f).push (f item) = (list.push item).map (map f) := by
  have hcapacity : (list.map f).capacity = list.capacity := rfl
  cases hc : list.capacity with
  | error e => rw [push_of_error hc, push_of_error (hcapacity.trans hc), Except.map]
  | ok c =>
    by_cases hlt : list.len < c
    · have hlt' : (list.map f).len < c := by rwa [len_map]
      obtain ⟨l, hl, hitems, hsize, hlen⟩ := push_of_lt item hc hlt
      obtain ⟨l', hl', hitems', hsize', hlen'⟩ := push_of_lt (f item) (hcapacity.trans hc) hlt'
      rw [hl, hl']
      refine congrArg Except.ok (ext_of ?_ (hsize'.trans hsize.symm) (hlen'.trans hlen.symm))
      rw [hitems']
      change list.items.map f ++ [f item] = l.items.map f
      rw [hitems, List.map_append, List.map_singleton]
    · have hlt' : ¬(list.map f).len < c := by rwa [len_map]
      rw [push_of_not_lt hc hlt, push_of_not_lt (hcapacity.trans hc) hlt', Except.map]

theorem set_map : (list.map f).set index (f item) = (list.set index item).map (map f) := by
  by_cases hi : index < list.len
  · have hi' : index < (list.map f).len := by rwa [len_map]
    rw [set, set, if_pos hi, if_pos hi']
    exact congrArg Except.ok (ext_of List.map_set.symm rfl rfl)
  · have hi' : ¬index < (list.map f).len := by rwa [len_map]
    rw [set, set, if_neg hi, if_neg hi', Except.map]

theorem remove_map : (list.map f).remove index = (list.remove index).map (map f) := by
  by_cases hi : index < list.len
  · have hi' : index < (list.map f).len := by rwa [len_map]
    rw [remove, remove, dif_pos hi, dif_pos hi']
    exact congrArg Except.ok (ext_of (swapRemove_map f _ _) rfl rfl)
  · have hi' : ¬index < (list.map f).len := by rwa [len_map]
    rw [remove, remove, dif_neg hi, dif_neg hi', Except.map]

theorem realloc_map : (list.map f).realloc capacity = (list.realloc capacity).map (map f) := by
  by_cases hfits : list.itemSize * capacity ≤ u32Max
  · have hfits' : (list.map f).itemSize * capacity ≤ u32Max := hfits
    rw [realloc, realloc, if_pos hfits, if_pos hfits']
    by_cases hi : list.len ≤ capacity
    · have hi' : (list.map f).len ≤ capacity := by rwa [len_map]
      rw [dif_pos hi, dif_pos hi']
      rfl
    · have hi' : ¬(list.map f).len ≤ capacity := by rwa [len_map]
      rw [dif_neg hi, dif_neg hi', Except.map]
  · have hfits' : ¬(list.map f).itemSize * capacity ≤ u32Max := hfits
    rw [realloc, realloc, if_neg hfits, if_neg hfits', Except.map]

theorem keeping_map {x : Except Error (AccountList α)} :
    (list.map f).keeping (x.map (map f))
      = ((list.keeping x).1.map (Option.map f), (list.keeping x).2.map f) := by
  cases x <;> rfl

/-- A call does the same to the records and to what they stand for. -/
theorem perform_map : (list.map f).perform (op.map f)
    = ((list.perform op).1.map (Option.map f), (list.perform op).2.map f) := by
  cases op with
  | push item => rw [ListOp.map, perform, push_map, keeping_map]; rfl
  | get index =>
    have hitem : (list.map f).items[index]? = list.items[index]?.map f := List.getElem?_map
    rw [ListOp.map, perform, perform, get, get, hitem]
    cases list.items[index]? <;> rfl
  | set index item => rw [ListOp.map, perform, set_map, keeping_map]; rfl
  | remove index => rw [ListOp.map, perform, remove_map, keeping_map]; rfl
  | realloc capacity => rw [ListOp.map, perform, realloc_map, keeping_map]; rfl

end AccountList

/-! ## The lists in the bytes -/

section

variable {α β : Type} {format : Format α} {s : PackedList} {list : AccountList α} {itemSize : ℕ}
  {discriminator : Vector UInt8 8}

/-- Reading one after the other. -/
theorem mapM_range {f : ℕ → Option α} {items : List α}
    (h : ∀ i item, items[i]? = some item → f i = some item) :
    (List.range items.length).mapM f = some items := by
  induction items using List.reverseRecOn with
  | nil => rfl
  | append_singleton items item ih =>
    have hinit : ∀ i item', items[i]? = some item' → f i = some item' := by
      intro i item' hitem
      have hlt := (List.getElem?_eq_some_iff.mp hitem).1
      exact h i item' (by rw [List.getElem?_append_left hlt, hitem])
    have hlast : f items.length = some item := h _ _ (by simp)
    rw [List.length_append, List.length_singleton, List.range_succ, List.mapM_append, ih hinit]
    simp [hlast]

/-- The live slots are read as the records they hold. -/
theorem Represents.readAll_eq (h : Represents format.codec s list)
    (hsize : format.size ≤ s.itemSize) : s.readAll format = some list.items := by
  have hcount : s.count = list.items.length := h.count_eq
  rw [PackedList.readAll, hcount]
  refine mapM_range fun i item hitem ↦ ?_
  obtain ⟨padding, hslot⟩ := h.slots i item hitem
  rw [hslot]
  exact (format.codec_fits hsize).deserialize_append item padding

/-- Whatever is done to the bytes of a new list, the records can be read off them, and they stand
for the list that the same calls make of an empty one. -/
def ReadableAs (format : Format α) (name : α → β) (discriminator : Vector UInt8 8)
    (itemSize : ℕ) : Prop :=
  ∀ data s₀ ls s, data.length < 2 ^ 32 →
    PackedList.new discriminator itemSize data = .ok s₀ →
    (PackedList.system format.codec itemSize).Run s₀ ls s →
    s.data.take 8 = discriminator.toList ∧
      ∃ stored list₀ list, s.readAll format = some stored ∧
        (AccountList.system β itemSize).init list₀ ∧
        (AccountList.system β itemSize).Run list₀ (ls.map (ListOp.mapLabel name)) list ∧
        list.items = stored.map name ∧ list.dataLen = s.data.length

theorem readableAs (name : α → β) (hsize : 0 < format.size) (hle : format.size ≤ itemSize) :
    ReadableAs format name discriminator itemSize := by
  intro data s₀ ls s hlen hnew h
  obtain ⟨hinit, hfront⟩ := @init_of_new _ format.codec _ _ _ _ hnew hlen
  obtain ⟨list₀, ⟨dataLen, hdata, hlist₀⟩, hrep₀⟩ :=
    represents_of_init (hsize.trans_le hle) hinit
  have h₀ : ∃ list : AccountList α, list₀.map name = list.map name ∧
      Represents format.codec s₀ list ∧ s₀.itemSize = itemSize ∧
      s₀.data.take 8 = discriminator.toList := ⟨list₀, rfl, hrep₀, hinit.1, hfront⟩
  obtain ⟨_, hrun, list, rfl, hrep, hitemSize, htake⟩ :=
    h.simulate_map (T := AccountList.system β itemSize) (g := ListOp.mapLabel name)
      (R := fun s t ↦ ∃ list : AccountList α, t = list.map name ∧
        Represents format.codec s list ∧ s.itemSize = itemSize ∧
        s.data.take 8 = discriminator.toList) h₀ (by
      rintro s t ⟨op, r⟩ s' ⟨list, rfl, hrep, hitemSize, htake⟩ hs
      obtain ⟨list', hperform, hrep', hkept⟩ :=
        hrep.step (format.codec_fits (hle.trans hitemSize.ge)) hs
      refine ⟨list'.map name, ⟨?_, ?_⟩, list', rfl, hrep', hkept.size_eq.trans hitemSize,
        (hkept.take_eq hrep.eight_le hrep'.eight_le).trans htake⟩
      · have haccepted := hs.1
        cases op with
        | realloc capacity =>
          have hr : r = .ok none := haccepted
          rw [hr]
          rfl
        | _ => trivial
      · rw [ListOp.mapLabel, AccountList.perform_map, hperform])
  refine ⟨htake, list.items, list₀.map name, list.map name,
    hrep.readAll_eq (hle.trans hitemSize.ge), ⟨dataLen, hdata, ?_⟩, hrun, rfl, hrep.len_eq.symm⟩
  rw [AccountList.new] at hlist₀ ⊢
  split at hlist₀
  · rename_i h8
    cases hlist₀
    rw [dif_pos h8]
    rfl
  · cases hlist₀

/-- The two record lists, created with any room to spare in their slots, can be read off the bytes
of their accounts at any time. -/
theorem lists_of_bytes (name : Address → Pubkey) (extra : ℕ) :
    ReadableAs StoredStakeRecord.format (StoredStakeRecord.record name) stakeListDiscriminator
      (stakeRecordLen + extra) ∧
    ReadableAs StoredValidatorRecord.format (StoredValidatorRecord.record name)
      validatorListDiscriminator (ValidatorRecord.len + extra) := by
  constructor
  · exact readableAs _ (by decide) (Nat.le_add_right _ _)
  · exact readableAs _ (by decide) (Nat.le_add_right _ _)

end

end Marinade
