import Marinade.Foundation.Buffer
import Mathlib.Algebra.Order.Group.Nat
import Mathlib.Logic.Equiv.Basic

/-!
# Formats of fixed size

A format says how a value is written as bytes and how one is read from the front of some bytes.
Reading is exactly the inverse of writing: what was written is read back whatever follows, and
nothing else is accepted, so no value has two representations.

Formats are put together the way types are: pairs one behind the other, integers byte by byte with
the lowest first, and enumerations by their tags.
-/

namespace Foundation

variable {α β : Type}

/-- How values are written and read. -/
structure Format (α : Type) where
  size : ℕ
  write : α → List UInt8
  read : List UInt8 → Option (α × List UInt8)
  length_write : ∀ a, (write a).length = size
  read_iff : ∀ bytes a rest, read bytes = some (a, rest) ↔ bytes = write a ++ rest

namespace Format

section

variable {f : Format α} {g : Format β} {bytes rest : List UInt8} {a a' : α}

theorem read_write_append (f : Format α) (a : α) (rest : List UInt8) :
    f.read (f.write a ++ rest) = some (a, rest) :=
  (f.read_iff _ _ _).mpr rfl

/-- What is accepted is long enough. -/
theorem size_le_of_read (h : f.read bytes = some (a, rest)) : f.size ≤ bytes.length := by
  rw [(f.read_iff _ _ _).mp h, List.length_append, f.length_write]
  exact Nat.le_add_right _ _

/-- What is accepted begins with the representation of what was read. -/
theorem take_size_of_read (h : f.read bytes = some (a, rest)) :
    bytes.take f.size = f.write a ∧ bytes.drop f.size = rest := by
  rw [(f.read_iff _ _ _).mp h]
  exact ⟨List.take_left' (f.length_write a), List.drop_left' (f.length_write a)⟩

end

/-! ## Putting formats together -/

/-- A byte is written as itself. -/
def byte : Format UInt8 where
  size := 1
  write b := [b]
  read
    | [] => none
    | b :: rest => some (b, rest)
  length_write _ := rfl
  read_iff bytes b rest := by
    cases bytes with
    | nil => simp
    | cons b' rest' => simp [eq_comm]

/-- One behind the other. -/
def pair (f : Format α) (g : Format β) : Format (α × β) where
  size := f.size + g.size
  write p := f.write p.1 ++ g.write p.2
  read bytes := do
    let (a, bytes) ← f.read bytes
    let (b, rest) ← g.read bytes
    return ((a, b), rest)
  length_write p := by rw [List.length_append, f.length_write, g.length_write]
  read_iff bytes p rest := by
    simp only [Option.bind_eq_bind, Option.bind_eq_some_iff, Option.pure_def, Option.some.injEq,
      Prod.exists, f.read_iff, g.read_iff]
    constructor
    · rintro ⟨a, _, rfl, b, _, rfl, hp⟩
      cases hp
      rw [List.append_assoc]
    · rintro rfl
      exact ⟨p.1, g.write p.2 ++ rest, List.append_assoc _ _ _, p.2, rest, rfl, rfl⟩

/-- Values that are written as what they are tagged with. Other tags are refused. -/
def tagged (f : Format α) (toTag : β → α) (ofTag : α → Option β)
    (h : ∀ a b, ofTag a = some b ↔ a = toTag b) : Format β where
  size := f.size
  write b := f.write (toTag b)
  read bytes := do
    let (a, rest) ← f.read bytes
    let b ← ofTag a
    return (b, rest)
  length_write b := f.length_write _
  read_iff bytes b rest := by
    simp only [Option.bind_eq_bind, Option.bind_eq_some_iff, Option.pure_def, Option.some.injEq,
      Prod.exists, f.read_iff, h]
    constructor
    · rintro ⟨_, _, rfl, _, rfl, hp⟩
      cases hp
      rfl
    · rintro rfl
      exact ⟨_, _, rfl, _, rfl, rfl⟩

/-- The same values under another name. -/
def iso (f : Format α) (e : α ≃ β) : Format β :=
  f.tagged e.symm (fun a ↦ some (e a)) fun a b ↦ by rw [Option.some.injEq, e.eq_symm_apply]

/-- `n` bytes. -/
def bytes (n : ℕ) : Format (Vector UInt8 n) where
  size := n
  write v := v.toList
  read bytes :=
    if h : n ≤ bytes.length then
      some (⟨(bytes.take n).toArray, by simpa using h⟩, bytes.drop n)
    else none
  length_write v := v.length_toList
  read_iff bytes v rest := by
    have hlen : v.toList.length = n := v.length_toList
    constructor
    · intro h
      split at h
      · cases h
        simp [Vector.toList]
      · cases h
    · rintro rfl
      rw [dif_pos (by simp)]
      refine congrArg some (Prod.ext ?_ (List.drop_left' hlen))
      refine Vector.toList_inj.mp ?_
      simp [Vector.toList]

/-! ## Integers -/

/-- The lowest `n` bytes of a number, the lowest one first. -/
def littleEndian : ℕ → ℕ → List UInt8
  | 0, _ => []
  | n + 1, x => UInt8.ofNat (x % 256) :: littleEndian n (x / 256)

/-- The number some bytes stand for. -/
def ofLittleEndian : List UInt8 → ℕ
  | [] => 0
  | b :: bytes => b.toNat + 256 * ofLittleEndian bytes

theorem length_littleEndian (n x : ℕ) : (littleEndian n x).length = n := by
  induction n generalizing x with
  | zero => rfl
  | succ n ih => rw [littleEndian, List.length_cons, ih]

theorem ofLittleEndian_lt (bytes : List UInt8) : ofLittleEndian bytes < 256 ^ bytes.length := by
  induction bytes with
  | nil => exact Nat.one_pos
  | cons b bytes ih =>
    have hb := b.toNat_lt
    rw [ofLittleEndian, List.length_cons, Nat.pow_succ]
    omega

theorem ofLittleEndian_littleEndian {n x : ℕ} (h : x < 256 ^ n) :
    ofLittleEndian (littleEndian n x) = x := by
  induction n generalizing x with
  | zero => exact (Nat.lt_one_iff.mp h).symm
  | succ n ih =>
    rw [Nat.pow_succ] at h
    have hdiv : x / 256 < 256 ^ n := Nat.div_lt_of_lt_mul (by omega)
    have hbyte : (UInt8.ofNat (x % 256)).toNat = x % 256 :=
      UInt8.toNat_ofNat_of_lt' (Nat.mod_lt _ (by decide))
    rw [littleEndian, ofLittleEndian, ih hdiv, hbyte]
    exact Nat.mod_add_div x 256

theorem littleEndian_ofLittleEndian (bytes : List UInt8) :
    littleEndian bytes.length (ofLittleEndian bytes) = bytes := by
  induction bytes with
  | nil => rfl
  | cons b bytes ih =>
    have hb := b.toNat_lt
    have hmod : (b.toNat + 256 * ofLittleEndian bytes) % 256 = b.toNat := by omega
    have hdiv : (b.toNat + 256 * ofLittleEndian bytes) / 256 = ofLittleEndian bytes := by omega
    rw [List.length_cons, ofLittleEndian, littleEndian, hmod, hdiv, ih, UInt8.ofNat_toNat]

/-- A number of `n` bytes. -/
def uint (n : ℕ) : Format (Fin (256 ^ n)) where
  size := n
  write x := littleEndian n x
  read bytes :=
    if h : n ≤ bytes.length then
      some (⟨ofLittleEndian (bytes.take n), by
        have hlt := ofLittleEndian_lt (bytes.take n)
        rwa [List.length_take_of_le h] at hlt⟩, bytes.drop n)
    else none
  length_write x := length_littleEndian n x
  read_iff bytes x rest := by
    constructor
    · intro h
      split at h
      · rename_i hle
        cases h
        have hback := littleEndian_ofLittleEndian (bytes.take n)
        rw [List.length_take_of_le hle] at hback
        rw [hback, List.take_append_drop]
      · cases h
    · rintro rfl
      have hlen := length_littleEndian n x
      have htake : (littleEndian n x ++ rest).take n = littleEndian n x := List.take_left' hlen
      rw [dif_pos (by rw [List.length_append, hlen]; exact Nat.le_add_right _ _)]
      refine congrArg some (Prod.ext (Fin.ext ?_) (List.drop_left' hlen))
      exact (congrArg ofLittleEndian htake).trans (ofLittleEndian_littleEndian x.isLt)

def u64 : Format UInt64 :=
  (uint 8).iso ⟨UInt64.ofFin, UInt64.toFin, fun _ ↦ rfl, fun _ ↦ rfl⟩

def u32 : Format UInt32 :=
  (uint 4).iso ⟨UInt32.ofFin, UInt32.toFin, fun _ ↦ rfl, fun _ ↦ rfl⟩

/-- A flag is a byte that is 0 or 1. -/
def bool : Format Bool :=
  byte.tagged (fun b ↦ if b then 1 else 0)
    (fun b ↦ if b = 0 then some false else if b = 1 then some true else none) (by
    intro a b
    cases b <;> grind)

@[simp] theorem byte_size : byte.size = 1 := rfl

@[simp] theorem bool_size : bool.size = 1 := rfl

@[simp] theorem u32_size : u32.size = 4 := rfl

@[simp] theorem u64_size : u64.size = 8 := rfl

@[simp] theorem bytes_size (n : ℕ) : (bytes n).size = n := rfl

/-! ## What is accepted -/

/-- The bytes begin with a value. -/
def Accepts (f : Format α) (bytes : List UInt8) : Prop :=
  ∃ a rest, f.read bytes = some (a, rest)

section

variable {f : Format α} {g : Format β} {bytes : List UInt8} {n : ℕ}

theorem accepts_pair :
    (f.pair g).Accepts bytes ↔ f.Accepts bytes ∧ g.Accepts (bytes.drop f.size) := by
  constructor
  · rintro ⟨p, rest, h⟩
    rw [(f.pair g).read_iff] at h
    have hbytes : bytes = f.write p.1 ++ (g.write p.2 ++ rest) :=
      h.trans (List.append_assoc _ _ _)
    refine ⟨⟨p.1, _, (f.read_iff _ _ _).mpr hbytes⟩, p.2, rest, ?_⟩
    rw [g.read_iff, hbytes]
    exact List.drop_left' (f.length_write _)
  · rintro ⟨⟨a, rest, hf⟩, b, rest', hg⟩
    have hdrop := (take_size_of_read hf).2
    rw [hdrop, g.read_iff] at hg
    rw [f.read_iff] at hf
    refine ⟨(a, b), rest', ((f.pair g).read_iff _ _ _).mpr ?_⟩
    rw [hf, hg]
    exact (List.append_assoc _ _ _).symm

theorem accepts_iso {e : α ≃ β} : (f.iso e).Accepts bytes ↔ f.Accepts bytes := by
  constructor
  · rintro ⟨b, rest, h⟩
    exact ⟨e.symm b, rest, (f.read_iff _ _ _).mpr (((f.iso e).read_iff _ _ _).mp h)⟩
  · rintro ⟨a, rest, h⟩
    refine ⟨e a, rest, ((f.iso e).read_iff _ _ _).mpr ?_⟩
    rw [(f.read_iff _ _ _).mp h]
    change _ = f.write (e.symm (e a)) ++ rest
    rw [e.symm_apply_apply]

theorem accepts_uint : (uint n).Accepts bytes ↔ n ≤ bytes.length := by
  constructor
  · rintro ⟨x, rest, h⟩
    exact size_le_of_read h
  · intro h
    exact ⟨_, _, dif_pos h⟩

theorem accepts_bytes : (Format.bytes n).Accepts bytes ↔ n ≤ bytes.length := by
  constructor
  · rintro ⟨x, rest, h⟩
    exact size_le_of_read h
  · intro h
    exact ⟨_, _, dif_pos h⟩

theorem accepts_u64 : u64.Accepts bytes ↔ 8 ≤ bytes.length :=
  accepts_iso.trans accepts_uint

theorem accepts_u32 : u32.Accepts bytes ↔ 4 ≤ bytes.length :=
  accepts_iso.trans accepts_uint

theorem accepts_byte : byte.Accepts bytes ↔ 1 ≤ bytes.length := by
  constructor
  · rintro ⟨x, rest, h⟩
    exact size_le_of_read h
  · intro h
    cases bytes with
    | nil => cases h
    | cons b rest => exact ⟨b, rest, rfl⟩

/-- A tag in front is one of the known ones. -/
theorem accepts_tagged_byte {toTag : β → UInt8} {ofTag : UInt8 → Option β}
    {h : ∀ a b, ofTag a = some b ↔ a = toTag b} :
    (byte.tagged toTag ofTag h).Accepts bytes ↔ ∃ b, bytes[0]? = some (toTag b) := by
  constructor
  · rintro ⟨b, rest, hread⟩
    rw [(byte.tagged toTag ofTag h).read_iff] at hread
    exact ⟨b, by rw [hread]; rfl⟩
  · rintro ⟨b, hb⟩
    cases bytes with
    | nil => cases hb
    | cons b' rest =>
      cases hb
      exact ⟨b, rest, ((byte.tagged toTag ofTag h).read_iff _ _ _).mpr rfl⟩

theorem accepts_bool : bool.Accepts bytes ↔ bytes[0]? = some 0 ∨ bytes[0]? = some 1 := by
  rw [bool, accepts_tagged_byte]
  constructor
  · rintro ⟨b, hb⟩
    cases b
    · exact .inl hb
    · exact .inr hb
  · rintro (h | h)
    · exact ⟨false, h⟩
    · exact ⟨true, h⟩

end

/-! ## Codecs -/

/-- A format as a codec for slots. -/
def codec (f : Format α) : Codec α UInt8 where
  serialize := f.write
  deserialize bytes := (f.read bytes).map Prod.fst

theorem codec_fits (f : Format α) {n : ℕ} (h : f.size ≤ n) : f.codec.Fits n where
  length_le a := (f.length_write a).trans_le h
  deserialize_append a padding := by
    change (f.read (f.write a ++ padding)).map Prod.fst = some a
    rw [f.read_write_append]
    rfl

end Format

end Foundation
