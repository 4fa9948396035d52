import Mathlib

/-!
# Memory

Memory has a byte at each of its `2 ^ 64` addresses.  A cell of several bytes keeps the lowest byte
of its value at the lowest address, and addresses wrap around.  Two cells of four and of eight bytes
occur: `dword` and `quad`.

* `load_store`: a cell holds what was stored there.
* `store_apply_of_outside`: a store leaves all other bytes alone.
* `load_dword`: the four bytes at an address are the lower half of the eight bytes there.
-/

namespace LineCompiler.Machine

/-- An address, or the content of a register. -/
abbrev Word := BitVec 64

/-- A memory. -/
abbrev Memory := Word → BitVec 8

/-- The widths of cells and registers. -/
inductive Width where
  | dword | quad
  deriving DecidableEq

/-- How many bytes a cell has. -/
def Width.bytes : Width → Nat
  | .dword => 4
  | .quad => 8

/-- How many bits a cell has. -/
abbrev Width.bits : Width → Nat
  | .dword => 32
  | .quad => 64

theorem Width.pow_bytes (width : Width) : 256 ^ width.bytes = 2 ^ width.bits := by
  cases width <;> rfl

/-- Whether a signed number fits into a cell of a width. -/
def Width.Fits (width : Width) (value : Int) : Prop :=
  -2 ^ (width.bits - 1) ≤ value ∧ value < 2 ^ (width.bits - 1)

instance (width : Width) (value : Int) : Decidable (width.Fits value) :=
  inferInstanceAs (Decidable (_ ∧ _))

theorem Width.fits_quad_iff {value : Int} :
    Width.quad.Fits value ↔ -2 ^ 63 ≤ value ∧ value < 2 ^ 63 :=
  Iff.rfl

section Fits

variable {width : Width}

theorem Width.Fits.toInt_ofInt {value : Int} (hfits : width.Fits value) :
    (BitVec.ofInt width.bits value).toInt = value := by
  have hbits : 0 < width.bits := by
    cases width <;> decide
  exact BitVec.toInt_ofInt_eq_self hbits hfits.1 hfits.2

/-- The lower part of a word has the same number, if the number fits into it. -/
theorem Width.Fits.toInt_setWidth {value : Word} (hfits : width.Fits value.toInt) :
    (value.setWidth width.bits).toInt = value.toInt := by
  have hmod : (value.setWidth width.bits).toInt = value.toInt.bmod (2 ^ width.bits) := by
    rw [BitVec.toInt_setWidth, BitVec.toInt_eq_toNat_bmod, Int.bmod_bmod_of_dvd]
    cases width <;> decide
  rw [hmod, ← BitVec.toInt_ofInt, hfits.toInt_ofInt]

end Fits

namespace Memory

/-- The number that consecutive bytes hold. -/
def number (memory : Memory) (address : Word) : Nat → Nat
  | 0 => 0
  | count + 1 => (memory address).toNat + 256 * number memory (address + 1) count

/-- The value of a cell. -/
def load (memory : Memory) (width : Width) (address : Word) : BitVec width.bits :=
  BitVec.ofNat width.bits (number memory address width.bytes)

/-- Whether a byte belongs to a cell. -/
def inCell (width : Width) (address byte : Word) : Prop :=
  (byte - address).toNat < width.bytes

instance (width : Width) (address byte : Word) : Decidable (inCell width address byte) :=
  inferInstanceAs (Decidable (_ < _))

/-- Memory after a store to a cell. -/
def store (memory : Memory) (width : Width) (address : Word) (value : BitVec width.bits) :
    Memory := fun byte =>
  if inCell width address byte then BitVec.ofNat 8 (value.toNat / 256 ^ (byte - address).toNat)
  else memory byte

/-! ## Loads -/

theorem number_add (memory : Memory) (address : Word) (count more : Nat) :
    number memory address (count + more) =
      number memory address count +
        256 ^ count * number memory (address + BitVec.ofNat 64 count) more := by
  induction count generalizing address with
  | zero => simp [number]
  | succ count ih =>
      have hnext : address + BitVec.ofNat 64 (count + 1) = address + 1 + BitVec.ofNat 64 count := by
        rw [BitVec.add_assoc, BitVec.ofNat_add, BitVec.add_comm (BitVec.ofNat 64 count)]
        rfl
      rw [Nat.succ_add, number, number, ih, hnext, Nat.pow_succ', Nat.mul_add, Nat.add_assoc,
        Nat.mul_assoc]

/-- The four bytes at an address are the lower half of the eight bytes there. -/
theorem load_dword (memory : Memory) (address : Word) :
    memory.load .dword address = (memory.load .quad address).setWidth 32 := by
  have hlow : number memory address 8 % 2 ^ 32 = number memory address 4 % 2 ^ 32 := by
    rw [show 8 = 4 + 4 from rfl, number_add, show 256 ^ 4 = 2 ^ 32 from rfl,
      Nat.add_mul_mod_self_left]
  apply BitVec.eq_of_toNat_eq
  show (BitVec.ofNat 32 (number memory address 4)).toNat =
    ((BitVec.ofNat 64 (number memory address 8)).setWidth 32).toNat
  rw [BitVec.setWidth_ofNat_of_le (by decide), BitVec.toNat_ofNat, BitVec.toNat_ofNat, hlow]

/-! ## Stores -/

section Store

variable {memory : Memory} {width : Width} {address : Word} {value : BitVec width.bits}

theorem store_apply_of_outside {byte : Word} (houtside : ¬ inCell width address byte) :
    memory.store width address value byte = memory byte :=
  if_neg houtside

/-- Consecutive bytes that hold the digits of a number from a place on. -/
theorem number_of_digits {start count content : Nat}
    (hbytes : ∀ index < count, (memory (address + BitVec.ofNat 64 (start + index))).toNat =
      content / 256 ^ (start + index) % 256) :
    number memory (address + BitVec.ofNat 64 start) count =
      content / 256 ^ start % 256 ^ count := by
  induction count generalizing start with
  | zero => simp [number, Nat.mod_one]
  | succ count ih =>
      have hfirst := hbytes 0 (Nat.succ_pos count)
      have hrest : number memory (address + BitVec.ofNat 64 (start + 1)) count =
          content / 256 ^ (start + 1) % 256 ^ count := by
        apply ih
        intro index hindex
        have hbyte := hbytes (index + 1) (Nat.succ_lt_succ hindex)
        rwa [show start + (index + 1) = start + 1 + index by omega] at hbyte
      have hnext : address + BitVec.ofNat 64 start + 1 = address + BitVec.ofNat 64 (start + 1) := by
        rw [BitVec.ofNat_add, BitVec.add_assoc]
        rfl
      rw [Nat.add_zero] at hfirst
      rw [number, hnext, hrest, hfirst, Nat.pow_succ 256 start, ← Nat.div_div_eq_div_mul,
        Nat.pow_succ', Nat.mod_mul]

/-- **A cell holds what was stored there.** -/
theorem load_store (memory : Memory) (width : Width) (address : Word) (value : BitVec width.bits) :
    (memory.store width address value).load width address = value := by
  have hbytes : ∀ index < width.bytes,
      (memory.store width address value (address + BitVec.ofNat 64 (0 + index))).toNat =
        value.toNat / 256 ^ (0 + index) % 256 := by
    intro index hindex
    have hsmall : index < 2 ^ 64 := by
      cases width <;> simp only [Width.bytes] at hindex <;> omega
    have hoffset : (address + BitVec.ofNat 64 (0 + index) - address).toNat = index := by
      rw [Nat.zero_add, BitVec.add_comm, BitVec.add_sub_cancel, BitVec.toNat_ofNat,
        Nat.mod_eq_of_lt hsmall]
    rw [store, if_pos (by rwa [inCell, hoffset]), hoffset, BitVec.toNat_ofNat, Nat.zero_add]
  have hnumber :=
    @number_of_digits (memory.store width address value) address 0 width.bytes value.toNat hbytes
  rw [Nat.pow_zero, Nat.div_one, width.pow_bytes, Nat.mod_eq_of_lt value.isLt] at hnumber
  rw [load]
  apply BitVec.eq_of_toNat_eq
  have haddress : address + BitVec.ofNat 64 0 = address := by simp
  rw [haddress] at hnumber
  rw [hnumber, BitVec.toNat_ofNat, Nat.mod_eq_of_lt value.isLt]

end Store

end Memory

end LineCompiler.Machine
