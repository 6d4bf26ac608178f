import Berk162.Devices.Block
import Berk162.Lib.Window

/-!
# BlockBytes — consecutive sectors as an array of bytes

`block.byte start` numbers the bytes of a device from sector `start` on, and `block.patch start`
writes a string there.
-/

namespace Berk162

namespace Sector

/-- The byte number `i`. -/
def byte (sector : Sector) (i : Nat) : UInt8 := sector.bytes.getD i 0

/-- The sector with the bytes `f`. -/
def ofBytes (f : Nat → UInt8) : Sector := ⟨window f 0 BLOCK_SECTOR_SIZE, length_window⟩

/-- The sector after `memcpy (sector + ofs, bs, strlen bs)`, as far as it fits. -/
def memcpy (sector : Sector) (ofs : Nat) (bs : Bytes) : Sector :=
  ofBytes (overlay sector.byte ofs bs)

variable {f g : Nat → UInt8} {sector sector' : Sector} {i : Nat}

theorem ofBytes_byte (h : i < BLOCK_SECTOR_SIZE) : (ofBytes f).byte i = f i := by
  simp only [byte, ofBytes, getD_window h, Nat.zero_add]

theorem bytes_eq (sector : Sector) : sector.bytes = window sector.byte 0 BLOCK_SECTOR_SIZE := by
  have hself := window_getD sector.bytes 0
  rw [sector.length_bytes] at hself
  exact hself.symm

theorem ext_byte (h : ∀ i, i < BLOCK_SECTOR_SIZE → sector.byte i = sector'.byte i) :
    sector = sector' := by
  cases sector with
  | mk bytes hlen =>
      cases sector' with
      | mk bytes' hlen' =>
          have hbytes : bytes = bytes' := by
            calc
              bytes = window (Sector.mk bytes hlen).byte 0 BLOCK_SECTOR_SIZE :=
                (Sector.mk bytes hlen).bytes_eq
              _ = window (Sector.mk bytes' hlen').byte 0 BLOCK_SECTOR_SIZE :=
                window_congr fun i _ hi => h i (by omega)
              _ = bytes' := (Sector.mk bytes' hlen').bytes_eq.symm
          subst hbytes
          rfl

theorem ofBytes_congr (h : ∀ i, i < BLOCK_SECTOR_SIZE → f i = g i) : ofBytes f = ofBytes g :=
  ext_byte fun i hi => by rw [ofBytes_byte hi, ofBytes_byte hi, h i hi]

theorem ofBytes_eq (h : ∀ i, i < BLOCK_SECTOR_SIZE → f i = sector.byte i) :
    ofBytes f = sector :=
  ext_byte fun i hi => by rw [ofBytes_byte hi, h i hi]

end Sector

namespace Block

/-- The byte number `k` from sector `start` on. -/
def byte (block : Block) (start k : Nat) : UInt8 :=
  (block.sectors (start + k / BLOCK_SECTOR_SIZE)).byte (k % BLOCK_SECTOR_SIZE)

/-- The device after the string `bs` has been written at byte `ofs` from sector `start` on. -/
def patch (block : Block) (start ofs : Nat) (bs : Bytes) : Block :=
  { block with
    sectors := fun a =>
      if start ≤ a then
        Sector.ofBytes fun j => overlay (block.byte start) ofs bs ((a - start) * BLOCK_SECTOR_SIZE + j)
      else block.sectors a }

variable {block : Block} {start ofs : Nat} {bs cs : Bytes}

@[simp] theorem patch_size : (block.patch start ofs bs).size = block.size := rfl

@[simp] theorem patch_type : (block.patch start ofs bs).type = block.type := rfl

theorem byte_at (block : Block) (start n : Nat) {j : Nat} (h : j < BLOCK_SECTOR_SIZE) :
    block.byte start (n * BLOCK_SECTOR_SIZE + j) = (block.sectors (start + n)).byte j := by
  have hpos : 0 < BLOCK_SECTOR_SIZE := by decide
  rw [byte, Nat.mul_comm, Nat.mul_add_div hpos, Nat.mul_add_mod, Nat.div_eq_of_lt h,
    Nat.mod_eq_of_lt h, Nat.add_zero]

/-- A piece of a sector is a string of the array. -/
theorem window_sector (block : Block) (start ofs : Nat) {n : Nat}
    (hfit : ofs % BLOCK_SECTOR_SIZE + n ≤ BLOCK_SECTOR_SIZE) :
    ((block.sectors (start + ofs / BLOCK_SECTOR_SIZE)).bytes.drop (ofs % BLOCK_SECTOR_SIZE)).take n =
      window (block.byte start) ofs n := by
  have hdiv := Nat.div_add_mod' ofs BLOCK_SECTOR_SIZE
  rw [Sector.bytes_eq, drop_window (by omega), take_window (by omega)]
  refine window_shift fun i hi => ?_
  have hat := byte_at block start (ofs / BLOCK_SECTOR_SIZE)
    (show ofs % BLOCK_SECTOR_SIZE + i < BLOCK_SECTOR_SIZE by omega)
  rw [Nat.zero_add, ← hat, ← Nat.add_assoc, hdiv]

/-- A patch changes the array of bytes, and nothing in the sectors that it does not reach. -/
theorem byte_patch : (block.patch start ofs bs).byte start = overlay (block.byte start) ofs bs := by
  funext k
  have hle : start ≤ start + k / BLOCK_SECTOR_SIZE := Nat.le_add_right _ _
  have hlt : k % BLOCK_SECTOR_SIZE < BLOCK_SECTOR_SIZE := Nat.mod_lt _ (by decide)
  have hk : k / BLOCK_SECTOR_SIZE * BLOCK_SECTOR_SIZE + k % BLOCK_SECTOR_SIZE = k :=
    Nat.div_add_mod' k BLOCK_SECTOR_SIZE
  simp only [byte, patch, if_pos hle, Sector.ofBytes_byte hlt, Nat.add_sub_cancel_left, hk]

theorem patch_sectors_of_not_mem {a n : Nat} (hfit : ofs + bs.length ≤ n * BLOCK_SECTOR_SIZE)
    (ha : a < start ∨ start + n ≤ a) : (block.patch start ofs bs).sectors a = block.sectors a := by
  by_cases hle : start ≤ a
  · simp only [patch, if_pos hle]
    refine Sector.ofBytes_eq fun j hj => ?_
    have hn : n * BLOCK_SECTOR_SIZE ≤ (a - start) * BLOCK_SECTOR_SIZE :=
      Nat.mul_le_mul_right _ (by omega)
    rw [overlay_of_not_mem (by omega), byte_at _ _ _ hj, Nat.add_sub_cancel' hle]
  · simp only [patch, if_neg hle]

theorem ext_sectors {block' : Block} (h : block'.name = block.name) (htype : block'.type = block.type)
    (hsize : block'.size = block.size) (hsectors : ∀ a, block'.sectors a = block.sectors a) :
    block' = block := by
  cases block with
  | mk name type size size_lt sectors =>
      cases block' with
      | mk name' type' size' size_lt' sectors' =>
          obtain rfl : sectors' = sectors := funext hsectors
          subst h htype hsize
          rfl

@[simp] theorem patch_nil : block.patch start ofs [] = block := by
  refine ext_sectors rfl rfl rfl fun a => ?_
  by_cases hle : start ≤ a
  · simp only [patch, if_pos hle, overlay_nil]
    refine Sector.ofBytes_eq fun j hj => ?_
    rw [byte_at _ _ _ hj, Nat.add_sub_cancel' hle]
  · simp only [patch, if_neg hle]

/-- Two strings are written one after the other. -/
theorem patch_append (block : Block) (start ofs : Nat) (bs cs : Bytes) :
    (block.patch start ofs bs).patch start (ofs + bs.length) cs = block.patch start ofs (bs ++ cs) := by
  refine ext_sectors rfl rfl rfl fun a => ?_
  by_cases hle : start ≤ a
  · simp only [patch, if_pos hle]
    refine Sector.ofBytes_congr fun j hj => ?_
    have hbyte := @byte_patch block start ofs bs
    simp only [patch] at hbyte
    rw [hbyte, overlay_append]
  · simp only [patch, if_neg hle]

/-- A sector of the array is stored with a piece of the string in it. -/
theorem store_memcpy (block : Block) (start ofs : Nat) (bs : Bytes)
    (hfit : ofs % BLOCK_SECTOR_SIZE + bs.length ≤ BLOCK_SECTOR_SIZE) :
    block.store (start + ofs / BLOCK_SECTOR_SIZE)
        ((block.sectors (start + ofs / BLOCK_SECTOR_SIZE)).memcpy (ofs % BLOCK_SECTOR_SIZE) bs) =
      block.patch start ofs bs := by
  have hdiv := Nat.div_add_mod' ofs BLOCK_SECTOR_SIZE
  refine ext_sectors rfl rfl rfl fun a => ?_
  by_cases ha : a = start + ofs / BLOCK_SECTOR_SIZE
  · subst ha
    have hle : start ≤ start + ofs / BLOCK_SECTOR_SIZE := Nat.le_add_right _ _
    simp only [store_sectors_self, Sector.memcpy, patch, if_pos hle, Nat.add_sub_cancel_left]
    refine Sector.ofBytes_congr fun j hj => ?_
    simp only [overlay, byte_at _ _ _ hj]
    have hiff : (ofs % BLOCK_SECTOR_SIZE ≤ j ∧ j < ofs % BLOCK_SECTOR_SIZE + bs.length) ↔
        (ofs ≤ ofs / BLOCK_SECTOR_SIZE * BLOCK_SECTOR_SIZE + j ∧
          ofs / BLOCK_SECTOR_SIZE * BLOCK_SECTOR_SIZE + j < ofs + bs.length) := by omega
    have hsub : ofs / BLOCK_SECTOR_SIZE * BLOCK_SECTOR_SIZE + j - ofs =
        j - ofs % BLOCK_SECTOR_SIZE := by omega
    simp only [hiff, hsub]
  · rw [store_sectors_of_ne _ _ ha]
    by_cases hle : start ≤ a
    · simp only [patch, if_pos hle]
      refine (Sector.ofBytes_eq fun j hj => ?_).symm
      rw [overlay_of_not_mem, byte_at _ _ _ hj, Nat.add_sub_cancel' hle]
      rcases Nat.lt_or_gt_of_ne (show a - start ≠ ofs / BLOCK_SECTOR_SIZE by omega) with hlt | hgt
      · have := Nat.mul_le_mul_right BLOCK_SECTOR_SIZE (Nat.succ_le_of_lt hlt)
        rw [Nat.succ_mul] at this
        left
        omega
      · have := Nat.mul_le_mul_right BLOCK_SECTOR_SIZE (Nat.succ_le_of_lt hgt)
        rw [Nat.succ_mul] at this
        right
        omega
    · simp only [patch, if_neg hle]

end Block

end Berk162
