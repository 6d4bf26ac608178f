import Berk162.Devices.BlockBytes

/-!
# InodeData — the data of an inode, `filesys/inode.c`

An inode on disk says where the file's data start and how many bytes they are.  The loops of
`inode_read_at` and `inode_write_at` go through the data sector by sector; they need a buffer from
`malloc` once a piece is not a whole sector.

`inode_read_loop_eq` and `inode_write_loop_eq` say exactly what the loops do: the data are an array
of bytes, a string of which is read or written.
-/

namespace Berk162

/-- What the calls of `malloc` to come return: memory (`true`) or a null pointer. -/
def Mallocs : Type := Nat → Bool

namespace Mallocs

/-- `malloc`. -/
def malloc (mem : Mallocs) : Bool × Mallocs := (mem 0, fun n => mem (n + 1))

/-- No call fails. -/
def Ample (mem : Mallocs) : Prop := ∀ n, mem n = true

theorem Ample.tail {mem : Mallocs} (h : mem.Ample) : mem.malloc.2.Ample := fun n => h (n + 1)

end Mallocs

/-- Identifies an inode. -/
def INODE_MAGIC : Nat := 0x494e4f44

/-- `struct inode_disk`, less the bytes that are not used.  `length` is an `off_t` that is not
negative. -/
structure InodeDisk where
  start : Nat
  length : Nat
  magic : Nat
  deriving DecidableEq, Repr

namespace InodeDisk

def toSector (disk_inode : InodeDisk) : Sector where
  bytes := le_bytes 4 disk_inode.start ++ le_bytes 4 disk_inode.length ++
    le_bytes 4 disk_inode.magic ++ List.replicate 500 0
  length_bytes := by
    simp only [List.length_append, length_le_bytes, List.length_replicate]
    rfl

def ofSector (sector : Sector) : InodeDisk where
  start := le_val (sector.bytes.take 4)
  length := le_val ((sector.bytes.drop 4).take 4)
  magic := le_val ((sector.bytes.drop 8).take 4)

theorem ofSector_toSector {disk_inode : InodeDisk} (hstart : disk_inode.start < WORD)
    (hlength : disk_inode.length < WORD) (hmagic : disk_inode.magic < WORD) :
    ofSector disk_inode.toSector = disk_inode := by
  have hfield : ∀ (x : Nat) (bs : Bytes), x < WORD → le_val ((le_bytes 4 x ++ bs).take 4) = x := by
    intro x bs hx
    rw [List.take_left' (length_le_bytes 4 x)]
    exact le_val_le_bytes_of_lt hx
  have hdrop : ∀ (x : Nat) (bs : Bytes), (le_bytes 4 x ++ bs).drop 4 = bs := fun x bs =>
    List.drop_left' (length_le_bytes 4 x)
  have hdrop₈ : ∀ bs : Bytes, bs.drop 8 = (bs.drop 4).drop 4 := by
    intro bs
    rw [List.drop_drop]
  simp only [ofSector, toSector, List.append_assoc, hdrop₈, hdrop, hfield _ _ hstart,
    hfield _ _ hlength, hfield _ _ hmagic]

end InodeDisk

/-- `bytes_to_sectors`: `DIV_ROUND_UP` in `off_t`, converted to `size_t`. -/
def bytes_to_sectors (size : Nat) : Nat :=
  to_size ((int32 (size + BLOCK_SECTOR_SIZE - 1)).tdiv BLOCK_SECTOR_SIZE)

/-- The largest `off_t`, plus one. -/
def OFF_T : Nat := 2 ^ 31

/-- `byte_to_sector`. -/
def byte_to_sector (data : InodeDisk) (pos : Nat) : Nat :=
  if pos < data.length then size_add data.start (pos / BLOCK_SECTOR_SIZE) else WORD - 1

/-- Number of bytes of `size` to copy out of the sector of `offset`, or into it. -/
def chunk_size (data : InodeDisk) (size offset : Nat) : Nat :=
  let inode_left := data.length - offset
  let sector_left := BLOCK_SECTOR_SIZE - offset % BLOCK_SECTOR_SIZE
  min size (min inode_left sector_left)

theorem chunk_size_le (data : InodeDisk) (size offset : Nat) : chunk_size data size offset ≤ size :=
  Nat.min_le_left _ _

/-- The bounce buffer, allocated at its first use. -/
def get_bounce (bounce : Bool) (mem : Mallocs) : Bool × Mallocs :=
  if bounce then (true, mem) else mem.malloc

/-- The loop of `inode_read_at`: the bytes read.  `bounce` says whether there is a bounce buffer. -/
def inode_read_loop (fs_device : Block) (data : InodeDisk) (mem : Mallocs) (bounce : Bool)
    (size offset : Nat) : Option (Bytes × Mallocs) :=
  let sector_idx := byte_to_sector data offset
  let sector_ofs := offset % BLOCK_SECTOR_SIZE
  let chunk := chunk_size data size offset
  if chunk = 0 then some ([], mem)
  else if sector_ofs = 0 ∧ chunk = BLOCK_SECTOR_SIZE then do
    let sector ← block_read fs_device sector_idx
    let (rest, mem) ← inode_read_loop fs_device data mem bounce (size - chunk) (offset + chunk)
    return (sector.bytes ++ rest, mem)
  else
    let (ok, mem) := get_bounce bounce mem
    if ok then do
      let sector ← block_read fs_device sector_idx
      let (rest, mem) ← inode_read_loop fs_device data mem true (size - chunk) (offset + chunk)
      return ((sector.bytes.drop sector_ofs).take chunk ++ rest, mem)
    else some ([], mem)
termination_by size
decreasing_by
  all_goals
    have hle := chunk_size_le data size offset
    omega

/-- The loop of `inode_write_at` on the rest of the caller's buffer: the number of bytes written. -/
def inode_write_loop (fs_device : Block) (data : InodeDisk) (mem : Mallocs) (bounce : Bool)
    (buffer : Bytes) (offset : Nat) : Option (Nat × Block × Mallocs) :=
  let sector_idx := byte_to_sector data offset
  let sector_ofs := offset % BLOCK_SECTOR_SIZE
  let sector_left := BLOCK_SECTOR_SIZE - sector_ofs
  let chunk := chunk_size data buffer.length offset
  if chunk = 0 then some (0, fs_device, mem)
  else if sector_ofs = 0 ∧ chunk = BLOCK_SECTOR_SIZE then do
    let fs_device ← block_write fs_device sector_idx (Sector.ofBytes fun i => buffer.getD i 0)
    let (n, fs_device, mem) ←
      inode_write_loop fs_device data mem bounce (buffer.drop chunk) (offset + chunk)
    return (chunk + n, fs_device, mem)
  else
    let (ok, mem) := get_bounce bounce mem
    if ok then do
      let sector ←
        if sector_ofs > 0 ∨ chunk < sector_left then block_read fs_device sector_idx
        else some (Sector.ofBytes fun _ => 0)
      let fs_device ← block_write fs_device sector_idx (sector.memcpy sector_ofs (buffer.take chunk))
      let (n, fs_device, mem) ←
        inode_write_loop fs_device data mem true (buffer.drop chunk) (offset + chunk)
      return (chunk + n, fs_device, mem)
    else some (0, fs_device, mem)
termination_by buffer.length
decreasing_by
  all_goals
    have hle := chunk_size_le data buffer.length offset
    rw [List.length_drop]
    omega

/-! ## Sizes -/

theorem bytes_to_sectors_eq {size : Nat} (h : size + BLOCK_SECTOR_SIZE ≤ OFF_T) :
    bytes_to_sectors size = (size + 511) / 512 := by
  simp only [BLOCK_SECTOR_SIZE, OFF_T] at h
  have hcast : (size : Int) + (512 : Nat) - 1 = ((size + 511 : Nat) : Int) := by omega
  rw [bytes_to_sectors, BLOCK_SECTOR_SIZE, hcast, int32_eq (by omega) (by omega),
    ← Int.ofNat_tdiv, to_size_eq (by omega) (by omega), Int.toNat_natCast]

/-- There is a sector for every byte, also where the sum wraps. -/
theorem le_bytes_to_sectors {size : Nat} (h : size < OFF_T) :
    size ≤ bytes_to_sectors size * BLOCK_SECTOR_SIZE := by
  by_cases hfit : size + BLOCK_SECTOR_SIZE ≤ OFF_T
  · rw [bytes_to_sectors_eq hfit, BLOCK_SECTOR_SIZE]
    omega
  · simp only [BLOCK_SECTOR_SIZE, OFF_T] at h hfit
    have hwrap : int32 ((size : Int) + (512 : Nat) - 1) = -((2 ^ 32 - size - 511 : Nat) : Int) := by
      unfold int32
      omega
    rw [bytes_to_sectors, BLOCK_SECTOR_SIZE, hwrap, Int.neg_tdiv, ← Int.ofNat_tdiv, to_size]
    omega

/-- Each byte of the data lies in one of the sectors. -/
theorem div_lt_bytes_to_sectors {size k : Nat} (h : size < OFF_T) (hk : k < size) :
    k / BLOCK_SECTOR_SIZE < bytes_to_sectors size := by
  refine Nat.div_lt_of_lt_mul ?_
  have hle := le_bytes_to_sectors h
  rw [Nat.mul_comm]
  omega

theorem bytes_to_sectors_zero : bytes_to_sectors 0 = 0 := by
  rw [bytes_to_sectors_eq (by decide)]

theorem bytes_to_sectors_pos {size : Nat} (h : size < OFF_T) (hpos : 0 < size) :
    0 < bytes_to_sectors size := by
  by_contra hzero
  have hle := le_bytes_to_sectors h
  rw [Nat.eq_zero_of_not_pos hzero, Nat.zero_mul] at hle
  omega

/-- The data of an inode lie on the device. -/
structure InodeDisk.Fits (data : InodeDisk) (fs_device : Block) : Prop where
  inside : data.start + bytes_to_sectors data.length ≤ fs_device.size
  length_lt : data.length < OFF_T

namespace InodeDisk.Fits

variable {data : InodeDisk} {fs_device fs_device' : Block} {offset : Nat}

theorem sector_eq (h : data.Fits fs_device) (hofs : offset < data.length) :
    byte_to_sector data offset = data.start + offset / BLOCK_SECTOR_SIZE ∧
      data.start + offset / BLOCK_SECTOR_SIZE < fs_device.size := by
  have hlt := div_lt_bytes_to_sectors h.length_lt hofs
  have hin := h.inside
  have hsize := fs_device.size_lt
  refine ⟨?_, by omega⟩
  rw [byte_to_sector, if_pos hofs, size_add_eq (by omega)]

theorem of_size (h : data.Fits fs_device) (hsize : fs_device'.size = fs_device.size) :
    data.Fits fs_device' := ⟨by rw [hsize]; exact h.inside, h.length_lt⟩

theorem patch (h : data.Fits fs_device) (start ofs : Nat) (bs : Bytes) :
    data.Fits (fs_device.patch start ofs bs) := h.of_size rfl

end InodeDisk.Fits

/-! ## What the loops do -/

/-- No piece of the string is less than a sector. -/
def Whole (offset n : Nat) : Prop := offset % BLOCK_SECTOR_SIZE = 0 ∧ (offset + n) % BLOCK_SECTOR_SIZE = 0

instance (offset n : Nat) : Decidable (Whole offset n) := inferInstanceAs (Decidable (_ ∧ _))

/-- How many of the `n` bytes from `offset` on are transferred: all of them, unless there is no
memory for the bounce buffer; then the whole sectors that come before its first use. -/
def moved (mem : Mallocs) (offset n : Nat) : Nat :=
  if Whole offset n ∨ mem 0 = true then n
  else if offset % BLOCK_SECTOR_SIZE = 0 then n / BLOCK_SECTOR_SIZE * BLOCK_SECTOR_SIZE else 0

/-- The memory after a transfer. -/
def mem_after (mem : Mallocs) (offset n : Nat) : Mallocs :=
  if n = 0 ∨ Whole offset n then mem else mem.malloc.2

/-- The number of bytes there are to transfer. -/
def in_file (data : InodeDisk) (size offset : Nat) : Nat := min size (data.length - offset)

section
variable {data : InodeDisk} {fs_device : Block} {mem : Mallocs} {size offset : Nat}

theorem chunk_spec (h : chunk_size data size offset ≠ 0) :
    offset < data.length ∧
      offset % BLOCK_SECTOR_SIZE + chunk_size data size offset ≤ BLOCK_SECTOR_SIZE ∧
      in_file data size offset = chunk_size data size offset +
        in_file data (size - chunk_size data size offset) (offset + chunk_size data size offset) := by
  simp only [chunk_size, in_file, BLOCK_SECTOR_SIZE] at h ⊢
  omega

theorem in_file_zero (h : chunk_size data size offset = 0) : in_file data size offset = 0 := by
  simp only [chunk_size, in_file, BLOCK_SECTOR_SIZE] at h ⊢
  omega

/-- After a whole sector the rest is transferred in the same way. -/
theorem moved_sector (mem : Mallocs) (hofs : offset % BLOCK_SECTOR_SIZE = 0) (n : Nat) :
    moved mem offset (BLOCK_SECTOR_SIZE + n) = BLOCK_SECTOR_SIZE + moved mem (offset + BLOCK_SECTOR_SIZE) n ∧
      mem_after mem offset (BLOCK_SECTOR_SIZE + n) = mem_after mem (offset + BLOCK_SECTOR_SIZE) n := by
  have hiff : Whole offset (BLOCK_SECTOR_SIZE + n) ↔ Whole (offset + BLOCK_SECTOR_SIZE) n := by
    simp only [Whole, BLOCK_SECTOR_SIZE] at hofs ⊢
    omega
  have hnext : (offset + BLOCK_SECTOR_SIZE) % BLOCK_SECTOR_SIZE = 0 := by
    rw [Nat.add_mod_right, hofs]
  have hdiv : (BLOCK_SECTOR_SIZE + n) / BLOCK_SECTOR_SIZE * BLOCK_SECTOR_SIZE =
      BLOCK_SECTOR_SIZE + n / BLOCK_SECTOR_SIZE * BLOCK_SECTOR_SIZE := by
    simp only [BLOCK_SECTOR_SIZE]
    omega
  constructor
  · simp only [moved, hiff, hofs, hnext, if_true, hdiv]
    split <;> rfl
  · have hne : BLOCK_SECTOR_SIZE + n ≠ 0 := by
      simp only [BLOCK_SECTOR_SIZE]
      omega
    simp only [mem_after, hiff, hne, false_or]
    by_cases hn : n = 0
    · have hwhole : Whole (offset + BLOCK_SECTOR_SIZE) n := ⟨hnext, by rw [hn]; exact hnext⟩
      rw [if_pos hwhole, if_pos (Or.inl hn)]
    · simp only [hn, false_or]

/-- The bounce buffer is needed when the next piece is not a sector. -/
theorem moved_piece (h : chunk_size data size offset ≠ 0)
    (hpiece : ¬ (offset % BLOCK_SECTOR_SIZE = 0 ∧ chunk_size data size offset = BLOCK_SECTOR_SIZE)) :
    mem_after mem offset (in_file data size offset) = mem.malloc.2 ∧
      moved mem offset (in_file data size offset) =
        if mem 0 = true then in_file data size offset else 0 := by
  have hne : in_file data size offset ≠ 0 := by
    simp only [chunk_size, in_file, BLOCK_SECTOR_SIZE] at h ⊢
    omega
  have hnot : ¬ Whole offset (in_file data size offset) := by
    simp only [chunk_size, in_file, Whole, BLOCK_SECTOR_SIZE] at h hpiece ⊢
    omega
  have hsmall : offset % BLOCK_SECTOR_SIZE = 0 →
      in_file data size offset / BLOCK_SECTOR_SIZE * BLOCK_SECTOR_SIZE = 0 := by
    simp only [chunk_size, in_file, BLOCK_SECTOR_SIZE] at h hpiece ⊢
    omega
  constructor
  · rw [mem_after, if_neg (not_or.2 ⟨hne, hnot⟩)]
  · simp only [moved, hnot, false_or]
    split
    · rfl
    · split
      · exact hsmall ‹_›
      · rfl

theorem inode_read_loop_done {bounce : Bool} (h : chunk_size data size offset = 0) :
    inode_read_loop fs_device data mem bounce size offset = some ([], mem) := by
  rw [inode_read_loop]
  simp only [h, if_true]

/-- A pass that reads a whole sector. -/
theorem inode_read_loop_whole {bounce : Bool} (h : data.Fits fs_device)
    (hofs : offset % BLOCK_SECTOR_SIZE = 0) (hchunk : chunk_size data size offset = BLOCK_SECTOR_SIZE) :
    inode_read_loop fs_device data mem bounce size offset =
      (inode_read_loop fs_device data mem bounce (size - BLOCK_SECTOR_SIZE)
          (offset + BLOCK_SECTOR_SIZE)).map fun r =>
        (window (fs_device.byte data.start) offset BLOCK_SECTOR_SIZE ++ r.1, r.2) := by
  have hne : chunk_size data size offset ≠ 0 := by
    rw [hchunk]
    decide
  rcases chunk_spec hne with ⟨hlt, hfit, _⟩
  rcases h.sector_eq hlt with ⟨hsector, hin⟩
  have hbytes : (fs_device.sectors (data.start + offset / BLOCK_SECTOR_SIZE)).bytes =
      window (fs_device.byte data.start) offset BLOCK_SECTOR_SIZE := by
    rw [← fs_device.window_sector data.start offset (by rw [hofs, Nat.zero_add]), hofs,
      List.drop_zero, List.take_of_length_le (Sector.length_bytes _).le]
  rw [inode_read_loop]
  simp only [if_neg hne, if_pos (And.intro hofs hchunk), hsector, block_read_eq hin,
    Option.bind_eq_bind, Option.bind_some, hbytes]
  rw [hchunk]
  cases inode_read_loop fs_device data mem bounce (size - BLOCK_SECTOR_SIZE)
    (offset + BLOCK_SECTOR_SIZE) <;> rfl

/-- A pass that reads a piece of a sector through the bounce buffer. -/
theorem inode_read_loop_piece {bounce : Bool} (h : data.Fits fs_device)
    (hne : chunk_size data size offset ≠ 0)
    (hpiece : ¬ (offset % BLOCK_SECTOR_SIZE = 0 ∧ chunk_size data size offset = BLOCK_SECTOR_SIZE)) :
    inode_read_loop fs_device data mem bounce size offset =
      if (get_bounce bounce mem).1 then
        (inode_read_loop fs_device data (get_bounce bounce mem).2 true
            (size - chunk_size data size offset) (offset + chunk_size data size offset)).map fun r =>
          (window (fs_device.byte data.start) offset (chunk_size data size offset) ++ r.1, r.2)
      else some ([], (get_bounce bounce mem).2) := by
  rcases chunk_spec hne with ⟨hlt, hfit, _⟩
  rcases h.sector_eq hlt with ⟨hsector, hin⟩
  rw [inode_read_loop]
  simp only [if_neg hne, if_neg hpiece, hsector, block_read_eq hin, Option.bind_eq_bind,
    Option.bind_some, fs_device.window_sector data.start offset hfit]
  split
  · cases inode_read_loop fs_device data (get_bounce bounce mem).2 true
      (size - chunk_size data size offset) (offset + chunk_size data size offset) <;> rfl
  · rfl

theorem inode_read_loop_bounce (h : data.Fits fs_device) :
    inode_read_loop fs_device data mem true size offset =
      some (window (fs_device.byte data.start) offset (in_file data size offset), mem) := by
  induction size using Nat.strong_induction_on generalizing offset with
  | _ size ih =>
      by_cases hne : chunk_size data size offset = 0
      · rw [inode_read_loop_done hne, in_file_zero hne, window_zero]
      rcases chunk_spec hne with ⟨_, _, hsum⟩
      have hle := chunk_size_le data size offset
      have hrest := @ih (size - chunk_size data size offset) (by omega)
        (offset + chunk_size data size offset)
      rw [hsum, window_add]
      by_cases hwhole : offset % BLOCK_SECTOR_SIZE = 0 ∧
          chunk_size data size offset = BLOCK_SECTOR_SIZE
      · rw [hwhole.2] at hrest ⊢
        rw [inode_read_loop_whole h hwhole.1 hwhole.2, hrest, Option.map_some]
      · rw [inode_read_loop_piece h hne hwhole]
        simp only [get_bounce, if_true, hrest]
        rfl

@[simp] theorem moved_zero : moved mem offset 0 = 0 := by
  simp [moved]

@[simp] theorem mem_after_zero : mem_after mem offset 0 = mem := by
  simp [mem_after]

/-- The loop of `inode_read_at` reads a string of the array that the data are. -/
theorem inode_read_loop_eq (h : data.Fits fs_device) :
    inode_read_loop fs_device data mem false size offset =
      some (window (fs_device.byte data.start) offset (moved mem offset (in_file data size offset)),
        mem_after mem offset (in_file data size offset)) := by
  induction size using Nat.strong_induction_on generalizing offset with
  | _ size ih =>
      by_cases hne : chunk_size data size offset = 0
      · rw [inode_read_loop_done hne, in_file_zero hne, moved_zero, mem_after_zero, window_zero]
      rcases chunk_spec hne with ⟨_, _, hsum⟩
      have hle := chunk_size_le data size offset
      by_cases hwhole : offset % BLOCK_SECTOR_SIZE = 0 ∧
          chunk_size data size offset = BLOCK_SECTOR_SIZE
      · have hrest := @ih (size - BLOCK_SECTOR_SIZE)
          (by rw [hwhole.2] at hle hne; omega) (offset + BLOCK_SECTOR_SIZE)
        rw [hwhole.2] at hsum
        rw [inode_read_loop_whole h hwhole.1 hwhole.2, hrest, hsum, (moved_sector mem hwhole.1 _).1,
          (moved_sector mem hwhole.1 _).2, window_add, Option.map_some]
      · have hmoved := @moved_piece _ mem _ _ hne hwhole
        rw [hmoved.1, hmoved.2, inode_read_loop_piece h hne hwhole, inode_read_loop_bounce h]
        simp only [get_bounce, Mallocs.malloc, Bool.false_eq_true, if_false]
        split
        · rw [hsum, window_add]
          rfl
        · rfl

/-! ## Writing -/

variable {buffer : Bytes}

theorem inode_write_loop_done {bounce : Bool} (h : chunk_size data buffer.length offset = 0) :
    inode_write_loop fs_device data mem bounce buffer offset = some (0, fs_device, mem) := by
  rw [inode_write_loop]
  simp only [h, if_true]

/-- A pass that writes a whole sector. -/
theorem inode_write_loop_whole {bounce : Bool} (h : data.Fits fs_device)
    (htype : fs_device.type ≠ .foreign) (hofs : offset % BLOCK_SECTOR_SIZE = 0)
    (hchunk : chunk_size data buffer.length offset = BLOCK_SECTOR_SIZE) :
    inode_write_loop fs_device data mem bounce buffer offset =
      (inode_write_loop (fs_device.patch data.start offset (buffer.take BLOCK_SECTOR_SIZE)) data mem
          bounce (buffer.drop BLOCK_SECTOR_SIZE) (offset + BLOCK_SECTOR_SIZE)).map fun r =>
        (BLOCK_SECTOR_SIZE + r.1, r.2) := by
  have hne : chunk_size data buffer.length offset ≠ 0 := by
    rw [hchunk]
    decide
  rcases chunk_spec hne with ⟨hlt, hfit, _⟩
  rcases h.sector_eq hlt with ⟨hsector, hin⟩
  have hle := chunk_size_le data buffer.length offset
  rw [hchunk] at hle
  have htake : (buffer.take BLOCK_SECTOR_SIZE).length = BLOCK_SECTOR_SIZE := by
    rw [List.length_take, Nat.min_eq_left hle]
  have hcopy : Sector.ofBytes (fun i => buffer.getD i 0) =
      (fs_device.sectors (data.start + offset / BLOCK_SECTOR_SIZE)).memcpy (offset % BLOCK_SECTOR_SIZE)
        (buffer.take BLOCK_SECTOR_SIZE) := by
    refine Sector.ofBytes_congr fun i hi => ?_
    rw [hofs, overlay_of_mem (Nat.zero_le i) (by rw [htake]; omega), Nat.sub_zero,
      List.getD_eq_getElem?_getD, List.getD_eq_getElem?_getD, List.getElem?_take_of_lt hi]
    rfl
  rw [inode_write_loop]
  simp only [if_neg hne, if_pos (And.intro hofs hchunk), hsector, block_write_eq _ hin htype,
    Option.bind_eq_bind, Option.bind_some, hcopy]
  rw [hchunk, Block.store_memcpy _ _ _ _ (by rw [hofs, htake, Nat.zero_add])]
  cases inode_write_loop (fs_device.patch data.start offset (buffer.take BLOCK_SECTOR_SIZE)) data mem
    bounce (buffer.drop BLOCK_SECTOR_SIZE) (offset + BLOCK_SECTOR_SIZE) <;> rfl

/-- A pass that writes a piece of a sector through the bounce buffer. -/
theorem inode_write_loop_piece {bounce : Bool} (h : data.Fits fs_device)
    (htype : fs_device.type ≠ .foreign) (hne : chunk_size data buffer.length offset ≠ 0)
    (hpiece : ¬ (offset % BLOCK_SECTOR_SIZE = 0 ∧
      chunk_size data buffer.length offset = BLOCK_SECTOR_SIZE)) :
    inode_write_loop fs_device data mem bounce buffer offset =
      if (get_bounce bounce mem).1 then
        (inode_write_loop
            (fs_device.patch data.start offset (buffer.take (chunk_size data buffer.length offset)))
            data (get_bounce bounce mem).2 true
            (buffer.drop (chunk_size data buffer.length offset))
            (offset + chunk_size data buffer.length offset)).map fun r =>
          (chunk_size data buffer.length offset + r.1, r.2)
      else some (0, fs_device, (get_bounce bounce mem).2) := by
  rcases chunk_spec hne with ⟨hlt, hfit, _⟩
  rcases h.sector_eq hlt with ⟨hsector, hin⟩
  have hle := chunk_size_le data buffer.length offset
  have htake : (buffer.take (chunk_size data buffer.length offset)).length =
      chunk_size data buffer.length offset := by
    rw [List.length_take, Nat.min_eq_left hle]
  -- the sector is read first, since the piece does not cover it
  have hread : offset % BLOCK_SECTOR_SIZE > 0 ∨ chunk_size data buffer.length offset <
      BLOCK_SECTOR_SIZE - offset % BLOCK_SECTOR_SIZE := by
    omega
  rw [inode_write_loop]
  simp only [if_neg hne, if_neg hpiece, hsector, block_read_eq hin, block_write_eq _ hin htype,
    if_pos hread, Option.bind_eq_bind, Option.bind_some]
  rw [Block.store_memcpy _ _ _ _ (by rw [htake]; exact hfit)]
  split
  · cases inode_write_loop
      (fs_device.patch data.start offset (buffer.take (chunk_size data buffer.length offset)))
      data (get_bounce bounce mem).2 true (buffer.drop (chunk_size data buffer.length offset))
      (offset + chunk_size data buffer.length offset) <;> rfl
  · rfl

/-- Two pieces of the buffer are written one after the other. -/
theorem patch_take_drop (fs_device : Block) (start offset : Nat) (buffer : Bytes) {m : Nat}
    (hm : m ≤ buffer.length) (n : Nat) :
    (fs_device.patch start offset (buffer.take m)).patch start (offset + m)
        ((buffer.drop m).take n) = fs_device.patch start offset (buffer.take (m + n)) := by
  have hlen : (buffer.take m).length = m := by
    rw [List.length_take, Nat.min_eq_left hm]
  have happ := fs_device.patch_append start offset (buffer.take m) ((buffer.drop m).take n)
  rw [hlen] at happ
  rw [happ, List.take_add]

theorem inode_write_loop_bounce (h : data.Fits fs_device) (htype : fs_device.type ≠ .foreign) :
    inode_write_loop fs_device data mem true buffer offset =
      some (in_file data buffer.length offset,
        fs_device.patch data.start offset (buffer.take (in_file data buffer.length offset)), mem) := by
  induction hn : buffer.length using Nat.strong_induction_on
    generalizing buffer offset fs_device with
  | _ n ih =>
      rw [← hn]
      by_cases hne : chunk_size data buffer.length offset = 0
      · rw [inode_write_loop_done hne, in_file_zero hne, List.take_zero, Block.patch_nil]
      rcases chunk_spec hne with ⟨_, _, hsum⟩
      have hle := chunk_size_le data buffer.length offset
      have hdrop : (buffer.drop (chunk_size data buffer.length offset)).length =
          buffer.length - chunk_size data buffer.length offset := List.length_drop
      have hrest := @ih (buffer.length - chunk_size data buffer.length offset) (by omega) _
        (offset + chunk_size data buffer.length offset) _
        (h.patch data.start offset (buffer.take (chunk_size data buffer.length offset))) htype hdrop
      rw [patch_take_drop _ _ _ _ hle, ← hsum] at hrest
      by_cases hwhole : offset % BLOCK_SECTOR_SIZE = 0 ∧
          chunk_size data buffer.length offset = BLOCK_SECTOR_SIZE
      · rw [inode_write_loop_whole h htype hwhole.1 hwhole.2, ← hwhole.2, hrest, Option.map_some,
          ← hsum]
      · rw [inode_write_loop_piece h htype hne hwhole]
        simp only [get_bounce, if_true, hrest, Option.map_some, ← hsum]

/-- The loop of `inode_write_at` writes a string into the array that the data are. -/
theorem inode_write_loop_eq (h : data.Fits fs_device) (htype : fs_device.type ≠ .foreign) :
    inode_write_loop fs_device data mem false buffer offset =
      some (moved mem offset (in_file data buffer.length offset),
        fs_device.patch data.start offset
          (buffer.take (moved mem offset (in_file data buffer.length offset))),
        mem_after mem offset (in_file data buffer.length offset)) := by
  induction hn : buffer.length using Nat.strong_induction_on
    generalizing buffer offset fs_device with
  | _ n ih =>
      rw [← hn]
      by_cases hne : chunk_size data buffer.length offset = 0
      · rw [inode_write_loop_done hne, in_file_zero hne, moved_zero, mem_after_zero, List.take_zero,
          Block.patch_nil]
      rcases chunk_spec hne with ⟨_, _, hsum⟩
      have hle := chunk_size_le data buffer.length offset
      by_cases hwhole : offset % BLOCK_SECTOR_SIZE = 0 ∧
          chunk_size data buffer.length offset = BLOCK_SECTOR_SIZE
      · rw [hwhole.2] at hle hsum
        have hdrop : (buffer.drop BLOCK_SECTOR_SIZE).length = buffer.length - BLOCK_SECTOR_SIZE :=
          List.length_drop
        have hpos : 0 < BLOCK_SECTOR_SIZE := by decide
        have hrest := @ih (buffer.length - BLOCK_SECTOR_SIZE) (by omega) _ (offset + BLOCK_SECTOR_SIZE) _
          (h.patch data.start offset (buffer.take BLOCK_SECTOR_SIZE)) htype hdrop
        rw [patch_take_drop _ _ _ _ hle] at hrest
        rw [inode_write_loop_whole h htype hwhole.1 hwhole.2, hrest, Option.map_some, hsum,
          (moved_sector mem hwhole.1 _).1, (moved_sector mem hwhole.1 _).2]
      · have hmoved := @moved_piece _ mem _ _ hne hwhole
        have hdrop : (buffer.drop (chunk_size data buffer.length offset)).length =
            buffer.length - chunk_size data buffer.length offset := List.length_drop
        have hrest := @inode_write_loop_bounce _ _ mem.malloc.2
          (offset + chunk_size data buffer.length offset)
          (buffer.drop (chunk_size data buffer.length offset))
          (h.patch data.start offset (buffer.take (chunk_size data buffer.length offset))) htype
        rw [hdrop, patch_take_drop _ _ _ _ hle, ← hsum] at hrest
        rw [hmoved.1, hmoved.2, inode_write_loop_piece h htype hne hwhole]
        simp only [get_bounce, Bool.false_eq_true, if_false, hrest, Option.map_some, ← hsum]
        cases hmem : mem 0 with
        | false =>
            simp only [Mallocs.malloc, hmem, Bool.false_eq_true, if_false, List.take_zero,
              Block.patch_nil]
        | true =>
            simp only [Mallocs.malloc, hmem, if_true]

end

end Berk162
