import Berk162.Filesys.Fsutil
import Berk162.LibC.UstarFormat

/-!
# Archive — ustar archives on a device

An archive is a header and the sectors of the data for each file, one file after the other.  What is
said here depends only on the device: `Archived` says that the sectors from `k` on hold the archive,
whoever has written them.
-/

namespace Berk162

/-- A file that an archive can hold under its own name. -/
structure ArchiveFile where
  file_name : CString
  data : Bytes
  stripped_name : stripped file_name = file_name
  length_name : file_name.chars.length ≤ 99
  length_data : data.length ≤ INT_MAX

/-- The number of sectors of the data. -/
def data_sectors (size : Nat) : Nat := (size + 511) / 512

/-- Sector `j` of the data, filled up with zeros. -/
def data_sector (data : Bytes) (j : Nat) : Sector :=
  Sector.ofBytes fun i => data.getD (BLOCK_SECTOR_SIZE * j + i) 0

namespace ArchiveFile

/-- The header and the data. -/
def sectors (x : ArchiveFile) : Nat := 1 + data_sectors x.data.length

/-- What the header of the file says. -/
def entry (x : ArchiveFile) : UstarEntry := ⟨some x.file_name, .USTAR_REGULAR, x.data.length⟩

end ArchiveFile

def archive_sectors (xs : List ArchiveFile) : Nat := (xs.map ArchiveFile.sectors).sum

@[simp] theorem archive_sectors_nil : archive_sectors [] = 0 := rfl

@[simp] theorem archive_sectors_cons (x : ArchiveFile) (xs : List ArchiveFile) :
    archive_sectors (x :: xs) = x.sectors + archive_sectors xs := by
  simp [archive_sectors]

variable {dev dev' : Block} {k : Nat} {data : Bytes} {x : ArchiveFile} {xs ys : List ArchiveFile}

/-! ## The data of a file -/

/-- The sectors of the data begin at `k`. -/
def HoldsData (dev : Block) (k : Nat) (data : Bytes) : Prop :=
  ∀ j < data_sectors data.length, dev.sectors (k + j) = data_sector data j

theorem copy_size_eq (size : Nat) : copy_size size = min size 512 := by
  rw [copy_size, BLOCK_SECTOR_SIZE]
  split <;> omega

theorem data_sectors_step {size : Nat} (h : 0 < size) :
    data_sectors size = data_sectors (size - copy_size size) + 1 := by
  rw [data_sectors, data_sectors, copy_size_eq]
  omega

/-- What is left of the data after one sector. -/
theorem data_sector_drop (data : Bytes) (j : Nat) :
    data_sector (data.drop (copy_size data.length)) j = data_sector data (j + 1) := by
  refine Sector.ofBytes_congr fun i _ => ?_
  rw [List.getD_eq_getElem?_getD, List.getD_eq_getElem?_getD, List.getElem?_drop]
  rcases Nat.le_total data.length 512 with hle | hle
  · have hnone : ∀ n, 512 ≤ n → data[n]? = none := fun n hn =>
      List.getElem?_eq_none (Nat.le_trans hle hn)
    have hnone' : data[copy_size data.length + (BLOCK_SECTOR_SIZE * j + i)]? = none := by
      refine List.getElem?_eq_none ?_
      rw [copy_size_eq]
      omega
    rw [hnone', hnone (BLOCK_SECTOR_SIZE * (j + 1) + i) (by rw [BLOCK_SECTOR_SIZE]; omega)]
  · have hidx : copy_size data.length + (BLOCK_SECTOR_SIZE * j + i) =
        BLOCK_SECTOR_SIZE * (j + 1) + i := by
      rw [copy_size_eq, BLOCK_SECTOR_SIZE]
      omega
    rw [hidx]

/-- The data are the first sector and the rest. -/
theorem holdsData_step (h : 0 < data.length) : HoldsData dev k data ↔
    dev.sectors k = data_sector data 0 ∧
      HoldsData dev (k + 1) (data.drop (copy_size data.length)) := by
  have hlen : (data.drop (copy_size data.length)).length = data.length - copy_size data.length :=
    List.length_drop
  have hsectors := data_sectors_step h
  constructor
  · intro hholds
    refine ⟨hholds 0 (by omega), fun j hj => ?_⟩
    rw [hlen] at hj
    rw [data_sector_drop, Nat.add_assoc, Nat.add_comm 1 j]
    exact hholds (j + 1) (by omega)
  · rintro ⟨hfirst, hrest⟩ j hj
    cases j with
    | zero =>
        exact hfirst
    | succ j =>
        have hnext := hrest j (by rw [hlen]; omega)
        rwa [data_sector_drop, Nat.add_assoc, Nat.add_comm 1 j] at hnext

theorem HoldsData.congr (h : HoldsData dev k data)
    (hsame : ∀ a, k ≤ a → a < k + data_sectors data.length → dev'.sectors a = dev.sectors a) :
    HoldsData dev' k data :=
  fun j hj => (hsame (k + j) (Nat.le_add_right k j) (Nat.add_lt_add_left hj k)).trans (h j hj)

/-- The first bytes of the data, in the first sector. -/
theorem take_data_sector (data : Bytes) :
    (data_sector data 0).bytes.take (copy_size data.length) =
      data.take (copy_size data.length) := by
  have hle : copy_size data.length ≤ BLOCK_SECTOR_SIZE := by
    rw [copy_size_eq, BLOCK_SECTOR_SIZE]
    exact Nat.min_le_right _ _
  have hdata := window_getD data 0
  have hsector : data_sector data 0 = Sector.ofBytes fun i => data.getD i 0 :=
    Sector.ofBytes_congr fun i _ => by rw [Nat.mul_zero, Nat.zero_add]
  rw [hsector, Sector.ofBytes, take_window hle]
  calc
    window (fun i => data.getD i 0) 0 (copy_size data.length) =
        (window (fun i => data.getD i 0) 0 data.length).take (copy_size data.length) :=
      (take_window (by rw [copy_size_eq]; exact Nat.min_le_left _ _)).symm
    _ = data.take (copy_size data.length) := by rw [hdata]

/-! ## Archives -/

/-- The header and the data of the file begin at `k`. -/
structure HoldsFile (dev : Block) (k : Nat) (x : ArchiveFile) : Prop where
  header : ustar_parse_header (dev.sectors k).byte = .ok x.entry
  data : HoldsData dev (k + 1) x.data

/-- The files lie on the device from `k` on. -/
def Archived (dev : Block) : Nat → List ArchiveFile → Prop
  | _, [] => True
  | k, x :: xs => HoldsFile dev k x ∧ Archived dev (k + x.sectors) xs

/-- The end-of-archive marker. -/
structure EndsAt (dev : Block) (k : Nat) : Prop where
  first : dev.sectors k = archive_end_sector
  second : dev.sectors (k + 1) = archive_end_sector

theorem HoldsFile.congr (h : HoldsFile dev k x)
    (hsame : ∀ a, k ≤ a → a < k + x.sectors → dev'.sectors a = dev.sectors a) :
    HoldsFile dev' k x := by
  refine ⟨?_, h.data.congr fun a ha ha' => hsame a (by omega) ?_⟩
  · rw [hsame k (le_refl k) (by rw [ArchiveFile.sectors]; omega)]
    exact h.header
  · rw [ArchiveFile.sectors]
    omega

/-- A sector of zeros is the end of the archive. -/
theorem parse_archive_end :
    ustar_parse_header archive_end_sector.byte = .ok ⟨none, .USTAR_EOF, 0⟩ := by
  have hzero : is_all_zeros (window archive_end_sector.byte 0 USTAR_HEADER_SIZE) = true :=
    (is_all_zeros_iff _).2 fun i hi => Sector.ofBytes_byte hi
  rw [ustar_parse_header, if_pos hzero]

end Berk162
