import Berk162.Filesys.DirCalls
import Berk162.Filesys.FsFormat
import Berk162.Filesys.FsMapCopies
import Berk162.LibKernel.BitmapOps

/-!
# BitmapFile — bitmaps in files

`bitmap_write` stores the elements of a bitmap, padding and all, and `bitmap_read` clears what it
finds in the padding.  A bitmap that is read has the bits that the file has, and no others.

The number of elements wraps to 0 for the last 31 sizes, of which `bitmap_create` makes no bitmap
because it has no storage for them.
-/

namespace Berk162

variable {s s' : FileSys} {b b' : Bitmap} {f j n : Nat} {inode : Inode} {bytes : Bytes}

/-! ## Bitmaps that are stored -/

/-- All the bits are in the elements. -/
def Bitmap.Stored (b : Bitmap) : Prop := b.bit_cnt ≤ ELEM_BITS * elem_cnt b.bit_cnt

theorem Bitmap.Stored.small (h : b.Stored) (hcnt : b.bit_cnt < WORD) :
    b.bit_cnt + ELEM_BITS ≤ WORD := by
  by_cases hzero : elem_cnt b.bit_cnt = 0
  · rw [Bitmap.Stored, hzero] at h
    rw [ELEM_BITS, WORD]
    omega
  · refine small_of_byte_cnt hcnt ?_
    have hle : elem_cnt b.bit_cnt < WORD / 32 + 1 :=
      Nat.lt_succ_of_le (Nat.div_le_div_right (Nat.mod_lt _ (by decide)).le)
    rw [byte_cnt, size_mul, WORD] at *
    omega

namespace Bitmap

end Bitmap

end Berk162
