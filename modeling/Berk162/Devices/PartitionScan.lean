import Berk162.Devices.Partition
import Berk162.Lib.Fold

/-!
# PartitionScan — when a scan ends, and what it registers

`read_partition_table` reads sector 0 whatever sector it is called for, so every table it visits is
the one of sector 0.  We provide:

* `partition_scan_terminates_iff` — when the recursion ends;
* `partition_scan_in_bounds` — every registered partition lies on the disk, and its device stays
  inside it.

`table_sector` writes a table, for the disks of the examples.
-/

namespace Berk162

variable {block : Block}

/-! ## One pass of the loop -/

/-- The body of the loop of `read_partition_table`. -/
def scan_entry (block : Block) (fuel sector primary_extended_sector : Nat) (st : Scan)
    (e : PartitionTableEntry) : Option Scan :=
  if e.empty then
    some st
  else if e.extended_type then
    if sector = 0 then
      read_partition_table block fuel e.offset e.offset st
    else
      read_partition_table block fuel (size_add e.offset primary_extended_sector)
        primary_extended_sector st
  else
    let part_nr := st.part_nr + 1
    some { part_nr := part_nr,
           registered := found_partition block e.type (size_add e.offset sector)
             e.size part_nr st.registered }

/-- The table that an extended entry leads to, and the primary extended sector passed with it. -/
def subtable (sector primary_extended_sector : Nat) (e : PartitionTableEntry) : Nat × Nat :=
  if sector = 0 then (e.offset, e.offset)
  else (size_add e.offset primary_extended_sector, primary_extended_sector)

theorem PartitionTableEntry.extended_iff {e : PartitionTableEntry} :
    e.extended = true ↔ e.empty = false ∧ e.extended_type = true := by
  simp [extended]

theorem PartitionTableEntry.data_iff {e : PartitionTableEntry} :
    e.data = true ↔ e.empty = false ∧ e.extended_type = false := by
  simp [data]

theorem read_partition_table_zero (sector primary : Nat) (st : Scan) :
    read_partition_table block 0 sector primary st = none := rfl

theorem read_partition_table_past_end {fuel sector primary : Nat} {st : Scan}
    (h : block.size ≤ sector) :
    read_partition_table block (fuel + 1) sector primary st = some st :=
  if_pos h

/-- Whatever `sector` is, the table that is parsed is the one of sector 0. -/
theorem read_partition_table_succ {fuel sector primary : Nat} {st : Scan}
    (h : sector < block.size) :
    read_partition_table block (fuel + 1) sector primary st =
      if signature (block.sectors 0) ≠ 0xaa55 then some st
      else (partitions (block.sectors 0)).foldlM (scan_entry block fuel sector primary) st := by
  have hzero : 0 < block.size := Nat.lt_of_le_of_lt (Nat.zero_le _) h
  rw [read_partition_table, if_neg (Nat.not_le.2 h), block_read_eq hzero]
  rfl

theorem scan_entry_extended {fuel sector primary : Nat} {st : Scan} {e : PartitionTableEntry}
    (h : e.extended = true) :
    scan_entry block fuel sector primary st e =
      read_partition_table block fuel (subtable sector primary e).1
        (subtable sector primary e).2 st := by
  rcases PartitionTableEntry.extended_iff.1 h with ⟨hempty, htype⟩
  by_cases hsector : sector = 0 <;> simp [scan_entry, subtable, hempty, htype, hsector]

theorem scan_entry_empty {fuel sector primary : Nat} {st : Scan} {e : PartitionTableEntry}
    (h : e.empty = true) : scan_entry block fuel sector primary st e = some st :=
  if_pos h

theorem scan_entry_data {fuel sector primary : Nat} {st : Scan} {e : PartitionTableEntry}
    (h : e.data = true) :
    scan_entry block fuel sector primary st e =
      some { part_nr := st.part_nr + 1,
             registered := found_partition block e.type (size_add e.offset sector) e.size
               (st.part_nr + 1) st.registered } := by
  rcases PartitionTableEntry.data_iff.1 h with ⟨hempty, htype⟩
  simp [scan_entry, hempty, htype]

/-- An entry that is not extended does not need fuel. -/
theorem scan_entry_plain {fuel sector primary : Nat} {st : Scan} {e : PartitionTableEntry}
    (h : e.extended = false) : ∃ st', scan_entry block fuel sector primary st e = some st' := by
  cases hempty : e.empty with
  | true =>
      exact ⟨st, scan_entry_empty hempty⟩
  | false =>
      have htype : e.extended_type = false := by
        simpa [PartitionTableEntry.extended, hempty] using h
      exact ⟨_, scan_entry_data (PartitionTableEntry.data_iff.2 ⟨hempty, htype⟩)⟩

/-! ## Disks to scan -/

/-- The 16 bytes of an entry. -/
def entry_bytes (e : PartitionTableEntry) : Bytes :=
  [0, 0, 0, 0, UInt8.ofNat e.type, 0, 0, 0] ++ le_bytes 4 e.offset ++ le_bytes 4 e.size

/-- A partition table without a loader. -/
def table_sector (e₀ e₁ e₂ e₃ : PartitionTableEntry) : Sector where
  bytes := List.replicate 446 0 ++
    (entry_bytes e₀ ++ (entry_bytes e₁ ++ (entry_bytes e₂ ++ (entry_bytes e₃ ++ [0x55, 0xaa]))))
  length_bytes := by
    simp only [entry_bytes, List.length_append, List.length_replicate, length_le_bytes,
      List.length_cons, List.length_nil]
    rfl

def zero_sector : Sector where
  bytes := List.replicate BLOCK_SECTOR_SIZE 0
  length_bytes := List.length_replicate

/-- The loader is skipped. -/
theorem drop_table_sector (e₀ e₁ e₂ e₃ : PartitionTableEntry) (n : Nat) :
    (table_sector e₀ e₁ e₂ e₃).bytes.drop (446 + n) =
      (entry_bytes e₀ ++ (entry_bytes e₁ ++ (entry_bytes e₂ ++
        (entry_bytes e₃ ++ [0x55, 0xaa])))).drop n := by
  rw [table_sector, ← List.drop_drop, List.drop_left' List.length_replicate]

theorem signature_table_sector (e₀ e₁ e₂ e₃ : PartitionTableEntry) :
    signature (table_sector e₀ e₁ e₂ e₃) = 0xaa55 := by
  rw [signature, drop_table_sector e₀ e₁ e₂ e₃ 64]
  rfl

/-- A disk of 100 sectors that holds the given sectors and is otherwise zero. -/
def small_disk (sectors : List (Nat × Sector)) : Block where
  name := ['h', 'd', 'a']
  type := .raw
  size := 100
  size_lt := by decide
  sectors n := (sectors.lookup n).getD zero_sector

/-! ## Termination -/

/-- A set of calls none of which returns: each reads a table of the disk and meets an extended
entry that leads to another call of the set. -/
theorem read_partition_table_diverges {S : Nat → Nat → Prop}
    (hsig : signature (block.sectors 0) = 0xaa55)
    (hS : ∀ sector primary, S sector primary → sector < block.size ∧
      ∃ e ∈ partitions (block.sectors 0), e.extended = true ∧
        S (subtable sector primary e).1 (subtable sector primary e).2)
    (fuel : Nat) {sector primary : Nat} (h : S sector primary) (st : Scan) :
    read_partition_table block fuel sector primary st = none := by
  induction fuel generalizing sector primary st with
  | zero =>
      exact read_partition_table_zero sector primary st
  | succ fuel ih =>
      rcases hS sector primary h with ⟨hlt, e, he, hext, hnext⟩
      rw [read_partition_table_succ hlt, if_neg (not_not.2 hsig)]
      refine foldlM_eq_none he (fun st' => ?_) st
      rw [scan_entry_extended hext]
      exact ih hnext st'

/-- The recursion leaves the disk after at most two steps: the table of sector 0 is not a table, or
each of its extended entries points past the end of the disk, or, added to any extended entry,
does. -/
def Block.Shallow (block : Block) : Prop :=
  block.size = 0 ∨ signature (block.sectors 0) ≠ 0xaa55 ∨
    ∀ e ∈ partitions (block.sectors 0), e.extended = true →
      block.size ≤ e.offset ∨
        (e.offset ≠ 0 ∧ ∀ f ∈ partitions (block.sectors 0), f.extended = true →
          block.size ≤ size_add f.offset e.offset)

theorem Block.Shallow.terminates (h : block.Shallow) (st : Scan) :
    ∃ st', read_partition_table block 3 0 0 st = some st' := by
  by_cases hsize : block.size ≤ 0
  · exact ⟨st, read_partition_table_past_end hsize⟩
  rw [read_partition_table_succ (Nat.not_le.1 hsize)]
  by_cases hsig : signature (block.sectors 0) ≠ 0xaa55
  · exact ⟨st, if_pos hsig⟩
  rw [if_neg hsig]
  rcases h with h | h | h
  · exact absurd h.le hsize
  · exact absurd h hsig
  refine foldlM_exists (fun e he st => ?_) st
  cases hext : e.extended with
  | false =>
      exact scan_entry_plain hext
  | true =>
      rw [scan_entry_extended hext]
      by_cases hend : block.size ≤ e.offset
      · exact ⟨st, read_partition_table_past_end hend⟩
      -- the table of sector 0 again, now under a number that is not 0
      rcases (h e he hext).resolve_left hend with ⟨hne, hpast⟩
      rw [subtable, if_pos rfl, read_partition_table_succ (Nat.not_le.1 hend), if_neg hsig]
      refine foldlM_exists (fun f hf st => ?_) st
      cases hextf : f.extended with
      | false =>
          exact scan_entry_plain hextf
      | true =>
          rw [scan_entry_extended hextf, subtable, if_neg hne]
          exact ⟨st, read_partition_table_past_end (hpast f hf hextf)⟩

/-- An extended entry of sector 0 that starts the endless recursion. -/
theorem read_partition_table_loops {e : PartitionTableEntry}
    (hsig : signature (block.sectors 0) = 0xaa55)
    (he : e ∈ partitions (block.sectors 0)) (hext : e.extended = true)
    (hlt : e.offset < block.size)
    (hback : e.offset = 0 ∨ ∃ f ∈ partitions (block.sectors 0), f.extended = true ∧
      size_add f.offset e.offset < block.size)
    (fuel : Nat) (st : Scan) : read_partition_table block fuel 0 0 st = none := by
  have hzero : 0 < block.size := Nat.lt_of_le_of_lt (Nat.zero_le _) hlt
  -- the calls the entry leads to: sector 0, the entry's own sector, and those with its base
  let S : Nat → Nat → Prop := fun sector primary =>
    sector < block.size ∧ (sector = 0 ∨ primary = e.offset)
  refine read_partition_table_diverges (S := S) hsig (fun sector primary hS => ?_) fuel
    ⟨hzero, Or.inl rfl⟩ st
  rcases hS with ⟨hsector, hS⟩
  refine ⟨hsector, ?_⟩
  by_cases hs : sector = 0
  · refine ⟨e, he, hext, ?_⟩
    rw [subtable, if_pos hs]
    exact ⟨hlt, Or.inr rfl⟩
  · have hprimary : primary = e.offset := hS.resolve_left hs
    rcases hback with h0 | ⟨f, hf, hextf, hltf⟩
    · refine ⟨e, he, hext, ?_⟩
      have hsame : size_add e.offset primary = 0 := by
        rw [hprimary, h0]
        rfl
      rw [subtable, if_neg hs, hsame]
      exact ⟨hzero, Or.inl rfl⟩
    · refine ⟨f, hf, hextf, ?_⟩
      rw [subtable, if_neg hs, hprimary]
      exact ⟨hltf, Or.inr rfl⟩

/-- A scan ends exactly on the disks whose tables are shallow. -/
theorem partition_scan_terminates_iff (block : Block) :
    (∃ fuel st, partition_scan block fuel = some st) ↔ block.Shallow := by
  constructor
  · rintro ⟨fuel, st, hscan⟩
    by_contra hdeep
    rw [Block.Shallow, not_or, not_or] at hdeep
    rcases hdeep with ⟨hsize, hsig, hdeep⟩
    rw [not_not] at hsig
    push Not at hdeep
    rcases hdeep with ⟨e, he, hext, hlt, hback⟩
    have hnone : partition_scan block fuel = none := by
      refine read_partition_table_loops hsig he hext hlt ?_ fuel _
      by_cases h0 : e.offset = 0
      · exact Or.inl h0
      · exact Or.inr (hback h0)
    rw [hnone] at hscan
    cases hscan
  · intro h
    rcases h.terminates { part_nr := 0, registered := [] } with ⟨st, hst⟩
    exact ⟨3, st, hst⟩

/-- The extended partition of a small disk starts at sector 1: the scan does not end. -/
theorem partition_scan_endless :
    ¬ ∃ fuel st, partition_scan
      (small_disk [(0, table_sector ⟨0x05, 1, 50⟩ ⟨0, 0, 0⟩ ⟨0, 0, 0⟩ ⟨0, 0, 0⟩)]) fuel = some st := by
  rintro ⟨fuel, st, hscan⟩
  have hnone := @read_partition_table_loops
    (small_disk [(0, table_sector ⟨0x05, 1, 50⟩ ⟨0, 0, 0⟩ ⟨0, 0, 0⟩ ⟨0, 0, 0⟩)])
    ⟨0x05, 1, 50⟩ (by decide +kernel) (by decide +kernel) (by decide) (by decide)
    (Or.inr ⟨⟨0x05, 1, 50⟩, by decide +kernel, by decide, by decide⟩) fuel
    { part_nr := 0, registered := [] }
  rw [partition_scan, hnone] at hscan
  cases hscan

/-! ## Bounds -/

/-- The partition lies on the disk, in exact arithmetic. -/
def Partition.OnDisk (block : Block) (p : Partition) : Prop := p.start + p.size ≤ block.size

theorem partition_table_entry_size_lt (bs : Bytes) : (partition_table_entry bs).size < WORD := by
  refine lt_of_lt_of_le (le_val_lt _) ?_
  rw [WORD, show 2 ^ 32 = 256 ^ 4 from rfl]
  exact Nat.pow_le_pow_right (by decide) (by simp)

theorem partitions_size_lt {pt : Sector} {e : PartitionTableEntry} (h : e ∈ partitions pt) :
    e.size < WORD := by
  rcases List.mem_map.1 h with ⟨i, _, rfl⟩
  exact partition_table_entry_size_lt _

/-- The two comparisons of `found_partition` leave no room for a 32-bit wrap. -/
theorem found_partition_onDisk {part_type start size part_nr : Nat} {registered : List Partition}
    {p : Partition} (hsize : size < WORD)
    (h : p ∈ found_partition block part_type start size part_nr registered) :
    p ∈ registered ∨ p.OnDisk block := by
  have hblock := block.size_lt
  rw [found_partition] at h
  split_ifs at h with hstart hend
  · exact Or.inl h
  · exact Or.inl h
  · rcases List.mem_append.1 h with h | h
    · exact Or.inl h
    · rw [List.mem_singleton.1 h]
      right
      rw [not_or] at hend
      change start + size ≤ block.size
      rw [size_add] at hend
      -- the sum wraps at most once, and then it falls below `start`
      by_cases hwrap : start + size < WORD
      · rw [Nat.mod_eq_of_lt hwrap] at hend
        omega
      · rw [Nat.mod_eq_sub_mod (by omega), Nat.mod_eq_of_lt (by omega)] at hend
        omega

theorem read_partition_table_onDisk {fuel sector primary : Nat} {st st' : Scan}
    (h : read_partition_table block fuel sector primary st = some st')
    (hst : ∀ p ∈ st.registered, p.OnDisk block) : ∀ p ∈ st'.registered, p.OnDisk block := by
  induction fuel generalizing sector primary st st' with
  | zero =>
      cases h
  | succ fuel ih =>
      by_cases hsector : block.size ≤ sector
      · rw [read_partition_table_past_end hsector] at h
        cases h
        exact hst
      rw [read_partition_table_succ (Nat.not_le.1 hsector)] at h
      by_cases hsig : signature (block.sectors 0) ≠ 0xaa55
      · rw [if_pos hsig] at h
        cases h
        exact hst
      rw [if_neg hsig] at h
      refine foldlM_invariant (I := fun st => ∀ p ∈ st.registered, p.OnDisk block)
        (fun b e c he hb hc => ?_) h hst
      cases hext : e.extended with
      | true =>
          rw [scan_entry_extended hext] at hc
          exact ih hc hb
      | false =>
          cases hempty : e.empty with
          | true =>
              rw [scan_entry_empty hempty] at hc
              cases hc
              exact hb
          | false =>
              have htype : e.extended_type = false := by
                simpa [PartitionTableEntry.extended, hempty] using hext
              rw [scan_entry_data (PartitionTableEntry.data_iff.2 ⟨hempty, htype⟩)] at hc
              cases hc
              intro p hp
              rcases found_partition_onDisk (partitions_size_lt he) hp with hp | hp
              · exact hb p hp
              · exact hp

/-- Every partition that a scan registers lies on the disk; what its device accepts it reads from
and writes to its own sectors of the disk, as the disk is at that time. -/
theorem partition_scan_in_bounds {fuel : Nat} {st : Scan} (h : partition_scan block fuel = some st)
    {p : Partition} (hp : p ∈ st.registered) :
    p.start + p.size ≤ block.size ∧
      ∀ (disk : Block) (sector : Nat), disk.size = block.size →
        check_sector p.size sector = some () →
          p.start + sector < disk.size ∧ p.start + sector < p.start + p.size ∧
            partition_read disk p sector = some (disk.sectors (p.start + sector)) ∧
            ∀ buffer, partition_write disk p sector buffer =
              if disk.type = .foreign then none else some (disk.store (p.start + sector) buffer) := by
  have hon : p.start + p.size ≤ block.size :=
    read_partition_table_onDisk h (fun p hp => absurd hp List.not_mem_nil) p hp
  refine ⟨hon, fun disk sector hsize hcheck => ?_⟩
  have hsector : sector < p.size := check_sector_eq_some.1 hcheck
  have hlt : p.start + sector < disk.size := by omega
  have hexact : size_add p.start sector = p.start + sector := by
    exact size_add_eq (lt_trans hlt disk.size_lt)
  refine ⟨hlt, by omega, ?_, fun buffer => ?_⟩
  · rw [partition_read, hexact, block_read_eq hlt]
  · rw [partition_write, hexact]
    by_cases htype : disk.type = .foreign
    · rw [if_pos htype, block_write, check_sector_eq_some.2 hlt, ASSERT_neg (not_not.2 htype)]
      rfl
    · rw [if_neg htype, block_write_eq buffer hlt htype]

theorem partition_scan_in_bounds_small :
    partition_read (small_disk [(0, table_sector ⟨0x21, 10, 20⟩ ⟨0, 0, 0⟩ ⟨0, 0, 0⟩ ⟨0, 0, 0⟩)])
        ⟨['h', 'd', 'a', '1'], 1, .filesys, 10, 20⟩ 19 = some zero_sector := by
  have hscan : partition_scan
      (small_disk [(0, table_sector ⟨0x21, 10, 20⟩ ⟨0, 0, 0⟩ ⟨0, 0, 0⟩ ⟨0, 0, 0⟩)]) 1 =
        some ⟨1, [⟨['h', 'd', 'a', '1'], 1, .filesys, 10, 20⟩]⟩ := by
    decide +kernel
  have hread := (partition_scan_in_bounds hscan List.mem_cons_self).2
    (small_disk [(0, table_sector ⟨0x21, 10, 20⟩ ⟨0, 0, 0⟩ ⟨0, 0, 0⟩ ⟨0, 0, 0⟩)]) 19 rfl (by decide)
  exact hread.2.2.1

end Berk162
