import Berk162.Devices.PartitionScan

/-!
# PartitionChain — what a scan should register

A disk with a master boot record and a chain of extended boot records describes a list of
partitions: `Describes` reads it off the tables.  `partition_scan_correct_iff` says on which disks
`partition_scan` registers that list.

The entry of a logical partition counts from the sector of its own table; a link counts from the
first extended partition.  Both are exact here: on a well-formed disk nothing wraps.
-/

namespace Berk162

/-- A partition as the tables describe it. -/
structure Volume where
  type : BlockType
  start : Nat
  size : Nat
  deriving DecidableEq, Repr

variable {block : Block}

/-! ## The partitions that the tables describe -/

/-- The table an extended entry points to, when the entry is in the table of `sector`. -/
def link_sector (sector primary : Nat) (e : PartitionTableEntry) : Nat :=
  if sector = 0 then e.offset else primary + e.offset

/-- The first extended partition, for the tables behind the entry. -/
def link_primary (sector primary : Nat) (e : PartitionTableEntry) : Nat :=
  if sector = 0 then e.offset else primary

/-- `Describes block sector primary es vs`: the entries `es` of the table in `sector` describe the
partitions `vs`, in this order.  A table has at most one extended entry, and it points to another
table; a derivation is finite, so the chain of tables is acyclic. -/
inductive Describes (block : Block) :
    Nat → Nat → List PartitionTableEntry → List Volume → Prop
  | nil {sector primary : Nat} : Describes block sector primary [] []
  | empty {sector primary : Nat} {e : PartitionTableEntry} {es : List PartitionTableEntry}
      {vs : List Volume} :
      e.empty = true → Describes block sector primary es vs →
      Describes block sector primary (e :: es) vs
  | data {sector primary : Nat} {e : PartitionTableEntry} {es : List PartitionTableEntry}
      {vs : List Volume} :
      e.data = true → e.offset + sector + e.size ≤ block.size →
      Describes block sector primary es vs →
      Describes block sector primary (e :: es)
        (⟨partition_block_type e.type, e.offset + sector, e.size⟩ :: vs)
  | link {sector primary : Nat} {e : PartitionTableEntry} {es : List PartitionTableEntry}
      {vs ws : List Volume} :
      e.extended = true → (∀ f ∈ es, f.extended = false) →
      link_sector sector primary e < block.size →
      signature (block.sectors (link_sector sector primary e)) = 0xaa55 →
      Describes block (link_sector sector primary e) (link_primary sector primary e)
        (partitions (block.sectors (link_sector sector primary e))) ws →
      Describes block sector primary es vs →
      Describes block sector primary (e :: es) (ws ++ vs)

/-- A disk with a master boot record whose tables describe the partitions `vs`. -/
structure WellFormed (block : Block) (vs : List Volume) : Prop where
  size_pos : 0 < block.size
  signed : signature (block.sectors 0) = 0xaa55
  describes : Describes block 0 0 (partitions (block.sectors 0)) vs

/-- The device of the `part_nr`-th partition. -/
def Volume.device (block : Block) (v : Volume) (part_nr : Nat) : Partition where
  name := partition_name block.name part_nr
  part_nr := part_nr
  type := v.type
  start := v.start
  size := v.size

/-- The devices of the partitions `vs`, numbered in order after `n`. -/
def numbered (block : Block) : Nat → List Volume → List Partition
  | _, [] => []
  | n, v :: vs => v.device block (n + 1) :: numbered block (n + 1) vs

/-- The scan ends, and has registered the partitions `vs`, numbered in order. -/
def Registers (block : Block) (vs : List Volume) : Prop :=
  ∃ fuel st, partition_scan block fuel = some st ∧ st.registered = numbered block 0 vs

/-! ## The partitions that the code finds -/

/-- What the code takes the entries of a table in `sector` for. -/
def volumes (sector : Nat) (es : List PartitionTableEntry) : List Volume :=
  (es.filter PartitionTableEntry.data).map fun e =>
    ⟨partition_block_type e.type, size_add e.offset sector, e.size⟩

/-- The checks of `found_partition`. -/
def Volume.kept (block : Block) (v : Volume) : Bool :=
  !(decide (v.start ≥ block.size)) &&
    !(decide (size_add v.start v.size < v.start ∨ size_add v.start v.size > block.size))

/-- `numbered`, less the partitions that `found_partition` rejects; they take a number, too. -/
def found (block : Block) : Nat → List Volume → List Partition
  | _, [] => []
  | n, v :: vs =>
      if v.kept block then v.device block (n + 1) :: found block (n + 1) vs
      else found block (n + 1) vs

theorem volumes_cons_data {sector : Nat} {e : PartitionTableEntry} {es : List PartitionTableEntry}
    (h : e.data = true) :
    volumes sector (e :: es) =
      ⟨partition_block_type e.type, size_add e.offset sector, e.size⟩ :: volumes sector es := by
  simp [volumes, h]

theorem volumes_cons_not_data {sector : Nat} {e : PartitionTableEntry}
    {es : List PartitionTableEntry} (h : e.data = false) :
    volumes sector (e :: es) = volumes sector es := by
  simp [volumes, h]

theorem numbered_append (n : Nat) (vs ws : List Volume) :
    numbered block n (vs ++ ws) = numbered block n vs ++ numbered block (n + vs.length) ws := by
  induction vs generalizing n with
  | nil =>
      rfl
  | cons v vs ih =>
      have hlen : n + 1 + vs.length = n + (v :: vs).length := by
        rw [List.length_cons]
        omega
      rw [List.cons_append, numbered, ih, numbered, hlen, List.cons_append]

theorem length_numbered (n : Nat) (vs : List Volume) :
    (numbered block n vs).length = vs.length := by
  induction vs generalizing n with
  | nil =>
      rfl
  | cons v vs ih =>
      simp [numbered, ih]

theorem found_eq_numbered {vs : List Volume} (h : ∀ v ∈ vs, v.kept block = true) (n : Nat) :
    found block n vs = numbered block n vs := by
  induction vs generalizing n with
  | nil =>
      rfl
  | cons v vs ih =>
      rcases List.forall_mem_cons.1 h with ⟨hv, hvs⟩
      rw [found, if_pos hv, ih hvs, numbered]

theorem found_eq_nil {vs : List Volume} (h : ∀ v ∈ vs, v.kept block = false) (n : Nat) :
    found block n vs = [] := by
  induction vs generalizing n with
  | nil =>
      rfl
  | cons v vs ih =>
      rcases List.forall_mem_cons.1 h with ⟨hv, hvs⟩
      rw [found, if_neg (by simp [hv]), ih hvs]

/-- The numbers of the devices found go on from `n`. -/
theorem lt_part_nr_of_mem_found {n : Nat} {vs : List Volume} {p : Partition}
    (h : p ∈ found block n vs) : n < p.part_nr := by
  induction vs generalizing n with
  | nil =>
      cases h
  | cons v vs ih =>
      rw [found] at h
      split_ifs at h with hv
      · rcases List.mem_cons.1 h with rfl | h
        · exact Nat.lt_succ_self n
        · exact Nat.lt_of_succ_lt (ih h)
      · exact Nat.lt_of_succ_lt (ih h)

theorem Volume.device_inj {v w : Volume} {n : Nat} (h : v.device block n = w.device block n) :
    v = w := by
  cases v
  cases w
  simpa [device] using h

/-- What is found is `ws`, numbered, exactly when `ws` comes first and all that follows it is
rejected. -/
theorem found_eq_numbered_iff {vs ws : List Volume} (hws : ∀ v ∈ ws, v.kept block = true)
    (n : Nat) :
    found block n vs = numbered block n ws ↔
      ∃ rest, vs = ws ++ rest ∧ ∀ v ∈ rest, v.kept block = false := by
  constructor
  · intro h
    induction ws generalizing vs n with
    | nil =>
        refine ⟨vs, rfl, ?_⟩
        rw [numbered] at h
        induction vs generalizing n with
        | nil =>
            simp
        | cons v vs ih =>
            rw [found] at h
            split_ifs at h with hv
            refine List.forall_mem_cons.2 ⟨by simpa using hv, ih (n + 1) h⟩
    | cons w ws ih =>
        rcases List.forall_mem_cons.1 hws with ⟨_, hws'⟩
        cases vs with
        | nil =>
            cases h
        | cons v vs =>
            rw [found, numbered] at h
            split_ifs at h with hv
            · rcases List.cons_eq_cons.1 h with ⟨hvw, htail⟩
              rcases ih hws' (n + 1) htail with ⟨rest, hrest, hrej⟩
              refine ⟨rest, ?_, hrej⟩
              rw [Volume.device_inj hvw, hrest, List.cons_append]
            · -- the number `n + 1` went to a rejected partition
              have hmem : w.device block (n + 1) ∈ found block (n + 1) vs := by
                rw [h]
                exact List.mem_cons_self
              exact absurd (lt_part_nr_of_mem_found hmem) (lt_irrefl (n + 1))
  · rintro ⟨rest, rfl, hrej⟩
    induction ws generalizing n with
    | nil =>
        exact found_eq_nil hrej n
    | cons w ws ih =>
        rcases List.forall_mem_cons.1 hws with ⟨hw, hws'⟩
        rw [List.cons_append, found, if_pos hw, ih hws', numbered]

/-! ## The scan of a disk with one chain -/

theorem found_partition_eq (part_type start size part_nr : Nat) (registered : List Partition) :
    found_partition block part_type start size part_nr registered =
      registered ++
        if (⟨partition_block_type part_type, start, size⟩ : Volume).kept block then
          [(⟨partition_block_type part_type, start, size⟩ : Volume).device block part_nr]
        else [] := by
  rw [found_partition, Volume.kept]
  by_cases hstart : start ≥ block.size
  · simp [hstart]
  · by_cases hend : size_add start size < start ∨ size_add start size > block.size
    · simp [hstart, hend]
    · simp [hstart, hend, partition_of, Volume.device]

/-- The scan of entries none of which is extended. -/
theorem scan_plain {es : List PartitionTableEntry} (h : ∀ e ∈ es, e.extended = false)
    (fuel sector primary : Nat) (st : Scan) :
    es.foldlM (scan_entry block fuel sector primary) st =
      some { part_nr := st.part_nr + (volumes sector es).length,
             registered := st.registered ++ found block st.part_nr (volumes sector es) } := by
  induction es generalizing st with
  | nil =>
      simp [volumes, found]
  | cons e es ih =>
      rcases List.forall_mem_cons.1 h with ⟨he, hes⟩
      rw [List.foldlM_cons]
      cases hempty : e.empty with
      | true =>
          have hdata : e.data = false := by simp [PartitionTableEntry.data, hempty]
          rw [scan_entry_empty hempty, volumes_cons_not_data hdata]
          exact ih hes st
      | false =>
          have htype : e.extended_type = false := by
            simpa [PartitionTableEntry.extended, hempty] using he
          have hdata : e.data = true := PartitionTableEntry.data_iff.2 ⟨hempty, htype⟩
          rw [scan_entry_data hdata, volumes_cons_data hdata, found_partition_eq]
          refine (ih hes _).trans ?_
          rw [List.length_cons, found]
          split_ifs
          · simp [Nat.add_comm, Nat.add_left_comm]
          · simp [Nat.add_comm, Nat.add_left_comm]

theorem read_partition_table_mono {fuel sector primary : Nat} {st st' : Scan}
    (h : read_partition_table block fuel sector primary st = some st') :
    read_partition_table block (fuel + 1) sector primary st = some st' := by
  induction fuel generalizing sector primary st st' with
  | zero =>
      cases h
  | succ fuel ih =>
      by_cases hsector : block.size ≤ sector
      · rw [read_partition_table_past_end hsector] at h ⊢
        exact h
      rw [read_partition_table_succ (Nat.not_le.1 hsector)] at h ⊢
      by_cases hsig : signature (block.sectors 0) ≠ 0xaa55
      · rw [if_pos hsig] at h ⊢
        exact h
      rw [if_neg hsig] at h ⊢
      refine foldlM_mono (fun b e c hc => ?_) h
      cases hext : e.extended with
      | true =>
          rw [scan_entry_extended hext] at hc ⊢
          exact ih hc
      | false =>
          cases hempty : e.empty with
          | true =>
              rw [scan_entry_empty hempty] at hc ⊢
              exact hc
          | false =>
              have htype : e.extended_type = false := by
                simpa [PartitionTableEntry.extended, hempty] using hext
              have hdata : e.data = true := PartitionTableEntry.data_iff.2 ⟨hempty, htype⟩
              rw [scan_entry_data hdata] at hc ⊢
              exact hc

/-- The result of a scan does not depend on the fuel. -/
theorem partition_scan_unique {fuel fuel' : Nat} {st st' : Scan}
    (h : partition_scan block fuel = some st) (h' : partition_scan block fuel' = some st') :
    st = st' := by
  have hmono : ∀ n k st, partition_scan block n = some st →
      partition_scan block (n + k) = some st := by
    intro n k st hst
    induction k with
    | zero =>
        exact hst
    | succ k ih =>
        exact read_partition_table_mono ih
  have h1 := hmono fuel fuel' st h
  have h2 := hmono fuel' fuel st' h'
  rw [Nat.add_comm, h1] at h2
  exact Option.some.inj h2

/-- The scan of a disk whose only extended entry leads nowhere from its own sector: the master boot
record is read a second time for the extended partition, and its partitions are displaced by the
start of the extended partition. -/
theorem partition_scan_displaced {pre post : List PartitionTableEntry} {x : PartitionTableEntry}
    (hsig : signature (block.sectors 0) = 0xaa55)
    (hes : partitions (block.sectors 0) = pre ++ x :: post)
    (hpre : ∀ e ∈ pre, e.extended = false) (hpost : ∀ e ∈ post, e.extended = false)
    (hx : x.extended = true) (hne : x.offset ≠ 0) (hlt : x.offset < block.size)
    (hpast : block.size ≤ size_add x.offset x.offset) :
    partition_scan block 3 = some
      { part_nr := (volumes 0 pre).length + (volumes x.offset (pre ++ post)).length +
          (volumes 0 post).length,
        registered := found block 0 (volumes 0 pre) ++
          (found block (volumes 0 pre).length (volumes x.offset (pre ++ post)) ++
            found block ((volumes 0 pre).length + (volumes x.offset (pre ++ post)).length)
              (volumes 0 post)) } := by
  have hzero : 0 < block.size := Nat.lt_of_le_of_lt (Nat.zero_le _) hlt
  -- the second reading, from the sector of the extended partition
  have hinner : ∀ st, read_partition_table block 2 x.offset x.offset st = some
      { part_nr := st.part_nr + (volumes x.offset (pre ++ post)).length,
        registered := st.registered ++
          found block st.part_nr (volumes x.offset (pre ++ post)) } := by
    intro st
    have hskip : ∀ st', scan_entry block 1 x.offset x.offset st' x = some st' := by
      intro st'
      rw [scan_entry_extended hx, subtable, if_neg hne, read_partition_table_past_end hpast]
    rw [read_partition_table_succ hlt, if_neg (not_not.2 hsig), hes, List.foldlM_append,
      scan_plain hpre, Option.bind_eq_bind, Option.bind_some, List.foldlM_cons, hskip,
      Option.bind_eq_bind, Option.bind_some, ← Option.bind_some (f := fun st' =>
        post.foldlM (scan_entry block 1 x.offset x.offset) st'), ← scan_plain hpre 1 _ x.offset,
      ← Option.bind_eq_bind, ← List.foldlM_append, scan_plain]
    intro e he
    rcases List.mem_append.1 he with he | he
    · exact hpre e he
    · exact hpost e he
  rw [partition_scan, read_partition_table_succ hzero, if_neg (not_not.2 hsig), hes,
    List.foldlM_append, scan_plain hpre, Option.bind_eq_bind, Option.bind_some, List.foldlM_cons,
    scan_entry_extended hx, subtable, if_pos rfl, hinner, Option.bind_eq_bind, Option.bind_some,
    scan_plain hpost]
  simp only [Nat.zero_add, List.nil_append, List.append_assoc]

/-! ## Well-formed disks -/

theorem PartitionTableEntry.extended_of_data {e : PartitionTableEntry} (h : e.data = true) :
    e.extended = false := by
  rcases data_iff.1 h with ⟨_, htype⟩
  simp [extended, htype]

theorem PartitionTableEntry.extended_of_empty {e : PartitionTableEntry} (h : e.empty = true) :
    e.extended = false := by
  simp [extended, h]

theorem PartitionTableEntry.data_of_empty {e : PartitionTableEntry} (h : e.empty = true) :
    e.data = false := by
  simp [data, h]

theorem PartitionTableEntry.size_ne_zero {e : PartitionTableEntry} (h : e.empty = false) :
    e.size ≠ 0 := by
  intro hsize
  simp [empty, hsize] at h

/-- A partition that ends on the disk passes the checks of `found_partition`. -/
theorem Volume.kept_of_le {v : Volume} (hsize : v.size ≠ 0) (h : v.start + v.size ≤ block.size) :
    v.kept block = true := by
  have hexact : size_add v.start v.size = v.start + v.size :=
    size_add_eq (lt_of_le_of_lt h block.size_lt)
  simp only [kept, hexact, ge_iff_le, gt_iff_lt, Bool.and_eq_true, Bool.not_eq_true',
    decide_eq_false_iff_not]
  omega

/-- Every partition described is one that `found_partition` accepts. -/
theorem Describes.kept {sector primary : Nat} {es : List PartitionTableEntry} {vs : List Volume}
    (h : Describes block sector primary es vs) : ∀ v ∈ vs, v.kept block = true := by
  induction h with
  | nil =>
      simp
  | empty _ _ ih =>
      exact ih
  | @data sector primary e es vs hdata hle _ ih =>
      refine List.forall_mem_cons.2 ⟨?_, ih⟩
      exact Volume.kept_of_le
        (PartitionTableEntry.size_ne_zero (PartitionTableEntry.data_iff.1 hdata).1) hle
  | link _ _ _ _ _ _ ihchain ih =>
      intro v hv
      rcases List.mem_append.1 hv with hv | hv
      · exact ihchain v hv
      · exact ih v hv

/-- Tables without an extended entry describe what the code takes them for. -/
theorem Describes.eq_volumes {sector primary : Nat} {es : List PartitionTableEntry}
    {vs : List Volume} (h : Describes block sector primary es vs)
    (hes : ∀ e ∈ es, e.extended = false) : vs = volumes sector es := by
  induction h with
  | nil =>
      rfl
  | empty hempty _ ih =>
      rw [volumes_cons_not_data (PartitionTableEntry.data_of_empty hempty)]
      exact ih (List.forall_mem_cons.1 hes).2
  | data hdata hle _ ih =>
      have hexact := size_add_eq (lt_of_le_of_lt (le_trans (Nat.le_add_right _ _) hle) block.size_lt)
      rw [volumes_cons_data hdata, hexact, ← ih (List.forall_mem_cons.1 hes).2]
  | link hext _ _ _ _ _ _ _ =>
      rw [(List.forall_mem_cons.1 hes).1] at hext
      cases hext

/-- A table with an extended entry describes its own partitions around those of the chain. -/
theorem Describes.split {sector primary : Nat} {pre post : List PartitionTableEntry}
    {x : PartitionTableEntry} {vs : List Volume}
    (h : Describes block sector primary (pre ++ x :: post) vs)
    (hpre : ∀ e ∈ pre, e.extended = false) (hx : x.extended = true) :
    ∃ ws, vs = volumes sector pre ++ (ws ++ volumes sector post) ∧
      (∀ e ∈ post, e.extended = false) ∧ link_sector sector primary x < block.size ∧
      Describes block (link_sector sector primary x) (link_primary sector primary x)
        (partitions (block.sectors (link_sector sector primary x))) ws := by
  induction pre generalizing vs with
  | nil =>
      cases h with
      | empty hempty _ =>
          rw [PartitionTableEntry.extended_of_empty hempty] at hx
          cases hx
      | data hdata _ _ =>
          rw [PartitionTableEntry.extended_of_data hdata] at hx
          cases hx
      | link _ hpost hlt _ hchain hrest =>
          exact ⟨_, by rw [hrest.eq_volumes hpost]; rfl, hpost, hlt, hchain⟩
  | cons e pre ih =>
      rcases List.forall_mem_cons.1 hpre with ⟨he, hpre'⟩
      cases h with
      | empty hempty hrest =>
          rw [volumes_cons_not_data (PartitionTableEntry.data_of_empty hempty)]
          exact ih hrest hpre'
      | data hdata hle hrest =>
          have hexact :=
            size_add_eq (lt_of_le_of_lt (le_trans (Nat.le_add_right _ _) hle) block.size_lt)
          rcases ih hrest hpre' with ⟨ws, hvs, hrest'⟩
          exact ⟨ws, by rw [volumes_cons_data hdata, hexact, hvs]; rfl, hrest'⟩
      | link hext _ _ _ _ _ =>
          rw [he] at hext
          cases hext

/-- The tables describe one list of partitions only. -/
theorem Describes.unique {sector primary : Nat} {es : List PartitionTableEntry}
    {vs vs' : List Volume} (h : Describes block sector primary es vs)
    (h' : Describes block sector primary es vs') : vs = vs' := by
  induction h generalizing vs' with
  | nil =>
      cases h'
      rfl
  | empty hempty _ ih =>
      cases h' with
      | empty _ hrest =>
          exact ih hrest
      | data hdata _ _ =>
          rw [PartitionTableEntry.data_of_empty hempty] at hdata
          cases hdata
      | link hext _ _ _ _ _ =>
          rw [PartitionTableEntry.extended_of_empty hempty] at hext
          cases hext
  | data hdata _ _ ih =>
      cases h' with
      | empty hempty _ =>
          rw [PartitionTableEntry.data_of_empty hempty] at hdata
          cases hdata
      | data _ _ hrest =>
          rw [ih hrest]
      | link hext _ _ _ _ _ =>
          rw [PartitionTableEntry.extended_of_data hdata] at hext
          cases hext
  | link hext _ _ _ _ _ ihchain ih =>
      cases h' with
      | empty hempty _ =>
          rw [PartitionTableEntry.extended_of_empty hempty] at hext
          cases hext
      | data hdata _ _ =>
          rw [PartitionTableEntry.extended_of_data hdata] at hext
          cases hext
      | link _ _ _ _ hchain hrest =>
          rw [ihchain hchain, ih hrest]

/-- The tables of the disk look the same to a reader that takes the master boot record for the
first extended boot record: there is no extended partition, or it lies in the upper half of the
disk, so that its own start, added to itself, is past the end, and the partitions of the master
boot record, displaced by that start, are those of the chain.  Partitions that this displacement
moves off the disk may follow them, unless they take the number of a primary partition that is yet
to come. -/
def Block.Coincides (block : Block) : Prop :=
  (∀ e ∈ partitions (block.sectors 0), e.extended = false) ∨
    ∃ pre x post chain rest,
      partitions (block.sectors 0) = pre ++ x :: post ∧
      (∀ e ∈ pre, e.extended = false) ∧ x.extended = true ∧
      block.size ≤ size_add x.offset x.offset ∧
      Describes block x.offset x.offset (partitions (block.sectors x.offset)) chain ∧
      volumes x.offset (pre ++ post) = chain ++ rest ∧
      (∀ v ∈ rest, v.kept block = false) ∧
      (rest = [] ∨ volumes 0 post = [])

/-- The registered list, when the scan ends on a disk with an extended partition, against the list
the tables describe. -/
theorem found_displaced_iff {pre post chain disp : List Volume}
    (hpre : ∀ v ∈ pre, v.kept block = true) (hchain : ∀ v ∈ chain, v.kept block = true)
    (hpost : ∀ v ∈ post, v.kept block = true) :
    found block 0 pre ++ (found block pre.length disp ++
        found block (pre.length + disp.length) post) =
      numbered block 0 (pre ++ (chain ++ post)) ↔
    ∃ rest, disp = chain ++ rest ∧ (∀ v ∈ rest, v.kept block = false) ∧ (rest = [] ∨ post = []) := by
  rw [found_eq_numbered hpre, numbered_append, numbered_append, Nat.zero_add,
    List.append_cancel_left_eq]
  constructor
  · intro h
    have hlen : (found block pre.length disp).length = (numbered block pre.length chain).length := by
      have hsum := congrArg List.length h
      simp only [List.length_append, length_numbered] at hsum ⊢
      have hrest : (found block (pre.length + disp.length) post).length = post.length := by
        rw [found_eq_numbered hpost, length_numbered]
      omega
    rcases List.append_inj h hlen with ⟨hdisp, hnum⟩
    rcases (found_eq_numbered_iff hchain _).1 hdisp with ⟨rest, hrest, hrej⟩
    refine ⟨rest, hrest, hrej, ?_⟩
    cases post with
    | nil =>
        exact Or.inr rfl
    | cons v post =>
        -- the first primary partition after the chain has the number that both sides give it
        rw [found_eq_numbered hpost, numbered, numbered] at hnum
        have hnr := congrArg Partition.part_nr (List.cons_eq_cons.1 hnum).1
        simp only [Volume.device] at hnr
        left
        apply List.eq_nil_of_length_eq_zero
        have hdisplen := congrArg List.length hrest
        rw [List.length_append] at hdisplen
        omega
  · rintro ⟨rest, hrest, hrej, hlast⟩
    rw [(found_eq_numbered_iff hchain _).2 ⟨rest, hrest, hrej⟩, found_eq_numbered hpost]
    rcases hlast with rfl | rfl
    · rw [hrest, List.append_nil]
    · rfl

/-- `partition_scan_correct_iff` for a master boot record with the extended entry `x`. -/
theorem registers_iff_of_split {vs : List Volume} (h : WellFormed block vs)
    {pre post : List PartitionTableEntry} {x : PartitionTableEntry}
    (hes : partitions (block.sectors 0) = pre ++ x :: post)
    (hpre : ∀ e ∈ pre, e.extended = false) (hx : x.extended = true) :
    Registers block vs ↔
      block.size ≤ size_add x.offset x.offset ∧
      ∃ chain rest,
        Describes block x.offset x.offset (partitions (block.sectors x.offset)) chain ∧
        volumes x.offset (pre ++ post) = chain ++ rest ∧
        (∀ v ∈ rest, v.kept block = false) ∧
        (rest = [] ∨ volumes 0 post = []) := by
  have hdesc := h.describes
  rw [hes] at hdesc
  rcases hdesc.split hpre hx with ⟨chain, hvs, hpost, hlt, hchain⟩
  rw [link_sector, if_pos rfl, link_primary, if_pos rfl] at hchain
  rw [link_sector, if_pos rfl] at hlt
  have hkept := hdesc.kept
  rw [hvs] at hkept
  have hlist := @found_displaced_iff _ _ _ _ (volumes x.offset (pre ++ post))
    (fun v hv => hkept v (List.mem_append_left _ hv)) hchain.kept
    (fun v hv => hkept v (List.mem_append_right _ (List.mem_append_right _ hv)))
  rw [← hvs] at hlist
  constructor
  · rintro ⟨fuel, st, hscan, hreg⟩
    have hshallow : block.Shallow := (partition_scan_terminates_iff block).1 ⟨fuel, st, hscan⟩
    have hx0 : x ∈ partitions (block.sectors 0) := by
      rw [hes]
      exact List.mem_append_right _ List.mem_cons_self
    have hback : x.offset ≠ 0 ∧ block.size ≤ size_add x.offset x.offset := by
      rcases hshallow with hsize | hsig | hshallow
      · exact absurd hsize h.size_pos.ne'
      · exact absurd h.signed hsig
      · rcases (hshallow x hx0 hx).resolve_left (Nat.not_le.2 hlt) with ⟨hne, hpast⟩
        exact ⟨hne, hpast x hx0 hx⟩
    have hst := partition_scan_unique hscan
      (partition_scan_displaced h.signed hes hpre hpost hx hback.1 hlt hback.2)
    rw [hst] at hreg
    rcases hlist.1 hreg with ⟨rest, hrest⟩
    exact ⟨hback.2, chain, rest, hchain, hrest⟩
  · rintro ⟨hpast, chain', rest, hchain', hrest⟩
    have hne : x.offset ≠ 0 := by
      intro h0
      rw [h0] at hpast
      exact absurd h.size_pos (Nat.not_lt.2 hpast)
    rw [hchain'.unique hchain] at hrest
    exact ⟨3, _, partition_scan_displaced h.signed hes hpre hpost hx hne hlt hpast,
      hlist.2 ⟨rest, hrest⟩⟩

/-- On a well-formed disk the scan registers what the tables describe exactly when the master boot
record, read again in place of the extended boot records, says the same. -/
theorem partition_scan_correct_iff {vs : List Volume} (h : WellFormed block vs) :
    Registers block vs ↔ block.Coincides := by
  constructor
  · intro hreg
    by_cases hall : ∀ e ∈ partitions (block.sectors 0), e.extended = false
    · exact Or.inl hall
    push Not at hall
    rcases hall with ⟨y, hy, hext⟩
    rw [ne_eq, Bool.not_eq_false] at hext
    -- the first extended entry of the master boot record
    rcases Option.isSome_iff_exists.1 (List.find?_isSome.2 ⟨y, hy, hext⟩) with ⟨x, hfind⟩
    rcases List.find?_eq_some_iff_append.1 hfind with ⟨hx, pre, post, hes, hpre⟩
    have hpre' : ∀ e ∈ pre, e.extended = false := fun e he => by simpa using hpre e he
    rcases (registers_iff_of_split h hes hpre' hx).1 hreg with ⟨hpast, chain, rest, hrest⟩
    exact Or.inr ⟨pre, x, post, chain, rest, hes, hpre', hx, hpast, hrest⟩
  · rintro (hall | ⟨pre, x, post, chain, rest, hes, hpre, hx, hpast, hrest⟩)
    · have hvs := h.describes.eq_volumes hall
      have hread : partition_scan block 1 = (partitions (block.sectors 0)).foldlM
          (scan_entry block 0 0 0) { part_nr := 0, registered := [] } := by
        rw [partition_scan, read_partition_table_succ h.size_pos, if_neg (not_not.2 h.signed)]
      refine ⟨1, _, hread.trans (scan_plain hall 0 0 0 _), ?_⟩
      rw [List.nil_append, ← hvs, found_eq_numbered h.describes.kept]
    · exact (registers_iff_of_split h hes hpre hx).2 ⟨hpast, chain, rest, hrest⟩

/-- A kernel partition, and an extended partition in the upper half of the disk with one logical
partition. -/
def chained_disk : Block :=
  small_disk [(0, table_sector ⟨0x20, 1, 9⟩ ⟨0x05, 60, 40⟩ ⟨0, 0, 0⟩ ⟨0, 0, 0⟩),
    (60, table_sector ⟨0x21, 1, 20⟩ ⟨0, 0, 0⟩ ⟨0, 0, 0⟩ ⟨0, 0, 0⟩)]

theorem chained_disk_wellFormed : WellFormed chained_disk [⟨.kernel, 1, 9⟩, ⟨.filesys, 61, 20⟩] where
  size_pos := by decide
  signed := signature_table_sector _ _ _ _
  describes := by
    have hmbr : partitions (chained_disk.sectors 0) =
        [⟨0x20, 1, 9⟩, ⟨0x05, 60, 40⟩, ⟨0, 0, 0⟩, ⟨0, 0, 0⟩] := by decide +kernel
    have hebr : partitions (chained_disk.sectors 60) =
        [⟨0x21, 1, 20⟩, ⟨0, 0, 0⟩, ⟨0, 0, 0⟩, ⟨0, 0, 0⟩] := by decide +kernel
    have hsector : link_sector 0 0 ⟨0x05, 60, 40⟩ = 60 := rfl
    have hprimary : link_primary 0 0 ⟨0x05, 60, 40⟩ = 60 := rfl
    have hchain : Describes chained_disk 60 60 (partitions (chained_disk.sectors 60))
        [⟨.filesys, 61, 20⟩] := by
      rw [hebr]
      exact .data rfl (by decide) (.empty rfl (.empty rfl (.empty rfl .nil)))
    have hlink : Describes chained_disk 0 0 [⟨0x05, 60, 40⟩, ⟨0, 0, 0⟩, ⟨0, 0, 0⟩]
        ([⟨.filesys, 61, 20⟩] ++ []) := by
      refine .link rfl (by decide) (by decide) ?_ ?_ (.empty rfl (.empty rfl .nil))
      · rw [hsector]
        exact signature_table_sector _ _ _ _
      · rw [hsector, hprimary]
        exact hchain
    rw [hmbr]
    exact .data rfl (by decide) hlink

theorem partition_scan_correct_iff_chained :
    Registers chained_disk [⟨.kernel, 1, 9⟩, ⟨.filesys, 61, 20⟩] ↔ chained_disk.Coincides :=
  partition_scan_correct_iff chained_disk_wellFormed

/-- The logical partition is not found; the kernel partition is found twice. -/
theorem chained_disk_misread :
    WellFormed chained_disk [⟨.kernel, 1, 9⟩, ⟨.filesys, 61, 20⟩] ∧
      ¬ Registers chained_disk [⟨.kernel, 1, 9⟩, ⟨.filesys, 61, 20⟩] := by
  refine ⟨chained_disk_wellFormed, ?_⟩
  rintro ⟨fuel, st, hscan, hreg⟩
  have hcode : partition_scan chained_disk 3 = some
      ⟨2, [⟨['h', 'd', 'a', '1'], 1, .kernel, 1, 9⟩, ⟨['h', 'd', 'a', '2'], 2, .kernel, 61, 9⟩]⟩ := by
    decide +kernel
  rw [partition_scan_unique hscan hcode] at hreg
  exact absurd hreg (by decide)

end Berk162
