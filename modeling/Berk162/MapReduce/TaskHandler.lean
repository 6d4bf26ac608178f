import Berk162.Lib.Bytes
import Berk162.Lib.Machine

/-!
# TaskHandler — map and reduce tasks, `hw-map-reduce/worker/task_handler.c`

A map task writes its pairs into one intermediate file per reduce task; a reduce task reads the
intermediate files of all map tasks, sorts the pairs by key and calls the application's reduce
function once for each group of adjacent pairs whose keys compare equal.  The key functions are
those of `lib/lib.c`, the file format that of `codec/codec.c`.

A file is the string of its bytes, and a reader is what it has not read yet.  `malloc` succeeds,
but for sizes beyond `PTRDIFF_MAX`.
-/

namespace Berk162.MapReduce

/-! ## `lib/lib.h` -/

/-- One more than the largest `ssize_t`. -/
def SSIZE_LIMIT : Nat := 2 ^ 63

/-- `sized_buffer` -/
structure SizedBuffer where
  bytes : Bytes
  /-- `length` is a `ssize_t`. -/
  length_lt : bytes.length < SSIZE_LIMIT
  deriving DecidableEq

/-- `key_value` -/
structure KeyValue where
  key : SizedBuffer
  value : SizedBuffer
  deriving DecidableEq

/-! ## `lib/lib.c` -/

/-- A `char`, which is signed, converted to `unsigned int`. -/
def char_to_unsigned (c : UInt8) : Nat := if c.toNat < 128 then c.toNat else c.toNat + 0xFFFFFF00

def ihash (buf : SizedBuffer) : Nat :=
  let fnv_prime := 0x811C9DC5
  let hash := buf.bytes.foldl (fun hash c => (hash * fnv_prime % 2 ^ 32) ^^^ char_to_unsigned c) 0
  hash &&& 0x7fffffff

/-- `strncmp`: at most `n` characters are compared, and none after a null character. -/
def strncmp : Bytes → Bytes → Nat → Int
  | a :: as, b :: bs, n + 1 =>
      if a ≠ b then (a.toNat : Int) - b.toNat
      else if a = 0 then 0
      else strncmp as bs n
  | _, _, _ => 0

def by_key (kv1 kv2 : KeyValue) : Int :=
  let key1 := kv1.key.bytes
  let key2 := kv2.key.bytes
  let ret := strncmp key1 key2 (if key1.length < key2.length then key1.length else key2.length)
  if ret = 0 then int32 ((key1.length : Int) - key2.length) else ret

/-- A comparison function that a sort can rely on, on the elements of `l`. -/
structure Consistent (cmp : KeyValue → KeyValue → Int) (l : List KeyValue) : Prop where
  antisymm : ∀ a ∈ l, ∀ b ∈ l, cmp a b < 0 ↔ 0 < cmp b a
  trans : ∀ a ∈ l, ∀ b ∈ l, ∀ c ∈ l, cmp a b ≤ 0 → cmp b c ≤ 0 → cmp a c ≤ 0

/-- `qsort` of the C library: the order of elements that compare equal is not specified. -/
structure Qsort where
  sort : (KeyValue → KeyValue → Int) → List KeyValue → List KeyValue
  perm : ∀ cmp l, (sort cmp l).Perm l
  sorted : ∀ cmp l, Consistent cmp l → (sort cmp l).Pairwise (fun a b => cmp a b ≤ 0)

/-! ## `codec/codec.c` -/

/-- `ldw_write`; `size_t` has 8 bytes. -/
def ldw_write (outfile : Bytes) (buf : SizedBuffer) : Bytes :=
  outfile ++ (le_bytes 8 buf.bytes.length ++ buf.bytes)

/-- `ldr_next`: the buffer, `none` for one of length -1, and what is left to read. -/
def ldr_next (infile : Bytes) : Option SizedBuffer × Bytes :=
  if infile.length < 8 then
    (none, [])
  else
    let length := le_val (infile.take 8)
    let infile := infile.drop 8
    if h : SSIZE_LIMIT ≤ length then
      -- `malloc` returns a null pointer
      (none, infile)
    else if infile.length < length then
      (none, [])
    else
      (some ⟨infile.take length,
        lt_of_le_of_lt (List.length_take_le _ _) (Nat.not_le.1 h)⟩, infile.drop length)

theorem ldr_next_shrinks {infile rest : Bytes} {buf : SizedBuffer}
    (h : ldr_next infile = (some buf, rest)) : rest.length < infile.length := by
  simp only [ldr_next] at h
  split_ifs at h with hshort hlimit hbody <;> cases h
  rw [List.length_drop, List.length_drop]
  omega

def ldr_count (infile : Bytes) : Nat :=
  match h : ldr_next infile with
  | (none, _) => 0
  | (some _, rest) =>
      have : rest.length < infile.length := ldr_next_shrinks h
      ldr_count rest + 1
termination_by infile.length

/-! ## Applications -/

/-- The functions of an `app` that tasks call. -/
structure App where
  map : KeyValue → SizedBuffer → List KeyValue
  reduce : SizedBuffer → List KeyValue → SizedBuffer → KeyValue

/-! ## Map tasks -/

/-- `map_file` -/
def map_file (filename contents : SizedBuffer) (map : KeyValue → SizedBuffer → List KeyValue)
    (aux : SizedBuffer) : List KeyValue :=
  map ⟨filename, contents⟩ aux

/-- `write_map_kvs`: the pairs are added to the files of the reduce tasks. -/
def write_map_kvs (n_reduce : Nat) (writers : Nat → Bytes) (kvs : List KeyValue) : Nat → Bytes :=
  kvs.foldl
    (fun writers kv =>
      let reduce_task := ihash kv.key % n_reduce
      Function.update writers reduce_task
        (ldw_write (ldw_write (writers reduce_task) kv.key) kv.value))
    writers

/-- `handle_map_task`: the intermediate files, `none` when the task returns 1.  `app` is `none` when
there is none of the name, `contents` when the input cannot be read; `writable` says which
intermediate files can be opened. -/
def handle_map_task (app : Option App) (n_reduce : Nat) (writable : Nat → Bool)
    (file : SizedBuffer) (contents : Option SizedBuffer) (aux : SizedBuffer) :
    Option (Nat → Bytes) := do
  let current_app ← app
  if (List.range n_reduce).all writable then
    let contents ← contents
    let kva := map_file file contents current_app.map aux
    return write_map_kvs n_reduce (fun _ => []) kva
  else
    none

/-! ## Reduce tasks -/

/-- `open_reduce_readers`: the readers, rewound, and the number of entries; `none` when a file cannot
be opened. -/
def open_reduce_readers (files : List (Option Bytes)) : Option (List Bytes × Nat) :=
  files.foldlM
    (fun (readers, entries) file => do
      let reader ← file
      return (readers ++ [reader], entries + ldr_count reader))
    ([], 0)

/-- The loop of `read_map_kvs` over one reader; `kvs` are the pairs read so far, of `length`. -/
def read_pairs (length : Nat) (reader : Bytes) (kvs : List KeyValue) : List KeyValue :=
  match hkey : ldr_next reader with
  | (none, _) => kvs
  | (some key, rest) =>
      match hvalue : ldr_next rest with
      | (none, _) => kvs
      | (some value, rest') =>
          if kvs.length < length then
            have : rest'.length < reader.length :=
              lt_trans (ldr_next_shrinks hvalue) (ldr_next_shrinks hkey)
            read_pairs length rest' (kvs ++ [⟨key, value⟩])
          else
            kvs
termination_by reader.length

def read_map_kvs (readers : List Bytes) (length : Nat) : List KeyValue :=
  readers.foldl (fun kvs reader => read_pairs length reader kvs) []

/-- The loop of `reduce_kvs`: `p1` is the first pair of a group, `p2` the pair to compare it with. -/
def reduce_loop (reduce : SizedBuffer → List KeyValue → SizedBuffer → KeyValue) (aux : SizedBuffer)
    (kvs : List KeyValue) (p1 p2 : Nat) (writer : Bytes) : Bytes :=
  if h1 : p1 < kvs.length then
    if h2 : p2 < kvs.length then
      if by_key kvs[p1] kvs[p2] ≠ 0 then
        reduce_loop reduce aux kvs p2 (p2 + 1)
          (if p2 > p1 then
            let kv := reduce kvs[p1].key ((kvs.drop p1).take (p2 - p1)) aux
            ldw_write (ldw_write writer kv.key) kv.value
          else writer)
      else
        reduce_loop reduce aux kvs p1 (p2 + 1) writer
    else
      reduce_loop reduce aux kvs p2 (p2 + 1)
        (if p2 > p1 then
          let kv := reduce kvs[p1].key ((kvs.drop p1).take (p2 - p1)) aux
          ldw_write (ldw_write writer kv.key) kv.value
        else writer)
  else
    writer
termination_by if p1 < kvs.length then 1 + (kvs.length - p2) else 0
decreasing_by
  all_goals
    simp only [h1, if_true]
    try split
  all_goals omega

def reduce_kvs (qsort : Qsort) (reduce : SizedBuffer → List KeyValue → SizedBuffer → KeyValue)
    (aux : SizedBuffer) (kvs : List KeyValue) (writer : Bytes) : Bytes :=
  reduce_loop reduce aux (qsort.sort by_key kvs) 0 1 writer

/-- `handle_reduce_task`: the status, and the output file when it was written.  `writable` says that
the output file can be opened. -/
def handle_reduce_task (qsort : Qsort) (app : App) (aux : SizedBuffer)
    (files : List (Option Bytes)) (writable : Bool) : Nat × Option Bytes :=
  match open_reduce_readers files with
  | none => (1, none)
  | some (readers, entries) =>
      if entries % 2 = 1 then
        (1, none)
      else if writable = false then
        (1, none)
      else
        let length := entries / 2
        if length > 0 then
          let kvs := read_map_kvs readers length
          (0, some (reduce_kvs qsort app.reduce aux kvs []))
        else
          (0, some [])

end Berk162.MapReduce
