import Berk162.Lib.Bytes
import Berk162.Lib.Runs

/-!
# Worker — the Rust worker, `hw-map-reduce-rs/src/worker/mod.rs`

A map task keeps, for each reduce task, a buffer of length-delimited packets in the worker's state;
a reduce task fetches its buffers from the workers that ran the map tasks, sorts the pairs by key,
groups equal keys and writes one pair of packets per group.  The packets are those of
`codec/mod.rs`.

The hash function, the sort and the applications are parameters; the network is a table of the
workers that can be reached.
-/

namespace Berk162.MapReduceRs

/-- Why a function does not return a result: it panics, or returns an error that may be retried or
one that may not. -/
inductive Stop
  | panic
  | retry
  | abort
  deriving DecidableEq, Repr

abbrev Result (α : Type) := Except Stop α

/-! ## `codec/mod.rs` -/

/-- `u32::MAX` -/
def U32_MAX : Nat := 2 ^ 32 - 1

/-- `BufMut::put_u32`: four bytes, the most significant first. -/
def put_u32 (n : Nat) : Bytes := (le_bytes 4 n).reverse

/-- `Buf::get_u32`, of four bytes. -/
def get_u32 (bs : Bytes) : Nat := le_val bs.reverse

/-- `LengthDelimitedWriter::send` -/
def send (buf b : Bytes) : Result Bytes :=
  if b.length ≤ U32_MAX then .ok (buf ++ (put_u32 b.length ++ b)) else .error .panic

/-- `LengthDelimitedReader::next`, and what is left in the buffer; `get_u32` and `split_to` panic when
the buffer is too short. -/
def reader_next (buf : Bytes) : Result (Option (Bytes × Bytes)) :=
  if buf = [] then
    .ok none
  else if buf.length < 4 then
    .error .panic
  else
    let len := get_u32 (buf.take 4)
    let buf := buf.drop 4
    if buf.length < len then .error .panic else .ok (some (buf.take len, buf.drop len))

theorem reader_next_shrinks {buf rest p : Bytes} (h : reader_next buf = .ok (some (p, rest))) :
    rest.length < buf.length := by
  simp only [reader_next] at h
  split_ifs at h with hnil hshort hlen <;> cases h
  rw [List.length_drop, List.length_drop]
  omega

/-! ## `lib.rs` -/

structure KeyValue where
  key : Bytes
  value : Bytes
  deriving DecidableEq

/-- `ihash`; `fnv` is the hash of the bytes under `FnvHasher::with_key (0)`. -/
def ihash (fnv : Bytes → Nat) (key : Bytes) : Nat := fnv key &&& 0x7fffffff

/-- The functions of an `App` that tasks call; `none` is an error. -/
structure App where
  map_fn : KeyValue → Bytes → Option (List (Option KeyValue))
  reduce_fn : Bytes → List Bytes → Bytes → Option Bytes

/-- The order of byte strings: byte by byte, a prefix first. -/
def key_le (a b : Bytes) : Prop := a.map UInt8.toNat ≤ b.map UInt8.toNat

/-- `sort_unstable_by_key (KeyValue::key)`: pairs with equal keys may come in any order. -/
structure SortUnstable where
  sort : List KeyValue → List KeyValue
  perm : ∀ l, (sort l).Perm l
  sorted : ∀ l, (sort l).Pairwise fun a b => key_le a.key b.key

/-- `group_by (KeyValue::key)` with `KeyValue::into_value`: the runs of equal keys, each with its
values. -/
def group_by (l : List KeyValue) : List (Bytes × List Bytes) :=
  (runs KeyValue.key l).filterMap fun g => g.head?.map fun kv => (kv.key, g.map KeyValue.value)

/-! ## Map tasks -/

/-- `WorkerState`: for each job, the buffers of its map tasks by map task and reduce task. -/
structure WorkerState where
  data : Nat → Option (Nat × Nat → Option Bytes)

/-- One pass of the loop of `map` over the items. -/
def send_item (fnv : Bytes → Nat) (n_reduce : Nat) (writers : Nat → Bytes) (item : Option KeyValue) :
    Result (Nat → Bytes) :=
  match item with
  | none => .error .abort
  | some ⟨key, value⟩ =>
      if n_reduce = 0 then
        -- the remainder of a division by zero
        .error .panic
      else do
        let reduce_idx := ihash fnv key % n_reduce
        let writer ← send (writers reduce_idx) key
        let writer ← send writer value
        return Function.update writers reduce_idx writer

/-- `Worker::map`; `content` is `none` when the input file cannot be read. -/
def map (fnv : Bytes → Nat) (app : App) (job_id task n_reduce : Nat) (file : Bytes)
    (content : Option Bytes) (aux : Bytes) (state : WorkerState) : Result WorkerState :=
  match content with
  | none => .error .abort
  | some content =>
      match app.map_fn ⟨file, content⟩ aux with
      | none => .error .abort
      | some items => do
          let writers ← items.foldlM (send_item fnv n_reduce) (fun _ => [])
          let job_entry := (state.data job_id).getD (fun _ => none)
          let job_entry := (List.range n_reduce).foldl
            (fun job_entry i => Function.update job_entry (task, i) (some (writers i))) job_entry
          return { data := Function.update state.data job_id (some job_entry) }

/-! ## Reduce tasks -/

/-- `WorkerState::get_data`, which `read_map` returns to the caller. -/
def get_data (state : WorkerState) (job_id map_task reduce_task : Nat) : Option Bytes := do
  let task_map ← state.data job_id
  task_map (map_task, reduce_task)

/-- `MapTaskAssignment` -/
structure MapTaskAssignment where
  task : Nat
  worker_id : Nat

/-- `read_map_from`; `workers` are the workers that can be reached. -/
def read_map_from (workers : Nat → Option WorkerState) (worker job_id map_task reduce_task : Nat) :
    Option Bytes := do
  let state ← workers worker
  get_data state job_id map_task reduce_task

/-- The loop of `reduce` over the packets of one buffer. -/
def read_packets (buf : Bytes) (intermediate : List KeyValue) : Result (List KeyValue) :=
  match hkey : reader_next buf with
  | .error e => .error e
  | .ok none => .ok intermediate
  | .ok (some (key, rest)) =>
      match hvalue : reader_next rest with
      | .error e => .error e
      | .ok none => .error .abort
      | .ok (some (value, rest')) =>
          have : rest'.length < buf.length :=
            lt_trans (reader_next_shrinks hvalue) (reader_next_shrinks hkey)
          read_packets rest' (intermediate ++ [⟨key, value⟩])
termination_by buf.length

/-- One pass of the loop of `reduce` over the map tasks. -/
def read_bucket (workers : Nat → Option WorkerState) (job_id task : Nat)
    (intermediate : List KeyValue) (map_task : MapTaskAssignment) : Result (List KeyValue) :=
  match read_map_from workers map_task.worker_id job_id map_task.task task with
  | none => .error .retry
  | some buf => read_packets buf intermediate

/-- The whole loop. -/
def read_buckets (workers : Nat → Option WorkerState) (job_id task : Nat)
    (map_tasks : List MapTaskAssignment) : Result (List KeyValue) :=
  map_tasks.foldlM (read_bucket workers job_id task) []

/-- The two sends at the end of the loop of `reduce`. -/
def send_kv (writer : Bytes) (kv : KeyValue) : Result Bytes := do
  let writer ← send writer kv.key
  send writer kv.value

/-- One pass of the loop of `reduce` over the groups. -/
def write_group (app : App) (aux : Bytes) (writer : Bytes) (group : Bytes × List Bytes) :
    Result Bytes :=
  match app.reduce_fn group.1 group.2 aux with
  | none => .error .abort
  | some output => send_kv writer ⟨group.1, output⟩

/-- `Worker::reduce`: the contents of the output file. -/
def reduce (sort : SortUnstable) (app : App) (workers : Nat → Option WorkerState)
    (job_id task : Nat) (map_tasks : List MapTaskAssignment) (aux : Bytes) : Result Bytes := do
  let intermediate ← read_buckets workers job_id task map_tasks
  (group_by (sort.sort intermediate)).foldlM (write_group app aux) []

end Berk162.MapReduceRs
