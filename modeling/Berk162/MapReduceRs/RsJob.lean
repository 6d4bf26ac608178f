import Berk162.MapReduceRs.Packets

/-!
# RsJob — a whole job of the Rust workers

The map tasks of a job run on any of the workers, in any order; each reduce task fetches its buffers
from the workers that ran them.  `outputs_correct` says that the output files together hold one pair
per key, each in the file that its hash selects.

Packets of more than `u32::MAX` bytes are beyond the format: `send` panics.
-/

namespace Berk162.MapReduceRs

/-- A map task, the worker that runs it, and its input. -/
structure MapTask where
  task : Nat
  worker : Nat
  file : Bytes
  content : Bytes

/-- What the coordinator tells the reduce tasks. -/
def MapTask.assignment (t : MapTask) : MapTaskAssignment := ⟨t.task, t.worker⟩

/-- An application whose functions return no errors. -/
def App.ofFunctions (m : KeyValue → Bytes → List KeyValue) (f : Bytes → List Bytes → Bytes → Bytes) :
    App where
  map_fn kv aux := some ((m kv aux).map some)
  reduce_fn key values aux := some (f key values aux)

section

variable (fnv : Bytes → Nat) (sort : SortUnstable) (m : KeyValue → Bytes → List KeyValue)
  (f : Bytes → List Bytes → Bytes → Bytes) (aux : Bytes) (job_id n_reduce : Nat)

/-- The map tasks, one after the other. -/
def run_maps (tasks : List MapTask) (workers : Nat → WorkerState) : Result (Nat → WorkerState) :=
  tasks.foldlM
    (fun workers t => do
      let state ← map fnv (App.ofFunctions m f) job_id t.task n_reduce t.file (some t.content) aux
        (workers t.worker)
      return Function.update workers t.worker state)
    workers

/-- The pairs that the map tasks emit. -/
def map_outputs (tasks : List MapTask) : List KeyValue :=
  tasks.flatMap fun t => m ⟨t.file, t.content⟩ aux

/-- The values emitted for a key. -/
def values_of (tasks : List MapTask) (key : Bytes) : List Bytes :=
  ((map_outputs m aux tasks).filter fun kv => kv.key = key).map KeyValue.value

/-- The map tasks succeed, and then, in whatever order a reduce task visits them, the output files
together hold exactly one pair per key that was emitted, the result of `f` on all its values, and
each in the file of reduce task `ihash (key) % n_reduce`. -/
def OutputsCorrect (tasks : List MapTask) (workers : Nat → WorkerState) : Prop :=
  ∃ workers', run_maps fnv m f aux job_id n_reduce tasks workers = .ok workers' ∧
    ∀ order : List MapTask, order.Perm tasks →
      ∃ outs : Nat → List KeyValue,
        (∀ r < n_reduce, reduce sort (App.ofFunctions m f) (fun w => some (workers' w)) job_id r
          (order.map MapTask.assignment) aux = .ok (packets (outs r))) ∧
        ((List.range n_reduce).flatMap outs).Perm
          (((map_outputs m aux tasks).map KeyValue.key).dedup.map fun k =>
            ⟨k, f k (values_of m aux tasks k) aux⟩) ∧
        ∀ r < n_reduce, ∀ kv ∈ outs r, ihash fnv kv.key % n_reduce = r

end

variable {fnv : Bytes → Nat} {m : KeyValue → Bytes → List KeyValue}
  {f : Bytes → List Bytes → Bytes → Bytes} {aux : Bytes} {job_id n_reduce : Nat}

/-! ## Map tasks -/

/-- The pairs of the list that go to reduce task `r`. -/
def bucket (fnv : Bytes → Nat) (n_reduce : Nat) (kvs : List KeyValue) (r : Nat) : List KeyValue :=
  kvs.filter fun kv => ihash fnv kv.key % n_reduce = r

theorem send_items_ok {kvs : List KeyValue} (hn : 0 < n_reduce) (hsized : ∀ kv ∈ kvs, kv.Sized)
    (written : Nat → List KeyValue) :
    (kvs.map some).foldlM (send_item fnv n_reduce) (fun i => packets (written i)) =
      (.ok fun i => packets (written i ++ bucket fnv n_reduce kvs i) : Result (Nat → Bytes)) := by
  induction kvs generalizing written with
  | nil =>
      simp [bucket]
      rfl
  | cons kv kvs ih =>
      rcases List.forall_mem_cons.1 hsized with ⟨hkv, hkvs⟩
      have hstep : send_item fnv n_reduce (fun i => packets (written i)) (some kv) =
          .ok fun i => packets (Function.update written (ihash fnv kv.key % n_reduce)
            (written (ihash fnv kv.key % n_reduce) ++ [kv]) i) := by
        have hsend := send_pair hkv (written (ihash fnv kv.key % n_reduce))
        have hupdate : Function.update (fun i => packets (written i)) (ihash fnv kv.key % n_reduce)
            (packets (written (ihash fnv kv.key % n_reduce) ++ [kv])) =
              fun i => packets (Function.update written (ihash fnv kv.key % n_reduce)
                (written (ihash fnv kv.key % n_reduce) ++ [kv]) i) := by
          funext i
          by_cases hi : i = ihash fnv kv.key % n_reduce
          · subst hi
            rw [Function.update_self, Function.update_self]
          · rw [Function.update_of_ne hi, Function.update_of_ne hi]
        rw [← hupdate]
        simp only [send_item, if_neg hn.ne']
        rw [← bind_assoc]
        refine (congrArg (fun x => x >>= _) hsend).trans ?_
        rfl
      rw [List.map_cons, List.foldlM_cons, hstep]
      refine (ih hkvs _).trans ?_
      congr 1
      funext i
      by_cases hi : i = ihash fnv kv.key % n_reduce
      · subst hi
        simp [bucket]
      · rw [Function.update_of_ne hi, bucket, bucket,
          List.filter_cons_of_neg (by simpa using Ne.symm hi)]

/-- The buffers that `map` inserts, one per reduce task. -/
theorem insert_buffers (task : Nat) (writers : Nat → Bytes) (entry : Nat × Nat → Option Bytes)
    (n : Nat) (id : Nat × Nat) :
    (List.range n).foldl
        (fun entry i => Function.update entry (task, i) (some (writers i))) entry id =
      if id.1 = task ∧ id.2 < n then some (writers id.2) else entry id := by
  induction n with
  | zero =>
      simp
  | succ n ih =>
      rw [List.range_succ, List.foldl_append, List.foldl_cons, List.foldl_nil]
      by_cases hid : id = (task, n)
      · subst hid
        simp
      · rw [Function.update_of_ne hid, ih]
        have hiff : (id.1 = task ∧ id.2 < n + 1) ↔ (id.1 = task ∧ id.2 < n) := by
          constructor
          · rintro ⟨htask, hlt⟩
            have hne : id.2 ≠ n := fun h => hid (Prod.ext htask h)
            exact ⟨htask, by omega⟩
          · rintro ⟨htask, hlt⟩
            exact ⟨htask, by omega⟩
        simp only [hiff]

/-- The state of a worker that has inserted the buffers of a map task. -/
def WorkerState.keep (state : WorkerState) (job_id task n_reduce : Nat) (writers : Nat → Bytes) :
    WorkerState where
  data := Function.update state.data job_id (some ((List.range n_reduce).foldl
    (fun entry i => Function.update entry (task, i) (some (writers i)))
    ((state.data job_id).getD (fun _ => none))))

theorem get_data_keep (state : WorkerState) (job_id task n_reduce : Nat) (writers : Nat → Bytes)
    (i r : Nat) :
    get_data (state.keep job_id task n_reduce writers) job_id i r =
      if i = task ∧ r < n_reduce then some (writers r) else get_data state job_id i r := by
  simp only [get_data, WorkerState.keep, Function.update_self, Option.bind_eq_bind,
    Option.bind_some, insert_buffers]
  by_cases hir : i = task ∧ r < n_reduce
  · rw [if_pos hir, if_pos hir]
  · rw [if_neg hir, if_neg hir]
    cases state.data job_id with
    | none =>
        rfl
    | some entry =>
        rfl

/-- A map task keeps its buffers for its own number, and leaves all other buffers of the job
alone. -/
theorem map_ok {t : MapTask} (hn : 0 < n_reduce)
    (hsized : ∀ kv ∈ m ⟨t.file, t.content⟩ aux, kv.Sized) (state : WorkerState) :
    ∃ state', map fnv (App.ofFunctions m f) job_id t.task n_reduce t.file (some t.content) aux state =
        .ok state' ∧
      ∀ i r, get_data state' job_id i r =
        if i = t.task ∧ r < n_reduce then
          some (packets (bucket fnv n_reduce (m ⟨t.file, t.content⟩ aux) r))
        else get_data state job_id i r := by
  have hitems := @send_items_ok fnv _ _ hn hsized (fun _ => [])
  simp only [List.nil_append] at hitems
  refine ⟨state.keep job_id t.task n_reduce
    (fun r => packets (bucket fnv n_reduce (m ⟨t.file, t.content⟩ aux) r)), ?_,
    get_data_keep state job_id t.task n_reduce _⟩
  simp only [map, App.ofFunctions]
  refine (congrArg (fun x => x >>= _) hitems).trans ?_
  rfl

/-- After the map tasks every worker has the buffers of the tasks it ran. -/
theorem run_maps_ok {tasks : List MapTask} (hn : 0 < n_reduce)
    (hnodup : (tasks.map MapTask.task).Nodup)
    (hsized : ∀ kv ∈ map_outputs m aux tasks, kv.Sized) (workers : Nat → WorkerState) :
    ∃ workers', run_maps fnv m f aux job_id n_reduce tasks workers = .ok workers' ∧
      (∀ t ∈ tasks, ∀ r < n_reduce, get_data (workers' t.worker) job_id t.task r =
        some (packets (bucket fnv n_reduce (m ⟨t.file, t.content⟩ aux) r))) ∧
      ∀ w i, i ∉ tasks.map MapTask.task → ∀ r,
        get_data (workers' w) job_id i r = get_data (workers w) job_id i r := by
  induction tasks generalizing workers with
  | nil =>
      exact ⟨workers, rfl, by simp, fun _ _ _ _ => rfl⟩
  | cons t tasks ih =>
      rw [List.map_cons, List.nodup_cons] at hnodup
      have hhead : ∀ kv ∈ m ⟨t.file, t.content⟩ aux, kv.Sized :=
        fun kv hkv => hsized kv (List.mem_append_left _ hkv)
      have htail : ∀ kv ∈ map_outputs m aux tasks, kv.Sized :=
        fun kv hkv => hsized kv (List.mem_append_right _ hkv)
      rcases @map_ok fnv _ f _ job_id _ _ hn hhead (workers t.worker) with
        ⟨state, hmap, hdata⟩
      rcases ih hnodup.2 htail (Function.update workers t.worker state) with
        ⟨workers', hrun, hserved, hframe⟩
      refine ⟨workers', ?_, ?_, ?_⟩
      · rw [run_maps, List.foldlM_cons, hmap]
        exact hrun
      · intro t' ht' r hr
        rcases List.mem_cons.1 ht' with rfl | ht'
        · -- no later task has this number
          rw [hframe t'.worker t'.task hnodup.1 r, Function.update_self, hdata,
            if_pos ⟨rfl, hr⟩]
        · exact hserved t' ht' r hr
      · intro w i hi r
        rw [List.map_cons, List.mem_cons, not_or] at hi
        rw [hframe w i hi.2 r]
        by_cases hw : w = t.worker
        · subst hw
          rw [Function.update_self, hdata, if_neg (fun h => hi.1 h.1)]
        · rw [Function.update_of_ne hw]

/-! ## Reduce tasks -/

/-- A reduce task reads its share of what the map tasks emitted, in the order it visits them. -/
theorem read_buckets_ok {workers : Nat → WorkerState} {order : List MapTask} {r : Nat}
    (hserved : ∀ t ∈ order, get_data (workers t.worker) job_id t.task r =
      some (packets (bucket fnv n_reduce (m ⟨t.file, t.content⟩ aux) r)))
    (hsized : ∀ kv ∈ map_outputs m aux order, kv.Sized) :
    read_buckets (fun w => some (workers w)) job_id r (order.map MapTask.assignment) =
      .ok (bucket fnv n_reduce (map_outputs m aux order) r) := by
  have hrun : ∀ (order : List MapTask) (intermediate : List KeyValue),
      (∀ t ∈ order, get_data (workers t.worker) job_id t.task r =
        some (packets (bucket fnv n_reduce (m ⟨t.file, t.content⟩ aux) r))) →
      (∀ kv ∈ map_outputs m aux order, kv.Sized) →
        (order.map MapTask.assignment).foldlM (read_bucket (fun w => some (workers w)) job_id r)
          intermediate =
        (.ok (intermediate ++ bucket fnv n_reduce (map_outputs m aux order) r) :
          Result (List KeyValue)) := by
    intro order
    induction order with
    | nil =>
        intro intermediate _ _
        simp [map_outputs, bucket]
        rfl
    | cons t order ih =>
        intro intermediate hserved hsized
        rcases List.forall_mem_cons.1 hserved with ⟨ht, hrest⟩
        have hbucket : ∀ kv ∈ bucket fnv n_reduce (m ⟨t.file, t.content⟩ aux) r, kv.Sized :=
          fun kv hkv => hsized kv (List.mem_append_left _ (List.mem_of_mem_filter hkv))
        have htail : ∀ kv ∈ map_outputs m aux order, kv.Sized :=
          fun kv hkv => hsized kv (List.mem_append_right _ hkv)
        have hread : read_map_from (fun w => some (workers w)) t.worker job_id t.task r =
            some (packets (bucket fnv n_reduce (m ⟨t.file, t.content⟩ aux) r)) := ht
        rw [List.map_cons, List.foldlM_cons]
        simp only [read_bucket, MapTask.assignment, hread, read_packets_packets hbucket]
        refine (ih _ hrest htail).trans ?_
        have hcons : bucket fnv n_reduce (map_outputs m aux (t :: order)) r =
            bucket fnv n_reduce (m ⟨t.file, t.content⟩ aux) r ++
              bucket fnv n_reduce (map_outputs m aux order) r :=
          List.filter_append _ _
        rw [hcons, List.append_assoc]
  rw [read_buckets]
  exact hrun order [] hserved hsized

instance : Std.Antisymm key_le where
  antisymm a b hab hba := by
    have hmap := le_antisymm hab hba
    exact List.map_injective_iff.2 (fun x y h => UInt8.toNat_inj.1 h) hmap

/-- The groups of a sorted list: each key with all its values. -/
theorem group_by_sorted_perm {l : List KeyValue}
    (h : l.Pairwise fun a b => key_le a.key b.key) :
    (group_by l).Perm ((l.map KeyValue.key).dedup.map fun k =>
      (k, (l.filter fun kv => kv.key = k).map KeyValue.value)) := by
  have hruns := runs_perm_of_sorted h
  have hgroup : ∀ k ∈ (l.map KeyValue.key).dedup,
      ((l.filter fun kv => kv.key = k).head?.map fun kv =>
          (kv.key, (l.filter fun kv => kv.key = k).map KeyValue.value)) =
        some (k, (l.filter fun kv => kv.key = k).map KeyValue.value) := by
    intro k hk
    rcases List.mem_map.1 (List.mem_dedup.1 hk) with ⟨kv, hkv, hkvk⟩
    cases hg : l.filter (fun kv => kv.key = k) with
    | nil =>
        exact absurd (List.filter_eq_nil_iff.1 hg kv hkv) (by simpa using hkvk)
    | cons a g =>
        have ha : a ∈ l.filter fun kv => kv.key = k := by
          rw [hg]
          exact List.mem_cons_self
        have hak : a.key = k := by simpa using (List.mem_filter.1 ha).2
        rw [List.head?_cons, Option.map_some, hak]
  refine (hruns.filterMap _).trans (List.Perm.of_eq ?_)
  rw [List.filterMap_map]
  refine (List.filterMap_congr hgroup).trans ?_
  exact congrFun (List.filterMap_eq_map (f := fun k =>
    (k, (l.filter fun kv => kv.key = k).map KeyValue.value))) _

/-- The loop over the groups writes one pair per group, if the pairs are not too long. -/
theorem write_groups_ok {groups : List (Bytes × List Bytes)}
    (h : ∀ g ∈ groups, (⟨g.1, f g.1 g.2 aux⟩ : KeyValue).Sized) (written : List KeyValue) :
    groups.foldlM (write_group (App.ofFunctions m f) aux) (packets written) =
      .ok (packets (written ++ groups.map fun g => ⟨g.1, f g.1 g.2 aux⟩)) := by
  induction groups generalizing written with
  | nil =>
      rw [List.map_nil, List.append_nil]
      rfl
  | cons g groups ih =>
      rcases List.forall_mem_cons.1 h with ⟨hg, hgroups⟩
      have hstep : write_group (App.ofFunctions m f) aux (packets written) g =
          .ok (packets (written ++ [⟨g.1, f g.1 g.2 aux⟩])) := send_pair hg written
      rw [List.foldlM_cons, hstep]
      refine (ih hgroups _).trans ?_
      rw [List.append_assoc, List.map_cons]
      rfl

/-! ## The whole job -/

/-- The output files of a job hold one pair per key, whatever workers ran its map tasks, as long as
no packet is longer than `u32::MAX` bytes. -/
theorem outputs_correct (fnv : Bytes → Nat) (sort : SortUnstable)
    (m : KeyValue → Bytes → List KeyValue) (f : Bytes → List Bytes → Bytes → Bytes) (aux : Bytes)
    (job_id : Nat) {n_reduce : Nat} {tasks : List MapTask} (workers : Nat → WorkerState)
    (hn : 0 < n_reduce) (hnodup : (tasks.map MapTask.task).Nodup)
    (horder : ∀ key vs vs', vs.Perm vs' → f key vs aux = f key vs' aux)
    (hsized : ∀ kv ∈ map_outputs m aux tasks, kv.Sized)
    (hresult : ∀ kv ∈ map_outputs m aux tasks,
      (f kv.key (values_of m aux tasks kv.key) aux).length ≤ U32_MAX) :
    OutputsCorrect fnv sort m f aux job_id n_reduce tasks workers := by
  rcases @run_maps_ok fnv _ f _ job_id _ _ hn hnodup hsized workers with
    ⟨workers', hrun, hserved, _⟩
  refine ⟨workers', hrun, fun order hperm => ?_⟩
  have hall : (map_outputs m aux order).Perm (map_outputs m aux tasks) :=
    hperm.flatMap_right _
  let share : Nat → List KeyValue := fun r => bucket fnv n_reduce (map_outputs m aux order) r
  have hmem : ∀ r kv, kv ∈ share r →
      kv ∈ map_outputs m aux tasks ∧ ihash fnv kv.key % n_reduce = r := by
    intro r kv hkv
    have hfilter := List.mem_filter.1 hkv
    exact ⟨hall.mem_iff.1 hfilter.1, by simpa using hfilter.2⟩
  -- what the group of a key holds, and what `f` makes of it
  have hvalues : ∀ r, ∀ kv ∈ share r,
      f kv.key (((sort.sort (share r)).filter fun kv' => kv'.key = kv.key).map KeyValue.value) aux =
        f kv.key (values_of m aux tasks kv.key) aux := by
    intro r kv hkv
    apply horder
    apply List.Perm.map
    refine ((sort.perm (share r)).filter _).trans (List.Perm.trans (List.Perm.of_eq ?_)
      (hall.filter _))
    simp only [share, bucket, List.filter_filter]
    apply List.filter_congr
    intro kv' _
    by_cases hkey : kv'.key = kv.key
    · simp [hkey, (hmem r kv hkv).2]
    · simp [hkey]
  have hgroups : ∀ r, (group_by (sort.sort (share r))).Perm
      (((share r).map KeyValue.key).dedup.map fun k =>
        (k, ((sort.sort (share r)).filter fun kv => kv.key = k).map KeyValue.value)) := by
    intro r
    refine (group_by_sorted_perm (sort.sorted (share r))).trans (List.Perm.map _ ?_)
    exact ((sort.perm (share r)).map KeyValue.key).dedup
  let outs : Nat → List KeyValue := fun r =>
    (group_by (sort.sort (share r))).map fun g => ⟨g.1, f g.1 g.2 aux⟩
  have houts : ∀ r, (outs r).Perm (((share r).map KeyValue.key).dedup.map fun k =>
      ⟨k, f k (values_of m aux tasks k) aux⟩) := by
    intro r
    refine ((hgroups r).map _).trans (List.Perm.of_eq ?_)
    rw [List.map_map]
    apply List.map_congr_left
    intro k hk
    rcases List.mem_map.1 (List.mem_dedup.1 hk) with ⟨kv, hkv, rfl⟩
    exact congrArg _ (hvalues r kv hkv)
  have hout_mem : ∀ r, ∀ kv ∈ outs r, ∃ kv' ∈ share r, kv.key = kv'.key ∧
      kv.value = f kv'.key (values_of m aux tasks kv'.key) aux := by
    intro r kv hkv
    rcases List.mem_map.1 ((houts r).mem_iff.1 hkv) with ⟨k, hk, rfl⟩
    rcases List.mem_map.1 (List.mem_dedup.1 hk) with ⟨kv', hkv', rfl⟩
    exact ⟨kv', hkv', rfl, rfl⟩
  refine ⟨outs, fun r hr => ?_, ?_, ?_⟩
  · have hread := @read_buckets_ok _ _ _ _ _ workers' order _
      (fun t ht => hserved t (hperm.mem_iff.1 ht) r hr) (fun kv hkv => hsized kv (hall.mem_iff.1 hkv))
    have hsend : ∀ g ∈ group_by (sort.sort (share r)),
        (⟨g.1, f g.1 g.2 aux⟩ : KeyValue).Sized := by
      intro g hg
      rcases hout_mem r _ (List.mem_map_of_mem hg) with ⟨kv', hkv', hkey, hvalue⟩
      have hin := (hmem r kv' hkv').1
      exact ⟨hkey ▸ (hsized kv' hin).1, hvalue ▸ hresult kv' hin⟩
    rw [reduce, hread]
    exact write_groups_ok hsend []
  · refine (List.Perm.flatMap_left _ (fun r _ => houts r)).trans ?_
    rw [← List.map_flatMap]
    refine List.Perm.map _ ?_
    refine (buckets_dedup_perm (fun _ => Nat.mod_lt _ hn) (map_outputs m aux order)).trans ?_
    exact (hall.map KeyValue.key).dedup
  · intro r _ kv hkv
    rcases hout_mem r kv hkv with ⟨kv', hkv', hkey, _⟩
    rw [hkey]
    exact (hmem r kv' hkv').2

instance (a b : Bytes) : Decidable (key_le a b) :=
  inferInstanceAs (Decidable (a.map UInt8.toNat ≤ b.map UInt8.toNat))

/-- A sort that behaves as `sort_unstable_by_key` is documented to. -/
def SortUnstable.merge : SortUnstable where
  sort l := l.mergeSort fun a b => key_le a.key b.key
  perm l := List.mergeSort_perm l _
  sorted l := by
    refine (List.pairwise_mergeSort ?_ ?_ l).imp (fun hle => of_decide_eq_true hle)
    · intro a b c hab hbc
      exact decide_eq_true (le_trans (of_decide_eq_true hab) (of_decide_eq_true hbc))
    · intro a b
      simp only [Bool.or_eq_true, decide_eq_true_eq]
      exact le_total _ _

/-- A map task on worker 0, and a worker that has no buffers yet. -/
def single_task : MapTask := ⟨0, 0, [], []⟩

def idle_worker : WorkerState := ⟨fun _ => none⟩

/-- The letters of two files, counted by two map tasks on different workers and two reduce tasks. -/
theorem outputs_correct_letters :
    OutputsCorrect (fun key => (key.map UInt8.toNat).sum) SortUnstable.merge
      (fun kv _ => kv.value.map fun letter => ⟨[letter], [1]⟩)
      (fun _ values _ => le_bytes 1 values.length) [] 0 2
      [⟨0, 0, [102], [97, 98, 97]⟩, ⟨1, 1, [103], [98, 99]⟩] (fun _ => idle_worker) := by
  refine outputs_correct _ _ _ _ _ _ _ (by decide) (by decide) ?_ ?_ ?_
  · intro key vs vs' hperm
    rw [hperm.length_eq]
  · intro kv hkv
    rw [map_outputs, List.mem_flatMap] at hkv
    rcases hkv with ⟨t, _, hkv⟩
    rcases List.mem_map.1 hkv with ⟨letter, _, rfl⟩
    have hone : 1 ≤ U32_MAX := by decide
    exact ⟨hone, hone⟩
  · intro kv _
    rw [length_le_bytes]
    decide

/-- A map function that emits a key of 2^32 bytes makes its worker panic. -/
theorem long_key_panics :
    ¬ OutputsCorrect (fun _ => 0) SortUnstable.merge
      (fun _ _ => [⟨List.replicate (U32_MAX + 1) 0, []⟩])
      (fun _ values _ => le_bytes 1 values.length) [] 0 1 [single_task] (fun _ => idle_worker) := by
  rintro ⟨workers', hrun, _⟩
  have hlong : U32_MAX < (List.replicate (U32_MAX + 1) (0 : UInt8)).length := by
    rw [List.length_replicate]
    exact Nat.lt_succ_self _
  generalize List.replicate (U32_MAX + 1) (0 : UInt8) = key at hrun hlong
  have hitem : send_item (fun _ => 0) 1 (fun _ => []) (some ⟨key, []⟩) = .error .panic := by
    have hsend : send [] key = .error .panic := send_panics hlong
    simp only [send_item, if_neg Nat.one_ne_zero, hsend]
    rfl
  have hmap : map (fun _ => 0) (App.ofFunctions (fun _ _ => [⟨key, []⟩])
      (fun _ values _ => le_bytes 1 values.length)) 0 0 1 [] (some []) [] idle_worker =
        .error .panic := by
    simp only [map, App.ofFunctions, List.map_cons, List.map_nil, List.foldlM_cons, hitem]
    rfl
  rw [run_maps, List.foldlM_cons] at hrun
  simp only [single_task, hmap] at hrun
  cases hrun

end Berk162.MapReduceRs
