import Berk162.MapReduce.ReduceTask

/-!
# Job — a whole job of the C workers

The intermediate files of a job are those that `handle_map_task` writes for each input; reduce task
`r` reads the `r`-th file of each.  `job_correct_iff` says when the output files together hold one
pair per key.
-/

namespace Berk162.MapReduce

/-- An input of a job: the name of the file and its contents. -/
structure Input where
  file : SizedBuffer
  contents : SizedBuffer

section

variable (qsort : Qsort) (app : App) (aux : SizedBuffer) (n_reduce : Nat) (inputs : List Input)

/-- The pairs that the map functions emit, over all inputs. -/
def emitted : List KeyValue :=
  inputs.flatMap fun i => map_file i.file i.contents app.map aux

/-- The intermediate files of reduce task `r`, one per map task. -/
def intermediate (r : Nat) : List (Option Bytes) :=
  inputs.map fun i =>
    (handle_map_task (some app) n_reduce (fun _ => true) i.file (some i.contents) aux).map
      fun files => files r

/-- Every reduce task succeeds, and the output files together hold exactly one pair per key that was
emitted: the result of the application's reduce function on the pairs emitted for the key, in some
order. -/
def JobCorrect : Prop :=
  ∃ outs : Nat → List KeyValue,
    (∀ r < n_reduce, handle_reduce_task qsort app aux (intermediate app aux n_reduce inputs r) true =
      (0, some (file_of (outs r)))) ∧
    ∃ order : SizedBuffer → List KeyValue,
      (∀ k, (order k).Perm ((emitted app aux inputs).filter fun kv => kv.key = k)) ∧
      ((List.range n_reduce).flatMap outs).Perm
        (((emitted app aux inputs).map KeyValue.key).dedup.map fun k => app.reduce k (order k) aux)

/-- No two different keys that go to the same reduce task compare equal. -/
def KeysApart : Prop :=
  ∀ kv₁ ∈ emitted app aux inputs, ∀ kv₂ ∈ emitted app aux inputs,
    ihash kv₁.key % n_reduce = ihash kv₂.key % n_reduce → by_key kv₁ kv₂ = 0 → kv₁.key = kv₂.key

/-- The pairs that go to reduce task `r`. -/
def share (r : Nat) : List KeyValue :=
  (emitted app aux inputs).filter fun kv => ihash kv.key % n_reduce = r

end

/-! ## The intermediate files -/

theorem write_map_kvs_eq (n_reduce : Nat) (kvs : List KeyValue) (written : Nat → List KeyValue)
    (r : Nat) :
    write_map_kvs n_reduce (fun i => file_of (written i)) kvs r =
      file_of (written r ++ kvs.filter fun kv => ihash kv.key % n_reduce = r) := by
  induction kvs generalizing written with
  | nil =>
      rw [List.filter_nil, List.append_nil]
      rfl
  | cons kv kvs ih =>
      have hstep : Function.update (fun i => file_of (written i)) (ihash kv.key % n_reduce)
          (ldw_write (ldw_write (file_of (written (ihash kv.key % n_reduce))) kv.key) kv.value) =
            fun i => file_of (Function.update written (ihash kv.key % n_reduce)
              (written (ihash kv.key % n_reduce) ++ [kv]) i) := by
        funext i
        by_cases hi : i = ihash kv.key % n_reduce
        · subst hi
          rw [Function.update_self, Function.update_self, ldw_write_pair]
        · rw [Function.update_of_ne hi, Function.update_of_ne hi]
      rw [write_map_kvs, List.foldl_cons]
      refine (congrFun (congrArg (fun w => kvs.foldl _ w) hstep) r).trans ?_
      refine (ih _).trans ?_
      by_cases hr : ihash kv.key % n_reduce = r
      · subst hr
        simp
      · rw [Function.update_of_ne (fun h => hr h.symm), List.filter_cons_of_neg (by simpa using hr)]

variable {qsort : Qsort} {app : App} {aux : SizedBuffer} {n_reduce : Nat} {inputs : List Input}

theorem intermediate_eq (r : Nat) :
    intermediate app aux n_reduce inputs r =
      ((inputs.map fun i => (map_file i.file i.contents app.map aux).filter fun kv =>
        ihash kv.key % n_reduce = r).map file_of).map some := by
  rw [List.map_map, List.map_map, intermediate]
  apply List.map_congr_left
  intro i _
  have hall : (List.range n_reduce).all (fun _ => true) = true := by simp
  have hfile := write_map_kvs_eq n_reduce (map_file i.file i.contents app.map aux) (fun _ => []) r
  simp only [handle_map_task, Option.bind_eq_bind, Option.bind_some, if_pos hall, Option.pure_def,
    Option.map_some, Function.comp_apply]
  rw [List.nil_append] at hfile
  exact congrArg some hfile

theorem flatten_shares (r : Nat) :
    (inputs.map fun i => (map_file i.file i.contents app.map aux).filter fun kv =>
      ihash kv.key % n_reduce = r).flatten = share app aux n_reduce inputs r := by
  rw [share, emitted, List.filter_flatMap, List.flatMap_def]

theorem mem_share {r : Nat} {kv : KeyValue} :
    kv ∈ share app aux n_reduce inputs r ↔
      kv ∈ emitted app aux inputs ∧ ihash kv.key % n_reduce = r := by
  simp [share]

/-- The output of reduce task `r`. -/
theorem reduce_task_share (hshort : ∀ kv ∈ emitted app aux inputs, kv.Short) (r : Nat) :
    handle_reduce_task qsort app aux (intermediate app aux n_reduce inputs r) true =
      (0, some (file_of (reduced qsort app aux (share app aux n_reduce inputs r)))) := by
  have hflat := @flatten_shares app aux n_reduce inputs r
  rw [intermediate_eq, ← flatten_shares]
  apply reduce_task_output
  rw [hflat]
  exact fun kv hkv => hshort kv (mem_share.1 hkv).1

/-! ## One reduce task -/

section

variable {kvs : List KeyValue}

theorem sorted_by_rank (qsort : Qsort) (hshort : ∀ kv ∈ kvs, kv.Short) :
    (qsort.sort by_key kvs).Pairwise fun a b => key_rank a ≤ key_rank b := by
  have hmem := fun kv => (qsort.perm by_key kvs).mem_iff (a := kv)
  refine (qsort.sorted by_key kvs (consistent_by_key hshort)).imp_of_mem ?_
  intro a b ha hb hle
  exact (by_key_le_zero_iff (hshort a ((hmem a).1 ha)) (hshort b ((hmem b).1 hb))).1 hle

/-- A reduce task writes one pair per class of keys that compare equal. -/
theorem length_reduced (hshort : ∀ kv ∈ kvs, kv.Short) :
    (reduced qsort app aux kvs).length = (kvs.map key_rank).dedup.length := by
  have hruns := runs_perm_of_sorted (sorted_by_rank qsort hshort)
  have hone : ∀ g ∈ runs key_rank (qsort.sort by_key kvs),
      (reduce_run app.reduce aux g).length = 1 := by
    intro g hg
    rcases List.mem_map.1 (hruns.mem_iff.1 hg) with ⟨ρ, hρ, rfl⟩
    rcases List.mem_map.1 (List.mem_dedup.1 hρ) with ⟨kv, hkv, hrank⟩
    cases hgroup : (qsort.sort by_key kvs).filter (fun b => key_rank b = ρ) with
    | nil =>
        exact absurd (List.filter_eq_nil_iff.1 hgroup kv hkv) (by simpa using hrank)
    | cons a g =>
        rfl
  have hkeys := ((qsort.perm by_key kvs).map key_rank).dedup.length_eq
  rw [reduced, List.length_flatMap, List.map_congr_left hone, List.map_const', List.sum_replicate,
    hruns.length_eq, List.length_map, hkeys, smul_eq_mul, mul_one]

/-- A reduce task whose keys do not collide writes, for each key, the result of `reduce` on the
pairs with that key. -/
theorem reduced_perm (hshort : ∀ kv ∈ kvs, kv.Short)
    (hapart : ∀ kv₁ ∈ kvs, ∀ kv₂ ∈ kvs, key_rank kv₁ = key_rank kv₂ → kv₁.key = kv₂.key) :
    (reduced qsort app aux kvs).Perm ((kvs.map KeyValue.key).dedup.map fun k =>
      app.reduce k ((qsort.sort by_key kvs).filter fun kv => kv.key = k) aux) := by
  have hperm := qsort.perm by_key kvs
  generalize hsort : qsort.sort by_key kvs = l at hperm
  have hrank : l.map key_rank = (l.map KeyValue.key).map rank := by
    rw [List.map_map]
    rfl
  have hinj : ∀ k₁ ∈ l.map KeyValue.key, ∀ k₂ ∈ l.map KeyValue.key,
      rank k₁ = rank k₂ → k₁ = k₂ := by
    intro k₁ hk₁ k₂ hk₂ heq
    rcases List.mem_map.1 hk₁ with ⟨kv₁, hkv₁, rfl⟩
    rcases List.mem_map.1 hk₂ with ⟨kv₂, hkv₂, rfl⟩
    exact hapart kv₁ (hperm.mem_iff.1 hkv₁) kv₂ (hperm.mem_iff.1 hkv₂) heq
  -- the group of a key, cut out by its rank, holds the pairs with that key
  have hgroup : ∀ k ∈ (l.map KeyValue.key).dedup,
      reduce_run app.reduce aux (l.filter fun kv => key_rank kv = rank k) =
        [app.reduce k (l.filter fun kv => kv.key = k) aux] := by
    intro k hk
    have hk' := List.mem_dedup.1 hk
    have hfilter : l.filter (fun kv => key_rank kv = rank k) = l.filter fun kv => kv.key = k := by
      apply List.filter_congr
      intro kv hkv
      simp only [decide_eq_decide]
      exact ⟨fun h => hinj kv.key (List.mem_map_of_mem hkv) k hk' h, fun h => by rw [key_rank, h]⟩
    rw [hfilter]
    rcases List.mem_map.1 hk' with ⟨kv, hkv, hkvk⟩
    cases hg : l.filter (fun kv => kv.key = k) with
    | nil =>
        exact absurd (List.filter_eq_nil_iff.1 hg kv hkv) (by simpa using hkvk)
    | cons a g =>
        have ha : a ∈ l.filter fun kv => kv.key = k := by
          rw [hg]
          exact List.mem_cons_self
        have hak : a.key = k := by simpa using (List.mem_filter.1 ha).2
        rw [reduce_run, hak]
  have hsorted := sorted_by_rank qsort hshort
  rw [hsort] at hsorted
  have hruns : (runs key_rank l).Perm
      ((l.map KeyValue.key).dedup.map fun k => l.filter fun kv => key_rank kv = rank k) := by
    have hded := dedup_map_perm hinj
    rw [← hrank] at hded
    have hall := (runs_perm_of_sorted hsorted).trans (hded.map _)
    rwa [List.map_map] at hall
  have hkeys : (l.map KeyValue.key).dedup.Perm (kvs.map KeyValue.key).dedup :=
    (hperm.map KeyValue.key).dedup
  rw [reduced, hsort]
  refine (hruns.flatMap_right (reduce_run app.reduce aux)).trans ?_
  rw [List.flatMap_map]
  refine List.Perm.trans ?_ (hkeys.map _)
  rw [List.flatMap_congr hgroup, ← List.map_eq_flatMap]

end

/-! ## The whole job -/

/-- The keys of a bucket have no more ranks than there are keys, and as many only if no two of them
collide. -/
theorem ranks_le (kvs : List KeyValue) :
    (kvs.map key_rank).dedup.length ≤ (kvs.map KeyValue.key).dedup.length ∧
      ((kvs.map key_rank).dedup.length = (kvs.map KeyValue.key).dedup.length →
        ∀ kv₁ ∈ kvs, ∀ kv₂ ∈ kvs, key_rank kv₁ = key_rank kv₂ → kv₁.key = kv₂.key) := by
  have himage : (kvs.map key_rank).toFinset = (kvs.map KeyValue.key).toFinset.image rank := by
    ext ρ
    simp [key_rank]
  rw [← List.card_toFinset, ← List.card_toFinset, himage]
  refine ⟨Finset.card_image_le, fun hcard kv₁ h₁ kv₂ h₂ heq => ?_⟩
  have hinj := Finset.card_image_iff.1 hcard
  exact hinj (by simpa using ⟨kv₁, h₁, rfl⟩) (by simpa using ⟨kv₂, h₂, rfl⟩) heq

/-- The keys of all reduce tasks together are those that were emitted. -/
theorem shares_keys (app : App) (aux : SizedBuffer) {n_reduce : Nat} (inputs : List Input)
    (hn : 0 < n_reduce) :
    ((List.range n_reduce).flatMap fun r =>
      ((share app aux n_reduce inputs r).map KeyValue.key).dedup).Perm
        ((emitted app aux inputs).map KeyValue.key).dedup :=
  buckets_dedup_perm (fun _ => Nat.mod_lt _ hn) (emitted app aux inputs)

theorem share_short (hshort : ∀ kv ∈ emitted app aux inputs, kv.Short) (r : Nat) :
    ∀ kv ∈ share app aux n_reduce inputs r, kv.Short :=
  fun kv hkv => hshort kv (mem_share.1 hkv).1

theorem JobCorrect.keysApart (hn : 0 < n_reduce)
    (hshort : ∀ kv ∈ emitted app aux inputs, kv.Short)
    (h : JobCorrect qsort app aux n_reduce inputs) : KeysApart app aux n_reduce inputs := by
  have hkeys := shares_keys app aux inputs hn
  have hshare := @share_short _ _ n_reduce _ hshort
  rcases h with ⟨outs, htasks, order, _, hperm⟩
  intro kv₁ h₁ kv₂ h₂ hhash hequal
  have houts : ∀ r ∈ List.range n_reduce,
      outs r = reduced qsort app aux (share app aux n_reduce inputs r) := by
    intro r hr
    have htask := htasks r (List.mem_range.1 hr)
    rw [reduce_task_share hshort r] at htask
    exact file_of_injective (Option.some.inj (Prod.mk.inj htask).2).symm
  -- one result per key in all, and at most one per key in each task, so one per key in each
  have hlen := hperm.length_eq
  rw [List.length_map, ← hkeys.length_eq, List.flatMap_congr houts, List.length_flatMap,
    List.length_flatMap] at hlen
  have htask : ∀ r ∈ Finset.range n_reduce,
      (reduced qsort app aux (share app aux n_reduce inputs r)).length =
        ((share app aux n_reduce inputs r).map KeyValue.key).dedup.length := by
    apply (Finset.sum_eq_sum_iff_of_le ?_).1
    · exact hlen
    · intro r _
      rw [length_reduced (hshare r)]
      exact (ranks_le _).1
  have hr : ihash kv₁.key % n_reduce ∈ Finset.range n_reduce :=
    Finset.mem_range.2 (Nat.mod_lt _ hn)
  have hcount := htask _ hr
  rw [length_reduced (hshare _)] at hcount
  have hrank := (by_key_eq_zero_iff (hshort kv₁ h₁) (hshort kv₂ h₂)).1 hequal
  exact (ranks_le _).2 hcount kv₁ (mem_share.2 ⟨h₁, rfl⟩) kv₂ (mem_share.2 ⟨h₂, hhash.symm⟩) hrank

theorem KeysApart.jobCorrect (qsort : Qsort) (hn : 0 < n_reduce)
    (hshort : ∀ kv ∈ emitted app aux inputs, kv.Short)
    (hapart : KeysApart app aux n_reduce inputs) : JobCorrect qsort app aux n_reduce inputs := by
  have hkeys := shares_keys app aux inputs hn
  have hshare := @share_short _ _ n_reduce _ hshort
  let order : SizedBuffer → List KeyValue := fun k =>
    (qsort.sort by_key (share app aux n_reduce inputs (ihash k % n_reduce))).filter
      fun kv => kv.key = k
  refine ⟨fun r => reduced qsort app aux (share app aux n_reduce inputs r),
    fun r _ => reduce_task_share hshort r, order, fun k => ?_, ?_⟩
  · refine ((qsort.perm by_key _).filter _).trans ?_
    rw [share, List.filter_filter]
    refine List.Perm.of_eq (List.filter_congr fun kv _ => ?_)
    by_cases hk : kv.key = k
    · simp [hk]
    · simp [hk]
  · have htask : ∀ r ∈ List.range n_reduce,
        (reduced qsort app aux (share app aux n_reduce inputs r)).Perm
          (((share app aux n_reduce inputs r).map KeyValue.key).dedup.map fun k =>
            app.reduce k (order k) aux) := by
      intro r _
      have hap : ∀ kv₁ ∈ share app aux n_reduce inputs r,
          ∀ kv₂ ∈ share app aux n_reduce inputs r,
            key_rank kv₁ = key_rank kv₂ → kv₁.key = kv₂.key := by
        intro kv₁ h₁ kv₂ h₂ heq
        rcases mem_share.1 h₁ with ⟨he₁, hr₁⟩
        rcases mem_share.1 h₂ with ⟨he₂, hr₂⟩
        exact hapart kv₁ he₁ kv₂ he₂ (hr₁.trans hr₂.symm)
          ((by_key_eq_zero_iff (hshort kv₁ he₁) (hshort kv₂ he₂)).2 heq)
      refine (reduced_perm (hshare r) hap).trans (List.Perm.of_eq ?_)
      apply List.map_congr_left
      intro k hk
      rcases List.mem_map.1 (List.mem_dedup.1 hk) with ⟨kv, hkv, rfl⟩
      simp only [order, (mem_share.1 hkv).2]
    refine (List.Perm.flatMap_left _ htask).trans ?_
    rw [← List.map_flatMap]
    exact hkeys.map _

/-- The output files of a job hold one pair per key, the result of `reduce` on all the pairs of the
key, exactly when no two different keys of one reduce task compare equal. -/
theorem job_correct_iff (qsort : Qsort) (app : App) (aux : SizedBuffer) {n_reduce : Nat}
    (inputs : List Input) (hn : 0 < n_reduce)
    (hshort : ∀ kv ∈ emitted app aux inputs, kv.Short) :
    JobCorrect qsort app aux n_reduce inputs ↔ KeysApart app aux n_reduce inputs :=
  ⟨fun h => h.keysApart hn hshort, fun h => h.jobCorrect qsort hn hshort⟩

/-- The keys of `vertex_degree` are short, whatever the inputs. -/
theorem emitted_vertex_degree_short (aux : SizedBuffer) (inputs : List Input) :
    ∀ kv ∈ emitted vertex_degree aux inputs, kv.Short := by
  intro kv hkv
  rcases List.mem_flatMap.1 hkv with ⟨i, _, hkv⟩
  rcases List.mem_flatMap.1 hkv with ⟨p, _, hkv⟩
  have hlen : kv.key.bytes.length = 4 := by
    rcases List.mem_cons.1 hkv with rfl | hkv
    · exact length_int_buffer p.1
    · rw [List.mem_singleton.1 hkv]
      exact length_int_buffer p.2
  rw [KeyValue.Short, hlen]
  decide

/-- The edge `0 256`, as an input of `vertex_degree`. -/
def edge_input : Input where
  file := int_buffer 0
  contents := ⟨[48, 32, 50, 53, 54], by decide⟩

theorem emitted_edge_input (aux : SizedBuffer) :
    emitted vertex_degree aux [edge_input] =
      [⟨int_buffer 0, int_buffer 1⟩, ⟨int_buffer 256, int_buffer 1⟩] := by
  have hpair : get_pair [48, 32, 50, 53, 54] = some ((0, 256), []) := by decide +kernel
  have hend : get_pair [] = none := by decide +kernel
  have hpairs : get_pairs [48, 32, 50, 53, 54] = [(0, 256)] := by
    rw [get_pairs_of_some hpair, get_pairs_of_none hend]
  have hmap : emitted vertex_degree aux [edge_input] =
      (get_pairs [48, 32, 50, 53, 54]).flatMap fun p =>
        [⟨int_buffer p.1, int_buffer 1⟩, ⟨int_buffer p.2, int_buffer 1⟩] := by
    rw [emitted, List.flatMap_cons, List.flatMap_nil, List.append_nil]
    rfl
  rw [hmap, hpairs]
  rfl

theorem job_correct_iff_edge :
    JobCorrect Qsort.merge vertex_degree (int_buffer 0) 1 [edge_input] ↔
      KeysApart vertex_degree (int_buffer 0) 1 [edge_input] :=
  job_correct_iff Qsort.merge vertex_degree (int_buffer 0) [edge_input] Nat.one_pos
    (emitted_vertex_degree_short _ _)

/-- The vertices 0 and 256 are counted as one. -/
theorem job_merges_vertices :
    ¬ JobCorrect Qsort.merge vertex_degree (int_buffer 0) 1 [edge_input] := by
  intro h
  have hapart := h.keysApart Nat.one_pos (emitted_vertex_degree_short _ _)
  rw [KeysApart, emitted_edge_input] at hapart
  have heq := hapart ⟨int_buffer 0, int_buffer 1⟩ (by simp) ⟨int_buffer 256, int_buffer 1⟩ (by simp)
    (by rw [Nat.mod_one, Nat.mod_one]) (by decide)
  exact absurd heq (by decide)

end Berk162.MapReduce
