import Berk162.Lib.Runs
import Berk162.MapReduce.ByKey
import Berk162.MapReduce.Codec
import Berk162.MapReduce.VertexDegree

/-!
# ReduceTask — when a reduce task refuses its input, and what it computes

* `reduce_rejects_malformed_iff` — when a reduce task refuses a file that is not whole;
* `reduce_task_output` — the output file holds one result per run of equal keys of the sorted pairs.
-/

namespace Berk162.MapReduce

/-! ## The status of a reduce task -/

/-- The file holds a whole number of pairs. -/
def Whole (file : Bytes) : Prop := ∃ kvs : List KeyValue, file = file_of kvs

/-- The number of complete entries at the start of a file. -/
def complete_entries : Option Bytes → Nat
  | none => 0
  | some file => (ldw.decode file).1.length

theorem exists_some_files {files : List (Option Bytes)} (h : none ∉ files) :
    ∃ readers : List Bytes, files = readers.map some := by
  induction files with
  | nil =>
      exact ⟨[], rfl⟩
  | cons f files ih =>
      rw [List.mem_cons, not_or] at h
      rcases ih h.2 with ⟨readers, rfl⟩
      cases f with
      | none =>
          exact absurd rfl h.1
      | some f =>
          exact ⟨f :: readers, rfl⟩

/-- The task returns 0 when all files can be opened and the number of entries, summed over the
files, is even. -/
theorem reduce_status_eq_zero_iff (qsort : Qsort) (app : App) (aux : SizedBuffer)
    (files : List (Option Bytes)) (writable : Bool) :
    (handle_reduce_task qsort app aux files writable).1 = 0 ↔
      none ∉ files ∧ (files.map complete_entries).sum % 2 = 0 ∧ writable = true := by
  by_cases hnone : none ∈ files
  · rw [handle_reduce_task, open_reduce_readers_none hnone]
    simp [hnone]
  · rcases exists_some_files hnone with ⟨readers, rfl⟩
    have hsum : ((readers.map some).map complete_entries).sum = (readers.map ldr_count).sum := by
      rw [List.map_map]
      congr 1
      apply List.map_congr_left
      intro f _
      exact (ldr_count_eq f).symm
    rw [handle_reduce_task, open_reduce_readers_some, hsum]
    simp only [hnone, not_false_eq_true, true_and]
    by_cases hodd : (readers.map ldr_count).sum % 2 = 1
    · rw [if_pos hodd]
      simp [hodd]
    · have heven : (readers.map ldr_count).sum % 2 = 0 := by omega
      rw [if_neg hodd]
      cases writable with
      | false =>
          simp
      | true =>
          by_cases hlen : (readers.map ldr_count).sum / 2 > 0
          · simp [heven, hlen]
          · simp [heven, hlen]

/-- A reduce task refuses its input when a file is not whole: this is so exactly when every file is
whole, or the damage leaves an odd number of entries in all files together. -/
theorem reduce_rejects_malformed_iff (qsort : Qsort) (app : App) (aux : SizedBuffer)
    (files : List (Option Bytes)) (writable : Bool) :
    ((∃ file, some file ∈ files ∧ ¬ Whole file) →
        (handle_reduce_task qsort app aux files writable).1 ≠ 0) ↔
      (∀ file, some file ∈ files → Whole file) ∨ none ∈ files ∨ writable = false ∨
        (files.map complete_entries).sum % 2 = 1 := by
  rw [ne_eq, reduce_status_eq_zero_iff]
  constructor
  · intro h
    by_cases hwhole : ∀ file, some file ∈ files → Whole file
    · exact Or.inl hwhole
    · right
      push Not at hwhole
      have hstatus := h hwhole
      by_contra hcon
      rw [not_or, not_or] at hcon
      rcases hcon with ⟨hnone, hwritable, heven⟩
      exact hstatus ⟨hnone, by omega, by simpa using hwritable⟩
  · rintro (hwhole | hnone | hwritable | hodd) ⟨file, hmem, hdamaged⟩ ⟨hopen, heven, hok⟩
    · exact hdamaged (hwhole file hmem)
    · exact hopen hnone
    · rw [hwritable] at hok
      cases hok
    · omega

/-- One pair, and three bytes of the length of another entry. -/
def truncated_file : Bytes := file_of [⟨int_buffer 7, int_buffer 1⟩] ++ [0, 0, 0]

theorem truncated_file_decode :
    ldw.decode truncated_file = ([(int_buffer 7).bytes, (int_buffer 1).bytes], [0, 0, 0]) := by
  have hrest : ldw.decode [0, 0, 0] = ([], [0, 0, 0]) := Header.decode_of_none rfl
  rw [truncated_file, file_of, Header.decode_encode_append (entries_lt _), hrest]
  rfl

theorem truncated_file_accepted :
    ¬ ((∃ file, some file ∈ [some truncated_file] ∧ ¬ Whole file) →
      (handle_reduce_task Qsort.merge vertex_degree (int_buffer 0) [some truncated_file] true).1
        ≠ 0) := by
  intro h
  refine h ⟨truncated_file, List.mem_cons_self, ?_⟩ ?_
  · rintro ⟨kvs, hkvs⟩
    have hdecode := congrArg (fun f => (ldw.decode f).2) hkvs
    simp only [truncated_file_decode, file_of, Header.decode_encode (entries_lt kvs)] at hdecode
    cases hdecode
  · rw [reduce_status_eq_zero_iff]
    simp [complete_entries, truncated_file_decode]

/-! ## The loop of `reduce_kvs` -/

/-- What `by_key` sees of a pair. -/
def key_rank (kv : KeyValue) : Lex (List Nat × Nat) := rank kv.key

section

variable (reduce : SizedBuffer → List KeyValue → SizedBuffer → KeyValue) (aux : SizedBuffer)

/-- The result of one group: the key passed to `reduce` is that of its first pair. -/
def reduce_run : List KeyValue → List KeyValue
  | [] => []
  | kv :: g => [reduce kv.key (kv :: g) aux]

/-- The pairs from `p1` up to `p2`. -/
theorem group_slice (a : KeyValue) (pre seg rest : List KeyValue) :
    ((pre ++ a :: (seg ++ rest)).drop pre.length).take
      (pre.length + 1 + seg.length - pre.length) = a :: seg := by
  have hlen : pre.length + 1 + seg.length - pre.length = (a :: seg).length := by
    rw [List.length_cons]
    omega
  rw [List.drop_left, hlen, ← List.cons_append, List.take_left]

/-- The loop, with `p1` at `a`, when it has found `seg` to have the key of `a`, and `rest` is still
to be looked at. -/
theorem reduce_loop_append {a : KeyValue} {pre seg rest : List KeyValue}
    (hshort : ∀ kv ∈ pre ++ a :: (seg ++ rest), kv.Short)
    (hseg : ∀ b ∈ seg, key_rank b = key_rank a) (done : List KeyValue) :
    reduce_loop reduce aux (pre ++ a :: (seg ++ rest)) pre.length (pre.length + 1 + seg.length)
        (file_of done) =
      file_of (done ++ (runs key_rank (a :: (seg ++ rest))).flatMap (reduce_run reduce aux)) := by
  induction rest generalizing a pre seg done with
  | nil =>
      have hp1 : pre.length < (pre ++ a :: (seg ++ [])).length := by simp
      have hp2 : pre.length + 1 + seg.length > pre.length := by omega
      have hget1 : (pre ++ a :: (seg ++ []))[pre.length] = a := by simp
      have hend : ¬ pre.length + 1 + seg.length < (pre ++ a :: (seg ++ [])).length := by
        simp only [List.length_append, List.length_cons, List.length_nil]
        omega
      have hruns : runs key_rank (a :: (seg ++ [])) = [a :: seg] := by
        rw [runs_cons_append hseg, List.takeWhile_nil, List.dropWhile_nil, List.append_nil, runs_nil]
      rw [reduce_loop, dif_pos hp1, dif_neg hend, reduce_loop, dif_neg hend, if_pos hp2,
        group_slice, hget1, hruns]
      exact ldw_write_pair done _
  | cons b rest ih =>
      have hp1 : pre.length < (pre ++ a :: (seg ++ b :: rest)).length := by simp
      have hp2 : pre.length + 1 + seg.length > pre.length := by omega
      have hget1 : (pre ++ a :: (seg ++ b :: rest))[pre.length] = a := by simp
      have hp2' : pre.length + 1 + seg.length < (pre ++ a :: (seg ++ b :: rest)).length := by
        simp only [List.length_append, List.length_cons]
        omega
      have hget2 : (pre ++ a :: (seg ++ b :: rest))[pre.length + 1 + seg.length] = b := by
        rw [List.getElem_append_right (by omega)]
        have hidx : pre.length + 1 + seg.length - pre.length = seg.length + 1 := by omega
        simp [hidx]
      have ha : a.Short := hshort a (by simp)
      have hb : b.Short := hshort b (by simp)
      rw [reduce_loop, dif_pos hp1, dif_pos hp2', hget1, hget2]
      by_cases hkey : key_rank b = key_rank a
      · -- `b` joins the group
        have hzero : by_key a b = 0 := (by_key_eq_zero_iff ha hb).2 hkey.symm
        have hseg' : ∀ c ∈ seg ++ [b], key_rank c = key_rank a := by
          intro c hc
          rcases List.mem_append.1 hc with hc | hc
          · exact hseg c hc
          · rw [List.mem_singleton.1 hc, hkey]
        have hlist : seg ++ b :: rest = (seg ++ [b]) ++ rest := by simp
        have hnext : pre.length + 1 + seg.length + 1 = pre.length + 1 + (seg ++ [b]).length := by
          simp [Nat.add_assoc]
        rw [if_neg (not_not.2 hzero), hnext]
        simp only [hlist] at hshort ⊢
        exact ih hshort hseg' done
      · -- the group ends before `b`, which starts the next one
        have hne : by_key a b ≠ 0 := fun h => hkey ((by_key_eq_zero_iff ha hb).1 h).symm
        have hlist : pre ++ a :: (seg ++ b :: rest) = (pre ++ a :: seg) ++ b :: ([] ++ rest) := by
          simp
        have hnext : pre.length + 1 + seg.length = (pre ++ a :: seg).length := by
          rw [List.length_append, List.length_cons]
          omega
        have hruns : runs key_rank (a :: (seg ++ b :: rest)) =
            (a :: seg) :: runs key_rank (b :: ([] ++ rest)) := by
          rw [runs_cons_append hseg, List.takeWhile_cons_of_neg (by simpa using hkey),
            List.dropWhile_cons_of_neg (by simpa using hkey), List.append_nil, List.nil_append]
        rw [if_pos hne, if_pos hp2, group_slice, hruns, List.flatMap_cons, ← List.append_assoc]
        simp only [hlist] at hshort ⊢
        rw [hnext]
        simp only [ldw_write_pair]
        exact ih hshort (List.forall_mem_nil _) (done ++ [reduce a.key (a :: seg) aux])

end

/-! ## The output file -/

/-- The pairs in the output file of a reduce task that reads the pairs `kvs`. -/
def reduced (qsort : Qsort) (app : App) (aux : SizedBuffer) (kvs : List KeyValue) : List KeyValue :=
  (runs key_rank (qsort.sort by_key kvs)).flatMap (reduce_run app.reduce aux)

theorem reduce_kvs_eq (qsort : Qsort) (app : App) (aux : SizedBuffer) {kvs : List KeyValue}
    (hshort : ∀ kv ∈ kvs, kv.Short) :
    reduce_kvs qsort app.reduce aux kvs [] = file_of (reduced qsort app aux kvs) := by
  have hsorted : ∀ kv ∈ qsort.sort by_key kvs, kv.Short :=
    fun kv hkv => hshort kv ((qsort.perm by_key kvs).mem_iff.1 hkv)
  rw [reduce_kvs, reduced]
  cases hsort : qsort.sort by_key kvs with
  | nil =>
      rw [reduce_loop, dif_neg (by simp), runs_nil]
      rfl
  | cons a rest =>
      rw [hsort] at hsorted
      exact @reduce_loop_append app.reduce aux a [] [] rest hsorted (List.forall_mem_nil _) []

/-- A reduce task over files of pairs. -/
theorem reduce_task_output (qsort : Qsort) (app : App) (aux : SizedBuffer)
    {ls : List (List KeyValue)} (hshort : ∀ kv ∈ ls.flatten, kv.Short) :
    handle_reduce_task qsort app aux ((ls.map file_of).map some) true =
      (0, some (file_of (reduced qsort app aux ls.flatten))) := by
  have hcount : ((ls.map file_of).map ldr_count).sum = 2 * ls.flatten.length := by
    rw [List.map_map]
    clear hshort
    induction ls with
    | nil =>
        rfl
    | cons l ls ih =>
        rw [List.map_cons, List.sum_cons, ih, List.flatten_cons, List.length_append,
          Function.comp_apply, ldr_count_file_of]
        omega
  have heven : ¬ 2 * ls.flatten.length % 2 = 1 := by omega
  have hhalf : 2 * ls.flatten.length / 2 = ls.flatten.length := by omega
  rw [handle_reduce_task, open_reduce_readers_some, hcount]
  simp only [hhalf, if_neg heven]
  by_cases hlen : ls.flatten.length > 0
  · rw [if_pos hlen, read_map_kvs_file_of (le_refl _), reduce_kvs_eq qsort app aux hshort]
    rfl
  · have hnil : ls.flatten = [] := List.length_eq_zero_iff.1 (Nat.eq_zero_of_not_pos hlen)
    have hsort : qsort.sort by_key [] = [] := (qsort.perm by_key []).eq_nil
    rw [if_neg hlen, hnil, reduced, hsort, runs_nil]
    rfl

end Berk162.MapReduce
