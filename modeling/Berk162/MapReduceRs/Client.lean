import Berk162.MapReduceRs.Packets

/-!
# Client — `postprocess_job` of `hw-map-reduce-rs/src/client.rs`

The client reads the output files with a decoder of another library, and hands the pairs to the
application.  The decoder is a parameter with its documented behaviour: it reads the packets of
`LengthDelimitedWriter`, but refuses a length over 8 MiB.
-/

namespace Berk162.MapReduceRs

/-- The default `max_frame_length` of the decoder. -/
def MAX_FRAME_LENGTH : Nat := 8 * 1024 * 1024

/-- `LengthDelimitedCodec::new ()` over a file: `next` returns the next frame or an error, `none` at
the end of the file, and what is left to read. -/
structure LengthDelimitedCodec where
  next : Bytes → Option (Except Unit Bytes) × Bytes
  next_nil : next [] = (none, [])
  next_frame : ∀ p rest : Bytes, p.length ≤ MAX_FRAME_LENGTH →
    next (put_u32 p.length ++ (p ++ rest)) = (some (.ok p), rest)
  next_too_long : ∀ (n : Nat) (rest : Bytes), MAX_FRAME_LENGTH < n → n ≤ U32_MAX →
    (next (put_u32 n ++ rest)).1 = some (.error ())
  next_shrinks : ∀ (file p rest : Bytes), next file = (some (.ok p), rest) →
    rest.length < file.length

/-- The loop of `postprocess_job` over the frames of one file; `none` is an error. -/
def read_frames (codec : LengthDelimitedCodec) (transport : Bytes) (intermediate : List KeyValue) :
    Option (List KeyValue) :=
  match hkey : codec.next transport with
  | (none, _) => some intermediate
  | (some (.error _), _) => none
  | (some (.ok key), rest) =>
      match hvalue : codec.next rest with
      | (none, _) => some intermediate
      | (some (.error _), _) => none
      | (some (.ok value), rest') =>
          have : rest'.length < transport.length :=
            lt_trans (codec.next_shrinks _ _ _ hvalue) (codec.next_shrinks _ _ _ hkey)
          read_frames codec rest' (intermediate ++ [⟨key, value⟩])
termination_by transport.length

/-- `postprocess_job`; `files` are the output files of the reduce tasks, `none` for one that cannot be
opened, and `process_output_fn` is that of the application. -/
def postprocess_job (codec : LengthDelimitedCodec)
    (process_output_fn : List KeyValue → Option String) (files : List (Option Bytes)) :
    Option String := do
  let intermediate ← files.foldlM
    (fun intermediate file => do
      let transport ← file
      read_frames codec transport intermediate)
    []
  process_output_fn intermediate

/-- The output file of a reduce task that writes the pairs `kvs`. -/
def write_output (kvs : List KeyValue) : Result Bytes := kvs.foldlM send_kv []

/-! ## What the writer writes -/

theorem send_kv_ok_iff {written kvs : List KeyValue} {kv : KeyValue} {file : Bytes} :
    (send_kv (packets written) kv >>= fun writer => kvs.foldlM send_kv writer) = .ok file ↔
      kv.Sized ∧ kvs.foldlM send_kv (packets (written ++ [kv])) = .ok file := by
  constructor
  · intro h
    by_cases hkey : kv.key.length ≤ U32_MAX
    · by_cases hvalue : kv.value.length ≤ U32_MAX
      · rw [send_pair ⟨hkey, hvalue⟩] at h
        exact ⟨⟨hkey, hvalue⟩, h⟩
      · rw [send_kv, send_eq hkey] at h
        simp only [send_panics (Nat.not_le.1 hvalue)] at h
        cases h
    · rw [send_kv, send_panics (Nat.not_le.1 hkey)] at h
      cases h
  · rintro ⟨hkv, h⟩
    rw [send_pair hkv]
    exact h

/-- The writer accepts exactly the pairs whose packets have a length of 32 bits. -/
theorem write_output_ok_iff {kvs : List KeyValue} {file : Bytes} :
    write_output kvs = .ok file ↔ (∀ kv ∈ kvs, kv.Sized) ∧ file = packets kvs := by
  have hrun : ∀ (kvs written : List KeyValue),
      kvs.foldlM send_kv (packets written) = .ok file ↔
        (∀ kv ∈ kvs, kv.Sized) ∧ file = packets (written ++ kvs) := by
    intro kvs
    induction kvs with
    | nil =>
        intro written
        rw [List.append_nil]
        constructor
        · intro h
          cases h
          exact ⟨List.forall_mem_nil _, rfl⟩
        · rintro ⟨_, rfl⟩
          rfl
    | cons kv kvs ih =>
        intro written
        rw [List.foldlM_cons, send_kv_ok_iff, ih, List.forall_mem_cons, and_assoc, List.append_assoc]
        rfl
  exact hrun kvs []

/-! ## What the decoder reads -/

/-- A pair whose packets the decoder accepts. -/
def KeyValue.Decodable (kv : KeyValue) : Prop :=
  kv.key.length ≤ MAX_FRAME_LENGTH ∧ kv.value.length ≤ MAX_FRAME_LENGTH

section

variable (codec : LengthDelimitedCodec)

theorem next_packet {p : Bytes} (h : p.length ≤ MAX_FRAME_LENGTH) (rest : Bytes) :
    codec.next (ldc.frame p ++ rest) = (some (.ok p), rest) := by
  rw [Header.frame, List.append_assoc]
  exact codec.next_frame p rest h

theorem next_long_packet {p : Bytes} (hmax : MAX_FRAME_LENGTH < p.length)
    (hsized : p.length ≤ U32_MAX) (rest : Bytes) :
    (codec.next (ldc.frame p ++ rest)).1 = some (.error ()) := by
  rw [Header.frame, List.append_assoc]
  exact codec.next_too_long p.length (p ++ rest) hmax hsized

theorem read_frames_nil (intermediate : List KeyValue) :
    read_frames codec [] intermediate = some intermediate := by
  rw [read_frames]
  split
  · rfl
  · rename_i herr
    rw [codec.next_nil] at herr
    cases herr
  · rename_i hsome
    rw [codec.next_nil] at hsome
    cases hsome

/-- A pair that the decoder accepts is read. -/
theorem read_frames_cons {kv : KeyValue} (h : kv.Decodable) (l intermediate : List KeyValue) :
    read_frames codec (packets (kv :: l)) intermediate =
      read_frames codec (packets l) (intermediate ++ [kv]) := by
  have hkey := next_packet codec h.1 (ldc.frame kv.value ++ packets l)
  have hvalue := next_packet codec h.2 (packets l)
  rw [packets_cons, read_frames]
  split
  · rename_i hnone
    rw [hkey] at hnone
    cases hnone
  · rename_i herr
    rw [hkey] at herr
    cases herr
  · rename_i hsome
    rw [hkey] at hsome
    cases hsome
    split
    · rename_i hnone
      rw [hvalue] at hnone
      cases hnone
    · rename_i herr
      rw [hvalue] at herr
      cases herr
    · rename_i hsome'
      rw [hvalue] at hsome'
      cases hsome'
      rfl

/-- A pair with a packet that is too long ends the reading with an error. -/
theorem read_frames_long {kv : KeyValue} (hsized : kv.Sized) (h : ¬ kv.Decodable)
    (l intermediate : List KeyValue) :
    read_frames codec (packets (kv :: l)) intermediate = none := by
  rw [packets_cons, read_frames]
  by_cases hkeymax : kv.key.length ≤ MAX_FRAME_LENGTH
  · have hkey := next_packet codec hkeymax (ldc.frame kv.value ++ packets l)
    have hvaluemax : MAX_FRAME_LENGTH < kv.value.length :=
      Nat.not_le.1 fun hle => h ⟨hkeymax, hle⟩
    have hvalue := next_long_packet codec hvaluemax hsized.2 (packets l)
    split
    · rename_i hnone
      rw [hkey] at hnone
      cases hnone
    · rfl
    · rename_i hsome
      rw [hkey] at hsome
      cases hsome
      split
      · rename_i hnone
        rw [hnone] at hvalue
        cases hvalue
      · rfl
      · rename_i hsome'
        rw [hsome'] at hvalue
        cases hvalue
  · have hkey := next_long_packet codec (Nat.not_le.1 hkeymax) hsized.1
      (ldc.frame kv.value ++ packets l)
    split
    · rename_i hnone
      rw [hnone] at hkey
      cases hkey
    · rfl
    · rename_i hsome
      rw [hsome] at hkey
      cases hkey

/-- A file of pairs is read whole, or not at all. -/
theorem read_frames_packets {l : List KeyValue} (hsized : ∀ kv ∈ l, kv.Sized)
    (intermediate : List KeyValue) :
    ((∀ kv ∈ l, kv.Decodable) →
      read_frames codec (packets l) intermediate = some (intermediate ++ l)) ∧
    (¬ (∀ kv ∈ l, kv.Decodable) → read_frames codec (packets l) intermediate = none) := by
  induction l generalizing intermediate with
  | nil =>
      refine ⟨fun _ => ?_, fun h => absurd (List.forall_mem_nil _) h⟩
      rw [packets_nil, read_frames_nil, List.append_nil]
  | cons kv l ih =>
      rcases List.forall_mem_cons.1 hsized with ⟨hkv, hl⟩
      by_cases hdec : kv.Decodable
      · rcases ih hl (intermediate ++ [kv]) with ⟨hall, hnot⟩
        rw [read_frames_cons codec hdec, List.forall_mem_cons]
        refine ⟨fun h => ?_, fun h => hnot fun hrest => h ⟨hdec, hrest⟩⟩
        rw [hall h.2, List.append_assoc]
        rfl
      · rw [read_frames_long codec hkv hdec, List.forall_mem_cons]
        exact ⟨fun h => absurd h.1 hdec, fun _ => rfl⟩

/-- The loop over the files of a job. -/
theorem read_files_packets {outputs : List (List KeyValue)}
    (hsized : ∀ kvs ∈ outputs, ∀ kv ∈ kvs, kv.Sized) (intermediate : List KeyValue) :
    ((∀ kvs ∈ outputs, ∀ kv ∈ kvs, kv.Decodable) →
      ((outputs.map packets).map some).foldlM
        (fun intermediate (file : Option Bytes) => do
          let transport ← file
          read_frames codec transport intermediate)
        intermediate = some (intermediate ++ outputs.flatten)) ∧
    (¬ (∀ kvs ∈ outputs, ∀ kv ∈ kvs, kv.Decodable) →
      ((outputs.map packets).map some).foldlM
        (fun intermediate (file : Option Bytes) => do
          let transport ← file
          read_frames codec transport intermediate)
        intermediate = none) := by
  induction outputs generalizing intermediate with
  | nil =>
      refine ⟨fun _ => ?_, fun h => absurd (List.forall_mem_nil _) h⟩
      rw [List.flatten_nil, List.append_nil]
      rfl
  | cons kvs outputs ih =>
      rcases List.forall_mem_cons.1 hsized with ⟨hkvs, houtputs⟩
      rcases read_frames_packets codec hkvs intermediate with ⟨hread, hfail⟩
      rw [List.map_cons, List.map_cons, List.foldlM_cons, List.forall_mem_cons, List.flatten_cons]
      simp only [Option.bind_eq_bind, Option.bind_some]
      by_cases hdec : ∀ kv ∈ kvs, kv.Decodable
      · rcases ih houtputs (intermediate ++ kvs) with ⟨hall, hnot⟩
        simp only [Option.bind_eq_bind] at hall hnot
        rw [hread hdec, Option.bind_some]
        refine ⟨fun h => ?_, fun h => hnot fun hrest => h ⟨hdec, hrest⟩⟩
        rw [hall h.2, List.append_assoc]
      · rw [hfail hdec, Option.bind_none]
        exact ⟨fun h => absurd h.1 hdec, fun _ => rfl⟩

/-- `postprocess_job` hands exactly the pairs that the reduce tasks wrote to the application, in
order, when no packet is longer than the decoder's limit, and only then. -/
theorem postprocess_job_reads_iff {outputs : List (List KeyValue)} {files : List Bytes}
    (hwritten : List.Forall₂ (fun kvs file => write_output kvs = .ok file) outputs files) :
    (∀ process_output_fn, postprocess_job codec process_output_fn (files.map some) =
        process_output_fn outputs.flatten) ↔
      ∀ kvs ∈ outputs, ∀ kv ∈ kvs, kv.key.length ≤ MAX_FRAME_LENGTH ∧
        kv.value.length ≤ MAX_FRAME_LENGTH := by
  have hfiles : (∀ kvs ∈ outputs, ∀ kv ∈ kvs, kv.Sized) ∧ files = outputs.map packets := by
    induction hwritten with
    | nil =>
        exact ⟨List.forall_mem_nil _, rfl⟩
    | cons hfile _ ih =>
        rcases write_output_ok_iff.1 hfile with ⟨hsized, rfl⟩
        exact ⟨List.forall_mem_cons.2 ⟨hsized, ih.1⟩, by rw [ih.2, List.map_cons]⟩
  rcases hfiles with ⟨hsized, rfl⟩
  rcases read_files_packets codec hsized [] with ⟨hread, hfail⟩
  constructor
  · intro h
    by_contra hdec
    have hok := h fun _ => some ""
    rw [postprocess_job, hfail hdec] at hok
    cases hok
  · intro hdec process_output_fn
    rw [postprocess_job, hread hdec, List.nil_append]
    rfl

end

/-- A decoder that behaves as `LengthDelimitedCodec::new ()` is documented to. -/
def LengthDelimitedCodec.tokio : LengthDelimitedCodec where
  next file :=
    if file = [] then (none, [])
    else if file.length < 4 then (some (.error ()), [])
    else if MAX_FRAME_LENGTH < get_u32 (file.take 4) then (some (.error ()), file.drop 4)
    else if (file.drop 4).length < get_u32 (file.take 4) then (some (.error ()), [])
    else (some (.ok ((file.drop 4).take (get_u32 (file.take 4)))),
      (file.drop 4).drop (get_u32 (file.take 4)))
  next_nil := if_pos rfl
  next_frame p rest h := by
    have hput : (put_u32 p.length).length = 4 := ldc.length_put p.length
    have htake : (put_u32 p.length ++ (p ++ rest)).take 4 = put_u32 p.length := List.take_left' hput
    have hdrop : (put_u32 p.length ++ (p ++ rest)).drop 4 = p ++ rest := List.drop_left' hput
    have hget : get_u32 (put_u32 p.length) = p.length :=
      ldc.get_put p.length (lt_of_le_of_lt h (by decide))
    have hne : put_u32 p.length ++ (p ++ rest) ≠ [] := by
      intro hnil
      rw [(List.append_eq_nil_iff.1 hnil).1] at hput
      cases hput
    have hlen : ¬ (put_u32 p.length ++ (p ++ rest)).length < 4 := by
      rw [List.length_append, hput]
      omega
    have hfits : ¬ (p ++ rest).length < p.length := by
      rw [List.length_append]
      omega
    rw [if_neg hne, if_neg hlen, htake, hdrop, hget, if_neg (Nat.not_lt.2 h), if_neg hfits,
      List.take_left, List.drop_left]
  next_too_long n rest hmax hn := by
    have hput : (put_u32 n).length = 4 := ldc.length_put n
    have htake : (put_u32 n ++ rest).take 4 = put_u32 n := List.take_left' hput
    have hget : get_u32 (put_u32 n) = n := ldc.get_put n (Nat.lt_succ_of_le hn)
    have hne : put_u32 n ++ rest ≠ [] := by
      intro hnil
      rw [(List.append_eq_nil_iff.1 hnil).1] at hput
      cases hput
    have hlen : ¬ (put_u32 n ++ rest).length < 4 := by
      rw [List.length_append, hput]
      omega
    rw [if_neg hne, if_neg hlen, htake, hget, if_pos hmax]
  next_shrinks file p rest h := by
    split_ifs at h with hnil hshort hmax hlen <;> cases h
    rw [List.length_drop, List.length_drop]
    omega

theorem postprocess_job_reads_iff_pair :
    (∀ process_output_fn,
      postprocess_job LengthDelimitedCodec.tokio process_output_fn
          ([packets [⟨[1], [2, 3]⟩]].map some) = process_output_fn [[⟨[1], [2, 3]⟩]].flatten) ↔
      ∀ kvs ∈ [[(⟨[1], [2, 3]⟩ : KeyValue)]], ∀ kv ∈ kvs, kv.key.length ≤ MAX_FRAME_LENGTH ∧
        kv.value.length ≤ MAX_FRAME_LENGTH := by
  refine postprocess_job_reads_iff LengthDelimitedCodec.tokio (List.Forall₂.cons ?_ .nil)
  refine write_output_ok_iff.2 ⟨fun kv hkv => ?_, rfl⟩
  rw [List.mem_singleton.1 hkv]
  exact ⟨by decide, by decide⟩

theorem long_value_unread {value : Bytes} (hmax : MAX_FRAME_LENGTH < value.length)
    (hsized : value.length ≤ U32_MAX) :
    ∃ file, write_output [⟨[], value⟩] = .ok file ∧
      ¬ ∀ process_output_fn, postprocess_job LengthDelimitedCodec.tokio process_output_fn
          [some file] = process_output_fn [⟨[], value⟩] := by
  have hkv : (⟨[], value⟩ : KeyValue).Sized := ⟨Nat.zero_le _, hsized⟩
  have hlong : ¬ (⟨[], value⟩ : KeyValue).Decodable := fun h => Nat.not_lt.2 h.2 hmax
  refine ⟨packets [⟨[], value⟩], write_output_ok_iff.2 ⟨?_, rfl⟩, fun h => ?_⟩
  · intro kv hmem
    rw [List.mem_singleton.1 hmem]
    exact hkv
  · have hread := read_frames_long LengthDelimitedCodec.tokio hkv hlong [] []
    have hok := h fun _ => some ""
    simp only [postprocess_job, List.foldlM_cons, Option.bind_eq_bind, Option.bind_some, hread,
      Option.bind_none] at hok
    cases hok

/-- A value of one byte more than 8 MiB is written, and not read back. -/
theorem long_value_lost :
    ∃ file, write_output [⟨[], List.replicate (MAX_FRAME_LENGTH + 1) 0⟩] = .ok file ∧
      ¬ ∀ process_output_fn, postprocess_job LengthDelimitedCodec.tokio process_output_fn
          [some file] = process_output_fn [⟨[], List.replicate (MAX_FRAME_LENGTH + 1) 0⟩] := by
  have hlen : (List.replicate (MAX_FRAME_LENGTH + 1) (0 : UInt8)).length = MAX_FRAME_LENGTH + 1 :=
    List.length_replicate
  have hmax : MAX_FRAME_LENGTH < (List.replicate (MAX_FRAME_LENGTH + 1) (0 : UInt8)).length := by
    rw [hlen]
    exact Nat.lt_succ_self MAX_FRAME_LENGTH
  have hsized : (List.replicate (MAX_FRAME_LENGTH + 1) (0 : UInt8)).length ≤ U32_MAX := by
    rw [hlen]
    decide
  exact long_value_unread hmax hsized

end Berk162.MapReduceRs
