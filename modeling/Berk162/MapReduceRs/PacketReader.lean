import Berk162.MapReduceRs.Packets

/-!
# PacketReader — `codec/mod.rs`, over whole buffers

A reader is called until it returns `None`.  It gets there without a panic just on the buffers that
a writer has made.
-/

namespace Berk162.MapReduceRs

/-- A writer to which packets are sent, and its buffer. -/
def write_packets (packets : List Bytes) : Result Bytes := packets.foldlM send []

/-- `next`, as a step of the reader, whose buffer is kept. -/
def next (buf : Bytes) : Result (Option Bytes × Bytes) := do
  match ← reader_next buf with
  | none => return (none, buf)
  | some (chunk, rest) => return (some chunk, rest)

/-- What `n` calls of `next` return. -/
def calls : Nat → Bytes → Result (List (Option Bytes))
  | 0, _ => return []
  | n + 1, buf => do
      let (packet, buf) ← next buf
      return packet :: (← calls n buf)

/-- The packets that a loop over the reader sees. -/
def read_all (buf : Bytes) : Result (List Bytes) :=
  match h : reader_next buf with
  | .error e => .error e
  | .ok none => .ok []
  | .ok (some (chunk, rest)) =>
      have : rest.length < buf.length := reader_next_shrinks h
      (read_all rest).map (chunk :: ·)
termination_by buf.length

variable {buf rest : Bytes} {ps : List Bytes}

/-! ## One packet -/

theorem reader_next_none_iff : reader_next buf = .ok none ↔ buf = [] := by
  constructor
  · intro h
    by_contra hnil
    simp only [reader_next, if_neg hnil] at h
    split_ifs at h with hshort hlen
    cases h
  · rintro rfl
    exact reader_next_nil

theorem reader_next_some_iff {p : Bytes} :
    reader_next buf = .ok (some (p, rest)) ↔ p.length ≤ U32_MAX ∧ buf = ldc.frame p ++ rest := by
  constructor
  · intro h
    have hnext : ldc.next buf = some (p, rest) := by
      simp only [reader_next] at h
      split_ifs at h with hnil hshort hlen <;> cases h
      have hwidth : (buf.take 4).length = 4 := by
        rw [List.length_take]
        omega
      -- every number of four bytes is a length
      have hlimit : get_u32 (buf.take 4) < U32_MAX + 1 := by
        have hlt := le_val_lt (buf.take 4).reverse
        rwa [List.length_reverse, hwidth] at hlt
      have hfits : ¬ (buf.length < 4 ∨ U32_MAX + 1 ≤ get_u32 (buf.take 4) ∨
          (buf.drop 4).length < get_u32 (buf.take 4)) := by omega
      exact if_neg hfits
    obtain ⟨hp, hbuf⟩ := Header.next_eq_some_iff.1 hnext
    exact ⟨Nat.le_of_lt_succ hp, hbuf⟩
  · rintro ⟨hp, rfl⟩
    exact reader_next_frame hp rest

/-! ## Whole buffers -/

theorem write_packets_append (packets : List Bytes) (buf : Bytes) :
    packets.foldlM send buf =
      if ∀ p ∈ packets, p.length ≤ U32_MAX then .ok (buf ++ ldc.encode packets)
      else .error .panic := by
  induction packets generalizing buf with
  | nil =>
      rw [if_pos (fun p hp => absurd hp List.not_mem_nil), Header.encode_nil, List.append_nil]
      rfl
  | cons p packets ih =>
      rw [List.foldlM_cons]
      by_cases hp : p.length ≤ U32_MAX
      · rw [send_eq hp]
        change packets.foldlM send (buf ++ ldc.frame p) = _
        rw [ih]
        simp only [List.forall_mem_cons, hp, true_and, Header.encode_cons, List.append_assoc]
      · rw [send_panics (Nat.lt_of_not_le hp), if_neg fun h => hp (h p List.mem_cons_self)]
        rfl

theorem write_packets_eq_ok_iff :
    write_packets ps = .ok buf ↔ (∀ p ∈ ps, p.length ≤ U32_MAX) ∧ ldc.encode ps = buf := by
  rw [write_packets, write_packets_append, List.nil_append]
  split
  · next h => rw [Except.ok.injEq, and_iff_right h]
  · next h => exact iff_of_false (fun hok => by cases hok) fun hok => h hok.1

theorem read_all_of_error {e : Stop} (h : reader_next buf = .error e) :
    read_all buf = .error e := by
  rw [read_all]
  split
  · next herr =>
    rw [h] at herr
    cases herr
    rfl
  · next hnone =>
    rw [h] at hnone
    cases hnone
  · next hsome =>
    rw [h] at hsome
    cases hsome

theorem read_all_nil : read_all [] = .ok [] := by
  rw [read_all]
  split
  · next herr =>
    rw [reader_next_nil] at herr
    cases herr
  · rfl
  · next hsome =>
    rw [reader_next_nil] at hsome
    cases hsome

theorem read_all_of_some {p : Bytes} (h : reader_next buf = .ok (some (p, rest))) :
    read_all buf = (read_all rest).map (p :: ·) := by
  rw [read_all]
  split
  · next herr =>
    rw [h] at herr
    cases herr
  · next hnone =>
    rw [h] at hnone
    cases hnone
  · next hsome =>
    rw [h] at hsome
    cases hsome
    rfl

/-- The loop sees the packets that make up the buffer. -/
theorem read_all_encode (h : ∀ p ∈ ps, p.length ≤ U32_MAX) : read_all (ldc.encode ps) = .ok ps := by
  induction ps with
  | nil => exact read_all_nil
  | cons p ps ih =>
      obtain ⟨hp, hps⟩ := List.forall_mem_cons.1 h
      rw [Header.encode_cons, read_all_of_some (reader_next_frame hp _), ih hps]
      rfl

/-- It sees nothing else. -/
theorem write_of_read_all (h : read_all buf = .ok ps) : write_packets ps = .ok buf := by
  rw [write_packets_eq_ok_iff]
  induction ps generalizing buf with
  | nil =>
      -- only a reader that sees nothing gives no packet
      refine ⟨fun p hp => absurd hp List.not_mem_nil, ?_⟩
      cases hnext : reader_next buf with
      | error e =>
          rw [read_all_of_error hnext] at h
          cases h
      | ok r =>
          cases r with
          | none => exact (reader_next_none_iff.1 hnext).symm
          | some r =>
              rw [read_all_of_some hnext] at h
              cases hrest : read_all r.2 <;> rw [hrest] at h <;> cases h
  | cons p ps ih =>
      cases hnext : reader_next buf with
      | error e =>
          rw [read_all_of_error hnext] at h
          cases h
      | ok r =>
          cases r with
          | none =>
              rw [reader_next_none_iff.1 hnext, read_all_nil] at h
              cases h
          | some r =>
              -- the first packet with its header, and then the others
              obtain ⟨hchunk, rfl⟩ := reader_next_some_iff.1 hnext
              rw [read_all_of_some hnext] at h
              cases hrest : read_all r.2 with
              | error e =>
                  rw [hrest] at h
                  cases h
              | ok packets =>
                  rw [hrest] at h
                  cases h
                  obtain ⟨hps, hencode⟩ := ih hrest
                  exact ⟨List.forall_mem_cons.2 ⟨hchunk, hps⟩, by rw [Header.encode_cons, hencode]⟩

theorem read_all_eq_ok_iff : read_all buf = .ok ps ↔ write_packets ps = .ok buf := by
  constructor
  · exact write_of_read_all
  · intro h
    obtain ⟨hps, rfl⟩ := write_packets_eq_ok_iff.1 h
    exact read_all_encode hps

/-! ## Calls -/

theorem calls_succ {r : Option Bytes} (h : next buf = .ok (r, rest)) (n : Nat) :
    calls (n + 1) buf = (calls n rest).map (r :: ·) := by
  rw [calls, h]
  change (calls n rest).bind _ = _
  cases calls n rest <;> rfl

theorem next_nil : next [] = .ok (none, []) := by
  rw [next, reader_next_nil]
  rfl

theorem next_frame {p : Bytes} (h : p.length ≤ U32_MAX) (rest : Bytes) :
    next (ldc.frame p ++ rest) = .ok (some p, rest) := by
  rw [next, reader_next_frame h]
  rfl

/-- One call after the other: the packets, and then `None`. -/
theorem calls_encode (h : ∀ p ∈ ps, p.length ≤ U32_MAX) (n : Nat) :
    calls n (ldc.encode ps) = .ok ((List.range n).map fun i => ps[i]?) := by
  induction n generalizing ps with
  | zero => rfl
  | succ n ih =>
      rw [List.range_succ_eq_map, List.map_cons, List.map_map]
      cases ps with
      | nil =>
          rw [Header.encode_nil, calls_succ next_nil, ← ldc.encode_nil, ih h]
          rfl
      | cons p ps =>
          obtain ⟨hp, hps⟩ := List.forall_mem_cons.1 h
          rw [Header.encode_cons, calls_succ (next_frame hp _), ih hps]
          rfl

/-- What is written is read, packet by packet, and `None` ever after.  A buffer is read to its end just
if a writer can have made it; the packets read make it again. -/
theorem packets_round_trip :
    (∀ ps : List Bytes, (∀ p ∈ ps, p.length ≤ U32_MAX) → ∃ buf, write_packets ps = .ok buf ∧
        ∀ n, calls n buf = .ok ((List.range n).map fun i => ps[i]?)) ∧
      ∀ buf : Bytes, ((∃ ps, read_all buf = .ok ps) ↔ ∃ ps, write_packets ps = .ok buf) ∧
        ∀ ps, read_all buf = .ok ps → write_packets ps = .ok buf := by
  refine ⟨fun ps hps => ⟨ldc.encode ps, ?_, calls_encode hps⟩, fun buf => ⟨?_, fun ps => ?_⟩⟩
  · exact write_packets_eq_ok_iff.2 ⟨hps, rfl⟩
  · exact exists_congr fun ps => read_all_eq_ok_iff
  · exact write_of_read_all

theorem packets_round_trip_two :
    (∃ buf, write_packets [[1], []] = .ok buf ∧
      ∀ n, calls n buf = .ok ((List.range n).map fun i => [[1], []][i]?)) ∧
      write_packets [[1]] = .ok [0, 0, 0, 1, 1] :=
  ⟨packets_round_trip.1 [[1], []] (by decide),
    (packets_round_trip.2 [0, 0, 0, 1, 1]).2 [[1]] (by
      rw [read_all_eq_ok_iff]
      rfl)⟩

end Berk162.MapReduceRs
