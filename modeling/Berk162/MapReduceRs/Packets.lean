import Berk162.Lib.Framing
import Berk162.MapReduceRs.Worker

/-!
# Packets — buffers of length-delimited packets

`LengthDelimitedWriter` writes the stream of `Header.encode` with four-byte lengths, and
`LengthDelimitedReader` reads it back, packets of every length up to `u32::MAX` included.
-/

namespace Berk162.MapReduceRs

/-- The format of `LengthDelimitedWriter`. -/
def ldc : Header := Header.be 4 (U32_MAX + 1) (by decide) (by decide)

theorem get_u32_eq (bs : Bytes) : get_u32 bs = ldc.get bs := rfl

theorem send_eq {buf b : Bytes} (h : b.length ≤ U32_MAX) :
    send buf b = .ok (buf ++ ldc.frame b) :=
  if_pos h

theorem send_panics {buf b : Bytes} (h : U32_MAX < b.length) : send buf b = .error .panic :=
  if_neg (Nat.not_le.2 h)

theorem reader_next_nil : reader_next [] = .ok none := if_pos rfl

/-- The reader finds the packet that the writer has put at the start of the buffer. -/
theorem reader_next_frame {p : Bytes} (h : p.length ≤ U32_MAX) (rest : Bytes) :
    reader_next (ldc.frame p ++ rest) = .ok (some (p, rest)) := by
  have hput : (ldc.put p.length).length = 4 := ldc.length_put p.length
  have hlen : 4 ≤ (ldc.frame p ++ rest).length := by
    rw [List.length_append, Header.frame, List.length_append, hput]
    omega
  have hne : ldc.frame p ++ rest ≠ [] := by
    intro hnil
    rw [hnil] at hlen
    cases hlen
  have htake : (ldc.frame p ++ rest).take 4 = ldc.put p.length := by
    rw [Header.frame, List.append_assoc, List.take_left' hput]
  have hdrop : (ldc.frame p ++ rest).drop 4 = p ++ rest := by
    rw [Header.frame, List.append_assoc, List.drop_left' hput]
  have hfits : ¬ (p ++ rest).length < p.length := by
    rw [List.length_append]
    omega
  simp only [reader_next, htake, hdrop, get_u32_eq]
  rw [if_neg hne, if_neg (Nat.not_lt.2 hlen), ldc.get_put _ (Nat.lt_succ_of_le h), if_neg hfits,
    List.take_left, List.drop_left]

/-! ## Buffers of pairs -/

/-- A pair that the writer accepts. -/
def KeyValue.Sized (kv : KeyValue) : Prop := kv.key.length ≤ U32_MAX ∧ kv.value.length ≤ U32_MAX

/-- The buffer that holds the pairs `kvs`. -/
def packets (kvs : List KeyValue) : Bytes := ldc.encode (kvs.flatMap fun kv => [kv.key, kv.value])

@[simp] theorem packets_nil : packets [] = [] := rfl

theorem packets_cons (kv : KeyValue) (kvs : List KeyValue) :
    packets (kv :: kvs) = ldc.frame kv.key ++ (ldc.frame kv.value ++ packets kvs) := rfl

theorem packets_append (kvs kvs' : List KeyValue) :
    packets (kvs ++ kvs') = packets kvs ++ packets kvs' := by
  rw [packets, List.flatMap_append, Header.encode_append]
  rfl

/-- Two sends add a pair to a buffer of pairs. -/
theorem send_pair {kv : KeyValue} (h : kv.Sized) (kvs : List KeyValue) :
    send_kv (packets kvs) kv = .ok (packets (kvs ++ [kv])) := by
  have hkey : send (packets kvs) kv.key = .ok (packets kvs ++ ldc.frame kv.key) := send_eq h.1
  rw [send_kv, hkey]
  refine (send_eq h.2).trans ?_
  rw [packets_append, packets_cons, packets_nil, List.append_nil, List.append_assoc]

/-- The loop reads the pairs of a buffer, in order. -/
theorem read_packets_packets {l : List KeyValue} (h : ∀ kv ∈ l, kv.Sized)
    (intermediate : List KeyValue) :
    read_packets (packets l) intermediate = .ok (intermediate ++ l) := by
  induction l generalizing intermediate with
  | nil =>
      rw [read_packets]
      split
      · rename_i herr
        rw [packets_nil, reader_next_nil] at herr
        cases herr
      · rw [List.append_nil]
      · rename_i hsome
        rw [packets_nil, reader_next_nil] at hsome
        cases hsome
  | cons kv l ih =>
      rcases List.forall_mem_cons.1 h with ⟨hkv, hl⟩
      have hkey := reader_next_frame hkv.1 (ldc.frame kv.value ++ packets l)
      have hvalue := reader_next_frame hkv.2 (packets l)
      rw [packets_cons, read_packets]
      split
      · rename_i herr
        rw [hkey] at herr
        cases herr
      · rename_i hnone
        rw [hkey] at hnone
        cases hnone
      · rename_i hsome
        rw [hkey] at hsome
        cases hsome
        split
        · rename_i herr
          rw [hvalue] at herr
          cases herr
        · rename_i hnone
          rw [hvalue] at hnone
          cases hnone
        · rename_i hsome'
          rw [hvalue] at hsome'
          cases hsome'
          rw [ih hl, List.append_assoc]
          rfl

end Berk162.MapReduceRs
