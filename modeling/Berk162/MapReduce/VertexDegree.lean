import Berk162.Lib.CText
import Berk162.MapReduce.TaskHandler

/-!
# VertexDegree — the application `vertex_degree`, `hw-map-reduce/app/vertex_degree`

The input is a list of edges, two decimal numbers each.  The map function emits a pair for each end
of an edge, whose key is the number as the four bytes of an `int`; the reduce function adds up the
values.
-/

namespace Berk162.MapReduce

/-- A string of at most four bytes, as a buffer. -/
def small_buffer (bs : Bytes) (h : bs.length ≤ 4) : SizedBuffer :=
  ⟨bs, lt_of_le_of_lt h (by decide)⟩

/-- A buffer with the bytes of an `int`. -/
def int_buffer (x : Int) : SizedBuffer :=
  small_buffer (le_bytes 4 (to_size x)) (by rw [length_le_bytes])

theorem length_int_buffer (x : Int) : (int_buffer x).bytes.length = 4 := length_le_bytes 4 _

/-- `*((int*) buffer)` -/
def int_of_buffer (buf : SizedBuffer) : Int := int32 (le_val (buf.bytes.take 4))

/-! ## `strtol` with an end pointer -/

/-- What follows a sign at the start of the string. -/
def after_sign (s : Bytes) : Bytes :=
  if s.head? = some 45 ∨ s.head? = some 43 then s.tail else s

/-- `strtol (s, &next, 10)`: the value and `next`; `none` when there is nothing to convert, and
`next` is `s`. -/
def strtol_next (s : Bytes) : Option (Int × Bytes) :=
  let t := after_sign (s.dropWhile isspace)
  if t.takeWhile isdigit = [] then none else some (strtol s, t.dropWhile isdigit)

theorem length_after_sign_le (s : Bytes) : (after_sign s).length ≤ s.length := by
  unfold after_sign
  split
  · exact (List.length_tail ..).trans_le (Nat.sub_le _ _)
  · exact le_refl _

/-- A conversion reads at least one character. -/
theorem strtol_next_shrinks {s rest : Bytes} {x : Int} (h : strtol_next s = some (x, rest)) :
    rest.length < s.length := by
  simp only [strtol_next] at h
  split_ifs at h with hds
  cases h
  generalize ht : after_sign (s.dropWhile isspace) = t at hds ⊢
  have htake : 0 < (t.takeWhile isdigit).length := List.length_pos_iff.2 hds
  have hsum := congrArg List.length (List.takeWhile_append_dropWhile (p := isdigit) (l := t))
  have hspace := (List.dropWhile_suffix (p := isspace) (l := s)).length_le
  have hsign := length_after_sign_le (s.dropWhile isspace)
  rw [List.length_append] at hsum
  rw [ht] at hsign
  omega

/-! ## The application -/

/-- `get_pair`: two numbers, converted to `int`. -/
def get_pair (contents : Bytes) : Option ((Int × Int) × Bytes) := do
  let (a, next) ← strtol_next contents
  let (b, next) ← strtol_next next
  return ((int32 a, int32 b), next)

theorem get_pair_shrinks {contents rest : Bytes} {p : Int × Int}
    (h : get_pair contents = some (p, rest)) : rest.length < contents.length := by
  rw [get_pair] at h
  rcases Option.bind_eq_some_iff.1 h with ⟨⟨a, s⟩, ha, h⟩
  rcases Option.bind_eq_some_iff.1 h with ⟨⟨b, t⟩, hb, h⟩
  cases h
  exact lt_trans (strtol_next_shrinks hb) (strtol_next_shrinks ha)

def get_pairs (contents : Bytes) : List (Int × Int) :=
  match h : get_pair contents with
  | none => []
  | some (p, rest) =>
      have : rest.length < contents.length := get_pair_shrinks h
      p :: get_pairs rest
termination_by contents.length

theorem get_pairs_of_some {contents rest : Bytes} {p : Int × Int}
    (h : get_pair contents = some (p, rest)) : get_pairs contents = p :: get_pairs rest := by
  rw [get_pairs]
  split
  · rename_i hnone
    rw [h] at hnone
    cases hnone
  · rename_i hsome
    rw [h] at hsome
    cases hsome
    rfl

theorem get_pairs_of_none {contents : Bytes} (h : get_pair contents = none) :
    get_pairs contents = [] := by
  rw [get_pairs]
  split
  · rfl
  · rename_i hsome
    rw [h] at hsome
    cases hsome

/-- `vertex_degree_map`; the contents are read up to the first null character. -/
def vertex_degree_map (input : KeyValue) (_aux : SizedBuffer) : List KeyValue :=
  (get_pairs (c_chars input.value.bytes)).flatMap fun p =>
    [⟨int_buffer p.1, int_buffer 1⟩, ⟨int_buffer p.2, int_buffer 1⟩]

def vertex_degree_reduce (key : SizedBuffer) (input : List KeyValue) (_aux : SizedBuffer) :
    KeyValue :=
  let count := input.foldl (fun count kv => int32 (count + int_of_buffer kv.value)) 0
  ⟨key, int_buffer count⟩

def vertex_degree : App where
  map := vertex_degree_map
  reduce := vertex_degree_reduce

end Berk162.MapReduce
