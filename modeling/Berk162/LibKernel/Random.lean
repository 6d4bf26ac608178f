import Berk162.Lib.Bytes

/-!
# Random — `lib/random.c`

The generator keeps its bytes `s` and two indices between calls.  A call for bytes that comes
before any seed seeds with 0.
-/

namespace Berk162

/-- The generator's static variables. -/
structure Random where
  s : Vector UInt8 256
  s_i : UInt8
  s_j : UInt8
  inited : Bool

/-- `swap_byte (s + a, s + b)`. -/
def swap_byte (s : Vector UInt8 256) (a b : UInt8) : Vector UInt8 256 :=
  s.swap a.toNat b.toNat a.toNat_lt b.toNat_lt

/-- `seedp[i % sizeof seed]`. -/
def seedp (seed : UInt32) (i : Nat) : UInt8 := (seed >>> UInt32.ofNat (8 * (i % 4))).toUInt8

/-- One round of the second loop of `random_init`, on `s` and `j`. -/
def key_round (seed : UInt32) (k : Vector UInt8 256 × UInt8) (i : Nat) :
    Vector UInt8 256 × UInt8 :=
  let i' := UInt8.ofNat i
  let j := k.2 + (k.1.get i'.toFin + seedp seed i)
  (swap_byte k.1 i' j, j)

def random_init (seed : UInt32) : Random where
  s := ((List.range 256).foldl (key_round seed) (Vector.ofFn fun i => UInt8.ofNat i, 0)).1
  s_i := 0
  s_j := 0
  inited := true

/-- The body of the loop of `random_bytes`: the byte that it stores, and the state after it. -/
def random_byte (r : Random) : UInt8 × Random :=
  let s_i := r.s_i + 1
  let s_j := r.s_j + r.s.get s_i.toFin
  let s := swap_byte r.s s_i s_j
  let s_k := s.get s_i.toFin + s.get s_j.toFin
  (s.get s_k.toFin, { r with s := s, s_i := s_i, s_j := s_j })

/-- The loop of `random_bytes`. -/
def random_loop : Nat → Random → Bytes × Random
  | 0, r => ([], r)
  | size + 1, r =>
      let (c, r) := random_byte r
      let (buf, r) := random_loop size r
      (c :: buf, r)

def random_bytes (r : Random) (size : Nat) : Bytes × Random :=
  random_loop size (if r.inited then r else random_init 0)

/-- Calls of `random_bytes` one after the other: what each of them stores. -/
def random_calls (r : Random) : List Nat → List Bytes
  | [] => []
  | size :: sizes =>
      (random_bytes r size).1 :: random_calls (random_bytes r size).2 sizes

/-! ## How calls follow each other -/

@[simp] theorem random_init_inited (seed : UInt32) : (random_init seed).inited = true := rfl

@[simp] theorem random_byte_inited (r : Random) : (random_byte r).2.inited = r.inited := rfl

@[simp] theorem random_loop_inited (size : Nat) (r : Random) :
    (random_loop size r).2.inited = r.inited := by
  induction size generalizing r with
  | zero =>
      rfl
  | succ size ih =>
      simp [random_loop, ih]

@[simp] theorem random_loop_length (size : Nat) (r : Random) :
    (random_loop size r).1.length = size := by
  induction size generalizing r with
  | zero =>
      rfl
  | succ size ih =>
      simp [random_loop, ih]

/-- The loop for `a + b` bytes is the loop for `a` bytes and from there the loop for `b`. -/
theorem random_loop_add (a b : Nat) (r : Random) :
    random_loop (a + b) r =
      ((random_loop a r).1 ++ (random_loop b (random_loop a r).2).1,
        (random_loop b (random_loop a r).2).2) := by
  induction a generalizing r with
  | zero =>
      simp [random_loop]
  | succ a ih =>
      have hnext := ih (random_byte r).2
      rw [Nat.succ_add]
      simp [random_loop, hnext]

theorem random_bytes_of_inited {r : Random} (h : r.inited = true) (size : Nat) :
    random_bytes r size = random_loop size r := by
  rw [random_bytes, if_pos h]

/-- Calls one after the other store one stream, cut where the calls end. -/
theorem random_calls_flatten {r : Random} (h : r.inited = true) (sizes : List Nat) :
    (random_calls r sizes).flatten = (random_loop sizes.sum r).1 := by
  induction sizes generalizing r with
  | nil =>
      rfl
  | cons size sizes ih =>
      have hnext : (random_loop size r).2.inited = true := by rw [random_loop_inited, h]
      rw [random_calls, List.flatten_cons, random_bytes_of_inited h, ih hnext, List.sum_cons,
        random_loop_add]

theorem random_calls_lengths {r : Random} (h : r.inited = true) (sizes : List Nat) :
    (random_calls r sizes).map List.length = sizes := by
  induction sizes generalizing r with
  | nil =>
      rfl
  | cons size sizes ih =>
      have hnext : (random_loop size r).2.inited = true := by rw [random_loop_inited, h]
      rw [random_calls, List.map_cons, random_bytes_of_inited h, ih hnext, random_loop_length]

/-- Two seeds give the same bytes in every sequence of calls once their streams agree. -/
theorem random_calls_eq_iff {r r' : Random} (h : r.inited = true) (h' : r'.inited = true) :
    (∀ sizes, random_calls r sizes = random_calls r' sizes) ↔
      ∀ size, (random_bytes r size).1 = (random_bytes r' size).1 := by
  constructor
  · intro hcalls size
    have hone := hcalls [size]
    simpa [random_calls] using hone
  · intro hstream sizes
    have hsum := hstream sizes.sum
    rw [random_bytes_of_inited h, random_bytes_of_inited h'] at hsum
    -- the same bytes, cut at the same places
    refine List.eq_iff_flatten_eq.2 ⟨?_, ?_⟩
    · rw [random_calls_flatten h, random_calls_flatten h', hsum]
    · rw [random_calls_lengths h, random_calls_lengths h']

set_option maxRecDepth 100000 in
/-- The seeds 0 and 1 give different bytes, the first one already. -/
theorem random_init_differs :
    (random_bytes (random_init 0) 1).1 ≠ (random_bytes (random_init 1) 1).1 := by
  decide +kernel

/-! ## The state array -/

/-- Every byte value stands in `s` exactly once. -/
def IsPermutation (s : Vector UInt8 256) : Prop :=
  s.toList.Perm ((List.range 256).map UInt8.ofNat)

theorem swap_byte_perm (s : Vector UInt8 256) (a b : UInt8) :
    (swap_byte s a b).toList.Perm s.toList :=
  (Vector.swap_perm a.toNat_lt b.toNat_lt).toList

/-- A swap keeps a permutation, also where both indices are the same one. -/
theorem IsPermutation.swap_byte {s : Vector UInt8 256} (h : IsPermutation s) (a b : UInt8) :
    IsPermutation (swap_byte s a b) :=
  (swap_byte_perm s a b).trans h

/-- `s` and `j` after `rounds` rounds of the second loop of `random_init`. -/
def key_schedule (seed : UInt32) (rounds : Nat) : Vector UInt8 256 × UInt8 :=
  (List.range rounds).foldl (key_round seed) (Vector.ofFn fun i => UInt8.ofNat i, 0)

theorem key_schedule_succ (seed : UInt32) (rounds : Nat) :
    key_schedule seed (rounds + 1) = key_round seed (key_schedule seed rounds) rounds := by
  rw [key_schedule, List.range_succ, List.foldl_append]
  rfl

/-- What the first loop of `random_init` stores. -/
theorem isPermutation_ofFn : IsPermutation (Vector.ofFn fun i => UInt8.ofNat i) := by
  have hfirst : (Vector.ofFn fun i : Fin 256 => UInt8.ofNat i).toList =
      (List.range 256).map UInt8.ofNat := by
    apply List.ext_getElem
    · simp
    · intro i hi hi'
      simp [UInt8.ofNatLT_eq_ofNat]
  rw [IsPermutation, hfirst]

theorem key_schedule_permutes (seed : UInt32) (rounds : Nat) :
    IsPermutation (key_schedule seed rounds).1 := by
  induction rounds with
  | zero =>
      exact isPermutation_ofFn
  | succ rounds ih =>
      rw [key_schedule_succ]
      exact ih.swap_byte _ _

theorem random_init_permutes (seed : UInt32) : IsPermutation (random_init seed).s :=
  key_schedule_permutes seed 256

theorem random_loop_permutes {r : Random} (h : IsPermutation r.s) (size : Nat) :
    IsPermutation (random_loop size r).2.s := by
  induction size generalizing r with
  | zero =>
      exact h
  | succ size ih =>
      -- one byte makes one swap, and the loop goes on from there
      have hbyte : IsPermutation (random_byte r).2.s := h.swap_byte _ _
      exact ih hbyte

/-! ## Sequences of calls -/

/-- The state after calls of `random_bytes` one after the other. -/
def random_after (r : Random) (sizes : List Nat) : Random :=
  sizes.foldl (fun r size => (random_bytes r size).2) r

/-- The static variables before any call: they are zero. -/
def random_boot : Random := ⟨Vector.replicate 256 0, 0, 0, false⟩

/-- A sequence of calls leaves the state that one loop over all its bytes leaves. -/
theorem random_after_eq {r : Random} (h : r.inited = true) (sizes : List Nat) :
    random_after r sizes = (random_loop sizes.sum r).2 := by
  induction sizes generalizing r with
  | nil =>
      rfl
  | cons size sizes ih =>
      have hnext : (random_loop size r).2.inited = true := by rw [random_loop_inited, h]
      calc random_after r (size :: sizes)
          = random_after (random_loop size r).2 sizes := by
            rw [random_after, List.foldl_cons, random_bytes_of_inited h]
            rfl
        _ = (random_loop sizes.sum (random_loop size r).2).2 := ih hnext
        _ = (random_loop (size :: sizes).sum r).2 := by
            rw [List.sum_cons, random_loop_add]

theorem random_after_permutes {r : Random} (h : r.inited = true) (hs : IsPermutation r.s)
    (sizes : List Nat) : IsPermutation (random_after r sizes).s := by
  rw [random_after_eq h]
  exact random_loop_permutes hs _

/-- The first call seeds where nothing has. -/
theorem random_bytes_boot (size : Nat) :
    random_bytes random_boot size = random_bytes (random_init 0) size := by
  have hboot : random_boot.inited ≠ true := Bool.false_ne_true
  rw [random_bytes_of_inited (random_init_inited 0), random_bytes, if_neg hboot]

/-- One call for `a + b` bytes is a call for `a` bytes and one for `b`, also where the first of them
has to seed. -/
theorem random_bytes_add (r : Random) (a b : Nat) :
    random_bytes r (a + b) =
      ((random_bytes r a).1 ++ (random_bytes (random_bytes r a).2 b).1,
        (random_bytes (random_bytes r a).2 b).2) := by
  have hseeded : (if r.inited then r else random_init 0).inited = true := by
    split
    · assumption
    · rfl
  have hnext : (random_bytes r a).2.inited = true := by
    rw [random_bytes, random_loop_inited, hseeded]
  rw [random_bytes_of_inited hnext, random_bytes, random_bytes, random_loop_add]

/-- The generator from any seed on: at every point of the key schedule and of every sequence of
calls, also between two bytes of one call, `s` is a permutation; the calls store one stream, cut
where they end, and the state after them is that after one call for all the bytes.  From whatever
state, one call is any two that its bytes are cut into.  Without a seed the stream is that of the
seed 0. -/
theorem random_stream_of_seed (seed : UInt32) (sizes : List Nat) :
    (∀ rounds, IsPermutation (key_schedule seed rounds).1) ∧
      IsPermutation (random_after (random_init seed) sizes).s ∧
      (∀ size, IsPermutation (random_loop size (random_after (random_init seed) sizes)).2.s) ∧
      (random_calls (random_init seed) sizes).flatten =
        (random_bytes (random_init seed) sizes.sum).1 ∧
      random_after (random_init seed) sizes = (random_bytes (random_init seed) sizes.sum).2 ∧
      (∀ r a b, random_bytes r (a + b) =
        ((random_bytes r a).1 ++ (random_bytes (random_bytes r a).2 b).1,
          (random_bytes (random_bytes r a).2 b).2)) ∧
      ∀ size, random_bytes random_boot size = random_bytes (random_init 0) size := by
  have hinited := random_init_inited seed
  have hafter := random_after_permutes hinited (random_init_permutes seed) sizes
  refine ⟨key_schedule_permutes seed, hafter, random_loop_permutes hafter, ?_, ?_,
    random_bytes_add, random_bytes_boot⟩
  · rw [random_bytes_of_inited hinited, random_calls_flatten hinited]
  · rw [random_bytes_of_inited hinited, random_after_eq hinited]

end Berk162
