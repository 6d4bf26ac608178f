import Berk162.Lib.Bytes

/-!
# Framing — streams of length-delimited packets

A packet is written as its length, in a header of fixed width, followed by its bytes.  A `Header`
says how lengths below `limit` are written; a reader refuses any other length.

We provide:

* `next_eq_some_iff` — the reader finds a packet exactly where the writer has put one;
* `decode_encode_append` — every packet that was written is read, in order.
-/

namespace Berk162

/-- An encoding of the lengths below `limit` in `width` bytes. -/
structure Header where
  width : Nat
  limit : Nat
  put : Nat → Bytes
  get : Bytes → Nat
  width_pos : 0 < width
  length_put : ∀ n, (put n).length = width
  get_put : ∀ n, n < limit → get (put n) = n
  put_get : ∀ bs : Bytes, bs.length = width → put (get bs) = bs

namespace Header

/-- Lengths with the least significant byte first. -/
def le (width limit : Nat) (hpos : 0 < width) (hlimit : limit ≤ 256 ^ width) : Header where
  width := width
  limit := limit
  put := le_bytes width
  get := le_val
  width_pos := hpos
  length_put := length_le_bytes width
  get_put _ h := le_val_le_bytes_of_lt (lt_of_lt_of_le h hlimit)
  put_get bs h := by rw [← h, le_bytes_le_val]

/-- Lengths with the most significant byte first. -/
def be (width limit : Nat) (hpos : 0 < width) (hlimit : limit ≤ 256 ^ width) : Header where
  width := width
  limit := limit
  put n := (le_bytes width n).reverse
  get bs := le_val bs.reverse
  width_pos := hpos
  length_put n := by rw [List.length_reverse, length_le_bytes]
  get_put n h := by rw [List.reverse_reverse, le_val_le_bytes_of_lt (lt_of_lt_of_le h hlimit)]
  put_get bs h := by
    rw [← h, ← List.length_reverse, le_bytes_le_val, List.reverse_reverse]

variable (H : Header) {bs rest p : Bytes} {ps : List Bytes}

/-- A packet as it is written. -/
def frame (p : Bytes) : Bytes := H.put p.length ++ p

/-- The packets `ps`, written one after the other. -/
def encode (ps : List Bytes) : Bytes := ps.flatMap H.frame

/-- The packet at the start of the stream, and the stream behind it. -/
def next (bs : Bytes) : Option (Bytes × Bytes) :=
  let n := H.get (bs.take H.width)
  let body := bs.drop H.width
  if bs.length < H.width ∨ H.limit ≤ n ∨ body.length < n then none
  else some (body.take n, body.drop n)

@[simp] theorem encode_nil : H.encode [] = [] := rfl

@[simp] theorem encode_cons : H.encode (p :: ps) = H.frame p ++ H.encode ps := rfl

@[simp] theorem encode_append (ps qs : List Bytes) :
    H.encode (ps ++ qs) = H.encode ps ++ H.encode qs :=
  List.flatMap_append

theorem length_frame : (H.frame p).length = H.width + p.length := by
  rw [frame, List.length_append, H.length_put]

variable {H}

theorem next_eq_some_iff :
    H.next bs = some (p, rest) ↔ p.length < H.limit ∧ bs = H.frame p ++ rest := by
  constructor
  · intro h
    simp only [next] at h
    split_ifs at h with hshort
    rw [not_or, not_or] at hshort
    rcases hshort with ⟨hwidth, hlimit, hbody⟩
    rcases Prod.mk.inj (Option.some.inj h) with ⟨hp, hrest⟩
    have hplen : p.length = H.get (bs.take H.width) := by
      rw [← hp, List.length_take]
      exact Nat.min_eq_left (Nat.not_lt.1 hbody)
    have htake : (bs.take H.width).length = H.width := by
      rw [List.length_take]
      exact Nat.min_eq_left (Nat.not_lt.1 hwidth)
    have hsplit : p ++ rest = bs.drop H.width := by
      rw [← hp, ← hrest, List.take_append_drop]
    refine ⟨hplen ▸ Nat.not_le.1 hlimit, ?_⟩
    calc
      bs = bs.take H.width ++ bs.drop H.width := (List.take_append_drop _ bs).symm
      _ = H.put p.length ++ (p ++ rest) := by rw [hplen, H.put_get _ htake, hsplit]
      _ = H.frame p ++ rest := by rw [frame, List.append_assoc]
  · rintro ⟨hlimit, rfl⟩
    have htake : (H.frame p ++ rest).take H.width = H.put p.length := by
      rw [frame, List.append_assoc, List.take_left' (H.length_put _)]
    have hdrop : (H.frame p ++ rest).drop H.width = p ++ rest := by
      rw [frame, List.append_assoc, List.drop_left' (H.length_put _)]
    have hfits : ¬ ((H.frame p ++ rest).length < H.width ∨ H.limit ≤ p.length ∨
        (p ++ rest).length < p.length) := by
      simp only [List.length_append, length_frame]
      omega
    simp only [next, htake, hdrop, H.get_put _ hlimit]
    rw [if_neg hfits, List.take_left, List.drop_left]

theorem next_frame_append (h : p.length < H.limit) : H.next (H.frame p ++ rest) = some (p, rest) :=
  next_eq_some_iff.2 ⟨h, rfl⟩

theorem next_nil : H.next [] = none := by
  simp [next, H.width_pos]

theorem length_lt_of_next (h : H.next bs = some (p, rest)) : rest.length < bs.length := by
  rw [(next_eq_some_iff.1 h).2, List.length_append, length_frame]
  have hpos := H.width_pos
  omega

/-- The complete packets at the start of the stream, and what is left behind them. -/
def decode (H : Header) (bs : Bytes) : List Bytes × Bytes :=
  match h : H.next bs with
  | none => ([], bs)
  | some (p, rest) =>
      have : rest.length < bs.length := length_lt_of_next h
      (p :: (H.decode rest).1, (H.decode rest).2)
termination_by bs.length

theorem decode_of_none (h : H.next bs = none) : H.decode bs = ([], bs) := by
  rw [decode]
  split
  · rfl
  · rename_i hnext
    rw [h] at hnext
    cases hnext

theorem decode_of_some (h : H.next bs = some (p, rest)) :
    H.decode bs = (p :: (H.decode rest).1, (H.decode rest).2) := by
  rw [decode]
  split
  · rename_i hnext
    rw [h] at hnext
    cases hnext
  · rename_i hnext
    rw [h] at hnext
    cases hnext
    rfl

theorem decode_nil : H.decode [] = ([], []) := decode_of_none next_nil

/-- Every packet that was written is read, whatever follows. -/
theorem decode_encode_append (h : ∀ p ∈ ps, p.length < H.limit) (rest : Bytes) :
    H.decode (H.encode ps ++ rest) = (ps ++ (H.decode rest).1, (H.decode rest).2) := by
  induction ps with
  | nil =>
      rfl
  | cons p ps ih =>
      rcases List.forall_mem_cons.1 h with ⟨hp, hps⟩
      have hnext : H.next (H.encode (p :: ps) ++ rest) = some (p, H.encode ps ++ rest) := by
        rw [encode_cons, List.append_assoc, next_frame_append hp]
      rw [decode_of_some hnext, ih hps, List.cons_append]

theorem decode_encode (h : ∀ p ∈ ps, p.length < H.limit) : H.decode (H.encode ps) = (ps, []) := by
  have happ := decode_encode_append h []
  rwa [decode_nil, List.append_nil, List.append_nil] at happ

end Header

end Berk162
