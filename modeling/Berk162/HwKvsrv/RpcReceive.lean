import Berk162.HwKvsrv.Rpc

/-!
# RpcReceive — the receive loop of `handler_thread`

`arrived` is what some reads have put into the buffer.  The end of the header and the content length
depend on it alone, and the loop stops after the first read at which they say so.
-/

namespace Berk162.Kvsrv

/-- The bytes of some reads, as many as the buffer holds. -/
def arrived (segments : List Segment) : Bytes :=
  (segments.map Subtype.val).flatten.take BUF_MAX

/-- Where the body begins. -/
def header_end_of (buf : Bytes) : Option Nat :=
  (strstr (cstr buf).chars blank_line).map fun sep => sep + 4

/-- What has arrived at the end of the first read with at least `n` bytes; everything, if there is
none. -/
def first_with (n : Nat) (segments : List Segment) : Bytes :=
  segments.foldl
    (fun buf segment => if n ≤ buf.length then buf else (buf ++ segment.1).take BUF_MAX) []

section

variable {p q segments : List Segment} {segment : Segment} {a b : Bytes} {he n : Nat}

@[simp] theorem arrived_nil : arrived [] = [] := rfl

theorem length_arrived_le : (arrived p).length ≤ BUF_MAX := List.length_take_le _ _

theorem arrived_snoc (p : List Segment) (segment : Segment) :
    arrived (p ++ [segment]) = (arrived p ++ segment.1).take BUF_MAX := by
  have hshort : ∀ x y : Bytes, (x.take BUF_MAX ++ y).take BUF_MAX = (x ++ y).take BUF_MAX := by
    intro x y
    rcases Nat.le_total x.length BUF_MAX with hle | hge
    · rw [List.take_of_length_le hle]
    · have hlen : (x.take BUF_MAX).length = BUF_MAX := List.length_take_of_le hge
      rw [List.take_append_of_le_length (Nat.le_of_eq hlen.symm), List.take_append_of_le_length hge,
        List.take_take, Nat.min_self]
  rw [arrived, arrived, hshort, List.map_append, List.flatten_append]
  simp

theorem arrived_mono (h : q <+: p) : arrived q <+: arrived p := by
  obtain ⟨t, rfl⟩ := h
  rw [arrived, arrived, List.map_append, List.flatten_append]
  exact (List.prefix_append _ _).take _

theorem blank_line_ne_nil : blank_line ≠ [] := by decide

theorem header_end_of_eq_some : header_end_of b = some he ↔
    4 ≤ he ∧ FirstAt blank_line (cstr b).chars (he - 4) := by
  rw [header_end_of, Option.map_eq_some_iff]
  constructor
  · rintro ⟨sep, hsep, rfl⟩
    exact ⟨by omega, (findFirst_eq_some blank_line_ne_nil).1 hsep⟩
  · rintro ⟨hle, hfirst⟩
    exact ⟨he - 4, (findFirst_eq_some blank_line_ne_nil).2 hfirst, by omega⟩

theorem header_end_of_eq_none : header_end_of b = none ↔ Absent blank_line (cstr b).chars := by
  rw [header_end_of, Option.map_eq_none_iff]
  exact findFirst_eq_none blank_line_ne_nil

/-- The header lies in front of the first null. -/
theorem header_end_le_cstr (h : header_end_of b = some he) : he ≤ (cstr b).chars.length := by
  obtain ⟨hle, hfirst⟩ := header_end_of_eq_some.1 h
  have hbound := hfirst.occurs.bound blank_line_ne_nil
  have hlen : blank_line.length = 4 := rfl
  omega

theorem header_end_le (h : header_end_of b = some he) : he ≤ b.length :=
  (header_end_le_cstr h).trans (cstr_begins b).length_le

/-- A prefix has the same header as soon as it is long enough. -/
theorem header_end_of_part (hb : b <+: a) (ha : header_end_of a = some he) :
    header_end_of b = if he ≤ b.length then some he else none := by
  obtain ⟨hle, hfirst⟩ := header_end_of_eq_some.1 ha
  have hlen : blank_line.length = 4 := rfl
  have hcstr : (cstr b).chars = (cstr a).chars.take b.length := by
    rw [← cstr_take, ← List.prefix_iff_eq_take.1 hb]
  split
  · apply header_end_of_eq_some.2
    rw [hcstr]
    exact ⟨hle, hfirst.take blank_line_ne_nil (by omega)⟩
  · rw [header_end_of_eq_none, hcstr]
    exact hfirst.absent_take blank_line_ne_nil (by omega)

theorem header_end_of_mono (hb : b <+: a) (h : header_end_of b = some he) :
    header_end_of a = some he := by
  obtain ⟨hle, hfirst⟩ := header_end_of_eq_some.1 h
  apply header_end_of_eq_some.2
  rw [List.prefix_iff_eq_take.1 hb, cstr_take] at hfirst
  exact ⟨hle, hfirst.of_take blank_line_ne_nil⟩

theorem first_with_snoc (n : Nat) (p : List Segment) (segment : Segment) :
    first_with n (p ++ [segment]) =
      if n ≤ (first_with n p).length then first_with n p
      else (first_with n p ++ segment.1).take BUF_MAX := by
  simp [first_with, List.foldl_append]

/-- As long as fewer than `n` bytes have arrived, all of them are kept. -/
theorem first_with_of_lt (h : (arrived p).length < n) : first_with n p = arrived p := by
  induction p using List.reverseRecOn with
  | nil =>
      rfl
  | append_singleton p segment ih =>
      have hlt : (arrived p).length < n :=
        Nat.lt_of_le_of_lt (arrived_mono (List.prefix_append p [segment])).length_le h
      rw [first_with_snoc, ih hlt, if_neg (Nat.not_le.2 hlt), arrived_snoc]

theorem first_with_snoc_of_lt (h : (arrived p).length < n) :
    first_with n (p ++ [segment]) = arrived (p ++ [segment]) := by
  rw [first_with_snoc, first_with_of_lt h, if_neg (Nat.not_le.2 h), arrived_snoc]

/-- Once `n` bytes have arrived, later reads change nothing. -/
theorem first_with_spec (n : Nat) (p : List Segment) :
    first_with n p <+: arrived p ∧ (n ≤ (arrived p).length → n ≤ (first_with n p).length) := by
  induction p using List.reverseRecOn with
  | nil =>
      exact ⟨List.nil_prefix, id⟩
  | append_singleton p segment ih =>
      have hmono := arrived_mono (List.prefix_append p [segment])
      rcases Nat.lt_or_ge (arrived p).length n with hlt | hge
      · rw [first_with_snoc_of_lt hlt]
        exact ⟨List.prefix_refl _, id⟩
      · rw [first_with_snoc, if_pos (ih.2 hge)]
        exact ⟨ih.1.trans hmono, fun _ => ih.2 hge⟩

end

/-! ## The state of the loop -/

namespace Received

variable {r : Received} {p q segments : List Segment} {he : Nat}

/-- The state after some reads. -/
def after (r : Received) (segments : List Segment) : Received :=
  segments.foldl (fun r segment => r.add segment.1) r

theorem after_snoc (r : Received) (p : List Segment) (segment : Segment) :
    r.after (p ++ [segment]) = (r.after p).add segment.1 := by
  simp [after, List.foldl_append]

theorem find_header_of_some (h : r.header_end = some he) : r.find_header = r := by
  rw [find_header, h]

theorem find_header_of_none (h : r.header_end = none) (hb : header_end_of r.buf = none) :
    r.find_header = r := by
  rw [header_end_of, Option.map_eq_none_iff] at hb
  rw [find_header, h, hb]

/-- The length is read when the header's end is found. -/
theorem find_header_of_found (h : r.header_end = none) (hb : header_end_of r.buf = some he) :
    r.find_header = ⟨r.buf, some he, content_length_of (cstr r.buf).chars⟩ := by
  rw [header_end_of, Option.map_eq_some_iff] at hb
  obtain ⟨sep, hsep, rfl⟩ := hb
  rw [find_header, h, hsep]

@[simp] theorem find_header_buf (r : Received) : r.find_header.buf = r.buf := by
  cases h : r.header_end with
  | some he =>
      rw [find_header_of_some h]
  | none =>
      cases hb : header_end_of r.buf with
      | none =>
          rw [find_header_of_none h hb]
      | some he =>
          rw [find_header_of_found h hb]

theorem read_buf (hbuf : r.buf = arrived p) (segment : Segment) :
    (r.read segment.1).buf = arrived (p ++ [segment]) := by
  rw [read, hbuf, arrived_snoc, List.take_append, List.take_of_length_le length_arrived_le]

theorem after_buf (p : List Segment) : (init.after p).buf = arrived p := by
  induction p using List.reverseRecOn with
  | nil =>
      rfl
  | append_singleton p segment ih =>
      rw [after_snoc, add, find_header_buf, read_buf ih]

/-- What the loop knows of the header after some reads. -/
theorem after_header (p : List Segment) : (init.after p).header_end = header_end_of (arrived p) ∧
    ∀ he, header_end_of (arrived p) = some he →
      (init.after p).content_length = content_length_of (cstr (first_with he p)).chars := by
  induction p using List.reverseRecOn with
  | nil =>
      have habsent : header_end_of (arrived []) = none := by decide
      refine ⟨habsent.symm, fun he h => ?_⟩
      rw [habsent] at h
      cases h
  | append_singleton p segment ih =>
      obtain ⟨hend, hlength⟩ := ih
      have hbuf := read_buf (after_buf p) segment
      have hpart := arrived_mono (List.prefix_append p [segment])
      rw [after_snoc, add]
      cases hold : header_end_of (arrived p) with
      | some he =>
          -- found before: nothing changes
          have hnew := header_end_of_mono hpart hold
          have hsome : ((init.after p).read segment.1).header_end = some he := hend.trans hold
          rw [find_header_of_some hsome, hnew]
          refine ⟨hsome, ?_⟩
          rintro he' ⟨⟩
          rw [first_with_snoc, if_pos ((first_with_spec he p).2 (header_end_le hold))]
          exact hlength he hold
      | none =>
          have hnone : ((init.after p).read segment.1).header_end = none := hend.trans hold
          cases hnew : header_end_of (arrived (p ++ [segment])) with
          | none =>
              rw [find_header_of_none hnone (hbuf ▸ hnew)]
              exact ⟨hnone, fun he h => by cases h⟩
          | some he =>
              rw [find_header_of_found hnone (hbuf ▸ hnew), hbuf]
              refine ⟨rfl, ?_⟩
              rintro he' ⟨⟩
              have hlt : (arrived p).length < he := by
                by_contra hge
                have hfound := header_end_of_part hpart hnew
                rw [if_pos (Nat.not_lt.1 hge), hold] at hfound
                cases hfound
              rw [first_with_snoc_of_lt hlt]

/-- The loop reads no more. -/
def Done (r : Received) : Prop := r.whole = true ∨ BUF_MAX ≤ r.buf.length

theorem not_done_init : ¬ init.Done := by
  rintro (h | h)
  · cases h
  · exact absurd h (by decide)

/-- One read. -/
theorem receive_cons (h : ¬ r.Done) (segment : Segment) (arrivals : List Arrival) :
    ((r.add segment.1).Done → r.receive (.bytes segment :: arrivals) = some (r.add segment.1)) ∧
      (¬ (r.add segment.1).Done →
        r.receive (.bytes segment :: arrivals) = (r.add segment.1).receive arrivals) := by
  have hroom : r.buf.length < BUF_MAX := Nat.not_le.1 fun hfull => h (Or.inr hfull)
  rw [receive, if_pos hroom]
  constructor
  · rintro (hwhole | hfull)
    · simp only [hwhole, if_true]
    · have hstop : (r.add segment.1).receive arrivals = some (r.add segment.1) := by
        unfold receive
        rw [if_neg (Nat.not_lt.2 hfull)]
      simp only [hstop, ite_self]
  · intro hmore
    have hwhole : (r.add segment.1).whole = false := by
      rw [← Bool.not_eq_true]
      exact fun hwhole => hmore (Or.inl hwhole)
    simp only [hwhole, Bool.false_eq_true, if_false]

/-- The loop stops after the shortest prefix of the reads with which it is done. -/
theorem receive_spec (h : ¬ r.Done) (segments : List Segment) (arrivals : List Arrival) :
    ∃ p, p <+: segments ∧ (∀ q, q <+: p → q ≠ p → ¬ (r.after q).Done) ∧
      ((r.after p).Done ∧ r.receive (segments.map .bytes ++ arrivals) = some (r.after p) ∨
        ¬ (r.after p).Done ∧ p = segments ∧
          r.receive (segments.map .bytes ++ arrivals) = (r.after p).receive arrivals) := by
  induction segments generalizing r with
  | nil =>
      refine ⟨[], List.prefix_refl _, ?_, Or.inr ⟨h, rfl, rfl⟩⟩
      intro q hq hne
      exact absurd (List.prefix_nil.1 hq) hne
  | cons segment segments ih =>
      obtain ⟨hstop, hgo⟩ := receive_cons h segment (segments.map .bytes ++ arrivals)
      by_cases hdone : (r.add segment.1).Done
      · refine ⟨[segment], ⟨segments, rfl⟩, ?_, Or.inl ⟨hdone, hstop hdone⟩⟩
        intro q hq hne
        rcases List.prefix_cons_iff.1 hq with rfl | ⟨t, rfl, ht⟩
        · exact h
        · rw [List.prefix_nil.1 ht] at hne
          exact absurd rfl hne
      · obtain ⟨p, hp, hfirst, hend⟩ := ih hdone
        refine ⟨segment :: p, List.cons_prefix_cons.2 ⟨rfl, hp⟩, ?_, ?_⟩
        · intro q hq hne
          rcases List.prefix_cons_iff.1 hq with rfl | ⟨t, rfl, ht⟩
          · exact h
          · exact hfirst t ht fun heq => hne (by rw [heq])
        · rcases hend with ⟨hd, heq⟩ | ⟨hd, rfl, heq⟩
          · exact Or.inl ⟨hd, (hgo hdone).trans heq⟩
          · exact Or.inr ⟨hd, rfl, (hgo hdone).trans heq⟩

end Received

/-! ## The loop of the client -/

/-- The client reads on until the connection ends or its buffer is full. -/
theorem read_response_eq (segments : List Segment) :
    read_response [] (segments.map .bytes ++ [.stop]) = some (arrived segments) := by
  have hrun : ∀ (q p : List Segment),
      read_response (arrived p) (q.map .bytes ++ [.stop]) = some (arrived (p ++ q)) := by
    intro q
    induction q with
    | nil =>
        intro p
        rw [List.append_nil]
        unfold read_response
        split <;> rfl
    | cons segment q ih =>
        intro p
        unfold read_response
        split
        · have hstep := ih (p ++ [segment])
          rw [arrived_snoc, List.take_append, List.take_of_length_le length_arrived_le,
            List.append_assoc] at hstep
          exact hstep
        · next hfull =>
          -- the buffer is full: what comes later is not read
          have hle := (arrived_mono (List.prefix_append p (segment :: q))).length_le
          have hmax := length_arrived_le (p := p ++ segment :: q)
          rw [(arrived_mono (List.prefix_append p (segment :: q))).eq_of_length (by omega)]
  exact hrun segments []

end Berk162.Kvsrv
