import Berk162.Lib.Utf8

/-!
# ParseRequest — `parse_request` of the HTTP server in Rust

`parse_request` reads until a carriage return has come or the peer stops sending, and then takes the
first two words of all that is in its buffer.  What has come behind the carriage return depends on
how the request was cut; `SegmentFree` is when it makes no difference.
-/

namespace Berk162

namespace HwHttpRs

def REQUEST_BUF_SIZE : Nat := 1024

structure Request where
  method : List Char
  path : List Char
  deriving DecidableEq, Repr

inductive ParseError
  | utf8 (e : Utf8Error)
  /-- `HttpError::InvalidRequest`. -/
  | invalid_request
  deriving DecidableEq, Repr

/-- The loop of `parse_request`, with `buf` read so far, where the peer sends `chunks` and stops.  What
does not fit stays unread: the buffer is full then, and the next read returns 0. -/
def read_loop (buf : Bytes) : List Bytes → Bytes
  | [] => buf
  | chunk :: chunks =>
      let got := chunk.take (REQUEST_BUF_SIZE - buf.length)
      if got = [] then buf
      else if 13 ∈ got then buf ++ got
      else read_loop (buf ++ got) chunks

/-- The two calls of `next`. -/
def first_words : List (List Char) → Except ParseError Request
  | method :: path :: _ => .ok ⟨method, path⟩
  | _ => .error .invalid_request

/-- What `parse_request` does with the bytes that it has read. -/
def parse_bytes (buf : Bytes) : Except ParseError Request :=
  match from_utf8 buf with
  | .error e => .error (.utf8 e)
  | .ok text => first_words (split_whitespace (trim text))

/-- `parse_request`. -/
def parse_request (chunks : List Bytes) : Except ParseError Request :=
  parse_bytes (read_loop [] chunks)

variable {bs buf line rest : Bytes} {chunks : List Bytes} {text : List Char}

/-! ## What is read -/

/-- A part from the front in which there is the first `a` goes on from it. -/
theorem split_of_begins {α : Type} {l r p : List α} {a : α} (hp : p <+: l ++ a :: r) (ha : a ∈ p)
    (hl : a ∉ l) : ∃ t, p = l ++ a :: t ∧ t <+: r := by
  obtain ⟨q, hq⟩ := hp
  rcases List.append_eq_append_iff.1 hq with ⟨m, hm, _⟩ | ⟨m, hm, hr⟩
  · -- the part ends before `a`
    exact absurd (hm ▸ List.mem_append_left m ha) hl
  · cases m with
    | nil =>
        rw [List.append_nil] at hm
        exact absurd (hm ▸ ha) hl
    | cons b m =>
        obtain ⟨hab, hrest⟩ := List.cons.inj hr
        exact ⟨m, hab ▸ hm, q, hrest.symm⟩

/-- All that there is, or what is there up to a place behind the first carriage return. -/
structure Received (all got : Bytes) : Prop where
  all_of_none : 13 ∉ all → got = all
  up_to : ∀ line rest, all = line ++ 13 :: rest → 13 ∉ line →
    ∃ tail, got = line ++ 13 :: tail ∧ tail <+: rest

/-- Nothing more is read. -/
theorem Received.full (h : 13 ∉ buf) : Received buf buf where
  all_of_none _ := rfl
  up_to line rest hall _ := by
    rw [hall] at h
    exact absurd (List.mem_append_right line List.mem_cons_self) h

theorem Received.part {all got : Bytes} (hgot : got <+: all) (h : 13 ∈ got) : Received all got where
  all_of_none hnone := absurd (hgot.subset h) hnone
  up_to _ _ hall hline := split_of_begins (hall ▸ hgot) h hline

/-- What does not fit is cut off sooner or later. -/
theorem take_take_append (n : Nat) (c r : Bytes) : (c.take n ++ r).take n = (c ++ r).take n := by
  rw [List.take_append, List.take_append, List.take_take, Nat.min_self, List.length_take]
  have hroom : n - min n c.length = n - c.length := by omega
  rw [hroom]

theorem read_loop_received (hbuf : 13 ∉ buf) (hlen : buf.length ≤ REQUEST_BUF_SIZE)
    (hchunks : ∀ c, c ∈ chunks → c ≠ []) :
    Received ((buf ++ chunks.flatten).take REQUEST_BUF_SIZE) (read_loop buf chunks) := by
  induction chunks generalizing buf with
  | nil =>
      rw [List.flatten_nil, List.append_nil, List.take_of_length_le hlen]
      exact Received.full hbuf
  | cons chunk chunks ih =>
      obtain ⟨hchunk, hrest⟩ := List.forall_mem_cons.1 hchunks
      have hall : (buf ++ (chunk :: chunks).flatten).take REQUEST_BUF_SIZE =
          buf ++ (chunk ++ chunks.flatten).take (REQUEST_BUF_SIZE - buf.length) := by
        rw [List.flatten_cons, List.take_append, List.take_of_length_le hlen]
      have hgot : chunk.take (REQUEST_BUF_SIZE - buf.length) <+:
          (chunk ++ chunks.flatten).take (REQUEST_BUF_SIZE - buf.length) := by
        rw [List.take_append]
        exact List.prefix_append _ _
      rw [read_loop, hall]
      split
      · next hnone =>
        -- the buffer is full
        have hroom : REQUEST_BUF_SIZE - buf.length = 0 :=
          (List.take_eq_nil_iff.1 hnone).resolve_right hchunk
        rw [hroom, List.take_zero, List.append_nil]
        exact Received.full hbuf
      · split
        · next hreturn =>
          exact Received.part ((List.prefix_append_right_inj buf).2 hgot)
            (List.mem_append_right buf hreturn)
        · next hreturn =>
          have hnext := @ih (buf ++ chunk.take (REQUEST_BUF_SIZE - buf.length))
            (fun hmem => (List.mem_append.1 hmem).elim hbuf hreturn)
            (by rw [List.length_append, List.length_take]; omega) hrest
          rw [List.append_assoc, List.take_append, List.take_of_length_le hlen,
            take_take_append] at hnext
          exact hnext

/-! ## Cutting a request -/

/-- A request, cut into the chunks that the reads return. -/
def Segments (bs : Bytes) (chunks : List Bytes) : Prop :=
  chunks.flatten = bs ∧ ∀ c, c ∈ chunks → c ≠ []

theorem Segments.received (h : Segments bs chunks) :
    Received (bs.take REQUEST_BUF_SIZE) (read_loop [] chunks) := by
  obtain ⟨rfl, hchunks⟩ := h
  exact read_loop_received List.not_mem_nil (Nat.zero_le _) hchunks

/-- The request in two parts, of which the second may be missing. -/
def cut_at (bs : Bytes) (n : Nat) : List Bytes := [bs.take n, bs.drop n].filter fun c => c ≠ []

theorem segments_cut_at (bs : Bytes) (n : Nat) : Segments bs (cut_at bs n) := by
  refine ⟨?_, fun c hc => of_decide_eq_true (List.mem_filter.1 hc).2⟩
  have hflat : (cut_at bs n).flatten = bs.take n ++ bs.drop n := by
    rw [cut_at]
    cases hfirst : bs.take n <;> cases hsecond : bs.drop n <;> simp
  rw [hflat, List.take_append_drop]

/-- The first read returns exactly the first part, and that ends the loop. -/
theorem read_loop_cut_at {tail : Bytes} (hall : bs.take REQUEST_BUF_SIZE = line ++ 13 :: rest)
    (htail : tail <+: rest) :
    read_loop [] (cut_at bs (line ++ 13 :: tail).length) = line ++ 13 :: tail := by
  have hbegins : line ++ 13 :: tail <+: bs.take REQUEST_BUF_SIZE := by
    rw [hall]
    exact (List.prefix_append_right_inj line).2 ((List.prefix_cons_inj 13).2 htail)
  have hfirst : bs.take (line ++ 13 :: tail).length = line ++ 13 :: tail :=
    (List.prefix_iff_eq_take.1 (hbegins.trans (List.take_prefix _ _))).symm
  have hlen : (line ++ 13 :: tail).length ≤ REQUEST_BUF_SIZE :=
    hbegins.length_le.trans (List.length_take_le _ _)
  have hne : line ++ 13 :: tail ≠ [] := List.append_ne_nil_of_right_ne_nil _ (List.cons_ne_nil _ _)
  have hreturn : (13 : UInt8) ∈ line ++ 13 :: tail :=
    List.mem_append_right line List.mem_cons_self
  rw [cut_at, hfirst, List.filter_cons, if_pos (decide_eq_true hne), read_loop]
  simp only [List.length_nil, Nat.sub_zero, List.take_of_length_le hlen, if_neg hne, if_pos hreturn,
    List.nil_append]

/-! ## When it makes no difference -/

/-- If there is a carriage return among the bytes that fit, with text in front of it: behind it there is
ASCII only, and either two words stand in front of it or there are not two words in all. -/
def SegmentFree (bs : Bytes) : Prop :=
  ∀ line rest, bs.take REQUEST_BUF_SIZE = line ++ 13 :: rest → 13 ∉ line →
    ∀ text, from_utf8 line = .ok text → (∀ b, b ∈ rest → b < 0x80) ∧
      (2 ≤ (split_whitespace text).length ∨
        (split_whitespace text ++ split_whitespace (rest.map ascii_char)).length < 2)

theorem parse_bytes_error {e : Utf8Error} (h : from_utf8 buf = .error e) :
    parse_bytes buf = .error (.utf8 e) := by
  rw [parse_bytes, h]

theorem parse_bytes_ok (h : from_utf8 buf = .ok text) :
    parse_bytes buf = first_words (split_whitespace text) := by
  simp only [parse_bytes, h, split_whitespace_trim]

/-- A carriage return and ASCII behind a text. -/
theorem parse_bytes_line (h : from_utf8 line = .ok text) (hrest : ∀ b, b ∈ rest → b < 0x80) :
    parse_bytes (line ++ 13 :: rest) =
      first_words (split_whitespace text ++ split_whitespace (rest.map ascii_char)) := by
  have hascii : ∀ b, b ∈ (13 : UInt8) :: rest → b < 0x80 :=
    List.forall_mem_cons.2 ⟨by decide, hrest⟩
  have hreturn : is_whitespace (ascii_char 13) = true := by decide
  rw [parse_bytes_ok (from_utf8_append_ascii h hascii), List.map_cons,
    split_whitespace_append hreturn]

theorem first_words_of_two {words words' : List (List Char)} (h : 2 ≤ words.length) :
    first_words (words ++ words') = first_words words := by
  obtain _ | ⟨method, _ | ⟨path, words⟩⟩ := words
  · cases h
  · exact absurd h (Nat.not_le.2 Nat.one_lt_two)
  · rfl

theorem first_words_eq_invalid {words : List (List Char)} :
    first_words words = .error .invalid_request ↔ words.length < 2 := by
  obtain _ | ⟨method, _ | ⟨path, words⟩⟩ := words
  · exact iff_of_true rfl Nat.zero_lt_two
  · exact iff_of_true rfl Nat.one_lt_two
  · refine iff_of_false (fun h => ?_) (Nat.not_lt.2 (Nat.le_add_left 2 words.length))
    cases h

theorem first_words_ne_utf8 (words : List (List Char)) (e : Utf8Error) :
    first_words words ≠ .error (.utf8 e) := by
  obtain _ | ⟨method, _ | ⟨path, words⟩⟩ := words
  · intro h
    cases h
  · intro h
    cases h
  · intro h
    cases h

/-- However much has come behind the carriage return, the result is that of the line alone. -/
theorem parse_bytes_tail {tail : Bytes} (h : SegmentFree bs)
    (hall : bs.take REQUEST_BUF_SIZE = line ++ 13 :: rest) (hline : 13 ∉ line)
    (htail : tail <+: rest) :
    parse_bytes (line ++ 13 :: tail) = parse_bytes (line ++ [13]) := by
  cases hutf8 : from_utf8 line with
  | error e =>
      obtain ⟨e', herror⟩ := from_utf8_error_ascii hutf8 (b := 13) (by decide)
      rw [parse_bytes_error (herror tail), parse_bytes_error (herror [])]
  | ok text =>
      obtain ⟨hascii, hwords⟩ := h line rest hall hline text hutf8
      rw [parse_bytes_line hutf8 fun b hb => hascii b (htail.subset hb),
        parse_bytes_line hutf8 fun b hb => absurd hb List.not_mem_nil]
      rw [List.map_nil, split_whitespace_nil, List.append_nil]
      rcases hwords with htwo | hfew
      · exact first_words_of_two htwo
      · obtain ⟨more, rfl⟩ := htail
        have hmono := length_split_whitespace_le (tail.map ascii_char) (more.map ascii_char)
        rw [List.map_append, List.length_append] at hfew
        rw [first_words_eq_invalid.2, first_words_eq_invalid.2]
        · omega
        · rw [List.length_append]
          omega

theorem parse_request_of_segments (h : SegmentFree bs) {cs cs' : List Bytes} (hcs : Segments bs cs)
    (hcs' : Segments bs cs') : parse_request cs = parse_request cs' := by
  rw [parse_request, parse_request]
  by_cases hreturn : 13 ∈ bs.take REQUEST_BUF_SIZE
  · obtain ⟨line, rest, hall, hline⟩ := List.eq_append_cons_of_mem hreturn
    obtain ⟨tail, hread, htail⟩ := hcs.received.up_to line rest hall hline
    obtain ⟨tail', hread', htail'⟩ := hcs'.received.up_to line rest hall hline
    rw [hread, hread', parse_bytes_tail h hall hline htail, parse_bytes_tail h hall hline htail']
  · rw [hcs.received.all_of_none hreturn, hcs'.received.all_of_none hreturn]

/-- If the cut makes no difference, it makes none whether the first read ends behind the carriage return
or later. -/
theorem segmentFree_of_parse_request
    (h : ∀ cs cs', Segments bs cs → Segments bs cs' → parse_request cs = parse_request cs') :
    SegmentFree bs := by
  intro line rest hall hline text hutf8
  have hsame : ∀ tail, tail <+: rest →
      parse_bytes (line ++ 13 :: tail) = first_words (split_whitespace text) := by
    intro tail htail
    have hcuts := h _ _ (segments_cut_at bs (line ++ 13 :: tail).length)
      (segments_cut_at bs (line ++ [13]).length)
    rw [parse_request, parse_request, read_loop_cut_at hall htail,
      read_loop_cut_at hall (List.nil_prefix)] at hcuts
    rw [hcuts, parse_bytes_line hutf8 fun b hb => absurd hb List.not_mem_nil, List.map_nil,
      split_whitespace_nil, List.append_nil]
  -- the first byte that is not ASCII would be an error in one of the cuts
  have hascii : ∀ n, ∀ b, b ∈ rest.take n → b < 0x80 := by
    intro n
    induction n with
    | zero =>
        intro b hb
        cases hb
    | succ n ih =>
        rw [List.take_add_one]
        intro b hb
        rcases List.mem_append.1 hb with hb | hb
        · exact ih b hb
        · have hnext : rest[n]? = some b := Option.mem_toList.1 hb
          by_contra hhigh
          have hbefore : from_utf8 (line ++ 13 :: rest.take n) = .ok _ :=
            from_utf8_append_ascii hutf8 (List.forall_mem_cons.2 ⟨by decide, ih⟩)
          obtain ⟨e, herror⟩ := from_utf8_concat_high hbefore (UInt8.not_lt.1 hhigh)
          have hcut := hsame (rest.take n ++ [b]) (by
            have htake := List.take_prefix (n + 1) rest
            rwa [List.take_add_one, hnext] at htake)
          rw [List.append_assoc, List.cons_append] at herror
          rw [parse_bytes_error herror] at hcut
          exact first_words_ne_utf8 _ _ hcut.symm
  have hrest : ∀ b, b ∈ rest → b < 0x80 := by
    have hall := hascii rest.length
    rwa [List.take_length] at hall
  refine ⟨hrest, or_iff_not_imp_left.2 fun hfew => ?_⟩
  have hwhole := hsame rest (List.prefix_refl rest)
  rw [parse_bytes_line hutf8 hrest, first_words_eq_invalid.2 (Nat.lt_of_not_le hfew)] at hwhole
  exact first_words_eq_invalid.1 hwhole

/-- The result is the same for all ways to cut a request if and only if it is `SegmentFree`. -/
theorem parse_request_segments_iff (bs : Bytes) :
    (∀ cs cs', Segments bs cs → Segments bs cs' → parse_request cs = parse_request cs') ↔
      SegmentFree bs :=
  ⟨segmentFree_of_parse_request, fun h _ _ => parse_request_of_segments h⟩

/-- A byte that is not UTF-8, behind the carriage return: in one piece an error, in two pieces the
request for `/`. -/
theorem cut_request_differs : ¬ ∀ (bs : Bytes) (cs cs' : List Bytes), Segments bs cs →
    Segments bs cs' → parse_request cs = parse_request cs' := by
  intro h
  have hone : parse_request [[71, 69, 84, 32, 47, 13, 255]] = .error (.utf8 ⟨6, some 1⟩) := by
    decide +kernel
  have htwo : parse_request [[71, 69, 84, 32, 47, 13], [255]] = .ok ⟨['G', 'E', 'T'], ['/']⟩ := by
    decide +kernel
  have hsame := h [71, 69, 84, 32, 47, 13, 255] [[71, 69, 84, 32, 47, 13, 255]]
    [[71, 69, 84, 32, 47, 13], [255]] ⟨rfl, by decide⟩ ⟨rfl, by decide⟩
  rw [hone, htwo] at hsame
  cases hsame

end HwHttpRs

end Berk162
