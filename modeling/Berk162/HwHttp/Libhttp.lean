import Berk162.Lib.Bytes
import Berk162.Lib.Machine
import Berk162.Lib.Window

/-!
# Libhttp — `http_request_parse` of the HTTP server in C

Every call of `malloc` returns memory: where one of the first two does not, the server exits, and
the other two are not checked.  What is in the memory before the read does not matter.  What is
touched outside of `read_buffer` has no value here.
-/

namespace Berk162

namespace HwHttp

def LIBHTTP_REQUEST_MAX_SIZE : Nat := 8192

structure HttpRequest where
  method : Bytes
  path : Bytes
  deriving DecidableEq

/-- `read_buffer[i]`. -/
def load (read_buffer : Nat → UInt8) (i : Nat) : Option UInt8 := do
  ASSERT (i < LIBHTTP_REQUEST_MAX_SIZE + 1)
  return read_buffer i

/-- `read_buffer[i] = c`. -/
def store (read_buffer : Nat → UInt8) (i : Int) (c : UInt8) : Option (Nat → UInt8) := do
  ASSERT (0 ≤ i ∧ i < LIBHTTP_REQUEST_MAX_SIZE + 1)
  return Function.update read_buffer i.toNat c

/-- The bytes that `memcpy` takes from `read_buffer`. -/
def copy (read_buffer : Nat → UInt8) (read_start read_size : Nat) : Option Bytes := do
  ASSERT (read_start + read_size ≤ LIBHTTP_REQUEST_MAX_SIZE + 1)
  return window read_buffer read_start read_size

/-- `while (p (*read_end)) read_end++`. -/
def advance (p : UInt8 → Bool) (read_buffer : Nat → UInt8) : Nat → Nat → Option Nat
  | 0, _ => none
  | fuel + 1, read_end => do
      if p (← load read_buffer read_end) then advance p read_buffer fuel (read_end + 1)
      else return read_end

/-- `[A-Z]`. -/
def in_method (c : UInt8) : Bool := 65 ≤ c && c ≤ 90

/-- `[^ \n]`. -/
def in_path (c : UInt8) : Bool := c != 0 && c != 32 && c != 10

/-- The rest of the request line. -/
def in_line (c : UInt8) : Bool := c != 0 && c != 10

/-- The body of the `do` of `http_request_parse`, from the path on; no pass of a loop is taken more
often than there are bytes in the buffer. -/
def parse_path (read_buffer : Nat → UInt8) (method : Bytes) (read_start : Nat) :
    Option (Option HttpRequest) := do
  let fuel := LIBHTTP_REQUEST_MAX_SIZE + 1
  let read_end ← advance in_path read_buffer fuel read_start
  let read_size := read_end - read_start
  if read_size = 0 then return none
  else
    let path ← copy read_buffer read_start read_size
    let read_end ← advance in_line read_buffer fuel read_end
    if (← load read_buffer read_end) ≠ 10 then return none
    else return some ⟨method, path⟩

def parse_buffer (read_buffer : Nat → UInt8) : Option (Option HttpRequest) := do
  let read_end ← advance in_method read_buffer (LIBHTTP_REQUEST_MAX_SIZE + 1) 0
  if read_end = 0 then return none
  else
    let method ← copy read_buffer 0 read_end
    if (← load read_buffer read_end) ≠ 32 then return none
    else parse_path read_buffer method (read_end + 1)

/-- `read` fails (`none`) or returns a block. -/
abbrev ReadResult : Type := Option { block : Bytes // block.length ≤ LIBHTTP_REQUEST_MAX_SIZE }

def bytes_read : ReadResult → Int
  | some block => block.1.length
  | none => -1

/-- What the read leaves in the buffer. -/
def filled (read_buffer : Nat → UInt8) : ReadResult → Nat → UInt8
  | some block => overlay read_buffer 0 block.1
  | none => read_buffer

def http_request_parse (read_buffer : Nat → UInt8) (result : ReadResult) :
    Option (Option HttpRequest) := do
  parse_buffer (← store (filled read_buffer result) (bytes_read result) 0)

variable {buf : Nat → UInt8} {block pre mid post s : Bytes} {c : UInt8} {p : UInt8 → Bool}

/-! ## Scanning -/

/-- The buffer begins with the string `s`. -/
structure Begins (buf : Nat → UInt8) (s : Bytes) : Prop where
  chars : window buf 0 s.length = s
  fits : s.length ≤ LIBHTTP_REQUEST_MAX_SIZE + 1

namespace Begins

theorem load (h : Begins buf (pre ++ c :: post)) : load buf pre.length = some c := by
  have hfits := h.fits
  rw [List.length_append, List.length_cons] at hfits
  have hget := congrArg (fun l => l[pre.length]?) h.chars
  have hchar : buf pre.length = c := by simpa [window] using hget
  rw [HwHttp.load, ASSERT_pos (by omega), hchar]
  rfl

theorem copy (h : Begins buf (pre ++ mid ++ post)) : copy buf pre.length mid.length = some mid := by
  have hfits := h.fits
  simp only [List.length_append] at hfits
  have hmid : window buf pre.length mid.length = mid := by
    have hall := h.chars
    rw [List.length_append, List.length_append, window_add, window_add, Nat.zero_add] at hall
    exact (List.append_inj (List.append_inj hall (by simp)).1 (by simp)).2
  rw [HwHttp.copy, ASSERT_pos (by omega), hmid]
  rfl

theorem advance {fuel : Nat} (h : Begins buf (pre ++ mid ++ c :: post))
    (hmid : ∀ x ∈ mid, p x = true) (hc : p c = false) (hf : mid.length < fuel) :
    advance p buf fuel pre.length = some (pre.length + mid.length) := by
  induction mid generalizing pre fuel with
  | nil =>
      obtain ⟨fuel, rfl⟩ := Nat.exists_eq_add_of_lt hf
      rw [List.append_nil] at h
      rw [List.length_nil, HwHttp.advance, h.load, Option.bind_eq_bind, Option.bind_some, hc]
      rfl
  | cons x mid ih =>
      cases fuel with
      | zero => omega
      | succ fuel =>
          have hx : Begins buf (pre ++ x :: (mid ++ c :: post)) := by simpa using h
          have hrest : Begins buf (pre ++ [x] ++ mid ++ c :: post) := by simpa using h
          have ih := ih hrest (fun y hy => hmid y (List.mem_cons_of_mem x hy))
            (Nat.lt_of_succ_lt_succ hf)
          rw [HwHttp.advance, hx.load, Option.bind_eq_bind, Option.bind_some,
            if_pos (hmid x List.mem_cons_self), List.length_cons, ← Nat.add_assoc,
            Nat.add_right_comm]
          simpa using ih

end Begins

/-- A loop that does not pass `z` stops at it or in front of it. -/
theorem exists_stop {z : UInt8} (hs : z ∈ s) (hz : p z = false) :
    ∃ mid c post, s = mid ++ c :: post ∧ (∀ x ∈ mid, p x = true) ∧ p c = false := by
  induction s with
  | nil => cases hs
  | cons x s ih =>
      cases hx : p x with
      | false => exact ⟨[], x, s, rfl, by simp, hx⟩
      | true =>
          have hs : z ∈ s := by
            rcases List.mem_cons.1 hs with rfl | hs
            · rw [hz] at hx
              cases hx
            · exact hs
          obtain ⟨mid, c, post, rfl, hmid, hc⟩ := ih hs
          refine ⟨x :: mid, c, post, rfl, fun y hy => ?_, hc⟩
          rcases List.mem_cons.1 hy with rfl | hy
          · exact hx
          · exact hmid y hy

/-- There is one place where a loop stops. -/
theorem stop_unique {mid' post' : Bytes} {c' : UInt8} (h : mid ++ c :: post = mid' ++ c' :: post')
    (hmid : ∀ x ∈ mid, p x = true) (hc : p c = false) (hmid' : ∀ x ∈ mid', p x = true)
    (hc' : p c' = false) : mid = mid' ∧ c = c' ∧ post = post' := by
  have htake := congrArg (List.takeWhile p) h
  rw [List.takeWhile_append_of_pos hmid, List.takeWhile_append_of_pos hmid',
    List.takeWhile_cons_of_neg (by simp [hc]), List.takeWhile_cons_of_neg (by simp [hc']),
    List.append_nil, List.append_nil] at htake
  subst htake
  simpa using List.append_cancel_left h

/-! ## The request line -/

/-- `block` starts with the method `m`, a space, the path `q` and then, with no null in between, a
newline; behind the path there is a space, if it is not the newline. -/
structure RequestLine (block m q : Bytes) : Prop where
  method_ne : m ≠ []
  method : ∀ c ∈ m, 65 ≤ c ∧ c ≤ 90
  path_ne : q ≠ []
  path : ∀ c ∈ q, c ≠ 0 ∧ c ≠ 32 ∧ c ≠ 10
  line : ∃ mid rest, block = m ++ 32 :: (q ++ (mid ++ 10 :: rest)) ∧ 0 ∉ mid ∧
    (mid = [] ∨ ∃ mid', mid = 32 :: mid')

theorem in_method_iff : in_method c = true ↔ 65 ≤ c ∧ c ≤ 90 := by
  simp [in_method]

theorem in_path_iff : in_path c = true ↔ c ≠ 0 ∧ c ≠ 32 ∧ c ≠ 10 := by
  simp [in_path, and_assoc]

theorem in_line_iff : in_line c = true ↔ c ≠ 0 ∧ c ≠ 10 := by
  simp [in_line]

theorem eq_of_not_in_line (hc : in_line c = false) : c = 0 ∨ c = 10 := by
  by_contra hne
  rw [in_line_iff.2 (not_or.1 hne)] at hc
  cases hc

/-- The loop stops at a newline if no null comes before the first one. -/
theorem newline_first {mid' post' : Bytes} (h : mid ++ c :: post = mid' ++ 10 :: post')
    (hmid : ∀ x ∈ mid, in_line x = true) (hc : in_line c = false) (hnull : 0 ∉ mid') : c = 10 := by
  have hin : (10 : UInt8) ∈ mid' ++ [10] := by simp
  obtain ⟨u, d, v, hsplit, hu, hd⟩ := exists_stop hin (show in_line 10 = false from rfl)
  have heq : mid ++ c :: post = u ++ d :: (v ++ post') := by
    calc mid ++ c :: post = mid' ++ [10] ++ post' := by simpa using h
      _ = u ++ d :: (v ++ post') := by rw [hsplit]; simp
  obtain ⟨_, rfl, _⟩ := stop_unique heq hmid hc hu hd
  rcases eq_of_not_in_line hc with rfl | hten
  · have hmem : 0 ∈ mid' ++ [10] := hsplit ▸ by simp
    simp [hnull] at hmem
  · exact hten

/-- What the loops find in front of a request line. -/
theorem RequestLine.found {m m' q' : Bytes}
    (h : RequestLine block m' q') (hs : block ++ [0] = m ++ c :: post)
    (hm : ∀ x ∈ m, in_method x = true) (hc : in_method c = false) :
    m' = m ∧ c = 32 ∧ ∀ q c' post', post = q ++ c' :: post' → (∀ x ∈ q, in_path x = true) →
      in_path c' = false → q' = q ∧ ∀ mid d rest, c' :: post' = mid ++ d :: rest →
        (∀ x ∈ mid, in_line x = true) → in_line d = false → d = 10 := by
  obtain ⟨mid, rest, rfl, hnull, hhead⟩ := h.line
  have hsplit : m ++ c :: post = m' ++ 32 :: (q' ++ (mid ++ 10 :: (rest ++ [0]))) := by
    rw [← hs]
    simp
  have hm' : ∀ x ∈ m', in_method x = true := fun x hx => in_method_iff.2 (h.method x hx)
  obtain ⟨rfl, rfl, rfl⟩ := stop_unique hsplit hm hc hm' rfl
  refine ⟨rfl, rfl, fun q c' post' hpost hq hc' => ?_⟩
  obtain ⟨e, t, ht, he⟩ : ∃ e t, mid ++ 10 :: (rest ++ [0]) = e :: t ∧ in_path e = false := by
    rcases hhead with rfl | ⟨mid', rfl⟩
    · exact ⟨10, _, rfl, rfl⟩
    · exact ⟨32, _, rfl, rfl⟩
  rw [ht] at hpost
  obtain ⟨rfl, rfl, rfl⟩ := stop_unique hpost (fun x hx => in_path_iff.2 (h.path x hx)) he hq hc'
  refine ⟨rfl, fun mid₁ d rest₁ hline hmid hd => ?_⟩
  rw [← ht] at hline
  exact newline_first hline.symm hmid hd hnull

/-- What the loops find is a request line if the last of them stops at a newline. -/
theorem RequestLine.of_found {m q mid : Bytes} {d : UInt8}
    (hs : block ++ [0] = m ++ 32 :: (q ++ (mid ++ 10 :: post))) (hmne : m ≠ [])
    (hm : ∀ x ∈ m, in_method x = true) (hqne : q ≠ []) (hq : ∀ x ∈ q, in_path x = true)
    (hd : (mid ++ 10 :: post).head? = some d) (hstop : in_path d = false)
    (hmid : ∀ x ∈ mid, in_line x = true) : RequestLine block m q := by
  have hmethod : ∀ x ∈ m, 65 ≤ x ∧ x ≤ 90 := fun x hx => in_method_iff.1 (hm x hx)
  refine ⟨hmne, hmethod, hqne, fun x hx => in_path_iff.1 (hq x hx), ?_⟩
  have hnull : 0 ∉ mid := fun h => (in_line_iff.1 (hmid 0 h)).1 rfl
  have hlast : ∃ rest, post = rest ++ [0] := by
    rcases List.eq_nil_or_concat' post with rfl | ⟨rest, z, rfl⟩
    · have hend : block ++ [0] = m ++ 32 :: (q ++ mid) ++ [10] := by simpa using hs
      simpa using (List.append_inj' hend rfl).2
    · have hend : block ++ [0] = m ++ 32 :: (q ++ (mid ++ 10 :: rest)) ++ [z] := by simpa using hs
      exact ⟨rest, by rw [(List.append_inj' hend rfl).2]⟩
  obtain ⟨rest, rfl⟩ := hlast
  refine ⟨mid, rest, ?_, hnull, ?_⟩
  · have hcancel : block ++ [0] = m ++ 32 :: (q ++ (mid ++ 10 :: rest)) ++ [0] := by simpa using hs
    exact List.append_cancel_right hcancel
  · cases mid with
    | nil => exact Or.inl rfl
    | cons x mid =>
        right
        obtain rfl : x = d := by simpa using hd
        have hline := in_line_iff.1 (hmid x List.mem_cons_self)
        by_cases hx : x = 32
        · exact ⟨mid, by rw [hx]⟩
        · rw [in_path_iff.2 ⟨hline.1, hx, hline.2⟩] at hstop
          cases hstop

/-- From the path on: a path is found, and whether a newline is. -/
theorem parse_path_spec {m : Bytes} (hbuf : Begins buf (pre ++ s)) (hnull : 0 ∈ s) :
    ∃ q e line mid d rest, s = q ++ e :: line ∧ (∀ x ∈ q, in_path x = true) ∧ in_path e = false ∧
      e :: line = mid ++ d :: rest ∧ (∀ x ∈ mid, in_line x = true) ∧ in_line d = false ∧
      parse_path buf m pre.length = some (if q = [] ∨ d ≠ 10 then none else some ⟨m, q⟩) := by
  have hlen := hbuf.fits
  obtain ⟨q, e, line, rfl, hq, he⟩ := exists_stop hnull (show in_path 0 = false from rfl)
  have hline : (0 : UInt8) ∈ e :: line := by
    rcases List.mem_append.1 hnull with h | h
    · exact absurd (hq 0 h) (by decide)
    · exact h
  obtain ⟨mid, d, rest, hsplit, hmid, hd⟩ := exists_stop hline (show in_line 0 = false from rfl)
  refine ⟨q, e, line, mid, d, rest, rfl, hq, he, hsplit, hmid, hd, ?_⟩
  have hlen' := congrArg List.length hsplit
  simp only [List.length_append, List.length_cons] at hlen hlen'
  have hbuf₁ : Begins buf (pre ++ q ++ e :: line) := by simpa using hbuf
  have hbuf₂ : Begins buf (pre ++ q ++ mid ++ d :: rest) := by
    rw [hsplit] at hbuf₁
    simpa using hbuf₁
  have hpath := hbuf₁.advance hq he (show q.length < LIBHTTP_REQUEST_MAX_SIZE + 1 by omega)
  have hrest := hbuf₂.advance hmid hd (show mid.length < LIBHTTP_REQUEST_MAX_SIZE + 1 by omega)
  have hload := hbuf₂.load
  rw [List.length_append] at hrest
  rw [List.length_append, List.length_append] at hload
  rw [parse_path]
  simp only [hpath, Option.bind_eq_bind, Option.bind_some, Nat.add_sub_cancel_left, hbuf₁.copy,
    hrest, hload]
  by_cases hqne : q = []
  · rw [if_pos (by rw [hqne]; rfl), if_pos (Or.inl hqne)]
    rfl
  · rw [if_neg (by simpa using hqne)]
    by_cases hten : d = 10
    · rw [if_neg (by simpa using hten), if_neg (by simp [hqne, hten])]
      rfl
    · rw [if_pos hten, if_pos (Or.inr hten)]
      rfl

theorem parse_buffer_spec (hbuf : Begins buf (block ++ [0])) :
    ∃ r, parse_buffer buf = some r ∧ ∀ m q, r = some ⟨m, q⟩ ↔ RequestLine block m q := by
  have hlen := hbuf.fits
  have hnull : (0 : UInt8) ∈ block ++ [0] := by simp
  obtain ⟨m, c, post, hs, hm, hc⟩ := exists_stop hnull (show in_method 0 = false from rfl)
  have hfound {m' q' : Bytes} (h : RequestLine block m' q') := h.found hs hm hc
  rw [hs] at hbuf hlen hnull
  simp only [List.length_append, List.length_cons] at hlen
  have hstart : Begins buf ([] ++ m ++ c :: post) := hbuf
  have hmethod := hstart.advance hm hc (show m.length < LIBHTTP_REQUEST_MAX_SIZE + 1 by omega)
  have hcopy := hstart.copy
  rw [List.length_nil, Nat.zero_add] at hmethod
  rw [List.length_nil] at hcopy
  rw [parse_buffer]
  simp only [hmethod, Option.bind_eq_bind, Option.bind_some, hcopy, hbuf.load]
  by_cases hmne : m = []
  · rw [if_pos (by rw [hmne]; rfl)]
    refine ⟨none, rfl, fun m' q' => ⟨fun h => (by cases h), fun h => ?_⟩⟩
    exact absurd ((hfound h).1.trans hmne) h.method_ne
  rw [if_neg (by simpa using hmne)]
  by_cases hspace : c = 32
  · subst hspace
    have hpost : (0 : UInt8) ∈ post := by
      rcases List.mem_append.1 hnull with h | h
      · exact absurd (hm 0 h) (by decide)
      · simpa using h
    have hbuf₁ : Begins buf (m ++ [32] ++ post) := by simpa using hbuf
    obtain ⟨q, e, line, mid, d, rest, rfl, hq, he, hsplit, hmid, hd, hparse⟩ :=
      parse_path_spec (m := m) hbuf₁ hpost
    rw [List.length_append, List.length_singleton] at hparse
    rw [if_neg (by simp), hparse]
    refine ⟨_, rfl, fun m' q' => ⟨fun h => ?_, fun h => ?_⟩⟩
    · split at h
      · cases h
      · cases h
        rename_i hok
        rw [not_or, not_not] at hok
        obtain ⟨hqne, rfl⟩ := hok
        exact .of_found (hsplit ▸ hs) hmne hm hqne hq (hsplit ▸ rfl) he hmid
    · obtain ⟨rfl, _, hrest⟩ := hfound h
      obtain ⟨rfl, hnewline⟩ := hrest q e line rfl hq he
      have hten := hnewline mid d rest hsplit hmid hd
      rw [if_neg (by simp [h.path_ne, hten])]
  · rw [if_pos hspace]
    refine ⟨none, rfl, fun m' q' => ⟨fun h => (by cases h), fun h => ?_⟩⟩
    exact absurd (hfound h).2.1 hspace

/-! ## The call -/

/-- The call stays inside its buffer, and what it returns is what the block starts with. -/
def Parses (read_buffer : Nat → UInt8) (result : ReadResult) : Prop :=
  ∃ r, http_request_parse read_buffer result = some r ∧
    ∀ m q, r = some ⟨m, q⟩ ↔ ∃ block, result = some block ∧ RequestLine block.1 m q

theorem begins_filled (read_buffer : Nat → UInt8)
    (block : { block : Bytes // block.length ≤ LIBHTTP_REQUEST_MAX_SIZE }) :
    Begins (Function.update (overlay read_buffer 0 block.1) block.1.length 0) (block.1 ++ [0]) := by
  refine ⟨?_, by simpa using block.2⟩
  have hblock : window (Function.update (overlay read_buffer 0 block.1) block.1.length 0) 0
      block.1.length = block.1 := by
    have hself : window (overlay read_buffer 0 block.1) 0 block.1.length = block.1 :=
      window_overlay_self
    refine Eq.trans (window_congr fun k _ hk => ?_) hself
    exact Function.update_of_ne (by omega) ..
  rw [List.length_append, List.length_singleton, window_add, hblock, Nat.zero_add]
  simp [window]

/-- Nothing was read: the null is stored in front of the buffer. -/
theorem http_request_parse_failed (read_buffer : Nat → UInt8) :
    http_request_parse read_buffer none = none := rfl

/-- With memory from `malloc`, the parser keeps to its buffer and its grammar exactly when the read
does not fail. -/
theorem http_request_parse_iff (read_buffer : Nat → UInt8) (result : ReadResult) :
    Parses read_buffer result ↔ result.isSome = true := by
  cases result with
  | none =>
      refine ⟨fun ⟨r, hr, _⟩ => ?_, fun h => by cases h⟩
      rw [http_request_parse_failed] at hr
      cases hr
  | some block =>
      refine ⟨fun _ => rfl, fun _ => ?_⟩
      have hin : (0 : Int) ≤ block.1.length ∧
          (block.1.length : Int) < LIBHTTP_REQUEST_MAX_SIZE + 1 := by
        have := block.2
        omega
      obtain ⟨r, hr, hiff⟩ := parse_buffer_spec (begins_filled read_buffer block)
      refine ⟨r, ?_, fun m q => (hiff m q).trans ⟨fun h => ⟨block, rfl, h⟩, ?_⟩⟩
      · rw [http_request_parse, bytes_read, filled, store, ASSERT_pos hin]
        exact hr
      · rintro ⟨_, heq, h⟩
        cases heq
        exact h

/-- A read that failed. -/
theorem http_request_parse_overruns : ¬ Parses (fun _ => 0) none := by
  rintro ⟨r, hr, _⟩
  rw [http_request_parse_failed] at hr
  cases hr

end HwHttp

end Berk162
