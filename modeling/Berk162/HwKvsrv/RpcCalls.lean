import Berk162.HwKvsrv.RpcReceive

/-!
# RpcCalls — one call over a connection

The request that the client writes is what the server takes apart again, however the bytes are cut
into reads, and the same holds of the response.
-/

namespace Berk162.Kvsrv

/-- The body of a call; no body is an empty one. -/
def content_of (body : Option CString) : CString := body.getD ⟨[], List.not_mem_nil⟩

/-- What a call sends. -/
def request (c : RpcClient) (method : CString) (body : Option CString) : Bytes :=
  request_header c method (Int32.ofNat (content_of body).chars.length) ++ (content_of body).chars

/-- A method name that the request line and the searches of the server leave whole. -/
structure IsMethod (method : CString) : Prop where
  length_le : method.chars.length ≤ 255
  no_space : 32 ∉ method.chars
  no_return : 13 ∉ method.chars
  no_client_id : Absent (text "X-Client-Id:") method.chars
  no_content_length : Absent (text "Content-Length:") method.chars

section

variable {url host method : CString} {client_id x : Int32} {c : RpcClient} {s rest content : Bytes}

theorem int32_format_d (hs : ∀ c, s.head? = some c → isdigit c = false) :
    atoi (32 :: (format_d x.toInt ++ s)) = x := by
  have hmin := x.le_toInt
  have hmax := x.toInt_lt
  rw [atoi, strtol_format_d (by omega) hs, Int32.ofInt_toInt]

theorem mem_format_d {d : UInt8} {y : Int} (h : d ∈ format_d y) : d = 45 ∨ isdigit d = true := by
  unfold format_d at h
  split at h
  · rcases List.mem_cons.1 h with rfl | h
    · exact Or.inl rfl
    · exact Or.inr (isdigit_of_mem_decimal h)
  · exact Or.inr (isdigit_of_mem_decimal h)

theorem not_mem_format_d {d : UInt8} (hd : (d != 45 && !isdigit d) = true) (y : Int) :
    d ∉ format_d y := by
  intro h
  rcases mem_format_d h with rfl | hdigit
  · cases hd
  · rw [hdigit, Bool.not_true, Bool.and_false] at hd
    cases hd

/-- A line in front of another: the blank line does not begin there. -/
theorem finds_past_line {a : Bytes} (ha : 13 ∉ a) (hs : s.head? ≠ some 13)
    (h : Finds blank_line s rest) : Finds blank_line (a ++ 13 :: 10 :: s) rest := by
  have hpair : Finds blank_line ([13, 10] ++ s) rest := by
    apply h.skip
    intro i hi hocc
    have hcases : i = 0 ∨ i = 1 := by
      rw [List.length_cons, List.length_singleton] at hi
      omega
    rcases hcases with rfl | rfl
    · have hget := hocc.getElem? (i := 2) (by decide)
      rw [List.head?_eq_getElem?] at hs
      exact hs hget
    · have hget := hocc.getElem? (i := 0) (by decide)
      cases hget
  exact Finds.past_letters (c := 13) rfl ha hpair

/-! ## The request -/

/-- The host is what stands in front of the colon, as far as there is room for it. -/
theorem host_new (url : CString) (client_id : Int32) : ∃ p n, p <:+ url.chars ∧
    (rpc_client_new url client_id).host = cstr (p.take n) ∧ Absent (text ":") (p.take n) := by
  have hp : (if text "http://" <+: url.chars then url.chars.drop 7 else url.chars) <:+ url.chars := by
    split
    · exact List.drop_suffix 7 url.chars
    · exact List.suffix_refl _
  unfold rpc_client_new
  generalize (if text "http://" <+: url.chars then url.chars.drop 7 else url.chars) = p at hp
  dsimp only
  cases hcolon : strstr p (text ":") with
  | none =>
      have habsent := (findFirst_eq_none (by decide)).1 hcolon
      refine ⟨p, 63, hp, rfl, fun k hocc => ?_⟩
      exact habsent k ((OccursAt.take_iff (by decide)).1 hocc).1
  | some hlen =>
      have hfirst := (findFirst_eq_some (by decide)).1 hcolon
      refine ⟨p, min hlen 63, hp, rfl, hfirst.absent_take (by decide) ?_⟩
      exact Nat.lt_of_le_of_lt (Nat.min_le_left hlen 63) (Nat.lt_succ_self hlen)

/-- What the searches need of a client's host. -/
structure IsHost (host : CString) : Prop where
  no_colon : 58 ∉ host.chars
  no_return : 13 ∉ host.chars

theorem isHost_new (hurl : 13 ∉ url.chars) : IsHost (rpc_client_new url client_id).host := by
  obtain ⟨p, n, hp, hhost, hcolon⟩ := host_new url client_id
  have hpart : (rpc_client_new url client_id).host.chars <+: p.take n := hhost ▸ cstr_begins _
  exact ⟨fun h => hcolon.not_mem (hpart.subset h),
    fun h => hurl (hp.subset ((List.take_prefix n p).subset (hpart.subset h)))⟩

/-- The lines of a request. -/
theorem request_lines (c : RpcClient) (method : CString) (body_len : Int32) (content : Bytes) :
    request_header c method body_len ++ content =
      text "POST /" ++ (method.chars ++ 32 :: (text "HTTP/1.1" ++ 13 :: 10 :: (text "Host: " ++
        (c.host.chars ++ 13 :: 10 :: (text "X-Client-Id:" ++ (32 :: (format_d c.client_id.toInt ++
          13 :: 10 :: (text "Content-Length:" ++ (32 :: (format_d body_len.toInt ++ 13 :: 10 ::
            (text "Connection: close" ++ (blank_line ++ content)))))))))))) := by
  have hline : text " HTTP/1.1\r\nHost: " = 32 :: (text "HTTP/1.1" ++ 13 :: 10 :: text "Host: ") := rfl
  have hid : text "\r\nX-Client-Id: " = 13 :: 10 :: (text "X-Client-Id:" ++ [32]) := rfl
  have hlen : text "\r\nContent-Length: " = 13 :: 10 :: (text "Content-Length:" ++ [32]) := rfl
  have hclose : text "\r\nConnection: close\r\n\r\n" =
    13 :: 10 :: (text "Connection: close" ++ blank_line) := rfl
  simp only [request_header, hline, hid, hlen, hclose, List.append_assoc, List.cons_append,
    List.nil_append]

variable {body_len : Int32}

theorem finds_blank_line (body_len : Int32) (content : Bytes) (hm : IsMethod method)
    (hhost : IsHost c.host) :
    Finds blank_line (request_header c method body_len ++ content) content := by
  have hreturn : ∀ y, (13 : UInt8) ∉ format_d y := not_mem_format_d (by decide)
  rw [request_lines]
  -- from the last line to the first
  have hclose : Finds blank_line (text "Connection: close" ++ (blank_line ++ content)) content :=
    (Finds.here blank_line content).past_letters (c := 13) rfl (by decide)
  have hlength := finds_past_line (a := text "Content-Length:" ++ 32 :: format_d body_len.toInt)
    (by simp [hreturn, text]) (by simp [text]) hclose
  have hid := finds_past_line (a := text "X-Client-Id:" ++ 32 :: format_d c.client_id.toInt)
    (by simp [hreturn, text]) (by simp [text]) hlength
  have hname := finds_past_line (a := text "Host: " ++ c.host.chars)
    (by simp [hhost.no_return, text]) (by simp [text]) hid
  have hfirst := finds_past_line (a := text "POST /" ++ (method.chars ++ 32 :: text "HTTP/1.1"))
    (by simp [hm.no_return, text]) (by simp [text]) hname
  simpa only [List.append_assoc, List.cons_append] using hfirst

/-- A search for a field of the header, up to the line of the client id. -/
theorem finds_field {d : UInt8} {needle : Bytes} (hhead : needle.head? = some d)
    (hm : Absent needle method.chars) (hhost : IsHost c.host)
    (hd : d ∉ text "POST / HTTP/1.1\r\nHost: \r\n") (hspace : 32 ∉ needle) (hreturn : 13 ∉ needle)
    (hcolon : 58 ∈ needle) (h : Finds needle s rest) :
    Finds needle (text "POST /" ++ (method.chars ++ 32 :: (text "HTTP/1.1" ++ 13 :: 10 ::
      (text "Host: " ++ (c.host.chars ++ 13 :: 10 :: s))))) rest := by
  have hnot : ∀ a : Bytes, a ⊆ text "POST / HTTP/1.1\r\nHost: \r\n" → d ∉ a := fun a ha h => hd (ha h)
  have hne : needle ≠ [] := List.ne_nil_of_mem hcolon
  -- from the last line to the first
  have hbreak : Finds needle (10 :: s) rest :=
    Finds.past_letters (a := [10]) hhead (hnot [10] (by decide)) h
  have hname := Finds.past_barrier hreturn hne (Absent.of_not_mem hcolon hhost.no_colon) hbreak
  have hline := Finds.past_letters (a := text "HTTP/1.1" ++ 13 :: 10 :: text "Host: ") hhead
    (hnot _ (by decide)) hname
  have hmethod := Finds.past_barrier hspace hne hm hline
  have hpost := Finds.past_letters (a := text "POST /") hhead (hnot _ (by decide)) hmethod
  simpa only [List.append_assoc, List.cons_append] using hpost

theorem finds_client_id (body_len : Int32) (content : Bytes) (hm : IsMethod method)
    (hhost : IsHost c.host) : ∃ rest,
    Finds (text "X-Client-Id:") (request_header c method body_len ++ content)
      (32 :: (format_d c.client_id.toInt ++ 13 :: rest)) := by
  rw [request_lines]
  have hhere := Finds.here (text "X-Client-Id:") (32 :: (format_d c.client_id.toInt ++ 13 :: 10 ::
    (text "Content-Length:" ++ (32 :: (format_d body_len.toInt ++ 13 :: 10 ::
      (text "Connection: close" ++ (blank_line ++ content)))))))
  exact ⟨_, finds_field (d := 88) rfl hm.no_client_id hhost (by decide) (by decide) (by decide)
    (by decide) hhere⟩

theorem finds_content_length (body_len : Int32) (content : Bytes) (hm : IsMethod method)
    (hhost : IsHost c.host) : ∃ rest,
    Finds (text "Content-Length:") (request_header c method body_len ++ content)
      (32 :: (format_d body_len.toInt ++ 13 :: rest)) := by
  rw [request_lines]
  have hhere := Finds.here (text "Content-Length:") (32 :: (format_d body_len.toInt ++ 13 :: 10 ::
    (text "Connection: close" ++ (blank_line ++ content))))
  have hnumber := Finds.past_letters (a := format_d c.client_id.toInt ++ [13, 10]) (c := 67) rfl
    (by simp [not_mem_format_d (d := 67) (by decide)]) hhere
  -- the name of the field before it
  have habsent : Absent (text "Content-Length:") (text "X-Client-Id:") := by
    rw [← findFirst_eq_none (by decide)]
    decide
  have hname := Finds.past_barrier (c := 32) (by decide) (by decide) habsent hnumber
  have hname' : Finds (text "Content-Length:") (text "X-Client-Id:" ++ (32 ::
      (format_d c.client_id.toInt ++ 13 :: 10 :: (text "Content-Length:" ++ (32 ::
        (format_d body_len.toInt ++ 13 :: 10 :: (text "Connection: close" ++ (blank_line ++ content))))))))
      (32 :: (format_d body_len.toInt ++ 13 :: 10 ::
        (text "Connection: close" ++ (blank_line ++ content)))) := by
    simpa only [List.append_assoc, List.cons_append, List.nil_append] using hname
  exact ⟨_, finds_field (d := 67) rfl hm.no_content_length hhost (by decide) (by decide) (by decide)
    (by decide) hname'⟩

theorem null_free_header (c : RpcClient) (method : CString) (body_len : Int32) :
    0 ∉ request_header c method body_len := by
  have hnumber : ∀ y, (0 : UInt8) ∉ format_d y := not_mem_format_d (by decide)
  have hnull : ∀ a ∈ [text "POST /", text " HTTP/1.1\r\nHost: ", text "\r\nX-Client-Id: ",
      text "\r\nContent-Length: ", text "\r\nConnection: close\r\n\r\n"], 0 ∉ a := by decide
  simp only [List.forall_mem_cons] at hnull
  simp only [request_header, List.mem_append, not_or]
  exact ⟨⟨⟨⟨⟨⟨⟨⟨hnull.1, method.no_null⟩, hnull.2.1⟩, c.host.no_null⟩, hnull.2.2.1⟩,
    hnumber _⟩, hnull.2.2.2.1⟩, hnumber _⟩, hnull.2.2.2.2.1⟩

/-- A request is one string. -/
theorem cstr_request (hcontent : 0 ∉ content) :
    (cstr (request_header c method body_len ++ content)).chars =
      request_header c method body_len ++ content := by
  apply cstr_of_no_null
  rw [List.mem_append, not_or]
  exact ⟨null_free_header c method body_len, hcontent⟩

theorem Finds.strstr_drop {needle : Bytes} (hne : needle ≠ []) (h : Finds needle s rest) :
    ∃ k, strstr s needle = some k ∧ s.drop (k + needle.length) = rest := by
  obtain ⟨k, hfirst, hrest⟩ := h
  exact ⟨k, (findFirst_eq_some hne).2 hfirst, hrest⟩

/-- The body begins after the header. -/
theorem header_end_of_request (body_len : Int32) (hm : IsMethod method) (hhost : IsHost c.host)
    (hcontent : 0 ∉ content) :
    header_end_of (request_header c method body_len ++ content) =
      some (request_header c method body_len).length := by
  obtain ⟨k, hfirst, hrest⟩ :=
    finds_blank_line body_len content hm hhost
  have hbound := hfirst.occurs.bound blank_line_ne_nil
  have hlen := congrArg List.length hrest
  have hblank : blank_line.length = 4 := rfl
  rw [List.length_drop, List.length_append] at hlen
  rw [List.length_append] at hbound
  apply header_end_of_eq_some.2
  rw [cstr_request hcontent]
  have hk : (request_header c method body_len).length - 4 = k := by omega
  exact ⟨by omega, hk ▸ hfirst⟩

theorem content_length_of_request (hm : IsMethod method) (hhost : IsHost c.host) :
    Received.content_length_of (request_header c method body_len ++ content) = body_len := by
  obtain ⟨rest, hfinds⟩ := finds_content_length body_len content hm hhost
  obtain ⟨k, hk, hrest⟩ := Finds.strstr_drop (by decide) hfinds
  rw [Received.content_length_of, hk, Option.some_or]
  change atoi ((request_header c method body_len ++ content).drop (k + 15)) = body_len
  have hlen : (text "Content-Length:").length = 15 := rfl
  rw [hlen] at hrest
  rw [hrest]
  apply int32_format_d
  rintro d ⟨⟩
  rfl

theorem client_id_of_request (hm : IsMethod method) (hhost : IsHost c.host) :
    client_id_of (request_header c method body_len ++ content) = c.client_id := by
  obtain ⟨rest, hfinds⟩ := finds_client_id body_len content hm hhost
  obtain ⟨k, hk, hrest⟩ := Finds.strstr_drop (by decide) hfinds
  rw [client_id_of, hk, Option.some_or]
  change atoi ((request_header c method body_len ++ content).drop (k + 12)) = c.client_id
  have hlen : (text "X-Client-Id:").length = 12 := rfl
  rw [hlen] at hrest
  rw [hrest]
  apply int32_format_d
  rintro d ⟨⟩
  rfl

theorem method_of_request (hm : IsMethod method) :
    method_of (request_header c method body_len ++ content) = method := by
  rw [request_lines]
  generalize text "HTTP/1.1" ++ 13 :: 10 :: (text "Host: " ++ _) = s
  have hpost : text "POST /" <+: text "POST /" ++ (method.chars ++ 32 :: s) := List.prefix_append _ _
  have hdrop : (text "POST /" ++ (method.chars ++ 32 :: s)).drop 6 = method.chars ++ 32 :: s :=
    List.drop_left' rfl
  have hspace : strstr (method.chars ++ 32 :: s) (text " ") = some method.chars.length := by
    apply (findFirst_eq_some (by decide)).2
    have hhere : FirstAt (text " ") (32 :: s) 0 := FirstAt.here ⟨s, rfl⟩
    exact hhere.past_letters (c := 32) rfl hm.no_space
  rw [method_of, if_pos hpost, hdrop, hspace]
  dsimp only
  rw [Nat.min_eq_left hm.length_le, List.take_left' rfl]
  exact CString.ext (cstr_of_no_null method.no_null)

/-! ## The server -/

variable {segments : List Segment} {p : List Segment}

/-- Reads that are not yet all of them have brought less. -/
theorem length_flatten_lt (hp : p <+: segments) (hne : p ≠ segments) :
    (p.map Subtype.val).flatten.length < (segments.map Subtype.val).flatten.length := by
  obtain ⟨q, rfl⟩ := hp
  cases q with
  | nil =>
      exact absurd (List.append_nil p).symm hne
  | cons segment q =>
      have hpos : 0 < segment.1.length := List.length_pos_iff.2 segment.2
      simp only [List.map_append, List.map_cons, List.flatten_append, List.flatten_cons,
        List.length_append]
      omega

/-- When the whole header has arrived, the loop knows the length of the body. -/
theorem after_request {body : CString} (hm : IsMethod method) (hhost : IsHost c.host)
    (hrequest : arrived segments = request_header c method body_len ++ body.chars)
    (hp : p <+: segments) :
    (Received.init.after p).whole = true ↔
      (request_header c method body_len).length ≤ (arrived p).length ∧
        Received.enough (request_header c method body_len).length body_len (arrived p).length =
          true := by
  have hpart := arrived_mono hp
  obtain ⟨hend, hlength⟩ := Received.after_header p
  have hfound := header_end_of_request body_len hm hhost body.no_null
  rw [← hrequest] at hfound
  have hfound' := header_end_of_part hpart hfound
  rw [Received.whole, hend, Received.after_buf]
  split at hfound'
  · next hle =>
    -- the header is the same in every part of the request that contains it
    obtain ⟨hfirst, hfirstlen⟩ := first_with_spec (request_header c method body_len).length p
    have hpart : first_with (request_header c method body_len).length p <+:
        request_header c method body_len ++ body.chars := hrequest ▸ hfirst.trans hpart
    obtain ⟨content, hcontent⟩ : ∃ content,
        first_with (request_header c method body_len).length p =
          request_header c method body_len ++ content := by
      obtain ⟨content, hcontent⟩ := List.prefix_of_prefix_length_le
        (List.prefix_append (request_header c method body_len) body.chars) hpart (hfirstlen hle)
      exact ⟨content, hcontent.symm⟩
    have hnull : 0 ∉ content := by
      rw [hcontent, List.prefix_append_right_inj] at hpart
      exact fun h => body.no_null (hpart.subset h)
    have hvalue := hlength _ hfound'
    rw [hcontent, cstr_request hnull, content_length_of_request hm hhost] at hvalue
    rw [hfound', hvalue]
    exact ⟨fun h => ⟨hle, h⟩, fun h => h.2⟩
  · next hlt =>
    rw [hfound']
    exact ⟨fun h => (by cases h), fun h => absurd h.1 hlt⟩

/-- The server reads the whole request and nothing after it. -/
theorem receive_request {body : CString} (hm : IsMethod method) (hhost : IsHost c.host)
    (hlen : body_len = Int32.ofNat body.chars.length)
    (hrequest : (segments.map Subtype.val).flatten = request_header c method body_len ++ body.chars)
    (hfits : (request_header c method body_len ++ body.chars).length ≤ BUF_MAX) :
    Received.init.receive (segments.map .bytes) = some (Received.init.after segments) := by
  have harrived : ∀ q, q <+: segments → arrived q = (q.map Subtype.val).flatten := by
    rintro q ⟨t, rfl⟩
    have hle : (q.map Subtype.val).flatten.length ≤ BUF_MAX := by
      rw [← hrequest, List.map_append, List.flatten_append, List.length_append] at hfits
      omega
    exact List.take_of_length_le hle
  have hall := (harrived segments (List.prefix_refl _)).trans hrequest
  have hmax : BUF_MAX = 65535 := rfl
  -- the sum in the test does not overflow
  have hsum : (Int32.ofNat (request_header c method body_len).length + body_len).toInt =
      ((request_header c method body_len ++ body.chars).length : Int) := by
    rw [List.length_append] at hfits ⊢
    generalize (request_header c method body_len).length = n at hfits ⊢
    rw [hlen, ← Int32.ofNat_add, Int32.toInt_ofNat_of_lt (by omega)]
  have henough : ∀ n, Received.enough (request_header c method body_len).length body_len n = true ↔
      (request_header c method body_len ++ body.chars).length ≤ n := by
    intro n
    rw [Received.enough, decide_eq_true_iff, hsum, Int.ofNat_le]
  have hdone : ∀ q, q <+: segments → ((Received.init.after q).Done ↔ q = segments) := by
    intro q hq
    have hwhole := after_request hm hhost hall hq
    rw [henough] at hwhole
    rw [Received.Done, hwhole, Received.after_buf]
    constructor
    · intro h
      by_contra hne
      have hlt := length_flatten_lt hq hne
      rw [hrequest, ← harrived q hq] at hlt
      omega
    · rintro rfl
      rw [hall, List.length_append]
      exact Or.inl ⟨by omega, Nat.le_refl _⟩
  obtain ⟨q, hq, _, ⟨hd, heq⟩ | ⟨hd, rfl, _⟩⟩ :=
    Received.receive_spec Received.not_done_init segments []
  · obtain rfl := (hdone q hq).1 hd
    rwa [List.append_nil] at heq
  · exact absurd ((hdone q hq).2 rfl) hd

/-- The server calls `dispatch` once, with what the client asked for. -/
theorem handler_request {body : CString} (dispatch : Dispatch) (hm : IsMethod method)
    (hhost : IsHost c.host) (hlen : body_len = Int32.ofNat body.chars.length)
    (hrequest : (segments.map Subtype.val).flatten = request_header c method body_len ++ body.chars)
    (hfits : (request_header c method body_len ++ body.chars).length ≤ BUF_MAX) :
    handler_thread dispatch (segments.map .bytes) =
      some ⟨[(method, body, c.client_id)], response (dispatch method body c.client_id)⟩ := by
  have hbuf : arrived segments = request_header c method body_len ++ body.chars := by
    rw [arrived, hrequest, List.take_of_length_le hfits]
  have hend := (Received.after_header segments).1
  rw [hbuf, header_end_of_request body_len hm hhost body.no_null] at hend
  have hbody : cstr ((request_header c method body_len ++ body.chars).drop
      (request_header c method body_len).length) = body := by
    rw [List.drop_left' rfl]
    exact CString.ext (cstr_of_no_null body.no_null)
  simp only [handler_thread, receive_request hm hhost hlen hrequest hfits, Option.bind_eq_bind,
    Option.bind_some, hend, Received.after_buf, hbuf, cstr_request body.no_null,
    method_of_request hm, client_id_of_request hm hhost, hbody]
  rfl

/-! ## The response -/

/-- The lines of a response. -/
theorem response_lines (resp : CString) : response (some resp) =
    text "HTTP/1.1 200 OK" ++ 13 :: 10 :: (text "Content-Length: " ++
      (format_d (Int32.ofNat resp.chars.length).toInt ++ 13 :: 10 ::
        (text "Connection: close" ++ (blank_line ++ resp.chars)))) := by
  have hline : text "HTTP/1.1 200 OK\r\nContent-Length: " =
    text "HTTP/1.1 200 OK" ++ 13 :: 10 :: text "Content-Length: " := rfl
  have hclose : text "\r\nConnection: close\r\n\r\n" =
    13 :: 10 :: (text "Connection: close" ++ blank_line) := rfl
  simp only [response, hline, hclose, List.append_assoc, List.cons_append]

theorem finds_response_body (resp : CString) :
    Finds blank_line (response (some resp)) resp.chars := by
  have hreturn : ∀ y, (13 : UInt8) ∉ format_d y := not_mem_format_d (by decide)
  have hclose : Finds blank_line (text "Connection: close" ++ (blank_line ++ resp.chars)) resp.chars :=
    (Finds.here blank_line resp.chars).past_letters (c := 13) rfl (by decide)
  have hlength := finds_past_line
    (a := text "Content-Length: " ++ format_d (Int32.ofNat resp.chars.length).toInt)
    (by simp [hreturn, text, -Int32.toInt_ofNat']) (by simp [text]) hclose
  have hfirst := finds_past_line (a := text "HTTP/1.1 200 OK") (by simp [text])
    (by simp [text, -Int32.toInt_ofNat']) hlength
  rw [response_lines]
  simpa only [List.append_assoc, List.cons_append] using hfirst

theorem null_free_response (resp : CString) : 0 ∉ response (some resp) := by
  have hnumber : ∀ y, (0 : UInt8) ∉ format_d y := not_mem_format_d (by decide)
  have hnull := resp.no_null
  rw [response_lines]
  simp [text, blank_line, hnull, hnumber, -Int32.toInt_ofNat']

/-- The client looks for `200` in the whole response. -/
theorem response_status (resp : CString) : strstr (response (some resp)) (text "200") ≠ none := by
  intro hnone
  apply (findFirst_eq_none (by decide)).1 hnone 9
  rw [response, List.append_assoc, List.append_assoc]
  exact ⟨_, rfl⟩

theorem reply_of_unavailable : reply_of (response none) = none := by
  have hne : response none ≠ [] := by simp [response, text]
  have hnull : 0 ∉ response none := by simp [response, text]
  have htwo : 50 ∉ response none := by simp [response, text]
  have hstatus : strstr (response none) (text "200") = none :=
    (findFirst_eq_none (by decide)).2 (Absent.of_not_mem (by decide) htwo)
  rw [reply_of, if_neg hne, cstr_of_no_null hnull, hstatus]

/-- The client takes the response apart again. -/
theorem reply_of_response (resp : Option CString) : reply_of (response resp) = resp := by
  cases resp with
  | none =>
      exact reply_of_unavailable
  | some resp =>
      obtain ⟨status, hstatus⟩ := Option.ne_none_iff_exists'.1 (response_status resp)
      obtain ⟨sep, hsep, hrest⟩ := Finds.strstr_drop blank_line_ne_nil (finds_response_body resp)
      have hblank : blank_line.length = 4 := rfl
      have hne : response (some resp) ≠ [] := by simp [response, text, -Int32.toInt_ofNat']
      rw [reply_of, if_neg hne, cstr_of_no_null (null_free_response resp), hstatus, hsep]
      dsimp only
      rw [← hblank, hrest]
      exact congrArg some (CString.ext (cstr_of_no_null resp.no_null))

theorem content_of_bytes (body : Option CString) :
    (body.map CString.chars).getD [] = (content_of body).chars := by
  cases body <;> rfl

/-- The client writes the request, when its writes are complete. -/
theorem send_request_eq {net : Net} {body : Option CString} (hsocket : net.socket = true)
    (hconnect : net.connect c.host c.port = true) (hwrite : ∀ bs, net.write bs = bs.length)
    (hheader : (request_header c method (Int32.ofNat (content_of body).chars.length)).length < 512)
    (hbody : (content_of body).chars.length ≤ BUF_MAX) :
    ∃ writes, writes.flatten = request c method body ∧
      send_request net c method body = some (writes, true) := by
  have hmax : BUF_MAX = 65535 := rfl
  have hcontent := content_of_bytes body
  have hbody_len : (body.map fun body => Int32.ofNat body.chars.length).getD 0 =
      Int32.ofNat (content_of body).chars.length := by
    cases body <;> rfl
  have hval : (Int32.ofNat (content_of body).chars.length).toInt = (content_of body).chars.length :=
    Int32.toInt_ofNat_of_lt (by omega)
  have hpos : 0 < Int32.ofNat (content_of body).chars.length ↔ (content_of body).chars ≠ [] := by
    rw [Int32.lt_iff_toInt_lt, hval, ← List.length_pos_iff]
    exact Int.natCast_pos
  -- the buffer of the header holds all of it
  have hbuffer : ∀ header : Bytes, header.length < 512 →
      (header.take 511 ++ [0]).take header.length = header := by
    intro header hlen
    have hall : header.take 511 = header := List.take_of_length_le (by omega)
    rw [hall, List.take_left' rfl]
  simp only [send_request, hsocket, hconnect, hbody_len, hcontent, hbuffer _ hheader, hval, hwrite,
    Int.toNat_natCast, List.take_length, Bool.not_true, Bool.false_eq_true, if_false, ne_eq,
    not_true_eq_false, decide_true]
  rw [if_neg (by omega)]
  split
  · exact ⟨_, by simp [request], rfl⟩
  · next hnot =>
    rw [hpos, not_not] at hnot
    refine ⟨_, ?_, rfl⟩
    rw [request, hnot, List.append_nil, List.flatten_singleton]

/-! ## The call -/

/-- A call returns what the application answered, and the application was asked once, with the
method, the body and the client id of the call: for every way in which the bytes of both directions
are cut into reads. -/
theorem rpc_round_trip {url method : CString} {client_id : Int32} {body : Option CString}
    {dispatch : Dispatch} {net : Net} {sent got : List Segment} (hurl : 13 ∉ url.chars)
    (hmethod : IsMethod method)
    (hheader : (request_header (rpc_client_new url client_id) method
      (Int32.ofNat (content_of body).chars.length)).length < 512)
    (hrequest : (request (rpc_client_new url client_id) method body).length ≤ BUF_MAX)
    (hresponse : (response (dispatch method (content_of body) client_id)).length ≤ BUF_MAX)
    -- the connection: its writes are complete, and it ends when the server closes it
    (hsocket : net.socket = true)
    (hconnect : net.connect (rpc_client_new url client_id).host (rpc_client_new url client_id).port)
    (hwrite : ∀ bs, net.write bs = bs.length)
    (hsent : (sent.map Subtype.val).flatten = request (rpc_client_new url client_id) method body)
    (hgot : (got.map Subtype.val).flatten = response (dispatch method (content_of body) client_id))
    (harrivals : net.arrivals = got.map .bytes ++ [.stop]) :
    handler_thread dispatch (sent.map .bytes) =
        some ⟨[(method, content_of body, client_id)],
          response (dispatch method (content_of body) client_id)⟩ ∧
      ∃ writes, writes.flatten = request (rpc_client_new url client_id) method body ∧
        rpc_call_timeout net (rpc_client_new url client_id) method body =
          some ⟨writes, dispatch method (content_of body) client_id⟩ := by
  have hid : (rpc_client_new url client_id).client_id = client_id := by
    rw [rpc_client_new]
    split <;> rfl
  constructor
  · have hhandled := handler_request dispatch hmethod (isHost_new hurl) rfl hsent hrequest
    rwa [hid] at hhandled
  · have hbody : (content_of body).chars.length ≤ BUF_MAX := by
      rw [request, List.length_append] at hrequest
      exact (Nat.le_add_left _ _).trans hrequest
    obtain ⟨writes, hwrites, hsend⟩ := send_request_eq hsocket hconnect hwrite hheader hbody
    refine ⟨writes, hwrites, ?_⟩
    have hbuf : arrived got = response (dispatch method (content_of body) client_id) := by
      rw [arrived, hgot, List.take_of_length_le hresponse]
    simp only [rpc_call_timeout, hsend, harrivals, read_response_eq, hbuf, reply_of_response,
      Option.bind_eq_bind, Option.bind_some]
    rfl

end

/-- The pieces of a stream that is cut after the given numbers of bytes. -/
def pieces : List Nat → Bytes → List Bytes
  | [], s => [s]
  | n :: ns, s => s.take n :: pieces ns (s.drop n)

theorem flatten_pieces (ns : List Nat) (s : Bytes) : (pieces ns s).flatten = s := by
  induction ns generalizing s with
  | nil => exact List.flatten_singleton ..
  | cons n ns ih => rw [pieces, List.flatten_cons, ih, List.take_append_drop]

/-- Pieces that are not empty can come in as segments. -/
theorem segments_of_pieces (ns : List Nat) {s : Bytes} (h : ∀ p ∈ pieces ns s, p ≠ []) :
    ∃ segments : List Segment, segments.map Subtype.val = pieces ns s ∧
      (segments.map Subtype.val).flatten = s := by
  refine ⟨(pieces ns s).attach.map fun p => ⟨p.1, h p.1 p.2⟩, ?_⟩
  have hval : (((pieces ns s).attach.map fun p => (⟨p.1, h p.1 p.2⟩ : Segment)).map Subtype.val) =
      pieces ns s := by
    rw [List.map_map]
    exact List.attach_map_subtype_val _
  exact ⟨hval, (congrArg List.flatten hval).trans (flatten_pieces ns s)⟩

/-- A call with a body, whose request comes in three reads and whose response in two. -/
theorem rpc_round_trip_put : ∃ (url method body : CString) (dispatch : Dispatch) (net : Net)
    (sent got : List Segment) (writes : List Bytes), body.chars = text "key value" ∧
    sent.length = 3 ∧ got.length = 2 ∧ net.arrivals = got.map .bytes ++ [.stop] ∧
    handler_thread dispatch (sent.map .bytes) =
        some ⟨[(method, content_of (some body), 7)],
          response (dispatch method (content_of (some body)) 7)⟩ ∧
      writes.flatten = request (rpc_client_new url 7) method (some body) ∧
      rpc_call_timeout net (rpc_client_new url 7) method (some body) =
        some ⟨writes, dispatch method (content_of (some body)) 7⟩ := by
  let url : CString := ⟨text "http://127.0.0.1:80", by decide⟩
  let method : CString := ⟨text "Put", by decide⟩
  let body : CString := ⟨text "key value", by decide⟩
  -- the answer is the body of the call
  let dispatch : Dispatch := fun _ body _ => some body
  have hout : ∀ p ∈ pieces [20, 70] (request (rpc_client_new url 7) method (some body)),
      p ≠ [] := by
    decide +kernel
  have hback : ∀ p ∈ pieces [30] (response (dispatch method (content_of (some body)) 7)),
      p ≠ [] := by
    decide +kernel
  obtain ⟨sent, hcut, hsent⟩ := segments_of_pieces _ hout
  obtain ⟨got, hcut', hgot⟩ := segments_of_pieces _ hback
  let net : Net := ⟨true, fun _ _ => true, fun bs => bs.length, got.map .bytes ++ [.stop]⟩
  have hmethod : IsMethod method :=
    ⟨by decide, by decide, by decide, (findFirst_eq_none (by decide)).1 (by decide),
      (findFirst_eq_none (by decide)).1 (by decide)⟩
  obtain ⟨hhandled, writes, hwrites, hcalled⟩ :=
    @rpc_round_trip url method 7 (some body) dispatch net sent got (by decide) hmethod
      (by decide +kernel) (by decide +kernel) (by decide +kernel) rfl rfl (fun _ => rfl) hsent hgot
      rfl
  refine ⟨url, method, body, dispatch, net, sent, got, writes, rfl, ?_, ?_, rfl, hhandled, hwrites,
    hcalled⟩
  · have hlen := congrArg List.length hcut
    rwa [List.length_map] at hlen
  · have hlen := congrArg List.length hcut'
    rwa [List.length_map] at hlen

end Berk162.Kvsrv
