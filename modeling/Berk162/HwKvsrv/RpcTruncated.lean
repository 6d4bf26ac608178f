import Berk162.HwKvsrv.RpcReceive

/-!
# RpcTruncated — messages that are cut short

After its loop the server looks only whether there is a header, not why the loop ended; the client
does not look at the length at all.  So what is taken for the body is what has arrived, and it has the
announced length exactly when the reads happen to end there.
-/

namespace Berk162.Kvsrv

/-- The length that a header announces; none is announced as 0. -/
def announced (header : Bytes) : Int := (Received.content_length_of header).toInt

/-- One of the reads ends after `n` bytes. -/
def ReadEnd (segments : List Segment) (n : Nat) : Prop :=
  ∃ p, p <+: segments ∧ (arrived p).length = n

/-- The server's test, with the length that it finds in what has arrived with the header. -/
def stops (segments : List Segment) (he n : Nat) : Prop :=
  Received.enough he (Received.content_length_of (cstr (first_with he segments)).chars) n = true

section

variable {p q segments : List Segment} {b : Bytes} {he n : Nat}

/-- A string of `n` bytes ends where the memory does, or at a null. -/
theorem cstr_length_iff : (cstr b).chars.length = n ↔
    n ≤ b.length ∧ 0 ∉ b.take n ∧ (n = b.length ∨ b[n]? = some 0) := by
  induction b generalizing n with
  | nil =>
      simp [cstr, c_chars, eq_comm]
  | cons c b ih =>
      by_cases hc : c = 0
      · subst hc
        cases n with
        | zero =>
            simp [cstr, c_chars]
        | succ n =>
            simp [cstr, c_chars]
      · have hcons : (cstr (c :: b)).chars = c :: (cstr b).chars := by
          simp [cstr, c_chars, hc]
        rw [hcons, List.length_cons]
        cases n with
        | zero =>
            simp [hc]
        | succ n =>
            rw [Nat.add_right_cancel_iff, ih]
            simp [Ne.symm hc]

theorem first_with_append (h : n ≤ (arrived p).length) (q : List Segment) :
    first_with n (p ++ q) = first_with n p := by
  induction q using List.reverseRecOn with
  | nil =>
      rw [List.append_nil]
  | append_singleton q segment ih =>
      rw [← List.append_assoc, first_with_snoc, ih, if_pos ((first_with_spec n p).2 h)]

/-- With the header, the loop's test is `stops`. -/
theorem after_whole (hfound : header_end_of (arrived segments) = some he) (hp : p <+: segments)
    (hle : he ≤ (arrived p).length) :
    (Received.init.after p).whole = true ↔ stops segments he (arrived p).length := by
  obtain ⟨q, rfl⟩ := hp
  have hfound' := header_end_of_part (arrived_mono (List.prefix_append p q)) hfound
  rw [if_pos hle] at hfound'
  obtain ⟨hend, hlength⟩ := Received.after_header p
  rw [Received.whole, hend, hfound', hlength he hfound', Received.after_buf, stops,
    first_with_append hle]

/-- What the server has read when its loop ends. -/
structure Stopped (segments : List Segment) (he L : Nat) : Prop where
  bound : L ≤ (arrived segments).length
  header : he ≤ L
  read_end : ReadEnd segments L
  stop : L = (arrived segments).length ∨ stops segments he L
  first : ∀ b, he ≤ b → b < L → ReadEnd segments b → ¬ stops segments he b

theorem receive_stopped (segments : List Segment) : ∃ p, p <+: segments ∧
    Received.init.receive (segments.map .bytes ++ [.stop]) = some (Received.init.after p) ∧
    (∀ he, header_end_of (arrived segments) = some he →
      Stopped segments he (arrived p).length) := by
  obtain ⟨p, hp, hfirst, hend⟩ := Received.receive_spec Received.not_done_init segments [.stop]
  have hpart := arrived_mono hp
  have hreceive : Received.init.receive (segments.map .bytes ++ [.stop]) =
      some (Received.init.after p) := by
    rcases hend with ⟨_, heq⟩ | ⟨_, rfl, heq⟩
    · exact heq
    · rw [heq, Received.receive]
      split <;> rfl
  refine ⟨p, hp, hreceive, fun he hfound => ?_⟩
  -- the loop ends with the header, or has read everything
  have hcases : (arrived p).length = (arrived segments).length ∨
      he ≤ (arrived p).length ∧ stops segments he (arrived p).length := by
    rcases hend with ⟨hwhole | hfull, _⟩ | ⟨_, rfl, _⟩
    · have hle : he ≤ (arrived p).length := by
        by_contra hlt
        have hnone := header_end_of_part hpart hfound
        rw [if_neg hlt] at hnone
        rw [Received.whole, (Received.after_header p).1, hnone] at hwhole
        cases hwhole
      exact Or.inr ⟨hle, (after_whole hfound hp hle).1 hwhole⟩
    · rw [Received.after_buf] at hfull
      have hmax := length_arrived_le (p := segments)
      have hlen := hpart.length_le
      exact Or.inl (by omega)
    · exact Or.inl rfl
  refine ⟨hpart.length_le, ?_, ⟨p, hp, rfl⟩, hcases.imp_right And.right, ?_⟩
  · rcases hcases with hall | ⟨hle, _⟩
    · exact hall ▸ header_end_le hfound
    · exact hle
  · rintro b hle hlt ⟨q, hq, rfl⟩ hstops
    have hqp : q <+: p := by
      rcases List.prefix_or_prefix_of_prefix hq hp with h | h
      · exact h
      · have hlen := (arrived_mono h).length_le
        omega
    have hne : q ≠ p := by
      rintro rfl
      omega
    exact hfirst q hqp hne (Or.inl ((after_whole hfound hq hle).2 hstops))

/-- The body that a stopped server takes has length `n`. -/
theorem Stopped.body_length {L : Nat} (h : Stopped segments he L) :
    (cstr (((arrived segments).take L).drop he)).chars.length = n ↔
      he + n ≤ (arrived segments).length ∧ 0 ∉ ((arrived segments).drop he).take n ∧
        (∀ b, he ≤ b → b < he + n → ReadEnd segments b → ¬ stops segments he b) ∧
        ((arrived segments)[he + n]? = some 0 ∨
          ReadEnd segments (he + n) ∧
            (stops segments he (he + n) ∨ he + n = (arrived segments).length)) := by
  obtain ⟨hbound, hheader, hread, hstop, hfirst⟩ := h
  have hlen : (((arrived segments).take L).drop he).length = L - he := by
    rw [List.length_drop, List.length_take_of_le hbound]
  have htake : n ≤ L - he →
      (((arrived segments).take L).drop he).take n = ((arrived segments).drop he).take n := by
    intro hn
    rw [List.drop_take, List.take_take, Nat.min_eq_left hn]
  have hget : he + n < L → (((arrived segments).take L).drop he)[n]? = (arrived segments)[he + n]? := by
    intro hlt
    rw [List.getElem?_drop, List.getElem?_take_of_lt hlt]
  rw [cstr_length_iff, hlen]
  constructor
  · rintro ⟨hn, hnull, hend⟩
    refine ⟨by omega, htake hn ▸ hnull, fun b hb hlt => hfirst b hb (by omega), ?_⟩
    rcases Nat.lt_or_ge (he + n) L with hlt | hge
    · -- more has been read: a null ends the body
      rw [hget hlt] at hend
      exact Or.inl (hend.resolve_left (by omega))
    · have heq : he + n = L := by omega
      rw [heq]
      exact Or.inr ⟨hread, hstop.symm⟩
  · rintro ⟨hn, hnull, hearly, hend⟩
    have hle : he + n ≤ L := by
      by_contra hlt
      have hall := hstop.resolve_right (hearly L hheader (by omega) hread)
      omega
    refine ⟨by omega, htake (by omega) ▸ hnull, ?_⟩
    rcases Nat.lt_or_ge (he + n) L with hlt | hge
    · rw [hget hlt]
      rcases hend with hzero | ⟨hread', hstop' | hall⟩
      · exact Or.inr hzero
      · exact absurd hstop' (hfirst (he + n) (by omega) hlt hread')
      · omega
    · exact Or.inl (by omega)

end

/-! ## The server -/

/-- `dispatch` is called only with a body of the announced length. -/
def DispatchWhole (dispatch : Dispatch) (segments : List Segment) : Prop :=
  ∀ handled, handler_thread dispatch (segments.map .bytes ++ [.stop]) = some handled →
    ∀ call ∈ handled.calls, ∃ he, header_end_of (arrived segments) = some he ∧
      (call.2.1.chars.length : Int) = announced ((arrived segments).take he)

/-- If a header arrives: the announced body arrives too and has no null in it, the loop does not stop
inside it, and a read with which the loop stops ends right behind it, or a null follows. -/
def BodyArrives (segments : List Segment) : Prop :=
  ∀ he, header_end_of (arrived segments) = some he →
    ∃ n : Nat, n = announced ((arrived segments).take he) ∧
      he + n ≤ (arrived segments).length ∧ 0 ∉ ((arrived segments).drop he).take n ∧
      (∀ b, he ≤ b → b < he + n → ReadEnd segments b → ¬ stops segments he b) ∧
      ((arrived segments)[he + n]? = some 0 ∨
        ReadEnd segments (he + n) ∧
          (stops segments he (he + n) ∨ he + n = (arrived segments).length))

section

variable {dispatch : Dispatch} {segments : List Segment} {he : Nat}

theorem handler_no_header (h : header_end_of (arrived segments) = none) :
    handler_thread dispatch (segments.map .bytes ++ [.stop]) = some ⟨[], []⟩ := by
  obtain ⟨p, hp, hreceive, _⟩ := receive_stopped segments
  have hnone : (Received.init.after p).header_end = none := by
    rw [(Received.after_header p).1]
    cases hfound : header_end_of (arrived p) with
    | none =>
        rfl
    | some he =>
        rw [header_end_of_mono (arrived_mono hp) hfound] at h
        cases h
  simp only [handler_thread, hreceive, Option.bind_eq_bind, Option.bind_some, hnone]
  rfl

/-- With a header there is one call, and its body is what has been read. -/
theorem handler_header (dispatch : Dispatch) (h : header_end_of (arrived segments) = some he) :
    ∃ handled L method client_id, Stopped segments he L ∧
      handler_thread dispatch (segments.map .bytes ++ [.stop]) = some handled ∧
      handled.calls = [(method, cstr (((arrived segments).take L).drop he), client_id)] := by
  obtain ⟨p, hp, hreceive, hstopped⟩ := receive_stopped segments
  have hpart := arrived_mono hp
  have hend : (Received.init.after p).header_end = some he := by
    rw [(Received.after_header p).1, header_end_of_part hpart h, if_pos (hstopped he h).header]
  let method := method_of (cstr (arrived p)).chars
  let client_id := client_id_of (cstr (arrived p)).chars
  let body := cstr ((arrived p).drop he)
  refine ⟨⟨[(method, body, client_id)], response (dispatch method body client_id)⟩,
    (arrived p).length, method, client_id, hstopped he h, ?_, ?_⟩
  · simp only [handler_thread, hreceive, Option.bind_eq_bind, Option.bind_some, hend,
      Received.after_buf]
    rfl
  · rw [← List.prefix_iff_eq_take.1 hpart]

theorem dispatch_whole_iff : DispatchWhole dispatch segments ↔ BodyArrives segments := by
  cases hfound : header_end_of (arrived segments) with
  | none =>
      constructor
      · intro _ he hhe
        rw [hfound] at hhe
        cases hhe
      · intro _ handled hhandled call hcall
        rw [handler_no_header hfound] at hhandled
        cases hhandled
        cases hcall
  | some he =>
      obtain ⟨handled, L, method, client_id, hstopped, hhandled, hcalls⟩ :=
        handler_header dispatch hfound
      constructor
      · intro hwhole he' hhe'
        rw [hfound] at hhe'
        cases hhe'
        obtain ⟨he', hhe', hlen⟩ := hwhole handled hhandled _ (by rw [hcalls]; exact List.mem_cons_self)
        rw [hfound] at hhe'
        cases hhe'
        exact ⟨_, hlen, hstopped.body_length.1 rfl⟩
      · intro harrives handled' hhandled' call hcall
        rw [hhandled] at hhandled'
        cases hhandled'
        rw [hcalls, List.mem_singleton] at hcall
        subst hcall
        obtain ⟨n, hn, hbody⟩ := harrives he hfound
        refine ⟨he, hfound, ?_⟩
        rw [← hn, Nat.cast_inj]
        exact hstopped.body_length.2 hbody

end

/-! ## The client -/

/-- The connection brings these bytes, and then ends or times out. -/
def Net.ending (net : Net) (segments : List Segment) : Net :=
  { net with arrivals := segments.map .bytes ++ [.stop] }

/-- A response is returned only if as many body bytes were received as it announced. -/
def ReplyWhole (net : Net) (c : RpcClient) (method : CString) (body : Option CString)
    (segments : List Segment) : Prop :=
  ∀ called reply, rpc_call_timeout (net.ending segments) c method body = some called →
    called.reply = some reply → ∃ he, header_end_of (arrived segments) = some he ∧
      ((arrived segments).length : Int) - he = announced ((arrived segments).take he)

/-- If the request is sent and a header with `200` in what follows arrives, as many bytes as it
announces arrive with it. -/
def ReplyArrives (net : Net) (c : RpcClient) (method : CString) (body : Option CString)
    (segments : List Segment) : Prop :=
  (∃ writes, send_request net c method body = some (writes, true)) →
    strstr (cstr (arrived segments)).chars (text "200") ≠ none →
      ∀ he, header_end_of (arrived segments) = some he →
        ((arrived segments).length : Int) = he + announced ((arrived segments).take he)

section

variable {net : Net} {c : RpcClient} {method : CString} {body : Option CString}
  {segments : List Segment} {b : Bytes}

theorem reply_of_isSome : (∃ reply, reply_of b = some reply) ↔
    strstr (cstr b).chars (text "200") ≠ none ∧ ∃ he, header_end_of b = some he := by
  by_cases hb : b = []
  · subst hb
    have hnone : header_end_of [] = none := by decide
    constructor
    · rintro ⟨reply, ⟨⟩⟩
    · rintro ⟨_, he, hhe⟩
      rw [hnone] at hhe
      cases hhe
  · rw [reply_of, if_neg hb, header_end_of]
    cases strstr (cstr b).chars (text "200") with
    | none =>
        simp
    | some status =>
        cases strstr (cstr b).chars blank_line with
        | none =>
            simp
        | some sep =>
            simp

/-- When the request is sent, what arrives decides; otherwise nothing is returned. -/
theorem rpc_call_timeout_spec (net : Net) (c : RpcClient) (method : CString) (body : Option CString)
    (segments : List Segment) :
    (∀ writes, send_request net c method body = some (writes, true) →
      rpc_call_timeout (net.ending segments) c method body =
        some ⟨writes, reply_of (arrived segments)⟩) ∧
    ((¬ ∃ writes, send_request net c method body = some (writes, true)) →
      ∀ called, rpc_call_timeout (net.ending segments) c method body = some called →
        called.reply = none) := by
  have hsend : send_request (net.ending segments) c method body = send_request net c method body := rfl
  have harrivals : (net.ending segments).arrivals = segments.map .bytes ++ [.stop] := rfl
  simp only [rpc_call_timeout, hsend, harrivals, read_response_eq]
  constructor
  · intro writes hwrites
    rw [hwrites]
    rfl
  · intro hnot called hcalled
    cases hresult : send_request net c method body with
    | none =>
        rw [hresult] at hcalled
        cases hcalled
    | some result =>
        obtain ⟨writes, sent⟩ := result
        cases sent with
        | true =>
            exact absurd ⟨writes, hresult⟩ hnot
        | false =>
            rw [hresult] at hcalled
            cases hcalled
            rfl

theorem reply_whole_iff :
    ReplyWhole net c method body segments ↔ ReplyArrives net c method body segments := by
  obtain ⟨hcall, hfail⟩ := rpc_call_timeout_spec net c method body segments
  constructor
  · rintro hwhole ⟨writes, hsent⟩ hstatus he hhe
    obtain ⟨reply, hreply⟩ := reply_of_isSome.2 ⟨hstatus, he, hhe⟩
    obtain ⟨he', hhe', hlen⟩ := hwhole _ reply (hcall writes hsent) hreply
    rw [hhe] at hhe'
    cases hhe'
    omega
  · intro harrives called reply hcalled hreply
    by_cases hsent : ∃ writes, send_request net c method body = some (writes, true)
    · obtain ⟨writes, hwrites⟩ := hsent
      rw [hcall writes hwrites] at hcalled
      cases hcalled
      obtain ⟨hstatus, he, hhe⟩ := reply_of_isSome.1 ⟨reply, hreply⟩
      have hlen := harrives ⟨writes, hwrites⟩ hstatus he hhe
      exact ⟨he, hhe, by omega⟩
    · rw [hfail hsent called hcalled] at hreply
      cases hreply

end

/-! ## Both sides -/

/-- Neither side acts on a message that is not whole, for exactly these streams of bytes, ways in which
they are cut into reads, and ends of the connection. -/
theorem acts_on_whole_messages_iff {dispatch : Dispatch} {segments : List Segment} {net : Net}
    {c : RpcClient} {method : CString} {body : Option CString} {got : List Segment} :
    (DispatchWhole dispatch segments ↔ BodyArrives segments) ∧
      (ReplyWhole net c method body got ↔ ReplyArrives net c method body got) :=
  ⟨dispatch_whole_iff, reply_whole_iff⟩

/-- A peer announces ten bytes, sends three and closes the connection: they are passed to the
application.  The same of a response is returned to the caller. -/
theorem truncated_body_dispatched : ∃ (dispatch : Dispatch) (segments : List Segment) (net : Net)
    (c : RpcClient) (method : CString) (got : List Segment),
    ¬ DispatchWhole dispatch segments ∧ ¬ ReplyWhole net c method none got := by
  let dispatch : Dispatch := fun _ _ _ => none
  let method : CString := ⟨text "x", by decide⟩
  let abc : CString := ⟨text "abc", by decide⟩
  let sent : Segment := ⟨text "POST /x HTTP/1.1\r\nContent-Length: 10\r\n\r\nabc", by decide⟩
  let got : Segment := ⟨text "HTTP/1.1 200 OK\r\nContent-Length: 10\r\n\r\nabc", by decide⟩
  let net : Net := ⟨true, fun _ _ => true, fun bs => bs.length, []⟩
  let c : RpcClient := ⟨⟨text "127.0.0.1", by decide⟩, 80, 0⟩
  have hsent : header_end_of (arrived [sent]) = some 40 ∧
      announced ((arrived [sent]).take 40) = 10 := by decide +kernel
  have hgot : header_end_of (arrived [got]) = some 39 ∧
      announced ((arrived [got]).take 39) = 10 := by decide +kernel
  refine ⟨dispatch, [sent], net, c, method, [got], fun hwhole => ?_, fun hwhole => ?_⟩
  · have hhandled : handler_thread dispatch [.bytes sent, .stop] =
        some ⟨[(method, abc, -1)], response none⟩ := by decide +kernel
    obtain ⟨he, hhe, hlen⟩ := hwhole _ hhandled _ List.mem_cons_self
    rw [hsent.1] at hhe
    cases hhe
    rw [hsent.2] at hlen
    cases hlen
  · have hcalled : ∃ called, rpc_call_timeout (net.ending [got]) c method none = some called ∧
        called.reply = some abc := Option.map_eq_some_iff.1 (by decide +kernel)
    obtain ⟨called, hcalled, hreply⟩ := hcalled
    obtain ⟨he, hhe, hlen⟩ := hwhole called abc hcalled hreply
    rw [hgot.1] at hhe
    cases hhe
    rw [hgot.2] at hlen
    cases hlen

end Berk162.Kvsrv
