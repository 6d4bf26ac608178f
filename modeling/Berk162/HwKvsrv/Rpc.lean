import Berk162.Lib.CText

/-!
# Rpc — `lib/rpc.c` of hw-kvsrv

A call is one connection: the client sends a request in the form of HTTP, and the thread that serves
the connection passes its method, body and client id to the application and sends back what it
returns.  Both sides read into a buffer of 65536 bytes until their loop ends.  What a read finds is up
to the network: some bytes, or a result `n <= 0`, at the end of the connection, at a time-out and at
an error.  Sockets that cannot be had and writes that fail are in the model of the client; the server
ignores what its writes return.
-/

namespace Berk162.Kvsrv

/-- What one read finds, if it finds any bytes. -/
abbrev Segment := { bs : Bytes // bs ≠ [] }

/-- What a read of the socket finds; after `stop` it returns `n <= 0`. -/
inductive Arrival
  | bytes (segment : Segment)
  | stop

/-- `sizeof(buf) - 1`. -/
def BUF_MAX : Nat := 65535

/-- `atoi`, which glibc defines by `strtol`. -/
def atoi (s : Bytes) : Int32 := Int32.ofInt (strtol s)

/-- The blank line after the header. -/
def blank_line : Bytes := text "\r\n\r\n"

/-! ## The server -/

/-- The local variables of `handler_thread` that its loop writes.  `total` is the length of `buf`, and
`header_end` is `none` for -1. -/
structure Received where
  buf : Bytes
  header_end : Option Nat
  content_length : Int32
  deriving DecidableEq

namespace Received

/-- The number behind the first of two spellings of `Content-Length:`. -/
def content_length_of (s : Bytes) : Int32 :=
  match (strstr s (text "Content-Length:")).or (strstr s (text "content-length:")) with
  | some cl => atoi (s.drop (cl + 15))
  | none => 0

/-- Looks for the header's end, until it has been found. -/
def find_header (r : Received) : Received :=
  match r.header_end with
  | some _ => r
  | none =>
      match strstr (cstr r.buf).chars blank_line with
      | some sep =>
          { r with
            header_end := some (sep + 4)
            content_length := content_length_of (cstr r.buf).chars }
      | none => r

/-- `total >= header_end + content_length`, a sum of two `int`s. -/
def enough (header_end : Nat) (content_length : Int32) (total : Nat) : Bool :=
  decide ((Int32.ofNat header_end + content_length).toInt ≤ total)

/-- The test that ends the loop. -/
def whole (r : Received) : Bool :=
  match r.header_end with
  | some header_end => enough header_end r.content_length r.buf.length
  | none => false

/-- `read`: as much of the segment as there is room for. -/
def read (r : Received) (segment : Bytes) : Received :=
  { r with buf := r.buf ++ segment.take (BUF_MAX - r.buf.length) }

/-- The body of the loop, up to its last test. -/
def add (r : Received) (segment : Bytes) : Received := (r.read segment).find_header

/-- The loop of `handler_thread`; `none` when it waits for bytes for ever. -/
def receive (r : Received) (arrivals : List Arrival) : Option Received :=
  if r.buf.length < BUF_MAX then
    match arrivals with
    | [] => none
    | .stop :: _ => some r
    | .bytes segment :: arrivals =>
        let r := r.add segment.1
        if r.whole then some r else receive r arrivals
  else some r

/-- The variables before the loop. -/
def init : Received := ⟨[], none, 0⟩

end Received

/-- `rpc_dispatch_fn`, with its `ctx`. -/
abbrev Dispatch := CString → CString → Int32 → Option CString

/-- The method in the first line, at most 255 bytes of it. -/
def method_of (s : Bytes) : CString :=
  if text "POST /" <+: s then
    match strstr (s.drop 6) (text " ") with
    | some len => cstr ((s.drop 6).take (min len 255))
    | none => cstr []
  else cstr []

def client_id_of (s : Bytes) : Int32 :=
  match (strstr s (text "X-Client-Id:")).or (strstr s (text "x-client-id:")) with
  | some cid => atoi (s.drop (cid + 12))
  | none => -1

/-- What the server writes when `dispatch` has returned; an `int` counts the bytes of the response. -/
def response : Option CString → Bytes
  | none =>
      text "HTTP/1.1 503 Service Unavailable\r\nContent-Length: 0\r\nConnection: close\r\n\r\n"
  | some resp =>
      text "HTTP/1.1 200 OK\r\nContent-Length: " ++ format_d (Int32.ofNat resp.chars.length).toInt ++
        text "\r\nConnection: close\r\n\r\n" ++ resp.chars

/-- What `handler_thread` does: its calls of `dispatch`, and the bytes it writes. -/
structure Handled where
  calls : List (CString × CString × Int32)
  written : Bytes
  deriving DecidableEq

def handler_thread (dispatch : Dispatch) (arrivals : List Arrival) : Option Handled := do
  let r ← Received.init.receive arrivals
  match r.header_end with
  | none => return ⟨[], []⟩
  | some header_end =>
      let s := (cstr r.buf).chars
      let method := method_of s
      let client_id := client_id_of s
      let body := cstr (r.buf.drop header_end)
      return ⟨[(method, body, client_id)], response (dispatch method body client_id)⟩

/-! ## The client -/

/-- `rpc_client_t`. -/
structure RpcClient where
  host : CString
  port : UInt16
  client_id : Int32

def rpc_client_new (url : CString) (client_id : Int32) : RpcClient :=
  let p := if text "http://" <+: url.chars then url.chars.drop 7 else url.chars
  match strstr p (text ":") with
  | some hlen =>
      ⟨cstr (p.take (min hlen 63)), (atoi (p.drop (hlen + 1))).toUInt32.toUInt16, client_id⟩
  | none => ⟨cstr (p.take 63), 80, client_id⟩

/-- What the client's system calls return. -/
structure Net where
  socket : Bool
  /-- `connect`, to the address that `inet_addr` makes of the host. -/
  connect : CString → UInt16 → Bool
  write : Bytes → Int
  arrivals : List Arrival

/-- The header before `snprintf` cuts it to its buffer. -/
def request_header (c : RpcClient) (method : CString) (body_len : Int32) : Bytes :=
  text "POST /" ++ method.chars ++ text " HTTP/1.1\r\nHost: " ++ c.host.chars ++
    text "\r\nX-Client-Id: " ++ format_d c.client_id.toInt ++
    text "\r\nContent-Length: " ++ format_d body_len.toInt ++
    text "\r\nConnection: close\r\n\r\n"

/-- The loop of `rpc_call_timeout`. -/
def read_response (buf : Bytes) (arrivals : List Arrival) : Option Bytes :=
  if buf.length < BUF_MAX then
    match arrivals with
    | [] => none
    | .stop :: _ => some buf
    | .bytes segment :: arrivals =>
        read_response (buf ++ segment.1.take (BUF_MAX - buf.length)) arrivals
  else some buf

/-- What `rpc_call_timeout` returns when it has read `buf`. -/
def reply_of (buf : Bytes) : Option CString :=
  if buf = [] then none
  else
    match strstr (cstr buf).chars (text "200"), strstr (cstr buf).chars blank_line with
    | some _, some sep => some (cstr (buf.drop (sep + 4)))
    | _, _ => none

/-- `rpc_call_timeout` up to its loop: what it gives to `write`, and whether it goes on; `none` when
`write` reads past the end of `header`. -/
def send_request (net : Net) (c : RpcClient) (method : CString) (body : Option CString) :
    Option (List Bytes × Bool) :=
  if !net.socket then some ([], false)
  else if !net.connect c.host c.port then some ([], false)
  else
    let body_len := (body.map fun body => Int32.ofNat body.chars.length).getD 0
    let header := request_header c method body_len
    if 512 < header.length then none
    else
      let sent := (header.take 511 ++ [0]).take header.length
      if net.write sent ≠ header.length then some ([sent], false)
      else if 0 < body_len then
        let content := ((body.map CString.chars).getD []).take body_len.toInt.toNat
        some ([sent, content], decide (net.write content = body_len.toInt))
      else some ([sent], true)

/-- What a call does: the bytes it gives to `write`, and what it returns. -/
structure Called where
  writes : List Bytes
  reply : Option CString

/-- `rpc_call_timeout`; `none` also when it waits for bytes for ever.  The time limit is in what the
reads find. -/
def rpc_call_timeout (net : Net) (c : RpcClient) (method : CString) (body : Option CString) :
    Option Called := do
  let (writes, sent) ← send_request net c method body
  if !sent then return ⟨writes, none⟩
  let buf ← read_response [] net.arrivals
  return ⟨writes, reply_of buf⟩

end Berk162.Kvsrv
