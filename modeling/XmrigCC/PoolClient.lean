import XmrigCC.PoolMessages
import XmrigCC.ReceiveBuffer

/-!
# The pool client

`Client` with its socket states, its timeout and what the event loop owes it.
A callback is an event that the loop may deliver only while it is due; the
result of every library call made in it comes with the event. Calls on the
listener are recorded in order.
-/

namespace XmrigCC.PoolClient

open ByteText CellMemory MiningJob PoolMessages ReceiveBuffer
open MultiWorker (JobResult)

/-- `Client::SocketState`. -/
inductive SocketState where
  /-- `UnconnectedState`. -/
  | unconnected
  /-- `HostLookupState`. -/
  | hostLookup
  /-- `ConnectingState`. -/
  | connecting
  /-- `ConnectedState`. -/
  | connected
  /-- `ClosingState`. -/
  | closing
  deriving DecidableEq

/-- A `uv_tcp_t` and what the event loop does with it. -/
structure Socket where
  /-- The callback of `uv_tcp_connect` is due. -/
  connecting : Bool
  /-- `uv_read_start` is in force. -/
  reading : Bool
  /-- `uv_close` was called and its callback is due. -/
  closing : Bool
  /-- Messages taken by `uv_try_write`, in order. -/
  written : List Bytes

/-- A call on the listener. -/
inductive Call where
  /-- `onClose(this, failures)`. -/
  | onClose (failures : ℤ)
  /-- `onJobReceived(this, job)`. -/
  | onJobReceived (job : Job)
  /-- `onLoginSuccess(this)`. -/
  | onLoginSuccess
  /-- `onResultAccepted(this, result, error)`. -/
  | onResultAccepted (result : SubmitResult) (error : Option Bytes)

/-- `Client`. The stream is the socket from its connection on, so it is not kept apart. -/
structure Client where
  /-- Name the client gives itself. -/
  m_agent : Bytes
  /-- Index of the pool. -/
  m_id : ℤ
  /-- Pool and account. -/
  m_url : Url
  /-- Milliseconds between a failure and the next attempt. -/
  m_retryPause : ℤ
  /-- Failures since the last login, -1 after `disconnect`. -/
  m_failures : ℤ
  /-- Last job accepted. -/
  m_job : Job
  /-- `m_buf` and `m_recvBufPos`. -/
  recv : RecvState
  /-- Identifier given by the pool at login. -/
  m_rpcId : Bytes
  /-- State of the connection. -/
  m_state : SocketState
  /-- Number of the next request, shared by all clients. -/
  m_sequence : ℤ
  /-- Shares not answered yet, by number. -/
  m_results : List (ℤ×SubmitResult)
  /-- Time at which `tick` acts, 0 for never. -/
  m_expire : UInt64
  /-- The keepalive timer is running. -/
  m_keepAliveTimer : Bool
  /-- Callbacks of `uv_getaddrinfo` due on `m_resolver`. -/
  lookups : ℕ
  /-- The socket, when there is one. -/
  m_socket : Option Socket
  /-- Calls on the listener so far. -/
  calls : List Call
  /-- A write went past `m_buf` or `m_sendBuf`: nothing is known of the members then. -/
  corrupted : Bool

/-- What a library reports of an attempt to write. -/
structure WriteResult where
  /-- `uv_is_writable`. -/
  writable : Bool
  /-- `uv_try_write`. -/
  tryWrite : ℤ

/-- Old contents of the variables that `parseJob` leaves uninitialised. -/
structure Stale where
  /-- `m_blob` of the new job. -/
  blob : Cells UInt8
  /-- The array that `setTarget` copies a target to. -/
  target : Cells UInt8

/-- `kResponseTimeout`. -/
def kResponseTimeout : UInt64 := 20*1000

/-- `sizeof(m_sendBuf)`. -/
def sendBufSize : ℕ := 768

namespace Client

/-- `Client::Client` and `setUrl`; the buffer and the blob of `m_job` keep what their
memory held. -/
def new (id : ℤ) (agent : Bytes) (url : Url) (buf blob : Cells UInt8) : Client :=
  ⟨agent,id,url,5000,0,Job.new blob (-2) false,⟨buf,0⟩,[],.unconnected,1,[],0,false,0,none,[],
    false⟩

/-- `Client::resolve`, with the result of `uv_getaddrinfo`. -/
def resolve (c : Client) (r : ℤ) : Client :=
  {c with
    m_state := .hostLookup
    m_expire := 0
    recv := ⟨c.recv.m_buf,0⟩
    m_failures := if c.m_failures=-1 then 0 else c.m_failures
    lookups := if r=0 then c.lookups+1 else c.lookups}

/-- `Client::connect()`. -/
def connect (c : Client) (r : ℤ) : Client := c.resolve r

/-- `Client::close`. -/
def close (c : Client) : Client :=
  match c.m_socket with
  | none => c
  | some s =>
    if c.m_state=.unconnected ∨ c.m_state=.closing then c
    else {c with m_state := .closing,m_socket := some {s with reading := false,closing := true}}

/-- `Client::disconnect`. -/
def disconnect (c : Client) : Client :=
  Client.close {c with m_keepAliveTimer := false,m_expire := 0,m_failures := -1}

/-- `Client::send` of the message in `m_sendBuf`. -/
def send (c : Client) (message : Bytes) (w : WriteResult) (now : UInt64) : ℤ×Client :=
  if c.m_state ≠ .connected ∨ w.writable=false then (-1,c)
  else if w.tryWrite<0 then (-1,c.close)
  else
    (c.m_sequence,{c with
      m_socket := c.m_socket.map fun s => {s with written := s.written++[message]}
      m_expire := now+kResponseTimeout
      m_sequence := c.m_sequence+1})

/-- The text of the login request. -/
def loginText (lib : RapidJson) (c : Client) : Bytes := lib.write (loginRequest c.m_url c.m_agent)

/-- The text of `size` bytes, '\n' and '\0' are written to `m_sendBuf`, which is not
measured. -/
def fillSendBuf (c : Client) (size : ℕ) : Client :=
  {c with corrupted := c.corrupted || decide (sendBufSize<size+2)}

/-- `Client::login`: a text of more than `sizeof(m_buf)-2` bytes is not sent. -/
def login (lib : RapidJson) (c : Client) (w : WriteResult) (now : UInt64) : Client :=
  let c := {c with m_results := []}
  let size := (c.loginText lib).length
  if bufSize-2<size then c
  else ((c.fillSendBuf size).send (c.loginText lib++[newline]) w now).2

/-- `Client::connect(sockaddr*)`, with the result of `uv_tcp_connect`. -/
def connectSockaddr (c : Client) (r : ℤ) : Client :=
  {c with m_state := .connecting,m_socket := some ⟨decide (r=0),false,false,[]⟩}

/-- `Client::reconnect`. The listener gets the failures as an `int`. -/
def reconnect (c : Client) (now : UInt64) : Client :=
  let c := {c with
    m_state := .connecting
    m_keepAliveTimer := c.m_keepAliveTimer && !c.m_url.m_keepAlive}
  if c.m_failures=-1 then {c with calls := c.calls++[.onClose (-1)]}
  else
    {c with
      m_failures := c.m_failures+1
      calls := c.calls++[.onClose (Int.bmod (c.m_failures+1) (2^32))]
      m_expire := now+UInt64.ofInt c.m_retryPause}

/-- `Client::startTimeout`. -/
def startTimeout (c : Client) : Client :=
  {c with m_expire := 0,m_keepAliveTimer := c.m_keepAliveTimer || c.m_url.m_keepAlive}

/-- `Client::tick`, with the result of `uv_getaddrinfo` if it connects again. -/
def tick (c : Client) (now : UInt64) (r : ℤ) : Client :=
  if c.m_expire=0 ∨ now<c.m_expire then c
  else
    let c := if c.m_state=.connected then c.close else c
    if c.m_state=.connecting then c.connect r else c

/-- `Client::submit`. The share is noted before it is known whether it is sent. -/
def submit (c : Client) (result : JobResult) (w : WriteResult) (now : UInt64) : ℤ×Client :=
  let noted : SubmitResult := ⟨c.m_sequence,result.diff,actualDiff result⟩
  let c := {c with
    m_results := (c.m_sequence,noted)::c.m_results.filter fun p => p.1 ≠ c.m_sequence}
  c.send (submitRequest c.m_sequence c.m_rpcId result) w now

/-- `Client::ping`. -/
def ping (c : Client) (w : WriteResult) (now : UInt64) : Client :=
  (c.send (pingRequest c.m_sequence c.m_rpcId) w now).2

/-- `Client::parseJob`. -/
def parseJob (lib : RapidJson) (stale : Stale) (c : Client) (params : Json) : Bool×Client :=
  if params.isObject=false then (false,c)
  else
    let id := JobId.setId (lib.getString (params.get (text "job_id")))
    if id.1=false then (false,c)
    else
      let blob := Job.setBlob {Job.new stale.blob c.m_id c.m_url.m_nicehash with m_id := id.2}
        (lib.getString (params.get (text "blob")))
      if blob.1=false then (false,c)
      else
        let job := Job.setTarget stale.target blob.2 (lib.getString (params.get (text "target")))
        if job.1=false then (false,c)
        else if c.m_job.same job.2 then (false,c.close)
        else (true,{c with m_job := job.2})

/-- `Client::parseLogin`. -/
def parseLogin (lib : RapidJson) (stale : Stale) (c : Client) (result : Json) : Bool×Client :=
  match lib.getString (result.get (text "id")) with
  | none => (false,c)
  | some id =>
    if 64 ≤ id.length then (false,c)
    else parseJob lib stale {c with m_rpcId := id} (result.get (text "job"))

/-- The share found in `m_results` is reported to the listener and erased. -/
def answered (c : Client) (id : ℤ) (noted : SubmitResult) (error : Option Bytes) : Client :=
  {c with
    calls := c.calls++[.onResultAccepted noted error]
    m_results := c.m_results.filter fun p => p.1 ≠ id}

/-- `Client::parseResponse`. -/
def parseResponse (lib : RapidJson) (stale : Stale) (c : Client) (id : ℤ) (result error : Json) :
    Client :=
  if error.isObject then
    let message := lib.getString (error.get (text "message"))
    let c := match c.m_results.lookup id with
      | some noted => c.answered id noted message
      | none => c
    if id=1 ∨ isCriticalError message then c.close else c
  else if result.isObject=false then c
  else if id=1 then
    let parsed := parseLogin lib stale c result
    if parsed.1=false then parsed.2.close
    else
      {parsed.2 with
        m_failures := 0
        calls := parsed.2.calls++[.onLoginSuccess,.onJobReceived parsed.2.m_job]}
  else
    match c.m_results.lookup id with
    | some noted => c.answered id noted none
    | none => c

/-- `Client::parseNotification`. -/
def parseNotification (lib : RapidJson) (stale : Stale) (c : Client) (method : Option Bytes)
    (params error : Json) : Client :=
  if error.isObject then c
  else if method=some (text "job") then
    let parsed := parseJob lib stale c params
    if parsed.1 then {parsed.2 with calls := parsed.2.calls++[.onJobReceived parsed.2.m_job]}
    else parsed.2
  else c

/-- `Client::parse` of a line with its terminator. -/
def parse (lib : RapidJson) (stale : Stale) (c : Client) (line : Bytes) : Client :=
  let c := c.startTimeout
  match lib.parseInsitu (cStr line.dropLast) with
  | none => c
  | some doc =>
    if doc.isObject=false then c
    else
      match doc.get (text "id") with
      | .int64 id => c.parseResponse lib stale id (doc.get (text "result")) (doc.get (text "error"))
      | _ =>
        c.parseNotification lib stale (lib.getString (doc.get (text "method")))
          (doc.get (text "params")) (doc.get (text "error"))

/-- The calls of `parse` for the lines of one read. -/
def parseLines (lib : RapidJson) (c : Client) : List (Bytes×Stale) → Client
  | [] => c
  | (line,stale)::rest => parseLines lib (parse lib stale c line) rest

/-- `Client::onClose`, at a time. -/
def onClose (c : Client) (now : UInt64) : Client :=
  reconnect {c with m_socket := none,m_state := .unconnected} now

/-- `Client::onConnect`. -/
def onConnect (lib : RapidJson) (c : Client) (status : ℤ) (w : WriteResult) (now : UInt64) :
    Client :=
  let c : Client := {c with m_socket := c.m_socket.map fun s => {s with connecting := false}}
  if status<0 then c.close
  else
    let c : Client := {c with
      m_state := .connected
      m_socket := c.m_socket.map fun s => {s with reading := true}}
    c.login lib w now

/-- A line parsed in place, or the compaction, went past the end of `m_buf`. -/
def overruns (report : ReadReport) : Bool :=
  report.parsed.any (fun w => decide (bufSize<w.1+w.2)) ||
    report.copied.any fun call => decide (bufSize<call.dst+call.count)

/-- `m_buf` followed by what the other members hold at the moment. -/
def buffer (c : Client) (members : Cells UInt8) : RecvState :=
  ⟨fun a => if a<bufSize then c.recv.m_buf a else members a,c.recv.m_recvBufPos⟩

/-- The buffer after a read, and whether more than the buffer was written. -/
def received (c : Client) (report : ReadReport) : Client :=
  {c with recv := report.state,corrupted := c.corrupted || overruns report}

/-- `Client::onAllocBuffer` and `Client::onRead` for one delivery. -/
def onRead (lib : RapidJson) (recvLib : RecvLibrary) (c : Client) (members : Cells UInt8)
    (delivery : Delivery) (stale : ℕ → Stale) : Client :=
  let report := deliver recvLib (c.buffer members) delivery
  let lines := report.lines.zipIdx.map fun p => (p.1,stale p.2)
  let c := parseLines lib (c.received report) lines
  if report.closed then c.close else c

/-- `ai_family` of an address the client can use. -/
def AF_INET : ℤ := 2

/-- `Client::onResolved`, with the families of the addresses found. The addresses the
client can use differ for the network only. -/
def onResolved (c : Client) (status : ℤ) (families : List ℤ) (r : ℤ) (now : UInt64) : Client :=
  let c := {c with lookups := c.lookups-1}
  if status<0 then c.reconnect now
  else if families.filter (· = AF_INET)=[] then c.reconnect now
  else c.connectSockaddr r

end Client

/-- An event of the loop, with the results of the library calls made in it. -/
inductive Event where
  /-- Callback of the lookup; `r` is the result of `uv_tcp_connect`. -/
  | resolved (status : ℤ) (families : List ℤ) (r : ℤ) (now : UInt64)
  /-- Callback of the connect. -/
  | connected (status : ℤ) (w : WriteResult) (now : UInt64)
  /-- Callback of a read, end of stream or error. -/
  | read (members : Cells UInt8) (delivery : Delivery) (stale : ℕ → Stale)
  /-- Callback of the close. -/
  | closed (now : UInt64)
  /-- `tick`; `r` is the result of `uv_getaddrinfo`. -/
  | tick (now : UInt64) (r : ℤ)
  /-- `submit`. -/
  | submit (result : JobResult) (w : WriteResult) (now : UInt64)
  /-- The keepalive timer fires. -/
  | keepAlive (w : WriteResult) (now : UInt64)
  /-- Other clients send requests. -/
  | othersSent (n : ℕ)

/-- The loop delivers a callback only while it is due, and reads no more than the
buffer it was lent. -/
def Permitted (c : Client) : Event → Prop
  | .resolved .. => 0<c.lookups
  | .connected .. => ∃ s∈c.m_socket, s.connecting=true
  | .read _ (.data bytes) _ =>
    (∃ s∈c.m_socket, s.reading=true) ∧ c.recv.m_recvBufPos+bytes.length ≤ bufSize
  | .read _ (.failed _) _ => ∃ s∈c.m_socket, s.reading=true
  | .closed _ => ∃ s∈c.m_socket, s.closing=true ∧ s.connecting=false
  | .keepAlive .. => c.m_keepAliveTimer=true
  | .tick .. => True
  | .submit .. => True
  | .othersSent _ => True

/-- One event. -/
def step (lib : RapidJson) (recvLib : RecvLibrary) (c : Client) : Event → Client
  | .resolved status families r now => c.onResolved status families r now
  | .connected status w now => c.onConnect lib status w now
  | .read members delivery stale => c.onRead lib recvLib members delivery stale
  | .closed now => c.onClose now
  | .tick now r => c.tick now r
  | .submit result w now => (c.submit result w now).2
  | .keepAlive w now => Client.ping {c with m_keepAliveTimer := false} w now
  | .othersSent n => {c with m_sequence := c.m_sequence+n}

end XmrigCC.PoolClient
