import XmrigCC.ByteText
import XmrigCC.MultiWorker

/-!
# Messages between a pool client and its pool

JSON values as `Client` reads them and the three requests it writes. A member
that is missing reads as null, as in a release build. `GetString` of a value
that is neither a string nor null has no defined result; what such a read
yields is left to the library.
-/

namespace XmrigCC.PoolMessages

open ByteText MiningJob
open MultiWorker (JobResult)

/-- A parsed JSON value. -/
inductive Json where
  /-- `null`. -/
  | null
  /-- A Boolean. -/
  | bool (value : Bool)
  /-- A number within the range of `int64_t`. -/
  | int64 (value : ℤ)
  /-- Any other number, by its text. -/
  | number (digits : Bytes)
  /-- A decoded string. -/
  | string (value : Bytes)
  /-- An array. -/
  | array (elements : List Json)
  /-- An object with its members in order. -/
  | object (members : List (Bytes×Json))

namespace Json

/-- `IsObject`. -/
def isObject : Json → Bool
  | object _ => true
  | _ => false

/-- `operator[]`, which is applied to objects only: the first member of that name. -/
def get : Json → Bytes → Json
  | object members,name => ((members.find? fun m => m.1=name).map Prod.snd).getD null
  | _,_ => null

end Json

/-- The JSON library. -/
structure RapidJson where
  /-- `ParseInsitu` of a C string, `none` for a parse error. -/
  parseInsitu : Bytes → Option Json
  /-- Text of `Writer`. -/
  write : Json → Bytes
  /-- What `GetString` yields for a value that is neither a string nor null. -/
  strayString : Json → Option Bytes

/-- `GetString` as its callers see it: a C string, or a null pointer. -/
def RapidJson.getString (lib : RapidJson) : Json → Option Bytes
  | .string value => some (cStr value)
  | .null => none
  | value => lib.strayString value

/-- The members of `Url` that a client reads once the host is being looked up. -/
structure Url where
  /-- Pings keep the connection alive. -/
  m_keepAlive : Bool
  /-- Jobs leave only 24 bits of the nonce free. -/
  m_nicehash : Bool
  /-- Password, when one is given. -/
  m_password : Option Bytes
  /-- User, when one is given. -/
  m_user : Option Bytes

/-- `Url::password`. -/
def Url.password (url : Url) : Bytes := url.m_password.getD (text "x")

/-- `Url::user`. -/
def Url.user (url : Url) : Bytes := url.m_user.getD (text "x")

/-- The document that `Client::login` builds. -/
def loginRequest (url : Url) (agent : Bytes) : Json :=
  .object [(text "id",.int64 1),(text "jsonrpc",.string (text "2.0")),
    (text "method",.string (text "login")),
    (text "params",.object [(text "login",.string url.user),(text "pass",.string url.password),
      (text "agent",.string agent)])]

/-- Decimal digits of an integer. -/
def decimal (n : ℤ) : Bytes := text (toString n)

/-- `hf_bin2hex`. -/
def hf_bin2hex (c : UInt8) : UInt8 := if c ≤ 9 then 48+c else 97-10+c

/-- `Job::toHex`. -/
def toHex (bytes : List UInt8) : Bytes :=
  bytes.flatMap fun (b : UInt8) => [hf_bin2hex ((b&&&0xF0)>>>4),hf_bin2hex (b&&&0x0F)]

/-- The line that `Client::submit` formats. -/
def submitRequest (sequence : ℤ) (rpcId : Bytes) (result : JobResult) : Bytes :=
  text "\x7b\"id\":"++decimal (sequence%2^64)++
    text ",\"jsonrpc\":\"2.0\",\"method\":\"submit\",\"params\":\x7b\"id\":\""++rpcId++
    text "\",\"job_id\":\""++cStr result.jobId.m_data++
    text "\",\"nonce\":\""++toHex (le32 result.nonce)++
    text "\",\"result\":\""++toHex result.result++text "\"\x7d\x7d\n"

/-- The line that `Client::ping` formats. -/
def pingRequest (sequence : ℤ) (rpcId : Bytes) : Bytes :=
  text "\x7b\"id\":"++decimal sequence++
    text ",\"jsonrpc\":\"2.0\",\"method\":\"keepalived\",\"params\":\x7b\"id\":\""++rpcId++
    text "\"\x7d\x7d\n"

/-- What a client remembers of a share it submitted. -/
structure SubmitResult where
  /-- Number of the request. -/
  seq : ℤ
  /-- Difficulty of the job. -/
  diff : ℕ
  /-- Difficulty the share reaches. -/
  actualDiff : ℕ
  deriving DecidableEq

/-- `JobResult::actualDiff`: the difficulty that the last eight hash bytes reach. -/
def actualDiff (result : JobResult) : ℕ := toDiff (leValue (result.result.drop 24))

/-- Lower case of an ASCII letter. -/
def lower (c : UInt8) : UInt8 := if 65 ≤ c ∧ c ≤ 90 then c+32 else c

/-- `strncasecmp(a, b, n) == 0`. -/
def sameIgnoringCase (a b : Bytes) (n : ℕ) : Bool :=
  decide ((a.take n).map lower=(b.take n).map lower)

/-- `Client::isCriticalError`. -/
def isCriticalError : Option Bytes → Bool
  | none => false
  | some message =>
    sameIgnoringCase message (text "Unauthenticated") 15 ||
    sameIgnoringCase message (text "your IP is banned") 17 ||
    sameIgnoringCase message (text "IP Address currently banned") 27

end XmrigCC.PoolMessages
