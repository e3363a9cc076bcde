import XmrigCC.JsonValues
import XmrigCC.PoolMessages

/-!
# Urls of pools

`Url` with its host and its port. `parse` writes to the url it is called on: a text without
a port leaves the port that is there, and a refused text leaves everything.
-/

namespace XmrigCC.PoolUrls

open ByteText
open PoolMessages (sameIgnoringCase)

/-- `Url`: the members that a client reads, with the host and the port. -/
structure Url extends PoolMessages.Url where
  /-- Host, when one is known. -/
  m_host : Option Bytes
  /-- Port. -/
  m_port : UInt16

/-- `isspace`. -/
def isspace (c : UInt8) : Bool := c=32 || (decide (9 ≤ c) && decide (c ≤ 13))

/-- `isdigit`. -/
def isdigit (c : UInt8) : Bool := decide (48 ≤ c) && decide (c ≤ 57)

/-- Value of the digits that a text begins with. -/
def digits (str : Bytes) : ℕ :=
  (str.takeWhile isdigit).foldl (fun n c => 10*n+(c.toNat-48)) 0

/-- `strtol` with base 10 and a `long` of 64 bits: blanks, a sign, digits, and the nearest
limit for a number out of range. -/
def strtol (str : Bytes) : ℤ :=
  let str := str.dropWhile isspace
  let n : ℤ :=
    if str.head?=some 45 then -digits str.tail
    else if str.head?=some 43 then digits str.tail
    else digits str
  max (-0x8000000000000000) (min n 0x7fffffffffffffff)

/-- `(uint16_t) strtol(str, nullptr, 10)`. -/
def portOf (str : Bytes) : UInt16 := UInt16.ofNat (strtol str%65536).toNat

namespace Url

/-- `Url::Url()`, with `kDefaultPort`. -/
def new : Url := ⟨⟨false,false,none,none⟩,none,3333⟩

/-- `Url::isValid`. -/
def isValid (u : Url) : Bool := u.m_host.isSome && decide (0<u.m_port)

/-- `Url::parse` behind the scheme. -/
def parseBase (u : Url) (base : Bytes) : Bool×Url :=
  if base=[] ∨ base.head?=some 47 then (false,u)
  else
    match base.dropWhile (· ≠ 58) with
    | [] => (false,{u with m_host := some base})
    | _::port => (true,{u with m_host := some (base.takeWhile (· ≠ 58)),m_port := portOf port})

/-- `Url::parse`. -/
def parse (u : Url) (url : Bytes) : Bool×Url :=
  if strstr url (text "://") then
    if sameIgnoringCase url (text "stratum+tcp://") 14=false then (false,u)
    else u.parseBase (url.drop 14)
  else u.parseBase url

/-- `Url::Url(const char*)`. -/
def ofText (url : Bytes) : Url := (new.parse url).2

/-- `Url::setUserpass`. -/
def setUserpass (u : Url) (userpass : Bytes) : Bool×Url :=
  match userpass.dropWhile (· ≠ 58) with
  | [] => (false,u)
  | _::password =>
    (true,{u with m_user := some (userpass.takeWhile (· ≠ 58)),m_password := some password})

/-- `Url::setPassword`. -/
def setPassword (u : Url) (password : Bytes) : Url := {u with m_password := some password}

/-- `Url::setUser`. -/
def setUser (u : Url) (user : Bytes) : Url := {u with m_user := some user}

/-- `Url::setKeepAlive`. -/
def setKeepAlive (u : Url) (keepAlive : Bool) : Url := {u with m_keepAlive := keepAlive}

/-- `Url::setNicehash`. -/
def setNicehash (u : Url) (nicehash : Bool) : Url := {u with m_nicehash := nicehash}

end Url

section Targets

/-- The host that a text behind the scheme names, and the port if it gives one. -/
def baseTarget (base : Bytes) : Option (Bytes×Option UInt16) :=
  if base=[] ∨ base.head?=some 47 then none
  else some (base.takeWhile (· ≠ 58),(base.dropWhile (· ≠ 58)).tail?.map portOf)

/-- The host and the port that a url names, none if it is refused. -/
def target (url : Bytes) : Option (Bytes×Option UInt16) :=
  if strstr url (text "://") then
    if sameIgnoringCase url (text "stratum+tcp://") 14=false then none
    else baseTarget (url.drop 14)
  else baseTarget url

/-- A url with the host and the port named, its own port if none is. -/
def Url.aim (u : Url) : Option (Bytes×Option UInt16) → Url
  | none => u
  | some (host,port) => {u with m_host := some host,m_port := port.getD u.m_port}

theorem parseBase_eq (u : Url) (base : Bytes) : (u.parseBase base).2=u.aim (baseTarget base) := by
  unfold Url.parseBase baseTarget
  split
  · rfl
  · split
    · rename_i hcolon
      have hwhole : base.takeWhile (· ≠ 58)=base := by
        have happend := List.takeWhile_append_dropWhile (p:=(· ≠ 58)) (l:=base)
        rw [hcolon,List.append_nil] at happend
        exact happend
      rw [hcolon,hwhole]
      rfl
    · rename_i hcolon
      rw [hcolon]
      rfl

/-- What `parse` leaves. -/
theorem parse_eq (u : Url) (url : Bytes) : (u.parse url).2=u.aim (target url) := by
  unfold Url.parse target
  split
  · split
    · rfl
    · exact parseBase_eq u _
  · exact parseBase_eq u _

theorem ofText_eq (url : Bytes) : Url.ofText url=Url.new.aim (target url) := parse_eq Url.new url

/-- A text of its own is valid when it names a host and no port that is 0. -/
theorem ofText_valid_iff (url : Bytes) :
    (Url.ofText url).isValid=true ↔ ∃ host port, target url=some (host,port) ∧ port ≠ some 0 := by
  have hdefault : (0:UInt16)<3333 := by decide
  rw [ofText_eq]
  cases htarget : target url with
  | none =>
    refine iff_of_false (fun h => ?_) fun ⟨_,_,h,_⟩ => (nomatch h)
    cases h
  | some named =>
    obtain ⟨host,port⟩ := named
    cases port with
    | none =>
      refine iff_of_true ?_ ⟨host,none,rfl,fun h => (nomatch h)⟩
      simp only [Url.aim,Url.isValid,Option.isSome_some,Option.getD_none,Bool.true_and,Url.new,
        hdefault,decide_true]
    | some port =>
      simp only [Url.aim,Url.isValid,Option.isSome_some,Option.getD_some,Bool.true_and,
        decide_eq_true_eq,UInt16.pos_iff_ne_zero]
      constructor
      · intro hne
        exact ⟨host,some port,rfl,fun h => hne (Option.some.inj h)⟩
      · rintro ⟨_,_,heq,hne⟩ rfl
        obtain ⟨rfl,rfl⟩ := Prod.mk.inj (Option.some.inj heq)
        exact hne rfl

end Targets

end XmrigCC.PoolUrls
