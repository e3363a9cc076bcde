import XmrigCC.OwnedBlocks
import XmrigCC.PoolUrls

/-!
# Copies of urls

`Url::operator=` frees the host and copies that of the other url. For the password and the
user it calls the setters, which return at once when they are given a null pointer.
-/

namespace XmrigCC.UrlCopies

open ByteText CStrings OwnedBlocks
open PoolUrls (target)

/-- The members of `Url` that point to a text. -/
inductive Member where
  /-- Host. -/
  | m_host
  /-- Password. -/
  | m_password
  /-- User. -/
  | m_user
  deriving DecidableEq

/-- The other members of `Url`. -/
structure Plain where
  /-- Pings keep the connection alive. -/
  m_keepAlive : Bool
  /-- Jobs leave only 24 bits of the nonce free. -/
  m_nicehash : Bool
  /-- Port. -/
  m_port : UInt16

/-- The objects of the class, and the heap with the texts. -/
structure Memory (ι : Type) extends Owners (ι×Member) CString where
  /-- What an object holds itself. -/
  plain : ι → Plain

/-- A url that takes over what another one has. -/
def takeOver (u v : PoolUrls.Url) : PoolUrls.Url :=
  {v with m_password := v.m_password.or u.m_password,m_user := v.m_user.or u.m_user}

theorem getD_or_iff {α : Type*} (old new : Option α) (d : α) :
    (new.or old).getD d=new.getD d ↔ new ≠ none ∨ old=none ∨ old=some d := by
  cases new with
  | some x => exact iff_of_true rfl (Or.inl fun h => nomatch h)
  | none =>
    cases old with
    | none => exact iff_of_true rfl (Or.inr (Or.inl rfl))
    | some y =>
      refine ⟨fun h => Or.inr (Or.inr (congrArg some h)),fun h => ?_⟩
      obtain h | h | h := h
      · exact absurd rfl h
      · cases h
      · exact Option.some_inj.mp h

namespace Memory

variable {ι : Type}

/-- The heap and the pointers are changed. -/
def withOwners (m : Memory ι) (s : Owners (ι×Member) CString) : Memory ι := {m with toOwners := s}

/-- An object as the rest of the program sees it. -/
def url (m : Memory ι) (a : ι) : PoolUrls.Url where
  m_keepAlive := (m.plain a).m_keepAlive
  m_nicehash := (m.plain a).m_nicehash
  m_password := (m.value (a,.m_password)).map CString.bytes
  m_user := (m.value (a,.m_user)).map CString.bytes
  m_host := (m.value (a,.m_host)).map CString.bytes
  m_port := (m.plain a).m_port

/-- `Url::isValid`. -/
def isValid (m : Memory ι) (a : ι) : Bool :=
  (m.slot (a,.m_host)).isSome && decide (0<(m.plain a).m_port)

/-- An object with the same texts and the same other members is the same. -/
theorem url_congr {m m' : Memory ι} {a : ι} (hplain : m'.plain a=m.plain a)
    (hvalue : ∀ f, m'.value (a,f)=m.value (a,f)) : m'.url a=m.url a := by
  unfold url
  rw [hplain,hvalue,hvalue,hvalue]

/-- The valid objects are those that the rest of the program takes for valid. -/
theorem isValid_eq {m : Memory ι} (hm : m.Owned) (a : ι) : m.isValid a=(m.url a).isValid := by
  unfold isValid PoolUrls.Url.isValid url
  rw [Option.isSome_map]
  congr 1
  rw [Bool.eq_iff_iff,Option.isSome_iff_ne_none,Option.isSome_iff_ne_none]
  exact not_congr hm.value_eq_none_iff.symm

variable [DecidableEq ι]

/-- The members of an object that are no pointers are changed. -/
def setPlain (m : Memory ι) (a : ι) (x : Plain) : Memory ι :=
  {m with plain := Function.update m.plain a x}

/-- `free(m_...); m_... = strdup(str);`. -/
def renew (A : Allocator CString) (m : Memory ι) (k : ι×Member) (str : Option ℕ) :
    Option (Memory ι) :=
  (m.toOwners.renew A k str).map m.withOwners

/-- The body that `setPassword` and `setUser` share. -/
def set (A : Allocator CString) (m : Memory ι) (k : ι×Member) : Option ℕ → Option (Memory ι)
  | none => some m
  | some str => m.renew A k (some str)

/-- `Url::setPassword`. -/
def setPassword (A : Allocator CString) (m : Memory ι) (a : ι) (password : Option ℕ) :
    Option (Memory ι) := m.set A (a,.m_password) password

/-- `Url::setUser`. -/
def setUser (A : Allocator CString) (m : Memory ι) (a : ι) (user : Option ℕ) :
    Option (Memory ι) := m.set A (a,.m_user) user

/-- `Url::operator=`. -/
def assign (A : Allocator CString) (m : Memory ι) (a other : ι) : Option (Memory ι) := do
  let m := m.setPlain a (m.plain other)
  let m ← m.renew A (a,.m_host) (m.slot (other,.m_host))
  let m ← m.setPassword A a (m.slot (other,.m_password))
  m.setUser A a (m.slot (other,.m_user))

/-- `Client::setUrl` of a client with an `m_url`. -/
def setUrl (A : Allocator CString) (m : Memory ι) (m_url : ι) : Option ι → Option (Memory ι)
  | none => some m
  | some url => if m.isValid url then m.assign A m_url url else some m

section Spec

variable {A : Allocator CString} {m m' : Memory ι} {a b : ι} {k : ι×Member} {p : Option ℕ}

/-- What a step on one pointer leaves. -/
structure Renewed (m m' : Memory ι) (k : ι×Member) (x : Option CString) : Prop where
  /-- The pointers own their texts. -/
  owned : m'.Owned
  /-- The other members are kept. -/
  plain : m'.plain=m.plain
  /-- The text. -/
  value : m'.value k=x
  /-- The other pointers are kept. -/
  slots : m.KeepsSlots m'.toOwners k
  /-- Their texts are kept. -/
  values : ∀ j ≠ k, m'.value j=m.value j

theorem renew_spec (hm : m.Owned) (h : m.renew A k p=some m') :
    ∃ x, m.read p=some x ∧ m.Renewed m' k (some x) := by
  obtain ⟨s,hs,hm'⟩ := Option.map_eq_some_iff.mp h
  obtain ⟨howned,⟨x,hx,hvalue⟩,hslots,hvalues⟩ := hm.renew hs
  rw [←hm']
  exact ⟨x,hx,howned,rfl,hvalue,hslots,hvalues⟩

/-- A setter given a null pointer leaves the text that is there. -/
theorem set_spec (hm : m.Owned) (h : m.set A k p=some m') :
    m.Renewed m' k ((m.read p).or (m.value k)) := by
  cases p with
  | none =>
    cases h
    exact ⟨hm,rfl,rfl,fun _ _ => rfl,fun _ _ => rfl⟩
  | some str =>
    obtain ⟨x,hx,hrenewed⟩ := renew_spec hm h
    rw [hx]
    exact hrenewed

theorem renew_defined (hm : m.Owned) {j : ι×Member} (hj : j ≠ k) (hhost : m.slot j ≠ none) :
    ∃ m', m.renew A k (m.slot j)=some m' := by
  obtain ⟨q,hq⟩ := Option.ne_none_iff_exists'.mp hhost
  obtain ⟨s,hs⟩ := hm.renew_defined (A:=A) hj hq
  refine ⟨m.withOwners s,?_⟩
  rw [renew,hq,hs]
  rfl

theorem set_defined (hm : m.Owned) {j : ι×Member} (hj : j ≠ k) :
    ∃ m', m.set A k (m.slot j)=some m' := by
  cases hq : m.slot j with
  | none => exact ⟨m,rfl⟩
  | some q =>
    have hne : m.slot j ≠ none := fun hnone => by rw [hq] at hnone; cases hnone
    obtain ⟨m',hm'⟩ := renew_defined (A:=A) hm hj hne
    rw [hq] at hm'
    exact ⟨m',hm'⟩

omit [DecidableEq ι] in
/-- Pointers of different objects are different. -/
theorem pointer_ne (hne : b ≠ a) (f g : Member) : (b,f) ≠ (a,g) :=
  fun h => hne (Prod.mk.inj h).1

/-- What is assigned is the other url, with the password and the user that were there where
the other one has none. -/
theorem assign_spec (hm : m.Owned) (hne : b ≠ a) (h : m.assign A a b=some m') :
    m'.Owned ∧ m'.url a=takeOver (m.url a) (m.url b) ∧ ∀ c ≠ a, m'.url c=m.url c := by
  obtain ⟨m₁,h₁,h⟩ := Option.bind_eq_some_iff.mp h
  obtain ⟨m₂,h₂,h₃⟩ := Option.bind_eq_some_iff.mp h
  obtain ⟨x,hx,r₁⟩ := renew_spec (m:=m.setPlain a (m.plain b)) hm h₁
  have r₂ := set_spec r₁.owned h₂
  have r₃ := set_spec r₂.owned h₃
  have hplain : m'.plain=Function.update m.plain a (m.plain b) :=
    r₃.plain.trans (r₂.plain.trans r₁.plain)
  have hhost : m'.value (a,.m_host)=m.value (b,.m_host) := by
    rw [r₃.values _ (by simp),r₂.values _ (by simp),r₁.value,←hx]
    rfl
  have hpassword : m'.value (a,.m_password)=
      (m.value (b,.m_password)).or (m.value (a,.m_password)) := by
    rw [r₃.values _ (by simp),r₂.value,r₁.values _ (by simp)]
    congr 1
    exact r₁.values _ (pointer_ne hne _ _)
  have huser : m'.value (a,.m_user)=(m.value (b,.m_user)).or (m.value (a,.m_user)) := by
    rw [r₃.value,r₂.values _ (by simp),r₁.values _ (by simp)]
    congr 1
    exact (r₂.values _ (pointer_ne hne _ _)).trans (r₁.values _ (pointer_ne hne _ _))
  refine ⟨r₃.owned,?_,fun c hc => url_congr ?_ fun f => ?_⟩
  · unfold url takeOver
    rw [hplain,hhost,hpassword,huser,Function.update_self,Option.map_or,Option.map_or]
  · rw [hplain,Function.update_of_ne hc]
  · rw [r₃.values _ (pointer_ne hc _ _),r₂.values _ (pointer_ne hc _ _),
      r₁.values _ (pointer_ne hc _ _)]
    rfl

/-- A url with a host can be assigned to every other one. -/
theorem assign_defined (hm : m.Owned) (hne : b ≠ a) (hhost : m.slot (b,.m_host) ≠ none) :
    ∃ m', m.assign A a b=some m' := by
  obtain ⟨m₁,h₁⟩ := renew_defined (A:=A) (m:=m.setPlain a (m.plain b)) hm
    (pointer_ne hne .m_host .m_host) hhost
  obtain ⟨x,hx,r₁⟩ := renew_spec (m:=m.setPlain a (m.plain b)) hm h₁
  obtain ⟨m₂,h₂⟩ := set_defined (A:=A) r₁.owned (pointer_ne hne .m_password .m_password)
  obtain ⟨m₃,h₃⟩ := set_defined (A:=A) (set_spec r₁.owned h₂).owned
    (pointer_ne hne .m_user .m_user)
  refine ⟨m₃,Option.bind_eq_some_iff.mpr ⟨m₁,h₁,Option.bind_eq_some_iff.mpr ⟨m₂,h₂,h₃⟩⟩⟩

/-- A url that is assigned to itself frees its host and reads it afterwards. -/
theorem assign_self (hm : m.Owned) (a : ι) : m.assign A a a=none := by
  refine Option.bind_eq_none_iff.mpr fun m₁ h₁ => ?_
  have hnone : (m.setPlain a (m.plain a)).renew A (a,.m_host)
      ((m.setPlain a (m.plain a)).slot (a,.m_host))=none := by
    rw [renew]
    exact Option.map_eq_none_iff.mpr hm.renew_self
  rw [hnone] at h₁
  cases h₁

end Spec

section Lifetime

variable (A : Allocator CString) (m : Memory ι) (a : ι)

/-- No objects, and no texts of the caller. -/
def empty : Memory ι := ⟨⟨∅,fun _ => none⟩,fun _ => ⟨false,false,3333⟩⟩

/-- A member of a new object: `str ? strdup(str) : nullptr`. -/
def init (k : ι×Member) : Option ℕ → Option (Memory ι)
  | none => some (m.withOwners (m.forget k))
  | some str => (m.read (some str)).map fun x => m.withOwners (m.plant A k x)

/-- `Url::Url()`. -/
def new : Memory ι :=
  (m.setPlain a ⟨false,false,3333⟩).withOwners
    (((m.forget (a,.m_host)).forget (a,.m_password)).forget (a,.m_user))

/-- `Url::Url(const char*,uint16_t,const char*,const char*,bool,bool)`. -/
def construct (host : Option ℕ) (port : UInt16) (user password : Option ℕ)
    (keepAlive nicehash : Bool) : Option (Memory ι) := do
  let m ← m.init A (a,.m_password) password
  let m ← m.init A (a,.m_user) user
  let x ← m.read host
  some ((m.setPlain a ⟨keepAlive,nicehash,port⟩).withOwners (m.plant A (a,.m_host) x))

/-- `Url::~Url`. -/
def destroy : Option (Memory ι) := do
  let s ← m.drop (a,.m_host)
  let s ← s.drop (a,.m_password)
  let s ← s.drop (a,.m_user)
  some (m.withOwners s)

/-- The host that a url names consists of characters of it. -/
theorem target_subset {url host : Bytes} {port : Option UInt16}
    (h : target url=some (host,port)) : host ⊆ url := by
  have hbase : ∀ base, PoolUrls.baseTarget base=some (host,port) → host ⊆ base := by
    intro base hbase
    unfold PoolUrls.baseTarget at hbase
    split at hbase
    · cases hbase
    · cases hbase
      exact List.takeWhile_subset _
  unfold target at h
  split at h
  · split at h
    · cases h
    · exact List.Subset.trans (hbase _ h) (List.drop_subset _ _)
  · exact hbase _ h

/-- `Url::parse`, with what `PoolUrls.parse_eq` says that it takes from the text. The old host
is not freed. -/
def parse (url : Option ℕ) : Option (Memory ι) :=
  (m.read url).map fun s =>
    match h : target s.bytes with
    | none => m
    | some (host,port) =>
      (m.setPlain a {m.plain a with m_port := port.getD (m.plain a).m_port}).withOwners
        (m.plant A (a,.m_host) (s.part host (target_subset h)))

/-- `Url::setUserpass`. -/
def setUserpass (userpass : Option ℕ) : Option (Memory ι) := do
  let s ← m.read userpass
  if 58∉s.bytes then some m
  else
    let t ← m.drop (a,.m_user)
    let t ← t.drop (a,.m_password)
    let s ← t.read userpass
    let t := t.plant A (a,.m_user) (s.part (s.bytes.takeWhile (· ≠ 58)) (List.takeWhile_subset _))
    some (m.withOwners (t.plant A (a,.m_password) (s.part (s.bytes.dropWhile (· ≠ 58)).tail
      (List.Subset.trans (List.tail_subset _) (List.dropWhile_subset _)))))

/-- What happens to the objects of the class. -/
inductive Step : Memory ι → Prop where
  /-- The caller allocates a text. -/
  | alloc (x : CString) : Step (m.withOwners (m.alloc A x))
  /-- The caller frees a text that is none of an object. -/
  | release {q : ℕ} {s : Owners (ι×Member) CString} (hq : ∀ k, m.slot k ≠ some q)
      (h : m.free (some q)=some s) : Step (m.withOwners s)
  /-- A new object. -/
  | new (a : ι) : Step (m.new a)
  /-- A new object with a host. -/
  | construct {a : ι} {host user password : Option ℕ} {port : UInt16} {keepAlive nicehash : Bool}
      {m' : Memory ι} (h : m.construct A a host port user password keepAlive nicehash=some m') :
      Step m'
  /-- An object is deleted. -/
  | destroy {a : ι} {m' : Memory ι} (h : m.destroy a=some m') : Step m'
  /-- `setKeepAlive`, `setNicehash` and `applyExceptions`. -/
  | setPlain (a : ι) (x : Plain) : Step (m.setPlain a x)
  /-- `parse`. -/
  | parse {a : ι} {url : Option ℕ} {m' : Memory ι} (h : m.parse A a url=some m') : Step m'
  /-- `setUserpass`. -/
  | setUserpass {a : ι} {userpass : Option ℕ} {m' : Memory ι}
      (h : m.setUserpass A a userpass=some m') : Step m'
  /-- `setPassword` and `setUser`. -/
  | set {k : ι×Member} {str : Option ℕ} {m' : Memory ι} (h : m.set A k str=some m') : Step m'
  /-- `operator=`. -/
  | assign {a b : ι} {m' : Memory ι} (h : m.assign A a b=some m') : Step m'

variable {A m a} {m' : Memory ι}

theorem owned_init {k : ι×Member} {str : Option ℕ} (hm : m.Owned) (h : m.init A k str=some m') :
    m'.Owned := by
  cases str with
  | none =>
    cases h
    exact (hm.forget k).1
  | some str =>
    obtain ⟨x,-,hplant⟩ := Option.map_eq_some_iff.mp h
    rw [←hplant]
    exact (hm.plant k x).1

theorem owned_construct {host user password : Option ℕ} {port : UInt16} {keepAlive nicehash : Bool}
    (hm : m.Owned) (h : m.construct A a host port user password keepAlive nicehash=some m') :
    m'.Owned := by
  obtain ⟨m₁,h₁,h⟩ := Option.bind_eq_some_iff.mp h
  obtain ⟨m₂,h₂,h⟩ := Option.bind_eq_some_iff.mp h
  obtain ⟨x,-,h⟩ := Option.bind_eq_some_iff.mp h
  cases h
  exact ((owned_init (owned_init hm h₁) h₂).plant _ x).1

theorem owned_destroy (hm : m.Owned) (h : m.destroy a=some m') : m'.Owned := by
  obtain ⟨s₁,h₁,h⟩ := Option.bind_eq_some_iff.mp h
  obtain ⟨s₂,h₂,h⟩ := Option.bind_eq_some_iff.mp h
  obtain ⟨s₃,h₃,h⟩ := Option.bind_eq_some_iff.mp h
  cases h
  exact (((hm.drop h₁).1.drop h₂).1.drop h₃).1

theorem owned_parse {url : Option ℕ} (hm : m.Owned) (h : m.parse A a url=some m') : m'.Owned := by
  obtain ⟨s,-,hparse⟩ := Option.map_eq_some_iff.mp h
  rw [←hparse]
  split
  · exact hm
  · exact (hm.plant _ _).1

theorem owned_setUserpass {userpass : Option ℕ} (hm : m.Owned)
    (h : m.setUserpass A a userpass=some m') : m'.Owned := by
  obtain ⟨s,-,h⟩ := Option.bind_eq_some_iff.mp h
  split at h
  · cases h
    exact hm
  · obtain ⟨t₁,h₁,h⟩ := Option.bind_eq_some_iff.mp h
    obtain ⟨t₂,h₂,h⟩ := Option.bind_eq_some_iff.mp h
    obtain ⟨x,-,h⟩ := Option.bind_eq_some_iff.mp h
    cases h
    exact ((((hm.drop h₁).1.drop h₂).1.plant _ _).1.plant _ _).1

/-- Whatever happens to the objects, they own their texts. -/
theorem owned_step (hm : m.Owned) (h : Step A m m') : m'.Owned := by
  cases h with
  | alloc x => exact (hm.alloc x).1
  | release hq h => exact (hm.free hq h).1
  | new a => exact (((hm.forget _).1.forget _).1.forget _).1
  | construct h => exact owned_construct hm h
  | destroy h => exact owned_destroy hm h
  | setPlain a x => exact hm
  | parse h => exact owned_parse hm h
  | setUserpass h => exact owned_setUserpass hm h
  | set h => exact (set_spec hm h).owned
  | assign h =>
    rename_i a b
    by_cases hne : b=a
    · rw [hne,assign_self hm] at h
      cases h
    · exact (assign_spec hm hne h).1

/-- In every run from the start the objects own their texts. -/
theorem owned_run (h : Relation.ReflTransGen (Step A) empty m) : m.Owned := by
  induction h with
  | refl => exact ⟨fun k p hp => (nomatch hp),fun j k p hj => (nomatch hj)⟩
  | tail _ hstep ih => exact owned_step ih hstep

/-- What `parse` leaves is what it leaves for the rest of the program. -/
theorem url_parse {url : Option ℕ} {s : CString} (hm : m.Owned) (hs : m.read url=some s) :
    ∃ m', m.parse A a url=some m' ∧ m'.url a=((m.url a).parse s.bytes).2 := by
  refine ⟨_,by rw [parse,hs,Option.map_some],?_⟩
  rw [PoolUrls.parse_eq]
  split
  · rename_i htarget
    rw [htarget]
    rfl
  · rename_i host port htarget
    obtain ⟨-,hvalue,hrest⟩ := hm.plant (A:=A) (a,.m_host) (s.part host (target_subset htarget))
    have haim : (m.url a).aim (target s.bytes)=(m.url a).aim (some (host,port)) := by rw [htarget]
    rw [haim]
    unfold PoolUrls.Url.aim Memory.url withOwners setPlain
    dsimp only
    rw [hvalue,hrest _ (by simp),hrest _ (by simp),Function.update_self]
    rfl

end Lifetime

section Copies

/-- An object is a copy of what another one was. -/
structure Copied (m m' : Memory ι) (a b : ι) : Prop where
  /-- The host. -/
  host : (m'.url a).m_host=(m.url b).m_host
  /-- The port. -/
  port : (m'.url a).m_port=(m.url b).m_port
  /-- `user()`. -/
  user : (m'.url a).user=(m.url b).user
  /-- `password()`. -/
  password : (m'.url a).password=(m.url b).password
  /-- `isKeepAlive()`. -/
  keepAlive : (m'.url a).m_keepAlive=(m.url b).m_keepAlive
  /-- `isNicehash()`. -/
  nicehash : (m'.url a).m_nicehash=(m.url b).m_nicehash
  /-- An object assigned to itself is unchanged. -/
  unchanged : a=b → m'.url a=m.url a

/-- Nothing of an old text is seen behind a new one, where `x` stands for none. -/
def Covered (old new : Option Bytes) : Prop := new ≠ none ∨ old=none ∨ old=some (text "x")

/-- An assignment copies the other url when it is not the same one, and each of the user and
the password is one that the other has, or was none or `x` before. -/
theorem copied_iff (A : Allocator CString) {m : Memory ι} (hm : m.Owned) {a b : ι}
    (hb : m.isValid b=true) : (∃ m', m.assign A a b=some m' ∧ Copied m m' a b) ↔
      a ≠ b ∧ Covered (m.url a).m_user (m.url b).m_user ∧
        Covered (m.url a).m_password (m.url b).m_password := by
  constructor
  · rintro ⟨m',h,hcopied⟩
    have hne : a ≠ b := by
      rintro rfl
      rw [assign_self hm] at h
      cases h
    have hurl := (assign_spec hm hne.symm h).2.1
    have huser := hcopied.user
    have hpassword := hcopied.password
    rw [hurl] at huser hpassword
    exact ⟨hne,(getD_or_iff _ _ _).mp huser,(getD_or_iff _ _ _).mp hpassword⟩
  · rintro ⟨hne,huser,hpassword⟩
    have hhost : m.slot (b,.m_host) ≠ none :=
      Option.isSome_iff_ne_none.mp (Bool.and_eq_true_iff.mp hb).1
    obtain ⟨m',h⟩ := assign_defined (A:=A) hm hne.symm hhost
    have hurl := (assign_spec hm hne.symm h).2.1
    refine ⟨m',h,?_,?_,?_,?_,?_,?_,fun he => absurd he hne⟩
    · rw [hurl,takeOver]
    · rw [hurl,takeOver]
    · rw [hurl]
      exact (getD_or_iff _ _ _).mpr huser
    · rw [hurl]
      exact (getD_or_iff _ _ _).mpr hpassword
    · rw [hurl,takeOver]
    · rw [hurl,takeOver]

/-- A client whose url has no user and no password yet gets those of the url it is given. -/
theorem setUrl_new (A : Allocator CString) {m : Memory ι} (hm : m.Owned) {a b : ι} (hne : b ≠ a)
    (hb : m.isValid b=true) (huser : m.slot (a,.m_user)=none)
    (hpassword : m.slot (a,.m_password)=none) :
    ∃ m', m.setUrl A a (some b)=some m' ∧ m'.Owned ∧ m'.url a=m.url b := by
  obtain ⟨m',h⟩ := assign_defined (A:=A) hm hne
    (Option.isSome_iff_ne_none.mp (Bool.and_eq_true_iff.mp hb).1)
  obtain ⟨howned,hurl,-⟩ := assign_spec hm hne h
  refine ⟨m',(if_pos hb).trans h,howned,?_⟩
  rw [hurl,takeOver]
  have hnone : (m.url a).m_user=none ∧ (m.url a).m_password=none :=
    ⟨congrArg (Option.map _) (hm.value_eq_none_iff.mpr huser),
      congrArg (Option.map _) (hm.value_eq_none_iff.mpr hpassword)⟩
  rw [hnone.1,hnone.2,Option.or_none,Option.or_none]

/-- Two urls of the default port, the first of them with a user. -/
def twoUrls : Memory Bool where
  heap := [(⟨0,literal "pool.org"⟩ : Sigma fun _ : ℕ => CString),⟨1,literal "alice"⟩,
    ⟨2,literal "fee.org"⟩].toFinmap
  slot
    | (false,.m_host) => some 0
    | (false,.m_user) => some 1
    | (true,.m_host) => some 2
    | _ => none
  plain _ := ⟨false,false,3333⟩

theorem owned_twoUrls : twoUrls.Owned where
  live := by
    rintro ⟨_ | _,_ | _ | _⟩ p h <;> cases h <;> decide
  apart := by
    rintro ⟨_ | _,_ | _ | _⟩ ⟨_ | _,_ | _ | _⟩ p h h' <;> cases h <;> cases h' <;> rfl

/-- The user of the first url goes with the second one. -/
theorem user_not_copied : ∃ m : Memory Bool, m.Owned ∧ m.isValid true=true ∧
    ¬ ∃ m', m.assign Allocator.behind false true=some m' ∧ Copied m m' false true := by
  refine ⟨twoUrls,owned_twoUrls,by decide,?_⟩
  rintro ⟨m',h,hcopied⟩
  have huser := hcopied.user
  rw [(assign_spec owned_twoUrls (by decide) h).2.1] at huser
  revert huser
  decide

/-- The first url is copied. -/
theorem first_copied : ∃ m', twoUrls.assign Allocator.behind true false=some m' ∧
    Copied twoUrls m' true false :=
  (copied_iff Allocator.behind owned_twoUrls (by decide)).mpr
    ⟨by decide,Or.inl (by decide),Or.inr (Or.inl (by decide))⟩

end Copies

end Memory

end XmrigCC.UrlCopies
