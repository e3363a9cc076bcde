import XmrigCC.PoolUrls

/-!
# The grammar of addresses

What `Url::parse` and `Options::parseCCUrl` are meant to accept: a host, with a scheme in
front of it for pools, and a decimal number behind a colon. Both read the number with
`strtol` and keep its last 16 bits.
-/

namespace XmrigCC.UrlGrammar

open ByteText PoolUrls
open PoolMessages (sameIgnoringCase lower)

/-- The text of a decimal number from a lower bound to 65535. -/
structure IsPort (low : ℕ) (port : Bytes) : Prop where
  /-- There is a digit. -/
  nonempty : port ≠ []
  /-- There is nothing else. -/
  only : ∀ c∈port, isdigit c=true
  /-- The number is in range. -/
  range : low ≤ digits port ∧ digits port ≤ 65535

/-- What may stand in front of a host. -/
def IsScheme (scheme : Bytes) : Prop :=
  scheme=[] ∨ scheme.length=14 ∧ sameIgnoringCase scheme (text "stratum+tcp://") 14=true

/-- What stands behind it. -/
def portPart : Option Bytes → Bytes
  | none => []
  | some port => 58::port

/-- The number given, else the default. -/
def portNumber : Option Bytes → ℕ
  | none => 3333
  | some port => digits port

/-- A url spelled as scheme, host and port. -/
structure Spelled (url scheme host : Bytes) (port : Option Bytes) : Prop where
  /-- It consists of these. -/
  parts : url=scheme++(host++portPart port)
  /-- The scheme is that of pools or missing. -/
  known : IsScheme scheme
  /-- There is a host. -/
  nonempty : host ≠ []
  /-- It does not begin with a slash. -/
  noSlash : host.head? ≠ some 47
  /-- It has no colon. -/
  noColon : 58∉host
  /-- No other scheme follows. -/
  alone : strstr (host++portPart port) (text "://")=false
  /-- The port is a number from 1 to 65535. -/
  number : ∀ p∈port, IsPort 1 p

/-- A url of the grammar, with the host and the port that it gives. -/
def InGrammar (url host : Bytes) (port : ℕ) : Prop :=
  ∃ scheme given, Spelled url scheme host given ∧ portNumber given=port

/-- `Url` accepts a text exactly when it is one of the grammar, and then has its values. -/
structure ParsedRight (url : Bytes) : Prop where
  /-- Accepted are the urls of the grammar. -/
  valid_iff : (Url.ofText url).isValid=true ↔ ∃ host port, InGrammar url host port
  /-- Host and port are those given. -/
  values : ∀ host port, InGrammar url host port →
    (Url.ofText url).m_host=some host ∧ (Url.ofText url).m_port.toNat=port

/-- The text that `Url::parse` goes on with. -/
def behindScheme (url : Bytes) : Option Bytes :=
  if strstr url (text "://") then
    if sameIgnoringCase url (text "stratum+tcp://") 14 then some (url.drop 14) else none
  else some url

/-- Where a port is read there is a host, and a decimal number from 1 to 65535, unless the
number read is a multiple of 65536. -/
def PortSound (url : Bytes) : Prop :=
  ∀ host port, behindScheme url=some (host++58::port) → 58∉host → host.head? ≠ some 47 →
    portOf port=0 ∨ host ≠ [] ∧ IsPort 1 port

section Cutting

variable {host port : Bytes}

/-- A text is cut at its first colon. -/
theorem cut_append (h : 58∉host) (rest : Bytes) :
    (host++58::rest).takeWhile (· ≠ 58)=host ∧ (host++58::rest).dropWhile (· ≠ 58)=58::rest := by
  have hpass : ∀ c∈host, decide (c ≠ 58)=true := by
    intro c hc
    exact decide_eq_true fun heq => h (heq▸hc)
  rw [List.takeWhile_append_of_pos hpass,List.dropWhile_append_of_pos hpass]
  exact ⟨List.append_nil host,rfl⟩

theorem cut_none (h : 58∉host) :
    host.takeWhile (· ≠ 58)=host ∧ host.dropWhile (· ≠ 58)=[] := by
  have hpass : ∀ c∈host, decide (c ≠ 58)=true := by
    intro c hc
    exact decide_eq_true fun heq => h (heq▸hc)
  exact ⟨List.takeWhile_eq_self_iff.mpr hpass,List.dropWhile_eq_nil_iff.mpr hpass⟩

/-- Two texts without a colon, each with the rest behind it, are cut alike. -/
theorem cut_unique {host' : Bytes} (given given' : Option Bytes) (h : 58∉host) (h' : 58∉host')
    (heq : host++portPart given=host'++portPart given') : host=host' ∧ given=given' := by
  have hcut : ∀ {host : Bytes} (given : Option Bytes), 58∉host →
      (host++portPart given).takeWhile (· ≠ 58)=host ∧
        (host++portPart given).dropWhile (· ≠ 58)=portPart given := by
    intro host given h
    cases given with
    | none =>
      rw [portPart,List.append_nil]
      exact cut_none h
    | some port => exact cut_append h port
  obtain ⟨htake,hdrop⟩ := hcut given h
  obtain ⟨htake',hdrop'⟩ := hcut given' h'
  rw [heq,htake'] at htake
  rw [heq,hdrop'] at hdrop
  refine ⟨htake.symm,?_⟩
  cases given <;> cases given'
  · rfl
  · cases hdrop
  · cases hdrop
  · rw [(List.cons.inj hdrop).2]

/-- Without a colon a text has no scheme in it. -/
theorem strstr_of_noColon (h : 58∉host) : strstr host (text "://")=false := by
  rw [strstr,List.any_eq_false]
  intro t ht hstart
  obtain ⟨rest,rfl⟩ := startsWith_iff.mp hstart
  obtain ⟨front,rfl⟩ := (List.mem_tails _ _).mp ht
  exact h (List.mem_append_right _ List.mem_cons_self)

/-- Nor has one with a single colon that no slash follows. -/
theorem strstr_of_oneColon (h : 58∉host) (hslash : port.head? ≠ some 47)
    (hport : 58∉port) : strstr (host++58::port) (text "://")=false := by
  have hhead : startsWith (58::port) (text "://")=false := by
    rw [Bool.eq_false_iff]
    intro hstart
    obtain ⟨rest,heq⟩ := startsWith_iff.mp hstart
    rw [(List.cons.inj heq).2] at hslash
    exact hslash rfl
  induction host with
  | nil =>
    rw [List.nil_append,strstr_cons,hhead,strstr_of_noColon hport]
    rfl
  | cons c host ih =>
    have hc : startsWith (c::(host++58::port)) (text "://")=false := by
      rw [Bool.eq_false_iff]
      intro hstart
      obtain ⟨rest,heq⟩ := startsWith_iff.mp hstart
      exact h ((List.cons.inj heq).1▸List.mem_cons_self)
    rw [List.cons_append,strstr_cons,hc,ih fun hmem => h (List.mem_cons_of_mem c hmem)]
    rfl

end Cutting

section Numbers

variable {port : Bytes}

theorem not_space_of_digit {c : UInt8} (h : isdigit c=true) :
    isspace c=false ∧ c ≠ 45 ∧ c ≠ 43 ∧ c ≠ 47 ∧ c ≠ 58 := by
  have hdigit : 48 ≤ c.toNat ∧ c.toNat ≤ 57 := by
    rw [isdigit,Bool.and_eq_true,decide_eq_true_eq,decide_eq_true_eq,UInt8.le_iff_toNat_le,
      UInt8.le_iff_toNat_le] at h
    exact h
  have hne : ∀ d : UInt8, d.toNat<48 ∨ 57<d.toNat → c ≠ d := by
    rintro d hd rfl
    omega
  refine ⟨?_,hne 45 (Or.inl (by decide)),hne 43 (Or.inl (by decide)),hne 47 (Or.inl (by decide)),
    hne 58 (Or.inr (by decide))⟩
  rw [isspace,Bool.or_eq_false_iff,decide_eq_false_iff_not,Bool.and_eq_false_iff,
    decide_eq_false_iff_not,decide_eq_false_iff_not]
  refine ⟨hne 32 (Or.inl (by decide)),Or.inr fun hle => ?_⟩
  rw [UInt8.le_iff_toNat_le] at hle
  simp only [UInt8.reduceToNat] at hle
  omega

/-- A decimal number is read as it is. -/
theorem portOf_eq {low : ℕ} (h : IsPort low port) : (portOf port).toNat=digits port := by
  obtain ⟨hne,honly,-,hle⟩ := h
  have hread : strtol port=digits port := by
    cases port with
    | nil => exact absurd rfl hne
    | cons c rest =>
      obtain ⟨hspace,hminus,hplus,-,-⟩ := not_space_of_digit (honly c List.mem_cons_self)
      have hdrop : (c::rest).dropWhile isspace=c::rest :=
        List.dropWhile_cons_of_neg (by rw [hspace]; exact Bool.false_ne_true)
      have hnone : ∀ d, c ≠ d → (c::rest).head? ≠ some d := fun d hd heq => hd (Option.some.inj heq)
      simp only [strtol]
      rw [hdrop,if_neg (hnone 45 hminus),if_neg (hnone 43 hplus)]
      omega
  have hmod : (strtol port%65536).toNat=digits port := by
    rw [hread]
    omega
  rw [portOf,hmod,UInt16.toNat_ofNat_of_lt' (by simp only [UInt16.size]; omega)]

/-- Behind a host and a colon a decimal number begins no other scheme. -/
theorem alone_of_isPort {low : ℕ} {host : Bytes} (hcolon : 58∉host) (h : IsPort low port) :
    strstr (host++58::port) (text "://")=false := by
  refine strstr_of_oneColon hcolon ?_ ?_
  · intro hhead
    exact (not_space_of_digit (h.only 47 (List.mem_of_head? hhead))).2.2.2.1 rfl
  · intro hmem
    exact (not_space_of_digit (h.only 58 hmem)).2.2.2.2 rfl

end Numbers

section Parsing

variable {url scheme host : Bytes} {given : Option Bytes}

/-- `parse` looks for host and port behind the scheme. -/
theorem target_eq (url : Bytes) : target url=(behindScheme url).bind baseTarget := by
  rw [target,behindScheme]
  split
  · cases sameIgnoringCase url (text "stratum+tcp://") 14 <;> rfl
  · rfl

/-- What stands behind the scheme of a text whose scheme is known. -/
theorem behindScheme_eq (hscheme : IsScheme scheme) {rest : Bytes}
    (halone : strstr rest (text "://")=false) : behindScheme (scheme++rest)=some rest := by
  rcases hscheme with rfl|⟨hlength,hsame⟩
  · rw [List.nil_append,behindScheme,if_neg (by rw [halone]; exact Bool.false_ne_true)]
  · have hall : scheme.map lower=(text "stratum+tcp://").map lower := by
      have htake := of_decide_eq_true hsame
      rwa [List.take_of_length_le (by omega),List.take_of_length_le (by decide)] at htake
    have htail : scheme.drop 11=text "://" := by
      have hdrop : (scheme.drop 11).map lower=[58,47,47] := by
        rw [List.map_drop,hall]
        decide
      have hlower : ∀ c d, d<65 → lower c=d → c=d := by
        intro c d hd hc
        rw [lower] at hc
        split at hc
        · rename_i hupper
          rw [UInt8.le_iff_toNat_le,UInt8.le_iff_toNat_le] at hupper
          rw [UInt8.lt_iff_toNat_lt,←hc,UInt8.toNat_add] at hd
          simp only [UInt8.reduceToNat] at hupper hd
          omega
        · exact hc
      have hthree : (scheme.drop 11).length=3 := by rw [List.length_drop,hlength]
      obtain ⟨a,b,c,hletters⟩ := List.length_eq_three.mp hthree
      rw [hletters] at hdrop ⊢
      simp only [List.map_cons,List.map_nil,List.cons.injEq,and_true] at hdrop
      rw [hlower a 58 (by decide) hdrop.1,hlower b 47 (by decide) hdrop.2.1,
        hlower c 47 (by decide) hdrop.2.2]
      rfl
    have hfound : strstr (scheme++rest) (text "://")=true := by
      rw [strstr,List.any_eq_true]
      refine ⟨scheme.drop 11++rest,(List.mem_tails _ _).mpr ⟨scheme.take 11,?_⟩,?_⟩
      · rw [←List.append_assoc,List.take_append_drop]
      · rw [htail]
        exact startsWith_append _ rest
    have hsame' : sameIgnoringCase (scheme++rest) (text "stratum+tcp://") 14=true := by
      rw [sameIgnoringCase,List.take_append_of_le_length (by omega)]
      exact hsame
    rw [behindScheme,if_pos hfound,if_pos hsame',List.drop_left' hlength]

/-- Such a text consists of its scheme and the rest. -/
theorem behindScheme_cases {rest : Bytes} (h : behindScheme url=some rest) :
    ∃ scheme, IsScheme scheme ∧ url=scheme++rest := by
  rw [behindScheme] at h
  split at h
  · split at h
    · rename_i hsame
      obtain rfl := Option.some.inj h
      refine ⟨url.take 14,Or.inr ⟨?_,?_⟩,(List.take_append_drop 14 url).symm⟩
      · have hlength := congrArg List.length (of_decide_eq_true hsame)
        rw [List.length_map,List.length_map] at hlength
        exact hlength
      · rw [sameIgnoringCase,List.take_take]
        exact hsame
    · cases h
  · obtain rfl := Option.some.inj h
    exact ⟨[],Or.inl rfl,rfl⟩

/-- Host and port of a text cut at its first colon. -/
theorem baseTarget_eq (hcolon : 58∉host) (hslash : host.head? ≠ some 47)
    (hnonempty : host++portPart given ≠ []) :
    baseTarget (host++portPart given)=some (host,given.map portOf) := by
  have hhead : (host++portPart given).head? ≠ some 47 := by
    cases host with
    | cons c host => exact hslash
    | nil =>
      cases given with
      | none => exact absurd rfl hnonempty
      | some port => exact fun h => absurd (Option.some.inj h) (by decide)
  rw [baseTarget,if_neg (not_or.mpr ⟨hnonempty,hhead⟩)]
  cases given with
  | none =>
    obtain ⟨htake,hdrop⟩ := cut_none hcolon
    rw [portPart,List.append_nil,htake,hdrop]
    rfl
  | some port =>
    obtain ⟨htake,hdrop⟩ := cut_append hcolon port
    rw [portPart,htake,hdrop]
    rfl

/-- A text that `parse` does not refuse at once is a host with or without a port. -/
theorem baseTarget_cases {base : Bytes} {port : Option UInt16}
    (h : baseTarget base=some (host,port)) :
    ∃ given, base=host++portPart given ∧ 58∉host ∧ host.head? ≠ some 47 ∧
      given.map portOf=port ∧ (given=none → host ≠ []) := by
  rw [baseTarget] at h
  split at h
  · cases h
  · rename_i hok
    obtain ⟨hne,hslash⟩ := not_or.mp hok
    obtain ⟨rfl,rfl⟩ := Prod.mk.inj (Option.some.inj h)
    have hcolon : 58∉base.takeWhile (· ≠ 58) := fun hmem =>
      absurd (List.mem_takeWhile_imp hmem) (by decide)
    have hwhole := List.takeWhile_append_dropWhile (p:=(· ≠ 58)) (l:=base)
    have hhead : (base.takeWhile (· ≠ 58)).head? ≠ some 47 := by
      intro hhead
      apply hslash
      rw [←hwhole,List.head?_append,hhead]
      rfl
    cases hrest : base.dropWhile (· ≠ 58) with
    | nil =>
      rw [hrest,List.append_nil] at hwhole
      refine ⟨none,?_,hcolon,hhead,rfl,fun _ hnil => hne (hwhole.symm.trans hnil)⟩
      rw [portPart,List.append_nil,hwhole]
    | cons c port =>
      have hc : c=58 := by
        have hfirst := List.head?_dropWhile_not (· ≠ 58) base
        rw [hrest] at hfirst
        simpa using hfirst
      rw [hc] at hrest
      refine ⟨some port,?_,hcolon,hhead,rfl,fun hnone => nomatch hnone⟩
      rw [portPart,←hrest,hwhole]

end Parsing

section Acceptance

variable {url scheme host : Bytes} {given : Option Bytes}

/-- What is read of a url that is spelled by the grammar. -/
theorem Spelled.target (h : Spelled url scheme host given) :
    target url=some (host,given.map portOf) := by
  have hnonempty : host++portPart given ≠ [] := fun hnil =>
    h.nonempty (List.append_eq_nil_iff.mp hnil).1
  rw [target_eq,h.parts,behindScheme_eq h.known h.alone,Option.bind_some,
    baseTarget_eq h.noColon h.noSlash hnonempty]

/-- Its port is the number that it gives. -/
theorem Spelled.number_eq (h : Spelled url scheme host given) :
    ((given.map portOf).getD 3333).toNat=portNumber given := by
  cases given with
  | none => rfl
  | some port => exact portOf_eq (h.number port rfl)

theorem Spelled.port_ne_zero (h : Spelled url scheme host given) : given.map portOf ≠ some 0 := by
  cases given with
  | none => exact fun h => nomatch h
  | some port =>
    intro hzero
    have hport := h.number port rfl
    have hvalue := portOf_eq hport
    rw [Option.some.inj hzero] at hvalue
    have hlow := hport.range.1
    rw [←hvalue] at hlow
    exact absurd hlow (by decide)

/-- A url of the grammar is accepted with its values. -/
theorem Spelled.accepted (h : Spelled url scheme host given) :
    (Url.ofText url).isValid=true ∧ (Url.ofText url).m_host=some host ∧
      (Url.ofText url).m_port.toNat=portNumber given := by
  refine ⟨(ofText_valid_iff url).mpr ⟨host,_,h.target,h.port_ne_zero⟩,?_,?_⟩
  · rw [ofText_eq,h.target]
    rfl
  · rw [ofText_eq,h.target,←h.number_eq]
    rfl

/-- A url whose port is sound is accepted only if it is one of the grammar. -/
theorem inGrammar_of_valid (hsound : PortSound url) (h : (Url.ofText url).isValid=true) :
    ∃ host port, InGrammar url host port := by
  obtain ⟨host,port,htarget,hport⟩ := (ofText_valid_iff url).mp h
  rw [target_eq] at htarget
  obtain ⟨base,hbase,htarget⟩ := Option.bind_eq_some_iff.mp htarget
  obtain ⟨given,rfl,hcolon,hslash,rfl,hnone⟩ := baseTarget_cases htarget
  obtain ⟨scheme,hscheme,hparts⟩ := behindScheme_cases hbase
  cases given with
  | none =>
    have halone : strstr (host++portPart none) (text "://")=false := by
      rw [portPart,List.append_nil]
      exact strstr_of_noColon hcolon
    exact ⟨host,3333,scheme,none,
      ⟨hparts,hscheme,hnone rfl,hslash,hcolon,halone,fun p hp => nomatch hp⟩,rfl⟩
  | some port =>
    rcases hsound host port hbase hcolon hslash with hzero|⟨hne,hok⟩
    · exact absurd (congrArg some hzero) hport
    · refine ⟨host,digits port,scheme,some port,
        ⟨hparts,hscheme,hne,hslash,hcolon,alone_of_isPort hcolon hok,?_⟩,rfl⟩
      intro p hp
      rw [←Option.some.inj hp]
      exact hok

/-- The urls that `Url` judges rightly. -/
theorem parsedRight_iff (url : Bytes) : ParsedRight url ↔ PortSound url := by
  constructor
  · intro h host port hbase hcolon hslash
    by_cases hzero : portOf port=0
    · exact Or.inl hzero
    · right
      have htarget : target url=some (host,some (portOf port)) := by
        rw [target_eq,hbase,Option.bind_some]
        exact @baseTarget_eq host (some port) hcolon hslash fun hnil =>
          List.cons_ne_nil _ _ (List.append_eq_nil_iff.mp hnil).2
      have hvalid : (Url.ofText url).isValid=true :=
        (ofText_valid_iff url).mpr ⟨host,_,htarget,fun heq => hzero (Option.some.inj heq)⟩
      obtain ⟨host',n,scheme,given,hspelled,-⟩ := h.valid_iff.mp hvalid
      have hbase' := hbase
      rw [hspelled.parts,behindScheme_eq hspelled.known hspelled.alone,Option.some.injEq] at hbase'
      obtain ⟨rfl,rfl⟩ := cut_unique given (some port) hspelled.noColon hcolon hbase'
      exact ⟨hspelled.nonempty,hspelled.number port rfl⟩
  · intro h
    refine ⟨⟨inGrammar_of_valid h,?_⟩,?_⟩
    · rintro ⟨host,port,scheme,given,hspelled,-⟩
      exact hspelled.accepted.1
    · rintro host port ⟨scheme,given,hspelled,rfl⟩
      exact hspelled.accepted.2

end Acceptance

/-- The members that `Options::parseCCUrl` sets. -/
structure CCAddress where
  /-- Host of the command server. -/
  m_ccHost : Bytes
  /-- Its port, an `int`. -/
  m_ccPort : ℤ

/-- `kDefaultCCPort`. -/
def kDefaultCCPort : ℤ := 3344

/-- `Options::parseCCUrl`: the port is compared with its bounds after its cast. -/
def parseCCUrl (url : Bytes) : Bool×CCAddress :=
  match url.dropWhile (· ≠ 58) with
  | [] => (true,⟨url,kDefaultCCPort⟩)
  | _::port =>
    let m_ccHost := url.takeWhile (· ≠ 58)
    let m_ccPort : ℤ := (portOf port).toNat
    if m_ccPort<0 ∨ m_ccPort>65536 then (false,⟨m_ccHost,kDefaultCCPort⟩)
    else (true,⟨m_ccHost,m_ccPort⟩)

/-- `parseCCUrl` accepts a text with a colon only for a decimal number behind it, and then
sets that number. -/
def CCParsedRight (url : Bytes) : Prop :=
  ∀ host port, url=host++58::port → 58∉host → (parseCCUrl url).1=true →
    IsPort 0 port ∧ (parseCCUrl url).2.m_ccPort=digits port

/-- Every text is accepted. -/
theorem parseCCUrl_port {host port : Bytes} (hcolon : 58∉host) :
    parseCCUrl (host++58::port)=(true,⟨host,(portOf port).toNat⟩) := by
  obtain ⟨htake,hdrop⟩ := cut_append hcolon port
  have hlt := (portOf port).toNat_lt
  have hin : ¬(((portOf port).toNat : ℤ)<0 ∨ (65536 : ℤ)<(portOf port).toNat) := by omega
  rw [parseCCUrl,hdrop]
  dsimp only
  rw [htake,if_neg hin]

/-- Addresses. A pool's url is judged rightly exactly when a port read from it is sound, and
the command server's exactly when a decimal number up to 65535 follows its colon. -/
theorem addresses_parsed_iff (url : Bytes) :
    (ParsedRight url ↔ PortSound url) ∧
    (CCParsedRight url ↔ ∀ host port, url=host++58::port → 58∉host → IsPort 0 port) := by
  refine ⟨parsedRight_iff url,?_⟩
  constructor
  · rintro h host port rfl hcolon
    exact (h host port rfl hcolon (by rw [parseCCUrl_port hcolon])).1
  · rintro h host port rfl hcolon -
    have hport := h host port rfl hcolon
    rw [parseCCUrl_port hcolon]
    refine ⟨hport,?_⟩
    dsimp only
    rw [portOf_eq hport]

/-- Both take a number of 17 bits for what is left of it. -/
theorem wide_port_not_parsed_right :
    ¬ParsedRight (text "pool.org:70000") ∧ ¬CCParsedRight (text "pool.org:70000") := by
  have hport : ∀ low, ¬IsPort low (text "70000") := fun low h =>
    absurd h.range.2 (by decide +kernel)
  have hcolon : 58∉text "pool.org" := by decide +kernel
  constructor
  · intro h
    have hvalid : (Url.ofText (text "pool.org:70000")).isValid=true := by decide +kernel
    obtain ⟨host,n,scheme,given,hspelled,-⟩ := h.valid_iff.mp hvalid
    have hbase : behindScheme (text "pool.org:70000")=some (text "pool.org"++58::text "70000") := by
      decide +kernel
    rw [hspelled.parts,behindScheme_eq hspelled.known hspelled.alone,Option.some.injEq] at hbase
    obtain ⟨rfl,rfl⟩ :=
      cut_unique given (some (text "70000")) hspelled.noColon hcolon hbase
    exact hport 1 (hspelled.number _ rfl)
  · intro h
    have hread := h (text "pool.org") (text "70000") (by decide +kernel) hcolon (by decide +kernel)
    exact hport 0 hread.1

end XmrigCC.UrlGrammar
