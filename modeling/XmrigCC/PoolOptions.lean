import XmrigCC.PoolUrls

/-!
# The pool list of a config file

`parseConfig` takes the objects of a list one by one and applies their members to
`m_pools.back()`. A url opens a new pool only behind a valid one; a bad url is dropped, but
the members beside it are applied all the same, to a pool of another object.
-/

namespace XmrigCC.PoolOptions

open ByteText JsonValues PoolUrls

/-- The options of a pool, under their keys. -/
inductive Key where
  /-- 'o', `--url`. -/
  | url
  /-- 'p', `--pass`. -/
  | pass
  /-- 'u', `--user`. -/
  | user
  /-- 'O', `--userpass`. -/
  | userpass
  /-- 'k', `--keepalive`. -/
  | keepalive
  /-- 1006, `--nicehash`. -/
  | nicehash

/-- `struct option`. -/
structure PoolOption where
  /-- Name of the member. -/
  name : Bytes
  /-- Its value is a string or a number, not a Boolean. -/
  has_arg : Bool
  /-- The key. -/
  val : Key

/-- `pool_options` without the entry that ends it. -/
def pool_options : List PoolOption :=
  [⟨text "url",true,.url⟩,⟨text "pass",true,.pass⟩,⟨text "user",true,.user⟩,
    ⟨text "userpass",true,.userpass⟩,⟨text "keepalive",false,.keepalive⟩,
    ⟨text "nicehash",false,.nicehash⟩]

/-- `Options::parseBoolean`. -/
def parseBoolean (key : Key) (enable : Bool) (pools : List Url) : List Url :=
  match key with
  | .keepalive => pools.modifyLast (·.setKeepAlive enable)
  | .nicehash => pools.modifyLast (·.setNicehash enable)
  | _ => pools

/-- The pools after a url. -/
def parseUrl (arg : Bytes) (pools : List Url) : List Url :=
  if 1<pools.length ∨ pools.head?.any Url.isValid=true then
    if (Url.ofText arg).isValid then pools++[Url.ofText arg] else pools
  else pools.modifyHead fun u => (u.parse arg).2

/-- `Options::parseArg(int, const char*)`. -/
def parseArg (key : Key) (arg : Bytes) (pools : List Url) : Bool×List Url :=
  match key with
  | .url => ((parseUrl arg pools).getLast?.any Url.isValid,parseUrl arg pools)
  | .userpass =>
    (pools.getLast?.any fun u => (u.setUserpass arg).1,
      pools.modifyLast fun u => (u.setUserpass arg).2)
  | .user => (true,pools.modifyLast (·.setUser arg))
  | .pass => (true,pools.modifyLast (·.setPassword arg))
  | key => (true,parseBoolean key true pools)

/-- `Options::parseArg(int, uint64_t)`, which has no case for the keys of a pool. -/
def parseNumber (_key : Key) (_arg : ℤ) (pools : List Url) : Bool×List Url := (true,pools)

section Parsing

variable {D : Type}

/-- `Options::parseJSON` of an object, which ignores what `parseArg` returns. -/
def parseJSON (option : PoolOption) (object : List (Bytes×Value D)) (pools : List Url) :
    List Url :=
  match find object option.name with
  | none => pools
  | some value =>
    match option.has_arg,value with
    | true,.string arg => (parseArg option.val (cStr arg) pools).2
    | true,.int n => if 0 ≤ n then (parseNumber option.val n pools).2 else pools
    | false,.bool enable => parseBoolean option.val enable pools
    | _,_ => pools

/-- The loop over `pool_options` for one object. -/
def parseObject (pools : List Url) (object : List (Bytes×Value D)) : List Url :=
  pool_options.foldl (fun pools option => parseJSON option object pools) pools

/-- The loop over `pools` in `Options::parseConfig`. -/
def parsePools (values : List (Value D)) (pools : List Url) : List Url :=
  values.foldl (fun pools value =>
    match value with
    | .object members => parseObject pools members
    | _ => pools) pools

end Parsing

/-- What an object gives a pool besides its host and port. -/
structure Settings where
  /-- The user. -/
  user : Option Bytes
  /-- The password. -/
  password : Option Bytes
  /-- Pings. -/
  keepAlive : Option Bool
  /-- Nonces of 24 bits. -/
  nicehash : Option Bool
  deriving DecidableEq

namespace Settings

/-- Nothing is given. -/
def none : Settings := ⟨.none,.none,.none,.none⟩

/-- Settings given one after the other: the later ones count. -/
def followedBy (s t : Settings) : Settings :=
  ⟨t.user.or s.user,t.password.or s.password,t.keepAlive.or s.keepAlive,t.nicehash.or s.nicehash⟩

/-- An account with these settings. -/
def on (s : Settings) (u : PoolMessages.Url) : PoolMessages.Url :=
  ⟨s.keepAlive.getD u.m_keepAlive,s.nicehash.getD u.m_nicehash,s.password.or u.m_password,
    s.user.or u.m_user⟩

/-- The account that only these settings make. -/
def account (s : Settings) : PoolMessages.Url := s.on Url.new.toUrl

end Settings

/-- A url with these settings. -/
def give (s : Settings) (u : Url) : Url := {u with toUrl := s.on u.toUrl}

section Specification

variable {D : Type}

/-- The string under a name. -/
def stringOf (object : List (Bytes×Value D)) (name : Bytes) : Option Bytes :=
  match find object name with
  | some (.string value) => some (cStr value)
  | _ => none

/-- The Boolean under a name. -/
def boolOf (object : List (Bytes×Value D)) (name : Bytes) : Option Bool :=
  match find object name with
  | some (.bool value) => some value
  | _ => none

/-- User and password in one text. -/
def splitUserpass (userpass : Bytes) : Option (Bytes×Bytes) :=
  (userpass.dropWhile (· ≠ 58)).tail?.map fun password =>
    (userpass.takeWhile (· ≠ 58),password)

/-- What an object gives: `userpass`, with a colon, counts before `user` and `pass`. -/
def settingsOf (object : List (Bytes×Value D)) : Settings :=
  let both := (stringOf object (text "userpass")).bind splitUserpass
  ⟨(both.map Prod.fst).or (stringOf object (text "user")),
    (both.map Prod.snd).or (stringOf object (text "pass")),
    boolOf object (text "keepalive"),boolOf object (text "nicehash")⟩

/-- What the url of an object names, none if there is no url or it is refused. -/
def targetOf (object : List (Bytes×Value D)) : Option (Bytes×Option UInt16) :=
  (stringOf object (text "url")).bind target

/-- The pool that an object describes, if its url is valid. -/
def poolOf (object : List (Bytes×Value D)) : Option Url :=
  match stringOf object (text "url") with
  | none => none
  | some url =>
    if (Url.ofText url).isValid then some (give (settingsOf object) (Url.ofText url)) else none

/-- The objects of a list. -/
def objects (values : List (Value D)) : List (List (Bytes×Value D)) :=
  values.filterMap fun
    | .object members => some members
    | _ => none

/-- The pools are those that the objects with a valid url describe, in order; without such an
object there is one, which is not valid. -/
def Faithful (entries : List (List (Bytes×Value D))) (pools : List Url) : Prop :=
  if entries.filterMap poolOf=[] then ∃ u, pools=[u] ∧ u.isValid=false
  else pools=entries.filterMap poolOf

end Specification

section Condition

variable {D : Type}

/-- Behind a valid url: until the next one, the settings that a pool has got by then are those
of its own object. -/
def Unmixed (own got : Settings) : List (List (Bytes×Value D)) → Prop
  | [] => got.account=own.account
  | o::os =>
    if (poolOf o).isSome then
      got.account=own.account ∧ Unmixed (settingsOf o) (settingsOf o) os
    else Unmixed own (got.followedBy (settingsOf o)) os

/-- Before the first valid url: that url gives a port if one before it gave port 0, and the
settings met before it change nothing of its pool. -/
def Separate (zero : Bool) (before : Settings) : List (List (Bytes×Value D)) → Prop
  | [] => True
  | o::os =>
    if (poolOf o).isSome then
      ¬(zero=true ∧ ∃ host, targetOf o=some (host,none)) ∧
        Unmixed (settingsOf o) (before.followedBy (settingsOf o)) os
    else Separate (zero || (targetOf o).any fun named => named.2=some 0)
      (before.followedBy (settingsOf o)) os

end Condition

section Objects

variable {D : Type} {object : List (Bytes×Value D)} {ps : List Url} {u : Url}

/-- Settings given one after the other are given at once. -/
theorem give_give (s t : Settings) (u : Url) : give t (give s u)=give (s.followedBy t) u := by
  simp only [give,Settings.on,Settings.followedBy,Option.or_assoc]
  cases t.keepAlive <;> cases t.nicehash <;> rfl

/-- An option with an argument acts with its string; a number does nothing. -/
theorem parseJSON_arg (name : Bytes) (key : Key) (pools : List Url) :
    parseJSON ⟨name,true,key⟩ object pools=
      ((stringOf object name).map fun arg => (parseArg key arg pools).2).getD pools := by
  unfold parseJSON stringOf
  dsimp only
  cases find object name with
  | none => rfl
  | some value =>
    cases value with
    | int n =>
      dsimp only
      split <;> rfl
    | string arg => rfl
    | null => rfl
    | bool enable => rfl
    | double d => rfl
    | array elements => rfl
    | object members => rfl

/-- An option without one acts with its Boolean. -/
theorem parseJSON_flag (name : Bytes) (key : Key) (pools : List Url) :
    parseJSON ⟨name,false,key⟩ object pools=
      ((boolOf object name).map fun enable => parseBoolean key enable pools).getD pools := by
  unfold parseJSON boolOf
  dsimp only
  cases find object name with
  | none => rfl
  | some value => cases value <;> rfl

/-- A string option gives the last pool what its string says. -/
theorem parseJSON_string {name : Bytes} {key : Key} {g : Bytes → Settings}
    (hg : ∀ arg, (parseArg key arg (ps++[u])).2=ps++[give (g arg) u]) :
    parseJSON ⟨name,true,key⟩ object (ps++[u])=
      ps++[give (((stringOf object name).map g).getD .none) u] := by
  rw [parseJSON_arg]
  cases stringOf object name with
  | none => rfl
  | some arg => exact hg arg

/-- A Boolean option gives it what its value says. -/
theorem parseJSON_bool {name : Bytes} {key : Key} {g : Bool → Settings}
    (hg : ∀ enable, parseBoolean key enable (ps++[u])=ps++[give (g enable) u]) :
    parseJSON ⟨name,false,key⟩ object (ps++[u])=
      ps++[give (((boolOf object name).map g).getD .none) u] := by
  rw [parseJSON_flag]
  cases boolOf object name with
  | none => rfl
  | some enable => exact hg enable

/-- A text for user and password gives both, or nothing without a colon. -/
theorem setUserpass_eq (u : Url) (userpass : Bytes) :
    (u.setUserpass userpass).2=
      give ⟨(splitUserpass userpass).map Prod.fst,(splitUserpass userpass).map Prod.snd,none,none⟩
        u := by
  unfold Url.setUserpass splitUserpass
  split
  · rename_i hcolon
    rw [hcolon]
    rfl
  · rename_i hcolon
    rw [hcolon]
    rfl

/-- The members besides the url give the last pool the settings of the object. -/
theorem parseObject_last {pools : List Url}
    (hurl : parseJSON ⟨text "url",true,.url⟩ object pools=ps++[u]) :
    parseObject pools object=ps++[give (settingsOf object) u] := by
  have hpass : ∀ v, parseJSON ⟨text "pass",true,.pass⟩ object (ps++[v])=
      ps++[give ⟨none,stringOf object (text "pass"),none,none⟩ v] := by
    intro v
    have harg : ∀ arg, (parseArg .pass arg (ps++[v])).2=
        ps++[give ⟨none,some arg,none,none⟩ v] := fun _ => List.modifyLast_concat _ _ _
    rw [parseJSON_string harg]
    cases stringOf object (text "pass") <;> rfl
  have huser : ∀ v, parseJSON ⟨text "user",true,.user⟩ object (ps++[v])=
      ps++[give ⟨stringOf object (text "user"),none,none,none⟩ v] := by
    intro v
    have harg : ∀ arg, (parseArg .user arg (ps++[v])).2=
        ps++[give ⟨some arg,none,none,none⟩ v] := fun _ => List.modifyLast_concat _ _ _
    rw [parseJSON_string harg]
    cases stringOf object (text "user") <;> rfl
  have huserpass : ∀ v, parseJSON ⟨text "userpass",true,.userpass⟩ object (ps++[v])=
      ps++[give ⟨((stringOf object (text "userpass")).bind splitUserpass).map Prod.fst,
        ((stringOf object (text "userpass")).bind splitUserpass).map Prod.snd,none,none⟩ v] := by
    intro v
    have harg : ∀ arg, (parseArg .userpass arg (ps++[v])).2=
        ps++[give ⟨(splitUserpass arg).map Prod.fst,(splitUserpass arg).map Prod.snd,none,none⟩
          v] := by
      intro arg
      rw [parseArg,List.modifyLast_concat,setUserpass_eq]
    rw [parseJSON_string harg]
    cases stringOf object (text "userpass") <;> rfl
  have hkeepalive : ∀ v, parseJSON ⟨text "keepalive",false,.keepalive⟩ object (ps++[v])=
      ps++[give ⟨none,none,boolOf object (text "keepalive"),none⟩ v] := by
    intro v
    have hbool : ∀ enable, parseBoolean .keepalive enable (ps++[v])=
        ps++[give ⟨none,none,some enable,none⟩ v] := fun _ => List.modifyLast_concat _ _ _
    rw [parseJSON_bool hbool]
    cases boolOf object (text "keepalive") <;> rfl
  have hnicehash : ∀ v, parseJSON ⟨text "nicehash",false,.nicehash⟩ object (ps++[v])=
      ps++[give ⟨none,none,none,boolOf object (text "nicehash")⟩ v] := by
    intro v
    have hbool : ∀ enable, parseBoolean .nicehash enable (ps++[v])=
        ps++[give ⟨none,none,none,some enable⟩ v] := fun _ => List.modifyLast_concat _ _ _
    rw [parseJSON_bool hbool]
    cases boolOf object (text "nicehash") <;> rfl
  simp only [parseObject,pool_options,List.foldl_cons,List.foldl_nil,hurl,hpass,huser,huserpass,
    hkeepalive,hnicehash,give_give,Settings.followedBy,settingsOf,Option.none_or,Option.or_none]

/-- The pools are past their first url: another one opens a new pool. -/
def Opened (ps : List Url) (u : Url) : Prop := ps ≠ [] ∨ u.isValid=true

theorem opened_iff : 1<(ps++[u]).length ∨ (ps++[u]).head?.any Url.isValid=true ↔ Opened ps u := by
  cases ps with
  | nil => simp [Opened]
  | cons v ps => simp [Opened]

/-- An object without a valid url gives its settings to the last pool, one with a valid url
opens the pool it describes. -/
theorem parseObject_opened (h : Opened ps u) :
    parseObject (ps++[u]) object=
      match poolOf object with
      | some v => (ps++[u])++[v]
      | none => ps++[give (settingsOf object) u] := by
  unfold poolOf
  have hurl : parseJSON ⟨text "url",true,.url⟩ object (ps++[u])=
      ((stringOf object (text "url")).map fun arg => parseUrl arg (ps++[u])).getD (ps++[u]) :=
    parseJSON_arg _ _ _
  cases hstring : stringOf object (text "url") with
  | none =>
    rw [hstring] at hurl
    exact parseObject_last hurl
  | some url =>
    rw [hstring,Option.map_some,Option.getD_some,parseUrl,if_pos (opened_iff.mpr h)] at hurl
    dsimp only
    by_cases hvalid : (Url.ofText url).isValid=true
    · rw [if_pos hvalid] at hurl
      rw [if_pos hvalid]
      exact parseObject_last hurl
    · rw [if_neg hvalid] at hurl
      rw [if_neg hvalid]
      exact parseObject_last hurl

/-- Before the first valid url the one pool gets the host, the port and the settings. -/
theorem parseObject_closed (h : u.isValid=false) :
    parseObject [u] object=[give (settingsOf object) (u.aim (targetOf object))] := by
  have hclosed : ¬(1<[u].length ∨ [u].head?.any Url.isValid=true) := by
    rintro (hlength|hvalid)
    · exact lt_irrefl 1 hlength
    · exact Bool.noConfusion (h.symm.trans hvalid)
  have hurl : parseJSON ⟨text "url",true,.url⟩ object [u]=[]++[u.aim (targetOf object)] := by
    rw [parseJSON_arg,targetOf]
    cases stringOf object (text "url") with
    | none => rfl
    | some url =>
      change parseUrl url [u]=[u.aim (target url)]
      rw [parseUrl,if_neg hclosed,List.modifyHead_cons,parse_eq]
  exact parseObject_last hurl

/-- The pool that an object describes has the host and port of its url and its settings. -/
theorem poolOf_eq (object : List (Bytes×Value D)) :
    poolOf object=
      match targetOf object with
      | none => none
      | some (host,port) =>
        if port=some 0 then none
        else some ⟨(settingsOf object).account,some host,port.getD 3333⟩ := by
  unfold poolOf targetOf
  cases stringOf object (text "url") with
  | none => rfl
  | some url =>
    rw [Option.bind_some]
    dsimp only
    have hvalid := ofText_valid_iff url
    rw [ofText_eq] at hvalid ⊢
    cases htarget : target url with
    | none =>
      rw [htarget] at hvalid
      exact if_neg fun h => nomatch hvalid.mp h
    | some named =>
      obtain ⟨host,port⟩ := named
      rw [htarget] at hvalid
      dsimp only
      by_cases hport : port=some 0
      · rw [if_pos hport,if_neg]
        intro h
        obtain ⟨_,_,heq,hne⟩ := hvalid.mp h
        exact hne ((Prod.mk.inj (Option.some.inj heq)).2 ▸ hport)
      · rw [if_neg hport,if_pos (hvalid.mpr ⟨host,port,rfl,hport⟩)]
        rfl

end Objects

section Loop

variable {D : Type}

/-- What the loop makes of the last pool and the rest of the list, behind a valid url. -/
def attach (u : Url) : List (List (Bytes×Value D)) → List Url
  | [] => [u]
  | o::os =>
    match poolOf o with
    | some v => u::attach v os
    | none => attach (give (settingsOf o) u) os

/-- What it makes of the one pool and the rest of the list before the first valid url. -/
def lead (u : Url) : List (List (Bytes×Value D)) → List Url
  | [] => [u]
  | o::os =>
    if (give (settingsOf o) (u.aim (targetOf o))).isValid then
      attach (give (settingsOf o) (u.aim (targetOf o))) os
    else lead (give (settingsOf o) (u.aim (targetOf o))) os

theorem opened_loop {ps : List Url} {u : Url} (h : Opened ps u)
    (os : List (List (Bytes×Value D))) : os.foldl parseObject (ps++[u])=ps++attach u os := by
  induction os generalizing ps u with
  | nil => rfl
  | cons o os ih =>
    rw [List.foldl_cons,parseObject_opened h,attach]
    cases poolOf o with
    | some v =>
      exact (ih (Or.inl (List.concat_ne_nil u ps))).trans (List.append_assoc ps [u] _)
    | none => exact ih (h.imp_right id)

theorem closed_loop {u : Url} (h : u.isValid=false) (os : List (List (Bytes×Value D))) :
    os.foldl parseObject [u]=lead u os := by
  induction os generalizing u with
  | nil => rfl
  | cons o os ih =>
    rw [List.foldl_cons,parseObject_closed h,lead]
    split
    · rename_i hvalid
      exact opened_loop (Or.inr hvalid : Opened [] _) os
    · rename_i hvalid
      exact ih ((Bool.not_eq_true _).mp hvalid)

/-- The loop over a list is the loop over its objects. -/
theorem parsePools_eq (values : List (Value D)) (pools : List Url) :
    parsePools values pools=(objects values).foldl parseObject pools := by
  induction values generalizing pools with
  | nil => rfl
  | cons value values ih =>
    rw [parsePools,List.foldl_cons]
    cases value with
    | object members => exact ih _
    | null => exact ih _
    | bool b => exact ih _
    | int n => exact ih _
    | double d => exact ih _
    | string s => exact ih _
    | array elements => exact ih _

/-- A pool with these settings only, and the host and port given. -/
def settled (s : Settings) (host : Option Bytes) (port : UInt16) : Url := ⟨s.account,host,port⟩

theorem give_settled (s t : Settings) (host : Option Bytes) (port : UInt16) :
    give t (settled s host port)=settled (s.followedBy t) host port :=
  give_give s t ⟨Url.new.toUrl,host,port⟩

/-- The account is all that settings make of a pool. -/
theorem settled_inj (s t : Settings) (host : Option Bytes) (port : UInt16) :
    settled s host port=settled t host port ↔ s.account=t.account :=
  ⟨fun h => congrArg Url.toUrl h,fun h => congrArg (fun a => Url.mk a host port) h⟩

/-- The pool that an object describes has its settings only. -/
theorem poolOf_settled {object : List (Bytes×Value D)} {v : Url} (h : poolOf object=some v) :
    ∃ host port, targetOf object=some (host,port) ∧ port ≠ some 0 ∧
      v=settled (settingsOf object) (some host) (port.getD 3333) := by
  rw [poolOf_eq] at h
  split at h
  · cases h
  · rename_i host port htarget
    split at h
    · cases h
    · rename_i hport
      exact ⟨host,port,htarget,hport,(Option.some.inj h).symm⟩

/-- An object without a valid url has none, or names port 0. -/
theorem poolOf_none {object : List (Bytes×Value D)} (h : poolOf object=none) :
    targetOf object=none ∨ ∃ host, targetOf object=some (host,some 0) := by
  rw [poolOf_eq] at h
  split at h
  · rename_i htarget
    exact Or.inl htarget
  · rename_i host port htarget
    split at h
    · rename_i hport
      rw [hport] at htarget
      exact Or.inr ⟨host,htarget⟩
    · cases h

/-- Behind a valid url the pools come out as described exactly when no settings are mixed. -/
theorem attach_iff (own got : Settings) (host : Option Bytes) (port : UInt16)
    (os : List (List (Bytes×Value D))) :
    attach (settled got host port) os=settled own host port::os.filterMap poolOf ↔
      Unmixed own got os := by
  induction os generalizing own got host port with
  | nil =>
    rw [attach,List.filterMap_nil,List.cons.injEq,and_iff_left rfl,Unmixed]
    exact settled_inj got own host port
  | cons o os ih =>
    rw [attach,Unmixed]
    cases hpool : poolOf o with
    | some v =>
      obtain ⟨host',port',-,-,rfl⟩ := poolOf_settled hpool
      rw [List.filterMap_cons_some hpool,Option.isSome_some,if_pos rfl,List.cons.injEq,
        settled_inj,ih]
    | none =>
      have hnone : ¬(none : Option Url).isSome=true := Bool.noConfusion
      rw [List.filterMap_cons_none hpool,if_neg hnone,give_settled]
      exact ih own _ host port

/-- Each pool behind the first one has its object. -/
theorem attach_length (u : Url) (os : List (List (Bytes×Value D))) :
    (attach u os).length=(os.filterMap poolOf).length+1 := by
  induction os generalizing u with
  | nil => rfl
  | cons o os ih =>
    rw [attach]
    cases hpool : poolOf o with
    | some v => rw [List.filterMap_cons_some hpool,List.length_cons,List.length_cons,ih]
    | none => rw [List.filterMap_cons_none hpool,ih]

/-- A url that is made valid in place is valid by itself. -/
theorem poolOf_of_valid {u : Url} (hu : u.isValid=false) {object : List (Bytes×Value D)}
    (h : (give (settingsOf object) (u.aim (targetOf object))).isValid=true) :
    (poolOf object).isSome=true := by
  cases hpool : poolOf object with
  | some v => rfl
  | none =>
    rcases poolOf_none hpool with htarget|⟨host,htarget⟩
    · rw [htarget] at h
      exact Bool.noConfusion (hu.symm.trans h)
    · rw [htarget] at h
      cases h

/-- Before the first valid url there is no more than one pool to an object. -/
theorem lead_length {u : Url} (hu : u.isValid=false) (os : List (List (Bytes×Value D))) :
    (∃ v, lead u os=[v] ∧ v.isValid=false) ∨
      (lead u os).length ≤ (os.filterMap poolOf).length := by
  induction os generalizing u with
  | nil => exact Or.inl ⟨u,rfl,hu⟩
  | cons o os ih =>
    rw [lead]
    split
    · rename_i hvalid
      obtain ⟨v,hpool⟩ := Option.isSome_iff_exists.mp (poolOf_of_valid hu hvalid)
      rw [List.filterMap_cons_some hpool,attach_length]
      exact Or.inr le_rfl
    · rename_i hvalid
      have hnext := ih ((Bool.not_eq_true _).mp hvalid)
      refine hnext.imp_right fun hle => hle.trans ?_
      cases hpool : poolOf o with
      | some v =>
        rw [List.filterMap_cons_some hpool]
        exact Nat.le_succ _
      | none => rw [List.filterMap_cons_none hpool]

/-- A pool with port 0 is not made valid by a url that names no port. -/
theorem dropped_not_faithful {u : Url} (hu : u.isValid=false) {o : List (Bytes×Value D)} {v : Url}
    (hpool : poolOf o=some v) (hv : v.isValid=true) (os : List (List (Bytes×Value D))) :
    ¬Faithful (o::os) (lead u os) := by
  rw [Faithful,List.filterMap_cons_some hpool,if_neg (List.cons_ne_nil _ _)]
  intro hpools
  rcases lead_length hu os with ⟨v',hsingle,hinvalid⟩|hshort
  · rw [hsingle] at hpools
    rw [(List.cons.inj hpools).1,hv] at hinvalid
    cases hinvalid
  · rw [hpools,List.length_cons] at hshort
    exact Nat.not_succ_le_self _ hshort

theorem settled_valid_iff (s : Settings) (host : Option Bytes) (port : UInt16) :
    (settled s host port).isValid=true ↔ host.isSome=true ∧ port ≠ 0 := by
  rw [settled,Url.isValid,Bool.and_eq_true,decide_eq_true_iff,UInt16.pos_iff_ne_zero]

/-- The one pool before the first valid url, where port 0 may have been given. -/
structure Leading (zero : Bool) (host : Option Bytes) (port : UInt16) : Prop where
  /-- Then it has that port. -/
  ruined : zero=true → port=0
  /-- Otherwise it has no host and the default port. -/
  fresh : zero=false → host=none ∧ port=3333

theorem Leading.invalid {zero : Bool} {host : Option Bytes} {port : UInt16}
    (h : Leading zero host port) (s : Settings) : (settled s host port).isValid=false := by
  rw [Bool.eq_false_iff,ne_eq,settled_valid_iff]
  rintro ⟨hhost,hport⟩
  cases zero with
  | true => exact hport (h.ruined rfl)
  | false =>
    rw [(h.fresh rfl).1] at hhost
    cases hhost

/-- A url without a port gets the default one, unless port 0 has been given. -/
theorem Leading.port {zero : Bool} {host : Option Bytes} {port : UInt16}
    (h : Leading zero host port) {port' : Option UInt16} (hkept : ¬(zero=true ∧ port'=none)) :
    port'.getD port=port'.getD 3333 := by
  cases port' with
  | some p => rfl
  | none =>
    have hzero : zero=false := (Bool.not_eq_true _).mp fun hzero => hkept ⟨hzero,rfl⟩
    exact (h.fresh hzero).2

/-- At the first valid url the pools come out as described exactly when the condition holds. -/
theorem lead_described {zero : Bool} (before : Settings) {host : Option Bytes} {port : UInt16}
    (h : Leading zero host port) {o : List (Bytes×Value D)} {v : Url} (hpool : poolOf o=some v)
    (os : List (List (Bytes×Value D))) :
    Faithful (o::os) (lead (settled before host port) (o::os)) ↔
      Separate zero before (o::os) := by
  obtain ⟨host',port',htarget,hport,rfl⟩ := poolOf_settled hpool
  have haim : (settled before host port).aim (some (host',port'))=
      settled before (some host') (port'.getD port) := rfl
  rw [lead,Separate,hpool,Option.isSome_some,if_pos rfl,htarget,haim,give_settled]
  by_cases hdropped : zero=true ∧ port'=none
  · obtain ⟨hzero,rfl⟩ := hdropped
    have hinvalid : (settled (before.followedBy (settingsOf o)) (some host')
        ((none : Option UInt16).getD port)).isValid=false := by
      rw [Option.getD_none,h.ruined hzero]
      rfl
    rw [if_neg ((Bool.not_eq_true _).mpr hinvalid)]
    refine iff_of_false (dropped_not_faithful hinvalid hpool ?_ os) ?_
    · exact (settled_valid_iff _ _ _).mpr ⟨rfl,by decide⟩
    · exact fun hseparate => hseparate.1 ⟨hzero,host',rfl⟩
  · have hnonzero : port'.getD 3333 ≠ 0 := by
      cases port' with
      | some p => exact fun hp => hport (congrArg some hp)
      | none => decide
    have hkept : ¬(zero=true ∧
        ∃ host, some (host',port')=some (host,(none : Option UInt16))) := by
      rintro ⟨hzero,host'',heq⟩
      exact hdropped ⟨hzero,(Prod.mk.inj (Option.some.inj heq)).2⟩
    rw [h.port hdropped,if_pos ((settled_valid_iff _ _ _).mpr ⟨rfl,hnonzero⟩),Faithful,
      List.filterMap_cons_some hpool,if_neg (List.cons_ne_nil _ _),attach_iff,
      and_iff_right hkept]

/-- An object without a valid url leaves its settings, and port 0 where it names that. -/
theorem lead_passed {zero : Bool} (before : Settings) {host : Option Bytes} {port : UInt16}
    (h : Leading zero host port) {o : List (Bytes×Value D)} (hpool : poolOf o=none)
    (os : List (List (Bytes×Value D))) :
    ∃ zero' host' port', Leading zero' host' port' ∧
      lead (settled before host port) (o::os)=
        lead (settled (before.followedBy (settingsOf o)) host' port') os ∧
      (Separate zero before (o::os) ↔
        Separate zero' (before.followedBy (settingsOf o)) os) := by
  have hnone : ¬(none : Option Url).isSome=true := Bool.noConfusion
  rcases poolOf_none hpool with htarget|⟨host',htarget⟩
  · have haim : (settled before host port).aim none=settled before host port := rfl
    have hinvalid := h.invalid (before.followedBy (settingsOf o))
    refine ⟨zero,host,port,h,?_,?_⟩
    · rw [lead,htarget,haim,give_settled,if_neg ((Bool.not_eq_true _).mpr hinvalid)]
    · rw [Separate,hpool,if_neg hnone,htarget,Option.any_none,Bool.or_false]
  · have haim : (settled before host port).aim (some (host',some 0))=
        settled before (some host') 0 := rfl
    have hruined : Leading true (some host') 0 := ⟨fun _ => rfl,fun hz => (nomatch hz)⟩
    have hinvalid := hruined.invalid (before.followedBy (settingsOf o))
    refine ⟨true,some host',0,hruined,?_,?_⟩
    · rw [lead,htarget,haim,give_settled,if_neg ((Bool.not_eq_true _).mpr hinvalid)]
    · rw [Separate,hpool,if_neg hnone,htarget,Option.any_some,decide_eq_true rfl,Bool.or_true]

/-- Before the first valid url the pools come out as described exactly when the condition
holds. -/
theorem lead_iff {zero : Bool} (before : Settings) {host : Option Bytes} {port : UInt16}
    (h : Leading zero host port) (os : List (List (Bytes×Value D))) :
    Faithful os (lead (settled before host port) os) ↔ Separate zero before os := by
  induction os generalizing zero before host port with
  | nil => exact iff_of_true ⟨_,rfl,h.invalid before⟩ trivial
  | cons o os ih =>
    cases hpool : poolOf o with
    | some v => exact lead_described before h hpool os
    | none =>
      obtain ⟨zero',host',port',hnext,hlead,hseparate⟩ := lead_passed before h hpool os
      rw [hlead,hseparate,Faithful,List.filterMap_cons_none hpool]
      exact ih _ hnext

end Loop

section Valid

variable {D : Type}

theorem unmixed_of_valid (s : Settings) {os : List (List (Bytes×Value D))}
    (h : ∀ o∈os, (poolOf o).isSome=true) : Unmixed s s os := by
  induction os generalizing s with
  | nil => rfl
  | cons o os ih =>
    rw [Unmixed,if_pos (h o List.mem_cons_self)]
    exact ⟨rfl,ih (settingsOf o) fun o' ho' => h o' (List.mem_cons_of_mem o ho')⟩

/-- Nothing is mixed in a list where every url is valid. -/
theorem separate_of_valid {os : List (List (Bytes×Value D))}
    (h : ∀ o∈os, (poolOf o).isSome=true) : Separate false .none os := by
  cases os with
  | nil => trivial
  | cons o os =>
    have hown : Settings.none.followedBy (settingsOf o)=settingsOf o := by
      simp only [Settings.followedBy,Settings.none,Option.or_none]
    rw [Separate,if_pos (h o List.mem_cons_self),hown]
    exact ⟨fun hzero => (nomatch hzero.1),
      unmixed_of_valid _ fun o' ho' => h o' (List.mem_cons_of_mem o ho')⟩

end Valid

/-- Pools of a config file. The loop over a list of pools leaves the pools that the objects
with a valid url describe exactly when no settings of other objects come out in a pool, and
no url without a port that would come first is met by port 0. -/
theorem pools_faithful_iff {D : Type} (values : List (Value D)) :
    Faithful (objects values) (parsePools values [Url.new]) ↔
      Separate false .none (objects values) := by
  have hnew : Leading false none 3333 := ⟨fun h => (nomatch h),fun _ => ⟨rfl,rfl⟩⟩
  rw [parsePools_eq,closed_loop rfl]
  exact lead_iff .none hnew (objects values)

/-- A pool whose url has another scheme, with a user, and a pool with a good url only. -/
def badFirst : List (Value Unit) :=
  [.object [(text "url",.string (text "http://a:1")),(text "user",.string (text "bob"))],
    .object [(text "url",.string (text "b:3333"))]]

/-- The user of the bad entry comes out in the other pool. -/
theorem bad_first_not_faithful :
    ¬Faithful (objects badFirst) (parsePools badFirst [Url.new]) := by
  have hpools : parsePools badFirst [Url.new]=
      [⟨⟨false,false,none,some (text "bob")⟩,some (text "b"),3333⟩] := rfl
  have hdescribed : (objects badFirst).filterMap poolOf=
      [⟨⟨false,false,none,none⟩,some (text "b"),3333⟩] := rfl
  rw [Faithful,hpools,hdescribed,if_neg (List.cons_ne_nil _ _)]
  intro heq
  have husers := congrArg (fun u : Url => u.m_user) (List.cons.inj heq).1
  cases husers

end XmrigCC.PoolOptions
