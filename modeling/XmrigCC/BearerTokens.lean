import XmrigCC.CommandServer

/-!
# The bearer token in the Authorization header

The command server and the API of the miner check the header in a function of their own:
`Httpd::tokenAuth` of cc and `Httpd::auth` of api. Both compare lengths, the word Bearer and the
token, in this order. A result that is missing means that a cell behind a string was read.
-/

namespace XmrigCC.BearerTokens

open ByteText CStrings
open CommandServer (httpOk httpUnauthorized httpForbidden)

/-- `"Bearer "`. -/
def bearer : CString := literal "Bearer "

/-- `Httpd::tokenAuth` of cc, with `ccToken()` and the header that is looked up. -/
def tokenAuth (ccToken header : Option CString) : Option ℕ :=
  match ccToken with
  | none => some httpOk
  | some ccToken =>
    match header with
    | none => some httpUnauthorized
    | some header => do
      let size ← strlen header.cells
      if size<8 then return httpForbidden
      if (← strlen ccToken.cells) ≠ size-7 then return httpForbidden
      if (← memcmp bearer.cells header.cells 7) ≠ 0 then return httpForbidden
      let length ← strlen ccToken.cells
      return if (← strncmp ccToken.cells (header.cells.drop 7) length)=0 then httpOk
        else httpForbidden

/-- `Httpd::auth` of api, with `m_accessToken` and the header it is given. -/
def auth (m_accessToken header : Option CString) : Option ℕ :=
  match m_accessToken,header with
  | none,_ => some httpOk
  | some _,none => some httpUnauthorized
  | some m_accessToken,some header => do
    let size ← strlen header.cells
    if size<8 then return httpForbidden
    if (← strlen m_accessToken.cells) ≠ size-7 then return httpForbidden
    if (← memcmp bearer.cells header.cells 7) ≠ 0 then return httpForbidden
    let length ← strlen m_accessToken.cells
    return if (← strncmp m_accessToken.cells (header.cells.drop 7) length)=0 then httpOk
      else httpForbidden

/-- What opens the door: no token is set, or the header is the word Bearer, a blank and the
token, which is not empty. -/
def Opens (token header : Option CString) : Prop :=
  token=none ∨ ∃ t h, token=some t ∧ header=some h ∧ t.bytes ≠ [] ∧
    h.bytes=text "Bearer "++t.bytes

/-- The status of both checks. -/
structure Checked (token header : Option CString) (status : ℕ) : Prop where
  /-- Access is granted for the right header. -/
  ok : status=httpOk ↔ Opens token header
  /-- The header is asked for where it is missing. -/
  unauthorized : status=httpUnauthorized ↔ token ≠ none ∧ header=none
  /-- Everything else is refused. -/
  forbidden : status=httpForbidden ↔ ¬Opens token header ∧ ¬(token ≠ none ∧ header=none)

/-- The status of a token and a header that are both there. -/
def compared (token header : CString) : ℕ :=
  if token.bytes ≠ [] ∧ header.bytes=text "Bearer "++token.bytes then httpOk else httpForbidden

/-- A text is this word and the token when it is as long, begins with the word and goes on with
the token. -/
theorem eq_bearer_iff {t h : Bytes} :
    h=text "Bearer "++t ↔ h.length=7+t.length ∧ text "Bearer "=h.take 7 ∧ t=h.drop 7 := by
  have hlength : (text "Bearer ").length=7 := rfl
  constructor
  · rintro rfl
    refine ⟨by rw [List.length_append,hlength],?_,?_⟩
    · rw [←hlength,List.take_left]
    · rw [←hlength,List.drop_left]
  · rintro ⟨-,hfront,hrest⟩
    rw [hfront,hrest,List.take_append_drop]

/-- The characters behind the word are cells of the header. -/
theorem take_drop_cells {header : CString} {n : ℕ} (h : header.bytes.length=7+n) :
    (header.cells.drop 7).take n=header.bytes.drop 7 := by
  have hn : n=(header.bytes.drop 7).length := by
    rw [List.length_drop]
    omega
  rw [CString.cells,List.drop_append_of_le_length (by omega),hn,List.take_left]

/-- A token and a header that are both there are compared without reading behind either. -/
theorem tokenAuth_some (token header : CString) :
    tokenAuth (some token) (some header)=some (compared token header) := by
  have hiff := eq_bearer_iff (t:=token.bytes) (h:=header.bytes)
  have hempty : token.bytes ≠ [] ↔ token.bytes.length ≠ 0 := not_congr List.length_eq_zero_iff.symm
  simp only [tokenAuth,strlen_cells,Option.bind_eq_bind,Option.bind_some,Option.pure_def]
  by_cases hshort : header.bytes.length<8
  · rw [if_pos hshort,compared,if_neg]
    rintro ⟨hne,heq⟩
    have hlength := (hiff.mp heq).1
    have hpos := hempty.mp hne
    omega
  · rw [if_neg hshort]
    by_cases hlength : token.bytes.length ≠ header.bytes.length-7
    · rw [if_pos hlength,compared,if_neg]
      rintro ⟨-,heq⟩
      have hlong := (hiff.mp heq).1
      omega
    · rw [if_neg hlength]
      have hlong : header.bytes.length=7+token.bytes.length := by omega
      have hword : bearer.cells.take 7=text "Bearer " :=
        (bearer.take_cells (le_refl 7)).trans rfl
      obtain ⟨r,hr,hzero⟩ := memcmp_spec bearer.cells header.cells (n:=7)
        (by decide) (by rw [CString.length_cells]; omega)
      rw [hword,header.take_cells (by omega)] at hzero
      obtain ⟨r',hr',hzero'⟩ := strncmp_spec token.cells (header.cells.drop 7)
        (n:=token.bytes.length) (by rw [CString.length_cells]; omega)
        (by rw [List.length_drop,CString.length_cells]; omega)
        (by rw [token.take_cells (le_refl _),List.take_length]; exact token.no_nul)
      rw [token.take_cells (le_refl _),List.take_length,take_drop_cells hlong] at hzero'
      rw [hr,hr']
      simp only [Option.bind_some]
      by_cases hfront : r=0
      · rw [if_neg (not_not.mpr hfront)]
        by_cases hrest : r'=0
        · rw [if_pos hrest,compared,if_pos]
          exact ⟨hempty.mpr (by omega),hiff.mpr ⟨hlong,hzero.mp hfront,hzero'.mp hrest⟩⟩
        · rw [if_neg hrest,compared,if_neg]
          rintro ⟨-,heq⟩
          exact hrest (hzero'.mpr (hiff.mp heq).2.2)
      · rw [if_pos hfront,compared,if_neg]
        rintro ⟨-,heq⟩
        exact hfront (hzero.mpr (hiff.mp heq).2.1)

/-- Both checks do the same. -/
theorem auth_eq (token header : Option CString) : auth token header=tokenAuth token header := by
  cases token with
  | none => rfl
  | some token => cases header <;> rfl

/-- The status compared is right. -/
theorem compared_checked (token header : CString) :
    Checked (some token) (some header) (compared token header) := by
  have hopens : Opens (some token) (some header) ↔
      token.bytes ≠ [] ∧ header.bytes=text "Bearer "++token.bytes := by
    constructor
    · rintro (hnone | ⟨t,h,ht,hh,hne,heq⟩)
      · cases hnone
      · cases ht
        cases hh
        exact ⟨hne,heq⟩
    · rintro ⟨hne,heq⟩
      exact .inr ⟨token,header,rfl,rfl,hne,heq⟩
  have hheader : some header ≠ none := Option.some_ne_none header
  by_cases h : token.bytes ≠ [] ∧ header.bytes=text "Bearer "++token.bytes
  · rw [compared,if_pos h]
    exact ⟨iff_of_true rfl (hopens.mpr h),iff_of_false (by decide) (fun hn => hheader hn.2),
      iff_of_false (by decide) fun hn => hn.1 (hopens.mpr h)⟩
  · rw [compared,if_neg h]
    exact ⟨iff_of_false (by decide) fun ho => h (hopens.mp ho),
      iff_of_false (by decide) (fun hn => hheader hn.2),
      iff_of_true rfl ⟨fun ho => h (hopens.mp ho),fun hn => hheader hn.2⟩⟩

/-- For every token and header, or none, both checks give the same status, the right one, and
read no cell behind a terminator. -/
theorem token_checked (token header : Option CString) :
    tokenAuth token header=auth token header ∧
    ∃ status, tokenAuth token header=some status ∧ Checked token header status := by
  refine ⟨(auth_eq token header).symm,?_⟩
  cases token with
  | none =>
    have hopens : Opens none header := .inl rfl
    exact ⟨httpOk,rfl,iff_of_true rfl hopens,iff_of_false (by decide) fun hn => hn.1 rfl,
      iff_of_false (by decide) fun hn => hn.1 hopens⟩
  | some token =>
    cases header with
    | none =>
      have hcloses : ¬Opens (some token) none := by
        rintro (hnone | ⟨t,h,-,hh,-⟩)
        · cases hnone
        · cases hh
      exact ⟨httpUnauthorized,rfl,iff_of_false (by decide) hcloses,
        iff_of_true rfl ⟨Option.some_ne_none token,rfl⟩,
        iff_of_false (by decide) fun hn => hn.2 ⟨Option.some_ne_none token,rfl⟩⟩
    | some header =>
      exact ⟨compared token header,tokenAuth_some token header,compared_checked token header⟩

/-- The check by cells is the one that the handler of the server is modelled with. -/
theorem tokenAuth_eq (options : CommandServer.Options) (token header : Option CString)
    (htoken : options.ccToken=token.map CString.bytes) :
    tokenAuth token header=
      some (CommandServer.tokenAuth options (header.map CString.bytes)) := by
  unfold CommandServer.tokenAuth
  rw [htoken]
  cases token with
  | none => rfl
  | some token =>
    cases header with
    | none => rfl
    | some header =>
      rw [tokenAuth_some,compared]
      simp only [Option.map_some]
      have hiff := eq_bearer_iff (t:=token.bytes) (h:=header.bytes)
      have hempty : token.bytes ≠ [] ↔ token.bytes.length ≠ 0 :=
        not_congr List.length_eq_zero_iff.symm
      by_cases h : token.bytes ≠ [] ∧ header.bytes=text "Bearer "++token.bytes
      · obtain ⟨hlength,hfront,hrest⟩ := hiff.mp h.2
        have hpos := hempty.mp h.1
        have hgood : ¬(header.bytes.length<8 ∨ token.bytes.length ≠ header.bytes.length-7 ∨
            header.bytes.take 7 ≠ text "Bearer ") := by
          rintro (hshort | hlong | hword)
          · omega
          · omega
          · exact hword hfront.symm
        have hsame : (header.bytes.drop 7).take token.bytes.length=token.bytes := by
          rw [←hrest,List.take_length]
        rw [if_pos h,if_neg hgood,if_pos hsame]
      · rw [if_neg h]
        split
        · rfl
        · rename_i hgood
          rw [not_or,not_or,not_not,not_not] at hgood
          rw [if_neg]
          intro hsame
          refine h ⟨hempty.mpr (by omega),hiff.mpr ⟨by omega,hgood.2.2.symm,?_⟩⟩
          rw [List.take_of_length_le (by rw [List.length_drop]; omega)] at hsame
          exact hsame.symm

end XmrigCC.BearerTokens
