import Qml.Lib.Base64
import Qml.Lib.Text

namespace Qml
open Lib

/-- How the dashboard tells who asks. -/
inductive DashboardAuth
  | basic (username password : String)
  | bearer (token : String)

inductive HttpMethod
  | get | head | post | put | patch | delete | options
  | other (name : String)
  deriving DecidableEq

inductive HeaderName
  | authorization | host | origin | referer
  deriving DecidableEq

/-- A request: of each header the first value, as the bytes that were sent. -/
structure Request where
  method : HttpMethod
  path : List String
  headers : HeaderName → Option (List UInt8)

namespace Auth

/-- The characters that a header value may have as a text: printable ASCII, and the tabulator. -/
def printable (c : Char) : Bool := decide (c = '\t' ∨ 32 ≤ c.toNat ∧ c.toNat < 127)

/-- A header value as text. -/
def toStr (value : List UInt8) : Option (List Char) :=
  let text := value.map fun b => Char.ofNat b.toNat
  if text.all printable then some text else none

def Request.text (req : Request) (name : HeaderName) : Option (List Char) :=
  (req.headers name).bind toStr

/-- The blanks that a header value can have. -/
def blank (c : Char) : Bool := decide (c = ' ' ∨ c = '\t')

def asBytes (s : String) : List UInt8 := s.toUTF8.data.toList

def constantTimeEq (a b : List UInt8) : Bool :=
  if a.length ≠ b.length then false else decide (a = b)

def base64Decode (input : List Char) : Option (List UInt8) := Base64.decode input

def checkBasic (headerValue : List Char) (expectedUser expectedPass : String) : Bool :=
  match Text.strip "Basic ".toList headerValue with
  | none => false
  | some encoded =>
    match base64Decode (Text.trim blank encoded) with
    | none => false
    | some bytes =>
      match String.fromUTF8? ⟨bytes.toArray⟩ with
      | none => false
      | some decoded =>
        match Text.splitOnce [':'] decoded.toList with
        | none => false
        | some (user, pass) =>
          let userOk := constantTimeEq (asBytes (.ofList user)) (asBytes expectedUser)
          let passOk := constantTimeEq (asBytes (.ofList pass)) (asBytes expectedPass)
          userOk && passOk

def checkBearer (headerValue : List Char) (expected : String) : Bool :=
  match Text.strip "Bearer ".toList headerValue with
  | none => false
  | some token => constantTimeEq (asBytes (.ofList (Text.trim blank token))) (asBytes expected)

/-- The authority of an absolute URL. -/
def authorityOf (url : List Char) : Option (List Char) :=
  match Text.splitOnce "://".toList url with
  | none => none
  | some (_, rest) =>
    let authority := rest.takeWhile fun c => c != '/' && c != '?' && c != '#'
    if authority = [] then none else some (authority.map Char.toLower)

def eqIgnoreAsciiCase (a b : List Char) : Bool := decide (a.map Char.toLower = b.map Char.toLower)

def isMutation : HttpMethod → Bool
  | .post | .put | .patch | .delete => true
  | _ => false

/-- The check of `require_auth`. -/
def authorized (auth : DashboardAuth) (req : Request) : Bool :=
  match auth, Request.text req .authorization with
  | .basic username password, some h => checkBasic h username password
  | .bearer token, some h => checkBearer h token
  | _, none => false

/-- The check of `csrf_guard`. A present `Origin` is not replaced by a `Referer`. -/
def sameOrigin (req : Request) : Bool :=
  let source := (((req.headers .origin).or (req.headers .referer)).bind toStr).bind authorityOf
  match Request.text req .host, source with
  | some host, some source => eqIgnoreAsciiCase host source
  | _, _ => false

variable {header : List Char} {username password token : String} {a b : List UInt8}

theorem constantTimeEq_iff : constantTimeEq a b = true ↔ a = b := by
  unfold constantTimeEq
  split
  · rename_i hlength
    constructor
    · intro h
      cases h
    · rintro rfl
      exact absurd rfl hlength
  · exact decide_eq_true_iff

theorem asBytes_inj {s s' : String} : asBytes s = asBytes s' ↔ s = s' := by
  refine ⟨fun h => ?_, congrArg asBytes⟩
  have hdata : s.toUTF8.data = s'.toUTF8.data := Array.toList_inj.mp h
  exact String.toByteArray_inj.mp (ByteArray.ext hdata)

theorem fromUTF8?_eq_some_iff {bytes : List UInt8} {s : String} :
    String.fromUTF8? ⟨bytes.toArray⟩ = some s ↔ bytes = asBytes s := by
  unfold String.fromUTF8? asBytes
  constructor
  · intro h
    split at h
    · cases h
      rfl
    · cases h
  · rintro rfl
    have hvalid : (ByteArray.mk s.toUTF8.data.toList.toArray).IsValidUTF8 := s.isValidUTF8
    rw [dif_pos hvalid]
    rfl

/-- A name without a colon and a password can be told apart. -/
theorem splitOnce_joined (username password : String) (hcolon : ':' ∉ username.toList) :
    Text.splitOnce [':'] (username ++ ":" ++ password).toList =
      some (username.toList, password.toList) :=
  Text.splitOnce_eq_some_iff.mpr ⟨by simp, hcolon⟩

theorem checkBasic_some (h : checkBasic header username password = true) :
    ∃ encoded bytes decoded parts, header = "Basic ".toList ++ encoded ∧
      Base64.decode (Text.trim blank encoded) = some bytes ∧
      String.fromUTF8? ⟨bytes.toArray⟩ = some decoded ∧
      Text.splitOnce [':'] decoded.toList = some parts ∧
      parts = (username.toList, password.toList) := by
  unfold checkBasic at h
  split at h
  · cases h
  rename_i encoded hencoded
  split at h
  · cases h
  rename_i bytes hbytes
  split at h
  · cases h
  rename_i decoded hdecoded
  split at h
  · cases h
  rename_i user pass hparts
  obtain ⟨huser, hpass⟩ := Bool.and_eq_true_iff.mp h
  have huser := asBytes_inj.mp (constantTimeEq_iff.mp huser)
  have hpass := asBytes_inj.mp (constantTimeEq_iff.mp hpass)
  refine ⟨encoded, bytes, decoded, (user, pass), Text.strip_eq_some_iff.mp hencoded, hbytes,
    hdecoded, hparts, ?_⟩
  rw [← huser, ← hpass, String.toList_ofList, String.toList_ofList]

/-- Who gets in with a name and a password: whoever sends the two, joined by a colon and
encoded; and nobody where the name that is expected has a colon. -/
theorem checkBasic_iff : checkBasic header username password = true ↔
    ':' ∉ username.toList ∧ ∃ encoded, header = "Basic ".toList ++ encoded ∧
      Text.trim blank encoded = Base64.encode (asBytes (username ++ ":" ++ password)) := by
  constructor
  · intro h
    obtain ⟨encoded, bytes, decoded, parts, hheader, hbytes, hdecoded, hparts, rfl⟩ :=
      checkBasic_some h
    obtain ⟨htext, hcolon⟩ := Text.splitOnce_eq_some_iff.mp hparts
    have hjoined : decoded = username ++ ":" ++ password := by
      rw [← String.toList_inj, htext]
      simp
    rw [fromUTF8?_eq_some_iff.mp hdecoded, hjoined] at hbytes
    exact ⟨hcolon, encoded, hheader, Base64.decode_eq_some_iff.mp hbytes⟩
  · rintro ⟨hcolon, encoded, rfl, hencoded⟩
    have hparts := splitOnce_joined username password hcolon
    have hdecoded := fromUTF8?_eq_some_iff.mpr (Eq.refl (asBytes (username ++ ":" ++ password)))
    unfold checkBasic base64Decode
    simp only [Text.strip_eq_some_iff.mpr rfl, hencoded, Base64.decode_encode, hdecoded, hparts,
      String.ofList_toList, constantTimeEq_iff.mpr rfl, Bool.and_self]

/-- Who gets in with a token: whoever sends it, between blanks or not. -/
theorem checkBearer_iff : checkBearer header token = true ↔
    ∃ sent, header = "Bearer ".toList ++ sent ∧ Text.trim blank sent = token.toList := by
  unfold checkBearer
  constructor
  · intro h
    split at h
    · cases h
    · rename_i sent hsent
      refine ⟨sent, Text.strip_eq_some_iff.mp hsent, ?_⟩
      have htoken := asBytes_inj.mp (constantTimeEq_iff.mp h)
      rw [← htoken, String.toList_ofList]
  · rintro ⟨sent, rfl, hsent⟩
    simp only [Text.strip_eq_some_iff.mpr rfl, hsent, String.ofList_toList,
      constantTimeEq_iff.mpr rfl]

/-- What a request has to carry: the name and the password, joined by a colon and encoded, or
the token. -/
def Presents (req : Request) : DashboardAuth → Prop
  | .basic username password => ':' ∉ username.toList ∧ ∃ encoded,
      Request.text req .authorization = some ("Basic ".toList ++ encoded) ∧
      Text.trim blank encoded = Base64.encode (asBytes (username ++ ":" ++ password))
  | .bearer token => ∃ sent,
      Request.text req .authorization = some ("Bearer ".toList ++ sent) ∧
      Text.trim blank sent = token.toList

/-- Whether anybody can get in: not with a name that has a colon, nor with a token that has a
character that is not printable ASCII, or a blank at either end. -/
def Usable : DashboardAuth → Prop
  | .basic username _ => ':' ∉ username.toList
  | .bearer token => (∀ c ∈ token.toList, printable c = true) ∧
      Text.trim blank token.toList = token.toList

theorem authorized_iff {auth : DashboardAuth} {req : Request} :
    authorized auth req = true ↔ Presents req auth := by
  unfold authorized
  cases htext : Request.text req .authorization with
  | none => cases auth <;> simp [Presents, htext]
  | some header =>
    cases auth with
    | basic username password => simp [Presents, htext, checkBasic_iff]
    | bearer token => simp [Presents, htext, checkBearer_iff]

theorem schemes_ne {encoded sent : List Char} :
    "Basic ".toList ++ encoded ≠ "Bearer ".toList ++ sent := by
  intro h
  have hsecond := congrArg (fun text => text[1]?) h
  simp at hsecond

/-- What one request carries opens one dashboard only. -/
theorem Presents.inj {req : Request} {auth other : DashboardAuth} (h : Presents req auth)
    (hother : Presents req other) : auth = other := by
  cases auth with
  | basic username password =>
    obtain ⟨hcolon, encoded, htext, hencoded⟩ := h
    cases other with
    | basic username' password' =>
      obtain ⟨hcolon', encoded', htext', hencoded'⟩ := hother
      obtain rfl : encoded = encoded' :=
        List.append_cancel_left (Option.some.inj (htext.symm.trans htext'))
      have hjoined := congrArg String.toList
        (asBytes_inj.mp (Base64.encode_inj (hencoded.symm.trans hencoded')))
      have hparts := splitOnce_joined username password hcolon
      rw [hjoined, splitOnce_joined _ _ hcolon', Option.some.injEq, Prod.mk.injEq,
        String.toList_inj, String.toList_inj] at hparts
      rw [hparts.1, hparts.2]
    | bearer token =>
      obtain ⟨sent, htext', -⟩ := hother
      exact absurd (Option.some.inj (htext.symm.trans htext')) schemes_ne
  | bearer token =>
    obtain ⟨sent, htext, hsent⟩ := h
    cases other with
    | basic username' password' =>
      obtain ⟨-, encoded', htext', -⟩ := hother
      exact absurd (Option.some.inj (htext'.symm.trans htext)) schemes_ne
    | bearer token' =>
      obtain ⟨sent', htext', hsent'⟩ := hother
      obtain rfl : sent = sent' :=
        List.append_cancel_left (Option.some.inj (htext.symm.trans htext'))
      rw [String.toList_inj.mp (hsent.symm.trans hsent')]

/-- A text as a header value. -/
def asValue (text : List Char) : List UInt8 := text.map fun c => UInt8.ofNat c.toNat

theorem printable_lt {c : Char} (h : printable c = true) : c.toNat < 127 := by
  rcases of_decide_eq_true h with rfl | h
  · decide
  · exact h.2

theorem toStr_asValue {text : List Char} (h : ∀ c ∈ text, printable c = true) :
    toStr (asValue text) = some text := by
  have hback : (asValue text).map (fun b => Char.ofNat b.toNat) = text := by
    rw [asValue, List.map_map]
    refine (List.map_congr_left fun c hc => ?_).trans (List.map_id text)
    have hlt := printable_lt (h c hc)
    simp only [Function.comp_apply, id_eq, UInt8.toNat_ofNat', Nat.mod_eq_of_lt (by omega :
      c.toNat < 2 ^ 8), Char.ofNat_toNat]
  rw [toStr, hback, if_pos (List.all_eq_true.mpr h)]

/-- What a header value reads as is printable. -/
theorem printable_of_text {req : Request} {name : HeaderName} {text : List Char}
    (h : Request.text req name = some text) : ∀ c ∈ text, printable c = true := by
  obtain ⟨value, -, htext⟩ := Option.bind_eq_some_iff.mp h
  rw [toStr] at htext
  split at htext
  · rename_i hall
    cases htext
    exact List.all_eq_true.mp hall
  · cases htext

/-- A request with nothing but its authorization. -/
def Request.bearing (text : List Char) : Request where
  method := .get
  path := []
  headers
    | .authorization => some (asValue text)
    | _ => none

theorem text_bearing {text : List Char} (h : ∀ c ∈ text, printable c = true) :
    Request.text (Request.bearing text) .authorization = some text := toStr_asValue h

theorem printable_digit : ∀ n < 64, printable (Base64.digit n) = true ∧
    blank (Base64.digit n) = false := by
  decide +kernel

theorem printable_encode {bytes : List UInt8} {c : Char} (h : c ∈ Base64.encode bytes) :
    printable c = true ∧ blank c = false := by
  rcases Base64.mem_encode h with rfl | ⟨n, hn, rfl⟩
  · decide
  · exact printable_digit n hn

theorem usable_iff (auth : DashboardAuth) : (∃ req, authorized auth req = true) ↔ Usable auth := by
  constructor
  · rintro ⟨req, h⟩
    cases auth with
    | basic username password => exact (authorized_iff.mp h).1
    | bearer token =>
      obtain ⟨sent, htext, hsent⟩ := authorized_iff.mp h
      refine ⟨fun c hc => printable_of_text htext c (List.mem_append_right _ ?_), ?_⟩
      · rw [← hsent] at hc
        exact Text.mem_of_mem_trim hc
      · rw [← hsent, Text.trim_trim]
  · intro h
    cases auth with
    | basic username password =>
      refine ⟨Request.bearing ("Basic ".toList ++
        Base64.encode (asBytes (username ++ ":" ++ password))), authorized_iff.mpr ⟨h, _,
          text_bearing fun c hc => ?_, Text.trim_of_none fun c hc => (printable_encode hc).2⟩⟩
      rcases List.mem_append.mp hc with hc | hc
      · have hscheme : ("Basic ".toList).all printable = true := by decide
        exact List.all_eq_true.mp hscheme c hc
      · exact (printable_encode hc).1
    | bearer token =>
      refine ⟨Request.bearing ("Bearer ".toList ++ token.toList), authorized_iff.mpr ⟨_,
        text_bearing fun c hc => ?_, h.2⟩⟩
      rcases List.mem_append.mp hc with hc | hc
      · have hscheme : ("Bearer ".toList).all printable = true := by decide
        exact List.all_eq_true.mp hscheme c hc
      · exact h.1 c hc

/-- The guard lets in who carries the credentials, exactly; what one request carries opens one
dashboard only; and nobody gets in where the credentials cannot be carried. -/
theorem credentials_exact (auth : DashboardAuth) :
    (∀ req, authorized auth req = true ↔ Presents req auth) ∧
    (∀ req other, authorized auth req = true → authorized other req = true → auth = other) ∧
    ((∃ req, authorized auth req = true) ↔ Usable auth) :=
  ⟨fun _ => authorized_iff, fun _ _ h hother =>
    (authorized_iff.mp h).inj (authorized_iff.mp hother), usable_iff auth⟩

end Auth
end Qml
