import JoinedContext.Library.Numeral
import JoinedContext.Query.Codec
import JoinedContext.WasmHost.Blob

/-!
# The file links of an App

A link names an App, a method, a key, its expiry and, for a sized PUT, its length, under a tag of
these. A link that is checked opens what it was made for until its expiry, and a request that passes
the check is answered as some link that was made is.
-/

namespace JoinedContext.WasmHost

/-- An App's id: lowercase letters, digits and `_`, 1 to 40 characters. -/
def isId (id : String) : Bool :=
  id ≠ "" && id.utf8ByteSize ≤ 40 && id.toList.all fun c => c.isLower || c.isDigit || c == '_'

/-- An App's name: lowercase letters, digits and `-`, 1 to 63 characters. -/
def isName (name : String) : Bool :=
  name ≠ "" && name.utf8ByteSize ≤ 63 && name.toList.all fun c => c.isLower || c.isDigit || c == '-'

/-- An App as its placement is checked. -/
structure Placed where
  name : String
  id : String
  name_ok : isName name = true
  id_ok : isId id = true

def encodeByte (keepSlash : Bool) (b : Nat) : List Char :=
  if b = 0x2F ∧ keepSlash then ['/'] else Query.encodeByte b

/-- Percent-encoding of every byte but the unreserved ones, and `/` kept in a path. -/
def encode (text : String) (keepSlash : Bool) : String :=
  String.ofList ((Text.utf8Bytes text).flatMap (encodeByte keepSlash))

namespace FileUrls

def PREFIX : String := "_jc/files/"

def INVALID : String := "this file link is not valid; ask the application for a new one"

def EXPIRED : String := "this file link has expired; ask the application for a new one"

/-- What a link was signed for, as the shard checked it. -/
structure Signed where
  key : String
  length : Option Nat
deriving DecidableEq

def bytes (text : String) : List UInt8 := text.toList.flatMap String.utf8EncodeChar

def isLabel (label : String) : Bool :=
  label ≠ "" && label.utf8ByteSize ≤ 63 && !Text.startsWith '-' label &&
    !Text.endsWithAny ['-'] label && label.toList.all fun c => c.isAlphanum || c == '-'

def isHost (host : String) : Bool :=
  host ≠ "" && host.utf8ByteSize ≤ 253 && (Text.splitAny ['.'] host).all isLabel

/-- The domain the Apps' hosts are under, as it is read. -/
def hostOf (appsHost : String) : String :=
  String.ofList ((Text.trim appsHost).toList.rdropWhile (· == '.'))

def lower (host : String) : String := String.ofList (host.toList.map Char.toLower)

def hostChar (c : Char) : Bool := c.isAlphanum || c == '-' || c == '.'

theorem hostChar_of_isHost {host : String} (h : isHost host = true) {c : Char}
    (hc : c ∈ host.toList) : hostChar c = true := by
  unfold isHost at h
  simp only [Bool.and_eq_true, List.all_eq_true] at h
  by_cases hdot : c = '.'
  · subst hdot
    rfl
  obtain ⟨label, hlabel, hmem⟩ := @Text.mem_splitAny_of_mem ['.'] host c hc (by simpa using hdot)
  have hall := h.2 label hlabel
  unfold isLabel at hall
  simp only [Bool.and_eq_true, List.all_eq_true] at hall
  unfold hostChar
  rw [hall.2 c hmem]
  rfl

theorem hostChar_toLower_ofNat : ∀ n < 128, (Char.ofNat n).isUpper = true →
    hostChar (Char.ofNat n).toLower = true := by decide

theorem hostChar_toLower {c : Char} (h : hostChar c = true) : hostChar c.toLower = true := by
  by_cases hupper : c.isUpper = true
  · have hlt : c.toNat < 128 := by
      have hle : c.val ≤ 'Z'.val := (of_decide_eq_true hupper).2
      have hnat : c.toNat ≤ 90 := UInt32.le_iff_toNat_le.1 hle
      omega
    have hlower := hostChar_toLower_ofNat c.toNat hlt
    rw [Char.ofNat_toNat] at hlower
    exact hlower hupper
  · have hself : c.toLower = c := dif_neg fun hrange => hupper (decide_eq_true hrange)
    rwa [hself]

theorem hostChar_of_mem_lower {host : String} (h : isHost host = true) :
    ∀ c ∈ (lower host).toList, hostChar c = true := by
  intro c hc
  rw [lower, String.toList_ofList] at hc
  obtain ⟨d, hd, rfl⟩ := List.mem_map.1 hc
  exact hostChar_toLower (hostChar_of_isHost h hd)

end FileUrls

/-- The signer of file links. -/
structure FileUrls where
  appsHost : String
  key : List UInt8
  host_ok : ∀ c ∈ appsHost.toList, FileUrls.hostChar c = true

namespace FileUrls

section Links

-- HMAC-SHA256 of a text under a key.
variable (hmac : List UInt8 → List UInt8 → List UInt8)

/-- The signer for a domain, its key derived from the store secret of the shard. -/
def new (appsHost secret : String) : Except String FileUrls :=
  if h : isHost (hostOf appsHost) = true then
    if secret = "" then .error "the store secret is empty"
    else .ok ⟨lower (hostOf appsHost), hmac (bytes secret) (bytes "jc-wasm-host file links v1"),
      hostChar_of_mem_lower h⟩
  else
    .error ("JC_WASM_APPS_HOST is a host name such as apps.example.org, not '" ++ appsHost ++ "'")

/-- What a tag is made of. -/
def signedText (app : Placed) (method key : String) (expires : Int) (length : Option Nat) :
    String :=
  app.id ++ "\n" ++ app.name ++ "\n" ++ method ++ "\n" ++ key ++ "\n" ++ toString expires ++ "\n" ++
    (length.map fun n => toString n).getD ""

variable (urls : FileUrls)

def signature (app : Placed) (method key : String) (expires : Int) (length : Option Nat) :
    List UInt8 :=
  hmac urls.key (bytes (signedText app method key expires length))

/-- The link for a method on a key until a Unix second. -/
def url (app : Placed) (method key : String) (expires : Int) (length : Option Nat) : String :=
  "https://" ++ app.name ++ "." ++ urls.appsHost ++ "/api/" ++ PREFIX ++ encode key true ++
    "?expires=" ++ toString expires ++ (length.map fun n => "&length=" ++ toString n).getD "" ++
    "&signature=" ++ Numeral.hex (urls.signature hmac app method key expires length)

/-- The parameters of a link's query. -/
structure Slots where
  expires : Option String := none
  length : Option String := none
  signature : Option String := none
deriving DecidableEq

/-- A parameter in its slot, which has to be empty. -/
def Slots.replace (slots : Slots) (name value : String) : Option Slots :=
  if name = "expires" then
    if slots.expires = none then some { slots with expires := some value } else none
  else if name = "length" then
    if slots.length = none then some { slots with length := some value } else none
  else if name = "signature" then
    if slots.signature = none then some { slots with signature := some value } else none
  else none

def Slots.add (slots : Slots) (pair : String) : Option Slots :=
  (Text.splitOnce '=' pair).bind fun pair => slots.replace pair.1 pair.2

def slotsOf (query : String) : Option Slots :=
  ((Text.splitAny ['&'] query).filter (· ≠ "")).foldlM Slots.add {}

def i64 (i : Int) : Bool := -2 ^ 63 ≤ i && i < 2 ^ 63

def u64 (n : Nat) : Bool := n < 2 ^ 64

/-- What a request asks for, and the tag it shows. -/
structure Presented where
  key : String
  expires : Int
  length : Option Nat
  signature : List UInt8
deriving DecidableEq

def lengthOf : Option String → Option (Option Nat)
  | none => some none
  | some text => ((Numeral.natOf text).filter u64).map some

def presented (path query : String) : Option Presented := do
  let key ← (Text.fromUtf8 (Url.percentDecode (Text.utf8Bytes path))).filter Blob.checked
  let slots ← slotsOf query
  let expires ← (Numeral.intOf (← slots.expires)).filter i64
  let length ← lengthOf slots.length
  let signature ← Numeral.unhex (← slots.signature).toList
  return ⟨key, expires, length, signature⟩

/-- The key and length a request's link was signed for, or why it is refused. -/
def verify (app : Placed) (method path query : String) (now : Int) : Except String Signed :=
  match presented path query with
  | none => .error INVALID
  | some p =>
    if p.signature ≠ urls.signature hmac app method p.key p.expires p.length then .error INVALID
    else if p.expires < now then .error EXPIRED
    else .ok ⟨p.key, p.length⟩

/-- The path after the prefix and the query of a link. -/
def pathAndQuery (url : String) : Option (String × String) := do
  let (_, path) ← Text.splitOnce '/' (← Text.stripPrefix "https://" url)
  Text.splitOnce '?' (← Text.stripPrefix ("api/" ++ PREFIX) path)

end Links

section Property

/-- What a link is made for. -/
@[ext]
structure Terms where
  app : Placed
  method : String
  key : String
  expires : Int
  length : Option Nat
  key_ok : Blob.checked key = true
  expires_ok : i64 expires = true
  length_ok : ∀ n ∈ length, u64 n = true

namespace Terms

variable (t : Terms)

def text : String := signedText t.app t.method t.key t.expires t.length

/-- What a request with the link is answered at a second. -/
def answer (now : Int) : Except String Signed :=
  if t.expires < now then .error EXPIRED else .ok ⟨t.key, t.length⟩

end Terms

variable (hmac : List UInt8 → List UInt8 → List UInt8) (urls : FileUrls)

/-- A request shows the tag of what it asks for only where a link with that text was made. -/
def Unforged (made : Set Terms) (app : Placed) (method path query : String) : Prop :=
  ∀ p, presented path query = some p →
    p.signature = urls.signature hmac app method p.key p.expires p.length →
      ∃ t ∈ made, t.text = signedText app method p.key p.expires p.length

end Property

section SignedText

variable {app app' : Placed} {method method' key key' : String} {expires expires' : Int}
  {length length' : Option Nat}

theorem notMem_id (app : Placed) : '\n' ∉ app.id.toList := fun h => by
  have hok := app.id_ok
  unfold isId at hok
  simp only [Bool.and_eq_true, List.all_eq_true] at hok
  exact absurd (hok.2 _ h) (by decide)

theorem name_char {c : Char} (h : c ∈ app.name.toList) :
    (c.isLower || c.isDigit || c == '-') = true := by
  have hok := app.name_ok
  unfold isName at hok
  simp only [Bool.and_eq_true, List.all_eq_true] at hok
  exact hok.2 c h

theorem notMem_name (app : Placed) : '\n' ∉ app.name.toList := fun h =>
  absurd (name_char h) (by decide)

theorem notMem_key (h : Blob.checked key = true) : '\n' ∉ key.toList := fun hmem => by
  unfold Blob.checked at h
  simp only [Bool.and_eq_true, Bool.not_eq_true', List.any_eq_false] at h
  exact h.1.2 _ hmem (by decide)

theorem notMem_expires (expires : Int) : '\n' ∉ (toString expires).toList := fun h => by
  rcases Numeral.plain_of_mem_toString_int h with h | h
  · exact absurd h (by decide)
  · cases h

theorem notMem_length (length : Option Nat) :
    '\n' ∉ ((length.map fun n => toString n).getD "").toList := fun h => by
  cases length with
  | none => cases h
  | some n => exact absurd (Numeral.plain_of_mem_toString h) (by decide)

theorem length_inj (h : (length.map fun n => toString n).getD "" =
    (length'.map fun n => toString n).getD "") : length = length' := by
  have hne : ∀ n : Nat, toString n ≠ "" := fun n => Nat.repr_ne_empty
  cases length with
  | none =>
    cases length' with
    | none => rfl
    | some n => exact (hne n h.symm).elim
  | some m =>
    cases length' with
    | none => exact (hne m h).elim
    | some n =>
      have hnat := congrArg Numeral.natOf h
      simp only [Option.map_some, Option.getD_some, Numeral.natOf_toString] at hnat
      exact hnat

theorem toList_signedText : (signedText app method key expires length).toList =
    app.id.toList ++ '\n' :: (app.name.toList ++ '\n' :: (((method.toList ++ '\n' :: key.toList) ++
      '\n' :: (toString expires).toList) ++
        '\n' :: ((length.map fun n => toString n).getD "").toList)) := by
  simp [signedText]

theorem cut_inj {c : Char} {x x' z z' : List Char} (hx : c ∉ x) (hx' : c ∉ x')
    (h : x ++ c :: z = x' ++ c :: z') : x = x' ∧ z = z' := by
  have hcut := congrArg (Url.cut c) h
  rw [Url.cut_append hx, Url.cut_append hx', Prod.mk.injEq, Option.some.injEq] at hcut
  exact hcut

theorem cut_last_inj {c : Char} {x x' z z' : List Char} (hz : c ∉ z) (hz' : c ∉ z')
    (h : x ++ c :: z = x' ++ c :: z') : x = x' ∧ z = z' := by
  have hreverse := congrArg List.reverse h
  simp only [List.reverse_append, List.reverse_cons, List.append_assoc,
    List.singleton_append] at hreverse
  have hcut := cut_inj (by simpa using hz) (by simpa using hz') hreverse
  exact ⟨List.reverse_injective hcut.2, List.reverse_injective hcut.1⟩

/-- No two links share one text: no line but the method's holds a line break. -/
theorem signedText_inj (hkey : Blob.checked key = true) (hkey' : Blob.checked key' = true)
    (h : signedText app method key expires length = signedText app' method' key' expires' length') :
    app = app' ∧ method = method' ∧ key = key' ∧ expires = expires' ∧ length = length' := by
  have hlist := congrArg String.toList h
  rw [toList_signedText, toList_signedText] at hlist
  obtain ⟨hid, hlist⟩ := cut_inj (notMem_id _) (notMem_id _) hlist
  obtain ⟨hname, hlist⟩ := cut_inj (notMem_name _) (notMem_name _) hlist
  obtain ⟨hlist, hlength⟩ := cut_last_inj (notMem_length _) (notMem_length _) hlist
  obtain ⟨hlist, hexpires⟩ := cut_last_inj (notMem_expires _) (notMem_expires _) hlist
  obtain ⟨hmethod, hkey⟩ := cut_last_inj (notMem_key hkey) (notMem_key hkey') hlist
  have hint := congrArg Numeral.intOf (String.toList_inj.1 hexpires)
  rw [Numeral.intOf_toString, Numeral.intOf_toString, Option.some.injEq] at hint
  refine ⟨?_, String.toList_inj.1 hmethod, String.toList_inj.1 hkey, hint,
    length_inj (String.toList_inj.1 hlength)⟩
  cases app
  cases app'
  simp only [Placed.mk.injEq]
  exact ⟨String.toList_inj.1 hname, String.toList_inj.1 hid⟩

end SignedText

section Path

variable {key : String}

theorem plain_of_mem_encodeByte {b : Nat} (hb : b < 256) {c : Char} (hc : c ∈ encodeByte true b) :
    c.toNat < 0x80 ∧ c ≠ '?' := by
  unfold encodeByte at hc
  split_ifs at hc with hslash
  · rw [List.mem_singleton.1 hc]
    decide
  · refine ⟨(Query.plain_of_mem_encodeByte hb hc).1, ?_⟩
    rintro rfl
    unfold Query.encodeByte at hc
    split_ifs at hc with hplain
    · have hnat := congrArg Char.toNat (List.mem_singleton.1 hc)
      rw [Text.toNat_ofNat (Query.lt_of_unreserved hplain)] at hnat
      rw [← hnat] at hplain
      exact absurd hplain (by decide)
    · have hdigit : ∀ n < 16, Url.hexDigit n ≠ '?' := by decide
      simp only [List.mem_cons, List.not_mem_nil, or_false] at hc
      rcases hc with h | h | h
      · cases h
      · exact hdigit _ (by omega) h.symm
      · exact hdigit _ (by omega) h.symm

theorem plain_of_mem_encode {c : Char} (hc : c ∈ (encode key true).toList) :
    c.toNat < 0x80 ∧ c ≠ '?' := by
  rw [encode, String.toList_ofList] at hc
  obtain ⟨b, hb, hc⟩ := List.mem_flatMap.1 hc
  exact plain_of_mem_encodeByte (Text.lt_of_mem_utf8Bytes hb) hc

theorem percentDecode_encodeByte {b : Nat} (hb : b < 256) (rest : List Nat) :
    Url.percentDecode ((encodeByte true b).map Char.toNat ++ rest) =
      b :: Url.percentDecode rest := by
  unfold encodeByte
  split_ifs with hslash
  · rw [hslash.1]
    exact Query.percentDecode_cons (by decide) rest
  · unfold Query.encodeByte
    split_ifs with hplain
    · have hne : b ≠ 0x25 := by
        rintro rfl
        exact absurd hplain (by decide)
      rw [List.map_cons, List.map_nil, List.singleton_append,
        Text.toNat_ofNat (Query.lt_of_unreserved hplain), Query.percentDecode_cons hne]
    · have hvalue : (do return (← Query.hexDigit (Url.hexDigit (b / 16)).toNat) * 16 +
          (← Query.hexDigit (Url.hexDigit (b % 16)).toNat) : Option Nat) = some b := by
        rw [Query.hexDigit_hexDigit (by omega), Query.hexDigit_hexDigit (by omega)]
        show some (b / 16 * 16 + b % 16) = some b
        rw [Nat.div_add_mod']
      show Url.percentDecode (0x25 :: (Url.hexDigit (b / 16)).toNat ::
        (Url.hexDigit (b % 16)).toNat :: rest) = _
      rw [Query.percentDecode_percent, hvalue]

/-- A key is read back from the path of its link. -/
theorem percentDecode_encode (key : String) :
    Url.percentDecode (Text.utf8Bytes (encode key true)) = Text.utf8Bytes key := by
  have hascii : ∀ c ∈ (Text.utf8Bytes key).flatMap (encodeByte true), c.toNat < 0x80 := by
    intro c hc
    have hmem : c ∈ (encode key true).toList := by rwa [encode, String.toList_ofList]
    exact (plain_of_mem_encode hmem).1
  have hbytes : ∀ b ∈ Text.utf8Bytes key, b < 256 := fun b => Text.lt_of_mem_utf8Bytes
  rw [encode, Text.utf8Bytes_ascii hascii]
  generalize Text.utf8Bytes key = bytes at hbytes
  induction bytes with
  | nil => rfl
  | cons b bytes ih =>
    rw [List.forall_mem_cons] at hbytes
    rw [List.flatMap_cons, List.map_append, percentDecode_encodeByte hbytes.1, ih hbytes.2]

end Path

section Parts

variable (hmac : List UInt8 → List UInt8 → List UInt8) (urls : FileUrls)

/-- The query of a link. -/
def queryText (expires : Int) (length : Option Nat) (tag : List UInt8) : String :=
  "expires=" ++ toString expires ++ (length.map fun n => "&length=" ++ toString n).getD "" ++
    "&signature=" ++ Numeral.hex tag

theorem pathAndQuery_url (app : Placed) (method key : String) (expires : Int)
    (length : Option Nat) :
    pathAndQuery (urls.url hmac app method key expires length) = some (encode key true,
      queryText expires length (urls.signature hmac app method key expires length)) := by
  have hhost : '/' ∉ (app.name ++ "." ++ urls.appsHost).toList := fun h => by
    simp only [String.toList_append, List.mem_append] at h
    rcases h with (h | h) | h
    · exact absurd (name_char h) (by decide)
    · exact absurd h (by decide)
    · exact absurd (urls.host_ok _ h) (by decide)
  have hquestion : '?' ∉ (encode key true).toList := fun h =>
    absurd (plain_of_mem_encode h).2 (by simp)
  generalize hquery : queryText expires length (urls.signature hmac app method key expires length) =
    query
  have hurl : urls.url hmac app method key expires length = "https://" ++
      ((app.name ++ "." ++ urls.appsHost) ++ (String.ofList ['/'] ++ (("api/" ++ PREFIX) ++
        (encode key true ++ (String.ofList ['?'] ++ query))))) := by
    have hslash : "/api/" = String.ofList ['/'] ++ "api/" := by decide
    have hmark : "?expires=" = String.ofList ['?'] ++ "expires=" := by decide
    rw [← hquery]
    unfold url queryText
    simp only [hslash, hmark, String.append_assoc]
  have hscheme : ∀ rest, Text.stripPrefix "https://" ("https://" ++ rest) = some rest := fun rest =>
    Text.stripPrefix_eq_some.2 String.toList_append
  have hprefix : ∀ rest, Text.stripPrefix ("api/" ++ PREFIX) (("api/" ++ PREFIX) ++ rest) =
      some rest := fun rest => Text.stripPrefix_eq_some.2 String.toList_append
  unfold pathAndQuery
  simp only [hurl, hscheme, Option.bind_eq_bind, Option.bind_some, hprefix,
    Text.splitOnce_append_append hhost, Text.splitOnce_append_append hquestion]

theorem append_equals_ne (name value : String) : name ++ "=" ++ value ≠ "" := fun h => by
  have hlist := congrArg String.toList h
  rw [String.toList_append, String.toList_append] at hlist
  simp at hlist

/-- The parameters of a link, written and read back. -/
theorem slotsOf_join {expires signature : String} {length : Option String}
    (hexpires : '&' ∉ expires.toList) (hlength : ∀ n ∈ length, '&' ∉ n.toList)
    (hsignature : '&' ∉ signature.toList) :
    slotsOf (Text.join (String.ofList ['&']) ((("expires" ++ "=" ++ expires) ::
      (length.map fun n => "length" ++ "=" ++ n).toList) ++ ["signature" ++ "=" ++ signature])) =
        some ⟨some expires, length, some signature⟩ := by
  have hpair : ∀ name value : String, '&' ∉ name.toList → '&' ∉ value.toList →
      '&' ∉ (name ++ "=" ++ value).toList := by
    intro name value hname hvalue h
    simp only [String.toList_append, List.mem_append] at h
    exact h.elim (fun h => h.elim hname (by decide)) hvalue
  have hall : ∀ part ∈ (("expires" ++ "=" ++ expires) ::
      (length.map fun n => "length" ++ "=" ++ n).toList) ++ ["signature" ++ "=" ++ signature],
      '&' ∉ part.toList ∧ part ≠ "" := by
    intro part hpart
    rw [List.mem_append, List.mem_cons, Option.mem_toList, Option.map_eq_some_iff,
      List.mem_singleton] at hpart
    rcases hpart with (rfl | ⟨n, hn, rfl⟩) | rfl
    · exact ⟨hpair _ _ (by decide) hexpires, append_equals_ne _ _⟩
    · exact ⟨hpair _ _ (by decide) (hlength n hn), append_equals_ne _ _⟩
    · exact ⟨hpair _ _ (by decide) hsignature, append_equals_ne _ _⟩
  have hadd : ∀ (slots : Slots) (name value : String), '=' ∉ name.toList →
      slots.add (name ++ "=" ++ value) = slots.replace name value := by
    intro slots name value hname
    rw [Slots.add, Query.splitOnce_equals hname, Option.bind_some]
  rw [slotsOf, Text.splitAny_join (by simp) fun part hpart => (hall part hpart).1,
    List.filter_eq_self.2 fun part hpart => by simpa using (hall part hpart).2, List.cons_append,
    List.foldlM_cons, hadd _ _ _ (by decide)]
  cases length with
  | none =>
    show (Slots.add _ ("signature" ++ "=" ++ signature)).bind some = _
    rw [hadd _ _ _ (by decide)]
    rfl
  | some n =>
    show ((Slots.add _ ("length" ++ "=" ++ n)).bind fun slots =>
      (slots.add ("signature" ++ "=" ++ signature)).bind some) = _
    rw [hadd _ _ _ (by decide)]
    show (Slots.add _ ("signature" ++ "=" ++ signature)).bind some = _
    rw [hadd _ _ _ (by decide)]
    rfl

theorem queryText_eq (expires : Int) (length : Option Nat) (tag : List UInt8) :
    queryText expires length tag = Text.join (String.ofList ['&'])
      ((("expires" ++ "=" ++ toString expires) ::
        ((length.map fun n => toString n).map fun n => "length" ++ "=" ++ n).toList) ++
          ["signature" ++ "=" ++ Numeral.hex tag]) := by
  have hexpires : "expires=" = "expires" ++ "=" := by decide
  have hlength : "&length=" = String.ofList ['&'] ++ ("length" ++ "=") := by decide
  have hsignature : "&signature=" = String.ofList ['&'] ++ ("signature" ++ "=") := by decide
  unfold queryText
  rw [hexpires, hlength, hsignature]
  cases length with
  | none =>
    show _ = Text.join _ [_, _]
    rw [Text.join_cons_cons, Text.join]
    simp only [Option.map_none, Option.getD_none, String.append_empty, String.append_assoc]
  | some n =>
    show _ = Text.join _ [_, _, _]
    rw [Text.join_cons_cons, Text.join_cons_cons, Text.join]
    simp only [Option.map_some, Option.getD_some, String.append_assoc]

theorem slotsOf_queryText (expires : Int) (length : Option Nat) (tag : List UInt8) :
    slotsOf (queryText expires length tag) =
      some ⟨some (toString expires), length.map fun n => toString n, some (Numeral.hex tag)⟩ := by
  rw [queryText_eq]
  refine slotsOf_join (fun h => ?_) (fun text htext h => ?_) fun h => ?_
  · exact (Numeral.plain_of_mem_toString_int h).elim (fun h => absurd h (by decide)) (by decide)
  · obtain ⟨n, -, rfl⟩ := Option.map_eq_some_iff.1 htext
    exact absurd (Numeral.plain_of_mem_toString h) (by decide)
  · exact absurd (Numeral.plain_of_mem_hex h) (by decide)

/-- What a link asks for is read back from it. -/
theorem presented_link (t : Terms) (tag : List UInt8) :
    presented (encode t.key true) (queryText t.expires t.length tag) =
      some ⟨t.key, t.expires, t.length, tag⟩ := by
  have hkey : (Text.fromUtf8 (Url.percentDecode (Text.utf8Bytes (encode t.key true)))).filter
      Blob.checked = some t.key := by
    rw [percentDecode_encode, Text.fromUtf8_eq_some.2 rfl, Option.filter_some, if_pos t.key_ok]
  have hexpires : (Numeral.intOf (toString t.expires)).filter i64 = some t.expires := by
    rw [Numeral.intOf_toString, Option.filter_some, if_pos t.expires_ok]
  have hlength : lengthOf (t.length.map fun n => toString n) = some t.length := by
    cases hlength : t.length with
    | none => rfl
    | some n =>
      show ((Numeral.natOf (toString n)).filter u64).map some = _
      rw [Numeral.natOf_toString, Option.filter_some, if_pos (t.length_ok n hlength),
        Option.map_some]
  unfold presented
  simp only [hkey, slotsOf_queryText, hexpires, hlength, Numeral.unhex_hex, Option.bind_eq_bind,
    Option.bind_some]
  rfl

/-- A link is answered as it was made. -/
theorem verify_link (t : Terms) (now : Int) :
    urls.verify hmac t.app t.method (encode t.key true) (queryText t.expires t.length
      (urls.signature hmac t.app t.method t.key t.expires t.length)) now = t.answer now := by
  unfold verify Terms.answer
  rw [presented_link]
  simp

variable {hmac urls} {made : Set Terms} {app : Placed} {method path query : String} {now : Int}
  {signed : Signed}

theorem checked_of_presented {p : Presented} (h : presented path query = some p) :
    Blob.checked p.key = true := by
  unfold presented at h
  simp only [Option.bind_eq_bind, Option.bind_eq_some_iff] at h
  obtain ⟨key, hkey, slots, -, text, -, expires, -, length, -, tag, -, signature, -, hp⟩ := h
  cases hp
  exact (Option.filter_eq_some_iff.1 hkey).2

/-- A request that passes is answered as a link that was made is, then and at any other time. -/
theorem made_of_verify (hunforged : urls.Unforged hmac made app method path query)
    (h : urls.verify hmac app method path query now = .ok signed) :
    ∃ t ∈ made, t.app = app ∧ t.method = method ∧ t.key = signed.key ∧ t.length = signed.length ∧
      ∀ later, urls.verify hmac app method path query later = t.answer later := by
  unfold verify at h
  split at h
  · cases h
  · next p hp =>
    split_ifs at h with hsignature hnow
    cases h
    rw [not_not] at hsignature
    obtain ⟨t, ht, htext⟩ := hunforged p hp hsignature
    obtain ⟨happ, hmethod, hkey, hexpires, hlength⟩ :=
      signedText_inj t.key_ok (checked_of_presented hp) htext
    refine ⟨t, ht, happ, hmethod, hkey, hlength, fun later => ?_⟩
    unfold verify Terms.answer
    rw [hp, hkey, hexpires, hlength]
    simp [hsignature]

end Parts

/-- A link opens what it was made for until its expiry, no two links share one text, and a request
that shows no forged tag opens what a link was made for. -/
theorem opens_as_made (hmac : List UInt8 → List UInt8 → List UInt8) (urls : FileUrls)
    (made : Set Terms) (app : Placed) (method path query : String)
    (hunforged : urls.Unforged hmac made app method path query) :
    (∀ t : Terms, ∃ path query,
      pathAndQuery (urls.url hmac t.app t.method t.key t.expires t.length) = some (path, query) ∧
        ∀ now, urls.verify hmac t.app t.method path query now = t.answer now) ∧
      (∀ s t : Terms, s.text = t.text → s = t) ∧
      ∀ now signed, urls.verify hmac app method path query now = .ok signed →
        ∃ t ∈ made, t.app = app ∧ t.method = method ∧ t.key = signed.key ∧
          t.length = signed.length ∧
            ∀ later, urls.verify hmac app method path query later = t.answer later := by
  refine ⟨fun t => ?_, fun s t h => ?_, fun now signed => made_of_verify hunforged⟩
  · exact ⟨_, _, pathAndQuery_url hmac urls _ _ _ _ _, verify_link hmac urls t⟩
  · obtain ⟨happ, hmethod, hkey, hexpires, hlength⟩ := signedText_inj s.key_ok t.key_ok h
    exact Terms.ext happ hmethod hkey hexpires hlength

/-- An upload of four bytes, its link's tag computed with HMAC-SHA256. -/
def upload : Terms :=
  ⟨⟨"reach", "a1", by decide, by decide⟩, "PUT", "up.png", 1000, some 4, by decide, by decide,
    by decide⟩

def uploadKey : List UInt8 :=
  [249, 251, 36, 172, 124, 120, 47, 249, 121, 176, 103, 24, 75, 165, 15, 128, 222, 165, 195, 217,
    36, 123, 120, 121, 15, 71, 193, 50, 151, 254, 178, 44]

def uploadTag : List UInt8 :=
  [119, 230, 64, 7, 76, 222, 195, 81, 80, 224, 142, 158, 246, 130, 155, 129, 78, 90, 233, 147, 45,
    37, 53, 69, 239, 24, 231, 31, 98, 25, 167, 184]

theorem opens_as_made_upload :
    let hmac := fun key text =>
      if key = bytes "secret" ∧ text = bytes "jc-wasm-host file links v1" then uploadKey
      else if key = uploadKey ∧ text = bytes upload.text then uploadTag else []
    ∃ urls, new hmac "apps.dev.example" "secret" = .ok urls ∧
      urls.verify hmac upload.app "PUT" "up.png" ("expires=1000&length=4&signature=" ++
        "77e640074cdec35150e08e9ef6829b814e5ae9932d253545ef18e71f6219a7b8") 1000 =
          .ok ⟨"up.png", some 4⟩ ∧
      ∃ t ∈ ({upload} : Set Terms), t.app = upload.app ∧ t.method = "PUT" ∧ t.key = "up.png" := by
  intro hmac
  have hkey : hmac (bytes "secret") (bytes "jc-wasm-host file links v1") = uploadKey :=
    if_pos ⟨rfl, rfl⟩
  have htag : hmac uploadKey (bytes upload.text) = uploadTag := by
    decide +kernel
  let urls : FileUrls := ⟨"apps.dev.example", uploadKey, List.all_eq_true.1 (by decide)⟩
  have hhost : isHost (hostOf "apps.dev.example") = true := by decide +kernel
  have hlower : lower (hostOf "apps.dev.example") = "apps.dev.example" := by decide +kernel
  have hnew : new hmac "apps.dev.example" "secret" = .ok urls := by
    rw [new, dif_pos hhost, if_neg (by decide)]
    simp only [hlower, hkey]
    rfl
  have hquery : "expires=1000&length=4&signature=" ++
      "77e640074cdec35150e08e9ef6829b814e5ae9932d253545ef18e71f6219a7b8" =
        queryText upload.expires upload.length uploadTag := by
    decide +kernel
  have hpath : "up.png" = encode upload.key true := by decide +kernel
  have hunforged : urls.Unforged hmac {upload} upload.app "PUT" "up.png"
      ("expires=1000&length=4&signature=" ++
        "77e640074cdec35150e08e9ef6829b814e5ae9932d253545ef18e71f6219a7b8") := by
    intro p hp _
    rw [hquery, hpath, presented_link upload uploadTag, Option.some.injEq] at hp
    subst hp
    exact ⟨upload, rfl, rfl⟩
  have hok : urls.verify hmac upload.app "PUT" "up.png" ("expires=1000&length=4&signature=" ++
      "77e640074cdec35150e08e9ef6829b814e5ae9932d253545ef18e71f6219a7b8") 1000 =
        .ok ⟨"up.png", some 4⟩ := by
    have hlink := verify_link hmac urls upload 1000
    rw [show urls.signature hmac upload.app upload.method upload.key upload.expires upload.length =
      uploadTag from htag, ← hquery, ← hpath] at hlink
    exact hlink
  obtain ⟨t, ht, happ, hmethod, hkey, -⟩ :=
    (opens_as_made hmac urls {upload} upload.app "PUT" "up.png" _ hunforged).2.2 1000 _ hok
  exact ⟨urls, hnew, hok, t, ht, happ, hmethod, hkey⟩

end FileUrls

end JoinedContext.WasmHost
