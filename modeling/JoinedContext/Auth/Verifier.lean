import JoinedContext.Auth.Token
import JoinedContext.Library.Assoc
import JoinedContext.Library.Machine
import JoinedContext.Library.Outcome
import Mathlib.Data.Set.Function
import Mathlib.Tactic.Common

/-!
# Verifying a token

A verifier remembers the tokens whose signature it checked, verified and refused apart, until its
keys change; lifetime, audience and revocation are judged on every call. Over any run it accepts
what a verifier that remembers nothing accepts, when each revocation list marks a subject last
where it marks it latest.
-/

namespace JoinedContext.TokenVerifier

open Auth

section Source

/-- The clock skew between the realm and the gateway, in seconds. -/
def LEEWAY : ℕ := 60

def REMEMBERED : ℕ := 4096

def REFUSED : ℕ := 1024

/-- The earliest instant a token may be issued at: one without `iat` counts as issued then. -/
def EARLIEST : ℤ := -2 ^ 63

inductive Rejected where
  | noToken
  | malformed
  | unknownKey
  | badSignature
  | expired
  | wrongIssuer
  | wrongAudience
  | revoked
deriving DecidableEq

/-- The errors of the JWT library that are told apart. -/
inductive ErrorKind where
  | expiredSignature
  | immatureSignature
  | invalidIssuer
  | invalidSignature
  | other

def ErrorKind.rejected : ErrorKind → Rejected
  | .expiredSignature | .immatureSignature => .expired
  | .invalidIssuer => .wrongIssuer
  | .invalidSignature => .badSignature
  | .other => .malformed

abbrev Digest := BitVec 256

inductive AlgorithmParameters where
  | rsa
  | ellipticCurve
  | octetKey
  | octetKeyPair

variable {Key Algorithm : Type}

structure Validation (Algorithm : Type) where
  algorithm : Algorithm
  iss : List String
  validateAud : Bool
  validateExp : Bool
  validateNbf : Bool
  leeway : ℕ

/-- The JWT library: the `kid` a token's header names, and decoding a token at an instant. -/
structure Jwt (Key Algorithm : Type) where
  decodeHeader : String → Option (Option String)
  decode : String → Key → Validation Algorithm → ℕ → Except ErrorKind Claims

/-- A key of a JWKS: the algorithm it names and the decoding key made of it, where they read. -/
structure Jwk (Key Algorithm : Type) where
  keyId : Option String
  parameters : AlgorithmParameters
  keyAlgorithm : Option Algorithm
  decodingKey : Option Key

structure Table (Key Algorithm : Type) where
  keys : List (String × Key × Algorithm) := []
  remembered : List (Digest × Claims) := []
  refused : List (Digest × Rejected) := []

structure Verifier (Key Algorithm : Type) where
  issuer : String
  table : Table Key Algorithm := {}
  revoked : List (String × ℤ) := []

/-- Remembers a value, starting the memo over when it is full. -/
def keep {V : Type} (cap : ℕ) (digest : Digest) (value : V) (memo : List (Digest × V)) :
    List (Digest × V) :=
  Assoc.put digest value (if cap ≤ memo.length then [] else memo)

/-- Claims whose signature verified: still inside their lifetime, and of an audience asked for. -/
def admitClaims (claims : Claims) (audiences : Option (List String)) (now : ℕ) :
    Except Rejected Claims :=
  if claims.exp < now - LEEWAY then .error .expired
  else
    match audiences with
    | some audiences =>
      if !claims.namesAudience audiences then .error .wrongAudience else .ok claims
    | none => .ok claims

def unrevoked (claims : Claims) (revoked : List (String × ℤ)) : Except Rejected Claims :=
  match revoked.lookup claims.sub with
  | some mark => if claims.iat.getD EARLIEST ≤ mark then .error .revoked else .ok claims
  | none => .ok claims

/-- The usable keys of a JWKS: the asymmetric ones that name an algorithm. -/
def keyTable (jwks : List (Jwk Key Algorithm)) : List (String × Key × Algorithm) :=
  jwks.foldl (fun table jwk =>
    match jwk.keyId, jwk.parameters, jwk.keyAlgorithm, jwk.decodingKey with
    | some kid, .rsa, some algorithm, some key
    | some kid, .ellipticCurve, some algorithm, some key => Assoc.put kid (key, algorithm) table
    | _, _, _, _ => table) []

namespace Verifier

variable (jwt : Jwt Key Algorithm) (sha256 : String → Digest) (v : Verifier Key Algorithm)

def replaceRevocations (marks : List (String × ℤ)) : Verifier Key Algorithm :=
  { v with revoked := marks }

def replaceKeys (jwks : List (Jwk Key Algorithm)) : Verifier Key Algorithm :=
  { v with table := { keys := keyTable jwks } }

/-- The signature under the key the token names, the issuer, and the lifetime as of now. -/
def checkSignature (issuer : String) (keys : List (String × Key × Algorithm)) (token : String)
    (now : ℕ) : Except Rejected Claims :=
  match jwt.decodeHeader token with
  | none | some none => .error .malformed
  | some (some kid) =>
    match keys.lookup kid with
    | none => .error .unknownKey
    | some (key, algorithm) =>
      (jwt.decode token key ⟨algorithm, [issuer], false, true, true, LEEWAY⟩ now).mapError
        ErrorKind.rejected

/-- The signature and issuer of a token the table has not verified, remembered either way. -/
def checkOnce (token : String) (now : ℕ) : Table Key Algorithm × Except Rejected Claims :=
  let digest := sha256 token
  match v.table.refused.lookup digest with
  | some rejected => (v.table, .error rejected)
  | none =>
    match checkSignature jwt v.issuer v.table.keys token now with
    | .ok claims =>
      ({ v.table with remembered := keep REMEMBERED digest claims v.table.remembered }, .ok claims)
    | .error rejected =>
      if rejected = .badSignature ∨ rejected = .wrongIssuer then
        ({ v.table with refused := keep REFUSED digest rejected v.table.refused },
          .error rejected)
      else (v.table, .error rejected)

def decode (token : String) (audiences : Option (List String)) (now : ℕ) :
    Verifier Key Algorithm × Except Rejected Claims :=
  match v.table.remembered.lookup (sha256 token) with
  | some claims => (v, admitClaims claims audiences now)
  | none =>
    let checked := v.checkOnce jwt sha256 token now
    ({ v with table := checked.1 }, checked.2.bind (admitClaims · audiences now))

def verify (token : String) (audiences : List String) (now : ℕ) :
    Verifier Key Algorithm × Except Rejected Claims :=
  if audiences.isEmpty then (v, .error .wrongAudience)
  else
    let decoded := v.decode jwt sha256 token (some audiences) now
    (decoded.1, decoded.2.bind (unrevoked · v.revoked))

def identify (token : String) (now : ℕ) : Verifier Key Algorithm × Except Rejected Claims :=
  v.decode jwt sha256 token none now

end Verifier

/-- One entry of the list of revoked subjects. -/
structure Item where
  subject : String
  revokedAt : ℤ

/-- What becomes of a poll. -/
inductive Reply where
  | unsent (error : String)
  | notModified
  | refused (status : String)
  | unreadable (error : String)
  | list (items : List Item) (tag : Option String)

/-- The marks of a list, a subject's last one. -/
def marks (items : List Item) : List (String × ℤ) :=
  items.foldl (fun marks item => Assoc.put item.subject item.revokedAt marks) []

/-- A gateway's verifier, the tag of the list it holds, and the second the clock shows. -/
structure Gateway (Key Algorithm : Type) where
  verifier : Verifier Key Algorithm
  etag : Option String := none
  clock : ℕ := 0

def Gateway.poll (g : Gateway Key Algorithm) :
    Reply → Gateway Key Algorithm × Except String (Option ℕ)
  | .unsent error => (g, .error error)
  | .notModified => (g, .ok none)
  | .refused status => ({ g with etag := none }, .error s!"the Portal answered {status}")
  | .unreadable error =>
    ({ g with etag := none }, .error s!"the revocations are not readable: {error}")
  | .list items tag =>
    ({ g with verifier := g.verifier.replaceRevocations (marks items), etag := tag },
      .ok (some (marks items).length))

end Source

section Runs

variable {Key Algorithm : Type}

/-- What a signature vouches for. -/
structure Payload where
  claims : Claims
  iss : String
  nbf : Option ℤ := none

/-- The documented behaviour of the JWT library, by what the signatures vouch for: the lifetime
and the issuer are checked, and its errors of these two kinds do not depend on the clock. -/
structure Jwt.Documented (jwt : Jwt Key Algorithm)
    (signed : String → Key → Algorithm → Option Payload) : Prop where
  decodes : ∀ token key algorithm iss leeway now claims,
    jwt.decode token key ⟨algorithm, iss, false, true, true, leeway⟩ now = .ok claims ↔
      ∃ payload, signed token key algorithm = some payload ∧ payload.claims = claims ∧
        payload.iss ∈ iss ∧ (now : ℤ) - leeway ≤ claims.exp ∧
        ∀ nbf, payload.nbf = some nbf → nbf ≤ now + leeway
  invalidSignature : ∀ token key validation now,
    jwt.decode token key validation now = .error .invalidSignature →
      signed token key validation.algorithm = none
  invalidIssuer : ∀ token key validation now,
    jwt.decode token key validation now = .error .invalidIssuer →
      ∀ payload, signed token key validation.algorithm = some payload →
        payload.iss ∉ validation.iss

inductive Op (Key Algorithm : Type) where
  | verify (token : String) (audiences : List String)
  | identify (token : String)
  | replaceKeys (jwks : List (Jwk Key Algorithm))
  | poll (reply : Reply)
  | wait (seconds : ℕ)

def Op.token : Op Key Algorithm → Option String
  | .verify token _ | .identify token => some token
  | _ => none

/-- Whether two tokens of a run have one digest only when they are one token. -/
def NoCollision (sha256 : String → Digest) (ops : List (Op Key Algorithm)) : Prop :=
  Set.InjOn sha256 {token | ∃ op ∈ ops, op.token = some token}

namespace Gateway

variable (jwt : Jwt Key Algorithm) (sha256 : String → Digest) (g : Gateway Key Algorithm)

def start (issuer : String) (clock : ℕ) : Gateway Key Algorithm :=
  { verifier := { issuer := issuer }, clock := clock }

def step : Op Key Algorithm → Gateway Key Algorithm
  | .verify token audiences =>
    { g with verifier := (g.verifier.verify jwt sha256 token audiences g.clock).1 }
  | .identify token => { g with verifier := (g.verifier.identify jwt sha256 token g.clock).1 }
  | .replaceKeys jwks => { g with verifier := g.verifier.replaceKeys jwks }
  | .poll reply => (g.poll reply).1
  | .wait seconds => { g with clock := g.clock + seconds }

/-- The claims an operation accepts, if it is a call that accepts its token. -/
def accepts : Op Key Algorithm → Option Claims
  | .verify token audiences =>
    (g.verifier.verify jwt sha256 token audiences g.clock).2.toOption
  | .identify token => (g.verifier.identify jwt sha256 token g.clock).2.toOption
  | _ => none

end Gateway

/-- A verifier that remembers nothing, with the keys and the list it last got. -/
structure Forgetful (Key Algorithm : Type) where
  issuer : String
  keys : List (String × Key × Algorithm) := []
  items : List Item := []
  clock : ℕ := 0

namespace Forgetful

variable (jwt : Jwt Key Algorithm) (f : Forgetful Key Algorithm)

/-- Whether the list marks a subject at or after its token's issue. -/
def marked (claims : Claims) : Bool :=
  f.items.any fun item => item.subject = claims.sub ∧ claims.iat.getD EARLIEST ≤ item.revokedAt

def identify (token : String) : Except Rejected Claims :=
  (Verifier.checkSignature jwt f.issuer f.keys token f.clock).bind (admitClaims · none f.clock)

def verify (token : String) (audiences : List String) : Except Rejected Claims :=
  if audiences.isEmpty then .error .wrongAudience
  else
    ((Verifier.checkSignature jwt f.issuer f.keys token f.clock).bind
      (admitClaims · (some audiences) f.clock)).bind fun claims =>
        if f.marked claims then .error .revoked else .ok claims

def step : Op Key Algorithm → Forgetful Key Algorithm
  | .replaceKeys jwks => { f with keys := keyTable jwks }
  | .poll (.list items _) => { f with items := items }
  | .wait seconds => { f with clock := f.clock + seconds }
  | _ => f

def accepts : Op Key Algorithm → Option Claims
  | .verify token audiences => (f.verify jwt token audiences).toOption
  | .identify token => (f.identify jwt token).toOption
  | _ => none

end Forgetful

/-- Whether every call of a run is accepted just when a verifier that remembers nothing accepts
it, with the same claims. -/
def ChangesNoVerdict (jwt : Jwt Key Algorithm) (sha256 : String → Digest) (issuer : String)
    (clock : ℕ) (ops : List (Op Key Algorithm)) : Prop :=
  Machine.outputs (Gateway.step jwt sha256) (Gateway.accepts jwt sha256)
      (Gateway.start issuer clock) ops =
    Machine.outputs Forgetful.step (Forgetful.accepts jwt)
      { issuer := issuer, clock := clock } ops

/-- Whether a list marks each subject latest where it marks it last. -/
def LatestLast (items : List Item) : Prop :=
  ∀ item ∈ items, ∀ last,
    (items.filter fun other => other.subject = item.subject).getLast? = some last →
      item.revokedAt ≤ last.revokedAt

end Runs

section Spec

variable {Key Algorithm : Type} {jwt : Jwt Key Algorithm}
  {signed : String → Key → Algorithm → Option Payload} {issuer token : String}
  {keys : List (String × Key × Algorithm)} {now later : ℕ} {claims claims' : Claims}
  {audiences : Option (List String)}

theorem lookup_keep {V : Type} {cap : ℕ} {d d' : Digest} {value value' : V}
    {memo : List (Digest × V)} (h : (keep cap d value memo).lookup d' = some value') :
    d' = d ∧ value' = value ∨ memo.lookup d' = some value' := by
  rw [keep, Assoc.lookup_put] at h
  split_ifs at h with hd hcap
  · exact .inl ⟨hd, (Option.some.inj h).symm⟩
  · cases h
  · exact .inr h

theorem admitClaims_eq_ok : admitClaims claims audiences now = .ok claims' ↔
    claims = claims' ∧ (now : ℤ) - LEEWAY ≤ claims.exp ∧
      ∀ l, audiences = some l → claims.namesAudience l := by
  unfold admitClaims
  split_ifs with hexp
  · simp only [false_iff]
    rintro ⟨-, h, -⟩
    omega
  · rcases audiences with _ | l
    · simp only [Except.ok.injEq, reduceCtorEq, false_implies, implies_true, and_true, iff_self_and]
      omega
    · by_cases haud : claims.namesAudience l
      · simp only [haud, Bool.not_true, Bool.false_eq_true, ↓reduceIte, Except.ok.injEq,
          Option.some.injEq, iff_self_and]
        rintro -
        exact ⟨by omega, fun _ h => h ▸ haud⟩
      · simp [haud]

/-- What a key vouches for, when it is the one the token names and the token is the realm's. -/
def Vouched (jwt : Jwt Key Algorithm) (signed : String → Key → Algorithm → Option Payload)
    (issuer : String) (keys : List (String × Key × Algorithm)) (token : String)
    (payload : Payload) : Prop :=
  ∃ kid key algorithm, jwt.decodeHeader token = some (some kid) ∧
    keys.lookup kid = some (key, algorithm) ∧ signed token key algorithm = some payload ∧
    payload.iss = issuer

theorem checkSignature_of_key {kid : String} {key : Key} {algorithm : Algorithm}
    (hkid : jwt.decodeHeader token = some (some kid))
    (hkey : keys.lookup kid = some (key, algorithm)) :
    Verifier.checkSignature jwt issuer keys token now =
      (jwt.decode token key ⟨algorithm, [issuer], false, true, true, LEEWAY⟩ now).mapError
        ErrorKind.rejected := by
  simp only [Verifier.checkSignature, hkid, hkey]

/-- A token gets past `checkSignature` by a key it names, or fails there whatever the clock. -/
theorem checkSignature_cases (jwt : Jwt Key Algorithm)
    (signed : String → Key → Algorithm → Option Payload) (issuer : String)
    (keys : List (String × Key × Algorithm)) (token : String) :
    (∃ kid key algorithm, jwt.decodeHeader token = some (some kid) ∧
      keys.lookup kid = some (key, algorithm)) ∨
    (∃ rejected, ∀ now, Verifier.checkSignature jwt issuer keys token now = .error rejected) ∧
      ∀ payload, ¬ Vouched jwt signed issuer keys token payload := by
  rcases hheader : jwt.decodeHeader token with _ | _ | kid
  · refine .inr ⟨⟨.malformed, fun now => ?_⟩, ?_⟩
    · simp only [Verifier.checkSignature, hheader]
    · rintro payload ⟨kid, _, _, hkid, -⟩
      simp [hheader] at hkid
  · refine .inr ⟨⟨.malformed, fun now => ?_⟩, ?_⟩
    · simp only [Verifier.checkSignature, hheader]
    · rintro payload ⟨kid, _, _, hkid, -⟩
      simp [hheader] at hkid
  · rcases hkey : keys.lookup kid with _ | ⟨key, algorithm⟩
    · refine .inr ⟨⟨.unknownKey, fun now => ?_⟩, ?_⟩
      · simp only [Verifier.checkSignature, hheader, hkey]
      · rintro payload ⟨kid', key, algorithm, hkid, hkey', -⟩
        obtain rfl : kid = kid' := by simpa [hheader] using hkid
        simp [hkey] at hkey'
    · exact .inl ⟨kid, key, algorithm, rfl, hkey⟩

theorem vouched_iff_of_key {kid : String} {key : Key} {algorithm : Algorithm} {payload : Payload}
    (hkid : jwt.decodeHeader token = some (some kid))
    (hkey : keys.lookup kid = some (key, algorithm)) :
    Vouched jwt signed issuer keys token payload ↔
      signed token key algorithm = some payload ∧ payload.iss = issuer := by
  constructor
  · rintro ⟨kid', key', algorithm', hkid', hkey', h⟩
    obtain rfl : kid = kid' := by simpa [hkid] using hkid'
    obtain ⟨rfl, rfl⟩ : key = key' ∧ algorithm = algorithm' := by simpa [hkey] using hkey'
    exact h
  · intro h
    exact ⟨kid, key, algorithm, hkid, hkey, h⟩

theorem Vouched.unique {payload payload' : Payload}
    (h : Vouched jwt signed issuer keys token payload)
    (h' : Vouched jwt signed issuer keys token payload') : payload = payload' := by
  obtain ⟨kid, key, algorithm, hkid, hkey, hsigned, -⟩ := h
  exact Option.some.inj (hsigned.symm.trans ((vouched_iff_of_key hkid hkey).1 h').1)

theorem checkSignature_eq_ok (hdoc : jwt.Documented signed) :
    Verifier.checkSignature jwt issuer keys token now = .ok claims ↔
      ∃ payload, Vouched jwt signed issuer keys token payload ∧ payload.claims = claims ∧
        (now : ℤ) - LEEWAY ≤ claims.exp ∧ ∀ nbf, payload.nbf = some nbf → nbf ≤ now + LEEWAY := by
  rcases checkSignature_cases jwt signed issuer keys token with ⟨kid, key, algorithm, hkid, hkey⟩ | ⟨⟨r, hr⟩, hnot⟩
  · simp only [checkSignature_of_key hkid hkey, mapError_eq_ok, hdoc.decodes,
      vouched_iff_of_key hkid hkey, List.mem_singleton]
    constructor
    · rintro ⟨payload, hsigned, hclaims, hiss, hlife⟩
      exact ⟨payload, ⟨hsigned, hiss⟩, hclaims, hlife⟩
    · rintro ⟨payload, ⟨hsigned, hiss⟩, hclaims, hlife⟩
      exact ⟨payload, hsigned, hclaims, hiss, hlife⟩
  · rw [hr]
    simp [hnot]

/-- A signature or an issuer that is refused once is refused whenever the keys are the same. -/
theorem not_vouched_of_refused {rejected : Rejected} (hdoc : jwt.Documented signed)
    (hrejected : rejected = .badSignature ∨ rejected = .wrongIssuer)
    (h : Verifier.checkSignature jwt issuer keys token now = .error rejected) (payload : Payload) :
    ¬ Vouched jwt signed issuer keys token payload := by
  rcases checkSignature_cases jwt signed issuer keys token with ⟨kid, key, algorithm, hkid, hkey⟩ | ⟨-, hnot⟩
  · rw [vouched_iff_of_key hkid hkey]
    rintro ⟨hsigned, hiss⟩
    rw [checkSignature_of_key hkid hkey] at h
    rcases hdecode : jwt.decode token key ⟨algorithm, [issuer], false, true, true, LEEWAY⟩ now
      with kind | decoded
    · rw [hdecode] at h
      have hkind : kind.rejected = rejected := Except.error.inj h
      cases kind with
      | invalidSignature =>
        exact absurd ((hdoc.invalidSignature _ _ _ _ hdecode).symm.trans hsigned) (by simp)
      | invalidIssuer =>
        exact hdoc.invalidIssuer _ _ _ _ hdecode payload hsigned (List.mem_singleton.2 hiss)
      | _ => subst hkind; revert hrejected; decide
    · rw [hdecode] at h
      cases h
  · exact hnot payload

/-- A token verified earlier under the same keys is admitted just when it is verified again. -/
theorem admitClaims_of_checked (hdoc : jwt.Documented signed) (hle : now ≤ later)
    (h : Verifier.checkSignature jwt issuer keys token now = .ok claims) :
    admitClaims claims audiences later = .ok claims' ↔
      (Verifier.checkSignature jwt issuer keys token later).bind (admitClaims · audiences later) =
        .ok claims' := by
  obtain ⟨payload, hvouched, rfl, -, hnbf⟩ := (checkSignature_eq_ok hdoc).1 h
  have hlater : ∀ nbf, payload.nbf = some nbf → nbf ≤ (later : ℤ) + LEEWAY := fun nbf hp => by
    have := hnbf nbf hp
    omega
  have hsame {claims''} (h'' : Verifier.checkSignature jwt issuer keys token later =
      .ok claims'') : claims'' = payload.claims := by
    obtain ⟨payload', hvouched', rfl, -⟩ := (checkSignature_eq_ok hdoc).1 h''
    rw [hvouched.unique hvouched']
  constructor
  · intro hadmit
    have hexp := (admitClaims_eq_ok.1 hadmit).2.1
    exact bind_eq_ok.2 ⟨_, (checkSignature_eq_ok hdoc).2 ⟨payload, hvouched, rfl, hexp, hlater⟩,
      hadmit⟩
  · intro hbind
    obtain ⟨claims'', hchecked, hadmit⟩ := bind_eq_ok.1 hbind
    exact hsame hchecked ▸ hadmit

end Spec

section Refinement

variable {Key Algorithm : Type} {jwt : Jwt Key Algorithm} {sha256 : String → Digest}
  {signed : String → Key → Algorithm → Option Payload} {tokens : Set String}
  {g : Gateway Key Algorithm} {f : Forgetful Key Algorithm} {token : String}

/-- What the two memos of a table hold: verdicts on tokens of the run under the table's keys. -/
structure Table.Sound (jwt : Jwt Key Algorithm) (sha256 : String → Digest)
    (signed : String → Key → Algorithm → Option Payload) (tokens : Set String) (issuer : String)
    (now : ℕ) (table : Table Key Algorithm) : Prop where
  remembered : ∀ digest claims, table.remembered.lookup digest = some claims →
    ∃ token ∈ tokens, sha256 token = digest ∧ ∃ earlier ≤ now,
      Verifier.checkSignature jwt issuer table.keys token earlier = .ok claims
  refused : ∀ digest rejected, table.refused.lookup digest = some rejected →
    ∃ token ∈ tokens, sha256 token = digest ∧
      ∀ payload, ¬ Vouched jwt signed issuer table.keys token payload

/-- Whether a gateway and a verifier that remembers nothing hold the same keys and the same marks. -/
structure Follows (jwt : Jwt Key Algorithm) (sha256 : String → Digest)
    (signed : String → Key → Algorithm → Option Payload) (tokens : Set String)
    (g : Gateway Key Algorithm) (f : Forgetful Key Algorithm) : Prop where
  issuer : g.verifier.issuer = f.issuer
  keys : g.verifier.table.keys = f.keys
  clock : g.clock = f.clock
  sound : g.verifier.table.Sound jwt sha256 signed tokens g.verifier.issuer g.clock
  unrevoked : ∀ claims, (unrevoked claims g.verifier.revoked).toOption =
    (if f.marked claims then none else some claims)

namespace Table.Sound

variable {issuer : String} {now later : ℕ} {table : Table Key Algorithm}

theorem mono (h : table.Sound jwt sha256 signed tokens issuer now) (hle : now ≤ later) :
    table.Sound jwt sha256 signed tokens issuer later where
  remembered digest claims hlookup := by
    obtain ⟨token, hmem, hdigest, earlier, hearlier, hok⟩ := h.remembered digest claims hlookup
    exact ⟨token, hmem, hdigest, earlier, by omega, hok⟩
  refused := h.refused

/-- What is remembered of a token is its own verdict, where no other token has its digest. -/
theorem remembered_token (h : table.Sound jwt sha256 signed tokens issuer now)
    (hinj : Set.InjOn sha256 tokens) (htoken : token ∈ tokens) {claims : Claims}
    (hlookup : table.remembered.lookup (sha256 token) = some claims) :
    ∃ earlier ≤ now,
      Verifier.checkSignature jwt issuer table.keys token earlier = .ok claims := by
  obtain ⟨token', hmem, hdigest, hok⟩ := h.remembered _ _ hlookup
  obtain rfl := hinj hmem htoken hdigest
  exact hok

theorem refused_token (h : table.Sound jwt sha256 signed tokens issuer now)
    (hinj : Set.InjOn sha256 tokens) (htoken : token ∈ tokens) {rejected : Rejected}
    (hlookup : table.refused.lookup (sha256 token) = some rejected) (payload : Payload) :
    ¬ Vouched jwt signed issuer table.keys token payload := by
  obtain ⟨token', hmem, hdigest, hnot⟩ := h.refused _ _ hlookup
  obtain rfl := hinj hmem htoken hdigest
  exact hnot payload

end Table.Sound

/-- Whether a call leaves a verifier with sound memos and answers as a check without them. -/
structure AnswersAs (jwt : Jwt Key Algorithm) (sha256 : String → Digest)
    (signed : String → Key → Algorithm → Option Payload) (tokens : Set String) (now : ℕ)
    (v : Verifier Key Algorithm) (called : Verifier Key Algorithm × Except Rejected Claims)
    (plain : Except Rejected Claims) : Prop where
  issuer : called.1.issuer = v.issuer
  revoked : called.1.revoked = v.revoked
  keys : called.1.table.keys = v.table.keys
  sound : called.1.table.Sound jwt sha256 signed tokens v.issuer now
  answer : called.2.toOption = plain.toOption

section Calls

variable {v : Verifier Key Algorithm} {now : ℕ} (hdoc : jwt.Documented signed)
  (hinj : Set.InjOn sha256 tokens) (htoken : token ∈ tokens)
  (h : v.table.Sound jwt sha256 signed tokens v.issuer now)

include hdoc hinj htoken h

theorem checkOnce_answers : AnswersAs jwt sha256 signed tokens now v
    ({ v with table := (v.checkOnce jwt sha256 token now).1 },
      (v.checkOnce jwt sha256 token now).2)
    (Verifier.checkSignature jwt v.issuer v.table.keys token now) := by
  unfold Verifier.checkOnce
  rcases hrefused : v.table.refused.lookup (sha256 token) with _ | rejected
  · rcases hcheck : Verifier.checkSignature jwt v.issuer v.table.keys token now
      with rejected | claims
    · simp only [hrefused]
      split_ifs with hkind
      · refine ⟨rfl, rfl, rfl, ⟨h.remembered, fun digest rejected' hlookup => ?_⟩, rfl⟩
        rcases lookup_keep hlookup with ⟨rfl, rfl⟩ | hlookup
        · exact ⟨token, htoken, rfl, not_vouched_of_refused hdoc hkind hcheck⟩
        · exact h.refused digest rejected' hlookup
      · exact ⟨rfl, rfl, rfl, h, rfl⟩
    · simp only [hrefused]
      refine ⟨rfl, rfl, rfl, ⟨fun digest claims' hlookup => ?_, h.refused⟩, rfl⟩
      rcases lookup_keep hlookup with ⟨rfl, rfl⟩ | hlookup
      · exact ⟨token, htoken, rfl, now, le_rfl, hcheck⟩
      · exact h.remembered digest claims' hlookup
  · simp only [hrefused]
    refine ⟨rfl, rfl, rfl, h, ?_⟩
    rcases hcheck : Verifier.checkSignature jwt v.issuer v.table.keys token now
      with rejected' | claims
    · rfl
    · obtain ⟨payload, hvouched, -⟩ := (checkSignature_eq_ok hdoc).1 hcheck
      exact absurd hvouched (h.refused_token hinj htoken hrefused payload)

theorem decode_answers (audiences : Option (List String)) : AnswersAs jwt sha256 signed tokens now v
    (v.decode jwt sha256 token audiences now)
    ((Verifier.checkSignature jwt v.issuer v.table.keys token now).bind
      (admitClaims · audiences now)) := by
  unfold Verifier.decode
  rcases hknown : v.table.remembered.lookup (sha256 token) with _ | claims
  · have hcheck := checkOnce_answers hdoc hinj htoken h
    refine ⟨rfl, rfl, hcheck.keys, hcheck.sound, ?_⟩
    rw [toOption_bind, toOption_bind, hcheck.answer]
  · obtain ⟨earlier, hearlier, hok⟩ := h.remembered_token hinj htoken hknown
    refine ⟨rfl, rfl, rfl, h, Option.ext fun claims' => ?_⟩
    rw [toOption_eq_some, toOption_eq_some]
    exact admitClaims_of_checked hdoc hearlier hok

end Calls

/-- The last mark of a subject stands for all of them, where it is the latest one. -/
theorem lookup_marks {items : List Item} (hlatest : LatestLast items) {subject : String}
    {issued : ℤ} :
    (∃ mark, (marks items).lookup subject = some mark ∧ issued ≤ mark) ↔
      ∃ item ∈ items, item.subject = subject ∧ issued ≤ item.revokedAt := by
  have hlookup : (marks items).lookup subject =
      (items.filter fun other => other.subject = subject).getLast?.map Item.revokedAt :=
    (Assoc.lookup_foldl_put items []).trans (by simp)
  rw [hlookup]
  constructor
  · rintro ⟨mark, hmark, hissued⟩
    obtain ⟨item, hlast, rfl⟩ := Option.map_eq_some_iff.1 hmark
    obtain ⟨hmem, hsubject⟩ := List.mem_filter.1 (List.mem_of_getLast? hlast)
    exact ⟨item, hmem, by simpa using hsubject, hissued⟩
  · rintro ⟨item, hmem, rfl, hissued⟩
    have hne : (items.filter fun other => other.subject = item.subject) ≠ [] :=
      List.ne_nil_of_mem (List.mem_filter.2 ⟨hmem, by simp⟩)
    have hlast := List.getLast?_eq_some_getLast hne
    refine ⟨_, congrArg (Option.map Item.revokedAt) hlast, ?_⟩
    have := hlatest item hmem _ hlast
    omega

theorem unrevoked_toOption {claims : Claims} {revoked : List (String × ℤ)} :
    (unrevoked claims revoked).toOption =
      if ∃ mark, revoked.lookup claims.sub = some mark ∧ claims.iat.getD EARLIEST ≤ mark then none
      else some claims := by
  unfold unrevoked
  rcases revoked.lookup claims.sub with _ | mark
  · simp [Except.toOption]
  · by_cases hmark : claims.iat.getD EARLIEST ≤ mark <;> simp [hmark, Except.toOption]

namespace Follows

variable (hdoc : jwt.Documented signed) (hinj : Set.InjOn sha256 tokens)

theorem start (issuer : String) (clock : ℕ) : Follows jwt sha256 signed tokens
    (Gateway.start issuer clock) { issuer := issuer, clock := clock } where
  issuer := rfl
  keys := rfl
  clock := rfl
  sound := ⟨by simp [Gateway.start], by simp [Gateway.start]⟩
  unrevoked claims := rfl

/-- A call keeps a gateway at what the verifier that remembers nothing holds. -/
theorem call (h : Follows jwt sha256 signed tokens g f)
    {called : Verifier Key Algorithm × Except Rejected Claims} {plain : Except Rejected Claims}
    (hcall : AnswersAs jwt sha256 signed tokens g.clock g.verifier called plain) :
    Follows jwt sha256 signed tokens { g with verifier := called.1 } f where
  issuer := hcall.issuer.trans h.issuer
  keys := hcall.keys.trans h.keys
  clock := h.clock
  sound := by
    have hsound := hcall.sound
    rwa [← hcall.issuer] at hsound
  unrevoked claims := by
    show (TokenVerifier.unrevoked claims called.1.revoked).toOption = _
    rw [hcall.revoked, h.unrevoked]

include hdoc hinj

theorem identify (h : Follows jwt sha256 signed tokens g f) (htoken : token ∈ tokens) :
    AnswersAs jwt sha256 signed tokens g.clock g.verifier
      (g.verifier.identify jwt sha256 token g.clock) (f.identify jwt token) := by
  rw [Forgetful.identify, ← h.issuer, ← h.keys, ← h.clock]
  exact decode_answers hdoc hinj htoken h.sound none

theorem verify (h : Follows jwt sha256 signed tokens g f) (htoken : token ∈ tokens)
    (audiences : List String) :
    AnswersAs jwt sha256 signed tokens g.clock g.verifier
      (g.verifier.verify jwt sha256 token audiences g.clock) (f.verify jwt token audiences) := by
  unfold Verifier.verify Forgetful.verify
  split_ifs with hempty
  · exact ⟨rfl, rfl, rfl, h.sound, rfl⟩
  · have hdecode := decode_answers hdoc hinj htoken h.sound (some audiences)
    refine ⟨hdecode.issuer, hdecode.revoked, hdecode.keys, hdecode.sound, ?_⟩
    rw [toOption_bind, toOption_bind, hdecode.answer, h.issuer, h.keys, h.clock]
    refine congrArg (Option.bind _) (funext fun claims => ?_)
    rw [h.unrevoked]
    split_ifs <;> rfl

end Follows

theorem step_follows (hdoc : jwt.Documented signed) (hinj : Set.InjOn sha256 tokens)
    (h : Follows jwt sha256 signed tokens g f) {op : Op Key Algorithm}
    (htoken : ∀ token, op.token = some token → token ∈ tokens)
    (hlatest : ∀ items tag, op = .poll (.list items tag) → LatestLast items) :
    Follows jwt sha256 signed tokens (g.step jwt sha256 op) (f.step op) := by
  cases op with
  | verify token audiences => exact h.call (h.verify hdoc hinj (htoken token rfl) audiences)
  | identify token => exact h.call (h.identify hdoc hinj (htoken token rfl))
  | replaceKeys jwks =>
    exact ⟨h.issuer, rfl, h.clock, ⟨by simp [Gateway.step, Verifier.replaceKeys],
      by simp [Gateway.step, Verifier.replaceKeys]⟩, h.unrevoked⟩
  | wait seconds =>
    exact ⟨h.issuer, h.keys, congrArg (· + seconds) h.clock, h.sound.mono (Nat.le_add_right _ _),
      h.unrevoked⟩
  | poll reply =>
    cases reply with
    | list items tag =>
      refine ⟨h.issuer, h.keys, h.clock, h.sound, fun claims => ?_⟩
      have hmarked : (f.step (.poll (.list items tag) : Op Key Algorithm)).marked claims = true ↔
          ∃ item ∈ items, item.subject = claims.sub ∧
            claims.iat.getD EARLIEST ≤ item.revokedAt := by
        simp [Forgetful.step, Forgetful.marked]
      rw [unrevoked_toOption, ite_cond_congr (propext hmarked)]
      exact ite_cond_congr (propext (lookup_marks (hlatest items tag rfl)))
    | _ => exact ⟨h.issuer, h.keys, h.clock, h.sound, h.unrevoked⟩

theorem accepts_follows (hdoc : jwt.Documented signed) (hinj : Set.InjOn sha256 tokens)
    (h : Follows jwt sha256 signed tokens g f) {op : Op Key Algorithm}
    (htoken : ∀ token, op.token = some token → token ∈ tokens) :
    g.accepts jwt sha256 op = f.accepts jwt op := by
  cases op with
  | verify token audiences => exact (h.verify hdoc hinj (htoken token rfl) audiences).answer
  | identify token => exact (h.identify hdoc hinj (htoken token rfl)).answer
  | _ => rfl

theorem outputs_follow (hdoc : jwt.Documented signed) (hinj : Set.InjOn sha256 tokens) :
    ∀ {ops : List (Op Key Algorithm)} {g : Gateway Key Algorithm} {f : Forgetful Key Algorithm},
      Follows jwt sha256 signed tokens g f →
      (∀ op ∈ ops, ∀ token, op.token = some token → token ∈ tokens) →
      (∀ op ∈ ops, ∀ items tag, op = .poll (.list items tag) → LatestLast items) →
      Machine.outputs (Gateway.step jwt sha256) (Gateway.accepts jwt sha256) g ops =
        Machine.outputs Forgetful.step (Forgetful.accepts jwt) f ops
  | [], _, _, _, _, _ => rfl
  | op :: ops, g, f, h, htokens, hlatest => by
    rw [List.forall_mem_cons] at htokens hlatest
    rw [Machine.outputs, Machine.outputs, accepts_follows hdoc hinj h htokens.1,
      outputs_follow hdoc hinj (step_follows hdoc hinj h htokens.1 hlatest.1) htokens.2 hlatest.2]

theorem changesNoVerdict_of_latestLast (hdoc : jwt.Documented signed) (issuer : String)
    (clock : ℕ) {ops : List (Op Key Algorithm)} (hinj : NoCollision sha256 ops)
    (hlatest : ∀ items tag, .poll (.list items tag) ∈ ops → LatestLast items) :
    ChangesNoVerdict jwt sha256 issuer clock ops :=
  outputs_follow hdoc hinj (Follows.start issuer clock)
    (fun op hop _ htoken => ⟨op, hop, htoken⟩)
    fun _ hop items tag heq => hlatest items tag (heq ▸ hop)

/-- What the verifier that remembers nothing accepts: a token a present key vouches for, inside its
lifetime, of an audience asked for, whose subject has no mark at or after the issue. -/
theorem Forgetful.verify_eq_ok (hdoc : jwt.Documented signed) {audiences : List String}
    {claims : Claims} : f.verify jwt token audiences = .ok claims ↔
      (∃ payload, Vouched jwt signed f.issuer f.keys token payload ∧ payload.claims = claims ∧
        ∀ nbf, payload.nbf = some nbf → nbf ≤ f.clock + LEEWAY) ∧
      (f.clock : ℤ) - LEEWAY ≤ claims.exp ∧ claims.namesAudience audiences ∧
      ∀ item ∈ f.items, item.subject = claims.sub →
        item.revokedAt < claims.iat.getD EARLIEST := by
  have hmarked : f.marked claims = false ↔ ∀ item ∈ f.items, item.subject = claims.sub →
      item.revokedAt < claims.iat.getD EARLIEST := by
    simp [Forgetful.marked]
  unfold Forgetful.verify
  rcases audiences with _ | ⟨audience, audiences⟩
  · simp [Claims.namesAudience]
  · rw [← hmarked, List.isEmpty_cons, if_neg (by decide)]
    constructor
    · intro h
      obtain ⟨claims', h, hlist⟩ := bind_eq_ok.1 h
      obtain ⟨claims'', hcheck, hadmit⟩ := bind_eq_ok.1 h
      obtain ⟨rfl, hexp, haud⟩ := admitClaims_eq_ok.1 hadmit
      obtain ⟨payload, hvouched, hclaims, -, hnbf⟩ := (checkSignature_eq_ok hdoc).1 hcheck
      split_ifs at hlist with hmark
      cases hlist
      exact ⟨⟨payload, hvouched, hclaims, hnbf⟩, hexp, haud _ rfl, by simpa using hmark⟩
    · rintro ⟨⟨payload, hvouched, hclaims, hnbf⟩, hexp, haud, hmark⟩
      refine bind_eq_ok.2 ⟨claims, bind_eq_ok.2 ⟨claims,
        (checkSignature_eq_ok hdoc).2 ⟨payload, hvouched, hclaims, hexp, hnbf⟩,
        admitClaims_eq_ok.2 ⟨rfl, hexp, ?_⟩⟩, by rw [hmark]; rfl⟩
      rintro _ ⟨⟩
      exact haud

end Refinement

section Example

/-- A library that decodes what the signatures vouch for. -/
def Jwt.ofSigned {Key Algorithm : Type} (decodeHeader : String → Option (Option String))
    (signed : String → Key → Algorithm → Option Payload) : Jwt Key Algorithm where
  decodeHeader := decodeHeader
  decode token key validation now :=
    match signed token key validation.algorithm with
    | none => .error .invalidSignature
    | some payload =>
      if validation.validateExp && payload.claims.exp < now - validation.leeway then
        .error .expiredSignature
      else if validation.validateNbf && payload.nbf.any fun nbf : ℤ => now + validation.leeway < nbf then
        .error .immatureSignature
      else if payload.iss ∉ validation.iss then .error .invalidIssuer
      else .ok payload.claims

theorem documented_ofSigned {Key Algorithm : Type} (decodeHeader : String → Option (Option String))
    (signed : String → Key → Algorithm → Option Payload) :
    (Jwt.ofSigned decodeHeader signed).Documented signed where
  decodes token key algorithm iss leeway now claims := by
    rcases hsigned : signed token key algorithm with _ | payload
    · simp [Jwt.ofSigned, hsigned]
    · simp only [Jwt.ofSigned, hsigned, Bool.true_and, Option.some.injEq, exists_eq_left']
      split_ifs with hexp hnbf hiss
      · simp only [false_iff]
        rintro ⟨rfl, -, h, -⟩
        simp only [decide_eq_true_eq] at hexp
        omega
      · simp only [false_iff]
        rintro ⟨rfl, -, -, h⟩
        obtain ⟨nbf, hnbf, hlt⟩ := (Option.any_eq_true _ _).1 hnbf
        have := h nbf hnbf
        simp only [decide_eq_true_eq] at hlt
        omega
      · simp only [Except.ok.injEq]
        constructor
        · rintro rfl
          refine ⟨rfl, hiss, by simpa using hexp, fun nbf h => ?_⟩
          simpa [h] using hnbf
        · exact fun h => h.1
      · simp [hiss]
  invalidSignature token key validation now h := by
    rcases hsigned : signed token key validation.algorithm with _ | payload
    · rfl
    · simp only [Jwt.ofSigned, hsigned] at h
      split_ifs at h <;> cases h
  invalidIssuer token key validation now h payload hsigned := by
    simp only [Jwt.ofSigned, hsigned] at h
    split_ifs at h with hexp hnbf hiss
    · cases h
    · cases h
    · exact hiss

/-- A token of `f:1:a`, issued at 80 and signed under the key `k`. -/
def shiftToken : String := "eyJhbGciOiJSUzI1NiIsImtpZCI6ImEifQ.e30.c2ln"

def shiftSigned (token key : String) (algorithm : String) : Option Payload :=
  if token = shiftToken ∧ key = "k" ∧ algorithm = "RS256" then
    some ⟨{ sub := "f:1:a", exp := 1000, iat := some 80, aud := ["map"] }, "realm", none⟩
  else none

def shiftJwt : Jwt String String :=
  .ofSigned (fun token => if token = shiftToken then some (some "a") else none) shiftSigned

/-- The token is shown before and after the list is polled. -/
def shift (items : List Item) : List (Op String String) :=
  [.replaceKeys [⟨some "a", .rsa, some "RS256", some "k"⟩], .verify shiftToken ["map"], .wait 5,
    .verify shiftToken ["map"], .poll (.list items none), .verify shiftToken ["map"],
    .identify shiftToken]

/-- The digest of the token, and nothing of another's. -/
def shiftSha256 (token : String) : Digest :=
  if token = shiftToken then
    0x5f0fafd338990bfa3fdf636ca60ffabe69c4aaac3b79a7b5b6dcaea1920156b6#256
  else 0

theorem noCollision_shift (items : List Item) : NoCollision shiftSha256 (shift items) := by
  rintro token ⟨op, hop, htoken⟩ token' ⟨op', hop', htoken'⟩ -
  have hall : ∀ op ∈ shift items, ∀ token, op.token = some token → token = shiftToken := by
    simp [shift, Op.token]
  rw [hall op hop token htoken, hall op' hop' token' htoken']

theorem changesNoVerdict_shift :
    ChangesNoVerdict shiftJwt shiftSha256 "realm" 90 (shift [⟨"f:1:a", 50⟩, ⟨"f:1:a", 100⟩]) ∧
      (Machine.outputs (Gateway.step shiftJwt shiftSha256) (Gateway.accepts shiftJwt shiftSha256)
        (Gateway.start "realm" 90) (shift [⟨"f:1:a", 50⟩, ⟨"f:1:a", 100⟩])).map Option.isSome =
        [false, true, false, true, false, false, true] := by
  refine ⟨changesNoVerdict_of_latestLast (documented_ofSigned _ shiftSigned) "realm" 90
    (noCollision_shift _) ?_, by decide +kernel⟩
  intro items tag h
  obtain ⟨rfl, -⟩ : items = [⟨"f:1:a", 50⟩, ⟨"f:1:a", 100⟩] ∧ tag = none := by
    simpa [shift] using h
  simp [LatestLast]

/-- A list that marks a subject again, at an earlier second, forgets the later mark. -/
theorem not_changesNoVerdict :
    shiftJwt.Documented shiftSigned ∧
      NoCollision shiftSha256 (shift [⟨"f:1:a", 100⟩, ⟨"f:1:a", 50⟩]) ∧
      ¬ ChangesNoVerdict shiftJwt shiftSha256 "realm" 90
        (shift [⟨"f:1:a", 100⟩, ⟨"f:1:a", 50⟩]) := by
  refine ⟨documented_ofSigned _ _, noCollision_shift _, fun h => ?_⟩
  have := congrArg (List.map Option.isSome) h
  revert this
  decide +kernel

end Example

end JoinedContext.TokenVerifier
