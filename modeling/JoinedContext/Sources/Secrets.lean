import JoinedContext.Core.Urn

/-!
# References to secrets

What a manifest may write in the place of a credential: the name of a secret of the store, and the
environment variable the runner is given it under. A text with the shape of a credential is no name,
and the runner's own variables are nobody's to declare.
-/

namespace JoinedContext.Sources

inductive Error where
  | name (error : Names.NameError)
  | invalid (field reason : String)
deriving DecidableEq

def refuseName (field value reason : String) : Except Error Unit :=
  .error (.name ⟨field, value, reason⟩)

def refuseInvalid (field reason : String) : Except Error Unit := .error (.invalid field reason)

def onlyIf (c : Bool) (check : Except Error Unit) : Except Error Unit :=
  if c then check else .ok ()

@[simp] theorem onlyIf_refuseName {c : Bool} {field value reason : String} :
    onlyIf c (refuseName field value reason) = .ok () ↔ c = false := by
  cases c <;> simp [onlyIf, refuseName]

@[simp] theorem onlyIf_refuseInvalid {c : Bool} {field reason : String} :
    onlyIf c (refuseInvalid field reason) = .ok () ↔ c = false := by
  cases c <;> simp [onlyIf, refuseInvalid]

def startsWith (p s : String) : Bool := (Text.stripPrefix p s).isSome

def endsWith (p s : String) : Bool := (Text.stripSuffix p s).isSome

def toAsciiLowercase (s : String) : String := String.ofList (s.toList.map Char.toLower)

def CREDENTIAL_PREFIXES : List String :=
  ["ghp_", "ghp-", "gho_", "gho-", "ghu_", "ghu-", "ghs_", "ghs-", "ghr_", "ghr-", "github_pat_",
   "github-pat-", "glpat_", "glpat-", "gldt_", "gldt-", "glrt_", "glrt-", "xoxb_", "xoxb-", "xoxp_",
   "xoxp-", "xoxa_", "xoxa-", "xapp_", "xapp-", "sk_", "sk-", "pk_live_", "pk-live-", "sk_live_",
   "sk-live-", "rk_live_", "rk-live-", "dckr_pat_", "dckr-pat-", "npm_", "npm-", "hf_", "hf-",
   "sbp_", "sbp-", "ya29."]

def isCloudKey (value : String) : Bool :=
  let tail := fun (p : String) (length : Nat) (ok : Char → Bool) =>
    (Text.stripPrefix p value).any fun rest => rest.utf8ByteSize == length && rest.toList.all ok
  let aws := fun c : Char => c.isUpper || c.isDigit
  let google := fun c : Char => c.isAlphanum || c == '-' || c == '_'
  tail "AKIA" 16 aws || tail "ASIA" 16 aws || tail "AIza" 35 google

/-- Whether a value carries the shape of a minted credential rather than the name of one. -/
def looksLikeACredential (value : String) : Bool :=
  let lowered := toAsciiLowercase value
  CREDENTIAL_PREFIXES.any (startsWith · lowered) || isCloudKey value ||
    startsWith "-----begin" lowered ||
      (startsWith "eyJ" value && (Text.splitAny ['.'] value).length == 3)

def envChar (c : Char) : Bool := c.isUpper || c.isDigit || c == '_'

/-- `^[A-Z][A-Z0-9_]*$`. -/
def envVarRe : List Char → Bool
  | [] => false
  | c :: rest => c.isUpper && rest.all envChar

def PROCESS_ENV_VARS : List String :=
  ["PATH", "HOME", "TMPDIR", "SHELL", "GODEBUG", "GOMAXPROCS", "GOGC", "GOMEMLIMIT",
    "GOTRACEBACK", "GOFLAGS", "SSLKEYLOGFILE"]

def PROCESS_ENV_PREFIXES : List String := ["LD_", "SSL_CERT_"]

/-- Why a name cannot carry a pipeline's secret. -/
def envVarRefusal (name : String) : Option String :=
  if startsWith "JC_" name then
    some "\x60JC_\x60 is the runner's own prefix; name the variable without it (PL-16)"
  -- `^[A-Z][A-Z0-9_]{0,63}$`.
  else if !(envVarRe name.toList && name.length ≤ 64) then
    some "must be an environment variable name: ^[A-Z][A-Z0-9_]\x7b0,63\x7d$, e.g. CKAN_API_TOKEN"
  else if PROCESS_ENV_VARS.contains name || PROCESS_ENV_PREFIXES.any (startsWith · name) ||
      endsWith "_PROXY" name then
    some ("names a variable that steers the runner process (a loader, proxy, certificate or Go " ++
      "runtime setting); name it after the value, e.g. CKAN_API_TOKEN (T-5702)")
  else none

structure SecretRef where
  name : String
  key : Option String
  envVar : Option String
deriving DecidableEq

/-- `^[-._a-zA-Z0-9]+$`. -/
def secretKeyRe (cs : List Char) : Bool :=
  cs != [] && cs.all fun c => c.isAlphanum || c ∈ ['-', '.', '_']

/-- A reference names a secret and does not carry one. -/
def SecretRef.validate (ref : SecretRef) (field : String) : Except Error Unit := do
  let refuse := fun (what reason : String) => refuseInvalid (field ++ "." ++ what) reason
  onlyIf (looksLikeACredential ref.name) <| refuse "name"
    ("carries the shape of a credential; this field takes the name of the secret that holds it, " ++
      "never the credential itself (MF-24)")
  onlyIf (Names.validateDns1123Label ref.name ≠ .ok ()) <| refuse "name"
    "must be the name of a secret in the store: a DNS-1123 label of 1 to 63 characters (MF-35)"
  ref.key.elim (.ok ()) fun key => do
    onlyIf (looksLikeACredential key) <| refuse "key"
      ("carries the shape of a credential; this field takes the key inside the secret, never the " ++
        "credential itself (MF-24)")
    onlyIf (key == "" || 253 < key.utf8ByteSize || !secretKeyRe key.toList) <| refuse "key"
      ("must be a key inside a Kubernetes secret: ^[-._a-zA-Z0-9]+$, 1 to 253 characters (MF-35)")
  (ref.envVar.bind envVarRefusal).elim (.ok ()) (refuse "envVar")

end JoinedContext.Sources
