import JoinedContext.Core.Policy
import Mathlib.Data.List.Infix

/-!
# The claims of a token

What the gateway reads of a token whose signature, issuer and audience were verified.
-/

namespace JoinedContext.Auth

structure Claims where
  sub : String
  azp : Option String := none
  preferredUsername : Option String := none
  realmAccess : Option (List String) := none
  groups : List String := []
  jcOrg : List String := []
  /-- The groups under an Organization, as full paths; absent from a realm without the mapper. -/
  jcGroups : Option (List String) := none
  resourceAccess : List (String × List String) := []
  exp : Int
  iat : Option Int := none
  agreementId : Option String := none
  participant : Option String := none
  aud : List String := []
  scope : Option String := none

namespace Claims

variable (claims : Claims)

def readOnlyScope : String := "jc:read-only"

/-- The roles of a client, when that client obtained the token. -/
def clientRoles (client : String) : List String :=
  if claims.azp ≠ some client then [] else (claims.resourceAccess.lookup client).getD []

/-- The plain groups, each without its leading slash. -/
def groupNames : List String :=
  claims.groups.map fun group => (Text.stripPrefix "/" group).getD group

def memberOf (organization : String) : Bool :=
  organization != "" && claims.jcOrg.any (· == organization)

/-- The groups in an Organization: `g` for each `/{organization}/g`. -/
def groupsIn (organization : String) : List String :=
  if organization = "" then []
  else
    ((claims.jcGroups.getD []).filterMap fun path => do
      Text.stripPrefix "/" (← Text.stripPrefix organization (← Text.stripPrefix "/" path))).filter
        fun group => group != "" && '/' ∉ group.toList

def namesAudience (audiences : List String) : Bool := claims.aud.any (· ∈ audiences)

def scopes : List String :=
  (Text.splitAny [' ', '\t', '\n', '\x0c', '\r'] (claims.scope.getD "")).filter (· != "")

def endpointScopes : List String :=
  (claims.scopes.filterMap (Text.stripPrefix "endpoint:")).filter (· != "")

def readOnly : Bool := claims.scopes.any (· == readOnlyScope)

def roles : List String := claims.realmAccess.getD []

end Claims

end JoinedContext.Auth
