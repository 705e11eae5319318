import LatticeMesh.Lib.Json
import LatticeMesh.Lib.GoMap

/-! # The validity window of a license -/

namespace LatticeMesh.Licensing

open Option

def second : Int := 1000000000

def minute : Int := 60 * second

def hour : Int := 60 * minute

def unix (seconds : Int) : Int := seconds * second

def zeroTime : Int := unix (-62135596800)

def truncate (q : Rat) : Int := q.num.tdiv q.den

inductive LicenseType where
  | trial
  | standard
  | enterprise
  | nfr
  | other (name : String)

def LicenseType.ofString : String → LicenseType
  | "trial" => .trial
  | "standard" => .standard
  | "enterprise" => .enterprise
  | "nfr" => .nfr
  | name => .other name

def LicenseType.gracePeriod : LicenseType → Int
  | .standard => 7 * 24 * hour
  | .enterprise => 14 * 24 * hour
  | .nfr => 7 * 24 * hour
  | _ => 0

structure LicenseLimits where
  maxNodes : Int := 0
  maxClusters : Int := 0

structure License where
  jti : String := ""
  subject : String := ""
  issuer : String := ""
  issuedAt : Int := zeroTime
  expiresAt : Int := zeroTime
  customerName : String := ""
  type : LicenseType := .other ""
  features : List String := []
  limits : LicenseLimits := {}
  publicKeyID : String := ""
  raw : String

inductive Status where
  | valid
  | expired
  | invalid
  | notFound
  | revoked
  deriving DecidableEq

abbrev MapClaims := List (String × Json)

def MapClaims.text (c : MapClaims) (name : String) : String :=
  ((Json.lookup c name).bind Json.asStr).getD ""

def MapClaims.number (c : MapClaims) (name : String) : Option Int :=
  ((Json.lookup c name).bind Json.asNum).map truncate

def MapClaims.instant (c : MapClaims) (name : String) : Int :=
  ((c.number name).map unix).getD zeroTime

def parseClaims (c : MapClaims) (raw : String) : License where
  raw
  jti := c.text "jti"
  subject := c.text "sub"
  issuer := c.text "iss"
  customerName := c.text "customer_name"
  type := .ofString (c.text "type")
  publicKeyID := c.text "public_key_id"
  expiresAt := c.instant "exp"
  issuedAt := c.instant "iat"
  features := (((Json.lookup c "features").bind Json.asArr).getD []).filterMap Json.asStr
  limits :=
    match (Json.lookup c "limits").bind Json.asObj with
    | none => {}
    | some limits =>
      { maxNodes := (MapClaims.number limits "max_nodes").getD 0
        maxClusters := (MapClaims.number limits "max_clusters").getD 0 }

structure Token where
  alg : String
  ed25519 : Bool
  kid : Option String
  claims : MapClaims

structure Library where
  parseUnverified : String → Except String Token
  parseEdPublicKeyFromPEM : String → Except String String
  verifies : Token → String → Bool
  formatRFC3339 : Int → String

def trustedPublicKeys : GoMap String String :=
  GoMap.empty.set "pk-2026-01" ("-----BEGIN PUBLIC KEY-----\n" ++
    "MCowBQYDK2VwAyEAv9QDCKHw2DzH+oq/r3MORGi52ozGBGLXNAkiQ4ZMohY=\n" ++
    "-----END PUBLIC KEY-----")

def keyFunc (lib : Library) (token : Token) : Except String String :=
  if token.ed25519 = false then .error ("unexpected signing method: " ++ token.alg)
  else
    match token.kid with
    | none => .error "license missing 'kid' header"
    | some kid =>
      match trustedPublicKeys.get kid with
      | none => .error ("license signed with unknown key: " ++ kid)
      | some pubKeyPEM =>
        if pubKeyPEM = "" then .error ("license signed with unknown key: " ++ kid)
        else
          match lib.parseEdPublicKeyFromPEM pubKeyPEM with
          | .error err => .error ("parse public key " ++ kid ++ ": " ++ err)
          | .ok key => .ok key

def checkInstant (c : MapClaims) (name : String) (passes : Int → Bool) (failure : String) :
    Option String :=
  match Json.lookup c name with
  | none => none
  | some claim =>
    match claim.asNum with
    | none => some (name ++ " is invalid")
    | some q => if passes (unix (truncate q)) then none else some failure

def validateClaims (c : MapClaims) (now : Int) : Option String :=
  (checkInstant c "exp" (now < ·) "token is expired").or
    (checkInstant c "nbf" (· ≤ now) "token is not valid yet")

def jwtParse (lib : Library) (raw : String) (now : Int) : Except String MapClaims :=
  match lib.parseUnverified raw with
  | .error err => .error ("token is malformed: " ++ err)
  | .ok token =>
    match keyFunc lib token with
    | .error err => .error ("token is unverifiable: error while executing keyfunc: " ++ err)
    | .ok key =>
      if lib.verifies token key = false then
        .error "token signature is invalid: ed25519: verification error"
      else
        match validateClaims token.claims now with
        | some err => .error ("token has invalid claims: " ++ err)
        | none => .ok token.claims

structure Env where
  licensePath : String := ""
  license : String := ""
  home : String := ""
  stat : String → Bool := fun _ => false
  readFile : String → Except String String := fun _ => .error "file does not exist"

def defaultPaths (env : Env) : List String :=
  [env.licensePath, env.license,
    if env.home = "" then "" else env.home ++ "/.lattice/license.lic",
    "/var/lib/lattice/license.lic"]

def resolvePath (env : Env) : Option (String × Bool) :=
  (defaultPaths env).findSome? fun p =>
    if p = "" then none
    else if p = env.license then
      if 100 < p.utf8ByteSize ∧ p ≠ env.licensePath then some (p, true) else none
    else if env.stat p then some (p, false)
    else none

def readFile (env : Env) (path : String) : Except String String :=
  match env.readFile path with
  | .error err => .error ("read license file: " ++ err)
  | .ok data => .ok data

def rawJWT (env : Env) : Except String String :=
  match resolvePath env with
  | none => .error "no license file found. Install with: lattice license install ./license.lic"
  | some (path, fromEnv) => if fromEnv then .ok path else readFile env path

structure ProVerifier where
  cached : Option License := none
  cachedAt : Int := zeroTime
  cacheTTL : Int := 5 * minute

def newVerifier : ProVerifier := {}

def ProVerifier.Fresh (v : ProVerifier) (now : Int) : Prop :=
  v.cached.isSome ∧ now - v.cachedAt < v.cacheTTL

instance (v : ProVerifier) (now : Int) : Decidable (v.Fresh now) :=
  inferInstanceAs (Decidable (_ ∧ _))

structure Answer where
  license : Option License
  status : Status
  err : Option String

def License.isExpired (lic : License) (now : Int) : Bool :=
  lic.expiresAt < now && lic.type.gracePeriod < now - lic.expiresAt

def verify (lib : Library) (v : ProVerifier) (env : Env) (now : Int) : ProVerifier × Answer :=
  if v.Fresh now then (v, ⟨v.cached, .valid, none⟩)
  else
    match rawJWT env with
    | .error err => (v, ⟨none, .notFound, some err⟩)
    | .ok raw =>
      match jwtParse lib raw now with
      | .error err => (v, ⟨none, .invalid, some ("license verification failed: " ++ err)⟩)
      | .ok claims =>
        let lic := parseClaims claims raw
        if lic.isExpired now then
          (v, ⟨some lic, .expired, some ("license expired on " ++ lib.formatRFC3339 lic.expiresAt)⟩)
        else ({ v with cached := some lic, cachedAt := now }, ⟨some lic, .valid, none⟩)

def after (lib : Library) (calls : List (Env × Int)) : ProVerifier :=
  calls.foldl (fun v call => (verify lib v call.1 call.2).1) newVerifier

theorem gracePeriod_nonneg (type : LicenseType) : 0 ≤ type.gracePeriod := by
  cases type with
  | other name => exact Int.le_refl 0
  | _ => decide

theorem checkInstant_of_number {c : MapClaims} {name : String} {e : Int}
    (h : c.number name = some e) (passes : Int → Bool) (failure : String) :
    checkInstant c name passes failure = if passes (unix e) then none else some failure := by
  unfold MapClaims.number at h
  obtain ⟨q, hq, rfl⟩ := map_eq_some_iff.1 h
  obtain ⟨claim, hcla, hnum⟩ := bind_eq_some_iff.1 hq
  simp only [checkInstant, hcla, hnum]

def MapClaims.Started (c : MapClaims) (now : Int) : Prop :=
  checkInstant c "nbf" (· ≤ now) "token is not valid yet" = none

instance (c : MapClaims) (now : Int) : Decidable (c.Started now) :=
  inferInstanceAs (Decidable (_ = none))

theorem validateClaims_eq_none_iff {c : MapClaims} {e : Int} (h : c.number "exp" = some e)
    (now : Int) : validateClaims c now = none ↔ now < unix e ∧ c.Started now := by
  unfold validateClaims
  rw [checkInstant_of_number h, or_eq_none_iff]
  refine and_congr ?_ Iff.rfl
  by_cases hlt : now < unix e <;> simp [hlt]

structure Signed (lib : Library) (raw : String) (token : Token) : Prop where
  decodes : lib.parseUnverified raw = .ok token
  verifies : ∃ key, keyFunc lib token = .ok key ∧ lib.verifies token key = true

theorem Signed.jwtParse {lib : Library} {raw : String} {token : Token} (h : Signed lib raw token)
    (now : Int) : jwtParse lib raw now =
      match validateClaims token.claims now with
      | some err => .error ("token has invalid claims: " ++ err)
      | none => .ok token.claims := by
  obtain ⟨key, hkey, hver⟩ := h.verifies
  simp [Licensing.jwtParse, h.decodes, hkey, hver]

variable {now : Int}

theorem isExpired_of_lt {lic : License} (h : now < lic.expiresAt) :
    lic.isExpired now = false := by
  have hnot : ¬ lic.expiresAt < now := by omega
  simp [License.isExpired, hnot]

section

variable {lib : Library} {v : ProVerifier} {env : Env} {raw : String} {token : Token} {e : Int}

theorem status_of_fresh (h : v.Fresh now) :
    (verify lib v env now).2.status = .valid := by
  rw [verify, if_pos h]

theorem status_of_not_fresh (hfr : ¬ v.Fresh now) (hraw : rawJWT env = .ok raw)
    (hsig : Signed lib raw token) (hexp : token.claims.number "exp" = some e) :
    (verify lib v env now).2.status =
      if now < unix e ∧ token.claims.Started now then .valid else .invalid := by
  rw [verify, if_neg hfr, hraw]
  simp only [hsig.jwtParse]
  have hiff := validateClaims_eq_none_iff hexp now
  cases hv : validateClaims token.claims now with
  | some err => rw [if_neg fun h => by simp [hiff.2 h] at hv]
  | none =>
    have hlt := (hiff.1 hv).1
    have hat : (parseClaims token.claims raw).expiresAt = unix e := by
      simp [parseClaims, MapClaims.instant, hexp]
    have hin : (parseClaims token.claims raw).isExpired now = false :=
      isExpired_of_lt (hat ▸ hlt)
    simp only [hin]
    rw [if_pos (hiff.1 hv)]
    rfl

theorem verify_expired (hraw : rawJWT env = .ok raw) (hsig : Signed lib raw token)
    (hexp : token.claims.number "exp" = some e) :
    (verify lib v env now).2.status ≠ .expired := by
  by_cases hfr : v.Fresh now
  · rw [status_of_fresh hfr]
    exact Status.noConfusion
  · rw [status_of_not_fresh hfr hraw hsig hexp]
    split <;> exact Status.noConfusion

end

def oneLicense (type : String) : Library where
  parseUnverified _ := .ok
    { alg := "EdDSA", ed25519 := true, kid := some "pk-2026-01"
      claims := [("type", .str type), ("exp", .num 1000)] }
  parseEdPublicKeyFromPEM pem := .ok pem
  verifies _ _ := true
  formatRFC3339 _ := "1970-01-01T00:16:40Z"

def installed : Env where
  stat p := p = "/var/lib/lattice/license.lic"
  readFile _ := .ok "license"

theorem signed_oneLicense (type : String) : Signed (oneLicense type) "license"
    { alg := "EdDSA", ed25519 := true, kid := some "pk-2026-01"
      claims := [("type", .str type), ("exp", .num 1000)] } :=
  ⟨rfl, _, rfl, rfl⟩

end LatticeMesh.Licensing
