import Stonemite.Lib.SocketAddr
import Stonemite.Trushar.Commands
import Stonemite.Trushar.Pairing

/-!
# Upgrades

Which requests of the HTTP handshake the control server lets in, and where it may listen at all.
-/

namespace Stonemite.Trushar

/-- The address and the token of the server's settings. -/
structure ServerConfig where
  bind : SocketAddr
  authToken : Option Str

namespace ServerConfig

/-- `validate`, whose errors are all of an invalid configuration. -/
def validate (config : ServerConfig) : Except String Unit :=
  if config.authToken.any fun token => token.trim.isEmpty then .error "authentication token must not be empty"
  else if !config.bind.ip.isLoopback && config.authToken.isNone then
    .error "wildcard and non-loopback binds require an authentication token"
  else .ok ()

/-- Other machines reach only a server with a token that says something. -/
theorem token_of_validate {config : ServerConfig} (h : config.validate = .ok ()) (hbind : config.bind.ip.isLoopback = false) :
    ∃ token, config.authToken = some token ∧ token.trim ≠ [] := by
  unfold validate at h
  rw [hbind] at h
  cases htoken : config.authToken with
  | none =>
    rw [htoken] at h
    cases h
  | some token =>
    rw [htoken] at h
    refine ⟨token, rfl, fun hempty => ?_⟩
    rw [Option.any_some, hempty] at h
    cases h

end ServerConfig

def endpointPath : Str := "/trushar/v1".toList

def pairingEndpointPath : Str := "/trushar/v1/pair".toList

/-- What the server looks at in a request: its path, whether a browser names its origin, and the `Authorization` header where
it is text. -/
structure UpgradeRequest where
  path : Str
  origin : Bool
  authorization : Option Str

/-- The credential of a request, `Bearer ` being taken off. -/
def UpgradeRequest.supplied (request : UpgradeRequest) : Option Str :=
  request.authorization.bind fun value => if "Bearer ".toList <+: value then some (value.drop 7) else none

/-- The response that refuses an upgrade. -/
structure HandshakeError where
  status : Nat
  code : Option ErrorCode
  message : String

/-- What a connection that is let in is for. -/
inductive Upgrade
  | control
  | pairing (session : Nat)

/-- The bearer token of the request is the server's. -/
def ServerConfig.authenticated (config : ServerConfig) (request : UpgradeRequest) : Bool :=
  config.authToken.any fun expected => request.supplied.any fun actual => constantTimeEq actual expected

/-- `authorize_upgrade`, with the pairing session that is open. -/
def authorizeUpgrade (config : ServerConfig) (pairing : Option Nat) (request : UpgradeRequest) :
    Except HandshakeError Upgrade :=
  if request.path = pairingEndpointPath then
    if request.origin then .error ⟨403, some .unauthorized, "Browser-originated pairing is not allowed"⟩
    else
      match pairing with
      | none => .error ⟨403, some .unauthorized, "pairing is not currently available"⟩
      | some session => .ok (.pairing session)
  else if request.path ≠ endpointPath then .error ⟨404, none, "WebSocket endpoint not found"⟩
  else if config.authToken.isSome && !config.authenticated request then
    .error ⟨401, some .unauthorized, "authentication failed"⟩
  else if request.origin && !config.authenticated request then
    .error ⟨403, some .unauthorized, "Browser-originated connections require authentication"⟩
  else .ok .control

/-- Who may control: with a token, whoever shows exactly it; without one, whoever is not sent by a browser. -/
def ServerConfig.Admits (config : ServerConfig) (request : UpgradeRequest) : Prop :=
  match config.authToken with
  | some token => request.authorization = some ("Bearer ".toList ++ token)
  | none => request.origin = false

theorem supplied_eq_some {request : UpgradeRequest} {token : Str} :
    request.supplied = some token ↔ request.authorization = some ("Bearer ".toList ++ token) := by
  unfold UpgradeRequest.supplied
  cases request.authorization with
  | none => exact ⟨by rintro ⟨⟩, by rintro ⟨⟩⟩
  | some value =>
    rw [Option.bind_some]
    constructor
    · intro h
      split at h
      · rename_i hbearer
        obtain ⟨rest, rfl⟩ := hbearer
        rw [← Option.some.inj h]
        rfl
      · cases h
    · intro h
      rw [Option.some.inj h, if_pos (List.prefix_append _ _)]
      rfl

theorem authenticated_iff {config : ServerConfig} {request : UpgradeRequest} {token : Str}
    (htoken : config.authToken = some token) :
    config.authenticated request = true ↔ request.authorization = some ("Bearer ".toList ++ token) := by
  unfold ServerConfig.authenticated
  rw [htoken, Option.any_some, ← supplied_eq_some]
  cases request.supplied with
  | none => exact ⟨by rintro ⟨⟩, by rintro ⟨⟩⟩
  | some actual =>
    rw [Option.any_some, constantTimeEq_iff]
    exact ⟨congrArg some, Option.some.inj⟩

theorem authorize_control {config : ServerConfig} {pairing : Option Nat} {request : UpgradeRequest} :
    authorizeUpgrade config pairing request = .ok .control ↔ request.path = endpointPath ∧ config.Admits request := by
  have hpaths : endpointPath ≠ pairingEndpointPath := by decide
  unfold authorizeUpgrade ServerConfig.Admits
  by_cases hpairing : request.path = pairingEndpointPath
  · rw [if_pos hpairing]
    refine ⟨fun h => ?_, fun h => absurd (h.1.symm.trans hpairing) hpaths⟩
    split at h
    · cases h
    · split at h <;> cases h
  · rw [if_neg hpairing]
    by_cases hpath : request.path = endpointPath
    · rw [if_neg (not_not.mpr hpath)]
      cases htoken : config.authToken with
      | none =>
        have hnot : config.authenticated request = false := by
          unfold ServerConfig.authenticated
          rw [htoken]
          rfl
        rw [hnot]
        cases request.origin with
        | true => exact ⟨by rintro ⟨⟩, by rintro ⟨-, ⟨⟩⟩⟩
        | false => exact ⟨fun _ => ⟨hpath, rfl⟩, fun _ => rfl⟩
      | some token =>
        have hiff : config.authenticated request = true ↔ _ := authenticated_iff htoken
        dsimp only
        rw [← hiff]
        cases config.authenticated request with
        | true =>
          rw [Bool.not_true, Bool.and_false, Bool.and_false]
          exact ⟨fun _ => ⟨hpath, rfl⟩, fun _ => rfl⟩
        | false => exact ⟨by rintro ⟨⟩, by rintro ⟨-, ⟨⟩⟩⟩
    · rw [if_pos hpath]
      exact ⟨by rintro ⟨⟩, fun h => absurd h.1 hpath⟩

end Stonemite.Trushar
