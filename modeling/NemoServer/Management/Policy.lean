import NemoServer.Server.Database
import NemoServer.Std.Str

/-!
# Controller identities and management policies

The pure half of the gates (`nemo_management.rs`): what a controller says it is, in the typed
field or in the marker older clients hide in another field; who it is taken to be, given what its
connection proved; and the outbound policy stored for it.
-/

set_option autoImplicit false

namespace NemoServer

namespace Management

open Str

variable (X : Setup)

def nemoSourcePrefix : String := "nemo-source-v1:"
def optionNemoOutboundEnabled : String := "nemo-outbound-enabled"
def optionNemoOutboundTargets : String := "nemo-outbound-targets"
def maxManagementPolicyValueLen : ℕ := 4096

def clientManagementPolicyKeys : List String :=
  ["nemo-require-secure-rendezvous", "disable-udp", "nemo-sealed-request", "nemo-auto-update",
    "nemo-direct-endpoints", "nemo-direct-timeout-ms", "nemo-knock-enabled", "nemo-knock-port",
    "nemo-knock-key", "nemo-knock-hmac-key", "nemo-knock-delay-ms", "nemo-knock-user",
    "nemo-knock-source-ip", "view_only", "show_monitors_toolbar", "collapse_toolbar",
    "show_remote_cursor", "follow_remote_cursor", "follow_remote_window", "zoom-cursor",
    "show_quality_monitor", "disable_audio", "enable-remote-printer", "enable-file-copy-paste",
    "disable_clipboard", "lock_after_session_end", "privacy_mode", "touch-mode", "i444",
    "reverse_mouse_wheel", "swap-left-right-mouse", "displays_as_individual_windows",
    "use_all_my_displays_for_the_remote_session", "view_style", "scroll_style",
    "edge-scroll-edge-thickness", "image_quality", "custom_image_quality", "custom-fps",
    "codec-preference", "sync-init-clipboard", "theme", "lang", "remote-menubar-drag-left",
    "remote-menubar-drag-right", "hideAbTagsPanel", "enable-confirm-closing-tabs",
    "enable-open-new-connections-in-tabs", "use-texture-render", "allow-d3d-render",
    "enable-check-update", "allow-auto-update", "sync-ab-with-recent-sessions", "sync-ab-tags",
    "filter-ab-by-intersection", "access-mode", "enable-keyboard", "enable-clipboard",
    "enable-file-transfer", "enable-camera", "enable-terminal", "terminal-persistent",
    "enable-audio", "enable-tunnel", "enable-remote-restart", "enable-record-session",
    "enable-block-input", "enable-privacy-mode", "enable-perm-change-in-accept-window",
    "allow-remote-config-modification", "allow-numeric-one-time-password",
    "one-way-file-transfer", "nemo-permanent-password", "nemo-alias", "nemo-require-login",
    "nemo-require-encrypted-session", "nemo-logged-in-user", "nemo-api-cert-fingerprint",
    "nemo-outbound-enabled", "nemo-outbound-targets", "enable-lan-discovery", "direct-server",
    "direct-access-port", "whitelist", "allow-auto-disconnect", "auto-disconnect-timeout",
    "allow-only-conn-window-open", "allow-auto-record-incoming", "allow-auto-record-outgoing",
    "video-save-directory", "enable-abr", "allow-remove-wallpaper",
    "allow-always-software-render", "allow-linux-headless", "enable-hwcodec", "approve-mode",
    "verification-method", "temporary-password-length", "proxy-url", "proxy-username",
    "proxy-password", "custom-rendezvous-server", "api-server", "key", "allow-websocket",
    "preset-address-book-name", "preset-address-book-tag", "preset-address-book-alias",
    "preset-address-book-password", "preset-address-book-note", "preset-device-username",
    "preset-device-name", "preset-note", "enable-directx-capture",
    "enable-android-software-encoding-half-scale", "enable-trusted-devices", "av1-test",
    "trackpad-speed", "register-device", "relay-server", "ice-servers",
    "file-transfer-max-files", "disable-udp", "allow-insecure-tls-fallback",
    "show-virtual-mouse", "show-virtual-joystick", "enable-flutter-http-on-rust",
    "allow-ask-for-note", "display-name", "avatar", "preset-device-group-name",
    "preset-user-name", "preset-strategy-name", "remove-preset-password-warning",
    "hide-security-settings", "hide-network-settings", "hide-server-settings",
    "hide-proxy-settings", "hide-remote-printer-settings", "hide-websocket-settings",
    "hide-stop-service", "enable-udp-punch", "enable-ipv6-punch", "hide-username-on-card",
    "hide-help-cards", "default-connect-password", "hide-tray", "one-way-clipboard-redirection",
    "allow-logon-screen-password", "allow-deep-link-password", "allow-deep-link-server-settings",
    "one-way-file-transfer", "allow-https-21114", "use-raw-tcp-for-api", "allow-hostname-as-id",
    "hide-powered-by-me", "main-window-always-on-top", "disable-change-permanent-password",
    "disable-change-id", "disable-unlock-pin", "remoteMenubarState", "peer-sorting",
    "peer-tab-index", "peer-tab-order", "peer-tab-visible", "peer-card-ui-type",
    "current-ab-name", "allow-remote-cm-modification", "printer-incomming-job-action",
    "allow-printer-auto-print", "printer-selected-name", "disable-floating-window",
    "floating-window-size", "floating-window-untouchable", "floating-window-transparency",
    "floating-window-svg", "keep-screen-on", "keep-awake-during-incoming-sessions",
    "keep-awake-during-outgoing-sessions", "disable-group-panel", "disable-discovery-panel",
    "pre-elevate-service", "nemo-company-network-only", "nemo-management-enabled",
    "nemo-management-server", "nemo-management-public-key"]

/-! ## The policy of a peer -/

def isManagementPolicyKey (key : String) : Bool :=
  clientManagementPolicyKeys.contains key || X.isSettingKey key

def sanitizeManagementPolicyValue (key value : String) : Option String :=
  if !isManagementPolicyKey X key then none
  else
    let value := trim value
    if maxManagementPolicyValueLen < value.utf8ByteSize then none else some value

def sanitizeManagementPolicy (policy : ManagementPolicy) : ManagementPolicy :=
  { policy with options := policy.options.filterMap fun (key, value) =>
      (sanitizeManagementPolicyValue X key value).map fun value => (key, value) }

/-- A policy that is missing or does not parse is the empty one. -/
def managementPolicyFromPeer (value : Option String) : ManagementPolicy :=
  match value.bind X.policyOfJson with
  | some policy => sanitizeManagementPolicy X policy
  | none => default

def targetAllowedByControllerPolicy (targets : Option String) (targetId : String) : Bool :=
  match targets with
  | none => true
  | some targets =>
    if trim targets = "" then true
    else ((targets.toList.splitOnP fun ch => ch == ',' || ch == ';' || isWhitespace ch).map
      fun target => trim (String.ofList target)).any fun target =>
        target != "" && (target == "*" || target == targetId)

/-- The gates `controller_policy_rejection` runs on a registered controller: the text of the
refusal, if any. -/
def registeredRejection (source : RegisteredPeer) (sourceUuid : Option Bytes)
    (targetId : String) : Option String :=
  if sourceUuid.any fun uuid => uuid.isEmpty || source.uuid != uuid then
    some "controller identity rejected by TBF policy"
  else if source.status = some 0 then some "controller is blocked by TBF policy"
  else
    let policy := managementPolicyFromPeer X source.managementPolicy
    if (policy.options.lookup optionNemoOutboundEnabled).any (· == "N") then
      some "outgoing connections are disabled by TBF policy"
    else if !targetAllowedByControllerPolicy (policy.options.lookup optionNemoOutboundTargets)
        targetId then
      some "target is not allowed by TBF policy"
    else none

/-! ## Who the controller is -/

/-- The marker `nemo-source-v1:<id>:<base64 uuid>[:<token>]` in a text field. -/
def controllerSourceIdentity (sourceField : String) : Option (String × Bytes × Option String) := do
  let rest ← afterFirst nemoSourcePrefix.toList sourceField.toList
  let payload ← firstToken rest
  let (id, rest) ← splitOnce ':' payload
  let (uuid, token) := match splitOnce ':' rest with
    | some (uuid, token) => (uuid, some token)
    | none => (rest, none)
  let sourceId := trim (String.ofList id)
  let sourceUuid := trim (String.ofList uuid)
  let token := (token.map fun t => trim (String.ofList t)).filter (· != "")
  if sourceId = "" ∨ sourceUuid = "" then none
  else
    let sourceUuid ← X.base64Decode sourceUuid
    some (sourceId, sourceUuid, token)

/-- The typed field if it names a controller, else the marker. -/
def controllerSourceAny (proto : Option NemoSource) (sourceField : String) :
    Option (String × Bytes × Option String) :=
  match proto.filter fun s => trim s.id != "" with
  | none => controllerSourceIdentity X sourceField
  | some src => some (trim src.id, src.uuid, some (trim src.token) |>.filter (· != ""))

/-- The id a controller asserts, for attribution. -/
def controllerSourceId (proto : Option NemoSource) (sourceField : String) : String :=
  match controllerSourceAny X proto sourceField with
  | some (id, _, _) => id
  | none => ""

/-- The controller to run the gates on and the uuid to check, or the refusal. -/
def resolveControllerIdentity (proto : Option NemoSource) (sourceField : String)
    (authedPeerId : Option String) : Except (String × String) (String × Option Bytes) :=
  match authedPeerId, controllerSourceAny X proto sourceField with
  | some proven, some (claimed, uuid, _) =>
    if claimed ≠ proven then
      .error (proven, "controller identity does not match the proven device key")
    else .ok (proven, some uuid)
  | some proven, none => .ok (proven, none)
  | none, some (claimed, uuid, _) => .ok (claimed, some uuid)
  | none, none => .error ("?", "controller identity could not be established")

/-! ## Control permissions -/

def controlPermissionKeys : List (String × Permission) :=
  [("enable-keyboard", .keyboard),
    ("enable-remote-printer", .remotePrinter),
    ("enable-clipboard", .clipboard),
    ("enable-file-transfer", .file),
    ("enable-audio", .audio),
    ("enable-camera", .camera),
    ("enable-terminal", .terminal),
    ("enable-tunnel", .tunnel),
    ("enable-remote-restart", .restart),
    ("enable-record-session", .recording),
    ("enable-block-input", .blockInput),
    ("enable-privacy-mode", .privacyMode),
    ("allow-remote-config-modification", .remoteModify)]

/-- Two bits for each permission the policy mentions: 1 disables, 2 enables. -/
def permissionBits (options : List (String × String)) : UInt64 :=
  controlPermissionKeys.foldl (fun bits (key, permission) =>
    match options.lookup key with
    | none => bits
    | some value =>
      let index := X.permissionValue permission
      if 0 ≤ index ∧ index < 32 then
        bits ||| ((if eqIgnoreAsciiCase value "N" then 1 else 2) <<< UInt64.ofNat (index.toNat * 2))
      else bits) 0

end Management

end NemoServer
