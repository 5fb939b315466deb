import OmtClient.Web.Form
import OmtClient.Web.Machine

/-!
# The routes of the Web frontend

`crates/omt-web/src/app.rs`: the handlers, the table of routes and `handle`.
-/

namespace OmtClient.Web.App

open OmtClient.Lib OmtClient.Common OmtClient.Omt Prog Http
open Session (Auth Crypto sessionIdHex)

def maxFlashes : Nat := 64
def cookieAttributes : String := "Path=/; Secure; HttpOnly; SameSite=Lax"
def csp : String := "default-src 'self'; style-src 'self'; script-src 'none'; form-action 'self'"

/-! ## Responses -/

def setCookie (res : Response) (name value : String) (maxAge : Nat) : Response :=
  res.addHeader "set-cookie"
    (name ++ "=" ++ value ++ "; Path=/; Max-Age=" ++ toString maxAge ++ "; Secure; HttpOnly; SameSite=Lax")

def clearCookie (res : Response) (name : String) : Response :=
  res.addHeader "set-cookie" (name ++ "=; Path=/; Max-Age=0; " ++ cookieAttributes)

def redirect (res : Response) (place : String) : Response := { res with status := 303 }.addHeader "location" place

def securityHeaders (res : Response) (isStatic : Bool) : Response :=
  let res := res.addHeader "strict-transport-security" "max-age=31536000; includeSubDomains"
  let res := res.addHeader "x-frame-options" "DENY"
  let res := res.addHeader "x-content-type-options" "nosniff"
  let res := res.addHeader "referrer-policy" "strict-origin-when-cross-origin"
  let res := res.addHeader "content-security-policy" csp
  if isStatic then res.addHeader "cache-control" "public, max-age=86400"
  else (res.addHeader "cache-control" "no-store").addHeader "pragma" "no-cache"

section

variable {c : Crypto} {F : Type} (site : Site F) (req : Request)

def respond (f : Response → Response) : Act c Unit := modify fun s => { s with res := f s.res }

def hasFlashCookie : Bool := (requestCookie req flashCookie flashCookieMax).isSome

/-- `swap_remove` of the flash at a place. -/
def takeFlash (i : Nat) : Act c Unit := modify fun s => { s with flashes := swapRemove s.flashes i }

/-- `common`: the context every page shares; takes the request's flash. -/
def common (authenticated : Bool) (csrf endpoint : String) : Act c (List (String × Value F)) := do
  let s ← get
  let i := (requestCookie req flashCookie flashCookieMax).bind fun key => s.flashes.findIdx? fun f => f.key == key
  let flashes : List (Value F) :=
    ((i.bind fun i => s.flashes[i]?).map fun f => Value.list [.str f.category, .str f.message]).toList
  match i with
  | some i => takeFlash i
  | none => pure ()
  pure [("hostname", .str site.hostname), ("authenticated", .bool authenticated), ("csrf_token", .str csrf),
    ("endpoint", .str endpoint), ("flashes", .list flashes)]

def render (template : String) (context : List (String × Value F)) (status : Nat) : Act c Unit :=
  match site.render template (.map context) with
  | none => respond fun res =>
      { ({ res with status := 500 }.addHeader "content-type" "text/plain; charset=utf-8") with
        body := utf8 "Internal Server Error" }
  | some body => respond fun res =>
      let res := { res with body, status }.addHeader "content-type" "text/html; charset=utf-8"
      if hasFlashCookie req then clearCookie res flashCookie else res

def sessionToken : Act c String := do
  let s ← get
  pure ((s.auth.csrfToken "session" s.session).getD "")

/-- The list with room for one more: past the cap the lexically first key gives way. -/
def boundFlashes : Nat → List Flash → List Flash
  | 0, list => list
  | fuel + 1, list =>
    if list.length < maxFlashes then list
    else
      let first := (List.range list.length).find? fun i => list.all fun f =>
        decide (((list[i]?.map fun g => Session.keyRank g.key).getD []) ≤ Session.keyRank f.key)
      boundFlashes fuel (swapRemove list (first.getD 0))

def flashRedirect (place : String) (result : ActionResult) : Act c Unit := do
  match ← ask site fun o t => o.random t 16 with
  | none => respond fun res => redirect res place
  | some key => do
    let flash : Flash := if result.ok then ⟨key, "success", result.message⟩ else ⟨key, "error", result.error⟩
    modify fun s => { s with flashes := boundFlashes s.flashes.length s.flashes ++ [flash] }
    respond fun res => setCookie (redirect res place) flashCookie key 60

def loginPage (error : String) (status : Nat) : Act c Unit := do
  let nonce ← ask site fun o t => o.random t 24
  let nonce := nonce.getD ""
  let s ← get
  let ctx ← common site req false ((s.auth.csrfToken "login" nonce).getD "") "auth.login"
  render site req "login.html" (ctx ++ [("error", .str error)]) status
  respond fun res => setCookie res loginCookie nonce 600

def errorPage (title message : String) (status : Nat) : Act c Unit := do
  let token ← sessionToken
  let ctx ← common site req true token "error"
  render site req "error.html" (ctx ++ [("title", .str title), ("message", .str message)]) status

def tooMany : Act c Unit := errorPage site req "Too many requests" "Too many requests. Please wait and try again." 429

/-! ## Who may do what -/

def currentSession : Act c Bool := do
  match requestCookie req sessionCookie sessionCookieMax with
  | none => pure false
  | some id => do
    let now ← ask site fun o t => o.epoch t
    let s ← get
    if (utf8 id).length ≠ sessionIdHex ∨ ¬ s.auth.isCurrent site.dec id now (s.files .registry) then pure false
    else do
      modify fun s => { s with session := id }
      pure true

def requireSession : Act c Bool := do
  if ← currentSession site req then pure true
  else do
    respond fun res => redirect res "/login"
    pure false

/-- `authenticated_post`: a current session and its CSRF token. -/
def authenticatedPost : Act c (Option Form) := do
  let form := Form.parse req.body
  if ← requireSession site req then do
    let s ← get
    if (form.get "csrf_token").any fun t => s.auth.verifyCsrf "session" s.session t then pure (some form)
    else do
      errorPage site req "Session expired" "Session expired. Please try again." 400
      pure none
  else pure none

def allow (scope : String) (limit : RateLimit) : Act c Bool := do
  let now ← ask site fun o t => o.nowMs t
  let s ← get
  modify fun s => { s with rates := (RateLimit.allow s.rates now scope (fromUtf8Lossy req.peer) limit).2 }
  pure (RateLimit.allow s.rates now scope (fromUtf8Lossy req.peer) limit).1

/-! ## Contexts -/

def videoLimitValue (v : VideoLimit) : Value F :=
  .map [("board_label", .str v.boardLabel), ("effective", .str v.effective), ("board_default", .str v.boardDefault),
    ("error", .str v.error), ("effective_description", .str v.effectiveDescription),
    ("board_default_description", .str v.boardDefaultDescription), ("overridden", .bool v.overridden),
    ("above_board_default", .bool v.aboveBoardDefault)]

def commandValue (d : DiagnosticResult F) : Value F :=
  let o := d.command
  .map [("command", .str o.command), ("returncode", o.returncode.elim .none .int), ("stdout", .str o.stdout),
    ("stderr", .str o.stderr), ("duration_seconds", .float o.durationSeconds), ("timed_out", .bool o.timedOut),
    ("error", .str o.error), ("skipped", .bool d.skipped), ("stdout_truncated", .bool o.stdoutTruncated),
    ("stderr_truncated", .bool o.stderrTruncated), ("sources", .list (d.sources.map .str))]

/-! ## Handlers -/

def dashboard : Act c Unit := do
  if ← requireSession site req then do
    let token ← sessionToken
    let summary ← playbackSummary site
    let ctx ← common site req true token "dashboard.dashboard"
    let names ← sources site
    let limit ← videoLimit site
    let source (name : String) : Value F :=
      .map [("selection_value", .str ("discovered|" ++ name)), ("display_label", .str (name ++ " — OMT discovery")),
        ("backend", .str "OMT discovery"), ("name", .str name)]
    let playback : Value F :=
      .map [("state", .str summary.state), ("label", .str summary.label), ("detail", .str summary.detail),
        ("tone", .str summary.tone), ("source", .str summary.source), ("direct_address", .str summary.directAddress)]
    render site req "dashboard.html" (ctx ++ [("sources", .list (names.map source)),
      ("current_source", .str summary.source), ("current_direct_target", .str summary.directAddress),
      ("playback", playback), ("video_limit", videoLimitValue limit)]) 200
  else pure ()

def loginGet : Act c Unit := do
  if ← currentSession site req then respond fun res => redirect res "/"
  else loginPage site req "" 200

/-- The token of the form is the one of the login cookie's nonce. -/
def loginTokenValid (auth : Auth c) : Bool :=
  match requestCookie req loginCookie sessionCookieMax, (Form.parse req.body).get "csrf_token" with
  | some nonce, some token => auth.verifyCsrf "login" nonce token
  | _, _ => false

/-- `Auth::authenticate`, on the registry. -/
def authenticate (password : String) (previous : Option String) : Act c (Except String (Option String)) := do
  let random ← ask site fun o t => o.random t 32
  let now ← ask site fun o t => o.epoch t
  let disk ← ask site fun o t => o.disk t
  let s ← get
  let done := s.auth.authenticate site.dec (utf8 password) previous random now disk (s.files .registry)
  note .authenticate
  modify fun s => s.setFile .registry done.2
  pure done.1

def loginPost : Act c Unit := do
  if ← allow site req "login" site.settings.loginLimit then do
    let s ← get
    if loginTokenValid req s.auth then do
      let password := (Form.parse req.body).field "password"
      match ← authenticate site password (requestCookie req sessionCookie sessionCookieMax) with
      | .ok (some session) =>
        respond fun res =>
          clearCookie (setCookie (redirect res "/") sessionCookie session site.settings.sessionLifetime) loginCookie
      | .ok none => loginPage site req "Invalid password" 200
      | .error _ =>
        loginPage site req "Unable to create a persistent session. Check configuration storage." 503
    else loginPage site req "Session expired. Please try again." 400
  else loginPage site req "Too many login attempts. Please wait." 429

def revoke : Act c Unit := do
  let disk ← ask site fun o t => o.disk t
  note .revoke
  modify fun s => s.setFile .registry (s.auth.revoke site.dec s.session disk (s.files .registry)).2

/-- What follows the preamble of an authenticated POST. -/
def guarded (rest : Form → Act c Unit) : Act c Unit := do
  match ← authenticatedPost site req with
  | none => pure ()
  | some form => rest form

def logout : Act c Unit := guarded site req fun _ => do
  revoke site
  respond fun res => clearCookie (redirect res "/login") sessionCookie

def postAction (place : String) (action : Form → Act c ActionResult) : Act c Unit := guarded site req fun form => do
  let result ← action form
  flashRedirect site place result

def trimmedAddress (form : Form) (key : String) : String := clip (trimmed (form.field key)) (targetMaxBytes * 2 - 1)

def selectSource : Act c Unit := postAction site req "/" fun form => select site (form.field "source")

def restartPlayback : Act c Unit := postAction site req "/" fun _ => restart site

def clearPlayback : Act c Unit := postAction site req "/" fun _ => clear site

def directSource : Act c Unit :=
  postAction site req "/settings/network" fun form => saveDirect site (trimmedAddress form "direct_address")

def videoLimitPost : Act c Unit :=
  postAction site req "/system" fun form => saveVideoLimit site (form.field "video_limit")

def refreshSources : Act c Unit := guarded site req fun _ => do
  refresh site
  respond fun res => redirect res "/"

def networkPage (submitted errorOverride : Option String) : Act c Unit := do
  let token ← sessionToken
  let file ← readFile .runtimeConfig
  let network := readNetworkConfiguration file
  let server := submitted.elim network.discoveryServer fun s => clip s 599
  let error := clip (errorOverride.getD network.error) 255
  let saved ← configuration site
  let ctx ← common site req true token "network.network_settings"
  render site req "network.html" (ctx ++ [
    ("network", .map [("discovery_server", .str server), ("discovery_server_text", .str server), ("error", .str error)]),
    ("current_source", .str saved.source), ("current_direct_target", .str saved.directAddress),
    ("configuration_error", .str saved.error)]) 200

def networkGet : Act c Unit := do
  if ← requireSession site req then networkPage site req none none else pure ()

def networkPost : Act c Unit := guarded site req fun form => do
  let submitted := form.field "discovery_server"
  match ← saveNetworkConfiguration site submitted with
  | .ok false => flashRedirect site "/settings/network" (.success "OMT discovery settings are already up to date.")
  | .ok true => do
    refresh site
    let saved ← configuration site
    if saved.configured then do
      let result ← restart site
      flashRedirect site "/settings/network" result
    else flashRedirect site "/settings/network" (.success "OMT discovery settings saved.")
  | .error message => do
    networkPage site req (some submitted) (some message)
    if hasFlashCookie req then pure () else respond fun res => clearCookie res flashCookie

def diagnosticsPage (result : Option (DiagnosticResult F)) (observedStatus : Option String) : Act c Unit := do
  let token ← sessionToken
  let saved ← configuration site
  let ctx ← common site req true token "diagnostics.diagnostics"
  let status ← match observedStatus with
    | some s => pure s
    | none => diagnosticStatus site
  let version ← appVersion site
  let shown : Value F := result.elim .none fun r => .map [("title", .str r.title), ("command", commandValue r)]
  render site req "diagnostics.html" (ctx ++ [("app_version", .str version), ("current_source", .str saved.source),
    ("current_direct_target", .str saved.directAddress), ("configuration_error", .str saved.error),
    ("omt_status", .str status), ("result", shown)]) 200

def diagnosticsGet : Act c Unit := do
  if ← requireSession site req then diagnosticsPage site req none none else pure ()

/-- `diagnostics_action`, with what one kind of check does. -/
def diagnosticsAction (check : Form → Act c Unit) : Act c Unit := guarded site req fun form => do
  if ← allow site req "diagnostics" site.settings.diagnosticActionLimit then check form
  else tooMany site req

def diagnosticsDiscovery : Act c Unit := diagnosticsAction site req fun _ => do
  refresh site
  let result ← discovery site
  diagnosticsPage site req (some result) none

def diagnosticsRuntime : Act c Unit := diagnosticsAction site req fun _ => do
  let (result, status) ← runtime site
  diagnosticsPage site req (some result) (some status)

def diagnosticsDirect : Act c Unit := diagnosticsAction site req fun form => do
  let result ← direct site (trimmedAddress form "direct_address")
  diagnosticsPage site req (some result) none

def diagnosticsDownload : Act c Unit := guarded site req fun form => do
  if ← allow site req "diagnostic-download" site.settings.diagnosticDownloadLimit then do
    let _ ← appVersion site
    match ← bundle site (form.get "include_packet_capture" == some "1") with
    | .ok (archive, filename) =>
      respond fun res =>
        let res := { res with status := 200 }.addHeader "content-type" "application/zip"
        { res.addHeader "content-disposition" ("attachment; filename=\"" ++ filename ++ "\"") with body := archive }
    | .error _ =>
      errorPage site req "Something went wrong"
        "The appliance could not complete that request. Check the container logs." 500
  else tooMany site req

def systemGet : Act c Unit := do
  if ← requireSession site req then do
    let token ← sessionToken
    let ctx ← common site req true token "system.system"
    let limit ← videoLimit site
    render site req "system.html" (ctx ++ [("video_limit", videoLimitValue limit)]) 200
  else pure ()

def rebootGet : Act c Unit := do
  if ← requireSession site req then do
    let token ← sessionToken
    let ctx ← common site req true token "system.confirm_reboot"
    render site req "reboot_confirm.html" ctx 200
  else pure ()

def rebootPost : Act c Unit := guarded site req fun _ => do
  if ← allow site req "reboot" site.settings.rebootLimit then do
    let result ← requestReboot site
    if result.ok then do
      let token ← sessionToken
      let ctx ← common site req true token "system.reboot"
      render site req "reboot_scheduled.html" (ctx ++ [("message", .str result.message)]) 202
    else flashRedirect site "/system" result
  else tooMany site req

def about : Act c Unit := do
  if ← requireSession site req then do
    let token ← sessionToken
    let version ← appVersion site
    let (license, notices) ← legalTexts site
    let ctx ← common site req true token "about.about"
    render site req "about.html" (ctx ++ [("app_version", .str version), ("project_license", .str license),
      ("third_party_notices", .str notices)]) 200
  else pure ()

def notFound : Act c Unit := do
  if ← currentSession site req then errorPage site req "Page not found" "That page does not exist." 404
  else loginPage site req "That page does not exist." 404

/-! ## Routes -/

structure Route (c : Crypto) where
  path : String
  get : Option (Act c Unit)
  post : Option (Act c Unit)

/-- `ROUTES`. -/
def routes : List (Route c) :=
  [⟨"/login", some (loginGet site req), some (loginPost site req)⟩,
    ⟨"/logout", none, some (logout site req)⟩,
    ⟨"/", some (dashboard site req), none⟩,
    ⟨"/sources/select", none, some (selectSource site req)⟩,
    ⟨"/sources/refresh", none, some (refreshSources site req)⟩,
    ⟨"/playback/restart", none, some (restartPlayback site req)⟩,
    ⟨"/playback/clear", none, some (clearPlayback site req)⟩,
    ⟨"/settings/network", some (networkGet site req), some (networkPost site req)⟩,
    ⟨"/settings/direct-source", none, some (directSource site req)⟩,
    ⟨"/diagnostics", some (diagnosticsGet site req), none⟩,
    ⟨"/diagnostics/discovery", none, some (diagnosticsDiscovery site req)⟩,
    ⟨"/diagnostics/runtime", none, some (diagnosticsRuntime site req)⟩,
    ⟨"/diagnostics/direct", none, some (diagnosticsDirect site req)⟩,
    ⟨"/diagnostics/download", none, some (diagnosticsDownload site req)⟩,
    ⟨"/system", some (systemGet site req), none⟩,
    ⟨"/system/video-limit", none, some (videoLimitPost site req)⟩,
    ⟨"/system/reboot", some (rebootGet site req), some (rebootPost site req)⟩,
    ⟨"/about", some (about site req), none⟩]

def isGet : Bool := req.method == utf8 "GET" || req.method == utf8 "HEAD"
def isPost : Bool := req.method == utf8 "POST"
def isStatic : Bool := (utf8 "/static/").isPrefixOf req.path

/-- The name of the asset that a request asks for. -/
def assetName : Option String :=
  if isStatic req && isGet req then
    if req.path = utf8 "/static/style.css" then some "style.css"
    else if req.path = utf8 "/static/favicon.svg" then some "favicon.svg"
    else none
  else none

/-- A known path with the wrong method. -/
def notAllowed (get post : Bool) (res : Response) : Response :=
  { res with status := 405 }.addHeader "allow"
    (if get && post then "GET,HEAD,POST" else if get then "GET,HEAD" else "POST")

/-- The handler of a request for one of the routes. -/
def Route.handler (route : Route c) : Act c Unit :=
  match isGet req, isPost req, route.get, route.post with
  | true, _, some f, _ => f
  | _, true, _, some f => f
  | _, _, get, post => respond (notAllowed get.isSome post.isSome)

/-- What answers a request that asks for no asset. -/
def dispatch : Act c Unit :=
  match (routes site req).find? fun route => utf8 route.path == req.path with
  | none => notFound site req
  | some route => route.handler req

def serveAsset (name : String) : Act c Unit :=
  match site.asset name with
  | none => pure ()
  | some (data, kind) => respond fun res =>
      let res := { res with status := 200 }.addHeader "content-type" kind
      { res with body := res.body ++ data }

/-- An asset, or what a route says. -/
def serve : Act c Unit :=
  match assetName req with
  | some name => serveAsset site name
  | none => dispatch site req

/-- `handle`. -/
def handle : Act c Unit := do
  modify fun s => { s with session := "" }
  serve site req
  respond fun res => securityHeaders res (isStatic req)

end

end OmtClient.Web.App
