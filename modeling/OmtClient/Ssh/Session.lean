import OmtClient.Ssh.Kex

/-!
# A session

`crates/omt-deploy/src/ssh/transport.rs` (`recv`, `order_hostkeys`, `open`) and
`mod.rs` (`Session::connect`, `Drop`): a connection is opened with the first key
exchange; then the authentication and channel code sends and receives packets of
its own choice through the transport; at the end, or after any failure, the
session is dropped, which sends a disconnect.

What the authentication and channel code does between is any list of `Call`s, so
a property of every session holds whatever that code sends, and whether or not it
goes on after an error.
-/

namespace OmtClient.Ssh

open OmtClient.Lib Prog

section

variable (w : World) (l : Library)

/-- `describe_disconnect`. -/
def describeDisconnect (payload : Bytes) : String :=
  let (reason, text) :=
    match Wire.u32 (payload.drop 1) with
    | none => (0, [])
    | some (reason, r) => (reason.toNat, ((Wire.string r).map Prod.fst).getD [])
  let safe := (text.take 512).map fun c =>
    if 0x20 ≤ c ∧ c < 0x7f then Char.ofNat c.toNat else '?'
  "the SSH server disconnected (reason " ++ toString reason ++ "): " ++ String.ofList safe

/-- Handles one packet; `some` when the caller should see it. -/
def recvTurn : Client (Option Recv) := do
  match ← readPacket w with
  | .timeout => pure (some .timeout)
  | .packet => do
    let t ← get
    let got := t.msgType
    if got = Msg.disconnect then fail (describeDisconnect t.payload)
    else if got = Msg.ignore ∨ got = Msg.debug then pure none
    else if got = Msg.unimplemented then
      fail "the SSH server rejected a message as unimplemented"
    else if got = Msg.extInfo then do
      handleExtInfo
      pure none
    else if got = Msg.kexInit then do
      -- a server-initiated re-key, before anything else is sent
      kexRun w l true
      pure none
    else if got = Msg.globalRequest then
      match (Wire.string t.body).bind fun (_, r) => Wire.boolean r with
      | none => fail "the SSH server sent a malformed global request"
      | some (true, _) => do
        send w [Msg.requestFailure]
        pure none
      | some (false, _) => pure none
    else pure (some .packet)

/-- `Transport::recv`: the next packet the caller should see. -/
def recv : Client Recv := do
  let t ← get
  loop (recvTurn w l) .stuck (t.unread + 1)

/-- The entries of `HOSTKEY_LIST`. -/
def hostkeyList : List String :=
  ["ssh-ed25519", "ecdsa-sha2-nistp256", "ecdsa-sha2-nistp384", "ecdsa-sha2-nistp521",
    "rsa-sha2-512", "rsa-sha2-256"]

/-- `order_hostkeys`: the algorithms whose key type known_hosts lists first. -/
def orderHostkeys (knownTypes : Bytes) : List String :=
  let listed := fun alg => Wire.namelistHas knownTypes
    (if alg = "rsa-sha2-512" ∨ alg = "rsa-sha2-256" then "ssh-rsa" else alg)
  hostkeyList.filter listed ++ hostkeyList.filter fun alg => !listed alg

/-- `Transport::open`: TCP connect, version exchange and the first key exchange. -/
def openTransport (host : String) (port : Nat) (knownHosts : String) : Client Unit := do
  modify fun t => { t with host, port, knownHosts }
  match l.knownTypes knownHosts host port with
  | .error e => fail e
  | .ok types => do
    modify fun t => { t with preferredHostkeys := orderHostkeys types }
    let connected ← luck w
    if !connected then fail ("cannot connect to " ++ host ++ ":" ++ toString port)
    else
      modify fun t => { t with sock := true }
      exchangeIdentification w
      kexRun w l false
      let inTime ← luck w
      if inTime then pure () else fail "SSH connection timed out"

/-- One use of the transport by the authentication or channel code. -/
inductive Call
  | send (payload : Bytes)
  | recv
  deriving DecidableEq, Repr

def call : Call → Client Unit
  | .send payload => send w payload
  | .recv => do
    let _ ← recv w l
    pure ()

/-- The calls of a session, each made whether or not the one before it failed. -/
def calls : List Call → Client Unit
  | [] => pure ()
  | c :: cs => do
    let _ ← attempt (call w l c)
    calls cs

/-- `Drop`. -/
def drop : Client Unit := do
  disconnect w 11 "disconnected by user"
  modify fun t => { t with sock := false }

/-- A whole session: a connection that cannot be opened is dropped at once. -/
def session (host : String) (port : Nat) (knownHosts : String) (cs : List Call) :
    Client Unit := do
  match ← attempt (openTransport w l host port knownHosts) with
  | .error _ => drop w
  | .ok () => do
    calls w l cs
    drop w

/-- The transport a session with this server starts and ends as. -/
def sessionEnd (host : String) (port : Nat) (knownHosts : String) (arrivals : List Arrival)
    (cs : List Call) : Transport :=
  ((session w l host port knownHosts cs).run { arrivals }).2

end

end OmtClient.Ssh
