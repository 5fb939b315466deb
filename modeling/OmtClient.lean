import OmtClient.Lib.Drive
import OmtClient.Ssh.Wire
import OmtClient.Ssh.Sftp
import OmtClient.Ssh.Upload
import OmtClient.Ssh.Tiling
import OmtClient.Ssh.Abandon
import OmtClient.Omt.Protocol
import OmtClient.Lib.Framing
import OmtClient.Omt.Channel
import OmtClient.Omt.Stream
import OmtClient.Lib.Prog
import OmtClient.Ssh.Cipher
import OmtClient.Ssh.Transport
import OmtClient.Ssh.RoundTrip
import OmtClient.Ssh.Kex
import OmtClient.Ssh.Session
import OmtClient.Ssh.Effects
import OmtClient.Ssh.Nonce
import OmtClient.Ssh.Handshake
import OmtClient.Common.Json
import OmtClient.Common.JsonRead
import OmtClient.Common.Nfc
import OmtClient.Common.NfcExact
import OmtClient.Common.NfcForm
import OmtClient.Common.NfcTables
import OmtClient.Common.Timefmt
import OmtClient.Common.Calendar
import OmtClient.Receiver.Status
import OmtClient.Web.Playback
import OmtClient.Common.Buf
import OmtClient.Lib.Text
import OmtClient.Receiver.Ceiling
import OmtClient.Receiver.Conceal
import OmtClient.Web.Ceiling
import OmtClient.Lib.Bits
import OmtClient.Lib.Checked
import OmtClient.Lib.Combining
import OmtClient.Web.Deflate
import OmtClient.Lib.Inflate
import OmtClient.Web.Inflate
import OmtClient.Web.Http
import OmtClient.Web.Connection
import OmtClient.Common.JsonDoc
import OmtClient.Common.JsonSound
import OmtClient.Lib.Evict
import OmtClient.Web.Auth
import OmtClient.Web.Sessions
import OmtClient.Lib.Address
import OmtClient.Omt.Target
import OmtClient.Web.Network
import OmtClient.Web.Source
import OmtClient.Common.Xml
import OmtClient.Common.XmlLex
import OmtClient.Common.XmlUnique
import OmtClient.Common.XmlIndex
import OmtClient.Web.Settings
import OmtClient.Receiver.Discovery
import OmtClient.Web.Agreement
import OmtClient.Lib.Fifo
import OmtClient.Receiver.Handoff
import OmtClient.Lib.Loop
import OmtClient.Receiver.Audio
import OmtClient.Vmx.Pool
import OmtClient.Web.RateLimit
import OmtClient.Receiver.Present
import OmtClient.Receiver.Scale
import OmtClient.Vmx.Bits
import OmtClient.Vmx.Kernels
import OmtClient.Vmx.Planar
import OmtClient.Vmx.Plane
import OmtClient.Vmx.Slice
import OmtClient.Vmx.Frame
import OmtClient.Vmx.Claim
import OmtClient.Vmx.Place
import OmtClient.Vmx.History
import OmtClient.Lib.Position
import OmtClient.Receiver.Dbus
import OmtClient.Receiver.DbusIndex
import OmtClient.Receiver.Marshal
import OmtClient.Receiver.Mdns
import OmtClient.Lib.Archive
import OmtClient.Web.Zip
import OmtClient.Web.Form
import OmtClient.Web.Machine
import OmtClient.Web.App
import OmtClient.Web.Access
import OmtClient.Vmx.Lookahead
import OmtClient.Common.JsonComplete
import OmtClient.Common.JsonBudget
import OmtClient.Common.JsonString
import OmtClient.Receiver.Bus
import OmtClient.Receiver.StatusFile
import OmtClient.Receiver.Detail
import OmtClient.Deploy.Machine
import OmtClient.Deploy.Ops
import OmtClient.Deploy.Wifi
import OmtClient.Deploy.Jobs
import OmtClient.Deploy.Calm
import OmtClient.Gui.Form
import OmtClient.Vmx.Load
import OmtClient.Vmx.Cursor
import OmtClient.Vmx.Watch
import OmtClient.Lib.Search
import OmtClient.Lib.Sse2
import OmtClient.Vmx.Sse2
import OmtClient.Gui.App
import OmtClient.Lib.Journal
import OmtClient.Gui.Log
import OmtClient.Gui.Confirm
import OmtClient.Ssh.Base64
import OmtClient.Ssh.Negotiate
import OmtClient.Lib.Wildcard
import OmtClient.Ssh.KnownHosts
import OmtClient.Web.Response
import OmtClient.Web.Heads
import OmtClient.Common.Rfc3339
import OmtClient.Web.Splice
import OmtClient.Ssh.Channel
import OmtClient.Ssh.Credit
import OmtClient.Lib.Durable
import OmtClient.Common.Replace
import OmtClient.Deploy.Manifest
import OmtClient.Gui.Http
import OmtClient.Ssh.Mpint
import OmtClient.Gui.Query
import OmtClient.Gui.Mounts
import OmtClient.Common.JsonFloat
import OmtClient.Deploy.Redact
import OmtClient.Gui.Fields
import OmtClient.Gui.Reader
import OmtClient.Deploy.Https
import OmtClient.Lib.Shell
import OmtClient.Deploy.Quoting
import OmtClient.Deploy.Transaction
import OmtClient.Deploy.Atomic
import OmtClient.Deploy.Pending
import OmtClient.Receiver.Play
