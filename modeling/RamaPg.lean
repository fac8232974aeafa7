import RamaPg.Lib.Machine
import RamaPg.Lib.Monitor
import RamaPg.Lib.Bytes
import RamaPg.Protocol.Codec
import RamaPg.Protocol.Framing
import RamaPg.Protocol.Streaming
import RamaPg.Protocol.ResultSet
import RamaPg.Lib.Text
import RamaPg.Lib.SqlLexer
import RamaPg.Protocol.Identity
import RamaPg.Pool.Cancellation
import RamaPg.Pool.Clean
import RamaPg.Pool.Fidelity
import RamaPg.Pool.Isolation
import RamaPg.Pool.StartupParams
import RamaPg.Lib.Base64
import RamaPg.Lib.Dialog
import RamaPg.Lib.Sequence
import RamaPg.Lib.Sha256
import RamaPg.Lib.Kdf
import RamaPg.Pool.Connector
import RamaPg.Pool.Login
import RamaPg.Proxy.Direct
import RamaPg.Proxy.Negotiation
import RamaPg.Scram.Interop
import RamaPg.Scram.Soundness
import RamaPg.Scram.Authenticity
import RamaPg.Scram.Binding
import RamaPg.Scram.Enumeration
import RamaPg.Scram.Derivation
import RamaPg.Scram.Grammar
import RamaPg.Proxy.Splice
import RamaPg.Proxy.Transparency
import RamaPg.Proxy.PassThrough
import RamaPg.Cancel.Registry
import RamaPg.Cancel.Delivery
import RamaPg.Proxy.Cancels
import RamaPg.Pgbouncer.Authid
import RamaPg.Proxy.Custom
import RamaPg.Proxy.Results
import RamaPg.Proxy.Transactions
import RamaPg.Proxy.Separators
import RamaPg.Proxy.Entry
import RamaPg.Pgbouncer.Admin
import RamaPg.Proxy.Forward
import RamaPg.Pool.Roles
import RamaPg.Pool.Replicas
import RamaPg.Pgbouncer.Catalog
import RamaPg.Pgbouncer.Config
import RamaPg.Pool.Gateway
import RamaPg.Pool.SessionMode
import RamaPg.Proxy.Conversation
import RamaPg.Proxy.Conformance
