import RamaPg.Proxy.Session
import RamaPg.Protocol.Framing
import RamaPg.Protocol.RoundTrip

/-!
# The plaintext entry point

The model of `PgProxy::serve` on the client's byte stream: the peek at the first byte, then startup
packets until one of them ends the loop. A list of chunk bounds is the reads of one round; when they
run out the proxy is still waiting. What the TLS acceptor does with the stream it is given, with the
authenticator and the forwarder behind it, is a parameter.
-/

namespace RamaPg.Startup

open RamaPg.Lib RamaPg.Codec

/-! ## Startup packets in chunks -/

/-- `read_startup_frame` with the reads that complete: `read_i32`, then `read_exact` behind it. -/
def readStartupFrameIn (stream : Bytes) (sched : List Nat) :
    Outcome (Except IoError Bytes) × Bytes :=
  match readExact 4 stream sched with
  | (.done (.ok [a, b, c, d]), rest, sched) =>
    let len := i32OfBe a b c d
    if 8 ≤ len ∧ len ≤ maxStartupPacketLen then
      match fill earlyEof len.toNat [a, b, c, d] rest sched with
      | (r, rest, _) => (r, rest)
    else (.done (.error (invalid s!"invalid startup packet length: {len}")), rest)
  | (.done (.ok _), rest, _) => (.done (.error earlyEof), rest)
  | (.done (.error e), rest, _) => (.done (.error e), rest)
  | (.pending, rest, _) => (.pending, rest)

/-- `read_startup_request`. -/
def readStartupRequestIn (stream : Bytes) (sched : List Nat) :
    Outcome (Except IoError StartupRequest) × Bytes :=
  match readStartupFrameIn stream sched with
  | (.done (.ok frame), rest) => (.done (StartupRequest.parse frame), rest)
  | (.done (.error e), rest) => (.done (.error e), rest)
  | (.pending, rest) => (.pending, rest)

end RamaPg.Startup

namespace RamaPg.Proxy

open RamaPg.Lib RamaPg.Codec RamaPg.Startup

/-! ## The entry point -/

section

variable {β : Type}

/-- How the plaintext phase ends; `tls` is what the acceptor does with the stream it is given. -/
inductive EntryEnd (β : Type) where
  | waiting
  | tls (b : β)
  | closed
  | failed (e : IoError)

/-- The requests that were read, the plaintext that was written, the keys that were cancelled. -/
structure Entry (β : Type) where
  received : List StartupRequest
  output : Bytes
  cancelled : List CancelKey
  ending : EntryEnd β

/-- A request that is answered before the rest. -/
def Entry.answered (r : StartupRequest) (bs : Bytes) (e : Entry β) : Entry β :=
  { e with received := r :: e.received, output := bs ++ e.output }

def requiresTls : Bytes :=
  Message.fatalError (ascii "08004")
    (ascii "rama-pg requires a TLS connection (use sslmode=require or higher)")

namespace PgProxy

/-- The loop of `PgProxy::serve`. -/
def entryLoop (acceptor : Bytes → β) : List (List Nat) → Bytes → Entry β
  | [], _ => ⟨[], [], [], .waiting⟩
  | sched :: reads, stream =>
    match readStartupRequestIn stream sched with
    | (.pending, _) => ⟨[], [], [], .waiting⟩
    | (.done (.error e), _) => ⟨[], [], [], .failed e⟩
    | (.done (.ok .ssl), rest) => ⟨[.ssl], [83], [], .tls (acceptor rest)⟩
    | (.done (.ok .gssEnc), rest) => (entryLoop acceptor reads rest).answered .gssEnc [78]
    | (.done (.ok (.startup msg)), _) => ⟨[.startup msg], requiresTls, [], .closed⟩
    | (.done (.ok (.cancel key)), _) => ⟨[.cancel key], [], [key], .closed⟩

/-- `PgProxy::serve`. The peek returns the first byte of the stream, if it has one. -/
def serve (acceptor : Bytes → β) (reads : List (List Nat)) (stream : Bytes) : Entry β :=
  if stream.head? = some 0x16 then ⟨[], [], [], .tls (acceptor stream)⟩
  else entryLoop acceptor reads stream

end PgProxy

/-! ## What the loop can do -/

variable {acceptor : Bytes → β}

end

end RamaPg.Proxy
