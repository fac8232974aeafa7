import RamaPg.Lib.Machine
import RamaPg.Pool.Control

/-!
# The pooled relay over byte streams

One run of `relay_pooled` with its readers. The client's reader lives as long as the session; the
backend's is created afresh by every call of `relay_to_next_rfq` and dropped at its end, while
`Lease::reset` reads the connection directly. A poll of the `select!` takes the reads that complete
on the backend and, when its `read_frame` is still pending, those that complete on the client.

`leases` records, newest first, what passed over each connection leased so far, and `taken` the
frames read from the client, each with the backend a transaction was then open on.
-/

namespace RamaPg.Pool

open RamaPg.Lib RamaPg.Codec

/-- One lease: the bytes its backend delivers while it lasts, the frames the relay read from it,
and the frames written to either side. -/
structure LeaseTrace where
  conn : ConnId
  stream : Bytes
  read : List RawMessage
  toClient : List RawMessage
  toBackend : List RawMessage

structure Relay where
  phase : Phase
  client : FramedReader
  clientRest : Bytes
  backend : FramedReader
  backendRest : Bytes
  taken : List (Option ConnId × RawMessage)
  leases : List LeaseTrace

/-- The connection whose last `ReadyForQuery` left a transaction open. -/
def pinOf (forwarded : List (ConnId × RawMessage)) : Option ConnId :=
  match (forwarded.filter fun x => x.2.tag == Tag.readyForQuery).getLast? with
  | some (c, m) => if rfqStatus m = 73 then none else some c
  | none => none

def LeaseTrace.record (l : LeaseTrace) : Effect → LeaseTrace
  | .send _ m true => { l with toBackend := l.toBackend ++ [m] }
  | .take _ m => { l with read := l.read ++ [m] }
  | .toClient _ m true => { l with toClient := l.toClient ++ [m] }
  | _ => l

namespace Relay

/-- The client frames written to backends, in order, leaving out the reset query. -/
def written (st : Relay) : List (ConnId × RawMessage) :=
  st.leases.reverse.flatMap fun l => l.toBackend.map (l.conn, ·)

/-- The frames written to the client, in order. -/
def forwarded (st : Relay) : List (ConnId × RawMessage) :=
  st.leases.reverse.flatMap fun l => l.toClient.map (l.conn, ·)

def pin (st : Relay) : Option ConnId := pinOf st.forwarded

/-- `relay_pooled` is entered with a client that is to deliver `stream`. -/
def start (stream : Bytes) : Relay :=
  ⟨.idle, FramedReader.new, stream, FramedReader.new, [], [], []⟩

/-- Whether a step from `p` to `p'` calls `relay_to_next_rfq`. -/
def entersRelay (p p' : Phase) : Bool :=
  match p' with
  | .relay _ =>
    match p with
    | .forward _ _ => true
    | .deliver _ m => m.tag == Tag.readyForQuery
    | _ => false
  | _ => false

/-- An effect is recorded with the current lease. -/
def recorded (st : Relay) (e : Effect) : List LeaseTrace :=
  match st.leases with
  | l :: ls => l.record e :: ls
  | [] => []

/-- The program goes to `p` with the effect `e`. -/
def next (st : Relay) (p : Phase) (e : Effect) : Relay :=
  { st with
    phase := p
    backend := if entersRelay st.phase p then FramedReader.new else st.backend
    leases := st.recorded e }

/-- The program takes the event `i`. -/
def on (mode : PoolMode) (st : Relay) (i : In) : Option Relay :=
  (st.phase.on mode (some discardAll) i).map fun x => st.next x.1 x.2

/-- The program takes what `read_frame` returned from the client. -/
def onClient (mode : PoolMode) (st : Relay) (r : Codec.Result) : Option Relay :=
  match r with
  | .ok (some m) => on mode { st with taken := st.taken ++ [(st.pin, m)] } (.client r)
  | _ => on mode st (.client r)

/-- `client.read_frame()` is polled. -/
def pollClient (mode : PoolMode) (st : Relay) (sched : List Nat) : Option Relay :=
  match st.client.readFrame st.clientRest sched with
  | (.pending, client, rest) => some { st with client := client, clientRest := rest }
  | (.done r, client, rest) => onClient mode { st with client := client, clientRest := rest } r

/-- The `select!` of `relay_to_next_rfq` is polled, the backend first. -/
def pollSelect (mode : PoolMode) (st : Relay) (backend client : List Nat) : Option Relay :=
  match st.backend.readFrame st.backendRest backend with
  | (.done r, reader, rest) =>
    on mode { st with backend := reader, backendRest := rest } (.backend r)
  | (.pending, reader, rest) =>
    pollClient mode { st with backend := reader, backendRest := rest } client

/-- `read_message` in the loop of `Lease::reset` returns. -/
def readReset (mode : PoolMode) (st : Relay) (sched : List Nat) : Option Relay :=
  match readMessage st.backendRest sched with
  | (.done (.ok m), rest) => on mode { st with backendRest := rest } (.backend (.ok (some m)))
  | (.done (.error e), rest) => on mode { st with backendRest := rest } (.backend (.error e))
  | (.pending, _) => none

/-- The events that are not the outcome of a read that went well. -/
def other : In → Bool
  | .client (.ok _) | .backend (.ok _) | .leased _ | .established _ _ _ => false
  | _ => true

end Relay

inductive RelayAct where
  /-- An event of the program's own, or a read that failed. -/
  | event (i : In)
  /-- The pool leases connection `c`, which is to deliver `stream`. -/
  | lease (c : ConnId) (stream : Bytes)
  | pollClient (sched : List Nat)
  | pollSelect (backend client : List Nat)
  | readReset (sched : List Nat)

def Relay.step (mode : PoolMode) (st : Relay) : RelayAct → Option Relay
  | .event i => if Relay.other i then st.on mode i else none
  | .lease c stream =>
    match st.on mode (.leased c) with
    | some st' =>
      some { st' with backendRest := stream, leases := ⟨c, stream, [], [], []⟩ :: st.leases }
    | none => none
  | .pollClient sched => if st.phase = .idle then st.pollClient mode sched else none
  | .pollSelect backend client =>
    match st.phase with
    | .relay _ => st.pollSelect mode backend client
    | _ => none
  | .readReset sched =>
    match st.phase with
    | .drain _ => st.readReset mode sched
    | _ => none

end RamaPg.Pool
