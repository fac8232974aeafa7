import Mathlib.Data.List.Forall2
import RamaPg.Pool.Relay

/-!
# Nothing is lost, repeated or misdirected by the relay

What a session writes to its backends is what it took from its client, frame by frame; what a lease
forwards to the client is what its backend sent, up to the `ReadyForQuery` that ends the lease; and
in transaction mode a frame taken while a transaction is open goes to the backend it is open on. The
readers' buffers may hold the beginning of a frame at any point, and a reader is dropped only with
an empty buffer.
-/

namespace RamaPg.Pool

open RamaPg.Lib RamaPg.Codec

def bytesOf (ms : List RawMessage) : Bytes := ms.flatMap (·.frame)

/-- The frames `ms` were read off `stream`, in full and in order, with `rest` still to come. -/
structure Consumed (stream : Bytes) (ms : List RawMessage) (rest : Bytes) : Prop where
  bytes : stream = bytesOf ms ++ rest
  frames : decode maxMessageLen stream =
    ms.map (fun m => .ok (some m)) ++ decode maxMessageLen rest

theorem Consumed.nil (stream : Bytes) : Consumed stream [] stream := ⟨rfl, rfl⟩

theorem Consumed.snoc {stream rest rest' : Bytes} {ms : List RawMessage} {m : RawMessage}
    (h : Consumed stream ms rest) (hb : rest = m.frame ++ rest')
    (hd : decode maxMessageLen rest = .ok (some m) :: decode maxMessageLen rest') :
    Consumed stream (ms ++ [m]) rest' := by
  refine ⟨?_, ?_⟩
  · rw [h.bytes, hb]
    simp [bytesOf]
  · rw [h.frames, hd]
    simp

/-- The `ReadyForQuery`s at which `run_lease` ends a lease. -/
def endsLease (mode : PoolMode) (m : RawMessage) : Bool :=
  m.tag == Tag.readyForQuery && (rfqStatus m == 73 || mode == .statement)

namespace LeaseTrace

/-- What the lease forwarded is what it read, and what it read is what the backend sent. -/
structure Sound (l : LeaseTrace) : Prop where
  forwarded : l.toClient <+: l.read
  stream : ∃ rest, Consumed l.stream l.read rest

/-- The lease forwarded all that it read, and ended with the first frame that ends a lease. -/
def Ended (mode : PoolMode) (l : LeaseTrace) : Prop :=
  l.toClient = l.read ∧ ∃ ms m, l.read = ms ++ [m] ∧ endsLease mode m = true ∧
    ∀ x ∈ ms, endsLease mode x = false

end LeaseTrace

/-- A frame taken from the client is the frame written, and was written where a transaction was
open when it was taken. -/
def Placed (mode : PoolMode) (t : Option ConnId × RawMessage) (w : ConnId × RawMessage) : Prop :=
  t.2 = w.2 ∧ (mode = .transaction → ∀ c, t.1 = some c → c = w.1)

namespace Relay

variable {mode : PoolMode} {st st' : Relay} {c : ConnId} {m : RawMessage}

/-- All frames taken but the last ones, `ms`, were written. -/
def Owes (mode : PoolMode) (st : Relay) (ms : List (Option ConnId × RawMessage)) : Prop :=
  ∃ front, st.taken = front ++ ms ∧ List.Forall₂ (Placed mode) front st.written

/-- The client frame `m` is still to be written, to connection `c`. -/
def OwesTo (mode : PoolMode) (st : Relay) (m : RawMessage) (c : ConnId) : Prop :=
  ∃ o, st.Owes mode [(o, m)] ∧ (mode = .transaction → ∀ c', o = some c' → c' = c)

/-- No lease is under way that still forwards. -/
structure Settled (mode : PoolMode) (st : Relay) : Prop where
  ended : ∀ l ∈ st.leases, l.Ended mode
  pin : mode = .transaction → st.pin = none
  waiting : st.client.Waiting

/-- Connection `c` is leased: `late` are the frames read from it and not yet forwarded, `unread` the
bytes of it still to be read. -/
structure OnLease (mode : PoolMode) (st : Relay) (c : ConnId) (late : List RawMessage)
    (unread : Bytes) : Prop where
  lease : ∃ l ls, st.leases = l :: ls ∧ l.conn = c ∧ (∀ l' ∈ ls, l'.Ended mode) ∧
    Consumed l.stream l.read unread ∧ l.read = l.toClient ++ late ∧
    ∀ m ∈ l.toClient, endsLease mode m = false
  pin : mode = .transaction → ∀ c', st.pin = some c' → c' = c
  waiting : st.client.Waiting

/-- What each phase knows; the phases that `relay_pooled` does not go through have no state. -/
def At (mode : PoolMode) (st : Relay) : Prop :=
  match st.phase with
  | .idle | .checkedIn | .discarded .keepServing | .reset _ _ | .drain _ | .checkin _
  | .discard _ .keepServing => st.Settled mode ∧ st.Owes mode []
  | .pick (.transaction m) | .connect (.transaction m) _ =>
    st.Settled mode ∧ ∃ o, st.Owes mode [(o, m)] ∧ (mode = .transaction → o = none)
  | .held (.transaction m) c | .forward c m =>
    st.OnLease mode c [] st.backendRest ∧ st.OwesTo mode m c
  | .relay c =>
    st.OnLease mode c [] (st.backend.buf ++ st.backendRest) ∧ st.backend.Waiting ∧ st.Owes mode []
  | .send c m | .terminate c m =>
    st.OnLease mode c [] (st.backend.buf ++ st.backendRest) ∧ st.backend.Waiting ∧
      st.OwesTo mode m c
  | .deliver c m =>
    st.OnLease mode c [m] st.backendRest ∧ st.backend.buf = [] ∧ st.Owes mode []
  | .discard _ _ | .discarded _ | .closing | .closed => ∃ ms, st.Owes mode ms
  | _ => False

structure Inv (mode : PoolMode) (stream : Bytes) (st : Relay) : Prop where
  client : Consumed stream (st.taken.map (·.2)) (st.client.buf ++ st.clientRest)
  clientMax : st.client.maxLen = maxMessageLen
  backendMax : st.backend.maxLen = maxMessageLen
  sound : ∀ l ∈ st.leases, l.Sound
  at_ : st.At mode

theorem At.owes (h : st.At mode) : ∃ ms, st.Owes mode ms := by
  unfold At at h
  split at h
  all_goals first
    | exact h
    | exact h.elim
    | obtain ⟨-, ho⟩ := h; exact ⟨_, ho⟩
    | obtain ⟨-, -, ho⟩ := h; exact ⟨_, ho⟩
    | obtain ⟨-, _, ho, -⟩ := h; exact ⟨_, ho⟩
    | obtain ⟨-, -, _, ho, -⟩ := h; exact ⟨_, ho⟩

theorem inv_start (stream : Bytes) : Inv mode stream (start stream) where
  client := Consumed.nil _
  clientMax := rfl
  backendMax := rfl
  sound := nofun
  at_ := ⟨⟨nofun, fun _ => rfl, FramedReader.waiting_nil _⟩, [], rfl, .nil⟩

/-! ## What the invariants depend on -/

theorem Owes.congr {ms : List (Option ConnId × RawMessage)} (h : st.Owes mode ms)
    (ht : st'.taken = st.taken) (hl : st'.leases = st.leases) : st'.Owes mode ms := by
  unfold Owes written at h ⊢
  rwa [ht, hl]

theorem OwesTo.congr (h : st.OwesTo mode m c) (ht : st'.taken = st.taken)
    (hl : st'.leases = st.leases) : st'.OwesTo mode m c := by
  obtain ⟨o, ho, hc⟩ := h
  exact ⟨o, ho.congr ht hl, hc⟩

theorem pin_congr (hl : st'.leases = st.leases) : st'.pin = st.pin := by
  simp only [pin, forwarded, hl]

theorem Settled.congr (h : st.Settled mode) (hl : st'.leases = st.leases)
    (hw : st'.client.Waiting) : st'.Settled mode :=
  ⟨by rw [hl]; exact h.ended, by rw [pin_congr hl]; exact h.pin, hw⟩

theorem OnLease.congr {late : List RawMessage} {unread : Bytes} (h : st.OnLease mode c late unread)
    (hl : st'.leases = st.leases) (hw : st'.client.Waiting) : st'.OnLease mode c late unread :=
  ⟨by rw [hl]; exact h.lease, by rw [pin_congr hl]; exact h.pin, hw⟩

theorem leases_next {p : Phase} {e : Effect} (h : ∀ l : LeaseTrace, l.record e = l) :
    (st.next p e).leases = st.leases := by
  simp only [next, recorded]
  cases st.leases with
  | nil => rfl
  | cons l ls => simp only [h]

/-- An effect that no lease records. -/
theorem Owes.next {ms : List (Option ConnId × RawMessage)} (h : st.Owes mode ms) {p : Phase}
    {e : Effect} (he : ∀ l : LeaseTrace, l.record e = l) : (st.next p e).Owes mode ms :=
  h.congr rfl (leases_next he)

theorem Settled.next (h : st.Settled mode) {p : Phase} {e : Effect}
    (he : ∀ l : LeaseTrace, l.record e = l) : (st.next p e).Settled mode :=
  h.congr (leases_next he) h.waiting

theorem OnLease.next {late : List RawMessage} {unread : Bytes} (h : st.OnLease mode c late unread)
    {p : Phase} {e : Effect} (he : ∀ l : LeaseTrace, l.record e = l) :
    (st.next p e).OnLease mode c late unread :=
  h.congr (leases_next he) h.waiting

/-! ## What the effects do -/

/-- The client frame that is owed is written to the leased connection. -/
theorem OwesTo.send {late : List RawMessage} {unread : Bytes} (h : st.OwesTo mode m c)
    (hl : st.OnLease mode c late unread) (p : Phase) : (st.next p (.send c m true)).Owes mode [] := by
  obtain ⟨o, ⟨front, ht, hf⟩, hc⟩ := h
  obtain ⟨l, ls, hls, rfl, -⟩ := hl.lease
  refine ⟨st.taken, by simp [Relay.next], ?_⟩
  have hw : (st.next p (.send l.conn m true)).written = st.written ++ [(l.conn, m)] := by
    simp [Relay.next, recorded, written, hls, LeaseTrace.record]
  rw [hw, ht]
  exact List.rel_append hf (.cons ⟨rfl, hc⟩ .nil)

theorem OnLease.send {late : List RawMessage} {unread : Bytes} (h : st.OnLease mode c late unread)
    (p : Phase) (m : RawMessage) : (st.next p (.send c m true)).OnLease mode c late unread := by
  obtain ⟨l, ls, hls, hc, hpast, hcon, hread, hopen⟩ := h.lease
  have hfw : (st.next p (.send c m true)).forwarded = st.forwarded := by
    simp [Relay.next, recorded, forwarded, hls, LeaseTrace.record]
  refine ⟨⟨l.record (.send c m true), ls, ?_, hc, hpast, hcon, hread, hopen⟩, ?_, h.waiting⟩
  · simp [Relay.next, recorded, hls]
  · simpa only [Relay.pin, hfw] using h.pin

/-- A frame is read from the leased connection. -/
theorem OnLease.take {unread rest : Bytes} (h : st.OnLease mode c [] unread)
    (hb : unread = m.frame ++ rest)
    (hd : decode maxMessageLen unread = .ok (some m) :: decode maxMessageLen rest) (p : Phase) :
    (st.next p (.take c m)).OnLease mode c [m] rest := by
  obtain ⟨l, ls, hls, hc, hpast, hcon, hread, hopen⟩ := h.lease
  have hfw : (st.next p (.take c m)).forwarded = st.forwarded := by
    simp [Relay.next, recorded, forwarded, hls, LeaseTrace.record]
  refine ⟨⟨l.record (.take c m), ls, ?_, hc, hpast, hcon.snoc hb hd, ?_, hopen⟩, ?_, h.waiting⟩
  · simp [Relay.next, recorded, hls]
  · simpa [LeaseTrace.record] using hread
  · simpa only [Relay.pin, hfw] using h.pin

theorem pinOf_snoc (fs : List (ConnId × RawMessage)) (c : ConnId) (m : RawMessage) :
    pinOf (fs ++ [(c, m)]) =
      if m.tag = Tag.readyForQuery then (if rfqStatus m = 73 then none else some c)
      else pinOf fs := by
  unfold pinOf
  by_cases h : m.tag = Tag.readyForQuery <;> simp [h, List.filter_append]

theorem forwarded_toClient {late : List RawMessage} {unread : Bytes}
    (h : st.OnLease mode c late unread) (p : Phase) (m : RawMessage) :
    (st.next p (.toClient c m true)).forwarded = st.forwarded ++ [(c, m)] := by
  obtain ⟨l, ls, hls, rfl, -⟩ := h.lease
  simp [Relay.next, recorded, forwarded, hls, LeaseTrace.record]

theorem Owes.toClient {ms : List (Option ConnId × RawMessage)} (h : st.Owes mode ms) (p : Phase)
    (c : ConnId) (m : RawMessage) (ok : Bool) : (st.next p (.toClient c m ok)).Owes mode ms := by
  have hw : (st.next p (.toClient c m ok)).written = st.written := by
    cases ok <;> cases hls : st.leases <;>
      simp [Relay.next, recorded, written, hls, LeaseTrace.record]
  unfold Owes at h ⊢
  rwa [hw]

/-- A frame that does not end the lease is forwarded. -/
theorem OnLease.toClient {unread : Bytes} (h : st.OnLease mode c [m] unread)
    (hm : endsLease mode m = false) (p : Phase) :
    (st.next p (.toClient c m true)).OnLease mode c [] unread := by
  obtain ⟨l, ls, hls, hc, hpast, hcon, hread, hopen⟩ := h.lease
  refine ⟨⟨l.record (.toClient c m true), ls, ?_, hc, hpast, hcon, ?_, ?_⟩, ?_, h.waiting⟩
  · simp [Relay.next, recorded, hls]
  · simpa [LeaseTrace.record] using hread
  · simp only [LeaseTrace.record, List.forall_mem_append]
    exact ⟨hopen, by simpa using hm⟩
  · intro hmode c' hc'
    rw [Relay.pin, forwarded_toClient h, pinOf_snoc] at hc'
    split at hc'
    · split at hc'
      · cases hc'
      · exact (Option.some.inj hc').symm
    · exact h.pin hmode c' hc'

/-- The frame that ends the lease is forwarded. -/
theorem OnLease.settle {unread : Bytes} (h : st.OnLease mode c [m] unread)
    (hm : endsLease mode m = true) (p : Phase) : (st.next p (.toClient c m true)).Settled mode := by
  obtain ⟨l, ls, hls, hc, hpast, hcon, hread, hopen⟩ := h.lease
  refine ⟨?_, fun hmode => ?_, h.waiting⟩
  · have hl : (st.next p (.toClient c m true)).leases = l.record (.toClient c m true) :: ls := by
      simp [Relay.next, recorded, hls]
    rw [hl, List.forall_mem_cons]
    exact ⟨⟨hread.symm, l.toClient, m, hread, hm, hopen⟩, hpast⟩
  · simp only [endsLease, hmode, Bool.and_eq_true, beq_iff_eq, Bool.or_eq_true] at hm
    rw [Relay.pin, forwarded_toClient h, pinOf_snoc, if_pos hm.1]
    simpa using hm.2

/-! ## The program keeps it -/

theorem at_relayed {unread : Bytes} (hl : st.OnLease mode c [m] unread)
    (hrest : unread = st.backendRest) (hbuf : st.backend.buf = []) (ho : st.Owes mode []) :
    (st.next (relayed mode (some discardAll) c m) (.toClient c m true)).At mode := by
  have hnew : ∀ p, (st.next p (.toClient c m true)).backend.buf = [] := fun p => by
    simp only [next]
    split
    · rfl
    · exact hbuf
  have hrelay : ∀ p : Phase, p = .relay c → endsLease mode m = false →
      (st.next p (.toClient c m true)).At mode := fun p hp hm => by
    subst hp
    refine ⟨?_, ?_, ho.toClient _ c m true⟩
    · rw [hnew]
      subst hrest
      exact hl.toClient hm _
    · have : (st.next (.relay c) (.toClient c m true)).backend =
          ⟨[], (st.next (.relay c) (.toClient c m true)).backend.maxLen⟩ := by
        rw [← hnew (.relay c)]
      rw [this]
      exact FramedReader.waiting_nil _
  unfold relayed
  split
  next ht =>
    unfold runLease
    split
    next hs =>
      have hm : endsLease mode m = true := by simp [endsLease, ht, hs]
      exact ⟨hl.settle hm _, ho.toClient _ c m true⟩
    next hs =>
      split
      · exact hrelay _ rfl (by simp [endsLease, hs])
      next hmode =>
        exact ⟨hl.settle (by simp [endsLease, ht]) _, ho.toClient _ c m true⟩
      · exact ⟨_, ho.toClient _ c m true⟩
  next ht => exact hrelay _ rfl (by simp [endsLease, ht])

/-- A step on an event that is not the outcome of a read. -/
theorem at_other {i : In} {p : Phase} {e : Effect} (h : st.At mode) (hi : other i)
    (hon : st.phase.on mode (some discardAll) i = some (p, e)) : (st.next p e).At mode := by
  unfold At at h
  cases hph : st.phase with
  | idle =>
    rw [hph] at h hon
    cases i <;> cases hon
    rename_i r
    cases r with
    | ok => cases hi
    | error => exact ⟨_, h.2.next fun _ => rfl⟩
  | pick want =>
    rw [hph] at h hon
    cases want <;> first | exact h.elim | skip
    cases i <;> cases hon
    obtain ⟨hs, o, ho, hn⟩ := h
    exact ⟨hs.next fun _ => rfl, o, ho.next fun _ => rfl, hn⟩
  | connect want shard =>
    rw [hph] at h hon
    cases want <;> first | exact h.elim | skip
    cases i <;> first | (cases hi; done) | cases hon
    obtain ⟨-, o, ho, -⟩ := h
    exact ⟨_, ho.next fun _ => rfl⟩
  | held want c =>
    rw [hph] at h hon
    cases want <;> first | exact h.elim | skip
    cases i <;> cases hon
    exact ⟨h.1.next fun _ => rfl, h.2.congr rfl (leases_next fun _ => rfl)⟩
  | forward c m =>
    rw [hph] at h hon
    cases i <;> cases hon
    rename_i ok
    cases ok
    · obtain ⟨-, o, ho, -⟩ := h
      exact ⟨_, ho.next fun _ => rfl⟩
    · have hnew : (st.next (.relay c) (.send c m true)).backend = FramedReader.new := by
        simp [Relay.next, entersRelay, hph]
      show (st.next (.relay c) (.send c m true)).At mode
      refine ⟨?_, ?_, h.2.send h.1 _⟩
      · rw [hnew]
        exact h.1.send _ m
      · rw [hnew]
        exact FramedReader.waiting_nil _
  | relay c =>
    rw [hph] at h hon
    cases i <;> first | (cases hon; done) | skip
    case client r =>
      cases hon
      cases r with
      | ok => cases hi
      | error => exact ⟨_, h.2.2.next fun _ => rfl⟩
    case backend r =>
      cases r with
      | ok => cases hi
      | error =>
        cases hon
        exact ⟨_, h.2.2.next fun _ => rfl⟩
  | deliver c m =>
    rw [hph] at h hon
    cases i <;> cases hon
    rename_i ok
    cases ok
    · exact ⟨_, h.2.2.toClient _ c m false⟩
    · exact at_relayed h.1 rfl h.2.1 h.2.2
  | send c m =>
    rw [hph] at h hon
    cases i <;> cases hon
    rename_i ok
    cases ok
    · obtain ⟨-, -, o, ho, -⟩ := h
      exact ⟨_, ho.next fun _ => rfl⟩
    · have hsame : (st.next (.relay c) (.send c m true)).backend = st.backend := by
        simp [Relay.next, entersRelay, hph]
      show (st.next (.relay c) (.send c m true)).At mode
      refine ⟨?_, ?_, h.2.2.send h.1 _⟩
      · rw [hsame]
        exact h.1.send _ m
      · rw [hsame]
        exact h.2.1
  | terminate c m =>
    rw [hph] at h hon
    cases i <;> cases hon
    rename_i ok
    cases ok
    · obtain ⟨-, -, o, ho, -⟩ := h
      exact ⟨_, ho.next fun _ => rfl⟩
    · exact ⟨_, h.2.2.send h.1 _⟩
  | reset c m =>
    rw [hph] at h hon
    cases i <;> cases hon
    rename_i ok
    cases ok <;> exact ⟨h.1.next fun _ => rfl, h.2.next fun _ => rfl⟩
  | drain c =>
    rw [hph] at h hon
    cases i <;> first | (cases hi; done) | cases hon | skip
    case backend r =>
      cases r with
      | ok => cases hi
      | error =>
        cases hon
        exact ⟨h.1.next fun _ => rfl, h.2.next fun _ => rfl⟩
  | checkin c | checkedIn =>
    rw [hph] at h hon
    cases i <;> cases hon
    exact ⟨h.1.next fun _ => rfl, h.2.next fun _ => rfl⟩
  | discard c r | discarded r =>
    rw [hph] at h hon
    cases r <;> cases i <;> cases hon
    · exact ⟨h.1.next fun _ => rfl, h.2.next fun _ => rfl⟩
    all_goals
      obtain ⟨_, ho⟩ := h
      exact ⟨_, ho.next fun _ => rfl⟩
  | closing =>
    rw [hph] at h hon
    cases i <;> cases hon
    obtain ⟨_, ho⟩ := h
    exact ⟨_, ho.next fun _ => rfl⟩
  | closed =>
    rw [hph] at hon
    cases i <;> cases hon
  | _ =>
    rw [hph] at h
    exact h.elim

theorem At.of_deliver (h : st.At mode) (hph : st.phase = .deliver c m) :
    st.OnLease mode c [m] st.backendRest := by
  unfold At at h
  rw [hph] at h
  exact h.1

/-- What a lease read and forwarded stays sound. -/
theorem sound_next {i : In} {p : Phase} {e : Effect} (h : ∀ l ∈ st.leases, l.Sound)
    (ha : st.At mode) (hon : st.phase.on mode (some discardAll) i = some (p, e))
    (hi : ∀ m, i ≠ .backend (.ok (some m))) : ∀ l ∈ (st.next p e).leases, l.Sound := by
  cases e with
  | take c m => exact absurd (Phase.on_take hon).2 (hi m)
  | toClient c m ok =>
    cases ok
    · rw [leases_next fun _ => rfl]
      exact h
    · obtain ⟨l, ls, hls, -, -, hcon, hread, -⟩ := (ha.of_deliver (Phase.on_toClient hon)).lease
      simp only [Relay.next, recorded, hls, LeaseTrace.record, List.forall_mem_cons] at h ⊢
      exact ⟨⟨⟨[], by rw [List.append_nil, ← hread]⟩, _, hcon⟩, h.2⟩
  | send c m ok =>
    cases ok
    · rw [leases_next fun _ => rfl]
      exact h
    · cases hls : st.leases with
      | nil => simp [Relay.next, recorded, hls]
      | cons l ls =>
        simp only [Relay.next, recorded, hls, LeaseTrace.record, List.forall_mem_cons] at h ⊢
        exact ⟨⟨h.1.forwarded, h.1.stream⟩, h.2⟩
  | _ =>
    rw [leases_next fun _ => rfl]
    exact h

theorem backendMax_next {p : Phase} {e : Effect} (h : st.backend.maxLen = maxMessageLen) :
    (st.next p e).backend.maxLen = maxMessageLen := by
  simp only [Relay.next]
  split
  · rfl
  · exact h

theorem inv_event {stream : Bytes} {i : In} (h : st.Inv mode stream) (hi : other i)
    (hst : st.on mode i = some st') : st'.Inv mode stream := by
  obtain ⟨⟨p, e⟩, hon, rfl⟩ := Option.map_eq_some_iff.mp hst
  refine ⟨h.client, h.clientMax, backendMax_next h.backendMax, ?_, at_other h.at_ hi hon⟩
  refine sound_next h.sound h.at_ hon fun m he => ?_
  subst he
  cases hi

/-! ## Reads -/

/-- The readers move on without completing a frame. -/
theorem At.readers (h : st.At mode) (hph : st.phase = .idle ∨ ∃ c, st.phase = .relay c)
    {client backend : FramedReader} {clientRest backendRest : Bytes} (hc : client.Waiting)
    (hb : (∃ c, st.phase = .relay c) → backend.Waiting)
    (hbytes : backend.buf ++ backendRest = st.backend.buf ++ st.backendRest) :
    At mode { st with client, clientRest, backend, backendRest } := by
  unfold At at h ⊢
  rcases hph with hph | ⟨c, hph⟩
  · simp only [hph] at h ⊢
    exact ⟨h.1.congr rfl hc, h.2.congr rfl rfl⟩
  · simp only [hph] at h ⊢
    rw [hbytes]
    exact ⟨h.1.congr rfl hc, hb ⟨c, hph⟩, h.2.2.congr rfl rfl⟩

theorem At.waiting (h : st.At mode) (hph : st.phase = .idle ∨ ∃ c, st.phase = .relay c) :
    st.client.Waiting := by
  unfold At at h
  rcases hph with hph | ⟨c, hph⟩
  · rw [hph] at h
    exact h.1.waiting
  · rw [hph] at h
    exact h.1.waiting

theorem At.backend_waiting (h : st.At mode) (hph : ∃ c, st.phase = .relay c) :
    st.backend.Waiting := by
  obtain ⟨c, hph⟩ := hph
  unfold At at h
  rw [hph] at h
  exact h.2.1

theorem Owes.took {ms : List (Option ConnId × RawMessage)} (h : st.Owes mode [])
    (ht : st'.taken = st.taken ++ ms) (hl : st'.leases = st.leases) : st'.Owes mode ms := by
  obtain ⟨front, hf, hr⟩ := h
  refine ⟨front, by simpa [hf] using ht, ?_⟩
  unfold written at hr ⊢
  rwa [hl]

/-- The program takes a frame of the client. -/
theorem at_took {p : Phase} {e : Effect} (h : st.At mode)
    (hph : st.phase = .idle ∨ ∃ c, st.phase = .relay c)
    (hon : st.phase.on mode (some discardAll) (.client (.ok (some m))) = some (p, e)) :
    At mode (Relay.next { st with taken := st.taken ++ [(st.pin, m)] } p e) ∧ e = .none := by
  unfold At at h
  rcases hph with hph | ⟨c, hph⟩
  · rw [hph] at h hon
    cases hon
    refine ⟨?_, rfl⟩
    by_cases ht : m.tag = Tag.terminate
    · simp only [firstFrame, if_pos ht]
      exact ⟨_, h.2.took rfl (leases_next fun _ => rfl)⟩
    · simp only [firstFrame, if_neg ht]
      exact ⟨h.1.congr (leases_next fun _ => rfl) h.1.waiting, st.pin,
        h.2.took rfl (leases_next fun _ => rfl), h.1.pin⟩
  · rw [hph] at h hon
    cases hon
    refine ⟨?_, rfl⟩
    have hsend : ∀ p : Phase, (p = .terminate c m ∨ p = .send c m) →
        At mode (Relay.next { st with taken := st.taken ++ [(st.pin, m)] } p .none) := fun p hp => by
      have hback : (Relay.next { st with taken := st.taken ++ [(st.pin, m)] } p .none).backend =
          st.backend := by
        rcases hp with rfl | rfl <;> rfl
      have hgoal : (Relay.next { st with taken := st.taken ++ [(st.pin, m)] } p .none).OnLease mode c
          [] (st.backend.buf ++ st.backendRest) ∧ st.backend.Waiting ∧
          (Relay.next { st with taken := st.taken ++ [(st.pin, m)] } p .none).OwesTo mode m c :=
        ⟨h.1.congr (leases_next fun _ => rfl) h.1.waiting, h.2.1, st.pin,
          h.2.2.took rfl (leases_next fun _ => rfl), h.1.pin⟩
      rw [← hback] at hgoal
      rcases hp with rfl | rfl <;> exact hgoal
    by_cases ht : m.tag = Tag.terminate
    · simp only [clientArm, if_pos ht]
      exact hsend _ (.inl rfl)
    · simp only [clientArm, if_neg ht]
      exact hsend _ (.inr rfl)

/-- A read that ends the stream of the client or fails ends the session. -/
theorem at_stopped {r : Codec.Result} {p : Phase} {e : Effect} (h : ∃ ms, st.Owes mode ms)
    (hph : st.phase = .idle ∨ ∃ c, st.phase = .relay c) (hr : ∀ m, r ≠ .ok (some m))
    (hon : st.phase.on mode (some discardAll) (.client r) = some (p, e)) :
    (st.next p e).At mode ∧ e = .none := by
  obtain ⟨ms, ho⟩ := h
  have hnext : ∀ p, (st.next p .none).Owes mode ms := fun p => ho.next fun _ => rfl
  rcases hph with hph | ⟨c, hph⟩
  · rw [hph] at hon
    cases hon
    refine ⟨?_, rfl⟩
    match r, hr with
    | .ok (some m), hr => exact absurd rfl (hr m)
    | .ok none, _ => exact ⟨ms, hnext _⟩
    | .error _, _ => exact ⟨ms, hnext _⟩
  · rw [hph] at hon
    cases hon
    refine ⟨?_, rfl⟩
    match r, hr with
    | .ok (some m), hr => exact absurd rfl (hr m)
    | .ok none, _ => exact ⟨ms, hnext _⟩
    | .error _, _ => exact ⟨ms, hnext _⟩

theorem waiting_of_nil {r : FramedReader} (h : r.buf = []) : r.Waiting := by
  have he : r = ⟨[], r.maxLen⟩ := by rw [← h]
  rw [he]
  exact FramedReader.waiting_nil _

theorem inv_pollClient {stream : Bytes} {sched : List Nat} (h : st.Inv mode stream)
    (hph : st.phase = .idle ∨ ∃ c, st.phase = .relay c)
    (hst : st.pollClient mode sched = some st') : st'.Inv mode stream := by
  have hcall := FramedReader.readFrame_call sched st.client st.clientRest (h.at_.waiting hph).1
  unfold pollClient at hst
  generalize st.client.readFrame st.clientRest sched = x at hcall hst
  obtain ⟨o, client, rest⟩ := x
  simp only at hcall
  have hmax : client.maxLen = maxMessageLen := hcall.maxLen.trans h.clientMax
  cases o with
  | pending =>
    cases hst
    obtain ⟨hw, hb⟩ := hcall.pending rfl
    exact ⟨by rw [hb]; exact h.client, hmax, h.backendMax, h.sound,
      h.at_.readers hph hw h.at_.backend_waiting rfl⟩
  | done r =>
    by_cases hr : ∃ m, r = .ok (some m)
    · obtain ⟨m, rfl⟩ := hr
      obtain ⟨hbuf, hbytes, hdec⟩ := hcall.frame m rfl
      rw [h.clientMax] at hdec
      have hat : At mode { st with client, clientRest := rest } :=
        h.at_.readers hph (waiting_of_nil hbuf) h.at_.backend_waiting rfl
      obtain ⟨⟨p, e⟩, hon, rfl⟩ := Option.map_eq_some_iff.mp hst
      obtain ⟨hat', rfl⟩ := at_took hat hph hon
      refine ⟨?_, hmax, backendMax_next h.backendMax, ?_, hat'⟩
      · have hcon := h.client.snoc hbytes hdec
        simpa [Relay.next, hbuf] using hcon
      · rw [leases_next fun _ => rfl]
        exact h.sound
    · have hne : ∀ m, r ≠ .ok (some m) := fun m he => hr ⟨m, he⟩
      obtain ⟨-, hbytes, -⟩ := hcall.stop r rfl hne
      have hst' : Relay.on mode { st with client, clientRest := rest } (.client r) = some st' := by
        match r, hne, hst with
        | .ok (some m), hne, _ => exact absurd rfl (hne m)
        | .ok none, _, hst => exact hst
        | .error _, _, hst => exact hst
      obtain ⟨⟨p, e⟩, hon, rfl⟩ := Option.map_eq_some_iff.mp hst'
      obtain ⟨ms, ho⟩ := h.at_.owes
      have ho' : Relay.Owes mode { st with client, clientRest := rest } ms := ho.congr rfl rfl
      obtain ⟨hat', rfl⟩ := at_stopped ⟨ms, ho'⟩ hph hne hon
      refine ⟨?_, hmax, backendMax_next h.backendMax, ?_, hat'⟩
      · have hcon := h.client
        rw [← hbytes] at hcon
        exact hcon
      · rw [leases_next fun _ => rfl]
        exact h.sound

theorem inv_pollSelect {stream : Bytes} {backend client : List Nat} (h : st.Inv mode stream)
    (hph : st.phase = .relay c) (hst : st.pollSelect mode backend client = some st') :
    st'.Inv mode stream := by
  have hrel : ∃ c, st.phase = .relay c := ⟨c, hph⟩
  have hcall := FramedReader.readFrame_call backend st.backend st.backendRest
    (h.at_.backend_waiting hrel).1
  unfold pollSelect at hst
  generalize st.backend.readFrame st.backendRest backend = x at hcall hst
  obtain ⟨o, reader, rest⟩ := x
  simp only at hcall
  have hmax : reader.maxLen = maxMessageLen := hcall.maxLen.trans h.backendMax
  have hat : st.OnLease mode c [] (st.backend.buf ++ st.backendRest) ∧ st.backend.Waiting ∧
      st.Owes mode [] := by
    have := h.at_
    unfold At at this
    rwa [hph] at this
  cases o with
  | pending =>
    obtain ⟨hw, hb⟩ := hcall.pending rfl
    have hinv : Relay.Inv mode stream { st with backend := reader, backendRest := rest } :=
      ⟨h.client, h.clientMax, hmax, h.sound,
        h.at_.readers (.inr hrel) hat.1.waiting (fun _ => hw) hb⟩
    exact inv_pollClient hinv (.inr hrel) hst
  | done r =>
    obtain ⟨⟨p, e⟩, hon, rfl⟩ := Option.map_eq_some_iff.mp hst
    simp only [hph] at hon
    match r, hon with
    | .ok (some m), hon =>
      cases hon
      obtain ⟨hbuf, hbytes, hdec⟩ := hcall.frame m rfl
      rw [h.backendMax] at hdec
      have hl : Relay.OnLease mode { st with backend := reader, backendRest := rest } c []
          (st.backend.buf ++ st.backendRest) := hat.1.congr rfl hat.1.waiting
      have htake := hl.take hbytes hdec (.deliver c m)
      refine ⟨h.client, h.clientMax, backendMax_next hmax, ?_, htake, ?_, ?_⟩
      · obtain ⟨l, ls, hls, -, -, hcon, hread, -⟩ := htake.lease
        have htail : ls = st.leases.tail := by
          have := congrArg List.tail hls
          cases hst : st.leases <;> simpa [Relay.next, recorded, hst] using this.symm
        rw [hls, List.forall_mem_cons]
        refine ⟨⟨⟨_, hread.symm⟩, _, hcon⟩, fun l' hl' => h.sound l' ?_⟩
        exact List.mem_of_mem_tail (htail ▸ hl')
      · simpa [Relay.next, entersRelay] using hbuf
      · have hw : ∀ ms, st.Owes mode ms → Relay.Owes mode
            (Relay.next { st with backend := reader, backendRest := rest } (.deliver c m)
              (.take c m)) ms := fun ms ho => by
          have hwr : (Relay.next { st with backend := reader, backendRest := rest } (.deliver c m)
              (.take c m)).written = st.written := by
            cases hls : st.leases <;> simp [Relay.next, recorded, written, hls, LeaseTrace.record]
          unfold Relay.Owes at ho ⊢
          rwa [hwr]
        exact hw [] hat.2.2
    | .ok none, hon | .error _, hon =>
      cases hon
      refine ⟨h.client, h.clientMax, backendMax_next hmax, ?_, ?_⟩
      · rw [leases_next fun _ => rfl]
        exact h.sound
      · exact ⟨[], hat.2.2.congr rfl (leases_next fun _ => rfl)⟩

/-- `Lease::reset` reads the connection and forwards nothing. -/
theorem inv_readReset {stream : Bytes} {sched : List Nat} (h : st.Inv mode stream)
    (hph : st.phase = .drain c) (hst : st.readReset mode sched = some st') :
    st'.Inv mode stream := by
  have hat : st.Settled mode ∧ st.Owes mode [] := by
    have := h.at_
    unfold At at this
    rwa [hph] at this
  have hstep : ∀ r rest, Relay.on mode { st with backendRest := rest } (.backend r) = some st' →
      st'.Inv mode stream := fun r rest hst => by
    obtain ⟨⟨p, e⟩, hon, rfl⟩ := Option.map_eq_some_iff.mp hst
    have hrec : (∀ l : LeaseTrace, l.record e = l) ∧
        ((∃ m, p = drainArm c m) ∨ p = .discard c .keepServing) := by
      simp only [hph] at hon
      match r, hon with
      | .ok (some m), hon =>
        cases hon
        exact ⟨fun _ => rfl, .inl ⟨m, rfl⟩⟩
      | .ok none, hon | .error _, hon =>
        cases hon
        exact ⟨fun _ => rfl, .inr rfl⟩
    have hs : (Relay.next { st with backendRest := rest } p e).Settled mode ∧
        (Relay.next { st with backendRest := rest } p e).Owes mode [] :=
      ⟨hat.1.congr (leases_next hrec.1) hat.1.waiting, hat.2.congr rfl (leases_next hrec.1)⟩
    refine ⟨h.client, h.clientMax, backendMax_next h.backendMax, ?_, ?_⟩
    · rw [leases_next hrec.1]
      exact h.sound
    · rcases hrec.2 with ⟨m, rfl⟩ | rfl
      · revert hs
        unfold drainArm
        split <;> exact id
      · exact hs
  unfold readReset at hst
  split at hst
  · exact hstep _ _ hst
  · exact hstep _ _ hst
  · cases hst

/-- A new lease begins with nothing read or written. -/
theorem inv_lease {stream bytes : Bytes} (h : st.Inv mode stream)
    (hst : st.on mode (.leased c) = some st') :
    Relay.Inv mode stream
      { st' with backendRest := bytes, leases := ⟨c, bytes, [], [], []⟩ :: st.leases } := by
  obtain ⟨⟨p, e⟩, hon, rfl⟩ := Option.map_eq_some_iff.mp hst
  obtain ⟨w, shard, hph, rfl, rfl⟩ := Phase.on_leased hon
  have hat := h.at_
  unfold At at hat
  rw [hph] at hat
  cases w with
  | params | session => exact hat.elim
  | transaction m =>
    obtain ⟨hs, o, ⟨front, ht, hf⟩, hn⟩ := hat
    refine ⟨h.client, h.clientMax, @backendMax_next st _ .none h.backendMax, ?_,
      ⟨?_, ?_, hs.waiting⟩, o,
      ⟨front, ht, ?_⟩, ?_⟩
    · rw [List.forall_mem_cons]
      exact ⟨⟨List.prefix_refl _, _, .nil _⟩, h.sound⟩
    · exact ⟨_, _, rfl, rfl, hs.ended, .nil _, rfl, nofun⟩
    · intro hmode c' hc'
      have hnone := hs.pin hmode
      simp only [Relay.pin, forwarded, List.reverse_cons, List.flatMap_append] at hnone hc'
      simp [hnone] at hc'
    · simpa [written] using hf
    · intro hmode c' hc'
      cases (hn hmode).symm.trans hc'

theorem inv_step {stream : Bytes} {a : RelayAct} (h : st.Inv mode stream)
    (hst : st.step mode a = some st') : st'.Inv mode stream := by
  unfold Relay.step at hst
  cases a with
  | event i =>
    simp only at hst
    split at hst
    next hi => exact inv_event h hi hst
    · cases hst
  | lease c bytes =>
    simp only at hst
    split at hst
    next hon =>
      cases hst
      exact inv_lease h hon
    · cases hst
  | pollClient sched =>
    simp only at hst
    split at hst
    next hph => exact inv_pollClient h (.inl hph) hst
    · cases hst
  | pollSelect backend client =>
    simp only at hst
    split at hst
    next hph => exact inv_pollSelect h hph hst
    · cases hst
  | readReset sched =>
    simp only at hst
    split at hst
    next hph => exact inv_readReset h hph hst
    · cases hst

end Relay

theorem map_eq_of_placed {mode : PoolMode} {ts : List (Option ConnId × RawMessage)}
    {ws : List (ConnId × RawMessage)} (h : List.Forall₂ (Placed mode) ts ws) :
    ts.map (·.2) = ws.map (·.2) := by
  induction h with
  | nil => rfl
  | cons hp _ ih => simp [hp.1, ih]

/-- **Frame fidelity and transaction pinning.** For every client stream, every splitting of the
streams into reads and every order of arrivals: at any time the client frames written to backends
are the frames taken from the client's stream but for the last ones, each once and in order, and in
transaction mode a frame taken while a transaction was open on a connection was written to that
connection; what each lease forwarded is what its backend sent so far. Between leases no frame
taken is missing, the client's reader holds at most the beginning of the next frame, and each lease
forwarded exactly the frames its backend sent up to the one that ended the lease. -/
theorem relay_is_faithful (mode : PoolMode) (stream : Bytes) {as : List RelayAct} {st : Relay}
    (h : exec (Relay.step mode) (Relay.start stream) as = some st) :
    Consumed stream (st.taken.map (·.2)) (st.client.buf ++ st.clientRest) ∧
    (∃ front owed, st.taken = front ++ owed ∧ List.Forall₂ (Placed mode) front st.written) ∧
    (∀ l ∈ st.leases, l.Sound) ∧
    (st.phase = .idle → st.written.map (·.2) = st.taken.map (·.2) ∧ st.client.Waiting ∧
      ∀ l ∈ st.leases, l.Ended mode) := by
  have hinv : st.Inv mode stream :=
    exec_inv' (I := Relay.Inv mode stream) (fun _ _ _ hi ha => Relay.inv_step hi ha)
      (Relay.inv_start stream) h
  obtain ⟨owed, front, ht, hf⟩ := hinv.at_.owes
  refine ⟨hinv.client, ⟨front, owed, ht, hf⟩, hinv.sound, fun hph => ?_⟩
  have hat := hinv.at_
  unfold Relay.At at hat
  rw [hph] at hat
  obtain ⟨hs, front, ht, hf⟩ := hat
  rw [List.append_nil] at ht
  rw [ht]
  exact ⟨(map_eq_of_placed hf).symm, hs.waiting, hs.ended⟩

/-- The client's bytes arrive in two pieces; the answer leaves a transaction open, in which a second
query is sent, and the next `ReadyForQuery` ends it. -/
def Sample.transaction : List RelayAct :=
  [.pollClient [2], .pollClient [10, 100], .event (.replica (ascii "db")),
    .lease 0 (frame Tag.readyForQuery [84] ++ frame Tag.readyForQuery [73] ++
      frame Tag.readyForQuery [73]),
    .event .go, .event (.wrote true), .pollSelect [9, 9] [], .event (.wrote true),
    .pollSelect [1] [9, 100], .event (.wrote true), .pollSelect [9, 9] [], .event (.wrote true),
    .event (.wrote true), .readReset [9, 9], .event .go, .event .go]

theorem relay_is_faithful_for_transaction :
    ∃ st, exec (Relay.step .transaction)
        (Relay.start (frame Tag.query (ascii "begin\x00") ++ frame Tag.query (ascii "select 1\x00")))
        Sample.transaction = some st ∧ st.phase = .idle ∧ st.taken.length = 2 ∧
      st.written.map (·.2) = st.taken.map (·.2) := by
  have h : (exec (Relay.step .transaction)
      (Relay.start (frame Tag.query (ascii "begin\x00") ++ frame Tag.query (ascii "select 1\x00")))
      Sample.transaction).map (fun st => (st.phase, st.taken.length)) = some (.idle, 2) := by
    decide +kernel
  obtain ⟨st, hst, hp⟩ := Option.map_eq_some_iff.mp h
  simp only [Prod.mk.injEq] at hp
  exact ⟨st, hst, hp.1, hp.2, ((relay_is_faithful .transaction _ hst).2.2.2 hp.1).1⟩

end RamaPg.Pool
