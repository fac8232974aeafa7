import RamaPg.Cancel.Delivery
import RamaPg.Proxy.Custom
import RamaPg.Proxy.Transparency
import Mathlib.Data.List.Induction

/-!
# Cancelling in direct and in custom mode

Two kinds of session over one registry. A direct session points its slot at its backend when the
startup relay sees the backend's key; a custom session points it at a fresh token for each query and
clears it behind the query. In both the slot always holds what the session would have cancelled
now, so what the cancel requests do follows from `Cancel.System`.
-/

namespace RamaPg.Proxy

open RamaPg.Lib RamaPg.Codec RamaPg.Startup RamaPg.Cancel

/-! ## Direct sessions -/

section Direct

variable {π : Type}

/-- A direct session: its peer, the key its client is told, what the relay has read of the backend
and written to the client, and whether the startup is over. -/
structure DirectSession (π : Type) where
  peer : π
  interactive : Bool
  key : CancelKey
  heard : List RawMessage
  toClient : List Bytes
  copying : Bool

namespace DirectSession

/-- The message is read and this is written to the client. -/
def pass (m : RawMessage) (bs : Bytes) (d : DirectSession π) : DirectSession π :=
  { d with heard := d.heard ++ [m], toClient := d.toClient ++ [bs] }

/-- One turn of `relay_startup`; a turn that ends it with an error ends the session. -/
def react (d : DirectSession π) (m : RawMessage) :
    Option (DirectSession π × Option (Option (π × CancelKey))) :=
  if d.copying then none
  else match relayTurn (some d.key) d.interactive m with
    | .pass bs | .challenge bs => some (d.pass m bs, none)
    | .capture key bs => some (d.pass m bs, some (some (d.peer, key)))
    | .finish bs (.ok _) => some ({ d.pass m bs with copying := true }, none)
    | .finish _ (.error _) | .refuse _ => none

/-- The backend's key, as the session heard it last. -/
def target (d : DirectSession π) : Option (π × CancelKey) := (lastKey d.heard).map (d.peer, ·)

theorem lastKey_other {m : RawMessage} (hm : m.tag ≠ Tag.backendKeyData) (ms : List RawMessage) :
    lastKey (ms ++ [m]) = lastKey ms := by
  have hnone : lastKey [m] = none := by
    rw [lastKey, List.filter_cons_of_neg (by simpa using hm)]
    rfl
  rw [lastKey_append, hnone, Option.none_or]

theorem lastKey_key {m : RawMessage} (hm : m.tag = Tag.backendKeyData) (ms : List RawMessage) :
    lastKey (ms ++ [m]) = some ⟨m.payload⟩ := by
  have hsome : lastKey [m] = some ⟨m.payload⟩ := by
    rw [lastKey, List.filter_cons_of_pos (by simpa using hm)]
    rfl
  rw [lastKey_append, hsome, Option.some_or]

/-- What one turn does. -/
theorem react_cases {d d' : DirectSession π} {m : RawMessage} {w : Option (Option (π × CancelKey))}
    (h : d.react m = some (d', w)) :
    d'.peer = d.peer ∧ d'.key = d.key ∧ d'.heard = d.heard ++ [m] ∧
    ((m.tag = Tag.backendKeyData ∧ w = some (some (d.peer, ⟨m.payload⟩)) ∧
        d'.toClient = d.toClient ++ [Message.backendKeyDataRaw d.key.bytes]) ∨
      (m.tag ≠ Tag.backendKeyData ∧ w = none ∧ d'.toClient = d.toClient ++ [m.frame])) := by
  unfold react at h
  split at h
  · cases h
  have hspec := relayTurn_spec (some d.key) d.interactive m
  split at h
  all_goals rename_i hturn
  all_goals rw [hturn] at hspec
  · obtain ⟨-, rfl, -, hkey⟩ := hspec
    have hne := hkey (by simp)
    cases h
    refine ⟨rfl, rfl, rfl, .inr ⟨hne, rfl, ?_⟩⟩
    simp [pass, advertised, hne]
  · obtain ⟨-, rfl, -, hne⟩ := hspec
    cases h
    refine ⟨rfl, rfl, rfl, .inr ⟨hne, rfl, ?_⟩⟩
    simp [pass, advertised, hne]
  · obtain ⟨-, rfl, -, -, htag, rfl⟩ := hspec
    cases h
    refine ⟨rfl, rfl, rfl, .inl ⟨htag, rfl, ?_⟩⟩
    simp [pass, advertised, htag, Message.backendKeyDataRaw]
  · obtain ⟨-, rfl, ⟨htag, -⟩ | ⟨-, hr⟩⟩ := hspec
    · cases h
      exact ⟨rfl, rfl, rfl, .inr ⟨by rw [htag]; decide, rfl, rfl⟩⟩
    · cases hr
  · cases h
  · cases h

theorem target_react {d d' : DirectSession π} {m : RawMessage} {w : Option (Option (π × CancelKey))}
    (h : d.react m = some (d', w)) : d'.target = w.getD d.target := by
  obtain ⟨hpeer, -, hheard, ⟨htag, rfl, -⟩ | ⟨htag, rfl, -⟩⟩ := react_cases h
  · rw [target, hheard, lastKey_key htag, hpeer]
    rfl
  · rw [target, hheard, lastKey_other htag, hpeer]
    rfl

end DirectSession

/-- `DirectForwarder`, routed to a peer. -/
def directForwarder (π : Type) :
    Forwarder (π × Bool) (DirectSession π) RawMessage (π × CancelKey) where
  start i _ key := ⟨i.1, i.2, key, [], [], false⟩
  react := DirectSession.react
  current := DirectSession.target
  start_current _ _ _ := rfl
  react_current _ _ _ _ := DirectSession.target_react

/-- `TcpBackendCancellation::serve`: the peer a fresh connection goes to, and what is written. -/
def backendCancellation (t : π × CancelKey) : π × Bytes := (t.1, cancelRequestFrame t.2.bytes)

variable {ms : List (Move (π × Bool) RawMessage)} {w : System (DirectSession π) (π × CancelKey)}

theorem frame_head? (m : RawMessage) : m.frame.head? = some m.tag := by
  rw [RawMessage.tag, List.head?_eq_getElem?]
  simp

/-- A live session is told its own key, whatever key its backend has. -/
theorem DirectSession.told (hw : exec (System.step (directForwarder π)) .new ms = some w) :
    ∀ s h d, w.registry.handles s = some h → w.sessions s = some d →
      (8 ≤ h.registered.bytes.length ∧ h.registered.bytes.length ≤ 32) ∧
      ∀ bs ∈ d.toClient, bs.head? = some Tag.backendKeyData →
        bs = Message.backendKeyDataRaw h.registered.bytes := by
  have hinv := System.handle_inv (P := fun key d => (8 ≤ key.bytes.length ∧ key.bytes.length ≤ 32) ∧
    d.key = key ∧ ∀ bs ∈ d.toClient, bs.head? = some Tag.backendKeyData →
      bs = Message.backendKeyDataRaw key.bytes) ?_ ?_ hw
  · intro s h d hh hd
    obtain ⟨hlen, -, htold⟩ := hinv s h d hh hd
    exact ⟨hlen, htold⟩
  · rintro i s version draw
    exact ⟨mint_length version draw, rfl, by rintro bs ⟨⟩⟩
  · rintro key d m d' t ⟨hlen, hkey, htold⟩ hreact
    obtain ⟨-, hkey', -, hcases⟩ := DirectSession.react_cases hreact
    refine ⟨hlen, hkey'.trans hkey, fun bs hbs htag => ?_⟩
    rcases hcases with ⟨-, -, hto⟩ | ⟨hne, -, hto⟩
    · rw [hto, hkey] at hbs
      rcases List.mem_append.mp hbs with hbs | hbs
      · exact htold bs hbs htag
      · exact List.mem_singleton.mp hbs
    · rw [hto] at hbs
      rcases List.mem_append.mp hbs with hbs | hbs
      · exact htold bs hbs htag
      · obtain rfl := List.mem_singleton.mp hbs
        rw [frame_head?] at htag
        exact (hne (Option.some.inj htag)).elim

/-- What a session goes on to: the same peer, and more heard. -/
theorem DirectSession.run {w' : System (DirectSession π) (π × CancelKey)} {s : Session}
    {d : DirectSession π} (hcur : System.Current (directForwarder π) w)
    (hw : exec (System.step (directForwarder π)) w ms = some w') (hd : w.sessions s = some d) :
    ∃ d', w'.sessions s = some d' ∧ d'.peer = d.peer ∧ d.heard <+: d'.heard := by
  refine System.session_run (R := fun d d' => d'.peer = d.peer ∧ d.heard <+: d'.heard)
    (fun _ => ⟨rfl, List.prefix_refl _⟩) ?_ ?_ hcur hw hd
  · rintro x y z ⟨hp, hh⟩ ⟨hp', hh'⟩
    exact ⟨hp'.trans hp, hh.trans hh'⟩
  · intro x m x' t hr
    obtain ⟨hpeer, -, hheard, -⟩ := DirectSession.react_cases hr
    exact ⟨hpeer, hheard ▸ List.prefix_append ..⟩

/-- The bytes of a cancel request are read as one. -/
theorem readStartupRequest_cancelRequestFrame {key : Bytes} (h8 : 8 ≤ key.length)
    (hmax : key.length ≤ 9992) (rest : Bytes) :
    readStartupRequest (cancelRequestFrame key ++ rest) = (.ok (.cancel ⟨key⟩), rest) := by
  rw [readStartupRequest, readStartupFrame_cancelRequestFrame hmax rest]
  simp only [parse_cancelRequestFrame h8 hmax]

/-- **A cancel request reaches the client's own backend, or nobody's.** In every run of the sessions
and the requests, what a live client has been told as a key is read back, from the request it makes
of it, as the key of its session. The request then goes to the peer of that session with the key
the backend last told there, to no one before it told one, and the backend reads that key; a
request whose key is no live session's goes nowhere. -/
theorem direct_cancel_exact {before between : List (Move (π × Bool) RawMessage)}
    {w₁ w₂ w₃ : System (DirectSession π) (π × CancelKey)} {r : Nat} {key : CancelKey}
    (hbefore : exec (System.step (directForwarder π)) .new before = some w₁)
    (hd : Along (System.step (directForwarder π)) System.Distinct .new before)
    (hfind : w₁.step (directForwarder π) (.find r key) = some w₂)
    (hbetween : exec (System.step (directForwarder π)) w₂ between = some w₃)
    (hr : ∀ m ∈ between, m.request ≠ some r) :
    (∀ s h d, w₁.registry.handles s = some h → w₁.sessions s = some d →
      (∀ (m : RawMessage) (rest : Bytes), m.frame ∈ d.toClient → m.tag = Tag.backendKeyData →
        readStartupRequest (cancelRequestFrame m.payload ++ rest) = (.ok (.cancel h.registered), rest)) ∧
      (h.registered = key → ∃ d' w₄, w₃.sessions s = some d' ∧ d'.peer = d.peer ∧
        d.heard <+: d'.heard ∧ w₃.step (directForwarder π) (.invoke r) = some w₄ ∧
        w₄.invoked = w₃.invoked ++ (lastKey d'.heard).toList.map fun k => (r, (d.peer, k)))) ∧
    ((∀ s h, w₁.registry.handles s = some h → h.registered ≠ key) →
      w₃.step (directForwarder π) (.invoke r) = none) ∧
    ∀ (peer : π) (k : CancelKey) (rest : Bytes), 8 ≤ k.bytes.length → k.bytes.length ≤ 9992 →
      (backendCancellation (peer, k)).1 = peer ∧
      readStartupRequest ((backendCancellation (peer, k)).2 ++ rest) = (.ok (.cancel k), rest) := by
  obtain ⟨hknown, hunknown⟩ := System.cancel_exact hbefore hd hfind hbetween hr
  refine ⟨fun s h d hh hs => ⟨?_, ?_⟩, hunknown, fun peer k rest h8 hmax => ⟨rfl, ?_⟩⟩
  · intro m rest hm htag
    obtain ⟨⟨h8, h32⟩, htold⟩ := DirectSession.told hbefore s h d hh hs
    have hframe := htold m.frame hm (by rw [frame_head?, htag])
    have hpayload : m.payload = h.registered.bytes := by
      have hbuild : m.frame = (RawMessage.build Tag.backendKeyData h.registered.bytes).frame := hframe
      rw [RawMessage.payload, hbuild]
      exact RawMessage.payload_build _ _
    rw [hpayload]
    exact readStartupRequest_cancelRequestFrame h8 (by omega) rest
  · intro hk
    obtain ⟨d', w₄, hd', hinvoke, hto⟩ := hknown s h hh hk
    have hcur := System.current_new.run hbefore
    have hs₂ : w₂.sessions s = some d := by cases hfind; exact hs
    obtain ⟨e, he, hpeer, hheard⟩ := DirectSession.run (hcur.step hfind) hbetween hs₂
    obtain rfl : d' = e := by rw [hd'] at he; exact Option.some.inj he
    refine ⟨d', w₄, hd', hpeer, hheard, hinvoke, ?_⟩
    rw [hto]
    show _ ++ (d'.target).toList.map _ = _
    rw [DirectSession.target, hpeer]
    cases lastKey d'.heard <;> rfl
  · exact readStartupRequest_cancelRequestFrame h8 hmax rest

/-- One client, told its key after the backend told its own; another connection cancels it. -/
def cancelledRun : List (Move (Nat × Bool) RawMessage) :=
  [.begin .v3_0 (Vector.replicate 8 1) (7, false),
    .react 0 (.build Tag.authentication [0, 0, 0, 0]),
    .react 0 (.build Tag.backendKeyData [0, 0, 0, 9, 1, 2, 3, 4])]

theorem direct_cancel_exact_for_one : ∃ w₁ w₂ w₄ : System (DirectSession Nat) (Nat × CancelKey),
    exec (System.step (directForwarder Nat)) .new cancelledRun = some w₁ ∧
    w₁.step (directForwarder Nat) (.find 0 ⟨List.replicate 8 1⟩) = some w₂ ∧
    w₂.step (directForwarder Nat) (.invoke 0) = some w₄ ∧
    w₄.invoked = [(0, (7, ⟨[0, 0, 0, 9, 1, 2, 3, 4]⟩))] := by
  have hd : Along (System.step (directForwarder Nat)) System.Distinct .new cancelledRun :=
    ⟨by rintro s h ⟨⟩, fun _ _ => ⟨trivial, fun _ _ => ⟨trivial, fun _ _ => trivial⟩⟩⟩
  obtain ⟨hone, -⟩ := @direct_cancel_exact Nat cancelledRun [] _ _ _ 0 _ rfl hd rfl rfl (by rintro m ⟨⟩)
  obtain ⟨-, hto⟩ := hone 0 ⟨0, ⟨List.replicate 8 1⟩⟩ _ rfl rfl
  obtain ⟨d', w₄, hd', -, -, hinvoke, hinvoked⟩ := hto rfl
  cases hd'
  exact ⟨_, _, w₄, rfl, rfl, hinvoke, hinvoked⟩

end Direct

/-! ## Custom sessions -/

/-- The tokens of a session, from what it has done: how many were made, and the one its handle points
at. -/
def tokensAfter (es : List Effect) : Nat × Option Nat :=
  es.foldl (fun t e => match e with
    | .set => (t.1 + 1, some t.1)
    | .clear => (t.1, none)
    | _ => t) (0, none)

/-- A custom session on its way: what it has read and done, and what it is about to do. -/
structure CustomRun where
  session : Session
  user : Bytes
  database : Bytes
  status : TxnStatus
  rounds : List Round
  performed : List Effect
  pending : List Effect

/-- The session reads a message, or does the next thing its last message led to. -/
inductive CustomTurn where
  | read (r : Round)
  | perform

namespace CustomRun

/-- The token of the query that is running. -/
def current (c : CustomRun) : Option (Session × Nat) :=
  (tokensAfter c.performed).2.map (c.session, ·)

/-- The turns of `serve_custom`, with what each writes to the slot. -/
def react (c : CustomRun) : CustomTurn → Option (CustomRun × Option (Option (Session × Nat)))
  | .read r =>
    match c.pending with
    | [] => (customStep c.user c.database c.status r).map fun (status, effects) =>
        ({ c with status := status, rounds := c.rounds ++ [r], pending := effects }, none)
    | _ :: _ => none
  | .perform =>
    match c.pending with
    | [] => none
    | e :: rest =>
      some ({ c with performed := c.performed ++ [e], pending := rest },
        match e with
        | .set => some (some (c.session, (tokensAfter c.performed).1))
        | .clear => some none
        | _ => none)

theorem tokensAfter_append (es : List Effect) (e : Effect) : tokensAfter (es ++ [e]) =
    match e with
    | .set => ((tokensAfter es).1 + 1, some (tokensAfter es).1)
    | .clear => ((tokensAfter es).1, none)
    | _ => tokensAfter es := by
  rw [tokensAfter, List.foldl_append]
  rfl

/-- What one turn does. -/
theorem react_cases {c c' : CustomRun} {a : CustomTurn} {t : Option (Option (Session × Nat))}
    (h : c.react a = some (c', t)) :
    (∃ r status effects, a = .read r ∧ c.pending = [] ∧
      customStep c.user c.database c.status r = some (status, effects) ∧ t = none ∧
      c' = { c with status := status, rounds := c.rounds ++ [r], pending := effects }) ∨
    (∃ e rest, a = .perform ∧ c.pending = e :: rest ∧
      c' = { c with performed := c.performed ++ [e], pending := rest } ∧
      t = match e with
        | .set => some (some (c.session, (tokensAfter c.performed).1))
        | .clear => some none
        | _ => none) := by
  cases a with
  | read r =>
    simp only [react] at h
    split at h
    · rename_i hp
      obtain ⟨⟨status, effects⟩, hstep, heq⟩ := Option.map_eq_some_iff.mp h
      cases heq
      exact .inl ⟨r, status, effects, rfl, hp, hstep, rfl, rfl⟩
    · cases h
  | perform =>
    simp only [react] at h
    split at h
    · cases h
    · rename_i e rest hp
      cases h
      exact .inr ⟨e, rest, rfl, hp, rfl, rfl⟩

theorem current_react (c : CustomRun) (a : CustomTurn) (c' : CustomRun)
    (t : Option (Option (Session × Nat))) (h : c.react a = some (c', t)) :
    c'.current = t.getD c.current := by
  rcases react_cases h with ⟨r, status, effects, -, -, -, rfl, rfl⟩ | ⟨e, rest, -, -, rfl, rfl⟩
  · rfl
  · rw [current, tokensAfter_append]
    cases e <;> rfl

end CustomRun

/-- `CustomForwarder`. -/
def customForwarder : Forwarder (Bytes × Bytes) CustomRun CustomTurn (Session × Nat) where
  start i s _ := ⟨s, i.1, i.2, .idle, [], [], []⟩
  react := CustomRun.react
  current := CustomRun.current
  start_current _ _ _ := rfl
  react_current := CustomRun.current_react

section Custom

variable {ms : List (Move (Bytes × Bytes) CustomTurn)} {w : System CustomRun (Session × Nat)}

/-- What a session has done and is about to do is what `serve_custom` does with what was read. -/
structure CustomRun.Faithful (s : Session) (c : CustomRun) : Prop where
  session : c.session = s
  status : exec (moves (customStep c.user c.database)) .idle c.rounds = some c.status
  done : c.performed ++ c.pending = outputs (customStep c.user c.database) .idle c.rounds

theorem CustomRun.faithful (hw : exec (System.step customForwarder) .new ms = some w) :
    ∀ s c, w.sessions s = some c → c.Faithful s := by
  refine System.session_inv (F := customForwarder) (P := fun s c => c.Faithful s)
    (fun _ _ _ => ⟨rfl, rfl, rfl⟩) ?_ hw
  intro s c a c' t hc hr
  rcases CustomRun.react_cases hr with ⟨r, status, effects, -, hp, hstep, -, rfl⟩ |
    ⟨e, rest, -, hp, rfl, -⟩
  · obtain ⟨hout, hexec⟩ := outputs_snoc hc.status hstep
    have hdone := hc.done
    rw [hp, List.append_nil] at hdone
    exact ⟨hc.session, hexec, by rw [hout, ← hdone]⟩
  · refine ⟨hc.session, hc.status, ?_⟩
    rw [← hc.done, hp, List.append_assoc]
    rfl

theorem CustomRun.react_le {c c' : CustomRun} {a : CustomTurn} {t : Option (Option (Session × Nat))}
    (h : c.react a = some (c', t)) : c.performed <+: c'.performed ∧
      (tokensAfter c.performed).1 ≤ (tokensAfter c'.performed).1 := by
  rcases react_cases h with ⟨r, status, effects, -, -, -, -, rfl⟩ | ⟨e, rest, -, -, rfl, -⟩
  · exact ⟨List.prefix_refl _, Nat.le_refl _⟩
  · refine ⟨List.prefix_append .., ?_⟩
    rw [tokensAfter_append]
    cases e
    case set => exact Nat.le_succ _
    all_goals exact Nat.le_refl _

/-- What a session goes on to: more done, and no fewer tokens made. -/
theorem CustomRun.run {w' : System CustomRun (Session × Nat)} {s : Session} {c : CustomRun}
    (hcur : System.Current customForwarder w)
    (hw : exec (System.step customForwarder) w ms = some w') (hc : w.sessions s = some c) :
    ∃ c', w'.sessions s = some c' ∧ c.performed <+: c'.performed ∧
      (tokensAfter c.performed).1 ≤ (tokensAfter c'.performed).1 := by
  refine System.session_run (R := fun c c' => c.performed <+: c'.performed ∧
      (tokensAfter c.performed).1 ≤ (tokensAfter c'.performed).1)
    (fun _ => ⟨List.prefix_refl _, Nat.le_refl _⟩) ?_ (fun _ _ _ _ h => CustomRun.react_le h) hcur hw hc
  rintro x y z ⟨hp, hle⟩ ⟨hp', hle'⟩
  exact ⟨hp.trans hp', hle.trans hle'⟩

/-- Query number `n` of a session is the one it is answering: its token was set, and neither cleared
nor set anew since. -/
def Answering (es : List Effect) (n : Nat) : Prop :=
  ∃ before since, es = before ++ .set :: since ∧ (tokensAfter before).1 = n ∧
    ∀ e ∈ since, e ≠ .set ∧ e ≠ .clear

theorem answering_of_token {es : List Effect} {n : Nat} (h : (tokensAfter es).2 = some n) :
    Answering es n ∧ n < (tokensAfter es).1 := by
  induction es using List.reverseRecOn with
  | nil => cases h
  | append_singleton es e ih =>
    rw [CustomRun.tokensAfter_append] at h ⊢
    have hother : (tokensAfter es).2 = some n → e ≠ .set → e ≠ .clear →
        Answering (es ++ [e]) n ∧ n < (tokensAfter es).1 := by
      intro h hset hclear
      obtain ⟨⟨before, since, hes, hn, hsince⟩, hlt⟩ := ih h
      refine ⟨⟨before, since ++ [e], by rw [hes, List.append_assoc]; rfl, hn, fun e' he' => ?_⟩, hlt⟩
      rcases List.mem_append.mp he' with he' | he'
      · exact hsince e' he'
      · obtain rfl := List.mem_singleton.mp he'
        exact ⟨hset, hclear⟩
    cases e with
    | set =>
      cases h
      exact ⟨⟨es, [], rfl, rfl, by rintro e' ⟨⟩⟩, Nat.lt_succ_self _⟩
    | clear => cases h
    | received m => exact hother h (by rintro ⟨⟩) (by rintro ⟨⟩)
    | called ctx sql => exact hother h (by rintro ⟨⟩) (by rintro ⟨⟩)
    | sent bs => exact hother h (by rintro ⟨⟩) (by rintro ⟨⟩)

/-- Where a token that is fired comes from. -/
theorem CustomRun.origin (hw : exec (System.step customForwarder) .new ms = some w) {r : Nat}
    {s : Session} {n : Nat} (hfired : (r, (s, n)) ∈ w.invoked) :
    ∃ before between after key w₁ w₃ c,
      ms = before ++ .find r key :: (between ++ .invoke r :: after) ∧
      exec (System.step customForwarder) .new before = some w₁ ∧
      w₁.registry.handles s = some ⟨s, key⟩ ∧
      exec (System.step customForwarder) .new (before ++ .find r key :: between) = some w₃ ∧
      w₃.sessions s = some c ∧ Answering c.performed n ∧ n < (tokensAfter c.performed).1 := by
  obtain ⟨before, between, after, key, s', w₁, w₃, c, hms, hb, hh, hw₃, hc, hcur⟩ :=
    (System.invoked_origin hw).2 r (s, n) hfired
  replace hcur : (tokensAfter c.performed).2.map (c.session, ·) = some (s, n) := hcur
  obtain ⟨n', hn, heq⟩ := Option.map_eq_some_iff.mp hcur
  obtain rfl : c.session = s' := (CustomRun.faithful hw₃ s' c hc).session
  cases heq
  obtain ⟨hans, hlt⟩ := answering_of_token hn
  exact ⟨before, between, after, key, w₁, w₃, c, hms, hb, hh, hw₃, hc, hans, hlt⟩

/-- **A cancel request fires the token of the query its own session is answering, or none.** In every
run: a token that was fired is the one of a query that was being answered, in the session whose key
the request had presented; a token that is still to be made has not been fired, so no query begins
cancelled; and a request with the key of a live session fires, whatever happens before it reads the
slot, the token of the query that is then being answered there, and none between two queries. What
a session has done is in all of these a beginning of what `serve_custom` does. -/
theorem custom_cancel_exact (hw : exec (System.step customForwarder) .new ms = some w) :
    (∀ r s n, (r, (s, n)) ∈ w.invoked → ∃ before between after key w₁ w₃ c,
      ms = before ++ .find r key :: (between ++ .invoke r :: after) ∧
      exec (System.step customForwarder) .new before = some w₁ ∧
      w₁.registry.handles s = some ⟨s, key⟩ ∧
      exec (System.step customForwarder) .new (before ++ .find r key :: between) = some w₃ ∧
      w₃.sessions s = some c ∧ Answering c.performed n) ∧
    (∀ s c n, w.sessions s = some c → (tokensAfter c.performed).1 ≤ n → ∀ r, (r, (s, n)) ∉ w.invoked) ∧
    (∀ s c, w.sessions s = some c →
      c.performed <+: outputs (customStep c.user c.database) .idle c.rounds) ∧
    (Along (System.step customForwarder) System.Distinct .new ms →
      ∀ r key w₂ between w₃, w.step customForwarder (.find r key) = some w₂ →
      exec (System.step customForwarder) w₂ between = some w₃ → (∀ m ∈ between, m.request ≠ some r) →
      (∀ s h, w.registry.handles s = some h → h.registered = key →
        ∃ c w₄, w₃.sessions s = some c ∧ w₃.step customForwarder (.invoke r) = some w₄ ∧
          w₄.invoked = w₃.invoked ++ (tokensAfter c.performed).2.toList.map fun n => (r, (s, n))) ∧
      ((∀ s h, w.registry.handles s = some h → h.registered ≠ key) →
        w₃.step customForwarder (.invoke r) = none)) := by
  refine ⟨?_, ?_, ?_, ?_⟩
  · intro r s n hfired
    obtain ⟨before, between, after, key, w₁, w₃, c, hms, hb, hh, hw₃, hc, hans, -⟩ :=
      CustomRun.origin hw hfired
    exact ⟨before, between, after, key, w₁, w₃, c, hms, hb, hh, hw₃, hc, hans⟩
  · intro s c n hc hle r hfired
    obtain ⟨before, between, after, key, w₁, w₃, c₃, rfl, -, -, hw₃, hc₃, -, hlt⟩ :=
      CustomRun.origin hw hfired
    have hrest : exec (System.step customForwarder) w₃ (.invoke r :: after) = some w := by
      rw [← exec_append hw₃, ← hw]
      simp
    obtain ⟨c', hc', -, hmono⟩ := CustomRun.run (System.current_new.run hw₃) hrest hc₃
    obtain rfl : c = c' := by rw [hc] at hc'; exact Option.some.inj hc'
    omega
  · intro s c hc
    exact ⟨c.pending, (CustomRun.faithful hw s c hc).done⟩
  · intro hd r key w₂ between w₃ hfind hbetween hr
    obtain ⟨hknown, hunknown⟩ := System.cancel_exact hw hd hfind hbetween hr
    refine ⟨fun s h hh hk => ?_, hunknown⟩
    obtain ⟨c, w₄, hc, hinvoke, hto⟩ := hknown s h hh hk
    refine ⟨c, w₄, hc, hinvoke, ?_⟩
    have hw₃ : exec (System.step customForwarder) .new (ms ++ .find r key :: between) = some w₃ := by
      rw [exec_append hw, exec, hfind]
      exact hbetween
    have hsession := (CustomRun.faithful hw₃ s c hc).session
    rw [hto]
    show _ ++ (c.current).toList.map _ = _
    rw [CustomRun.current, hsession]
    cases (tokensAfter c.performed).2 <;> rfl

/-- A client whose query is cancelled before it is answered. -/
def cancelledQuery : List (Move (Bytes × Bytes) CustomTurn) :=
  [.begin .v3_0 (Vector.replicate 8 1) ([], []),
    .react 0 (.read ⟨.build Tag.query [0], fun _ _ => .command []⟩),
    .react 0 .perform, .react 0 .perform, .find 0 ⟨List.replicate 8 1⟩, .invoke 0]

theorem custom_cancel_exact_for_one : ∃ w : System CustomRun (Session × Nat),
    exec (System.step customForwarder) .new cancelledQuery = some w ∧ w.invoked = [(0, (0, 0))] ∧
    ∀ n, 1 ≤ n → ∀ r, (r, (0, n)) ∉ w.invoked := by
  obtain ⟨-, hfresh, -⟩ := @custom_cancel_exact cancelledQuery _ rfl
  exact ⟨_, rfl, rfl, fun n hn => hfresh 0 _ n rfl hn⟩

end Custom

end RamaPg.Proxy
