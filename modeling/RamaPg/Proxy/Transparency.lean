import RamaPg.Proxy.Splice

/-!
# The startup relay is transparent

`relayStartup_append` and `relayStartup_stuck` say what the relay does with any messages: it passes
them on up to the first that ends it or finds the client silent. `Streams.relayStartup_refines`
brings that down to the byte streams, whatever the reads.
-/

namespace RamaPg.Proxy

open RamaPg.Lib RamaPg.Codec RamaPg.Startup

/-! ## Messages -/

/-- What stands for a message of the backend on the client's side. -/
def advertised (clientKey : Option CancelKey) (m : RawMessage) : Bytes :=
  match clientKey with
  | some key => if m.tag = Tag.backendKeyData then frame Tag.backendKeyData key.bytes else m.frame
  | none => m.frame

/-- An `Authentication` message whose sub-type is neither `Ok` nor `SASLFinal`. -/
def isChallenge (m : RawMessage) : Bool :=
  m.tag == Tag.authentication &&
    (subtypeOf m.payload).any fun s => s != Auth.ok && s != Auth.saslFinal

/-- How many messages of the client the relay forwards for these of the backend. -/
def answers (interactive : Bool) (ms : List RawMessage) : Nat :=
  ms.countP fun m => interactive && isChallenge m

/-- The key of the last `BackendKeyData`. -/
def lastKey (ms : List RawMessage) : Option CancelKey :=
  (ms.filter (·.tag = Tag.backendKeyData)).getLast?.map fun m => ⟨m.payload⟩

/-- Messages the relay goes on after: neither the end of the startup nor an `Authentication`
message it refuses. -/
structure Passes (interactive : Bool) (m : RawMessage) : Prop where
  ready : m.tag ≠ Tag.readyForQuery
  error : m.tag ≠ Tag.errorResponse
  auth : m.tag = Tag.authentication → ∃ s, subtypeOf m.payload = some s ∧
    (s = Auth.ok ∨ interactive = true)

variable {clientKey : Option CancelKey} {interactive : Bool} {m : RawMessage}
  {ms cs : List RawMessage}

theorem answers_cons : answers interactive (m :: ms) =
    answers interactive ms + if interactive && isChallenge m then 1 else 0 := by
  rw [answers, List.countP_cons]; rfl

/-- The answers to the first message, and those to the others. -/
theorem answers_split {used : List RawMessage} (h : used.length = answers interactive (m :: ms)) :
    ∃ a b, used = a ++ b ∧ (a.length = if interactive && isChallenge m then 1 else 0) ∧
      b.length = answers interactive ms := by
  rw [answers_cons] at h
  refine ⟨used.take (if interactive && isChallenge m then 1 else 0), used.drop _,
    (List.take_append_drop _ _).symm, List.length_take_of_le (by omega), ?_⟩
  rw [List.length_drop]; omega

theorem lastKey_append (ms ms' : List RawMessage) :
    lastKey (ms ++ ms') = (lastKey ms').or (lastKey ms) := by
  unfold lastKey
  rw [List.filter_append, List.getLast?_append, Option.map_or]

/-- What a turn says of the message it was taken on. -/
theorem relayTurn_spec (clientKey : Option CancelKey) (interactive : Bool) (m : RawMessage) :
    match relayTurn clientKey interactive m with
    | .pass bs => Passes interactive m ∧ bs = advertised clientKey m ∧
        (interactive && isChallenge m) = false ∧ (clientKey ≠ none → m.tag ≠ Tag.backendKeyData)
    | .challenge bs => Passes interactive m ∧ bs = advertised clientKey m ∧
        (interactive && isChallenge m) = true ∧ m.tag ≠ Tag.backendKeyData
    | .capture key bs => Passes interactive m ∧ bs = advertised clientKey m ∧
        (interactive && isChallenge m) = false ∧ clientKey ≠ none ∧
        m.tag = Tag.backendKeyData ∧ key = ⟨m.payload⟩
    | .finish bs r => ¬ Passes interactive m ∧ bs = m.frame ∧
        (m.tag = Tag.readyForQuery ∧ r = .ok () ∨
          m.tag = Tag.errorResponse ∧ r = .error (.text "backend rejected startup"))
    | .refuse _ => ¬ Passes interactive m ∧ m.tag = Tag.authentication := by
  unfold relayTurn
  by_cases ha : m.tag = Tag.authentication
  · have hr : m.tag ≠ Tag.readyForQuery := by rw [ha]; decide
    have he : m.tag ≠ Tag.errorResponse := by rw [ha]; decide
    have hk : m.tag ≠ Tag.backendKeyData := by rw [ha]; decide
    have hb : m.asBytes = advertised clientKey m := by
      cases clientKey <;> simp [advertised, hk, RawMessage.asBytes]
    rw [if_pos ha]
    cases hs : subtypeOf m.payload with
    | none => exact ⟨fun hp => by simpa [hs] using hp.auth ha, ha⟩
    | some st =>
      have hc : isChallenge m = (st != Auth.ok && st != Auth.saslFinal) := by
        simp [isChallenge, ha, hs]
      by_cases hok : st = Auth.ok
      · simp only [if_pos hok]
        exact ⟨⟨hr, he, fun _ => ⟨st, hs, .inl hok⟩⟩, hb, by simp [hc, hok], fun _ => hk⟩
      simp only [if_neg hok]
      cases interactive with
      | false =>
        refine ⟨fun hp => ?_, ha⟩
        obtain ⟨st', h, h' | h'⟩ := hp.auth ha
        · rw [hs] at h; cases h; exact hok h'
        · cases h'
      | true =>
        have hp : Passes true m := ⟨hr, he, fun _ => ⟨st, hs, .inr rfl⟩⟩
        by_cases hf : st = Auth.saslFinal
        · simp only [if_pos hf, ↓reduceIte]
          exact ⟨hp, hb, by simp [hc, hf], fun _ => hk⟩
        · simp only [if_neg hf, ↓reduceIte]
          exact ⟨hp, hb, by simp [hc, hok, hf], hk⟩
  · have hc : isChallenge m = false := by simp [isChallenge, ha]
    rw [if_neg ha]
    by_cases hk : m.tag = Tag.backendKeyData
    · have hp : Passes interactive m :=
        ⟨by rw [hk]; decide, by rw [hk]; decide, fun h => absurd h ha⟩
      rw [if_pos hk]
      cases clientKey with
      | none => exact ⟨hp, rfl, by simp [hc], fun h => absurd rfl h⟩
      | some key => exact ⟨hp, by simp [advertised, hk, Message.backendKeyDataRaw], by simp [hc],
          by simp, hk, rfl⟩
    rw [if_neg hk]
    by_cases hr : m.tag = Tag.readyForQuery
    · rw [if_pos hr]
      exact ⟨fun hp => hp.ready hr, rfl, .inl ⟨hr, rfl⟩⟩
    rw [if_neg hr]
    by_cases he : m.tag = Tag.errorResponse
    · rw [if_pos he]
      exact ⟨fun hp => hp.error he, rfl, .inr ⟨he, rfl⟩⟩
    · rw [if_neg he]
      refine ⟨⟨hr, he, fun h => absurd h ha⟩, ?_, by simp [hc], fun _ => hk⟩
      cases clientKey <;> simp [advertised, hk, RawMessage.asBytes]

/-- A relay that goes on as `r` after these messages were passed on. -/
def Relayed.after (clientKey : Option CancelKey) (ms cs : List RawMessage) (r : Relayed) : Relayed :=
  { r with
    toClient := ms.map (advertised clientKey) ++ r.toClient
    toBackend := cs.map RawMessage.frame ++ r.toBackend
    recorded := r.recorded.or (if clientKey = none then none else lastKey ms) }

theorem Relayed.after_nil (r : Relayed) : r.after clientKey [] [] = r := by
  cases r
  simp [Relayed.after, lastKey]

/-- One message passed on, and the client's answer if it asks for one. -/
theorem relayStartup_pass (hm : Passes interactive m) {used : List RawMessage}
    (hu : used.length = if interactive && isChallenge m then 1 else 0) (ms cs : List RawMessage) :
    relayStartup clientKey interactive (m :: ms) (used ++ cs) =
      (relayStartup clientKey interactive ms cs).after clientKey [m] used := by
  have ht := relayTurn_spec clientKey interactive m
  rw [relayStartup_turn]
  cases h : relayTurn clientKey interactive m with
  | pass bs =>
    rw [h] at ht
    obtain ⟨-, rfl, hc, hk⟩ := ht
    obtain rfl := List.length_eq_zero_iff.mp (by simpa [hc] using hu)
    cases hn : clientKey with
    | none => simp [Relayed.after, Relayed.sendClient]
    | some key => simp [Relayed.after, Relayed.sendClient, lastKey, hk (by simp [hn])]
  | challenge bs =>
    rw [h] at ht
    obtain ⟨-, rfl, hc, hk⟩ := ht
    obtain ⟨c, rfl⟩ := List.length_eq_one_iff.mp (by simpa [hc] using hu)
    simp [Relayed.after, Relayed.sendClient, Relayed.sendBackend, lastKey, hk, RawMessage.asBytes]
  | capture key bs =>
    rw [h] at ht
    obtain ⟨-, rfl, hc, hn, hk, rfl⟩ := ht
    obtain rfl := List.length_eq_zero_iff.mp (by simpa [hc] using hu)
    simp [Relayed.after, Relayed.sendClient, Relayed.record, lastKey, hk, hn]
  | finish bs r => rw [h] at ht; exact absurd hm ht.1
  | refuse e => rw [h] at ht; exact absurd hm ht.1

theorem Relayed.after_after {ms' cs' : List RawMessage} (r : Relayed) :
    (r.after clientKey ms cs).after clientKey ms' cs' =
      r.after clientKey (ms' ++ ms) (cs' ++ cs) := by
  simp only [Relayed.after, List.map_append, List.append_assoc, Option.or_assoc, lastKey_append]
  split <;> simp

/-- **The relay passes messages on**, with one answer of the client for each challenge. -/
theorem relayStartup_append {used : List RawMessage} (hm : ∀ m ∈ ms, Passes interactive m)
    (hu : used.length = answers interactive ms) (ms' cs' : List RawMessage) :
    relayStartup clientKey interactive (ms ++ ms') (used ++ cs') =
      (relayStartup clientKey interactive ms' cs').after clientKey ms used := by
  induction ms generalizing used with
  | nil =>
    obtain rfl := List.length_eq_zero_iff.mp hu
    rw [Relayed.after_nil]; rfl
  | cons m ms ih =>
    obtain ⟨a, b, rfl, ha, hb⟩ := answers_split hu
    rw [List.append_assoc, List.cons_append, relayStartup_pass (hm m (by simp)) ha,
      ih (fun x hx => hm x (by simp [hx])) hb, Relayed.after_after]
    rfl

/-- Where a relay on any messages stops passing them on: out of messages, at one it does not go on
after, or at a challenge the client has not answered. -/
theorem relayStartup_stuck (interactive : Bool) : ∀ ms cs : List RawMessage,
    ∃ pre ms' used cs', ms = pre ++ ms' ∧ cs = used ++ cs' ∧ (∀ m ∈ pre, Passes interactive m) ∧
      used.length = answers interactive pre ∧
      (ms' = [] ∨ ∃ m ms'', ms' = m :: ms'' ∧
        (¬ Passes interactive m ∨ cs' = [] ∧ (interactive && isChallenge m) = true)) := by
  intro ms
  induction ms with
  | nil => intro cs; exact ⟨[], [], [], cs, rfl, rfl, by simp, rfl, .inl rfl⟩
  | cons m ms ih =>
    intro cs
    by_cases hp : Passes interactive m
    · have hgo : ∀ used cs₁, cs = used ++ cs₁ →
          used.length = (if interactive && isChallenge m then 1 else 0) →
          ∃ pre ms' used cs', m :: ms = pre ++ ms' ∧ cs = used ++ cs' ∧
            (∀ m ∈ pre, Passes interactive m) ∧ used.length = answers interactive pre ∧
            (ms' = [] ∨ ∃ m ms'', ms' = m :: ms'' ∧
              (¬ Passes interactive m ∨ cs' = [] ∧ (interactive && isChallenge m) = true)) := by
        rintro used cs₁ rfl hu
        obtain ⟨pre, ms', used', cs', rfl, rfl, hpre, hused, hend⟩ := ih cs₁
        refine ⟨m :: pre, ms', used ++ used', cs', rfl, by simp, ?_, ?_, hend⟩
        · simpa using ⟨hp, hpre⟩
        · rw [List.length_append, answers_cons, hu, hused, Nat.add_comm]
      cases hc : interactive && isChallenge m with
      | false => exact hgo [] cs rfl (by simp [hc])
      | true =>
        cases cs with
        | nil => exact ⟨[], m :: ms, [], [], rfl, rfl, by simp, rfl,
            .inr ⟨m, ms, rfl, .inr ⟨rfl, hc⟩⟩⟩
        | cons c cs => exact hgo [c] cs rfl (by simp [hc])
    · exact ⟨[], m :: ms, [], cs, rfl, rfl, by simp, rfl, .inr ⟨m, ms, rfl, .inl hp⟩⟩

/-- A relay that ended well passed on every message up to the first `ReadyForQuery`. -/
theorem relayStartup_ok (h : (relayStartup clientKey interactive ms cs).result = some (.ok ())) :
    ∃ pre z rest used, ms = pre ++ z :: rest ∧ (∀ m ∈ pre, Passes interactive m) ∧
      z.tag = Tag.readyForQuery ∧ used.length = answers interactive pre ∧
      cs = used ++ (relayStartup clientKey interactive ms cs).client ∧
      relayStartup clientKey interactive ms cs =
        ((Relayed.stop (some (.ok ())) rest (relayStartup clientKey interactive ms cs).client).sendClient
          z.frame).after clientKey pre used := by
  obtain ⟨pre, ms', used, cs', rfl, rfl, hpre, hused, hend⟩ := relayStartup_stuck interactive ms cs
  have hgo := @relayStartup_append clientKey interactive pre used hpre hused ms' cs'
  rcases hend with rfl | ⟨m, rest, rfl, hstuck⟩
  · rw [hgo, relayStartup] at h; cases h
  · have ht := relayTurn_spec clientKey interactive m
    rw [hgo, relayStartup_turn] at h
    cases hturn : relayTurn clientKey interactive m with
    | finish bs r =>
      rw [hturn] at h ht
      obtain ⟨-, rfl, hz⟩ := ht
      cases h
      have he : relayStartup clientKey interactive (pre ++ m :: rest) (used ++ cs') =
          ((Relayed.stop (some (.ok ())) rest cs').sendClient m.frame).after clientKey pre used := by
        rw [hgo, relayStartup_turn, hturn]
      refine ⟨pre, m, rest, used, rfl, hpre, ?_, hused, by rw [he]; rfl, by rw [he]; rfl⟩
      exact hz.resolve_right (fun h => by cases h.2) |>.1
    | refuse e => rw [hturn] at h; cases h
    | pass bs =>
      rw [hturn] at ht
      rcases hstuck with hp | ⟨-, hc⟩
      · exact absurd ht.1 hp
      · rw [ht.2.2.1] at hc; cases hc
    | challenge bs =>
      rw [hturn] at h ht
      rcases hstuck with hp | ⟨rfl, hc⟩
      · exact absurd ht.1 hp
      · cases h
    | capture key bs =>
      rw [hturn] at ht
      rcases hstuck with hp | ⟨-, hc⟩
      · exact absurd ht.1 hp
      · rw [ht.2.2.1] at hc; cases hc

/-! ## Streams -/

/-- The bytes of these messages. -/
def frames (ms : List RawMessage) : Bytes := ms.flatMap RawMessage.frame

/-- The stream starts with these messages, and this is what follows them. -/
def StartsWith (stream : Bytes) (ms : List RawMessage) (rest : Bytes) : Prop :=
  stream = frames ms ++ rest ∧ ∀ m ∈ ms, IsFrame maxMessageLen m.frame

/-- A relay that is still waiting, or whose read failed. -/
def Waits (r : Option (Except BoxError Unit)) : Prop := r = none ∨ ∃ e, r = some (.error (.io e))

theorem StartsWith.nil (stream : Bytes) : StartsWith stream [] stream := ⟨rfl, by simp⟩

theorem StartsWith.cons {stream rest : Bytes} (hm : IsFrame maxMessageLen m.frame)
    (h : StartsWith stream ms rest) : StartsWith (m.frame ++ stream) (m :: ms) rest :=
  ⟨by simp [frames, h.1], by simpa using ⟨hm, h.2⟩⟩

/-- A stream starts with one frame only. -/
theorem frame_unique {a b : Bytes} {z z' : RawMessage} (hz : IsFrame maxMessageLen z.frame)
    (hz' : IsFrame maxMessageLen z'.frame) (h : z.frame ++ a = z'.frame ++ b) : z = z' ∧ a = b := by
  have hd := decode_isFrame hz a
  rw [h, decode_isFrame hz' b] at hd
  obtain rfl : z' = z := by simpa using (List.cons.inj hd).1
  exact ⟨rfl, List.append_cancel_left h⟩

/-- The messages up to the first with `p` are determined by the stream. -/
theorem StartsWith.unique {rest rest' : Bytes} {z z' : RawMessage} {p : RawMessage → Prop}
    (hz : p z) (hz' : p z') : ∀ {ms cs : List RawMessage} {stream : Bytes},
    StartsWith stream (ms ++ [z]) rest → StartsWith stream (cs ++ [z']) rest' →
    (∀ m ∈ ms, ¬ p m) → (∀ m ∈ cs, ¬ p m) → ms = cs ∧ z = z' ∧ rest = rest' := by
  have hhead : ∀ {m m' : RawMessage} {ms ms' : List RawMessage} {stream : Bytes},
      StartsWith stream (m :: ms) rest → StartsWith stream (m' :: ms') rest' →
      m = m' ∧ ∃ tail, StartsWith tail ms rest ∧ StartsWith tail ms' rest' := by
    intro m m' ms ms' stream h h'
    obtain ⟨hm, hms⟩ := List.forall_mem_cons.mp h.2
    obtain ⟨hm', hms'⟩ := List.forall_mem_cons.mp h'.2
    have he := h.1.symm.trans h'.1
    simp only [frames, List.flatMap_cons, List.append_assoc] at he
    obtain ⟨rfl, ht⟩ := frame_unique hm hm' he
    exact ⟨rfl, _, ⟨rfl, hms⟩, ht, hms'⟩
  intro ms
  induction ms with
  | nil =>
    intro cs stream h h' hp hp'
    cases cs with
    | nil =>
      obtain ⟨rfl, tail, ht, ht'⟩ := hhead h h'
      exact ⟨rfl, rfl, by simpa [frames] using ht.1.symm.trans ht'.1⟩
    | cons c cs =>
      obtain ⟨rfl, -⟩ := hhead h h'
      exact absurd hz (hp' z (by simp))
  | cons m ms ih =>
    intro cs stream h h' hp hp'
    cases cs with
    | nil =>
      obtain ⟨rfl, -⟩ := hhead h h'
      exact absurd hz' (hp m (by simp))
    | cons c cs =>
      obtain ⟨rfl, tail, ht, ht'⟩ := hhead h h'
      obtain ⟨rfl, he⟩ := ih ht ht' (fun x hx => hp x (by simp [hx])) fun x hx => hp' x (by simp [hx])
      exact ⟨rfl, he⟩

/-- A relay from `s` to `t` is the relay on these messages, which are the ones it consumed; where
that one waits for a message, this one waits or its read fails. -/
structure Refines (clientKey : Option CancelKey) (interactive : Bool) (s t : Streams)
    (r : Option (Except BoxError Unit)) (ms cs : List RawMessage) (R : Relayed) : Prop where
  relayed : relayStartup clientKey interactive ms cs = R
  backend : ∃ rest, StartsWith s.backend ms rest ∧ (R.result = none ∨ rest = t.backend)
  client : ∃ rest, StartsWith s.client cs rest ∧ (R.result = none ∨ rest = t.client)
  consumed : R.backend = [] ∧ R.client = []
  toClient : t.toClient = s.toClient ++ R.toClient.flatten
  toBackend : t.toBackend = s.toBackend ++ R.toBackend.flatten
  target : t.target = R.recorded.or s.target
  result : R.result = r ∨ R.result = none ∧ Waits r

variable {s s' t : Streams} {r : Option (Except BoxError Unit)} {R : Relayed}

theorem Refines.waits (hw : Waits r) (hc : t.toClient = s.toClient) (hb : t.toBackend = s.toBackend)
    (ht : t.target = s.target) :
    Refines clientKey interactive s t r [] [] (.stop none [] []) where
  relayed := rfl
  backend := ⟨_, .nil _, .inl rfl⟩
  client := ⟨_, .nil _, .inl rfl⟩
  consumed := ⟨rfl, rfl⟩
  toClient := by simp [hc, Relayed.stop]
  toBackend := by simp [hb, Relayed.stop]
  target := by simp [ht, Relayed.stop]
  result := .inr ⟨rfl, hw⟩

/-- A round in which the relay ends, or waits for the client. -/
theorem Refines.ends (out : List Bytes) {res : Option (Except BoxError Unit)}
    (hm : IsFrame maxMessageLen m.frame) (hb : s.backend = m.frame ++ t.backend)
    (htc : t.toClient = s.toClient ++ out.flatten) (htb : t.toBackend = s.toBackend)
    (ht : t.target = s.target) (hres : res = r ∧ s.client = t.client ∨ res = none ∧ Waits r)
    (hr : relayStartup clientKey interactive [m] [] = { Relayed.stop res [] [] with toClient := out }) :
    Refines clientKey interactive s t r [m] [] { Relayed.stop res [] [] with toClient := out } where
  relayed := hr
  backend := ⟨t.backend, ⟨by simp [frames, hb], by simpa using hm⟩, .inr rfl⟩
  client := ⟨_, .nil _, hres.elim (fun h => .inr h.2) (fun h => .inl h.1)⟩
  consumed := ⟨rfl, rfl⟩
  toClient := htc
  toBackend := by simp [htb, Relayed.stop]
  target := by simp [ht, Relayed.stop]
  result := hres.imp_left (·.1)

/-- A round that passes a message on and forwards these of the client. -/
theorem Refines.round (used : List RawMessage) {bs : Bytes} (key : Option CancelKey)
    (h : Refines clientKey interactive s' t r ms cs R) (hm : IsFrame maxMessageLen m.frame)
    (hb : s.backend = m.frame ++ s'.backend) (hu : ∀ c ∈ used, IsFrame maxMessageLen c.frame)
    (hc : s.client = frames used ++ s'.client) (htc : s'.toClient = s.toClient ++ bs)
    (htb : s'.toBackend = s.toBackend ++ frames used) (ht : s'.target = key.or s.target)
    (hr : relayStartup clientKey interactive (m :: ms) (used ++ cs) =
      { R with toClient := bs :: R.toClient, toBackend := used.map RawMessage.frame ++ R.toBackend
               recorded := R.recorded.or key }) :
    ∃ ms cs R, Refines clientKey interactive s t r ms cs R := by
  obtain ⟨bt, hbt, hbr⟩ := h.backend
  obtain ⟨ct, hct, hcr⟩ := h.client
  refine ⟨m :: ms, used ++ cs, _, hr, ⟨bt, by rw [hb]; exact hbt.cons hm, hbr⟩, ⟨ct, ⟨?_, ?_⟩, hcr⟩,
    h.consumed, ?_, ?_, ?_, h.result⟩
  · rw [hc, hct.1]; simp [frames]
  · intro c hc
    rcases List.mem_append.mp hc with hc | hc
    · exact hu c hc
    · exact hct.2 c hc
  · rw [h.toClient, htc]; simp
  · rw [h.toBackend, htb]; simp [frames, List.flatMap]
  · rw [h.target, ht, Option.or_assoc]

/-- **The relay on byte streams is the relay on the messages it consumed**, whatever the reads. -/
theorem Streams.relayStartup_refines (clientKey : Option CancelKey) (interactive : Bool) :
    ∀ {reads : List (List Nat × List Nat)} {s t : Streams} {r : Option (Except BoxError Unit)},
      Streams.relayStartup clientKey interactive reads s = (r, t) →
      ∃ ms cs R, Refines clientKey interactive s t r ms cs R := by
  intro reads
  induction reads with
  | nil =>
    rintro s t r ⟨⟩
    exact ⟨[], [], _, .waits (.inl rfl) rfl rfl rfl⟩
  | cons reads₁ reads ih =>
    obtain ⟨backendReads, clientReads⟩ := reads₁
    intro s t r h
    rw [Streams.relayStartup] at h
    split at h
    · cases h; exact ⟨[], [], _, .waits (.inl rfl) rfl rfl rfl⟩
    · cases h; exact ⟨[], [], _, .waits (.inr ⟨_, rfl⟩) rfl rfl rfl⟩
    · rename_i m rest hread
      obtain ⟨hb, hm⟩ := readMessageCapped_ok hread
      have hturn := fun ms cs => relayStartup_turn clientKey interactive m ms cs
      split at h
      · rename_i bs he
        obtain ⟨ms, cs, R, hR⟩ := ih h
        refine hR.round [] none hm hb (by simp) rfl rfl (by simp [frames]; rfl)
          rfl ?_
        rw [List.nil_append, hturn, he, ← hR.relayed]; simp [Relayed.sendClient]
      · rename_i key bs he
        obtain ⟨ms, cs, R, hR⟩ := ih h
        refine hR.round [] (some key) hm hb (by simp) rfl rfl (by simp [frames]; rfl)
          rfl ?_
        rw [List.nil_append, hturn, he, ← hR.relayed]; simp [Relayed.sendClient, Relayed.record]
      · rename_i bs res he
        cases h
        exact ⟨_, _, _, .ends [bs] hm hb (by simp [Streams.sendClient]) rfl rfl
          (.inl ⟨rfl, rfl⟩) (by rw [hturn, he]; rfl)⟩
      · rename_i e he
        cases h
        exact ⟨_, _, _, .ends [] hm hb (by simp) rfl rfl (.inl ⟨rfl, rfl⟩)
          (by rw [hturn, he]; rfl)⟩
      · rename_i bs he
        have hsilent : ∀ {left : Bytes} {r : Option (Except BoxError Unit)}, Waits r →
            (r, { s with backend := rest, client := left }.sendClient bs) = (r, t) →
            ∃ ms cs R, Refines clientKey interactive s t r ms cs R := by
          rintro left r hw ⟨⟩
          exact ⟨_, _, _, .ends [bs] hm hb (by simp [Streams.sendClient]) rfl rfl
            (.inr ⟨rfl, hw⟩) (by rw [hturn, he]; rfl)⟩
        split at h
        · obtain ⟨rfl, -⟩ := Prod.mk.inj h; exact hsilent (.inl rfl) h
        · obtain ⟨rfl, -⟩ := Prod.mk.inj h; exact hsilent (.inr ⟨_, rfl⟩) h
        · rename_i c left hread'
          obtain ⟨hcl, hc⟩ := readMessageCapped_ok hread'
          obtain ⟨ms, cs, R, hR⟩ := ih h
          refine hR.round [c] none hm hb (by simpa using hc) ?_ rfl ?_ rfl ?_
          · simpa [frames, Streams.sendBackend, Streams.sendClient] using hcl
          · simp [frames, Streams.sendBackend, Streams.sendClient, RawMessage.asBytes]
          · rw [List.singleton_append, hturn, he, ← hR.relayed]
            simp [Relayed.sendClient, Relayed.sendBackend, RawMessage.asBytes]

/-- The streams after these messages were passed on and these of the client forwarded. -/
def Streams.after (clientKey : Option CancelKey) (ms cs : List RawMessage) (backend client : Bytes)
    (s : Streams) : Streams where
  backend := backend
  client := client
  toBackend := s.toBackend ++ frames cs
  toClient := s.toClient ++ ms.flatMap (advertised clientKey)
  target := (if clientKey = none then none else lastKey ms).or s.target

/-- Every read of these rounds can take its whole stream. -/
def Ample (reads : List (List Nat × List Nat)) (s : Streams) : Prop :=
  ∀ x ∈ reads, s.backend.length < x.1.length ∧ s.client.length < x.2.length

theorem Streams.relayStartup_pass {used : List RawMessage} {x : List Nat × List Nat}
    {reads : List (List Nat × List Nat)} {backend client : Bytes} (hm : Passes interactive m)
    (hu : used.length = if interactive && isChallenge m then 1 else 0)
    (hx : s.backend.length < x.1.length ∧ s.client.length < x.2.length)
    (hb : StartsWith s.backend [m] backend) (hc : StartsWith s.client used client) :
    Streams.relayStartup clientKey interactive (x :: reads) s =
      Streams.relayStartup clientKey interactive reads (s.after clientKey [m] used backend client) := by
  have ht := relayTurn_spec clientKey interactive m
  have hbe : s.backend = m.frame ++ backend := by simpa [frames] using hb.1
  have hread : readMessage s.backend x.1 = (.done (.ok m), backend) := by
    rw [hbe] at hx ⊢
    exact readMessageCapped_frame (hb.2 m (by simp)) _ _ hx.1
  rw [Streams.relayStartup, hread]
  simp only
  cases hturn : relayTurn clientKey interactive m with
  | pass bs =>
    rw [hturn] at ht
    obtain ⟨-, rfl, hch, hk⟩ := ht
    obtain rfl := List.length_eq_zero_iff.mp (by simpa [hch] using hu)
    obtain rfl : s.client = client := by simpa [frames] using hc.1
    cases hn : clientKey with
    | none => simp [Streams.after, Streams.sendClient, frames]
    | some key => simp [Streams.after, Streams.sendClient, frames, lastKey, hk (by simp [hn])]
  | challenge bs =>
    rw [hturn] at ht
    obtain ⟨-, rfl, hch, hk⟩ := ht
    obtain ⟨c, rfl⟩ := List.length_eq_one_iff.mp (by simpa [hch] using hu)
    have hce : s.client = c.frame ++ client := by simpa [frames] using hc.1
    have hread' : readMessage s.client x.2 = (.done (.ok c), client) := by
      rw [hce] at hx ⊢
      exact readMessageCapped_frame (hc.2 c (by simp)) _ _ hx.2
    simp only [hread']
    simp [Streams.after, Streams.sendClient, Streams.sendBackend, frames, lastKey, hk,
      RawMessage.asBytes]
  | capture key bs =>
    rw [hturn] at ht
    obtain ⟨-, rfl, hch, hn, hk, rfl⟩ := ht
    obtain rfl := List.length_eq_zero_iff.mp (by simpa [hch] using hu)
    obtain rfl : s.client = client := by simpa [frames] using hc.1
    simp [Streams.after, Streams.sendClient, frames, lastKey, hk, hn]
  | finish bs r => rw [hturn] at ht; exact absurd hm ht.1
  | refuse e => rw [hturn] at ht; exact absurd hm ht.1

theorem Streams.relayStartup_passes {used : List RawMessage} {reads : List (List Nat × List Nat)}
    {backend client : Bytes} (hm : ∀ m ∈ ms, Passes interactive m)
    (hu : used.length = answers interactive ms) (hlen : ms.length ≤ reads.length)
    (hx : Ample reads s) (hb : StartsWith s.backend ms backend)
    (hc : StartsWith s.client used client) :
    Streams.relayStartup clientKey interactive reads s =
      Streams.relayStartup clientKey interactive (reads.drop ms.length)
        (s.after clientKey ms used backend client) := by
  induction ms generalizing used reads s with
  | nil =>
    obtain rfl := List.length_eq_zero_iff.mp hu
    obtain rfl : s.backend = backend := by simpa [frames] using hb.1
    obtain rfl : s.client = client := by simpa [frames] using hc.1
    simp [Streams.after, frames, lastKey]
  | cons m ms ih =>
    obtain ⟨a, b, rfl, ha, hb'⟩ := answers_split hu
    obtain ⟨x, reads, rfl⟩ := List.exists_cons_of_length_pos (Nat.lt_of_lt_of_le (by simp) hlen)
    obtain ⟨hbe, hbf⟩ := hb
    obtain ⟨hce, hcf⟩ := hc
    simp only [frames, List.flatMap_cons, List.flatMap_append, List.append_assoc] at hbe hce
    have h1 : StartsWith s.backend [m] (frames ms ++ backend) := ⟨by simpa [frames] using hbe,
      fun y hy => hbf y (by simp_all)⟩
    have h2 : StartsWith s.client a (frames b ++ client) := ⟨hce, fun y hy => hcf y (by simp [hy])⟩
    have hlt : (frames ms ++ backend).length ≤ s.backend.length := by rw [h1.1]; simp
    have hlt' : (frames b ++ client).length ≤ s.client.length := by rw [h2.1]; simp
    have hnext : Ample reads (s.after clientKey [m] a (frames ms ++ backend) (frames b ++ client)) :=
      fun y hy => ⟨Nat.lt_of_le_of_lt hlt (hx y (.tail _ hy)).1,
        Nat.lt_of_le_of_lt hlt' (hx y (.tail _ hy)).2⟩
    rw [relayStartup_pass (hm m (by simp)) ha (hx x (by simp)) h1 h2,
      ih (fun y hy => hm y (by simp [hy])) hb' (by simpa using hlen) hnext
        ⟨rfl, fun y hy => hbf y (by simp [hy])⟩ ⟨rfl, fun y hy => hcf y (by simp [hy])⟩]
    congr 1
    cases clientKey <;>
      simp [Streams.after, frames, ← Option.or_assoc, ← lastKey_append]

/-! ## The relay as a whole -/

/-- A relay from `s` to `t` that consumed `ms` and the ready message `z` of the backend, and `cs` of
the client. -/
structure Spliced (clientKey : Option CancelKey) (interactive : Bool) (s t : Streams)
    (ms : List RawMessage) (z : RawMessage) (cs : List RawMessage) : Prop where
  backend : StartsWith s.backend (ms ++ [z]) t.backend
  ready : z.tag = Tag.readyForQuery
  first : ∀ m ∈ ms, m.tag ≠ Tag.readyForQuery ∧ m.tag ≠ Tag.errorResponse
  toClient : t.toClient = s.toClient ++ (ms ++ [z]).flatMap (advertised clientKey)
  client : StartsWith s.client cs t.client
  toBackend : t.toBackend = s.toBackend ++ frames cs
  answered : cs.length = answers interactive (ms ++ [z])
  target : clientKey ≠ none → t.target = (lastKey (ms ++ [z])).or s.target

/-- The message after which the startup is over is none the others' clauses speak of. -/
theorem end_plain {z : RawMessage} (h : z.tag = Tag.readyForQuery ∨ z.tag = Tag.errorResponse) :
    advertised clientKey z = z.frame ∧ answers interactive [z] = 0 ∧ lastKey [z] = none := by
  have hk : z.tag ≠ Tag.backendKeyData := by rcases h with h | h <;> rw [h] <;> decide
  have ha : z.tag ≠ Tag.authentication := by rcases h with h | h <;> rw [h] <;> decide
  refine ⟨?_, ?_, ?_⟩
  · cases clientKey <;> simp [advertised, hk]
  · simp [answers, isChallenge, ha]
  · simp [lastKey, hk]

theorem Streams.relayStartup_ok {reads : List (List Nat × List Nat)}
    (h : Streams.relayStartup clientKey interactive reads s = (some (.ok ()), t)) :
    ∃ ms z cs, Spliced clientKey interactive s t ms z cs := by
  obtain ⟨ms, cs, R, hR⟩ := Streams.relayStartup_refines clientKey interactive h
  have hres : R.result = some (.ok ()) := by
    rcases hR.result with h | ⟨-, h | ⟨e, h⟩⟩
    · exact h
    · cases h
    · cases h
  have hne : R.result ≠ none := by rw [hres]; nofun
  obtain ⟨bt, hb, hbt⟩ := hR.backend
  obtain ⟨ct, hc, hct⟩ := hR.client
  obtain rfl := hbt.resolve_left hne
  obtain rfl := hct.resolve_left hne
  have hrel := hR.relayed
  rw [← hrel] at hres
  obtain ⟨pre, z, rest, used, rfl, hpre, hz, hused, hcs, he⟩ := Proxy.relayStartup_ok hres
  rw [hrel, hR.consumed.2] at he
  rw [hrel, hR.consumed.2, List.append_nil] at hcs
  subst hcs
  obtain rfl : rest = [] := by have := hR.consumed.1; rw [he] at this; exact this
  obtain ⟨ha, hn, hl⟩ := @end_plain clientKey interactive z (.inl hz)
  refine ⟨pre, z, cs, ⟨hb, hz, fun m hm => ⟨(hpre m hm).ready, (hpre m hm).error⟩, ?_, hc, ?_, ?_, fun hk => ?_⟩⟩
  · rw [hR.toClient, he]
    simp [Relayed.after, Relayed.sendClient, Relayed.stop, ha, List.flatMap]
  · rw [hR.toBackend, he]
    simp [Relayed.after, Relayed.sendClient, Relayed.stop, frames, List.flatMap]
  · rw [hused, answers, answers, List.countP_append]
    exact (Nat.add_zero _).symm.trans (congrArg _ hn.symm)
  · rw [hR.target, he, lastKey_append, hl]
    simp [Relayed.after, Relayed.sendClient, Relayed.stop, hk]

theorem Streams.relayStartup_rejected {reads : List (List Nat × List Nat)} {z : RawMessage}
    {used : List RawMessage} {backend client : Bytes} (hz : z.tag = Tag.errorResponse)
    (hm : ∀ m ∈ ms, Passes interactive m) (hu : used.length = answers interactive ms)
    (hlen : ms.length < reads.length) (hx : Ample reads s)
    (hb : StartsWith s.backend (ms ++ [z]) backend) (hc : StartsWith s.client used client) :
    Streams.relayStartup clientKey interactive reads s =
      (some (.error (.text "backend rejected startup")),
        (s.after clientKey ms used backend client).sendClient z.frame) := by
  have hzf := hb.2 z (by simp)
  have h1 : StartsWith s.backend ms (z.frame ++ backend) :=
    ⟨by simpa [frames] using hb.1, fun m h => hb.2 m (by simp [h])⟩
  rw [Streams.relayStartup_passes hm hu (by omega) hx h1 hc]
  obtain ⟨x, rs, hrs⟩ := List.exists_cons_of_length_pos (l := reads.drop ms.length)
    (by rw [List.length_drop]; omega)
  have hxr := (hx x (List.mem_of_mem_drop (by rw [hrs]; simp))).1
  have hread : readMessage (z.frame ++ backend) x.1 = (.done (.ok z), backend) := by
    refine readMessageCapped_frame hzf _ _ (Nat.lt_of_le_of_lt ?_ hxr)
    rw [h1.1]; simp
  have hturn : relayTurn clientKey interactive z =
      .finish z.frame (.error (.text "backend rejected startup")) := by
    simp [relayTurn.eq_def, hz, Tag.errorResponse, Tag.authentication, Tag.backendKeyData,
      Tag.readyForQuery, RawMessage.asBytes]
  rw [hrs, Streams.relayStartup]
  simp only [Streams.after, hread, hturn]

/-- **The startup relay is transparent.** On any streams and any reads, a relay that returns `Ok`
has passed on the backend's messages up to the first `ReadyForQuery`, with its own key in place of
the backend's, and one message of the client for each challenge, and has consumed nothing else. One
whose backend sends an `ErrorResponse` before does not return `Ok`; it passes that on last and
returns an error. -/
theorem startup_relay_is_transparent (clientKey : Option CancelKey) (interactive : Bool)
    (reads : List (List Nat × List Nat)) (s : Streams) :
    (∀ t, Streams.relayStartup clientKey interactive reads s = (some (.ok ()), t) →
      ∃ ms z cs, Spliced clientKey interactive s t ms z cs) ∧
    (∀ ms z rest, StartsWith s.backend (ms ++ [z]) rest → z.tag = Tag.errorResponse →
      (∀ m ∈ ms, m.tag ≠ Tag.readyForQuery ∧ m.tag ≠ Tag.errorResponse) →
      (∀ t, Streams.relayStartup clientKey interactive reads s ≠ (some (.ok ()), t)) ∧
      ((∀ m ∈ ms, Passes interactive m) → ∀ cs left, StartsWith s.client cs left →
        cs.length = answers interactive ms → ms.length < reads.length → Ample reads s →
        ∃ t, Streams.relayStartup clientKey interactive reads s =
            (some (.error (.text "backend rejected startup")), t) ∧
          t.toClient = s.toClient ++ ms.flatMap (advertised clientKey) ++ z.frame)) := by
  refine ⟨fun t h => Streams.relayStartup_ok h, fun ms z rest hb hz hms => ⟨fun t h => ?_, ?_⟩⟩
  · obtain ⟨pre, w, cs, hs⟩ := Streams.relayStartup_ok h
    obtain ⟨-, rfl, -⟩ := hs.backend.unique
      (p := fun m => m.tag = Tag.readyForQuery ∨ m.tag = Tag.errorResponse) (.inl hs.ready)
      (.inr hz) hb (fun m hm => not_or.mpr (hs.first m hm)) fun m hm => not_or.mpr (hms m hm)
    have he := hs.ready
    rw [hz] at he
    exact absurd he (by decide)
  · intro hp cs left hc hl hlen hx
    exact ⟨_, Streams.relayStartup_rejected hz hp hl hlen hx hb hc, rfl⟩

/-- A backend that challenges once, hands out its key and is ready, and one byte of a later
message. -/
def challengedStreams : Streams where
  backend := frame Tag.authentication (i32ToBe Auth.cleartextPassword) ++ Message.authenticationOk ++
    Message.backendKeyDataRaw [0, 0, 0, 1, 9, 9, 9, 9] ++ Message.readyForQuery 73 ++ [83]
  client := frame Tag.passwordMessage (ascii "secret") ++ [81]
  toBackend := []
  toClient := []
  target := none

theorem startup_relay_is_transparent_when_challenged :
    ∃ t, ∃ ms z cs, Spliced (some ⟨[1, 2, 3, 4, 5, 6, 7, 8]⟩) true challengedStreams t ms z cs :=
  ⟨_, (startup_relay_is_transparent (some ⟨[1, 2, 3, 4, 5, 6, 7, 8]⟩) true
    (List.replicate 4 (List.replicate 13 1, List.replicate 13 1)) challengedStreams).1
    { backend := [83], client := [81], toBackend := frame Tag.passwordMessage (ascii "secret")
      toClient := frame Tag.authentication (i32ToBe Auth.cleartextPassword) ++
        Message.authenticationOk ++ Message.backendKeyDataRaw [1, 2, 3, 4, 5, 6, 7, 8] ++
        Message.readyForQuery 73
      target := some ⟨[0, 0, 0, 1, 9, 9, 9, 9]⟩ } (by decide +kernel)⟩

end RamaPg.Proxy
