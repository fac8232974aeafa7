import RamaPg.Proxy.Transparency

/-!
# Pass-through authentication

The client and the backend of an authentication dialogue, connected directly and through
`relay_startup`. Each party performs its side of the dialogue and waits for what it expects; the
relay takes the turns of `relayTurn`. The parties act in any order.
-/

namespace RamaPg.Proxy

open RamaPg.Lib RamaPg.Codec RamaPg.Startup

/-! ## Dialogues -/

/-- A message of the backend and what the client says to it, if it says anything. -/
structure Exchange where
  message : RawMessage
  reply : Option RawMessage

/-- A dialogue up to the backend's `ReadyForQuery`. Every `Authentication` message has a sub-type,
and the client replies to none but challenges. -/
structure AuthDialogue where
  exchanges : List Exchange
  ready : RawMessage
  passes : ∀ x ∈ exchanges, Passes true x.message
  ready_tag : ready.tag = Tag.readyForQuery
  replied : ∀ x ∈ exchanges, x.reply ≠ none → x.message.tag = Tag.authentication ∧
    subtypeOf x.message.payload ≠ some Auth.ok

/-- The client replies to the challenges other than `SASLFinal`, and to no other message. -/
def Exchange.Paced (x : Exchange) : Prop := x.reply.isSome = isChallenge x.message

instance (x : Exchange) : Decidable x.Paced := inferInstanceAs (Decidable (_ = _))

def AuthDialogue.Paced (d : AuthDialogue) : Prop := ∀ x ∈ d.exchanges, x.Paced

/-! ## Parties -/

/-- What a party does next: send a message, or go on when these bytes have come. -/
inductive Act where
  | send (m : RawMessage)
  | recv (bs : Bytes)

/-- The client's side, where a message of the backend arrives as `shown`. -/
def clientActs (shown : RawMessage → Bytes) (xs : List Exchange) : List Act :=
  xs.flatMap fun x => .recv (shown x.message) :: x.reply.toList.map .send

def backendActs (xs : List Exchange) : List Act :=
  xs.flatMap fun x => .send x.message :: x.reply.toList.map fun c => .recv c.frame

/-- One act: what is left to do and unread, and what is sent. -/
def actStep : List Act → List Bytes → Option (List Act × List Bytes × List RawMessage)
  | .send m :: acts, inbox => some (acts, inbox, [m])
  | .recv bs :: acts, x :: inbox => if x = bs then some (acts, inbox, []) else none
  | _, _ => none

theorem actStep_append {acts acts' : List Act} {inbox inbox' : List Bytes} {out : List RawMessage}
    (h : actStep acts inbox = some (acts', inbox', out)) (more : List Bytes) :
    actStep acts (inbox ++ more) = some (acts', inbox' ++ more, out) := by
  unfold actStep at h
  split at h
  · cases h; rfl
  · split at h
    · rename_i he
      cases h
      simp only [List.cons_append, actStep, he, ↓reduceIte]
    · cases h
  · cases h

/-! ## The direct connection -/

/-- The two parties and the messages under way between them. -/
structure Direct where
  client : List Act
  backend : List Act
  toClient : List Bytes
  toBackend : List Bytes

def Direct.step (n : Direct) : Side → Option Direct
  | .left => (actStep n.client n.toClient).map fun (acts, inbox, out) =>
      { n with client := acts, toClient := inbox, toBackend := n.toBackend ++ out.map RawMessage.frame }
  | .right => (actStep n.backend n.toBackend).map fun (acts, inbox, out) =>
      { n with backend := acts, toBackend := inbox, toClient := n.toClient ++ out.map RawMessage.frame }

/-! ## The connection through the relay -/

inductive RelayState where
  /-- Reading from the backend. -/
  | listening
  /-- Reading the client's answer to a challenge. -/
  | awaiting
  | ended (r : Except BoxError Unit)

structure PassThrough where
  client : List Act
  backend : List Act
  relay : RelayState
  toClient : List Bytes
  toBackend : List Bytes
  fromClient : List RawMessage
  fromBackend : List RawMessage

inductive Party where
  | client
  | relay
  | backend
  deriving DecidableEq, Repr

namespace PassThrough

/-- The relay with a message of the backend: what it does next and what the client is sent. -/
def turn (clientKey : Option CancelKey) (m : RawMessage) : RelayState × List Bytes :=
  match relayTurn clientKey true m with
  | .pass bs => (.listening, [bs])
  | .challenge bs => (.awaiting, [bs])
  | .capture _ bs => (.listening, [bs])
  | .finish bs r => (.ended r, [bs])
  | .refuse e => (.ended (.error e), [])

/-- One read of the relay: its state, what is left of the backend's and of the client's messages,
and what the client and the backend are sent. -/
def relayStep (clientKey : Option CancelKey) : RelayState → List RawMessage → List RawMessage →
    Option (RelayState × List RawMessage × List RawMessage × List Bytes × List Bytes)
  | .listening, m :: backend, client =>
    some ((turn clientKey m).1, backend, client, (turn clientKey m).2, [])
  | .awaiting, backend, c :: client => some (.listening, backend, client, [], [c.asBytes])
  | _, _, _ => none

def step (clientKey : Option CancelKey) (n : PassThrough) : Party → Option PassThrough
  | .client => (actStep n.client n.toClient).map fun (acts, inbox, out) =>
      { n with client := acts, toClient := inbox, fromClient := n.fromClient ++ out }
  | .relay => (relayStep clientKey n.relay n.fromBackend n.fromClient).map
      fun (relay, backend, client, toClient, toBackend) =>
        { n with relay := relay, fromBackend := backend, fromClient := client
                 toClient := n.toClient ++ toClient, toBackend := n.toBackend ++ toBackend }
  | .backend => (actStep n.backend n.toBackend).map fun (acts, inbox, out) =>
      { n with backend := acts, toBackend := inbox, fromBackend := n.fromBackend ++ out }

/-- Nothing is under way, and this is left of the dialogue. -/
def at_ (clientKey : Option CancelKey) (xs : List Exchange) (ready : RawMessage) : PassThrough where
  client := clientActs (advertised clientKey) xs ++ [.recv (advertised clientKey ready)]
  backend := backendActs xs ++ [.send ready]
  relay := .listening
  toClient := []
  toBackend := []
  fromClient := []
  fromBackend := []

/-- Both parties are through, everything sent has arrived, and the relay returned `Ok`. -/
def carried : PassThrough := ⟨[], [], .ended (.ok ()), [], [], [], []⟩

end PassThrough

/-- However the three act, they can go on until the dialogue is carried. -/
def AuthDialogue.Carried (clientKey : Option CancelKey) (d : AuthDialogue) : Prop :=
  ∀ sched t, exec (PassThrough.step clientKey) (.at_ clientKey d.exchanges d.ready) sched = some t →
    ∃ rest, exec (PassThrough.step clientKey) t rest = some .carried

/-- However the two act, they can go on until both are through. -/
def AuthDialogue.Completed (d : AuthDialogue) : Prop :=
  ∀ sched t, exec Direct.step ⟨clientActs RawMessage.frame d.exchanges ++ [.recv d.ready.frame],
      backendActs d.exchanges ++ [.send d.ready], [], []⟩ sched = some t →
    ∃ rest, exec Direct.step t rest = some ⟨[], [], [], []⟩

/-! ## Direct connections complete -/

theorem Direct.commutes : Commutes Direct.step := by
  have hcomm : ∀ {n l r : Direct}, n.step .left = some l → n.step .right = some r →
      ∃ t, l.step .right = some t ∧ r.step .left = some t := by
    intro n l r hl hr
    simp only [Direct.step, Option.map_eq_some_iff, Prod.exists] at hl hr
    obtain ⟨acts, inbox, out, hc, rfl⟩ := hl
    obtain ⟨acts', inbox', out', hb, rfl⟩ := hr
    refine ⟨⟨acts, acts', inbox ++ out'.map RawMessage.frame, inbox' ++ out.map RawMessage.frame⟩,
      ?_, ?_⟩
    · simp only [Direct.step, actStep_append hb, Option.map_some]
    · simp only [Direct.step, actStep_append hc, Option.map_some]
  intro n a b s₁ s₂ ha hb hne
  cases a <;> cases b
  · exact (hne rfl).elim
  · exact hcomm ha hb
  · obtain ⟨t, h₁, h₂⟩ := hcomm hb ha
    exact ⟨t, h₂, h₁⟩
  · exact (hne rfl).elim

theorem Direct.runs (ready : RawMessage) : ∀ xs : List Exchange, ∃ sched,
    exec Direct.step ⟨clientActs RawMessage.frame xs ++ [.recv ready.frame],
      backendActs xs ++ [.send ready], [], []⟩ sched = some ⟨[], [], [], []⟩
  | [] => ⟨[.right, .left], by simp [exec, Direct.step, clientActs, backendActs, actStep]⟩
  | ⟨m, none⟩ :: xs => by
    obtain ⟨sched, h⟩ := Direct.runs ready xs
    refine ⟨.right :: .left :: sched, ?_⟩
    simpa [exec, Direct.step, clientActs, backendActs, actStep] using h
  | ⟨m, some c⟩ :: xs => by
    obtain ⟨sched, h⟩ := Direct.runs ready xs
    refine ⟨.right :: .left :: .left :: .right :: sched, ?_⟩
    simpa [exec, Direct.step, clientActs, backendActs, actStep] using h

theorem AuthDialogue.completed (d : AuthDialogue) : d.Completed := by
  intro sched t ht
  obtain ⟨as, h⟩ := Direct.runs d.ready d.exchanges
  obtain ⟨rest, hr, -⟩ := exec_descent Direct.commutes (fun a => by cases a <;> rfl) h ht
  exact ⟨rest, hr⟩

/-! ## Paced dialogues are carried -/

namespace PassThrough

variable {clientKey : Option CancelKey} {m : RawMessage}

theorem turn_pass (hm : Passes true m) : turn clientKey m =
    (if isChallenge m then .awaiting else .listening, [advertised clientKey m]) := by
  have ht := relayTurn_spec clientKey true m
  unfold turn
  cases h : relayTurn clientKey true m with
  | pass bs =>
    rw [h] at ht
    obtain ⟨-, rfl, hc, -⟩ := ht
    rw [Bool.true_and] at hc
    simp [hc]
  | challenge bs =>
    rw [h] at ht
    obtain ⟨-, rfl, hc, -⟩ := ht
    rw [Bool.true_and] at hc
    simp [hc]
  | capture key bs =>
    rw [h] at ht
    obtain ⟨-, rfl, hc, -⟩ := ht
    rw [Bool.true_and] at hc
    simp [hc]
  | finish bs r => rw [h] at ht; exact absurd hm ht.1
  | refuse e => rw [h] at ht; exact absurd hm ht.1

theorem turn_ready (hm : m.tag = Tag.readyForQuery) :
    turn clientKey m = (.ended (.ok ()), [advertised clientKey m]) := by
  have ht := relayTurn_spec clientKey true m
  have hp : ¬ Passes true m := fun h => h.ready hm
  unfold turn
  cases h : relayTurn clientKey true m with
  | pass bs => rw [h] at ht; exact absurd ht.1 hp
  | challenge bs => rw [h] at ht; exact absurd ht.1 hp
  | capture key bs => rw [h] at ht; exact absurd ht.1 hp
  | finish bs r =>
    rw [h] at ht
    obtain ⟨-, rfl, ⟨-, rfl⟩ | ⟨he, -⟩⟩ := ht
    · simp only [(@end_plain clientKey true m (.inl hm)).1]
    · rw [hm] at he; exact absurd he (by decide)
  | refuse e =>
    rw [h, hm] at ht
    exact absurd ht.2 (by decide)

theorem relayStep_append {st st' : RelayState} {fb fb' fc fc' : List RawMessage}
    {toClient toBackend : List Bytes}
    (h : relayStep clientKey st fb fc = some (st', fb', fc', toClient, toBackend))
    (moreB moreC : List RawMessage) : relayStep clientKey st (fb ++ moreB) (fc ++ moreC) =
      some (st', fb' ++ moreB, fc' ++ moreC, toClient, toBackend) := by
  unfold relayStep at h
  split at h
  · cases h; rfl
  · cases h; rfl
  · cases h

theorem commutes (clientKey : Option CancelKey) : Commutes (step clientKey) := by
  have hcr : ∀ {n s t : PassThrough}, n.step clientKey .client = some s →
      n.step clientKey .relay = some t →
      ∃ u, s.step clientKey .relay = some u ∧ t.step clientKey .client = some u := by
    intro n s t hs ht
    simp only [step, Option.map_eq_some_iff, Prod.exists] at hs ht
    obtain ⟨acts, inbox, out, hc, rfl⟩ := hs
    obtain ⟨st, fb, fc, toC, toB, hr, rfl⟩ := ht
    have hr' := relayStep_append hr [] out
    rw [List.append_nil, List.append_nil] at hr'
    simp only [step, actStep_append hc, hr', Option.map_some]
    exact ⟨_, rfl, rfl⟩
  have hbr : ∀ {n s t : PassThrough}, n.step clientKey .backend = some s →
      n.step clientKey .relay = some t →
      ∃ u, s.step clientKey .relay = some u ∧ t.step clientKey .backend = some u := by
    intro n s t hs ht
    simp only [step, Option.map_eq_some_iff, Prod.exists] at hs ht
    obtain ⟨acts, inbox, out, hb, rfl⟩ := hs
    obtain ⟨st, fb, fc, toC, toB, hr, rfl⟩ := ht
    have hr' := relayStep_append hr out []
    rw [List.append_nil, List.append_nil] at hr'
    simp only [step, actStep_append hb, hr', Option.map_some]
    exact ⟨_, rfl, rfl⟩
  have hcb : ∀ {n s t : PassThrough}, n.step clientKey .client = some s →
      n.step clientKey .backend = some t →
      ∃ u, s.step clientKey .backend = some u ∧ t.step clientKey .client = some u := by
    intro n s t hs ht
    simp only [step, Option.map_eq_some_iff, Prod.exists] at hs ht
    obtain ⟨acts, inbox, out, hc, rfl⟩ := hs
    obtain ⟨acts', inbox', out', hb, rfl⟩ := ht
    simp only [step, hc, hb, Option.map_some]
    exact ⟨_, rfl, rfl⟩
  have hswap : ∀ {a b : Party} {s t : PassThrough},
      (∃ u, s.step clientKey b = some u ∧ t.step clientKey a = some u) →
      ∃ u, t.step clientKey a = some u ∧ s.step clientKey b = some u :=
    fun ⟨u, h, h'⟩ => ⟨u, h', h⟩
  intro n a b s t ha hb hne
  cases a <;> cases b
  · exact (hne rfl).elim
  · exact hcr ha hb
  · exact hcb ha hb
  · exact hswap (hcr hb ha)
  · exact (hne rfl).elim
  · exact hswap (hbr hb ha)
  · exact hswap (hcb hb ha)
  · exact hbr ha hb
  · exact (hne rfl).elim

/-- One paced exchange is carried whole. -/
theorem carries_exchange {x : Exchange} (hm : Passes true x.message) (hx : x.Paced)
    (xs : List Exchange) (ready : RawMessage) : ∃ sched,
      exec (step clientKey) (at_ clientKey (x :: xs) ready) sched = some (at_ clientKey xs ready) := by
  obtain ⟨m, reply⟩ := x
  have ht := @turn_pass clientKey m hm
  cases reply with
  | none =>
    refine ⟨[.backend, .relay, .client], ?_⟩
    rw [← show false = isChallenge m from hx] at ht
    simp [exec, step, at_, clientActs, backendActs, actStep, relayStep, ht]
  | some c =>
    refine ⟨[.backend, .relay, .client, .client, .relay, .backend], ?_⟩
    rw [← show true = isChallenge m from hx] at ht
    simp [exec, step, at_, clientActs, backendActs, actStep, relayStep, ht, RawMessage.asBytes]

theorem carries_ready {ready : RawMessage} (h : ready.tag = Tag.readyForQuery) :
    ∃ sched, exec (step clientKey) (at_ clientKey [] ready) sched = some carried := by
  refine ⟨[.backend, .relay, .client], ?_⟩
  simp [exec, step, at_, clientActs, backendActs, actStep, relayStep, turn_ready h, carried]

/-- The exchanges before these are over. -/
theorem carries {ready : RawMessage} {xs : List Exchange} (hm : ∀ x ∈ xs, Passes true x.message)
    (hp : ∀ x ∈ xs, x.Paced) (ys : List Exchange) : ∃ sched,
      exec (step clientKey) (at_ clientKey (xs ++ ys) ready) sched = some (at_ clientKey ys ready) := by
  induction xs with
  | nil => exact ⟨[], rfl⟩
  | cons x xs ih =>
    obtain ⟨as, h⟩ := @carries_exchange clientKey x (hm x (by simp)) (hp x (by simp)) (xs ++ ys) ready
    obtain ⟨bs, h'⟩ := ih (fun y hy => hm y (by simp [hy])) fun y hy => hp y (by simp [hy])
    exact ⟨as ++ bs, by rw [List.cons_append, exec_append h, h']⟩

/-! ## Other dialogues are not -/

/-- The relay waits for the client, and the client for the relay. -/
def Deaf (n : PassThrough) : Prop :=
  n.relay = .awaiting ∧ n.fromClient = [] ∧ n.toClient = [] ∧
    ∃ bs acts, n.client = .recv bs :: acts

/-- The relay waits for the backend, and the backend for the relay. -/
def Unheard (n : PassThrough) : Prop :=
  n.relay = .listening ∧ n.fromBackend = [] ∧ n.toBackend = [] ∧
    ∃ bs acts, n.backend = .recv bs :: acts

theorem deaf_step {n t : PassThrough} {a : Party} (h : Deaf n) (ht : n.step clientKey a = some t) :
    Deaf t := by
  obtain ⟨hr, hf, hq, bs, acts, hc⟩ := h
  cases a with
  | client => simp [step, hc, hq, actStep] at ht
  | relay => simp [step, hr, hf, relayStep] at ht
  | backend =>
    simp only [step, Option.map_eq_some_iff, Prod.exists] at ht
    obtain ⟨_, _, _, -, rfl⟩ := ht
    exact ⟨hr, hf, hq, bs, acts, hc⟩

theorem unheard_step {n t : PassThrough} {a : Party} (h : Unheard n)
    (ht : n.step clientKey a = some t) : Unheard t := by
  obtain ⟨hr, hf, hq, bs, acts, hb⟩ := h
  cases a with
  | client =>
    simp only [step, Option.map_eq_some_iff, Prod.exists] at ht
    obtain ⟨_, _, _, -, rfl⟩ := ht
    exact ⟨hr, hf, hq, bs, acts, hb⟩
  | relay => simp [step, hr, hf, relayStep] at ht
  | backend => simp [step, hb, hq, actStep] at ht

/-- A state with no way to the end. -/
theorem lost {n : PassThrough} (h : Deaf n ∨ Unheard n) (sched : List Party) :
    exec (step clientKey) n sched ≠ some carried := by
  intro hr
  rcases h with h | h
  · exact nomatch (exec_inv' (I := Deaf) (fun _ _ _ h ht => deaf_step h ht) h hr).1
  · exact nomatch (exec_inv' (I := Unheard) (fun _ _ _ h ht => unheard_step h ht) h hr).1

/-- An exchange that is not paced leads to such a state. -/
theorem loses_exchange {x : Exchange} (hm : Passes true x.message) (hx : ¬ x.Paced)
    (xs : List Exchange) (ready : RawMessage) : ∃ sched t,
      exec (step clientKey) (at_ clientKey (x :: xs) ready) sched = some t ∧ (Deaf t ∨ Unheard t) := by
  obtain ⟨m, reply⟩ := x
  have ht := @turn_pass clientKey m hm
  refine ⟨[.backend, .relay, .client], ?_⟩
  cases reply with
  | none =>
    have hc : isChallenge m = true := by simpa [Exchange.Paced] using hx
    have hnext : ∃ bs acts, clientActs (advertised clientKey) xs ++
        [.recv (advertised clientKey ready)] = .recv bs :: acts := by
      cases xs with
      | nil => exact ⟨_, _, rfl⟩
      | cons y ys => exact ⟨_, _, rfl⟩
    refine ⟨{ at_ clientKey xs ready with relay := .awaiting }, ?_, .inl ⟨rfl, rfl, rfl, hnext⟩⟩
    simp [exec, step, at_, clientActs, backendActs, actStep, relayStep, ht, hc]
  | some c =>
    have hc : isChallenge m = false := by simpa [Exchange.Paced] using hx
    refine ⟨{ at_ clientKey xs ready with
      client := .send c :: (at_ clientKey xs ready).client
      backend := .recv c.frame :: (at_ clientKey xs ready).backend }, ?_,
      .inr ⟨rfl, rfl, rfl, _, _, rfl⟩⟩
    simp [exec, step, at_, clientActs, backendActs, actStep, relayStep, ht, hc]

end PassThrough

/-- Where a dialogue that is not paced departs from it. -/
theorem AuthDialogue.departs {d : AuthDialogue} (h : ¬ d.Paced) : ∃ xs x ys,
    d.exchanges = xs ++ x :: ys ∧ (∀ y ∈ xs, y.Paced) ∧ ¬ x.Paced := by
  have hgo : ∀ zs : List Exchange, ¬ (∀ z ∈ zs, z.Paced) → ∃ xs x ys,
      zs = xs ++ x :: ys ∧ (∀ y ∈ xs, y.Paced) ∧ ¬ x.Paced := by
    intro zs
    induction zs with
    | nil => intro h; exact absurd (by simp) h
    | cons z zs ih =>
      intro h
      by_cases hz : z.Paced
      · obtain ⟨xs, x, ys, rfl, hxs, hx⟩ := ih fun hall => h (by simpa using ⟨hz, hall⟩)
        exact ⟨z :: xs, x, ys, rfl, by simpa using ⟨hz, hxs⟩, hx⟩
      · exact ⟨[], z, zs, rfl, by simp, hz⟩
  exact hgo d.exchanges h

theorem AuthDialogue.not_carried (clientKey : Option CancelKey) {d : AuthDialogue}
    (hp : ¬ d.Paced) : ¬ d.Carried clientKey := by
  intro h
  obtain ⟨xs, x, ys, he, hxs, hx⟩ := AuthDialogue.departs hp
  have hm := d.passes
  rw [he] at hm
  obtain ⟨as, ha⟩ := @PassThrough.carries clientKey d.ready xs (fun y hy => hm y (by simp [hy])) hxs
    (x :: ys)
  obtain ⟨bs, t, hb, hlost⟩ := @PassThrough.loses_exchange clientKey x (hm x (by simp)) hx ys d.ready
  obtain ⟨rest, hr⟩ := h (as ++ bs) t (by rw [he, exec_append ha, hb])
  exact PassThrough.lost hlost rest hr

theorem AuthDialogue.carried_of_paced (clientKey : Option CancelKey) {d : AuthDialogue}
    (hp : d.Paced) : d.Carried clientKey := by
  intro sched t ht
  obtain ⟨as, ha⟩ := @PassThrough.carries clientKey d.ready d.exchanges d.passes hp []
  obtain ⟨bs, hb⟩ := @PassThrough.carries_ready clientKey d.ready d.ready_tag
  rw [List.append_nil] at ha
  obtain ⟨rest, hr, -⟩ := exec_descent (PassThrough.commutes clientKey)
    (fun a => by cases a <;> rfl) ((exec_append ha).trans hb) ht
  exact ⟨rest, hr⟩

/-- **Pass-through carries the paced dialogues.** Every dialogue completes on a direct connection;
through the relay it is carried, whatever the order in which the three act, exactly when the client
answers each challenge other than `SASLFinal` and nothing else. -/
theorem pass_through_carries_iff (clientKey : Option CancelKey) (d : AuthDialogue) :
    d.Completed ∧ (d.Carried clientKey ↔ d.Paced) :=
  ⟨d.completed, fun h => by_contra fun hp => AuthDialogue.not_carried clientKey hp h,
    AuthDialogue.carried_of_paced clientKey⟩

/-- A GSSAPI dialogue whose last `GSSContinue` token completes the client's context. -/
def gssDialogue : AuthDialogue where
  exchanges :=
    [⟨RawMessage.build Tag.authentication (i32ToBe 7),
      some (RawMessage.build Tag.passwordMessage (ascii "token"))⟩,
     ⟨RawMessage.build Tag.authentication (i32ToBe 8 ++ ascii "reply"), none⟩,
     ⟨RawMessage.build Tag.authentication (i32ToBe 0), none⟩]
  ready := RawMessage.build Tag.readyForQuery [73]
  passes := by
    have h : ∀ (n : Int) (bs : Bytes) (s : Int), subtypeOf (i32ToBe n ++ bs) = some s →
        Passes true (RawMessage.build Tag.authentication (i32ToBe n ++ bs)) := fun n bs s hs =>
      ⟨by rw [RawMessage.tag_build]; decide, by rw [RawMessage.tag_build]; decide,
        fun _ => ⟨s, by rw [RawMessage.payload_build, hs], .inr rfl⟩⟩
    intro x hx
    simp only [List.mem_cons, List.not_mem_nil, or_false] at hx
    rcases hx with rfl | rfl | rfl
    · exact h 7 [] 7 (by decide)
    · exact h 8 _ 8 (by decide)
    · exact h 0 [] 0 (by decide)
  ready_tag := by decide
  replied := by decide

/-- The relay waits for an answer to the last token, which the client does not owe. -/
theorem pass_through_loses_gss : gssDialogue.Completed ∧ ¬ gssDialogue.Carried none := by
  refine ⟨gssDialogue.completed, AuthDialogue.not_carried none fun h => ?_⟩
  have hp := h ⟨RawMessage.build Tag.authentication (i32ToBe 8 ++ ascii "reply"), none⟩
    (by simp [gssDialogue])
  exact absurd hp (by decide)

end RamaPg.Proxy
