import RamaPg.Lib.Bytes
import RamaPg.Lib.Machine

/-!
# Dialogues over a byte stream

A `Prog` is a program that writes byte strings to a peer, reads messages from it and returns a
result; a write or a read that fails ends it with that error. `ρ` are the kinds of read it asks
for, `ι` the messages a read gives.

`Runs p es r` is what can happen to `p` whatever the peer does: `es` are the writes and reads so
far and `r` the result, if there is one yet. A `Net` is two programs facing each other over two
byte queues, moving one byte or one message at a time in any order.
-/

namespace RamaPg.Lib

inductive Prog (ρ ι ε α : Type) where
  | done (r : Except ε α)
  | write (bs : Bytes) (k : Prog ρ ι ε α)
  | read (q : ρ) (k : ι → Prog ρ ι ε α)

namespace Prog

variable {ρ ι ε α β : Type}

def bind : Prog ρ ι ε α → (α → Prog ρ ι ε β) → Prog ρ ι ε β
  | done (.ok a), f => f a
  | done (.error e), _ => done (.error e)
  | write bs k, f => write bs (k.bind f)
  | read q k, f => read q fun m => (k m).bind f

instance : Monad (Prog ρ ι ε) where
  pure a := done (.ok a)
  bind := Prog.bind

/-- Write all the bytes and flush. -/
def send (bs : Bytes) : Prog ρ ι ε Unit := write bs (done (.ok ()))

/-- Read one message. -/
def recv (q : ρ) : Prog ρ ι ε ι := read q fun m => done (.ok m)

/-- Return early with the error, if it is one. -/
def lift (r : Except ε α) : Prog ρ ι ε α := done r

theorem pure_def (a : α) : (pure a : Prog ρ ι ε α) = done (.ok a) := rfl

theorem ok_bind (a : α) (f : α → Prog ρ ι ε β) : (done (.ok a) >>= f) = f a := rfl

theorem write_bind (bs : Bytes) (k : Prog ρ ι ε α) (f : α → Prog ρ ι ε β) :
    (write bs k >>= f) = write bs (k >>= f) := rfl

theorem read_bind (q : ρ) (k : ι → Prog ρ ι ε α) (f : α → Prog ρ ι ε β) :
    (read q k >>= f) = read q fun m => k m >>= f := rfl

theorem send_bind (bs : Bytes) (f : Unit → Prog ρ ι ε β) :
    (send bs >>= f) = write bs (f ()) := rfl

theorem recv_bind (q : ρ) (f : ι → Prog ρ ι ε β) : (recv q >>= f) = read q f := rfl

theorem lift_ok_bind (a : α) (f : α → Prog ρ ι ε β) : (lift (.ok a) >>= f) = f a := rfl

theorem lift_error_bind (e : ε) (f : α → Prog ρ ι ε β) :
    (lift (.error e) >>= f) = done (.error e) := rfl

end Prog

/-! ## One party, any peer -/

section Runs

variable {ρ ι ε α : Type}

/-- What a party did. A write that fails, or whose future is dropped, may have sent a part. -/
inductive Event (ρ ι : Type) where
  | sent (bs : Bytes)
  | torn (bs part : Bytes)
  | received (q : ρ) (m : ι)

/-- The byte string a write was started with. -/
def Event.written : Event ρ ι → Option Bytes
  | .sent bs => some bs
  | .torn bs _ => some bs
  | .received _ _ => none

inductive Runs : Prog ρ ι ε α → List (Event ρ ι) → Option (Except ε α) → Prop where
  | stop (p : Prog ρ ι ε α) : Runs p [] none
  | done (r : Except ε α) : Runs (.done r) [] (some r)
  | sent {bs : Bytes} {k : Prog ρ ι ε α} {es : List (Event ρ ι)} {r : Option (Except ε α)} :
      Runs k es r → Runs (.write bs k) (.sent bs :: es) r
  | torn {bs part : Bytes} {k : Prog ρ ι ε α} (hp : part <+: bs) :
      Runs (.write bs k) [.torn bs part] none
  | failedWrite {bs part : Bytes} {k : Prog ρ ι ε α} (hp : part <+: bs) (e : ε) :
      Runs (.write bs k) [.torn bs part] (some (.error e))
  | received {q : ρ} {k : ι → Prog ρ ι ε α} {m : ι} {es : List (Event ρ ι)}
      {r : Option (Except ε α)} : Runs (k m) es r → Runs (.read q k) (.received q m :: es) r
  | failedRead {q : ρ} {k : ι → Prog ρ ι ε α} (e : ε) : Runs (.read q k) [] (some (.error e))

/-- The run in which all writes succeed and the reads give these messages: what happens, the result
if it comes to one, and the messages left. -/
def Prog.feed : Prog ρ ι ε α → List ι → List (Event ρ ι) × Option (Except ε α) × List ι
  | .done r, ms => ([], some r, ms)
  | .write bs k, ms => (.sent bs :: (k.feed ms).1, (k.feed ms).2)
  | .read _ _, [] => ([], none, [])
  | .read q k, m :: ms => (.received q m :: ((k m).feed ms).1, ((k m).feed ms).2)

/-- The result is not a success. -/
def Unfinished (r : Option (Except ε α)) : Prop := ∀ a, r ≠ some (.ok a)

variable {es : List (Event ρ ι)} {r : Option (Except ε α)} {bs : Bytes} {q : ρ}

theorem unfinished_none : Unfinished (none : Option (Except ε α)) := nofun

theorem unfinished_error (e : ε) : Unfinished (some (.error e) : Option (Except ε α)) := nofun

theorem Runs.done_inv {res : Except ε α} (h : Runs (.done res : Prog ρ ι ε α) es r) :
    es = [] ∧ (r = none ∨ r = some res) := by
  cases h with
  | stop => exact ⟨rfl, .inl rfl⟩
  | done => exact ⟨rfl, .inr rfl⟩

theorem Runs.write_inv {k : Prog ρ ι ε α} (h : Runs (.write bs k) es r) :
    (Unfinished r ∧ (es = [] ∨ ∃ part, es = [.torn bs part])) ∨
      ∃ es', es = .sent bs :: es' ∧ Runs k es' r := by
  cases h with
  | stop => exact .inl ⟨unfinished_none, .inl rfl⟩
  | sent h => exact .inr ⟨_, rfl, h⟩
  | torn hp => exact .inl ⟨unfinished_none, .inr ⟨_, rfl⟩⟩
  | failedWrite hp e => exact .inl ⟨unfinished_error e, .inr ⟨_, rfl⟩⟩

theorem Runs.read_inv {k : ι → Prog ρ ι ε α} (h : Runs (.read q k) es r) :
    (Unfinished r ∧ es = []) ∨ ∃ m es', es = .received q m :: es' ∧ Runs (k m) es' r := by
  cases h with
  | stop => exact .inl ⟨unfinished_none, rfl⟩
  | received h => exact .inr ⟨_, _, rfl, h⟩
  | failedRead e => exact .inl ⟨unfinished_error e, rfl⟩

/-- Every write the program can come to is one of `P`. -/
def Prog.Writes (P : Bytes → Prop) : Prog ρ ι ε α → Prop
  | .done _ => True
  | .write bs k => P bs ∧ k.Writes P
  | .read _ k => ∀ m, (k m).Writes P

theorem Prog.Writes.bind {β : Type} {P : Bytes → Prop} : ∀ {p : Prog ρ ι ε α}
    {f : α → Prog ρ ι ε β}, p.Writes P → (∀ a, (f a).Writes P) → (p >>= f).Writes P
  | .done (.ok a), _, _, hf => hf a
  | .done (.error _), _, _, _ => trivial
  | .write _ _, _, h, hf => ⟨h.1, Prog.Writes.bind h.2 hf⟩
  | .read _ _, _, h, hf => fun m => Prog.Writes.bind (h m) hf

theorem Prog.writes_send {P : Bytes → Prop} (h : P bs) :
    (Prog.send bs : Prog ρ ι ε Unit).Writes P := ⟨h, trivial⟩

theorem Prog.writes_recv {P : Bytes → Prop} : (Prog.recv q : Prog ρ ι ε ι).Writes P :=
  fun _ => trivial

theorem Prog.writes_lift {P : Bytes → Prop} (r : Except ε α) :
    (Prog.lift r : Prog ρ ι ε α).Writes P := trivial

theorem Prog.writes_pure {P : Bytes → Prop} (a : α) :
    (Pure.pure a : Prog ρ ι ε α).Writes P := trivial

theorem Runs.writes {P : Bytes → Prop} {p : Prog ρ ι ε α} (h : Runs p es r) (hp : p.Writes P) :
    ∀ bs ∈ es.filterMap Event.written, P bs := by
  induction h with
  | stop => exact nofun
  | done => exact nofun
  | sent _ ih =>
    intro bs hbs
    rcases List.mem_cons.mp hbs with rfl | hbs
    · exact hp.1
    · exact ih hp.2 bs hbs
  | torn => intro bs hbs; obtain rfl := List.mem_singleton.mp hbs; exact hp.1
  | failedWrite => intro bs hbs; obtain rfl := List.mem_singleton.mp hbs; exact hp.1
  | received _ ih => exact ih (hp _)
  | failedRead => exact nofun

/-- What the program writes are messages that follow a protocol: each moves its state by `next`, and
a success leaves it where `Q` holds. `spells` tells which bytes are a message. -/
def Prog.Follows {σ μ : Type} (next : σ → μ → Option σ) (spells : μ → Bytes → Prop) (Q : σ → α → Prop) :
    Prog ρ ι ε α → σ → Prop
  | .done (.ok a), s => Q s a
  | .done (.error _), _ => True
  | .write bs k, s => ∃ m t, spells m bs ∧ next s m = some t ∧ k.Follows next spells Q t
  | .read _ k, s => ∀ m, (k m).Follows next spells Q s

section Follows

variable {σ μ β : Type} {next : σ → μ → Option σ} {spells : μ → Bytes → Prop} {Q : σ → α → Prop}
  {R : σ → β → Prop} {s t : σ}

theorem Prog.Follows.bind : ∀ {p : Prog ρ ι ε α} {f : α → Prog ρ ι ε β} {s : σ},
    p.Follows next spells Q s → (∀ t a, Q t a → (f a).Follows next spells R t) →
      (p >>= f).Follows next spells R s
  | .done (.ok a), _, s, h, hf => hf s a h
  | .done (.error _), _, _, _, _ => trivial
  | .write _ _, _, _, ⟨m, t, hm, ht, h⟩, hf => ⟨m, t, hm, ht, h.bind hf⟩
  | .read _ _, _, _, h, hf => fun m => (h m).bind hf

theorem Prog.follows_send {m : μ} (hm : spells m bs) (ht : next s m = some t) :
    (Prog.send bs : Prog ρ ι ε Unit).Follows next spells (fun t' _ => t' = t) s :=
  ⟨m, t, hm, ht, rfl⟩

theorem Prog.follows_recv :
    (Prog.recv q : Prog ρ ι ε ι).Follows next spells (fun t _ => t = s) s :=
  fun _ => rfl

theorem Prog.follows_lift (r : Except ε α) :
    (Prog.lift r : Prog ρ ι ε α).Follows next spells (fun t a => t = s ∧ r = .ok a) s := by
  cases r with
  | ok a => exact ⟨rfl, rfl⟩
  | error e => trivial

/-- Whatever the peer does, what a run has written is a path of the protocol. -/
theorem Runs.follows {p : Prog ρ ι ε α} (h : Runs p es r) :
    ∀ {s : σ}, p.Follows next spells Q s → ∃ ms t, List.Forall₂ spells ms (es.filterMap Event.written) ∧
      exec next s ms = some t ∧ ∀ a, r = some (.ok a) → Q t a := by
  induction h with
  | stop | failedRead =>
    intro s _
    refine ⟨[], s, .nil, rfl, fun a ha => ?_⟩
    cases ha
  | done res =>
    intro s hp
    refine ⟨[], s, .nil, rfl, fun a ha => ?_⟩
    cases ha
    exact hp
  | sent _ ih =>
    intro s hp
    obtain ⟨m, u, hm, hu, hk⟩ := hp
    obtain ⟨ms, t, hms, ht, hQ⟩ := ih hk
    exact ⟨m :: ms, t, .cons hm hms, by rw [exec, hu, Option.bind_some, ht], hQ⟩
  | torn | failedWrite =>
    intro s hp
    obtain ⟨m, u, hm, hu, -⟩ := hp
    refine ⟨[m], u, .cons hm .nil, by rw [exec, hu]; rfl, fun a ha => ?_⟩
    cases ha
  | received _ ih => exact fun hp => ih (hp _)

end Follows

theorem Prog.feed_runs : ∀ (p : Prog ρ ι ε α) (ms : List ι), Runs p (p.feed ms).1 (p.feed ms).2.1
  | .done r, _ => .done r
  | .write _ k, ms => .sent (k.feed_runs ms)
  | .read _ _, [] => .stop _
  | .read _ k, m :: ms => .received ((k m).feed_runs ms)

/-- A program takes its messages in order. -/
theorem Prog.feed_suffix : ∀ (p : Prog ρ ι ε α) (ms : List ι), (p.feed ms).2.2 <:+ ms
  | .done _, ms => List.suffix_refl ms
  | .write _ k, ms => k.feed_suffix ms
  | .read _ _, [] => List.suffix_refl []
  | .read _ k, m :: ms => ((k m).feed_suffix ms).trans (List.suffix_cons m ms)

/-- A sequence that succeeds is a success of each part. -/
theorem Runs.bind_ok {β : Type} {b : β} : ∀ {p : Prog ρ ι ε α} {f : α → Prog ρ ι ε β}
    {es : List (Event ρ ι)}, Runs (p >>= f) es (some (.ok b)) → ∃ es₁ es₂ a, es = es₁ ++ es₂ ∧
      Runs p es₁ (some (.ok a)) ∧ Runs (f a) es₂ (some (.ok b))
  | .done (.ok a), _, es, h => ⟨[], es, a, rfl, .done _, h⟩
  | .done (.error _), _, _, h => by
    obtain ⟨-, h | h⟩ := Runs.done_inv h <;> cases h
  | .write bs k, f, es, h => by
    rcases Runs.write_inv h with ⟨hu, -⟩ | ⟨es', rfl, h'⟩
    · exact (hu b rfl).elim
    · obtain ⟨es₁, es₂, a, rfl, h₁, h₂⟩ := Runs.bind_ok h'
      exact ⟨.sent bs :: es₁, es₂, a, rfl, .sent h₁, h₂⟩
  | .read q k, f, es, h => by
    rcases Runs.read_inv h with ⟨hu, -⟩ | ⟨m, es', rfl, h'⟩
    · exact (hu b rfl).elim
    · obtain ⟨es₁, es₂, a, rfl, h₁, h₂⟩ := Runs.bind_ok h'
      exact ⟨.received q m :: es₁, es₂, a, rfl, .received h₁, h₂⟩

theorem Prog.runs_of_feed {p : Prog ρ ι ε α} {ms : List ι} (h : (p.feed ms).2.1 = r) :
    Runs p (p.feed ms).1 r := by
  subst h; exact p.feed_runs ms

end Runs

/-! ## Two parties -/

inductive Side where
  | left
  | right
  deriving DecidableEq, Repr

/-- Two programs and the bytes under way between them. -/
structure Net (ρ ι ε α β : Type) where
  left : Prog ρ ι ε α
  right : Prog ρ ι ε β
  toRight : Bytes
  toLeft : Bytes

section Net

variable {ρ ι ε α β : Type}

/-- What a read finds in the bytes that have come: nothing yet, or a message or an error and the
bytes it leaves. -/
abbrev Receive (ρ ι ε : Type) := ρ → Bytes → Option (Except ε ι × Bytes)

/-- Bytes that come later do not change what was found. -/
def Receive.Stable (rc : Receive ρ ι ε) : Prop :=
  ∀ q bs r rest more, rc q bs = some (r, rest) → rc q (bs ++ more) = some (r, rest ++ more)

/-- One step of a program: what it becomes, what it leaves of its inbox and what it sends. -/
def Prog.step (rc : Receive ρ ι ε) : Prog ρ ι ε α → Bytes → Option (Prog ρ ι ε α × Bytes × Bytes)
  | done _, _ => none
  | write [] k, inbox => some (k, inbox, [])
  | write (b :: bs) k, inbox => some (write bs k, inbox, [b])
  | read q k, inbox =>
    match rc q inbox with
    | none => none
    | some (.ok m, rest) => some (k m, rest, [])
    | some (.error e, rest) => some (done (.error e), rest, [])

def Net.step (rc : Receive ρ ι ε) (n : Net ρ ι ε α β) : Side → Option (Net ρ ι ε α β)
  | .left => (n.left.step rc n.toLeft).map fun (p, inbox, out) =>
      { n with left := p, toLeft := inbox, toRight := n.toRight ++ out }
  | .right => (n.right.step rc n.toRight).map fun (p, inbox, out) =>
      { n with right := p, toRight := inbox, toLeft := n.toLeft ++ out }

variable {rc : Receive ρ ι ε}

theorem Prog.step_append (hs : rc.Stable) {p p' : Prog ρ ι ε α} {inbox inbox' out : Bytes}
    (h : p.step rc inbox = some (p', inbox', out)) (more : Bytes) :
    p.step rc (inbox ++ more) = some (p', inbox' ++ more, out) := by
  cases p with
  | done r => cases h
  | write bs k => cases bs <;> cases h <;> rfl
  | read q k =>
    rw [Prog.step] at h ⊢
    cases hq : rc q inbox with
    | none => rw [hq] at h; cases h
    | some res =>
      obtain ⟨r, rest⟩ := res
      rw [hq] at h
      rw [hs q inbox r rest more hq]
      cases r <;> cases h <;> rfl

theorem Net.step_left {n n' : Net ρ ι ε α β} (h : n.step rc .left = some n') :
    ∃ p inbox out, n.left.step rc n.toLeft = some (p, inbox, out) ∧
      n' = ⟨p, n.right, n.toRight ++ out, inbox⟩ := by
  simp only [Net.step, Option.map_eq_some_iff, Prod.exists] at h
  obtain ⟨p, inbox, out, hp, rfl⟩ := h
  exact ⟨p, inbox, out, hp, rfl⟩

theorem Net.step_right {n n' : Net ρ ι ε α β} (h : n.step rc .right = some n') :
    ∃ p inbox out, n.right.step rc n.toRight = some (p, inbox, out) ∧
      n' = ⟨n.left, p, inbox, n.toLeft ++ out⟩ := by
  simp only [Net.step, Option.map_eq_some_iff, Prod.exists] at h
  obtain ⟨p, inbox, out, hp, rfl⟩ := h
  exact ⟨p, inbox, out, hp, rfl⟩

/-- A step of each party leads to the same state in either order. -/
theorem Net.step_comm (hs : rc.Stable) {n l r : Net ρ ι ε α β} (hl : n.step rc .left = some l)
    (hr : n.step rc .right = some r) :
    ∃ t, l.step rc .right = some t ∧ r.step rc .left = some t := by
  obtain ⟨p, inbox, out, hp, rfl⟩ := Net.step_left hl
  obtain ⟨p', inbox', out', hp', rfl⟩ := Net.step_right hr
  refine ⟨⟨p, p', inbox' ++ out, inbox ++ out'⟩, ?_, ?_⟩
  · simp only [Net.step, Prog.step_append hs hp' out, Option.map_some]
  · simp only [Net.step, Prog.step_append hs hp out', Option.map_some]

theorem Net.commutes (hs : rc.Stable) : Commutes (Net.step (α := α) (β := β) rc) := by
  intro n a b s₁ s₂ ha hb hne
  cases a <;> cases b
  · exact (hne rfl).elim
  · exact Net.step_comm hs ha hb
  · obtain ⟨t, h₁, h₂⟩ := Net.step_comm hs hb ha
    exact ⟨t, h₂, h₁⟩
  · exact (hne rfl).elim

/-- Every run of `n` is the beginning of one that ends with both results and nothing under way,
and no run is longer than that one. -/
def Net.Ends (rc : Receive ρ ι ε) (n : Net ρ ι ε α β) (a : Except ε α) (b : Except ε β) : Prop :=
  ∃ len, ∀ sched t, exec (Net.step rc) n sched = some t →
    ∃ rest, exec (Net.step rc) t rest = some ⟨.done a, .done b, [], []⟩ ∧
      sched.length + rest.length = len

/-- `n` can run to `t`. -/
def Net.Reaches (rc : Receive ρ ι ε) (n t : Net ρ ι ε α β) : Prop :=
  ∃ sched, exec (Net.step rc) n sched = some t

theorem Net.Reaches.refl (n : Net ρ ι ε α β) : Net.Reaches rc n n := ⟨[], rfl⟩

theorem Net.Reaches.trans {n t u : Net ρ ι ε α β} (h₁ : Net.Reaches rc n t)
    (h₂ : Net.Reaches rc t u) : Net.Reaches rc n u := by
  obtain ⟨as, h₁⟩ := h₁
  obtain ⟨bs, h₂⟩ := h₂
  exact ⟨as ++ bs, by rw [exec_append h₁, h₂]⟩

theorem Net.Reaches.step {n t u : Net ρ ι ε α β} {x : Side} (h₁ : n.step rc x = some t)
    (h₂ : Net.Reaches rc t u) : Net.Reaches rc n u := by
  obtain ⟨bs, h₂⟩ := h₂
  exact ⟨x :: bs, by rw [exec, h₁]; exact h₂⟩

/-- One run to the end decides all of them. -/
theorem Net.Reaches.ends (hs : rc.Stable) {n : Net ρ ι ε α β} {a : Except ε α} {b : Except ε β}
    (h : Net.Reaches rc n ⟨.done a, .done b, [], []⟩) : Net.Ends rc n a b := by
  obtain ⟨as, h⟩ := h
  refine ⟨as.length, fun sched t ht => ?_⟩
  exact exec_descent (Net.commutes hs) (fun x => by cases x <;> rfl) h ht

theorem Net.write_left (bs : Bytes) (k : Prog ρ ι ε α) (p : Prog ρ ι ε β) (toRight toLeft : Bytes) :
    Net.Reaches rc ⟨.write bs k, p, toRight, toLeft⟩ ⟨k, p, toRight ++ bs, toLeft⟩ := by
  induction bs generalizing toRight with
  | nil => exact .step (x := .left) rfl (.refl _)
  | cons b bs ih =>
    refine .step (x := .left) rfl ?_
    have h := ih (toRight ++ [b])
    rwa [List.append_assoc] at h

theorem Net.write_right (bs : Bytes) (k : Prog ρ ι ε β) (p : Prog ρ ι ε α)
    (toRight toLeft : Bytes) :
    Net.Reaches rc ⟨p, .write bs k, toRight, toLeft⟩ ⟨p, k, toRight, toLeft ++ bs⟩ := by
  induction bs generalizing toLeft with
  | nil => exact .step (x := .right) rfl (.refl _)
  | cons b bs ih =>
    refine .step (x := .right) rfl ?_
    have h := ih (toLeft ++ [b])
    rwa [List.append_assoc] at h

/-- The left party sends what the right one reads. -/
theorem Net.pass_right {bs : Bytes} {q : ρ} {m : ι} (k : Prog ρ ι ε α) (k' : ι → Prog ρ ι ε β)
    (h : rc q bs = some (.ok m, [])) :
    Net.Reaches rc ⟨.write bs k, .read q k', [], []⟩ ⟨k, k' m, [], []⟩ := by
  refine (Net.write_left bs k _ [] []).trans (.step (x := .right) ?_ (.refl _))
  simp only [Net.step, Prog.step, List.nil_append, h, Option.map_some]

/-- The right party sends what the left one reads. -/
theorem Net.pass_left {bs : Bytes} {q : ρ} {m : ι} (k : Prog ρ ι ε β) (k' : ι → Prog ρ ι ε α)
    (h : rc q bs = some (.ok m, [])) :
    Net.Reaches rc ⟨.read q k', .write bs k, [], []⟩ ⟨k' m, k, [], []⟩ := by
  refine (Net.write_right bs k _ [] []).trans (.step (x := .left) ?_ (.refl _))
  simp only [Net.step, Prog.step, List.nil_append, h, Option.map_some]

end Net

end RamaPg.Lib
