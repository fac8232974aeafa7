import RamaPg.Lib.Machine
import RamaPg.Protocol.Message
import RamaPg.Protocol.RoundTrip
import Mathlib.Logic.Function.Basic

/-!
# The cancel registry

The model of `RegistryCancellation`: the shared map from keys to slots, the slots, and the handles
the forwarders hold. `LiveSessions` is what it is for, a map from the live sessions to their keys
and current targets; the registry refines it as long as no key is minted for two live sessions.
-/

namespace RamaPg.Cancel

open RamaPg.Lib RamaPg.Codec RamaPg.Startup

abbrev Session := Nat

/-- The address of a slot, shared by the map and a handle. -/
abbrev CancelSlot := Nat

/-- The handle of a session: its slot and the key its drop removes. -/
structure CancelHandle where
  slot : CancelSlot
  registered : CancelKey

variable {τ : Type}

/-- The registry with the slots and the handles that are out. Sessions and slots are numbered in the
order in which they begin. -/
structure RegistryCancellation (τ : Type) where
  sessions : CancelKey → Option CancelSlot
  slots : CancelSlot → Option τ
  handles : Session → Option CancelHandle
  next : Nat

/-- The length of a key for a client on this version. -/
def keyLen (version : ProtocolVersion) : Nat := if 2 ≤ version.minor then 32 else 8

/-- The key of a random draw. -/
def mint (version : ProtocolVersion) (draw : Vector UInt8 (keyLen version)) : CancelKey :=
  ⟨draw.toList⟩

/-- What is done to one registry, by any of its sessions or by a cancel request. -/
inductive Op (τ : Type) where
  | begin (version : ProtocolVersion) (draw : Vector UInt8 (keyLen version))
  | set (session : Session) (target : τ)
  | clear (session : Session)
  | drop (session : Session)
  | cancel (key : CancelKey)

/-- The session whose handle is used. -/
def Op.session : Op τ → Option Session
  | .set s _ | .clear s | .drop s => some s
  | .begin _ _ | .cancel _ => none

namespace RegistryCancellation

def new : RegistryCancellation τ := ⟨fun _ => none, fun _ => none, fun _ => none, 0⟩

/-- `RegistryCancellation::begin`. -/
def begin (key : CancelKey) (r : RegistryCancellation τ) : RegistryCancellation τ where
  sessions := Function.update r.sessions key (some r.next)
  slots := Function.update r.slots r.next none
  handles := Function.update r.handles r.next (some ⟨r.next, key⟩)
  next := r.next + 1

/-- `CancelHandle::set` and `clear`. -/
def write (target : Option τ) (h : CancelHandle) (r : RegistryCancellation τ) :
    RegistryCancellation τ :=
  { r with slots := Function.update r.slots h.slot target }

/-- Dropping a handle removes its key. -/
def drop (s : Session) (h : CancelHandle) (r : RegistryCancellation τ) : RegistryCancellation τ :=
  { r with sessions := Function.update r.sessions h.registered none
           handles := Function.update r.handles s none }

/-- The target `RegistryCancellation::cancel` invokes. -/
def cancel (r : RegistryCancellation τ) (key : CancelKey) : Option τ := (r.sessions key).bind r.slots

/-- One operation; a handle that is not out cannot be used. -/
def step (r : RegistryCancellation τ) : Op τ → Option (RegistryCancellation τ)
  | .begin version draw => some (r.begin (mint version draw))
  | .set s target => (r.handles s).map fun h => r.write (some target) h
  | .clear s => (r.handles s).map fun h => r.write none h
  | .drop s => (r.handles s).map fun h => r.drop s h
  | .cancel _ => some r

/-- A key that is minted is none of a live session. -/
def Distinct (r : RegistryCancellation τ) : Op τ → Prop
  | .begin version draw => ∀ s h, r.handles s = some h → h.registered ≠ mint version draw
  | _ => True

end RegistryCancellation

/-! ## The abstract map -/

/-- The live sessions, with their keys and their current targets. -/
structure LiveSessions (τ : Type) where
  live : Session → Option (CancelKey × Option τ)
  next : Nat

namespace LiveSessions

def empty : LiveSessions τ := ⟨fun _ => none, 0⟩

def put (s : Session) (e : Option (CancelKey × Option τ)) (l : LiveSessions τ) : LiveSessions τ :=
  { l with live := Function.update l.live s e }

def step (l : LiveSessions τ) : Op τ → Option (LiveSessions τ)
  | .begin version draw =>
    some { l.put l.next (some (mint version draw, none)) with next := l.next + 1 }
  | .set s target => (l.live s).map fun e => l.put s (some (e.1, some target))
  | .clear s => (l.live s).map fun e => l.put s (some (e.1, none))
  | .drop s => (l.live s).map fun _ => l.put s none
  | .cancel _ => some l

end LiveSessions

/-- How a registry stands for a map of live sessions. -/
structure Refines (r : RegistryCancellation τ) (l : LiveSessions τ) : Prop where
  next : r.next = l.next
  handles : ∀ s, r.handles s = (l.live s).map fun e => ⟨s, e.1⟩
  slots : ∀ s e, l.live s = some e → r.slots s = e.2
  sessions : ∀ k s, r.sessions k = some s ↔ ∃ t, l.live s = some (k, t)
  bound : ∀ s e, l.live s = some e → s < l.next

variable {r r' : RegistryCancellation τ} {l l' : LiveSessions τ} {op : Op τ} {s : Session}
  {k : CancelKey} {t : Option τ}

theorem refines_new : Refines (.new : RegistryCancellation τ) .empty where
  next := rfl
  handles := fun _ => rfl
  slots := nofun
  sessions := fun _ _ => ⟨nofun, nofun⟩
  bound := nofun

/-- **What a cancel invokes** is the current target of the session that owns the key. -/
theorem Refines.cancel (h : Refines r l) (hs : l.live s = some (k, t)) : r.cancel k = t := by
  rw [RegistryCancellation.cancel, (h.sessions k s).mpr ⟨t, hs⟩]
  exact h.slots s _ hs

theorem Refines.cancel_none (h : Refines r l) (hs : ∀ s t, l.live s ≠ some (k, t)) :
    r.cancel k = none := by
  have hk : r.sessions k = none := by
    cases he : r.sessions k with
    | none => rfl
    | some s =>
      obtain ⟨t, ht⟩ := (h.sessions k s).mp he
      exact absurd ht (hs s t)
  rw [RegistryCancellation.cancel, hk]
  rfl

theorem Refines.begin (h : Refines r l) {key : CancelKey}
    (hd : ∀ s h, r.handles s = some h → h.registered ≠ key) :
    Refines (r.begin key) { l.put l.next (some (key, none)) with next := l.next + 1 } where
  next := by rw [RegistryCancellation.begin, h.next]
  handles := by
    intro s
    show Function.update r.handles r.next _ s = (Function.update l.live l.next _ s).map _
    rw [h.next]
    by_cases hs : s = l.next
    · subst hs
      rw [Function.update_self, Function.update_self]
      rfl
    · rw [Function.update_of_ne hs, Function.update_of_ne hs, h.handles]
  slots := by
    intro s e hs
    show Function.update r.slots r.next none s = e.2
    replace hs : Function.update l.live l.next _ s = some e := hs
    rw [h.next]
    by_cases he : s = l.next
    · subst he
      rw [Function.update_self] at hs
      cases hs
      rw [Function.update_self]
    · rw [Function.update_of_ne he] at hs
      rw [Function.update_of_ne he]
      exact h.slots s e hs
  sessions := by
    intro k s
    show Function.update r.sessions key (some r.next) k = some s ↔
      ∃ t, Function.update l.live l.next (some (key, none)) s = some (k, t)
    rw [h.next]
    have hfresh : ∀ t, l.live s ≠ some (key, t) := fun t hs =>
      hd s ⟨s, key⟩ (by rw [h.handles, hs]; rfl) rfl
    have hnext : ∀ e, l.live l.next ≠ some e := fun e hs => absurd (h.bound _ _ hs) (Nat.lt_irrefl _)
    by_cases hk : k = key <;> by_cases hs : s = l.next
    · subst hk hs
      rw [Function.update_self, Function.update_self]
      simp
    · subst hk
      rw [Function.update_self, Function.update_of_ne hs]
      exact ⟨fun he => absurd (Option.some.inj he).symm hs, fun ⟨t, ht⟩ => absurd ht (hfresh t)⟩
    · subst hs
      rw [Function.update_of_ne hk, Function.update_self, h.sessions]
      refine ⟨fun ⟨t, ht⟩ => absurd ht (hnext _), fun ⟨t, ht⟩ => ?_⟩
      cases ht
      exact absurd rfl hk
    · rw [Function.update_of_ne hk, Function.update_of_ne hs, h.sessions]
  bound := by
    intro s e hs
    replace hs : Function.update l.live l.next _ s = some e := hs
    by_cases he : s = l.next
    · exact he ▸ Nat.lt_succ_self _
    · rw [Function.update_of_ne he] at hs
      exact Nat.lt_succ_of_lt (h.bound s e hs)

theorem Refines.write (h : Refines r l) (hs : l.live s = some (k, t)) (target : Option τ) :
    Refines (r.write target ⟨s, k⟩) (l.put s (some (k, target))) where
  next := h.next
  handles := by
    intro s'
    show r.handles s' = (Function.update l.live s _ s').map _
    by_cases he : s' = s
    · subst he
      rw [Function.update_self, h.handles, hs]
      rfl
    · rw [Function.update_of_ne he, h.handles]
  slots := by
    intro s' e hs'
    show Function.update r.slots s target s' = e.2
    replace hs' : Function.update l.live s _ s' = some e := hs'
    by_cases he : s' = s
    · subst he
      rw [Function.update_self] at hs' ⊢
      cases hs'
      rfl
    · rw [Function.update_of_ne he] at hs' ⊢
      exact h.slots s' e hs'
  sessions := by
    intro k' s'
    show r.sessions k' = some s' ↔ ∃ t, Function.update l.live s _ s' = some (k', t)
    rw [h.sessions]
    by_cases he : s' = s
    · subst he
      rw [Function.update_self, hs]
      simp
    · rw [Function.update_of_ne he]
  bound := by
    intro s' e hs'
    replace hs' : Function.update l.live s _ s' = some e := hs'
    by_cases he : s' = s
    · subst he
      exact h.bound s' _ hs
    · rw [Function.update_of_ne he] at hs'
      exact h.bound s' e hs'

theorem Refines.drop (h : Refines r l) (hs : l.live s = some (k, t)) :
    Refines (r.drop s ⟨s, k⟩) (l.put s none) where
  next := h.next
  handles := by
    intro s'
    show Function.update r.handles s none s' = (Function.update l.live s none s').map _
    by_cases he : s' = s
    · subst he
      rw [Function.update_self, Function.update_self]
      rfl
    · rw [Function.update_of_ne he, Function.update_of_ne he, h.handles]
  slots := by
    intro s' e hs'
    replace hs' : Function.update l.live s none s' = some e := hs'
    by_cases he : s' = s
    · subst he
      rw [Function.update_self] at hs'
      cases hs'
    · rw [Function.update_of_ne he] at hs'
      exact h.slots s' e hs'
  sessions := by
    intro k' s'
    show Function.update r.sessions k none k' = some s' ↔
      ∃ t, Function.update l.live s none s' = some (k', t)
    have hown : ∀ {s'}, r.sessions k = some s' → s' = s := by
      intro s' h'
      have hk := (h.sessions k s).mpr ⟨t, hs⟩
      rw [h'] at hk
      exact Option.some.inj hk
    by_cases hk : k' = k <;> by_cases he : s' = s
    · subst hk he
      rw [Function.update_self, Function.update_self]
      simp
    · subst hk
      rw [Function.update_self, Function.update_of_ne he, ← h.sessions]
      exact ⟨nofun, fun h' => absurd (hown h') he⟩
    · subst he
      rw [Function.update_of_ne hk, Function.update_self, h.sessions, hs]
      refine ⟨fun ⟨t, ht⟩ => ?_, fun ⟨t, ht⟩ => nomatch ht⟩
      cases ht
      exact absurd rfl hk
    · rw [Function.update_of_ne hk, Function.update_of_ne he, h.sessions]
  bound := by
    intro s' e hs'
    replace hs' : Function.update l.live s none s' = some e := hs'
    by_cases he : s' = s
    · subst he
      rw [Function.update_self] at hs'
      cases hs'
    · rw [Function.update_of_ne he] at hs'
      exact h.bound s' e hs'

/-- **One operation** on the registry is that operation on the map. -/
theorem Refines.step (h : Refines r l) (hd : r.Distinct op) (hr : r.step op = some r') :
    ∃ l', l.step op = some l' ∧ Refines r' l' := by
  have hlive : ∀ {s h'}, r.handles s = some h' → ∃ k t, l.live s = some (k, t) ∧ h' = ⟨s, k⟩ := by
    intro s h' hh
    rw [h.handles, Option.map_eq_some_iff] at hh
    obtain ⟨⟨k, t⟩, hs, rfl⟩ := hh
    exact ⟨k, t, hs, rfl⟩
  cases op with
  | begin version draw =>
    cases hr
    exact ⟨_, rfl, h.begin hd⟩
  | set s target =>
    simp only [RegistryCancellation.step, Option.map_eq_some_iff] at hr
    obtain ⟨h', hh, rfl⟩ := hr
    obtain ⟨k, t, hs, rfl⟩ := hlive hh
    exact ⟨_, by simp only [LiveSessions.step, hs, Option.map_some], h.write hs _⟩
  | clear s =>
    simp only [RegistryCancellation.step, Option.map_eq_some_iff] at hr
    obtain ⟨h', hh, rfl⟩ := hr
    obtain ⟨k, t, hs, rfl⟩ := hlive hh
    exact ⟨_, by simp only [LiveSessions.step, hs, Option.map_some], h.write hs _⟩
  | drop s =>
    simp only [RegistryCancellation.step, Option.map_eq_some_iff] at hr
    obtain ⟨h', hh, rfl⟩ := hr
    obtain ⟨k, t, hs, rfl⟩ := hlive hh
    exact ⟨_, by simp only [LiveSessions.step, hs, Option.map_some], h.drop hs⟩
  | cancel key =>
    cases hr
    exact ⟨l, rfl, h⟩

/-- **A run** of the registry is a run of the map. -/
theorem Refines.run {ops : List (Op τ)} (h : Refines r l)
    (hd : Along RegistryCancellation.step RegistryCancellation.Distinct r ops)
    (hr : exec RegistryCancellation.step r ops = some r') :
    ∃ l', exec LiveSessions.step l ops = some l' ∧ Refines r' l' := by
  induction ops generalizing r l with
  | nil => cases hr; exact ⟨l, rfl, h⟩
  | cons op ops ih =>
    obtain ⟨r₁, h₁, hr⟩ := exec_cons hr
    obtain ⟨l₁, hl, hR⟩ := h.step hd.1 h₁
    obtain ⟨l', hl', hR'⟩ := ih hR (hd.2 r₁ h₁) hr
    exact ⟨l', by rw [exec, hl]; exact hl', hR'⟩

/-- What is not done by a session leaves it as it was. -/
theorem LiveSessions.step_other {e : CancelKey × Option τ} (hb : ∀ s e, l.live s = some e → s < l.next)
    (hs : l.live s = some e) (ho : op.session ≠ some s) (hl : l.step op = some l') :
    l'.live s = some e := by
  have hput : ∀ {s' e'}, s' ≠ s → (l.put s' e').live s = some e := by
    intro s' e' hne
    show Function.update l.live s' e' s = some e
    rw [Function.update_of_ne (Ne.symm hne), hs]
  cases op with
  | begin version draw =>
    cases hl
    exact hput (Nat.ne_of_gt (hb s e hs))
  | set s' target =>
    simp only [LiveSessions.step, Option.map_eq_some_iff] at hl
    obtain ⟨e', -, rfl⟩ := hl
    exact hput fun h => ho (h ▸ rfl)
  | clear s' =>
    simp only [LiveSessions.step, Option.map_eq_some_iff] at hl
    obtain ⟨e', -, rfl⟩ := hl
    exact hput fun h => ho (h ▸ rfl)
  | drop s' =>
    simp only [LiveSessions.step, Option.map_eq_some_iff] at hl
    obtain ⟨e', -, rfl⟩ := hl
    exact hput fun h => ho (h ▸ rfl)
  | cancel key => cases hl; exact hs

theorem Refines.run_other {ops : List (Op τ)} {e : CancelKey × Option τ} (h : Refines r l)
    (hd : Along RegistryCancellation.step RegistryCancellation.Distinct r ops)
    (hr : exec RegistryCancellation.step r ops = some r') (hs : l.live s = some e)
    (ho : ∀ op ∈ ops, op.session ≠ some s) : ∃ l', Refines r' l' ∧ l'.live s = some e := by
  induction ops generalizing r l with
  | nil => cases hr; exact ⟨l, h, hs⟩
  | cons op ops ih =>
    obtain ⟨r₁, h₁, hr⟩ := exec_cons hr
    obtain ⟨l₁, hl, hR⟩ := h.step hd.1 h₁
    exact ih hR (hd.2 r₁ h₁) hr (LiveSessions.step_other h.bound hs (ho op (by simp)) hl)
      fun op hop => ho op (by simp [hop])

/-! ## The key on the wire -/

theorem mint_length (version : ProtocolVersion) (draw : Vector UInt8 (keyLen version)) :
    8 ≤ (mint version draw).bytes.length ∧ (mint version draw).bytes.length ≤ 32 := by
  have hl : (mint version draw).bytes.length = keyLen version := draw.size_toArray
  rw [hl, keyLen]
  split <;> omega

/-- A key the client read and sent back in a cancel request. -/
theorem echo (version : ProtocolVersion) (draw : Vector UInt8 (keyLen version)) (rest : Bytes) :
    ∃ m, received maxMessageLen (Message.backendKeyDataRaw (mint version draw).bytes) =
        some (.ok m, []) ∧ m.tag = Tag.backendKeyData ∧
      readStartupRequest (cancelRequestFrame m.payload ++ rest) =
        (.ok (.cancel (mint version draw)), rest) := by
  obtain ⟨h8, h32⟩ := mint_length version draw
  refine ⟨_, received_frame ?_ (by decide), RawMessage.tag_build _ _, ?_⟩
  · rw [maxMessageLen]; omega
  · rw [RawMessage.payload_build, readStartupRequest,
      readStartupFrame_cancelRequestFrame (by omega) rest]
    simp only [parse_cancelRequestFrame h8 (by omega)]

/-! ## The registry as a whole -/

/-- **The registry refines a map from live sessions to their current targets.** -/
theorem registry_refines_live_sessions {ops : List (Op τ)} {r : RegistryCancellation τ}
    (hr : exec RegistryCancellation.step .new ops = some r)
    (hd : Along RegistryCancellation.step RegistryCancellation.Distinct .new ops) :
    ∃ l, exec LiveSessions.step .empty ops = some l ∧
      (∀ k, r.sessions k ≠ none ↔ ∃ s t, l.live s = some (k, t)) ∧
      (∀ s k t, l.live s = some (k, t) → r.cancel k = t) ∧
      (∀ k, (∀ s t, l.live s ≠ some (k, t)) → r.cancel k = none) ∧
      (∀ more r', exec RegistryCancellation.step r more = some r' →
        Along RegistryCancellation.step RegistryCancellation.Distinct r more →
        ∀ s k t, l.live s = some (k, t) → (∀ op ∈ more, op.session ≠ some s) →
        r'.cancel k = r.cancel k) ∧
      (∀ version draw rest,
        ∃ m, received maxMessageLen (Message.backendKeyDataRaw (mint version draw).bytes) =
            some (.ok m, []) ∧ m.tag = Tag.backendKeyData ∧
          readStartupRequest (cancelRequestFrame m.payload ++ rest) =
            (.ok (.cancel (mint version draw)), rest)) := by
  obtain ⟨l, hl, h⟩ := refines_new.run hd hr
  refine ⟨l, hl, fun k => ?_, fun s k t => h.cancel, fun k => h.cancel_none, ?_, echo⟩
  · rw [Option.ne_none_iff_exists']
    exact exists_congr fun s => h.sessions k s
  · intro more r' hr' hd' s k t hs ho
    obtain ⟨l', h', hs'⟩ := h.run_other hd' hr' hs ho
    rw [h.cancel hs, h'.cancel hs']

/-- Two sessions, the first with a target. -/
def twoSessions : List (Op Unit) :=
  [.begin .v3_0 (Vector.replicate 8 1), .set 0 (), .begin .v3_2 (Vector.replicate 32 2)]

def twoRegistry : RegistryCancellation Unit :=
  ((RegistryCancellation.new.begin ⟨List.replicate 8 1⟩).write (some ())
    ⟨0, ⟨List.replicate 8 1⟩⟩).begin ⟨List.replicate 32 2⟩

theorem registry_refines_live_sessions_for_two :
    ∃ l, exec LiveSessions.step .empty twoSessions = some l ∧
      ∀ s k t, l.live s = some (k, t) → twoRegistry.cancel k = t := by
  have hd : Along RegistryCancellation.step RegistryCancellation.Distinct .new twoSessions := by
    refine ⟨nofun, fun r₁ h₁ => ⟨trivial, fun r₂ h₂ => ⟨fun s h hs => ?_, fun _ _ => trivial⟩⟩⟩
    cases h₁
    cases h₂
    replace hs : Function.update (fun _ => none) 0
      (some (⟨0, ⟨List.replicate 8 1⟩⟩ : CancelHandle)) s = some h := hs
    by_cases he : s = 0
    · subst he
      rw [Function.update_self] at hs
      cases hs
      decide
    · rw [Function.update_of_ne he] at hs
      cases hs
  obtain ⟨l, hl, -, hc, -⟩ := registry_refines_live_sessions (r := twoRegistry) rfl hd
  exact ⟨l, hl, hc⟩

end RamaPg.Cancel
