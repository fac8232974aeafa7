import RamaPg.Scram.Soundness

/-!
# Channel binding

Which exchanges the server accepts with and without binding data of its own. A GS2 header delimits
itself, so the `c=` attribute determines the header and the binding data behind it, and a
client-final message bound to one server's data is accepted by no server with other data.
-/

namespace RamaPg.Scram

open RamaPg.Lib RamaPg.Codec RamaPg.Startup RamaPg.Proxy

/-! ## GS2 headers -/

/-- A header and what follows it are determined by the bytes. -/
theorem IsGs2Header.append_inj {header header' rest rest' : Bytes} (h : IsGs2Header header)
    (h' : IsGs2Header header') (he : header ++ rest = header' ++ rest') :
    header = header' ∧ rest = rest' := by
  obtain ⟨flag, authzid, rfl, hf, ha⟩ := h
  obtain ⟨flag', authzid', rfl, hf', ha'⟩ := h'
  simp only [List.append_assoc, List.cons_append, List.nil_append] at he
  have h1 := splitOnce_append hf (authzid ++ 44 :: rest)
  rw [he, splitOnce_append hf'] at h1
  obtain ⟨rfl, h2⟩ := Prod.mk.inj (Option.some.inj h1)
  have h3 := splitOnce_append ha rest
  rw [← h2, splitOnce_append ha'] at h3
  obtain ⟨rfl, rfl⟩ := Prod.mk.inj (Option.some.inj h3)
  exact ⟨rfl, rfl⟩

/-- The header starts with the flag that was parsed from it. -/
theorem parseClientFirst_flag {data : Bytes} {first : ClientFirst}
    (h : parseClientFirst data = .ok first) :
    ∃ flag authzid, first.gs2Header = flag ++ 44 :: (authzid ++ [44]) ∧ 44 ∉ flag ∧
      parseCbindFlag flag = .ok (first.cbindFlag, first.cbindName) := by
  unfold parseClientFirst at h
  split at h
  · split at h
    · cases h
    · rename_i flag afterFlag hs
      obtain ⟨-, hf⟩ := splitOnce_eq_some hs
      split at h
      · cases h
      · rename_i cbindFlag cbindName hflag
        split at h
        · cases h
        · rename_i authzid bare hs'
          split at h
          · cases h
          · cases h
            exact ⟨flag, authzid, rfl, hf, hflag⟩
  · cases h

/-- Headers with different flags differ. -/
theorem gs2Header_flag {data data' : Bytes} {first first' : ClientFirst}
    (h : parseClientFirst data = .ok first) (h' : parseClientFirst data' = .ok first')
    (he : first.gs2Header = first'.gs2Header) : first.cbindFlag = first'.cbindFlag := by
  obtain ⟨flag, authzid, hg, hf, hp⟩ := parseClientFirst_flag h
  obtain ⟨flag', authzid', hg', hf', hp'⟩ := parseClientFirst_flag h'
  have h1 := splitOnce_append hf (authzid ++ [44])
  rw [← hg, he, hg', splitOnce_append hf'] at h1
  obtain ⟨rfl, -⟩ := Prod.mk.inj (Option.some.inj h1)
  rw [hp] at hp'
  exact (Prod.mk.inj (Except.ok.inj hp')).1

/-! ## What the checks require -/

theorem chosenPlus_ok {plusOffered plus : Bool} {mech : Bytes}
    (h : chosenPlus plusOffered mech = .ok plus) :
    (plus = false ∧ mech = mechanism) ∨ (plus = true ∧ mech = mechanismPlus ∧ plusOffered = true) := by
  unfold chosenPlus at h
  split at h
  · rename_i hm
    cases h
    exact .inl ⟨rfl, hm⟩
  · split at h
    · rename_i hm
      cases h
      exact .inr ⟨rfl, hm⟩
    · cases h

/-- The flags the server goes on with, and the `c=` it then expects. -/
theorem expectedChannelBinding_ok {cb : Option Bytes} {plus : Bool} {first : ClientFirst}
    {expected : Bytes} (h : expectedChannelBinding cb plus first = .ok expected) :
    (plus = true ∧ first.cbindFlag = .p ∧ first.cbindName = some cbType ∧
        expected = first.gs2Header ++ cb.getD []) ∨
      (plus = false ∧ (first.cbindFlag = .n ∨ first.cbindFlag = .y ∧ cb = none) ∧
        expected = first.gs2Header) := by
  unfold expectedChannelBinding at h
  split at h
  · rename_i hf
    split at h
    · rename_i hn
      cases h
      exact .inl ⟨rfl, hf, hn, rfl⟩
    · cases h
  · cases h
  · rename_i hf
    split at h
    · cases h
    · rename_i hcb
      split at h
      · cases h
      · rename_i hp
        cases h
        exact .inr ⟨by simpa using hp, .inr ⟨hf, by simpa using hcb⟩, rfl⟩
  · rename_i hf
    cases h
    exact .inr ⟨rfl, .inl hf, rfl⟩
  · cases h

theorem checkInitial_binding {cb : Option Bytes} {m : RawMessage} {first : ClientFirst}
    {expected : Bytes} (h : checkInitial cb m = .ok (first, expected)) :
    ∃ mech data plus, parseSaslInitial m.payload = .ok (mech, data) ∧
      parseClientFirst data = .ok first ∧ chosenPlus cb.isSome mech = .ok plus ∧
      expectedChannelBinding cb plus first = .ok expected := by
  obtain ⟨_, -, h⟩ := except_bind_ok h
  obtain ⟨⟨mech, data⟩, h₂, h⟩ := except_bind_ok h
  obtain ⟨plus, h₃, h⟩ := except_bind_ok h
  obtain ⟨first', h₄, h⟩ := except_bind_ok h
  obtain ⟨_, h₅, h⟩ := except_bind_ok h
  cases h
  exact ⟨mech, data, plus, orFail_ok h₂, orFail_ok h₄, h₃, h₅⟩

section

variable {b64 : Base64} {sha256 : Bytes → Key}

theorem checkFinal_binding {known : Bool} {secret : ScramSecret} {first : ClientFirst}
    {expected fullNonce challenge : Bytes} {m : RawMessage} {clientKey : Key} {message : Bytes}
    (h : checkFinal b64 sha256 known secret first expected fullNonce challenge m =
      .ok (clientKey, message)) :
    ∃ final, parseClientFinal m.payload = .ok final ∧
      b64.decode final.channelBinding = some expected := by
  obtain ⟨_, -, h⟩ := except_bind_ok h
  split at h
  · obtain ⟨final, h₂, h⟩ := except_bind_ok h
    split at h
    · obtain ⟨binding, h₃, h⟩ := except_bind_ok h
      split at h
      · rename_i he
        exact ⟨final, orFail_ok h₂, by rw [decode64_ok h₃, he]⟩
      · cases h
    · cases h
  · cases h

/-! ## Accepted bindings -/

/-- The client's two messages in a run. -/
def Received (es : List (Event Int RawMessage)) (initial response : RawMessage) : Prop :=
  ∃ mechanisms challenge rest, es = .sent mechanisms :: .received maxAuthMessageLen initial ::
    .sent challenge :: .received maxAuthMessageLen response :: rest

/-- The mechanism and the client-first message of the first, and the decoded `c=` of the second. -/
structure Bound (b64 : Base64) (initial response : RawMessage) (mech : Bytes) (first : ClientFirst)
    (binding : Bytes) : Prop where
  initial : ∃ data, parseSaslInitial initial.payload = .ok (mech, data) ∧
    parseClientFirst data = .ok first
  response : ∃ final, parseClientFinal response.payload = .ok final ∧
    b64.decode final.channelBinding = some binding

theorem Bound.header {initial response : RawMessage} {mech : Bytes} {first : ClientFirst}
    {binding : Bytes} (h : Bound b64 initial response mech first binding) :
    IsGs2Header first.gs2Header := by
  obtain ⟨data, -, hf⟩ := h.initial
  exact (parseClientFirst_ok hf).2.1

variable {auth : ScramSha256} {ctx : AuthContext} {draws : Draws} {es : List (Event Int RawMessage)}
  {a : ClientAuth}

/-- What a success says of the binding. -/
theorem authenticate_bound (h : Runs (auth.authenticate b64 sha256 ctx draws) es (some (.ok a))) :
    ∃ initial response mech first binding, Received es initial response ∧
      Bound b64 initial response mech first binding ∧
      ((mech = mechanismPlus ∧ auth.channelBinding ≠ none ∧ first.cbindFlag = .p ∧
          first.cbindName = some cbType ∧
          binding = first.gs2Header ++ auth.channelBinding.getD []) ∨
        (mech = mechanism ∧ (first.cbindFlag = .n ∨ first.cbindFlag = .y ∧ auth.channelBinding = none) ∧
          binding = first.gs2Header)) := by
  rw [ScramSha256.authenticate] at h
  cases hstore : auth.store (ScramSha256.lookup ctx) with
  | error e => rw [hstore] at h; exact absurd rfl ((runs_error h).1 a)
  | ok answer =>
    rw [hstore, Prog.lift_ok_bind] at h
    rcases exchange_cases h with hq | ⟨initial, first, expected, response, clientKey, message, es', k,
      hi, hf, rfl, -⟩
    · exact absurd rfl (hq.1 a)
    obtain ⟨mech, data, plus, hp, hcf, hplus, he⟩ := checkInitial_binding hi
    refine ⟨initial, response, mech, first, expected, ⟨_, _, _, rfl⟩,
      ⟨⟨data, hp, hcf⟩, checkFinal_binding hf⟩, ?_⟩
    rcases expectedChannelBinding_ok he with ⟨rfl, hflag, hname, rfl⟩ | ⟨rfl, hflag, rfl⟩
    · rcases chosenPlus_ok hplus with ⟨hn, -⟩ | ⟨-, hm, hs⟩
      · cases hn
      · exact .inl ⟨hm, by simpa [Option.isSome_iff_ne_none] using hs, hflag, hname, rfl⟩
    · rcases chosenPlus_ok hplus with ⟨-, hm⟩ | ⟨hn, -⟩
      · exact .inr ⟨hm, hflag, rfl⟩
      · cases hn

/-- Two servers accept one client-final message for the same header and data only. -/
theorem Bound.unique {initial initial' response : RawMessage} {mech mech' : Bytes}
    {first first' : ClientFirst} {binding binding' : Bytes}
    (h : Bound b64 initial response mech first binding)
    (h' : Bound b64 initial' response mech' first' binding') : binding = binding' := by
  obtain ⟨final, hp, hd⟩ := h.response
  obtain ⟨final', hp', hd'⟩ := h'.response
  rw [hp] at hp'
  cases hp'
  rw [hd] at hd'
  exact Option.some.inj hd'

/-- **Channel binding is neither stripped nor redirected.** A server with binding data accepts
`-PLUS` with its own data, or the plain mechanism with flag `n`; one without accepts no binding. What
one server accepts under `-PLUS`, a server with other data does not accept, whatever the
client-first message, the nonces and the verifier. -/
theorem channel_binding_holds
    (h : Runs (auth.authenticate b64 sha256 ctx draws) es (some (.ok a))) :
    ∃ initial response mech first binding, Received es initial response ∧
      Bound b64 initial response mech first binding ∧
      (∀ data, auth.channelBinding = some data →
        (mech = mechanismPlus ∧ first.cbindFlag = .p ∧ first.cbindName = some cbType ∧
            binding = first.gs2Header ++ data) ∨
          (mech = mechanism ∧ first.cbindFlag = .n ∧ binding = first.gs2Header)) ∧
      (auth.channelBinding = none → mech = mechanism ∧ first.cbindFlag ≠ .p ∧
        binding = first.gs2Header) ∧
      (mech = mechanismPlus → ∀ (auth' : ScramSha256) ctx' draws' es' initial' a' data',
        auth'.channelBinding = some data' → auth.channelBinding ≠ some data' →
        Received es' initial' response →
        ¬ Runs (auth'.authenticate b64 sha256 ctx' draws') es' (some (.ok a'))) := by
  obtain ⟨initial, response, mech, first, binding, hr, hb, hcase⟩ := authenticate_bound h
  refine ⟨initial, response, mech, first, binding, hr, hb, ?_, ?_, ?_⟩
  · intro data hd
    rcases hcase with ⟨hm, -, hf, hn, rfl⟩ | ⟨hm, hf | ⟨-, hnone⟩, hbind⟩
    · exact .inl ⟨hm, hf, hn, by rw [hd]; rfl⟩
    · exact .inr ⟨hm, hf, hbind⟩
    · rw [hd] at hnone; cases hnone
  · intro hnone
    rcases hcase with ⟨-, hne, -⟩ | ⟨hm, hf | ⟨hf, -⟩, hbind⟩
    · exact absurd hnone hne
    · exact ⟨hm, by rw [hf]; nofun, hbind⟩
    · exact ⟨hm, by rw [hf]; nofun, hbind⟩
  · intro hplus auth' ctx' draws' es' initial' a' data' hd' hne hr' hrun
    obtain ⟨initial₂, response₂, mech', first', binding', hr₂, hb', hcase'⟩ := authenticate_bound hrun
    obtain rfl : response = response₂ := by
      obtain ⟨_, _, _, rfl⟩ := hr'
      obtain ⟨_, _, _, he⟩ := hr₂
      simp only [List.cons.injEq, Event.received.injEq] at he
      exact he.2.2.2.1.2
    have hsame := hb.unique hb'
    rcases hcase with ⟨-, hsome, hf, -, rfl⟩ | ⟨hm, -⟩
    · obtain ⟨data, hd⟩ := Option.ne_none_iff_exists'.mp hsome
      rcases hcase' with ⟨-, -, -, -, rfl⟩ | ⟨-, hf', rfl⟩
      · obtain ⟨-, he⟩ := hb.header.append_inj hb'.header hsame
        rw [hd, hd'] at he
        exact hne (by rw [hd]; exact congrArg some he)
      · obtain ⟨he, -⟩ := hb.header.append_inj hb'.header
          (hsame.trans (List.append_nil first'.gs2Header).symm)
        obtain ⟨_, -, hcf⟩ := hb.initial
        obtain ⟨_, -, hcf'⟩ := hb'.initial
        have hflag := gs2Header_flag hcf hcf' he
        rw [hf] at hflag
        rcases hf' with hn | ⟨hy, -⟩
        · rw [hn] at hflag; cases hflag
        · rw [hy] at hflag; cases hflag
    · rw [hm] at hplus
      exact absurd hplus (by decide)

end

/-! ## A bound exchange -/

namespace BoundSample

def data : Bytes := ascii "hash of the certificate"

def clientKey : Key := Vector.replicate 32 7

def secret : ScramSecret := ⟨4096, ascii "salt", Sha256.hash clientKey.toList, Vector.replicate 32 9⟩

def server : ScramSha256 := ⟨fun _ => .ok (some secret), some data⟩

def gs2Header : Bytes := ascii "p=tls-server-end-point,,"

def bare : Bytes := ascii "n=,r=abc"

def nonce : Bytes := ascii "abc" ++ randomNonce Base64.standard Sample.draws.nonce

def withoutProof : Bytes :=
  ascii "c=" ++ Base64.standard.encode (gs2Header ++ data) ++ ascii ",r=" ++ nonce

def proof : Key :=
  clientProof clientKey (hmacSha256 Sha256.hash secret.storedKey.toList
    (authMessage bare (serverFirst Base64.standard nonce secret) withoutProof))

def messages : List RawMessage :=
  [RawMessage.build Tag.passwordMessage
    (mechanismPlus ++ 0 :: (i32ToBe (gs2Header ++ bare).length ++ (gs2Header ++ bare))),
   RawMessage.build Tag.passwordMessage
    (withoutProof ++ ascii ",p=" ++ Base64.standard.encode proof.toList)]

def run : List (Event Int RawMessage) × Option (Except BoxError ClientAuth) × List RawMessage :=
  (server.authenticate Base64.standard Sha256.hash Sample.context Sample.draws).feed messages

theorem run_ok : run.2.1 =
    some (.ok (.terminated (.scram ⟨clientKey, secret.storedKey, secret.serverKey⟩))) := by
  decide +kernel

end BoundSample

theorem channel_binding_holds_for_bound :
    ∃ initial response mech first binding, Received BoundSample.run.1 initial response ∧
      Bound Base64.standard initial response mech first binding ∧
      ((mech = mechanismPlus ∧ first.cbindFlag = .p ∧ first.cbindName = some cbType ∧
          binding = first.gs2Header ++ BoundSample.data) ∨
        (mech = mechanism ∧ first.cbindFlag = .n ∧ binding = first.gs2Header)) := by
  obtain ⟨initial, response, mech, first, binding, hr, hb, hd, -⟩ :=
    channel_binding_holds (Prog.runs_of_feed BoundSample.run_ok)
  exact ⟨initial, response, mech, first, binding, hr, hb, hd _ rfl⟩

end RamaPg.Scram
