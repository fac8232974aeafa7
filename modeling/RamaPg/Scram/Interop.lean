import RamaPg.Scram.Agreement

/-!
# The SCRAM client and server together

The client's program against the server's over two byte streams. Each message one side writes is
the one the other side waits for, so one run goes through to both results; since the steps of the
two parties commute, every run does.
-/

namespace RamaPg.Scram

open RamaPg.Lib RamaPg.Codec RamaPg.Proxy

section

variable (b64 : Base64) (sha256 : Bytes → Key)

/-! ## Message sizes -/

theorem received_sasl (cb : Option Bytes) :
    received maxMessageLen (Message.authenticationSasl (offered cb)) =
      some (.ok (RawMessage.build Tag.authentication
        (i32ToBe Auth.sasl ++ (offered cb).flatMap (· ++ [0]) ++ [0])), []) := by
  refine received_frame ?_ (by decide)
  have hm : mechanism.length = 13 := by decide
  have hp : mechanismPlus.length = 18 := by decide
  cases cb <;> simp [offered, hm, hp, maxMessageLen]

theorem received_initial (draw : Vector UInt8 18) :
    received maxAuthMessageLen (saslInitialResponse mechanism
        (ascii "n,," ++ clientFirstBare (randomNonce b64 draw))) =
      some (.ok (RawMessage.build Tag.passwordMessage (mechanism ++
        0 :: (i32ToBe (ascii "n,," ++ clientFirstBare (randomNonce b64 draw)).length ++
          (ascii "n,," ++ clientFirstBare (randomNonce b64 draw))))), []) := by
  refine received_frame ?_ (by decide)
  have hn := length_randomNonce b64 draw
  have hm : mechanism.length = 13 := by decide
  have h₁ : (ascii "n,,").length = 3 := by decide
  have h₂ : (ascii "n=,r=").length = 5 := by decide
  simp only [List.length_append, List.length_cons, length_i32ToBe, clientFirstBare, hn, hm, h₁, h₂]
  decide

theorem received_clientFinal (keys : ScramKeys) {nonce : Bytes} (hn : nonce.length = 48)
    (message : Bytes) :
    received maxAuthMessageLen (saslResponse (clientFinal b64 sha256 keys nonce message)) =
      some (.ok (RawMessage.build Tag.passwordMessage
        (clientFinal b64 sha256 keys nonce message)), []) := by
  refine received_frame ?_ (by decide)
  have h₁ : (ascii "c=").length = 2 := by decide
  have h₂ : (ascii ",r=").length = 3 := by decide
  have h₃ : (ascii ",p=").length = 3 := by decide
  have h₄ : (ascii "n,,").length = 3 := by decide
  simp only [clientFinal, clientFinalWithoutProof, List.length_append, b64.length_encode, hn, h₁,
    h₂, h₃, h₄, Vector.length_toList]
  decide

theorem received_serverFinal (signature : Key) :
    received maxMessageLen (Message.authenticationSaslFinal
        (ascii "v=" ++ b64.encode signature.toList)) =
      some (.ok (RawMessage.build Tag.authentication
        (i32ToBe Auth.saslFinal ++ (ascii "v=" ++ b64.encode signature.toList))), []) := by
  refine received_frame ?_ (by decide)
  have h₁ : (ascii "v=").length = 2 := by decide
  simp only [List.length_append, length_i32ToBe, b64.length_encode, h₁, Vector.length_toList]
  decide

/-- A server-first message fits the frames the client reads. -/
def Fits (text : Bytes) : Prop := ((i32ToBe Auth.saslContinue ++ text).length + 4 : Int) ≤ maxMessageLen

theorem received_serverFirst {text : Bytes} (h : Fits text) :
    received maxMessageLen (Message.authenticationSaslContinue text) =
      some (.ok (RawMessage.build Tag.authentication (i32ToBe Auth.saslContinue ++ text)), []) :=
  received_frame (by simpa [Fits] using h) (by decide)

/-! ## The exchange -/

variable {sha256}

/-- A client that derives the keys of the verifier, against a server that holds it. -/
theorem exchange_ends (auth : ScramSha256) {secret : ScramSecret} {keys : ScramKeys}
    {derive : Bytes → UInt32 → ScramKeys} (hderive : derive secret.salt secret.iterations = keys)
    (hstored : keys.storedKey = secret.storedKey) (hserver : keys.serverKey = secret.serverKey)
    (hhash : sha256 keys.clientKey.toList = keys.storedKey) (client server : Vector UInt8 18)
    (hfit : Fits (serverFirst b64 (randomNonce b64 client ++ randomNonce b64 server) secret)) :
    Net.Ends received
      ⟨ioRead >>= fun sasl => runScram b64 sha256 sasl derive client,
        auth.exchange b64 sha256 true secret (randomNonce b64 server), [], []⟩
      (.ok ()) (.ok (.terminated (.scram keys))) := by
  refine Net.Reaches.ends received_stable ?_
  have hc := plain_randomNonce b64 client
  have hs := plain_randomNonce b64 server
  have hlen : (randomNonce b64 client ++ randomNonce b64 server).length = 48 := by
    rw [List.length_append, length_randomNonce, length_randomNonce]
  have hfinal := checkFinal_client b64 sha256 ⟨ascii "n,,", clientFirstBare (randomNonce b64 client),
    randomNonce b64 client, .n, none⟩
    (serverFirst b64 (randomNonce b64 client ++ randomNonce b64 server) secret) hstored hhash
    (hc.append hs)
  -- One message after the other, each read by the side that waits for it.
  simp only [runScram, ScramSha256.exchange, ioWrite, ioRead, ioReadCapped, Prog.send_bind,
    Prog.recv_bind, Prog.pure_def]
  refine (Net.pass_left _ _ (received_sasl auth.channelBinding)).trans ?_
  simp only [expectAuth_sasl, Prog.lift_ok_bind, mechanism_mem_sasl, ↓reduceIte]
  refine (Net.pass_right _ _ (received_initial b64 client)).trans ?_
  simp only [checkInitial_client auth.channelBinding hc, checked_ok_bind]
  refine (Net.pass_left _ _ (received_serverFirst hfit)).trans ?_
  simp only [parseChallenge_server b64 hc hs secret, Prog.lift_ok_bind, hderive]
  refine (Net.pass_right _ _ (received_clientFinal b64 sha256 keys hlen _)).trans ?_
  simp only [hfinal, checked_ok_bind]
  refine (Net.pass_left _ _ (received_serverFinal b64 _)).trans ?_
  rw [checkServerFinal_server b64 sha256 hserver, ← hstored, ← hserver]
  exact .refl _

theorem authenticate_known {auth : ScramSha256} {ctx : AuthContext} {secret : ScramSecret}
    (h : auth.store (ScramSha256.lookup ctx) = .ok (some secret)) (draws : Draws) :
    auth.authenticate b64 sha256 ctx draws =
      auth.exchange b64 sha256 true secret (randomNonce b64 draws.nonce) := by
  rw [ScramSha256.authenticate, h, Prog.lift_ok_bind]; rfl

/-- The length of a server-first message does not depend on the nonces drawn. -/
theorem Fits.of_draws {secret : ScramSecret} {c s : Vector UInt8 18}
    (h : Fits (serverFirst b64 (randomNonce b64 c ++ randomNonce b64 s) secret))
    (c' s' : Vector UInt8 18) :
    Fits (serverFirst b64 (randomNonce b64 c' ++ randomNonce b64 s') secret) := by
  simpa only [Fits, serverFirst, List.length_append, length_randomNonce] using h

/-- **Interoperation.** A client with the password against a server that stores its verifier: every
run of the two ends with both results `Ok` and the server returning the password's keys; and with
those keys `reauth_upstream` succeeds in the same way against every server that has the verifier,
whatever nonces are drawn. -/
theorem scram_interop (password salt : Bytes) (iterations : UInt32) {auth auth' : ScramSha256}
    {ctx ctx' : AuthContext} (client client' : Vector UInt8 18) (draws draws' : Draws)
    (hstore : auth.store (ScramSha256.lookup ctx) =
      .ok (some (ScramSecret.fromPassword sha256 password salt iterations)))
    (hstore' : auth'.store (ScramSha256.lookup ctx') =
      .ok (some (ScramSecret.fromPassword sha256 password salt iterations)))
    (hfit : Fits (serverFirst b64 (randomNonce b64 client ++ randomNonce b64 draws.nonce)
      (ScramSecret.fromPassword sha256 password salt iterations))) :
    Net.Ends received
      ⟨passwordLogin b64 sha256 password client, auth.authenticate b64 sha256 ctx draws, [], []⟩
      (.ok ()) (.ok (.terminated (.scram
        (ScramKeys.fromPassword sha256 password salt iterations)))) ∧
    Net.Ends received
      ⟨reauthUpstream b64 sha256 (ScramKeys.fromPassword sha256 password salt iterations) client',
        auth'.authenticate b64 sha256 ctx' draws', [], []⟩
      (.ok ()) (.ok (.terminated (.scram
        (ScramKeys.fromPassword sha256 password salt iterations)))) := by
  rw [authenticate_known b64 hstore draws, authenticate_known b64 hstore' draws']
  exact ⟨exchange_ends b64 auth rfl rfl rfl rfl client draws.nonce hfit,
    exchange_ends b64 auth' rfl rfl rfl rfl client' draws'.nonce (hfit.of_draws b64 _ _)⟩

end

theorem Sample.fits : Fits (serverFirst Base64.standard
    (randomNonce Base64.standard Sample.clientDraw ++
      randomNonce Base64.standard Sample.draws.nonce) Sample.secret) := by
  have hs : Sample.secret.salt.length = 16 := by decide
  have hi : (decimal Sample.secret.iterations.toNat).length = 4 := by decide
  have h₁ : (ascii "r=").length = 2 := by decide
  have h₂ : (ascii ",s=").length = 3 := by decide
  have h₃ : (ascii ",i=").length = 3 := by decide
  simp only [Fits, serverFirst, List.length_append, length_randomNonce, length_i32ToBe,
    Base64.standard.length_encode, hs, hi, h₁, h₂, h₃]
  decide

/-- The sample server and password, and a second exchange with other nonces. -/
theorem scram_interop_for_alice :
    Net.Ends received
      ⟨passwordLogin Base64.standard Sha256.hash Sample.password Sample.clientDraw,
        Sample.server.authenticate Base64.standard Sha256.hash Sample.context Sample.draws, [], []⟩
      (.ok ()) (.ok (.terminated (.scram Sample.keys))) ∧
    Net.Ends received
      ⟨reauthUpstream Base64.standard Sha256.hash Sample.keys (Vector.replicate 18 11),
        Sample.server.authenticate Base64.standard Sha256.hash Sample.context
          { Sample.draws with nonce := Vector.replicate 18 12 }, [], []⟩
      (.ok ()) (.ok (.terminated (.scram Sample.keys))) :=
  scram_interop Base64.standard Sample.password Sample.salt Sample.iterations _ _ _ _
    Sample.store_alice Sample.store_alice Sample.fits

end RamaPg.Scram
