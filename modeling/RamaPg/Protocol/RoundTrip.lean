import RamaPg.Protocol.Startup

/-!
# The startup codec round trips

What `startup_message` and `cancel_request_frame` build is read back whole, and what is accepted
re-encodes to the bytes it was read from.
-/

namespace RamaPg.Startup

open RamaPg.Lib RamaPg.Codec

/-! ## Parameter lists -/

/-- What a NUL-terminated string can carry. -/
def IsCstr (s : Bytes) : Prop := 0 ∉ s ∧ isUtf8 s = true

/-- The parameters a packet can carry: the empty key ends the list. -/
def IsParameters (ps : List (Bytes × Bytes)) : Prop :=
  ∀ p ∈ ps, p.1 ≠ [] ∧ IsCstr p.1 ∧ IsCstr p.2

/-- `(key NUL value NUL)*`. -/
def encodeParameters (ps : List (Bytes × Bytes)) : Bytes :=
  ps.flatMap fun p => p.1 ++ 0 :: (p.2 ++ [0])

theorem encodeParameters_cons (p : Bytes × Bytes) (ps : List (Bytes × Bytes)) (rest : Bytes) :
    encodeParameters (p :: ps) ++ rest = p.1 ++ 0 :: (p.2 ++ 0 :: (encodeParameters ps ++ rest)) := by
  simp [encodeParameters]

theorem length_le_encodeParameters (ps : List (Bytes × Bytes)) :
    ps.length ≤ (encodeParameters ps).length := by
  induction ps with
  | nil => exact Nat.zero_le _
  | cons p ps ih =>
    have h := encodeParameters_cons p ps []
    rw [List.append_nil, List.append_nil] at h
    rw [h]
    simp only [List.length_cons, List.length_append]
    omega

theorem readCstr_encode {s : Bytes} (h : IsCstr s) (rest : Bytes) :
    readCstr (s ++ 0 :: rest) = .ok (s, rest) := by
  rw [readCstr, splitOnce_append h.1]
  simp only [h.2, ↓reduceIte]

theorem parseParametersLoop_encode {ps : List (Bytes × Bytes)} (hp : IsParameters ps)
    (ignored : Bytes) : ∀ {n : Nat}, ps.length < n →
      parseParametersLoop n (encodeParameters ps ++ 0 :: ignored) = .ok ps := by
  induction ps with
  | nil =>
    intro n hn
    obtain ⟨n, rfl⟩ := Nat.exists_eq_add_one_of_ne_zero (Nat.ne_of_gt hn)
    have hc : IsCstr [] := ⟨by simp, rfl⟩
    have h := readCstr_encode hc ignored
    rw [List.nil_append] at h
    show parseParametersLoop (n + 1) (0 :: ignored) = .ok []
    simp only [parseParametersLoop, h, ↓reduceIte]
  | cons p ps ih =>
    intro n hn
    obtain ⟨n, rfl⟩ := Nat.exists_eq_add_one_of_ne_zero (Nat.ne_of_gt (Nat.zero_lt_of_lt hn))
    obtain ⟨hne, hk, hv⟩ := hp p (by simp)
    have hlt : ps.length < n := by simpa using hn
    rw [encodeParameters_cons]
    simp only [parseParametersLoop, readCstr_encode hk, readCstr_encode hv, hne, ↓reduceIte,
      ih (fun q hq => hp q (by simp [hq])) hlt]
    rfl

theorem parseParametersLoop_ok : ∀ {n : Nat} {buf : Bytes} {ps : List (Bytes × Bytes)},
    parseParametersLoop n buf = .ok ps →
      IsParameters ps ∧ ∃ ignored, buf = encodeParameters ps ++ 0 :: ignored := by
  intro n
  induction n with
  | zero => intro buf ps h; cases h
  | succ n ih =>
    intro buf ps h
    rw [parseParametersLoop] at h
    split at h
    · cases h
    · rename_i key rest hkey
      obtain ⟨rfl, hk⟩ := readCstr_ok hkey
      split at h
      · rename_i hnil
        cases h
        exact ⟨by simp [IsParameters], rest, by simp [hnil, encodeParameters]⟩
      · rename_i hne
        split at h
        · cases h
        · rename_i value rest' hvalue
          obtain ⟨rfl, hv⟩ := readCstr_ok hvalue
          cases hp : parseParametersLoop n rest' with
          | error e => rw [hp] at h; cases h
          | ok qs =>
            rw [hp] at h
            cases h
            obtain ⟨hqs, ignored, rfl⟩ := ih hp
            refine ⟨?_, ignored, ?_⟩
            · intro q hq
              rcases List.mem_cons.mp hq with rfl | hq
              · exact ⟨hne, hk, hv⟩
              · exact hqs q hq
            · rw [encodeParameters_cons]

/-! ## Packets -/

/-- A packet with its length in front is read whole, and nothing after it. -/
theorem readStartupFrame_packet {body : Bytes} (h8 : 4 ≤ body.length) (hmax : body.length ≤ 9996)
    (rest : Bytes) :
    readStartupFrame (i32ToBe ((body.length + 4 : Nat) : Int) ++ body ++ rest) =
      (.ok (i32ToBe ((body.length + 4 : Nat) : Int) ++ body), rest) := by
  have hr := @i32OfBe_i32ToBe (body.length + 4) (by omega)
  rw [i32ToBe_natCast (by omega)]
  simp only [u32ToBe, List.cons_append, List.nil_append, readStartupFrame, hr]
  have hlen : (((body.length + 4 : Nat) : Int) - 4).toNat = body.length := by omega
  rw [if_pos (by rw [maxStartupPacketLen]; omega), hlen, if_pos (by simp)]
  simp

theorem readStartupFrame_ok {stream frame rest : Bytes}
    (h : readStartupFrame stream = (.ok frame, rest)) :
    stream = frame ++ rest ∧ 8 ≤ frame.length ∧ frame.length ≤ 10000 ∧
      ∃ body, frame = i32ToBe (frame.length : Nat) ++ body := by
  unfold readStartupFrame at h
  split at h
  · rename_i a b c d tail
    simp only at h
    split at h
    · rename_i hlen
      rw [maxStartupPacketLen] at hlen
      split at h
      · rename_i hle
        cases h
        have hfl : (a :: b :: c :: d :: tail.take (i32OfBe a b c d - 4).toNat).length =
            (i32OfBe a b c d).toNat := by
          simp only [List.length_cons, List.length_take]
          omega
        have hcast : (((i32OfBe a b c d).toNat : Nat) : Int) = i32OfBe a b c d := by omega
        refine ⟨by simp, by omega, by omega, tail.take (i32OfBe a b c d - 4).toNat, ?_⟩
        rw [hfl, hcast, i32ToBe_i32OfBe]
        rfl
      · cases h
    · cases h
  · cases h

theorem startupMessage_eq (ps : List (Bytes × Bytes)) : startupMessage ps =
    i32ToBe (((i32ToBe 196608 ++ (encodeParameters ps ++ [0])).length + 4 : Nat) : Int) ++
      (i32ToBe 196608 ++ (encodeParameters ps ++ [0])) := by
  simp only [startupMessage, encodeParameters, ProtocolVersion.v3_0, List.append_assoc]

theorem parse_startupMessage {ps : List (Bytes × Bytes)} (hp : IsParameters ps) :
    StartupRequest.parse (startupMessage ps) =
      .ok (.startup ⟨.v3_0, ps, startupMessage ps⟩) := by
  have hloop : parseParameters (encodeParameters ps ++ [0]) = .ok ps := by
    refine parseParametersLoop_encode hp [] ?_
    have := length_le_encodeParameters ps
    simp only [List.length_append, List.length_singleton]
    omega
  have hcode : i32ToBe 196608 = [0, 3, 0, 0] := rfl
  rw [startupMessage_eq]
  generalize (((i32ToBe 196608 ++ (encodeParameters ps ++ [0])).length + 4 : Nat) : Int) = len
  rw [hcode]
  have hof : i32OfBe 0 3 0 0 = 196608 := by decide
  simp only [i32ToBe, u32ToBe, List.cons_append, List.nil_append, StartupRequest.parse, hof]
  rw [if_neg fun h => absurd h.1 (by decide), if_neg fun h => absurd h.1 (by decide),
    if_neg fun h => absurd h.1 (by decide), hloop]
  rfl

theorem parse_cancelRequestFrame {key : Bytes} (h8 : 8 ≤ key.length) (hmax : key.length ≤ 9992) :
    StartupRequest.parse (cancelRequestFrame key) = .ok (.cancel ⟨key⟩) := by
  have hcode : i32ToBe cancelRequestCode = [4, 210, 22, 46] := rfl
  have hof : i32OfBe 4 210 22 46 = cancelRequestCode := by decide
  have hlen := @i32OfBe_i32ToBe (8 + key.length) (by omega)
  rw [cancelRequestFrame, hcode, i32ToBe_natCast (by omega)]
  simp only [u32ToBe, List.cons_append, List.nil_append, StartupRequest.parse, hof, hlen]
  rw [if_neg fun h => absurd h.1 (by decide), if_neg fun h => absurd h.1 (by decide),
    if_pos ⟨trivial, by omega⟩]

/-- What `parse` makes of a frame, for the two requests that carry data. -/
theorem StartupRequest.parse_ok {frame : Bytes} {r : StartupRequest}
    (h : StartupRequest.parse frame = .ok r) :
    ∃ a b c d code body, frame = a :: b :: c :: d :: (i32ToBe code ++ body) ∧
      match r with
      | .cancel key => key = ⟨body⟩ ∧ code = cancelRequestCode
      | .startup msg => msg.protocolVersion.code = code ∧ msg.frame = frame ∧
          IsParameters msg.parameters ∧
          ∃ ignored, body = encodeParameters msg.parameters ++ 0 :: ignored
      | _ => True := by
  unfold StartupRequest.parse at h
  split at h
  · rename_i a b c d e f g i body
    refine ⟨a, b, c, d, i32OfBe e f g i, body, by rw [i32ToBe_i32OfBe]; rfl, ?_⟩
    simp only at h
    split at h
    · cases h; trivial
    split at h
    · cases h; trivial
    split at h
    · rename_i hc
      cases h
      exact ⟨rfl, hc.1⟩
    · cases hp : parseParameters body with
      | error e => rw [hp] at h; cases h
      | ok ps =>
        rw [hp] at h
        cases h
        obtain ⟨hps, hbody⟩ := parseParametersLoop_ok hp
        exact ⟨rfl, rfl, hps, hbody⟩
  · cases h

/-- A message of `startup_message` that is not too long, read back. -/
theorem readStartupRequest_startupMessage {ps : List (Bytes × Bytes)}
    (hmax : (startupMessage ps).length ≤ 10000) (rest : Bytes) :
    readStartupFrame (startupMessage ps ++ rest) = (.ok (startupMessage ps), rest) := by
  rw [startupMessage_eq] at hmax ⊢
  refine readStartupFrame_packet ?_ ?_ rest
  · simp only [List.length_append, length_i32ToBe]; omega
  · simp only [List.length_append, length_i32ToBe] at hmax ⊢; omega

theorem readStartupFrame_cancelRequestFrame {key : Bytes} (hmax : key.length ≤ 9992)
    (rest : Bytes) :
    readStartupFrame (cancelRequestFrame key ++ rest) = (.ok (cancelRequestFrame key), rest) := by
  have h := @readStartupFrame_packet (i32ToBe cancelRequestCode ++ key)
    (by simp) (by simp only [List.length_append, length_i32ToBe]; omega) rest
  have hl : (i32ToBe cancelRequestCode ++ key).length + 4 = 8 + key.length := by
    simp only [List.length_append, length_i32ToBe]; omega
  rw [hl] at h
  simpa only [cancelRequestFrame, List.append_assoc] using h

theorem readStartupRequest_ok {stream rest : Bytes} {r : StartupRequest}
    (h : readStartupRequest stream = (.ok r, rest)) :
    ∃ frame, readStartupFrame stream = (.ok frame, rest) ∧ StartupRequest.parse frame = .ok r := by
  unfold readStartupRequest at h
  split at h
  · rename_i frame rest' hf
    obtain ⟨hp, rfl⟩ := Prod.mk.inj h
    exact ⟨frame, hf, hp⟩
  · cases h

/-- The four bytes a frame starts with are its length. -/
theorem prefix_eq {frame body rest : Bytes} {a b c d : UInt8} {len : Int}
    (h : frame = i32ToBe len ++ body) (h' : frame = a :: b :: c :: d :: rest) :
    frame = i32ToBe len ++ rest := by
  have he : i32ToBe len ++ body = [a, b, c, d] ++ rest := h.symm.trans h'
  rw [h, (List.append_inj he rfl).2]

/-- A cancel request that is read is the frame of its key. -/
theorem readStartupRequest_cancel {stream rest : Bytes} {key : CancelKey}
    (h : readStartupRequest stream = (.ok (.cancel key), rest)) :
    stream = cancelRequestFrame key.bytes ++ rest := by
  obtain ⟨frame, hf, hp⟩ := readStartupRequest_ok h
  obtain ⟨rfl, -, -, body, hbody⟩ := readStartupFrame_ok hf
  obtain ⟨a, b, c, d, code, body', hframe, rfl, rfl⟩ := StartupRequest.parse_ok hp
  have he := prefix_eq hbody hframe
  have hl : frame.length = 8 + body'.length := by
    rw [hframe]
    simp only [List.length_cons, List.length_append, length_i32ToBe]
    omega
  rw [hl] at he
  rw [he]
  simp only [cancelRequestFrame, List.append_assoc]

/-! ## Both directions -/

/-- **The startup codec round trips.** What is built from parameters or from a key is read back
whole, whatever follows; what is read as a startup message or a cancel request is the bytes consumed,
and encodes what was parsed. -/
theorem startup_codec_round_trips :
    (∀ ps rest, IsParameters ps → (startupMessage ps).length ≤ 10000 →
      readStartupFrame (startupMessage ps ++ rest) = (.ok (startupMessage ps), rest) ∧
      ∃ msg, StartupRequest.parse (startupMessage ps) = .ok (.startup msg) ∧
        msg.protocolVersion = .v3_0 ∧ msg.parameters = ps ∧ msg.frame = startupMessage ps) ∧
    (∀ key rest, 8 ≤ key.length → key.length ≤ 9992 →
      readStartupFrame (cancelRequestFrame key ++ rest) = (.ok (cancelRequestFrame key), rest) ∧
      StartupRequest.parse (cancelRequestFrame key) = .ok (.cancel ⟨key⟩)) ∧
    (∀ stream msg rest, readStartupRequest stream = (.ok (.startup msg), rest) →
      stream = msg.frame ++ rest ∧ IsParameters msg.parameters ∧
      ∃ ignored, msg.frame = i32ToBe (msg.frame.length : Nat) ++
        (i32ToBe msg.protocolVersion.code ++
          (encodeParameters msg.parameters ++ 0 :: ignored))) ∧
    (∀ stream key rest, readStartupRequest stream = (.ok (.cancel key), rest) →
      stream = cancelRequestFrame key.bytes ++ rest) := by
  refine ⟨fun ps rest hp hmax => ?_, fun key rest h8 hmax => ?_, fun stream msg rest h => ?_,
    fun stream key rest h => ?_⟩
  · exact ⟨readStartupRequest_startupMessage hmax rest, _, parse_startupMessage hp, rfl, rfl, rfl⟩
  · exact ⟨readStartupFrame_cancelRequestFrame hmax rest, parse_cancelRequestFrame h8 hmax⟩
  · obtain ⟨frame, hf, hp⟩ := readStartupRequest_ok h
    obtain ⟨rfl, -, -, body, hbody⟩ := readStartupFrame_ok hf
    obtain ⟨a, b, c, d, code, body', hframe, rfl, hraw, hps, ignored, rfl⟩ :=
      StartupRequest.parse_ok hp
    rw [hraw]
    exact ⟨rfl, hps, ignored, prefix_eq hbody hframe⟩
  · exact readStartupRequest_cancel h

theorem startup_codec_round_trips_for_alice :
    ∃ msg, StartupRequest.parse (startupMessage [(ascii "user", ascii "alice")]) =
      .ok (.startup msg) ∧ msg.parameters = [(ascii "user", ascii "alice")] := by
  have hp : IsParameters [(ascii "user", ascii "alice")] := by
    intro p hp
    obtain rfl := List.mem_singleton.mp hp
    exact ⟨by decide, ⟨by decide, isUtf8_of_isAscii (by decide)⟩,
      ⟨by decide, isUtf8_of_isAscii (by decide)⟩⟩
  obtain ⟨-, msg, hmsg, -, hps, -⟩ := startup_codec_round_trips.1 _ [] hp (by decide)
  exact ⟨msg, hmsg, hps⟩

end RamaPg.Startup
