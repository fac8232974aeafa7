import RamaPg.Protocol.Codec

/-!
# The framed reader refines a whole-stream decoder

`decode maxLen stream` is the reference: cut the stream into frames until it ends or a length is
out of range. `drive` calls `read_frame` again and again, each call with the reads that complete
before its future returns or is dropped, and stops at the first end of stream or error.

The loop of `read_frame` compares the buffer with the frame's total length and subtracts one from
the other; that is sound because the buffer never grows past the current header or frame
(`Bounded`), whatever the reads and wherever a future was dropped.
-/

namespace RamaPg.Codec

open RamaPg.Lib

/-- The result of one completed `read_frame`. -/
abbrev Result := Except IoError (Option RawMessage)

/-! ## The reference decoder -/

theorem length_drop_lt (t a b c d : UInt8) (rest : Bytes) (n : Nat) :
    (rest.drop n).length < (t :: a :: b :: c :: d :: rest).length := by
  simp only [List.length_drop, List.length_cons]
  omega

/-- Take a five-byte header, require `4 ≤ length ≤ maxLen`, take `length - 4` body bytes. -/
def decode (maxLen : Int) (stream : Bytes) : List Result :=
  match stream with
  | [] => [.ok none]
  | t :: a :: b :: c :: d :: rest =>
    if 4 ≤ i32OfBe a b c d ∧ i32OfBe a b c d ≤ maxLen then
      if (i32OfBe a b c d - 4).toNat ≤ rest.length then
        .ok (some ⟨t :: a :: b :: c :: d :: rest.take (i32OfBe a b c d - 4).toNat, by simp⟩) ::
          decode maxLen (rest.drop (i32OfBe a b c d - 4).toNat)
      else [.error endedMidMessage]
    else [.error (invalidLength (i32OfBe a b c d) t)]
  | _ => [.error endedMidMessage]
termination_by stream.length
decreasing_by exact length_drop_lt t a b c d rest _

theorem decode_nil (maxLen : Int) : decode maxLen [] = [.ok none] := by
  rw [decode.eq_def]

theorem decode_short {maxLen : Int} {s : Bytes} (h0 : s ≠ []) (h5 : s.length < 5) :
    decode maxLen s = [.error endedMidMessage] := by
  rw [decode.eq_def]
  match s with
  | [] => exact (h0 rfl).elim
  | [_] | [_, _] | [_, _, _] | [_, _, _, _] => rfl
  | _ :: _ :: _ :: _ :: _ :: _ => simp at h5; omega

theorem decode_bad {maxLen : Int} {t a b c d : UInt8} {e : IoError} (rest : Bytes)
    (h : MessageHeader.parse t a b c d maxLen = .error e) :
    decode maxLen (t :: a :: b :: c :: d :: rest) = [.error e] := by
  unfold MessageHeader.parse at h
  split at h
  · cases h
  · rename_i hr
    cases h
    rw [decode.eq_def]
    simp only [hr, ↓reduceIte]

theorem decode_frame {maxLen : Int} {t a b c d : UInt8} {h : MessageHeader} {body rest : Bytes}
    (hp : MessageHeader.parse t a b c d maxLen = .ok h) (hb : body.length = h.bodyLen) :
    decode maxLen (t :: a :: b :: c :: d :: (body ++ rest)) =
      .ok (some ⟨t :: a :: b :: c :: d :: body, by simp⟩) :: decode maxLen rest := by
  unfold MessageHeader.parse at hp
  split at hp
  · rename_i hr
    cases hp
    have hb' : body.length = (i32OfBe a b c d - 4).toNat := hb
    rw [decode.eq_def]
    simp only [hr, and_self, ↓reduceIte]
    rw [if_pos (by simp; omega)]
    simp only [← hb', List.take_left, List.drop_left]
  · cases hp

theorem decode_truncated {maxLen : Int} {t a b c d : UInt8} {h : MessageHeader} {body : Bytes}
    (hp : MessageHeader.parse t a b c d maxLen = .ok h) (hb : body.length < h.bodyLen) :
    decode maxLen (t :: a :: b :: c :: d :: body) = [.error endedMidMessage] := by
  unfold MessageHeader.parse at hp
  split at hp
  · rename_i hr
    cases hp
    have hb' : body.length < (i32OfBe a b c d - 4).toNat := hb
    rw [decode.eq_def]
    simp only [hr, and_self, ↓reduceIte]
    rw [if_neg (by omega)]
  · cases hp

/-- An accepted header keeps its five bytes. -/
theorem MessageHeader.asBytes_parse {maxLen : Int} {t a b c d : UInt8} {h : MessageHeader}
    (hp : MessageHeader.parse t a b c d maxLen = .ok h) : h.asBytes = [t, a, b, c, d] := by
  unfold MessageHeader.parse at hp
  split at hp
  · cases hp; rfl
  · cases hp

/-- A rejected header is reported as `InvalidData`. -/
theorem parse_error_kind {maxLen : Int} {t a b c d : UInt8} {e : IoError}
    (h : MessageHeader.parse t a b c d maxLen = .error e) : e.kind = .invalidData := by
  unfold MessageHeader.parse at h
  split at h
  · cases h
  · cases h; rfl

/-! ## Where a stream ends -/

/-- The bytes are one frame with a length in range. -/
def IsFrame (maxLen : Int) (f : Bytes) : Prop :=
  ∃ t a b c d body h, f = t :: a :: b :: c :: d :: body ∧
    MessageHeader.parse t a b c d maxLen = .ok h ∧ body.length = h.bodyLen

/-- The bytes are the beginning of a frame: part of a header, or a header with a length in range
and part of the body. -/
def InsideFrame (maxLen : Int) (tail : Bytes) : Prop :=
  tail ≠ [] ∧ (tail.length < 5 ∨ ∃ t a b c d body h, tail = t :: a :: b :: c :: d :: body ∧
    MessageHeader.parse t a b c d maxLen = .ok h ∧ body.length < h.bodyLen)

/-- The bytes start with a header whose length is out of range. -/
def BadLength (maxLen : Int) (tail : Bytes) : Prop :=
  ∃ t a b c d body e, tail = t :: a :: b :: c :: d :: body ∧
    MessageHeader.parse t a b c d maxLen = .error e

/-- The stream is some frames followed by a tail with `P`. -/
def EndsIn (maxLen : Int) (stream : Bytes) (P : Bytes → Prop) : Prop :=
  ∃ (ms : List RawMessage) (tail : Bytes), (∀ m ∈ ms, IsFrame maxLen m.frame) ∧
    stream = ms.flatMap RawMessage.frame ++ tail ∧ P tail

theorem decode_isFrame {maxLen : Int} {m : RawMessage} (h : IsFrame maxLen m.frame) (rest : Bytes) :
    decode maxLen (m.frame ++ rest) = .ok (some m) :: decode maxLen rest := by
  obtain ⟨t, a, b, c, d, body, hd, he, hp, hb⟩ := h
  obtain ⟨fr, wf⟩ := m
  subst he
  exact decode_frame hp hb

theorem decode_frames {maxLen : Int} : ∀ {ms : List RawMessage}, (∀ m ∈ ms, IsFrame maxLen m.frame) →
    ∀ tail, decode maxLen (ms.flatMap RawMessage.frame ++ tail) =
      ms.map (fun m => .ok (some m)) ++ decode maxLen tail
  | [], _, tail => by simp
  | m :: ms, h, tail => by
    simp only [List.flatMap_cons, List.append_assoc, List.map_cons, List.cons_append]
    rw [decode_isFrame (h m (by simp)), decode_frames fun m hm => h m (by simp [hm])]

theorem decode_inside {maxLen : Int} {tail : Bytes} (h : InsideFrame maxLen tail) :
    decode maxLen tail = [.error endedMidMessage] := by
  obtain ⟨hne, h5 | ⟨t, a, b, c, d, body, hd, rfl, hp, hb⟩⟩ := h
  · exact decode_short hne h5
  · exact decode_truncated hp hb

theorem decode_badLength {maxLen : Int} {tail : Bytes} (h : BadLength maxLen tail) :
    ∃ e, e.kind = .invalidData ∧ decode maxLen tail = [.error e] := by
  obtain ⟨t, a, b, c, d, body, e, rfl, hp⟩ := h
  exact ⟨e, parse_error_kind hp, decode_bad body hp⟩

/-- Every stream is frames followed by nothing, part of a frame or a bad length. -/
theorem stream_ends (maxLen : Int) (stream : Bytes) :
    EndsIn maxLen stream (· = []) ∨ EndsIn maxLen stream (InsideFrame maxLen) ∨
      EndsIn maxLen stream (BadLength maxLen) := by
  have hlift : ∀ {m : RawMessage} {rest : Bytes} {P : Bytes → Prop}, IsFrame maxLen m.frame →
      EndsIn maxLen rest P → EndsIn maxLen (m.frame ++ rest) P := by
    rintro m rest P hm ⟨ms, tail, hms, rfl, hP⟩
    exact ⟨m :: ms, tail, by simpa using ⟨hm, hms⟩, by simp, hP⟩
  have hhere : ∀ {tail : Bytes} {P : Bytes → Prop}, P tail → EndsIn maxLen tail P :=
    fun hP => ⟨[], _, by simp, by simp, hP⟩
  induction hn : stream.length using Nat.strong_induction_on generalizing stream with
  | _ n ih =>
    subst hn
    rcases Nat.lt_or_ge stream.length 5 with h5 | h5
    · by_cases hnil : stream = []
      · exact .inl (hhere hnil)
      · exact .inr (.inl (hhere ⟨hnil, .inl h5⟩))
    · match stream, h5 with
      | t :: a :: b :: c :: d :: body, _ =>
        cases hp : MessageHeader.parse t a b c d maxLen with
        | error e => exact .inr (.inr (hhere ⟨t, a, b, c, d, body, e, rfl, hp⟩))
        | ok h =>
          rcases Nat.lt_or_ge body.length h.bodyLen with hlt | hge
          · exact .inr (.inl (hhere ⟨by simp, .inr ⟨t, a, b, c, d, body, h, rfl, hp, hlt⟩⟩))
          · have hm : IsFrame maxLen (t :: a :: b :: c :: d :: body.take h.bodyLen) :=
              ⟨t, a, b, c, d, _, h, rfl, hp, by simpa using hge⟩
            have hsplit : t :: a :: b :: c :: d :: body =
                (⟨t :: a :: b :: c :: d :: body.take h.bodyLen, by simp⟩ : RawMessage).frame ++
                  body.drop h.bodyLen := by simp
            rw [hsplit]
            exact (ih _ (by simp; omega) (body.drop h.bodyLen) rfl).imp (hlift hm)
              (Or.imp (hlift hm) (hlift hm))

theorem EndsIn.last {maxLen : Int} {stream : Bytes} {P : Bytes → Prop} {Q : Result → Prop}
    (h : EndsIn maxLen stream P) (hP : ∀ tail, P tail → ∃ last, Q last ∧ decode maxLen tail = [last]) :
    ∃ last, Q last ∧ last ∈ decode maxLen stream ∧
      ∀ res ∈ decode maxLen stream, res = last ∨ ∃ m, res = .ok (some m) := by
  obtain ⟨ms, tail, hms, rfl, ht⟩ := h
  obtain ⟨last, hQ, hlast⟩ := hP tail ht
  rw [decode_frames hms, hlast]
  refine ⟨last, hQ, by simp, fun res hres => ?_⟩
  simp only [List.mem_append, List.mem_map, List.mem_singleton] at hres
  rcases hres with ⟨m, -, rfl⟩ | rfl
  · exact .inr ⟨m, rfl⟩
  · exact .inl rfl

/-- The reference ends with `Ok(None)`, `UnexpectedEof` or `InvalidData` exactly when the stream
ends at a frame boundary, inside a frame or at a length out of range. -/
theorem decode_end_iff (maxLen : Int) (stream : Bytes) :
    (.ok none ∈ decode maxLen stream ↔ EndsIn maxLen stream (· = [])) ∧
    ((∃ e, e.kind = .unexpectedEof ∧ .error e ∈ decode maxLen stream) ↔
      EndsIn maxLen stream (InsideFrame maxLen)) ∧
    ((∃ e, e.kind = .invalidData ∧ .error e ∈ decode maxLen stream) ↔
      EndsIn maxLen stream (BadLength maxLen)) := by
  have h0 (h : EndsIn maxLen stream (· = [])) := h.last (Q := (· = .ok none))
    fun tail ht => ⟨_, rfl, ht ▸ decode_nil maxLen⟩
  have h1 (h : EndsIn maxLen stream (InsideFrame maxLen)) := h.last
    (Q := (· = .error endedMidMessage)) fun tail ht => ⟨_, rfl, decode_inside ht⟩
  have h2 (h : EndsIn maxLen stream (BadLength maxLen)) := h.last
    (Q := fun r => ∃ e, e.kind = .invalidData ∧ r = .error e) fun tail ht =>
      have ⟨e, hk, hd⟩ := decode_badLength ht
      ⟨_, ⟨e, hk, rfl⟩, hd⟩
  rcases stream_ends maxLen stream with h | h | h
  · obtain ⟨_, rfl, hmem, hall⟩ := h0 h
    refine ⟨⟨fun _ => h, fun _ => hmem⟩, ⟨?_, fun h' => ?_⟩, ⟨?_, fun h' => ?_⟩⟩
    · rintro ⟨e, -, he⟩; simpa using hall _ he
    · obtain ⟨_, rfl, hm, -⟩ := h1 h'; exact ⟨_, rfl, hm⟩
    · rintro ⟨e, -, he⟩; simpa using hall _ he
    · obtain ⟨_, ⟨e, hk, rfl⟩, hm, -⟩ := h2 h'; exact ⟨e, hk, hm⟩
  · obtain ⟨_, rfl, hmem, hall⟩ := h1 h
    refine ⟨⟨fun hn => ?_, fun h' => ?_⟩, ⟨fun _ => h, fun _ => ⟨_, rfl, hmem⟩⟩, ⟨?_, fun h' => ?_⟩⟩
    · simpa using hall _ hn
    · obtain ⟨_, rfl, hm, -⟩ := h0 h'; exact hm
    · rintro ⟨e, hk, he⟩
      have : e = endedMidMessage := by simpa using hall _ he
      subst this; cases hk
    · obtain ⟨_, ⟨e, hk, rfl⟩, hm, -⟩ := h2 h'; exact ⟨e, hk, hm⟩
  · obtain ⟨_, ⟨e, hk, rfl⟩, hmem, hall⟩ := h2 h
    refine ⟨⟨fun hn => ?_, fun h' => ?_⟩, ⟨?_, fun h' => ?_⟩, ⟨fun _ => h, fun _ => ⟨e, hk, hmem⟩⟩⟩
    · simpa using hall _ hn
    · obtain ⟨_, rfl, hm, -⟩ := h0 h'; exact hm
    · rintro ⟨e', hk', he⟩
      have : e' = e := by simpa using hall _ he
      subst this; rw [hk] at hk'; cases hk'
    · obtain ⟨_, rfl, hm, -⟩ := h1 h'; exact ⟨_, rfl, hm⟩

/-! ## Single reads -/

theorem readBuf_append (want c : Nat) (rest : Bytes) :
    (readBuf want c rest).1 ++ (readBuf want c rest).2 = rest := List.take_append_drop ..

theorem readBuf_length (want c : Nat) (rest : Bytes) : (readBuf want c rest).1.length ≤ want := by
  simp only [readBuf, List.length_take]; omega

theorem readBuf_nil {want c : Nat} {rest : Bytes} (hw : 0 < want)
    (h : (readBuf want c rest).1 = []) : rest = [] := by
  simp only [readBuf, List.take_eq_nil_iff] at h
  rcases h with h | h
  · omega
  · exact h

theorem take_readBuf (n want c : Nat) (rest : Bytes) (h : want ≤ n) :
    (readBuf want c rest).1 ++ (readBuf want c rest).2.take (n - (readBuf want c rest).1.length) =
      rest.take n := by
  simp only [readBuf, List.length_take]
  rcases Nat.le_total (min (c + 1) want) rest.length with hle | hle
  · rw [Nat.min_eq_left hle, ← List.take_add]; congr 1; omega
  · rw [List.drop_eq_nil_of_le hle, List.take_of_length_le hle,
      List.take_of_length_le (show rest.length ≤ n by omega)]; simp

theorem drop_readBuf (n want c : Nat) (rest : Bytes) (h : want ≤ n) :
    (readBuf want c rest).2.drop (n - (readBuf want c rest).1.length) = rest.drop n := by
  simp only [readBuf, List.length_take, List.drop_drop]
  rcases Nat.le_total (min (c + 1) want) rest.length with hle | hle
  · congr 1; omega
  · rw [Nat.min_eq_right hle, List.drop_eq_nil_of_le (by omega),
      List.drop_eq_nil_of_le (show rest.length ≤ n by omega)]

theorem readBuf_shrinks {want c : Nat} {rest : Bytes} (h : (readBuf want c rest).1 ≠ []) :
    (readBuf want c rest).2.length + (readBuf want c rest).1.length = rest.length ∧
      0 < (readBuf want c rest).1.length := by
  refine ⟨?_, List.length_pos_of_ne_nil h⟩
  simp only [readBuf, List.length_drop, List.length_take]; omega

/-! ## The buffer never passes the current frame -/

namespace FramedReader

/-- The buffer holds at most the current header, or at most the current frame. -/
def Bounded (r : FramedReader) : Prop :=
  r.buf.length < 5 ∨ ∃ t a b c d body, r.buf = t :: a :: b :: c :: d :: body ∧
    match MessageHeader.parse t a b c d r.maxLen with
    | .ok h => body.length ≤ h.bodyLen
    | .error _ => body = []

theorem advance_short {r : FramedReader} (h : r.buf.length < 5) :
    r.advance = .read (5 - r.buf.length) := by
  unfold advance
  split
  · rename_i he
    rw [he] at h; simp at h; omega
  · rfl

/-- What the loop head does with a bounded buffer: it asks for the bytes that are missing,
returns the whole buffer as the next frame, or rejects a header it has read nothing after. -/
inductive Head (r : FramedReader) : Prop where
  | read (missing : Nat) (pos : 0 < missing) (adv : r.advance = .read missing)
      (eof : decode r.maxLen r.buf = [if r.buf.isEmpty then .ok none else .error endedMidMessage])
      (bounded : ∀ got : Bytes, got.length ≤ missing →
        Bounded { r with buf := r.buf ++ got })
  | frame (m : RawMessage) (adv : r.advance = .frame m []) (whole : m.frame = r.buf)
      (dec : ∀ rest, decode r.maxLen (r.buf ++ rest) = .ok (some m) :: decode r.maxLen rest)
  | fail (e : IoError) (adv : r.advance = .fail e) (kind : e.kind = .invalidData)
      (len : r.buf.length = 5) (dec : ∀ rest, decode r.maxLen (r.buf ++ rest) = [.error e])

theorem bounded_of_length {buf : Bytes} {maxLen : Int} (h : buf.length ≤ 5) :
    Bounded ⟨buf, maxLen⟩ := by
  rcases Nat.lt_or_ge buf.length 5 with h5 | h5
  · exact .inl h5
  · right
    match buf, h, h5 with
    | [t, a, b, c, d], _, _ =>
      refine ⟨t, a, b, c, d, [], rfl, ?_⟩
      split
      · simp
      · rfl
    | _ :: _ :: _ :: _ :: _ :: _ :: _, h, _ => simp only [List.length_cons] at h; omega
    | [], _, h5 | [_], _, h5 | [_, _], _, h5 | [_, _, _], _, h5 | [_, _, _, _], _, h5 => simp at h5

theorem Bounded.head {r : FramedReader} (hb : r.Bounded) : Head r := by
  obtain ⟨buf, maxLen⟩ := r
  rcases hb with h5 | ⟨t, a, b, c, d, body, he, hcase⟩
  · have hadv := advance_short (r := ⟨buf, maxLen⟩) h5
    simp only at h5 hadv
    refine .read (5 - buf.length) (by omega) hadv ?_ fun got hg => ?_
    · cases buf with
      | nil => exact decode_nil _
      | cons x xs => exact decode_short (by simp) h5
    · exact bounded_of_length (by simp; omega)
  · simp only at he hcase
    subst he
    cases hp : MessageHeader.parse t a b c d maxLen with
    | error e =>
      rw [hp] at hcase
      simp only at hcase
      subst hcase
      exact .fail e (by simp [advance, hp]) (parse_error_kind hp) rfl fun rest => decode_bad rest hp
    | ok h =>
      rw [hp] at hcase
      simp only at hcase
      rcases Nat.lt_or_ge body.length h.bodyLen with hlt | hge
      · refine .read (h.bodyLen - body.length) (by omega) ?_ (decode_truncated hp hlt) fun got hg => ?_
        · have hne : ¬ (t :: a :: b :: c :: d :: body).length = 5 + h.bodyLen := by simp; omega
          simp only [advance, hp, hne, ↓reduceDIte]
          congr 1; simp; omega
        · refine .inr ⟨t, a, b, c, d, body ++ got, rfl, ?_⟩
          simp only [hp, List.length_append]; omega
      · have hlen : body.length = h.bodyLen := by omega
        have hl : (t :: a :: b :: c :: d :: body).length = 5 + h.bodyLen := by simp; omega
        refine .frame ⟨t :: a :: b :: c :: d :: body, by simp⟩ ?_ rfl fun rest => ?_
        · simp only [advance, hp, hl, ↓reduceDIte]
          congr 1
          · exact RawMessage.ext_frame (List.take_of_length_le (by omega))
          · exact List.drop_of_length_le (by omega)
        · exact decode_frame hp hlen

/-! ## One call -/

/-- The reader is bounded and its loop head asks for a read. -/
def Waiting (r : FramedReader) : Prop := r.Bounded ∧ ∃ missing, r.advance = .read missing

theorem waiting_nil (maxLen : Int) : Waiting ⟨[], maxLen⟩ :=
  ⟨.inl (by simp), _, advance_short (by simp)⟩

/-- What one `read_frame` call does to the reader, the transport and the reference decoding of
what is left. `unread` is the buffer followed by what the transport keeps. -/
structure Call (r : FramedReader) (rest : Bytes) (o : Outcome Result) (r' : FramedReader)
    (rest' : Bytes) : Prop where
  maxLen : r'.maxLen = r.maxLen
  pending : o = .pending → r'.Waiting ∧ r'.buf ++ rest' = r.buf ++ rest
  frame : ∀ m, o = .done (.ok (some m)) → r'.buf = [] ∧ r.buf ++ rest = m.frame ++ rest' ∧
    decode r.maxLen (r.buf ++ rest) = .ok (some m) :: decode r.maxLen rest'
  stop : ∀ res, o = .done res → (∀ m, res ≠ .ok (some m)) →
    decode r.maxLen (r.buf ++ rest) = [res] ∧ r'.buf ++ rest' = r.buf ++ rest ∧
    match res with
    | .ok _ => r'.buf = [] ∧ rest' = []
    | .error e => (e.kind = .invalidData ∧ r'.buf.length = 5) ∨
        (e = endedMidMessage ∧ r'.buf ≠ [] ∧ rest' = [])

theorem readFrame_call : ∀ (sched : List Nat) (r : FramedReader) (rest : Bytes), r.Bounded →
    Call r rest (r.readFrame rest sched).1 (r.readFrame rest sched).2.1
      (r.readFrame rest sched).2.2 := by
  intro sched
  induction sched with
  | nil =>
    intro r rest hb
    rcases hb.head with ⟨missing, -, adv, -, -⟩ | ⟨m, adv, whole, dec⟩ | ⟨e, adv, kind, len, dec⟩ <;>
      rw [readFrame, adv] <;> simp only
    · exact ⟨rfl, fun _ => ⟨⟨hb, missing, adv⟩, rfl⟩, nofun, nofun⟩
    · exact ⟨rfl, nofun, fun m' h => by cases h; exact ⟨rfl, by rw [whole], dec rest⟩,
        fun res h hn => by cases h; exact (hn m rfl).elim⟩
    · exact ⟨rfl, nofun, nofun, fun res h _ => by
        cases h; exact ⟨dec rest, rfl, .inl ⟨kind, len⟩⟩⟩
  | cons c sched ih =>
    intro r rest hb
    rcases hb.head with ⟨missing, pos, adv, eof, bnd⟩ | ⟨m, adv, whole, dec⟩ |
        ⟨e, adv, kind, len, dec⟩ <;> rw [readFrame, adv] <;> simp only
    · split
      · rename_i hnil
        have hrest := readBuf_nil pos hnil
        subst hrest
        refine ⟨rfl, nofun, fun m h => ?_, fun res h _ => ?_⟩
        · split at h <;> cases h
        · cases h
          refine ⟨by simpa using eof, rfl, ?_⟩
          cases hbuf : r.buf with
          | nil => simp
          | cons x xs => simp
      · have hstep := ih { r with buf := r.buf ++ (readBuf missing c rest).1 }
          (readBuf missing c rest).2 (bnd _ (readBuf_length ..))
        have hsplit : (r.buf ++ (readBuf missing c rest).1) ++ (readBuf missing c rest).2 =
            r.buf ++ rest := by rw [List.append_assoc, readBuf_append]
        exact ⟨hstep.maxLen, by simpa only [hsplit] using hstep.pending,
          by simpa only [hsplit] using hstep.frame, by simpa only [hsplit] using hstep.stop⟩
    · exact ⟨rfl, nofun, fun m' h => by cases h; exact ⟨rfl, by rw [whole], dec rest⟩,
        fun res h hn => by cases h; exact (hn m rfl).elim⟩
    · exact ⟨rfl, nofun, nofun, fun res h _ => by
        cases h; exact ⟨dec rest, rfl, .inl ⟨kind, len⟩⟩⟩

theorem readFrame_rest_le : ∀ (sched : List Nat) (r : FramedReader) (rest : Bytes),
    (r.readFrame rest sched).2.2.length ≤ rest.length := by
  intro sched
  induction sched with
  | nil => intro r rest; rw [readFrame]; split <;> simp
  | cons c sched ih =>
    intro r rest
    rw [readFrame]
    split
    · simp
    · simp
    · simp only
      split
      · simp
      · exact (ih _ _).trans (by simp [readBuf])

/-- A call whose reader waits for a read and gets one either ends the stream or takes a byte. -/
theorem readFrame_progress {r : FramedReader} (hw : r.Waiting) (c : Nat) (sched : List Nat)
    (rest : Bytes) :
    (∃ res, (r.readFrame rest (c :: sched)).1 = .done res ∧ ∀ m, res ≠ .ok (some m)) ∨
      (r.readFrame rest (c :: sched)).2.2.length < rest.length := by
  obtain ⟨-, missing, adv⟩ := hw
  rw [readFrame, adv]
  simp only
  split
  · left
    refine ⟨_, rfl, fun m => ?_⟩
    split <;> nofun
  · rename_i hne
    right
    refine (readFrame_rest_le sched _ _).trans_lt ?_
    simp only [readBuf, List.take_eq_nil_iff, not_or] at hne
    have := List.length_pos_of_ne_nil hne.2
    simp only [readBuf, List.length_drop]; omega

end FramedReader

/-! ## Whole sessions -/

/-- Call `read_frame` until the stream ends or fails; each call is given the reads that complete
before it returns or its future is dropped. -/
def drive (r : FramedReader) (rest : Bytes) : List (List Nat) → List Result × FramedReader × Bytes
  | [] => ([], r, rest)
  | sched :: calls =>
    match r.readFrame rest sched with
    | (.pending, r, rest) => drive r rest calls
    | (.done (.ok (some m)), r, rest) =>
      (.ok (some m) :: (drive r rest calls).1, (drive r rest calls).2)
    | (.done res, r, rest) => ([res], r, rest)

/-- The bytes of the frames among some results. -/
def framesOf : List Result → Bytes
  | [] => []
  | .ok (some m) :: rs => m.frame ++ framesOf rs
  | _ :: rs => framesOf rs

/-- A run of calls from a waiting reader: either it still waits and the reference goes on from
what is unread, or it stopped and the results are the reference's. -/
structure Drove (r : FramedReader) (rest : Bytes) (calls : List (List Nat)) (rs : List Result)
    (r' : FramedReader) (rest' : Bytes) : Prop where
  maxLen : r'.maxLen = r.maxLen
  bytes : r.buf ++ rest = framesOf rs ++ r'.buf ++ rest'
  ended : (r'.Waiting ∧ (calls.filter (· ≠ [])).length ≤ rest.length ∧
      decode r.maxLen (r.buf ++ rest) = rs ++ decode r.maxLen (r'.buf ++ rest') ∧
      ∀ res ∈ rs, ∃ m, res = .ok (some m)) ∨
    decode r.maxLen (r.buf ++ rest) = rs
  stopNone : .ok none ∈ rs → r'.buf = [] ∧ rest' = []
  stopError : ∀ e, .error e ∈ rs → (e.kind = .invalidData ∧ r'.buf.length = 5) ∨
    (e.kind = .unexpectedEof ∧ r'.buf ≠ [] ∧ rest' = [])

theorem drive_drove : ∀ (calls : List (List Nat)) (r : FramedReader) (rest : Bytes), r.Waiting →
    Drove r rest calls (drive r rest calls).1 (drive r rest calls).2.1
      (drive r rest calls).2.2 := by
  intro calls
  induction calls with
  | nil =>
    intro r rest hw
    exact ⟨rfl, rfl, .inl ⟨hw, by simp, rfl, nofun⟩, nofun, nofun⟩
  | cons sched calls ih =>
    intro r rest hw
    have hcall := FramedReader.readFrame_call sched r rest hw.1
    have hprog : ∀ c l, sched = c :: l →
        (∃ res, (r.readFrame rest sched).1 = .done res ∧ ∀ m, res ≠ .ok (some m)) ∨
          (r.readFrame rest sched).2.2.length < rest.length := by
      rintro c l rfl; exact FramedReader.readFrame_progress hw c l rest
    have hle := FramedReader.readFrame_rest_le sched r rest
    rw [drive]
    generalize r.readFrame rest sched = res at hcall hprog hle
    obtain ⟨o, r1, rest1⟩ := res
    simp only at hcall hprog hle
    -- The number of calls that complete a read is paid for by the bytes they take.
    have hcount : (∀ res, o = .done res → ∃ m, res = .ok (some m)) → ∀ n,
        n ≤ rest1.length → (if sched ≠ [] then n + 1 else n) ≤ rest.length := by
      intro hf n hn
      cases hs : sched with
      | nil => simpa using hn.trans hle
      | cons c l =>
        rcases hprog c l hs with ⟨res, ho, hno⟩ | hlt
        · obtain ⟨m, rfl⟩ := hf res ho; exact (hno m rfl).elim
        · simp; omega
    have hfilter : ((sched :: calls).filter (· ≠ [])).length =
        if sched ≠ [] then (calls.filter (· ≠ [])).length + 1 else (calls.filter (· ≠ [])).length := by
      cases sched <;> simp
    match o with
    | .pending =>
      obtain ⟨hw1, hb1⟩ := hcall.pending rfl
      have hd := ih r1 rest1 hw1
      refine ⟨hd.maxLen.trans hcall.maxLen, by rw [← hb1]; exact hd.bytes, ?_, hd.stopNone,
        hd.stopError⟩
      rw [← hb1, ← hcall.maxLen, hfilter]
      exact hd.ended.imp_left fun ⟨h1, h2, h3⟩ => ⟨h1, hcount nofun _ h2, h3⟩
    | .done (.ok (some m)) =>
      obtain ⟨hnil, hb1, hdec⟩ := hcall.frame m rfl
      have hd := ih r1 rest1 (by
        obtain ⟨buf, ml⟩ := r1; cases hnil; exact FramedReader.waiting_nil ml)
      have hdb : rest1 = framesOf (drive r1 rest1 calls).1 ++ (drive r1 rest1 calls).2.1.buf ++
          (drive r1 rest1 calls).2.2 := by simpa [hnil] using hd.bytes
      refine ⟨hd.maxLen.trans hcall.maxLen, ?_, ?_, ?_, ?_⟩
      · simp only [framesOf]; rw [hb1]; nth_rewrite 1 [hdb]; simp
      · rw [hdec, hfilter, ← hcall.maxLen]
        rcases hd.ended with ⟨h1, h2, h3, h4⟩ | h
        · refine .inl ⟨h1, hcount (fun res h => by cases h; exact ⟨m, rfl⟩) _ h2, ?_, ?_⟩
          · simpa [hnil] using h3
          · intro res hres
            rcases List.mem_cons.mp hres with rfl | hres
            · exact ⟨m, rfl⟩
            · exact h4 res hres
        · exact .inr (by simpa [hnil] using h)
      · intro hmem; exact hd.stopNone (by simpa using hmem)
      · intro e hmem; exact hd.stopError e (by simpa using hmem)
    | .done (.ok none) =>
      obtain ⟨hdec, hb1, hbuf, hrest⟩ := hcall.stop _ rfl (by simp)
      exact ⟨hcall.maxLen, by simpa [framesOf] using hb1.symm, .inr hdec, fun _ => ⟨hbuf, hrest⟩,
        by simp⟩
    | .done (.error e) =>
      obtain ⟨hdec, hb1, hcase⟩ := hcall.stop _ rfl (by simp)
      refine ⟨hcall.maxLen, by simpa [framesOf] using hb1.symm, .inr hdec, by simp, ?_⟩
      intro e' he'
      obtain rfl : e' = e := by simpa using he'
      rcases hcase with h | ⟨rfl, h⟩
      · exact .inl h
      · exact .inr ⟨rfl, h⟩

/-! ## Reading without cancellation -/

/-- With more reads than bytes a `read_frame` call returns. -/
theorem FramedReader.readFrame_ne_pending : ∀ (sched : List Nat) (r : FramedReader) (rest : Bytes),
    r.Bounded → rest.length < sched.length → (r.readFrame rest sched).1 ≠ .pending := by
  intro sched
  induction sched with
  | nil => intro r rest _ h; simp at h
  | cons c sched ih =>
    intro r rest hb hlt
    rcases hb.head with ⟨missing, pos, adv, -, bnd⟩ | ⟨m, adv, -, -⟩ | ⟨e, adv, -, -, -⟩ <;>
      rw [readFrame, adv] <;> simp only
    · split
      · nofun
      · rename_i hne
        refine ih _ _ (bnd _ (readBuf_length ..)) ?_
        simp only [readBuf, List.take_eq_nil_iff, not_or] at hne
        have := List.length_pos_of_ne_nil hne.2
        simp only [readBuf, List.length_drop, List.length_cons] at hlt ⊢; omega
    · nofun
    · nofun

/-- With more reads than bytes, `fill` takes the bytes it needs, or fails having taken all
there are. -/
theorem fill_spec (eof : IoError) (want : Nat) : ∀ (sched : List Nat) (acc rest : Bytes),
    acc.length ≤ want → rest.length < sched.length →
    (want - acc.length ≤ rest.length → ∃ sched', fill eof want acc rest sched =
      (.done (.ok (acc ++ rest.take (want - acc.length))), rest.drop (want - acc.length), sched') ∧
      (rest.drop (want - acc.length)).length < sched'.length) ∧
    (rest.length < want - acc.length → ∃ sched', fill eof want acc rest sched =
      (.done (.error eof), [], sched')) := by
  intro sched
  induction sched with
  | nil => intro acc rest _ h; simp at h
  | cons c sched ih =>
    intro acc rest hacc hlt
    rw [fill]
    split
    · have h0 : want - acc.length = 0 := by omega
      rw [h0]
      exact ⟨fun _ => ⟨c :: sched, by simp, by simpa using hlt⟩, fun h => by omega⟩
    · rename_i hnot
      split
      · rename_i hnil
        have := readBuf_nil (by omega) hnil
        subst this
        exact ⟨fun h => by simp at h; omega, fun _ => ⟨sched, rfl⟩⟩
      · rename_i hne
        obtain ⟨hlen, hpos⟩ := readBuf_shrinks hne
        have hgot := readBuf_length (want - acc.length) c rest
        have h := ih (acc ++ (readBuf (want - acc.length) c rest).1)
          (readBuf (want - acc.length) c rest).2 (by simp; omega)
          (by simp only [List.length_cons] at hlt; omega)
        have hsub : want - (acc ++ (readBuf (want - acc.length) c rest).1).length =
            want - acc.length - (readBuf (want - acc.length) c rest).1.length := by simp; omega
        rw [hsub, List.append_assoc, take_readBuf _ _ _ _ (Nat.le_refl _),
          drop_readBuf _ _ _ _ (Nat.le_refl _)] at h
        refine ⟨fun hle => h.1 ?_, fun hlt' => h.2 ?_⟩
        · clear h ih; omega
        · clear h ih; omega

/-- How `read_message_capped` reports what the reference decoder finds first, and where it
leaves the transport. -/
def Reported (stream : Bytes) (res : Result) (r : Except IoError RawMessage) (rest : Bytes) : Prop :=
  match res with
  | .ok (some m) => r = .ok m ∧ stream = m.frame ++ rest
  | .ok none => r = .error earlyEof ∧ rest = []
  | .error e => ∃ e', r = .error e' ∧ e'.kind = e.kind ∧
      ((e.kind = .invalidData ∧ 5 ≤ stream.length ∧ rest = stream.drop 5) ∨
        (e.kind = .unexpectedEof ∧ rest = []))

theorem readMessageCapped_spec (maxLen : Int) (stream : Bytes) (sched : List Nat)
    (hs : stream.length < sched.length) :
    ∃ r rest res tail, readMessageCapped maxLen stream sched = (.done r, rest) ∧
      decode maxLen stream = res :: tail ∧ Reported stream res r rest := by
  have hf := fill_spec earlyEof 5 sched [] stream (by simp) hs
  simp only [List.length_nil, Nat.sub_zero, List.nil_append] at hf
  rcases Nat.lt_or_ge stream.length 5 with h5 | h5
  · obtain ⟨sched', he⟩ := hf.2 h5
    have hm : readMessageCapped maxLen stream sched = (.done (.error earlyEof), []) := by
      simp only [readMessageCapped, readHeader, readExact, he]
    cases stream with
    | nil => exact ⟨_, _, _, _, hm, decode_nil _, rfl, rfl⟩
    | cons x xs =>
      exact ⟨_, _, _, _, hm, decode_short (by simp) h5, _, rfl, rfl, .inr ⟨rfl, rfl⟩⟩
  · obtain ⟨sched', he, hlt⟩ := hf.1 h5
    match stream, h5 with
    | t :: a :: b :: c :: d :: body, _ =>
      simp only [readMessageCapped, readHeader, readExact, he]
      simp only [List.take_succ_cons, List.take_zero, List.drop_succ_cons, List.drop_zero] at hlt ⊢
      cases hp : MessageHeader.parse t a b c d maxLen with
      | error e =>
        refine ⟨_, _, _, _, rfl, decode_bad body hp, e, rfl, rfl, .inl ⟨parse_error_kind hp, ?_⟩⟩
        simp
      | ok h =>
        have hbytes := MessageHeader.asBytes_parse hp
        have hb := fill_spec endedMidMessage (5 + h.bodyLen) sched' h.asBytes body
          (by simp [hbytes]) hlt
        simp only [hbytes, List.length_cons, List.length_nil, Nat.zero_add,
          Nat.add_sub_cancel_left] at hb
        simp only [readBody, hbytes]
        rcases Nat.lt_or_ge body.length h.bodyLen with hshort | hlong
        · obtain ⟨sched2, he2⟩ := hb.2 hshort
          rw [he2]
          exact ⟨_, _, _, _, rfl, decode_truncated hp hshort, _, rfl, rfl, .inr ⟨rfl, rfl⟩⟩
        · obtain ⟨sched2, he2, -⟩ := hb.1 hlong
          rw [he2]
          have hlen : (body.take h.bodyLen).length = h.bodyLen := by simpa using hlong
          have hdec := @decode_frame maxLen t a b c d h _ (body.drop h.bodyLen) hp hlen
          rw [List.take_append_drop] at hdec
          exact ⟨_, _, _, _, rfl, hdec, by simp [toMessage], by simp⟩

/-- Whatever the reads, `fill` gives bytes it took from the transport. -/
theorem fill_ok {eof : IoError} {want : Nat} {bs rest' : Bytes} {sched' : List Nat} :
    ∀ {sched : List Nat} {acc rest : Bytes},
      fill eof want acc rest sched = (.done (.ok bs), rest', sched') → acc.length ≤ want →
      ∃ taken, bs = acc ++ taken ∧ rest = taken ++ rest' ∧ bs.length = want := by
  intro sched
  induction sched with
  | nil =>
    intro acc rest h hacc
    rw [fill] at h
    split at h
    · cases h
      exact ⟨[], by simp, by simp, by omega⟩
    · cases h
  | cons c sched ih =>
    intro acc rest h hacc
    rw [fill] at h
    split at h
    · cases h
      exact ⟨[], by simp, by simp, by omega⟩
    · split at h
      · cases h
      · have hgot := readBuf_length (want - acc.length) c rest
        obtain ⟨taken, hbs, hrest, hlen⟩ := ih h (by simp; omega)
        refine ⟨(readBuf (want - acc.length) c rest).1 ++ taken, ?_, ?_, hlen⟩
        · rw [hbs, List.append_assoc]
        · rw [List.append_assoc, ← hrest, readBuf_append]

/-- Whatever the reads, a message read is the frame that stood at the head of the stream. -/
theorem readMessageCapped_ok {maxLen : Int} {stream rest : Bytes} {sched : List Nat}
    {m : RawMessage} (h : readMessageCapped maxLen stream sched = (.done (.ok m), rest)) :
    stream = m.frame ++ rest ∧ IsFrame maxLen m.frame := by
  unfold readMessageCapped at h
  split at h
  · rename_i hd rest₁ sched₁ hh
    unfold readHeader at hh
    split at hh
    · rename_i t a b c d rest₂ sched₂ he
      obtain ⟨hp, rfl, rfl⟩ := by simpa only [Prod.mk.injEq, Outcome.done.injEq] using hh
      obtain ⟨taken, ht, hs, -⟩ := fill_ok he (by simp)
      obtain rfl : [t, a, b, c, d] = taken := by simpa using ht
      have hbytes := MessageHeader.asBytes_parse hp
      split at h
      · rename_i bs rest₃ sched₃ hb
        obtain ⟨body, rfl, hs', hlen⟩ := fill_ok hb (by simp [hbytes])
        rw [hbytes] at h hlen
        simp only [toMessage, List.cons_append, List.nil_append, List.length_cons,
          Prod.mk.injEq, Outcome.done.injEq] at h
        rw [dif_pos (by omega)] at h
        obtain ⟨hm, rfl⟩ := h
        cases hm
        exact ⟨by simp [hs, hs'], t, a, b, c, d, body, hd, rfl, hp, by simp at hlen; omega⟩
      · simp at h
      · simp at h
    · simp at hh
    · simp at hh
    · simp at hh
  · simp at h
  · simp at h

/-- With more reads than bytes, the frame at the head of the stream is read. -/
theorem readMessageCapped_frame {maxLen : Int} {m : RawMessage} (hm : IsFrame maxLen m.frame)
    (rest : Bytes) (sched : List Nat) (hs : (m.frame ++ rest).length < sched.length) :
    readMessageCapped maxLen (m.frame ++ rest) sched = (.done (.ok m), rest) := by
  obtain ⟨r, rest', res, tail, hr, hd, hrep⟩ := readMessageCapped_spec maxLen _ sched hs
  rw [decode_isFrame hm] at hd
  obtain ⟨rfl, rfl⟩ := List.cons.inj hd
  obtain ⟨rfl, he⟩ := hrep
  rw [hr, List.append_cancel_left he]

/-- `read_message_capped` reports the same frame or the same kind of error as `read_frame`; a
clean end of stream it reports as `UnexpectedEof`. -/
def SameReport (res : Result) (r : Except IoError RawMessage) : Prop :=
  match res with
  | .ok (some m) => r = .ok m
  | .ok none => ∃ e, r = .error e ∧ e.kind = .unexpectedEof
  | .error e => ∃ e', r = .error e' ∧ e'.kind = e.kind

theorem readFrame_readMessageCapped (maxLen : Int) (stream : Bytes) (s₁ s₂ : List Nat)
    (h₁ : stream.length < s₁.length) (h₂ : stream.length < s₂.length) :
    ∃ res r, ((FramedReader.withMaxLen maxLen).readFrame stream s₁).1 = .done res ∧
      readMessageCapped maxLen stream s₂ =
        (.done r, ((FramedReader.withMaxLen maxLen).readFrame stream s₁).2.2) ∧
      SameReport res r := by
  have hw := FramedReader.waiting_nil maxLen
  have hcall := FramedReader.readFrame_call s₁ (FramedReader.withMaxLen maxLen) stream hw.1
  have hdone := FramedReader.readFrame_ne_pending s₁ (FramedReader.withMaxLen maxLen) stream hw.1 h₁
  obtain ⟨r, rest, res, tail, hm, hdec, hrep⟩ := readMessageCapped_spec maxLen stream s₂ h₂
  generalize (FramedReader.withMaxLen maxLen).readFrame stream s₁ = call at hcall hdone
  obtain ⟨o, r1, rest1⟩ := call
  simp only [FramedReader.withMaxLen] at hcall hdone ⊢
  match o with
  | .pending => exact (hdone rfl).elim
  | .done (.ok (some m)) =>
    obtain ⟨-, hb, hd⟩ := hcall.frame m rfl
    obtain rfl : res = .ok (some m) := by
      have := hdec.symm.trans hd; exact (List.cons.inj this).1
    obtain ⟨rfl, hs⟩ := hrep
    have hrest : rest1 = rest := List.append_cancel_left (hb.symm.trans hs)
    exact ⟨_, _, rfl, by rw [hm, hrest], rfl⟩
  | .done (.ok none) =>
    obtain ⟨hd, -, -, rfl⟩ := hcall.stop _ rfl (by simp)
    obtain rfl : res = .ok none := by
      have := hdec.symm.trans hd; exact (List.cons.inj this).1
    obtain ⟨rfl, rfl⟩ := hrep
    exact ⟨_, _, rfl, hm, _, rfl, rfl⟩
  | .done (.error e) =>
    obtain ⟨hd, hb, hcase⟩ := hcall.stop _ rfl (by simp)
    obtain rfl : res = .error e := by
      have := hdec.symm.trans hd; exact (List.cons.inj this).1
    obtain ⟨e', rfl, hk, hrest⟩ := hrep
    have hrest1 : rest1 = rest := by
      rcases hcase with ⟨hi, h5⟩ | ⟨rfl, -, rfl⟩
      · rcases hrest with ⟨-, -, rfl⟩ | ⟨hu, -⟩
        · have hb' : r1.buf ++ rest1 = stream := hb
          rw [← hb', ← h5, List.drop_left]
        · rw [hi] at hu; cases hu
      · rcases hrest with ⟨hu, -⟩ | ⟨-, rfl⟩
        · cases hu
        · rfl
    exact ⟨_, _, rfl, by rw [hm, hrest1], e', rfl, hk⟩

/-- **Chunking- and cancellation-independence.** Whatever the reads and wherever pending calls
are dropped, the results so far are those of the reference decoder, and all of them once more
calls complete a read than the stream has bytes; the bytes taken are the returned frames and the
buffer; a call that returns a frame leaves the buffer empty; a rejected length leaves exactly its
header taken; and `read_message_capped` reports the same and stops at the same position. -/
theorem framedReader_refines_decode (maxLen : Int) (stream : Bytes) (calls : List (List Nat)) :
    let d := drive (FramedReader.withMaxLen maxLen) stream calls
    (d.1 <+: decode maxLen stream ∧
      (stream.length < (calls.filter (· ≠ [])).length → d.1 = decode maxLen stream)) ∧
    stream = framesOf d.1 ++ d.2.1.buf ++ d.2.2 ∧
    (∀ sched m, ¬ d.1 = decode maxLen stream →
      (d.2.1.readFrame d.2.2 sched).1 = .done (.ok (some m)) →
        (d.2.1.readFrame d.2.2 sched).2.1.buf = []) ∧
    ((.ok none ∈ decode maxLen stream ↔ EndsIn maxLen stream (· = [])) ∧
      ((∃ e, e.kind = .unexpectedEof ∧ .error e ∈ decode maxLen stream) ↔
        EndsIn maxLen stream (InsideFrame maxLen)) ∧
      ((∃ e, e.kind = .invalidData ∧ .error e ∈ decode maxLen stream) ↔
        EndsIn maxLen stream (BadLength maxLen))) ∧
    (∀ e, .error e ∈ d.1 → e.kind = .invalidData → d.2.1.buf.length = 5) ∧
    ∀ s₁ s₂ : List Nat, stream.length < s₁.length → stream.length < s₂.length →
      ∃ res r, ((FramedReader.withMaxLen maxLen).readFrame stream s₁).1 = .done res ∧
        readMessageCapped maxLen stream s₂ =
          (.done r, ((FramedReader.withMaxLen maxLen).readFrame stream s₁).2.2) ∧
        SameReport res r := by
  have hd := drive_drove calls (FramedReader.withMaxLen maxLen) stream
    (FramedReader.waiting_nil maxLen)
  intro d
  have hended := hd.ended
  have hml : (FramedReader.withMaxLen maxLen).maxLen = maxLen := rfl
  have hbuf : (FramedReader.withMaxLen maxLen).buf = [] := rfl
  rw [hml, hbuf, List.nil_append] at hended
  refine ⟨⟨?_, fun hlt => ?_⟩, hd.bytes, fun sched m hne hm => ?_, decode_end_iff maxLen stream,
    fun e he hk => ?_, readFrame_readMessageCapped maxLen stream⟩
  · rcases hended with ⟨-, -, h, -⟩ | h
    · exact ⟨_, h.symm⟩
    · exact h ▸ List.prefix_refl _
  · rcases hended with ⟨-, hle, -⟩ | h
    · omega
    · exact h.symm
  · rcases hended with ⟨hw, -⟩ | h
    · exact ((FramedReader.readFrame_call sched d.2.1 d.2.2 hw.1).frame m hm).1
    · exact (hne h.symm).elim
  · rcases hd.stopError e he with ⟨-, h⟩ | ⟨h, -⟩
    · exact h
    · rw [hk] at h; cases h

end RamaPg.Codec
