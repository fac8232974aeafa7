import RamaPg.Protocol.Framing

/-!
# Streaming a body

`copy_body_to` passes a body on through a scratch buffer instead of collecting it. What any
completed read gives is a function of the stream alone, so a header and its streamed body are the
frame `read_message_capped` collects, for every size of the scratch buffer and whatever the reads
of either of them.
-/

namespace RamaPg.Codec

open RamaPg.Lib

def emptyCopyBuffer : IoError := ⟨.invalidInput, "empty body-copy buffer"⟩

/-- The loop of `copy_body_to` with a scratch of `size` bytes: `remaining` bytes of the body are
still to be copied and the writer holds `written`. -/
def copyLoop (size : Nat) (hs : 0 < size) (remaining : Nat) (written rest : Bytes)
    (sched : List Nat) : Outcome (Except IoError Unit) × Bytes × Bytes × List Nat :=
  if remaining = 0 then (.done (.ok ()), written, rest, sched)
  else
    match readExact (min remaining size) rest sched with
    | (.done (.ok chunk), rest, sched) =>
      copyLoop size hs (remaining - min remaining size) (written ++ chunk) rest sched
    | (.done (.error e), rest, sched) => (.done (.error e), written, rest, sched)
    | (.pending, rest, sched) => (.pending, written, rest, sched)
termination_by remaining
decreasing_by omega

/-- `copy_body_to`; without scratch the loop has nothing to copy. -/
def MessageHeader.copyBodyTo (h : MessageHeader) (size : Nat) (written rest : Bytes)
    (sched : List Nat) : Outcome (Except IoError Unit) × Bytes × Bytes × List Nat :=
  if h.bodyLen ≠ 0 ∧ size = 0 then (.done (.error emptyCopyBuffer), written, rest, sched)
  else if hs : 0 < size then copyLoop size hs h.bodyLen written rest sched
  else (.done (.ok ()), written, rest, sched)

/-- Read a header, write it and copy its body. -/
def streamMessage (maxLen : Int) (size : Nat) (stream : Bytes) (sched : List Nat) :
    Outcome (Except IoError Unit) × Bytes × Bytes × List Nat :=
  match readHeader maxLen stream sched with
  | (.done (.ok h), rest, sched) => h.copyBodyTo size h.asBytes rest sched
  | (.done (.error e), rest, sched) => (.done (.error e), [], rest, sched)
  | (.pending, rest, sched) => (.pending, [], rest, sched)

/-! ## Completed reads -/

/-- A `fill` that failed found the end of the stream before it had enough. -/
theorem fill_error {eof e : IoError} {want : Nat} {rest' : Bytes} {sched' : List Nat} :
    ∀ {sched : List Nat} {acc rest : Bytes},
      fill eof want acc rest sched = (.done (.error e), rest', sched') → acc.length ≤ want →
      e = eof ∧ rest' = [] ∧ rest.length < want - acc.length := by
  intro sched
  induction sched with
  | nil =>
    intro acc rest h hacc
    rw [fill] at h
    split at h <;> cases h
  | cons c sched ih =>
    intro acc rest h hacc
    rw [fill] at h
    split at h
    · cases h
    · rename_i hnot
      split at h
      · rename_i hnil
        cases h
        obtain rfl := readBuf_nil (by omega) hnil
        exact ⟨rfl, rfl, by simp; omega⟩
      · have hgot := readBuf_length (want - acc.length) c rest
        have hsum := congrArg List.length (readBuf_append (want - acc.length) c rest)
        obtain ⟨rfl, rfl, hlt⟩ := ih h (by simp; omega)
        simp only [List.length_append] at hsum hlt
        exact ⟨rfl, rfl, by omega⟩

/-- A `fill` that succeeded took the bytes it still needed. -/
theorem fill_taken {eof : IoError} {want : Nat} {bs rest' : Bytes} {sched sched' : List Nat}
    {acc rest : Bytes} (h : fill eof want acc rest sched = (.done (.ok bs), rest', sched'))
    (hacc : acc.length ≤ want) :
    want - acc.length ≤ rest.length ∧ bs = acc ++ rest.take (want - acc.length) ∧
      rest' = rest.drop (want - acc.length) := by
  obtain ⟨taken, rfl, rfl, hlen⟩ := fill_ok h hacc
  have hn : want - acc.length = taken.length := by
    rw [List.length_append] at hlen
    omega
  rw [hn]
  simp

/-- With more reads than bytes `fill` returns. -/
theorem fill_ne_pending {eof : IoError} {want : Nat} {acc rest rest' : Bytes}
    {sched sched' : List Nat} (hacc : acc.length ≤ want) (h : rest.length < sched.length) :
    fill eof want acc rest sched ≠ (.pending, rest', sched') := by
  obtain ⟨hok, herr⟩ := fill_spec eof want sched acc rest hacc h
  intro he
  rcases Nat.lt_or_ge rest.length (want - acc.length) with hlt | hge
  · obtain ⟨s, hs⟩ := herr hlt
    rw [hs] at he
    cases he
  · obtain ⟨s, hs, -⟩ := hok hge
    rw [hs] at he
    cases he

/-- What is left of the reads is more than what is left of the bytes. -/
theorem fill_ample {eof : IoError} {want : Nat} {acc rest bs rest' : Bytes}
    {sched sched' : List Nat} (hacc : acc.length ≤ want) (h : rest.length < sched.length)
    (he : fill eof want acc rest sched = (.done (.ok bs), rest', sched')) :
    rest'.length < sched'.length := by
  obtain ⟨hle, -, rfl⟩ := fill_taken he hacc
  obtain ⟨s, hs, hlt⟩ := (fill_spec eof want sched acc rest hacc h).1 hle
  have hsame := hs.symm.trans he
  simp only [Prod.mk.injEq] at hsame
  exact hsame.2.2 ▸ hlt

/-- A header is read from the first five bytes, whatever the reads. -/
theorem readHeader_done {maxLen : Int} {stream rest : Bytes} {sched sched' : List Nat}
    {r : Except IoError MessageHeader}
    (h : readHeader maxLen stream sched = (.done r, rest, sched')) :
    (stream.length < 5 ∧ r = .error earlyEof ∧ rest = []) ∨
    ∃ t a b c d, stream = t :: a :: b :: c :: d :: rest ∧
      r = MessageHeader.parse t a b c d maxLen := by
  unfold readHeader at h
  split at h
  · rename_i t a b c d rest₁ sched₁ he
    obtain ⟨taken, ht, hstream, -⟩ := fill_ok he (by simp)
    obtain rfl : [t, a, b, c, d] = taken := by simpa using ht
    cases h
    exact .inr ⟨t, a, b, c, d, hstream, rfl⟩
  · rename_i bs rest₁ sched₁ hne he
    obtain ⟨taken, ht, -, hlen⟩ := fill_ok he (by simp)
    obtain rfl : bs = taken := by simpa using ht
    match bs, hlen with
    | [t, a, b, c, d], _ => exact (hne t a b c d rfl).elim
  · rename_i e rest₁ sched₁ he
    obtain ⟨rfl, rfl, hlt⟩ := fill_error he (by simp)
    cases h
    exact .inl ⟨by simpa using hlt, rfl, rfl⟩
  · cases h

/-- What the copy loop has done when it ends. -/
theorem copyLoop_done {size : Nat} {hs : 0 < size} {remaining : Nat} {written rest w rest' : Bytes}
    {sched sched' : List Nat} {r : Except IoError Unit}
    (h : copyLoop size hs remaining written rest sched = (.done r, w, rest', sched')) :
    (remaining ≤ rest.length ∧ r = .ok () ∧ w = written ++ rest.take remaining ∧
      rest' = rest.drop remaining) ∨
    (rest.length < remaining ∧ r = .error earlyEof ∧ rest' = [] ∧
      ∃ p, p <+: rest ∧ w = written ++ p) := by
  fun_induction copyLoop size hs remaining written rest sched with
  | case1 written rest sched =>
    cases h
    exact .inl ⟨by omega, rfl, by simp, by simp⟩
  | case2 remaining written rest sched h0 chunk rest₁ sched₁ he ih =>
    obtain ⟨hle, hchunk, hrest⟩ := fill_taken he (by simp)
    simp only [List.length_nil, Nat.sub_zero, List.nil_append] at hle hchunk hrest
    subst hchunk hrest
    have hsplit : min remaining size + (remaining - min remaining size) = remaining := by omega
    rcases ih h with ⟨hle', rfl, rfl, rfl⟩ | ⟨hlt, rfl, rfl, p, hp, rfl⟩
    · left
      rw [List.length_drop] at hle'
      refine ⟨by omega, rfl, ?_, ?_⟩
      · rw [List.append_assoc, ← List.take_add, hsplit]
      · rw [List.drop_drop, hsplit]
    · right
      rw [List.length_drop] at hlt
      refine ⟨by omega, rfl, rfl, rest.take (min remaining size) ++ p, ?_, by simp⟩
      obtain ⟨q, hq⟩ := hp
      exact ⟨q, by rw [List.append_assoc, hq, List.take_append_drop]⟩
  | case3 remaining written rest sched h0 e rest₁ sched₁ he =>
    obtain ⟨rfl, rfl, hlt⟩ := fill_error he (by simp)
    cases h
    simp only [List.length_nil, Nat.sub_zero] at hlt
    exact .inr ⟨by omega, rfl, rfl, [], by simp, by simp⟩
  | case4 => cases h

/-- With more reads than bytes the loop ends. -/
theorem copyLoop_ne_pending {size : Nat} {hs : 0 < size} {remaining : Nat} {written rest : Bytes}
    {sched : List Nat} (h : rest.length < sched.length) :
    (copyLoop size hs remaining written rest sched).1 ≠ .pending := by
  fun_induction copyLoop size hs remaining written rest sched with
  | case1 => nofun
  | case2 remaining written rest sched h0 chunk rest₁ sched₁ he ih =>
    exact ih (fill_ample (by simp) h he)
  | case3 => nofun
  | case4 remaining written rest sched h0 rest₁ sched₁ he =>
    exact absurd he (fill_ne_pending (by simp) h)

/-! ## What stands at the head of a stream -/

inductive Cut where
  | noHeader
  | badHeader (e : IoError) (rest : Bytes)
  | frame (h : MessageHeader) (body rest : Bytes)
  | truncated (h : MessageHeader) (body : Bytes)

/-- A stream cut behind its first message. -/
def cut (maxLen : Int) : Bytes → Cut
  | t :: a :: b :: c :: d :: body =>
    match MessageHeader.parse t a b c d maxLen with
    | .error e => .badHeader e body
    | .ok h =>
      if h.bodyLen ≤ body.length then .frame h (body.take h.bodyLen) (body.drop h.bodyLen)
      else .truncated h body
  | _ => .noHeader

theorem cut_short {maxLen : Int} {stream : Bytes} (h : stream.length < 5) :
    cut maxLen stream = .noHeader := by
  match stream, h with
  | [], _ => rfl
  | [_], _ => rfl
  | [_, _], _ => rfl
  | [_, _, _], _ => rfl
  | [_, _, _, _], _ => rfl

/-- How a message is streamed: what the copy returns, what was written and where the reader is. -/
def Streamed (r : Except IoError Unit) (written rest : Bytes) : Cut → Prop
  | .noHeader => r = .error earlyEof ∧ written = [] ∧ rest = []
  | .badHeader e tail => r = .error e ∧ written = [] ∧ rest = tail
  | .frame h body tail => r = .ok () ∧ written = h.asBytes ++ body ∧ rest = tail
  | .truncated h body =>
    r = .error earlyEof ∧ rest = [] ∧ ∃ p, p <+: body ∧ written = h.asBytes ++ p

/-- How a message is collected. -/
def Buffered (r : Except IoError RawMessage) (rest : Bytes) : Cut → Prop
  | .noHeader => r = .error earlyEof ∧ rest = []
  | .badHeader e tail => r = .error e ∧ rest = tail
  | .frame h body tail => ∃ m, r = .ok m ∧ m.frame = h.asBytes ++ body ∧ rest = tail
  | .truncated _ _ => r = .error endedMidMessage ∧ rest = []

theorem Streamed.agrees {r : Except IoError Unit} {r' : Except IoError RawMessage}
    {w rest rest' : Bytes} {c : Cut} (hs : Streamed r w rest c) (hb : Buffered r' rest' c) :
    rest = rest' ∧ (r = .ok () ↔ ∃ m, r' = .ok m) ∧ ∀ m, r' = .ok m → w = m.frame := by
  cases c with
  | noHeader =>
    obtain ⟨rfl, rfl, rfl⟩ := hs
    obtain ⟨rfl, rfl⟩ := hb
    exact ⟨rfl, by simp, nofun⟩
  | badHeader e tail =>
    obtain ⟨rfl, rfl, rfl⟩ := hs
    obtain ⟨rfl, rfl⟩ := hb
    exact ⟨rfl, by simp, nofun⟩
  | frame h body tail =>
    obtain ⟨rfl, rfl, rfl⟩ := hs
    obtain ⟨m, rfl, hm, rfl⟩ := hb
    refine ⟨rfl, by simp, ?_⟩
    rintro m' hm'
    cases hm'
    exact hm.symm
  | truncated h body =>
    obtain ⟨rfl, rfl, -⟩ := hs
    obtain ⟨rfl, rfl⟩ := hb
    exact ⟨rfl, by simp, nofun⟩

theorem copyBodyTo_pos {size : Nat} (hs : 0 < size) (h : MessageHeader) (written rest : Bytes)
    (sched : List Nat) :
    h.copyBodyTo size written rest sched = copyLoop size hs h.bodyLen written rest sched := by
  unfold MessageHeader.copyBodyTo
  rw [if_neg (by omega), dif_pos hs]

theorem copyBodyTo_zero (h : MessageHeader) (written rest : Bytes) (sched : List Nat) :
    h.copyBodyTo 0 written rest sched =
      (.done (if h.bodyLen = 0 then .ok () else .error emptyCopyBuffer), written, rest, sched) := by
  unfold MessageHeader.copyBodyTo
  by_cases h0 : h.bodyLen = 0 <;> simp [h0]

theorem streamMessage_done {maxLen : Int} {size : Nat} {stream w rest : Bytes}
    {sched sched' : List Nat} {r : Except IoError Unit} (hs : 0 < size)
    (h : streamMessage maxLen size stream sched = (.done r, w, rest, sched')) :
    Streamed r w rest (cut maxLen stream) := by
  unfold streamMessage at h
  split at h
  · rename_i hd rest₁ sched₁ hh
    rcases readHeader_done hh with ⟨-, he, -⟩ | ⟨t, a, b, c, d, rfl, hp⟩
    · cases he
    rw [copyBodyTo_pos hs] at h
    simp only [cut, ← hp]
    rcases copyLoop_done h with ⟨hle, rfl, rfl, rfl⟩ | ⟨hlt, rfl, rfl, hw⟩
    · rw [if_pos hle]
      exact ⟨rfl, rfl, rfl⟩
    · rw [if_neg (by omega)]
      exact ⟨rfl, rfl, hw⟩
  · rename_i e rest₁ sched₁ hh
    cases h
    rcases readHeader_done hh with ⟨hlt, he, rfl⟩ | ⟨t, a, b, c, d, rfl, hp⟩
    · rw [cut_short hlt]
      cases he
      exact ⟨rfl, rfl, rfl⟩
    · simp only [cut, ← hp]
      exact ⟨rfl, rfl, rfl⟩
  · cases h

theorem readMessageCapped_done {maxLen : Int} {stream rest : Bytes} {sched : List Nat}
    {r : Except IoError RawMessage} (h : readMessageCapped maxLen stream sched = (.done r, rest)) :
    Buffered r rest (cut maxLen stream) := by
  unfold readMessageCapped at h
  split at h
  · rename_i hd rest₁ sched₁ hh
    rcases readHeader_done hh with ⟨-, he, -⟩ | ⟨t, a, b, c, d, rfl, hp⟩
    · cases he
    have hlen : hd.asBytes.length = 5 := rfl
    simp only [cut, ← hp]
    split at h
    · rename_i bs rest₂ sched₂ hb
      obtain ⟨hle, rfl, rfl⟩ := fill_taken hb (by omega)
      rw [hlen, Nat.add_sub_cancel_left] at hle h
      rw [if_pos hle]
      have hm : 5 ≤ (hd.asBytes ++ rest₁.take hd.bodyLen).length := by
        rw [List.length_append]
        omega
      rw [toMessage, dif_pos hm] at h
      cases h
      exact ⟨_, rfl, rfl, rfl⟩
    · rename_i e rest₂ sched₂ hb
      obtain ⟨rfl, rfl, hlt⟩ := fill_error hb (by omega)
      rw [hlen, Nat.add_sub_cancel_left] at hlt
      cases h
      rw [if_neg (by omega)]
      exact ⟨rfl, rfl⟩
    · cases h
  · rename_i e rest₁ sched₁ hh
    cases h
    rcases readHeader_done hh with ⟨hlt, he, rfl⟩ | ⟨t, a, b, c, d, rfl, hp⟩
    · rw [cut_short hlt]
      cases he
      exact ⟨rfl, rfl⟩
    · simp only [cut, ← hp]
      exact ⟨rfl, rfl⟩
  · cases h

theorem streamMessage_ne_pending {maxLen : Int} {size : Nat} {stream : Bytes} {sched : List Nat}
    (hs : 0 < size) (h : stream.length < sched.length) :
    (streamMessage maxLen size stream sched).1 ≠ .pending := by
  unfold streamMessage
  split
  · rename_i hd rest₁ sched₁ hh
    rw [copyBodyTo_pos hs]
    apply copyLoop_ne_pending
    unfold readHeader at hh
    split at hh
    · rename_i he
      obtain ⟨-, rfl, rfl⟩ := by simpa only [Prod.mk.injEq] using hh
      exact fill_ample (by simp) h he
    · cases hh
    · cases hh
    · cases hh
  · nofun
  · rename_i rest₁ sched₁ hh
    unfold readHeader at hh
    split at hh
    · cases hh
    · cases hh
    · cases hh
    · rename_i he
      exact absurd he (fill_ne_pending (by simp) h)

/-- Streaming a message through any scratch is collecting it: the same bytes, the same position and
success in the same cases, whatever the reads of either; without scratch only an empty body is
copied and nothing of a body is read. -/
theorem streaming_eq_buffering (maxLen : Int) (stream : Bytes) :
    (∀ size, 0 < size → ∀ s₁ s₂ : List Nat,
      (stream.length < s₁.length → (streamMessage maxLen size stream s₁).1 ≠ .pending) ∧
      (stream.length < s₂.length → (readMessageCapped maxLen stream s₂).1 ≠ .pending) ∧
      ∀ r w rest s r' rest', streamMessage maxLen size stream s₁ = (.done r, w, rest, s) →
        readMessageCapped maxLen stream s₂ = (.done r', rest') →
        rest = rest' ∧ (r = .ok () ↔ ∃ m, r' = .ok m) ∧ (∀ m, r' = .ok m → w = m.frame) ∧
        ∀ t a b c d body h, stream = t :: a :: b :: c :: d :: body →
          MessageHeader.parse t a b c d maxLen = .ok h → body.length < h.bodyLen →
          (∃ e, r = .error e ∧ e.kind = .unexpectedEof) ∧
            ∃ p, p <+: body ∧ w = h.asBytes ++ p) ∧
    ∀ (h : MessageHeader) (written : Bytes) (sched : List Nat),
      h.copyBodyTo 0 written stream sched =
        (.done (if h.bodyLen = 0 then .ok () else .error emptyCopyBuffer),
          written, stream, sched) := by
  constructor
  · intro size hs s₁ s₂
    refine ⟨streamMessage_ne_pending hs, ?_, ?_⟩
    · intro h
      obtain ⟨r, rest, -, -, hr, -⟩ := readMessageCapped_spec maxLen stream s₂ h
      rw [hr]
      nofun
    · intro r w rest s r' rest' h h'
      have hstreamed := streamMessage_done hs h
      have hbuffered := readMessageCapped_done h'
      obtain ⟨hrest, hok, hframe⟩ := hstreamed.agrees hbuffered
      refine ⟨hrest, hok, hframe, ?_⟩
      intro t a b c d body hd hstream hp hlt
      subst hstream
      simp only [cut, hp, if_neg (Nat.not_le.mpr hlt)] at hstreamed
      obtain ⟨rfl, -, hw⟩ := hstreamed
      exact ⟨⟨earlyEof, rfl, rfl⟩, hw⟩
  · intro h written sched
    exact copyBodyTo_zero h written stream sched

/-- Three bytes of a body through a scratch of two, one byte a read, with a frame behind it. -/
theorem streaming_three_bytes :
    let stream := frame Tag.dataRow [1, 2, 3] ++ frame Tag.readyForQuery [73]
    ∃ s m, streamMessage 16 2 stream (List.replicate 20 0) =
        (.done (.ok ()), frame Tag.dataRow [1, 2, 3], frame Tag.readyForQuery [73], s) ∧
      readMessageCapped 16 stream (List.replicate 20 3) =
        (.done (.ok m), frame Tag.readyForQuery [73]) ∧
      frame Tag.dataRow [1, 2, 3] = m.frame := by
  intro stream
  have h₁ : streamMessage 16 2 stream (List.replicate 20 0) =
      (.done (.ok ()), frame Tag.dataRow [1, 2, 3], frame Tag.readyForQuery [73],
        List.replicate 12 0) := by
    decide +kernel
  have h₂ : readMessageCapped 16 stream (List.replicate 20 3) =
      (.done (.ok (RawMessage.build Tag.dataRow [1, 2, 3])), frame Tag.readyForQuery [73]) := by
    decide +kernel
  refine ⟨_, _, h₁, h₂, ?_⟩
  exact (((streaming_eq_buffering 16 stream).1 2 (by decide) _ _).2.2 _ _ _ _ _ _ h₁ h₂).2.2.1 _ rfl

end RamaPg.Codec
