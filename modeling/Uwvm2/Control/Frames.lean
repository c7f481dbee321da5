import Uwvm2.Control.Protocol

/-!
# Streams of frames

A reader feeds the decoder chunk by chunk, each chunk again and again on the part that was
not consumed, and takes a frame when it is complete. How the stream is cut into chunks makes
no difference: the decoder acts as if the bytes came one by one. A stream of encoded frames
gives back these frames.
-/

namespace Uwvm2.Control

open ByteWord
open List (length_append foldl_cons length_cons cons_ne_nil foldl_append append_nil)

/-- The decoder, and what a reader has got from it. -/
structure Delivery where
  decoder : FrameDecoder := {}
  frames : List (FrameHeader × List UInt8) := []
  consumed : Nat := 0
  firstError : Error := .none

namespace Delivery

def absorb (t : Delivery) (fed : FrameDecoder.FeedResult) (d : FrameDecoder) : Delivery where
  decoder := if fed.status = .none ∧ fed.complete then d.reset else d
  frames := if fed.status = .none ∧ fed.complete then t.frames ++ [(d.decoded, d.payload)]
    else t.frames
  consumed := t.consumed + fed.consumed
  firstError := if t.firstError = .none then fed.status else t.firstError

/-- A chunk is fed until it is consumed or there is an error. Every round consumes a byte. -/
def chunkLoop : Nat → Delivery → List UInt8 → Delivery
  | 0, t, _ => t
  | rounds + 1, t, input =>
    if input.isEmpty then t
    else
      let (fed, d) := t.decoder.feed input
      if fed.status = .none then chunkLoop rounds (t.absorb fed d) (input.drop fed.consumed)
      else t.absorb fed d

def chunk (t : Delivery) (input : List UInt8) : Delivery := chunkLoop input.length t input

end Delivery

-- Bytes one by one

namespace FrameDecoder

variable {d : FrameDecoder}

def settle (d : FrameDecoder) : FrameDecoder :=
  if d.used = headerBytes then
    match decodeHeader (d.storage.take headerBytes) with
    | .error failure => { d with failure }
    | .ok decoded => { d with decoded, target := headerBytes + decoded.payloadBytes }
  else d

def read (d : FrameDecoder) (l : List UInt8) : FrameDecoder :=
  settle { d with storage := d.storage ++ l }

/-- A frame that has begun, or is about to. -/
structure Open (d : FrameDecoder) : Prop where
  failure : d.failure = .none
  lt : d.used < d.target
  phase : d.target = headerBytes ∨ headerBytes ≤ d.used

theorem ready_iff : d.ready = true ↔ d.failure = .none ∧ d.used = d.target ∧
    headerBytes ≤ d.used := by
  simp [ready, and_assoc]

theorem Open.not_ready (h : d.Open) : d.ready = false :=
  Bool.eq_false_iff.mpr fun hready => Nat.ne_of_lt h.lt (ready_iff.mp hready).2.1

theorem open_empty : ({} : FrameDecoder).Open := ⟨rfl, by decide, .inl rfl⟩

theorem decodeHeader_error_ne (h : decodeHeader input = .error e) : e ≠ .none := by
  unfold decodeHeader at h
  repeat' split at h
  all_goals
    cases h
    try decide

theorem Open.read_lt (h : d.Open) (hl : l ≠ []) (hlt : d.used + l.length < d.target) :
    d.read l = { d with storage := d.storage ++ l } ∧ (d.read l).Open := by
  have hpos := List.length_pos_iff.mpr hl
  have hused : (d.storage ++ l).length = d.used + l.length := length_append
  have hne : (d.storage ++ l).length ≠ headerBytes := by
    rcases h.phase with hphase | hphase <;> omega
  have hread : d.read l = { d with storage := d.storage ++ l } := if_neg hne
  refine ⟨hread, ?_⟩
  rw [hread]
  exact ⟨h.failure, lt_of_eq_of_lt hused hlt, h.phase.imp_right fun hphase =>
    Nat.le_trans hphase (Nat.le.intro hused.symm)⟩

theorem Open.read_eq (h : d.Open) (heq : d.used + l.length = d.target) :
    (d.read l).failure ≠ .none ∨ (d.read l).ready = true ∨ (d.read l).Open := by
  have hused : (d.storage ++ l).length = d.used + l.length := length_append
  unfold read settle
  split
  case isTrue hheader =>
    have hheader : (d.storage ++ l).length = headerBytes := hheader
    split
    case h_1 failure hfailed => exact .inl (decodeHeader_error_ne hfailed)
    case h_2 decoded _ =>
      right
      rcases Nat.eq_zero_or_pos decoded.payloadBytes with hzero | hpos
      · left
        exact ready_iff.mpr ⟨h.failure, hheader.trans (by rw [hzero, Nat.add_zero]),
          Nat.le_of_eq hheader.symm⟩
      · right
        exact ⟨h.failure, lt_of_eq_of_lt hheader (Nat.lt_add_of_pos_right hpos),
          .inr (Nat.le_of_eq hheader.symm)⟩
  case isFalse _ =>
    right; left
    refine ready_iff.mpr ⟨h.failure, hused.trans heq, ?_⟩
    show headerBytes ≤ (d.storage ++ l).length
    rcases h.phase with hphase | hphase <;> omega

theorem Open.read_settled (h : d.Open) (hl : l ≠ []) (hle : d.used + l.length ≤ d.target) :
    (d.read l).failure ≠ .none ∨ (d.read l).ready = true ∨ (d.read l).Open := by
  rcases Nat.eq_or_lt_of_le hle with heq | hlt
  · exact h.read_eq heq
  · exact .inr (.inr (h.read_lt hl hlt).2)

theorem Open.feedLoop_succ (h : d.Open) (hinput : input ≠ [])
    (hcount : min input.length (d.target - d.used) = count) (n c : Nat) :
    feedLoop (n + 1) input c d =
      if (d.read (input.take count)).failure = .none then
        feedLoop n (input.drop count) (c + count) (d.read (input.take count))
      else (⟨(d.read (input.take count)).failure, c + count, false⟩,
        d.read (input.take count)) := by
  have hne : ¬(input.isEmpty = true ∨ d.used = d.target) := by
    rintro (hempty | heq)
    · exact hinput (List.isEmpty_iff.mp hempty)
    · exact Nat.ne_of_lt h.lt heq
  simp only [feedLoop, hne, if_false, hcount, read, settle]
  split
  · cases hdecoded : decodeHeader ((d.storage ++ input.take count).take headerBytes) with
    | error failure => simp only [decodeHeader_error_ne hdecoded, if_false]
    | ok decoded => simp only [h.failure, if_true]
  · simp only [h.failure, if_true]

end FrameDecoder

namespace Delivery

variable {t : Delivery}

def after (t : Delivery) (consumed : Nat) (d : FrameDecoder) : Delivery :=
  t.absorb ⟨d.failure, consumed, d.ready⟩ d

def byte (t : Delivery) (b : UInt8) : Delivery :=
  if t.decoder.failure ≠ .none then t else t.after 1 (t.decoder.read [b])

/-- Between two calls: an open frame, or an error that has been seen. -/
def Good (t : Delivery) : Prop :=
  t.decoder.Open ∧ t.firstError = .none ∨ t.decoder.failure ≠ .none ∧ t.firstError ≠ .none

theorem bytes_failed (h : t.decoder.failure ≠ .none) (l : List UInt8) : l.foldl byte t = t := by
  induction l with
  | nil => rfl
  | cons b l ih => rw [foldl_cons, byte, if_pos h, ih]

theorem after_open (h : d.Open) (ht : t.firstError = .none) (c : Nat) :
    t.after c d = { t with decoder := d, consumed := t.consumed + c } := by
  simp [after, absorb, h.not_ready, h.failure, ht]

theorem after_after (c k : Nat) (d d' : FrameDecoder) :
    ({ t with decoder := d, consumed := t.consumed + c } : Delivery).after k d' =
    t.after (c + k) d' := by
  simp [after, absorb, Nat.add_assoc]

theorem after_good (hd : d.failure ≠ .none ∨ d.ready = true ∨ d.Open) (ht : t.firstError = .none)
    (c : Nat) : (t.after c d).Good := by
  rcases hd with hfailed | hready | hopen
  · exact .inr (by simp [after, absorb, hfailed, ht])
  · have hnone := (FrameDecoder.ready_iff.mp hready).1
    have hdecoder : (t.after c d).decoder = {} := if_pos ⟨hnone, hready⟩
    exact .inl ⟨hdecoder ▸ FrameDecoder.open_empty, by simp [after, absorb, hnone, ht]⟩
  · exact .inl (by simp [after_open hopen ht, hopen, ht])

theorem byte_after (h : d.Open) (ht : t.firstError = .none) (c : Nat) (b : UInt8) :
    (t.after c d).byte b = t.after (c + 1) (d.read [b]) := by
  rw [after_open h ht, byte, if_neg (not_not.mpr h.failure), after_after]

/-- Up to the target it makes no difference whether bytes come at once. -/
theorem bytes_read (h : d.Open) (ht : t.firstError = .none) (hl : l ≠ [])
    (hle : d.used + l.length ≤ d.target) (c : Nat) :
    l.foldl byte (t.after c d) = t.after (c + l.length) (d.read l) := by
  induction l generalizing d c with
  | nil => exact absurd rfl hl
  | cons b l ih =>
    rw [foldl_cons, byte_after h ht]
    cases l with
    | nil => rfl
    | cons b' l =>
      rw [length_cons, length_cons] at hle
      obtain ⟨hread, hopen⟩ := h.read_lt (cons_ne_nil b []) (by rw [List.length_singleton]; omega)
      have hused : (d.read [b]).used = d.used + 1 := by rw [hread]; exact length_append
      have htarget : (d.read [b]).target = d.target := by rw [hread]
      rw [ih hopen (cons_ne_nil _ _) (by rw [hused, htarget, length_cons]; omega),
        Nat.add_assoc, Nat.add_comm 1]
      congr 1
      rw [hread, FrameDecoder.read, FrameDecoder.read, List.append_assoc]
      rfl

/-- What `feed` leaves unread can be read after it. -/
theorem feedLoop_bytes (hd : d.ready = true ∨ d.Open) (hlen : input.length ≤ n) (c : Nat) :
    ∃ k d', FrameDecoder.feedLoop n input c d = (⟨d'.failure, c + k, d'.ready⟩, d') ∧
      (d.Open → input ≠ [] → 0 < k) ∧ (d'.failure ≠ .none ∨ d'.ready = true ∨ d'.Open) ∧
      ∀ t : Delivery, t.firstError = .none →
        input.foldl byte (t.after c d) = (input.drop k).foldl byte (t.after (c + k) d') := by
  have hnone : d.failure = .none := by
    rcases hd with hready | hopen
    · exact (FrameDecoder.ready_iff.mp hready).1
    · exact hopen.failure
  induction n generalizing input c d with
  | zero =>
    obtain rfl : input = [] := List.length_eq_zero_iff.mp (Nat.le_zero.mp hlen)
    exact ⟨0, d, by rw [hnone]; rfl, fun _ h => absurd rfl h, .inr hd, fun _ _ => rfl⟩
  | succ n ih =>
    rcases hd with hready | hopen
    · refine ⟨0, d, ?_, fun hopen _ => ?_, .inr (.inl hready), fun _ _ => rfl⟩
      · rw [FrameDecoder.feedLoop, if_pos (.inr (FrameDecoder.ready_iff.mp hready).2.1), hnone]
        rfl
      · rw [hopen.not_ready] at hready
        cases hready
    by_cases hinput : input = []
    · exact ⟨0, d, by rw [FrameDecoder.feedLoop, if_pos (.inl (by rw [hinput]; rfl)), hnone]; rfl,
        fun _ h => absurd hinput h, .inr (.inr hopen), fun _ _ => rfl⟩
    obtain ⟨count, hcount⟩ : ∃ count, min input.length (d.target - d.used) = count := ⟨_, rfl⟩
    have hpos : 0 < count := hcount ▸
      Nat.lt_min.mpr ⟨List.length_pos_iff.mpr hinput, Nat.sub_pos_of_lt hopen.lt⟩
    have hloop := hopen.feedLoop_succ hinput hcount n c
    have htake : (input.take count).length = count := by rw [List.length_take]; omega
    have hne : input.take count ≠ [] := List.ne_nil_of_length_pos (by rwa [htake])
    have hle : d.used + (input.take count).length ≤ d.target := by have := hopen.lt; omega
    have hbytes : ∀ t : Delivery, t.firstError = .none → input.foldl byte (t.after c d) =
        (input.drop count).foldl byte (t.after (c + count) (d.read (input.take count))) := by
      intro t ht
      conv_lhs => rw [← List.take_append_drop count input, foldl_append]
      rw [bytes_read hopen ht hne hle, htake]
    have hsettled := hopen.read_settled hne hle
    generalize d.read (input.take count) = d₁ at hloop hbytes hsettled
    by_cases hfailed : d₁.failure = .none
    · rw [if_pos hfailed] at hloop
      have hshort : (input.drop count).length ≤ n := by rw [List.length_drop]; omega
      obtain ⟨k, d', hrest, -, hsettled', hbytes'⟩ :=
        ih (hsettled.resolve_left (not_not.mpr hfailed))
        hshort (c + count) hfailed
      refine ⟨count + k, d', by rw [hloop, hrest, Nat.add_assoc], fun _ _ => by omega, hsettled',
        fun t ht => ?_⟩
      rw [hbytes t ht, hbytes' t ht, List.drop_drop, Nat.add_assoc]
    · rw [if_neg hfailed] at hloop
      have hnot : d₁.ready = false :=
        Bool.eq_false_iff.mpr fun hready => hfailed (FrameDecoder.ready_iff.mp hready).1
      exact ⟨count, d₁, by rw [hloop, hnot], fun _ _ => hpos, hsettled, hbytes⟩

theorem chunkLoop_eq (h : t.Good) (hlen : input.length ≤ n) :
    chunkLoop n t input = input.foldl byte t := by
  induction n generalizing t input with
  | zero =>
    obtain rfl : input = [] := List.length_eq_zero_iff.mp (Nat.le_zero.mp hlen)
    rfl
  | succ n ih =>
    by_cases hinput : input = []
    · rw [hinput]
      rfl
    rw [chunkLoop, if_neg (by rwa [List.isEmpty_iff])]
    rcases h with ⟨hopen, ht⟩ | ⟨hfailed, ht⟩
    · obtain ⟨k, d', hfeed, hk, hsettled, hbytes⟩ :=
        feedLoop_bytes (.inr hopen) (Nat.le_refl input.length) 0
      have ht₀ : t.after 0 t.decoder = t := after_open hopen ht 0
      rw [← ht₀, hbytes t ht, ht₀, FrameDecoder.feed, if_neg (not_not.mpr hopen.failure),
        if_neg (Bool.eq_false_iff.mp hopen.not_ready), hfeed, Nat.zero_add]
      show (if d'.failure = .none then chunkLoop n (t.after k d')
        (input.drop k) else t.after k d') = _
      have hk := hk hopen hinput
      split
      · exact ih (after_good hsettled ht k) (by rw [List.length_drop]; omega)
      · next hfailed => exact (bytes_failed (by simp [after, absorb, hfailed]) _).symm
    · rw [bytes_failed hfailed, FrameDecoder.feed, if_pos hfailed]
      show (if t.decoder.failure = .none then _ else t.absorb ⟨t.decoder.failure, 0, false⟩
        t.decoder) = t
      simp [hfailed, absorb, ht]

theorem chunk_eq (h : t.Good) (input : List UInt8) : t.chunk input = input.foldl byte t :=
  chunkLoop_eq h (Nat.le_refl _)

theorem byte_good (h : t.Good) (b : UInt8) : (t.byte b).Good := by
  unfold byte
  split
  · exact h
  · next hnone =>
    obtain ⟨hopen, ht⟩ := h.resolve_right fun hfailed => hnone hfailed.1
    exact after_good (hopen.read_settled (cons_ne_nil b []) hopen.lt) ht 1

theorem bytes_good (h : t.Good) (l : List UInt8) : (l.foldl byte t).Good := by
  induction l generalizing t with
  | nil => exact h
  | cons b l ih => exact ih (byte_good h b)

theorem chunks_eq (h : t.Good) (chunks : List (List UInt8)) :
    chunks.foldl chunk t = chunks.flatten.foldl byte t := by
  induction chunks generalizing t with
  | nil => rfl
  | cons input chunks ih =>
    rw [foldl_cons, chunk_eq h, ih (bytes_good h input), List.flatten_cons, foldl_append]

theorem empty_good : ({} : Delivery).Good := .inl ⟨FrameDecoder.open_empty, rfl⟩

theorem bytes_consumed {l : List UInt8} (h : (l.foldl byte t).firstError = .none) (ht : t.Good) :
    (l.foldl byte t).consumed = t.consumed + l.length := by
  induction l generalizing t with
  | nil => rfl
  | cons b l ih =>
    rw [foldl_cons] at h ⊢
    have hstep : (t.byte b).consumed = t.consumed + 1 := by
      unfold byte
      split
      · next hfailed =>
        obtain ⟨hfailed, hne⟩ := ht.resolve_left fun hopen => hfailed hopen.1.failure
        rw [byte, if_pos hfailed, bytes_failed hfailed] at h
        exact absurd h hne
      · rfl
    rw [ih h (byte_good ht b), hstep, length_cons]
    omega

/-- The way a stream is cut into chunks makes no difference, and nothing comes after an error. -/
theorem chunks_flatten (chunks : List (List UInt8)) :
    chunks.foldl chunk {} = chunk {} chunks.flatten ∧
      ((chunk {} chunks.flatten).firstError = .none →
        (chunk {} chunks.flatten).consumed = chunks.flatten.length) ∧
      ∀ more, (chunks.foldl chunk {}).firstError ≠ .none →
        ((chunks ++ more).foldl chunk {}).frames = (chunks.foldl chunk {}).frames := by
  rw [chunks_eq empty_good, chunk_eq empty_good]
  refine ⟨rfl, fun h => ?_, fun more hfailed => ?_⟩
  · rw [bytes_consumed h empty_good]
    exact Nat.zero_add _
  · obtain ⟨hdecoder, -⟩ := (bytes_good empty_good chunks.flatten).resolve_left fun h => hfailed h.2
    rw [foldl_append, chunks_eq empty_good, chunks_eq (bytes_good empty_good _),
      bytes_failed hdecoder]

end Delivery

-- Encoded frames

/-- The ranges of the source's types. -/
structure FrameHeader.Typed (header : FrameHeader) : Prop where
  instanceId : header.instanceId.length = 16
  generation : header.generation < 2 ^ 64
  requestId : header.requestId < 2 ^ 64

theorem ofCode_code (command : Operation) : Operation.ofCode command.code = some command := by
  cases command <;> rfl

theorem code_lt (command : Operation) : command.code < 256 ^ 2 := by
  cases command <;> decide

theorem length_encodeHeader (h : header.Typed) : (encodeHeader header).length = headerBytes := by
  simp [encodeHeader, h.instanceId, headerBytes]

theorem decodeHeader_encodeHeader (h : header.Typed)
    (hpayload : header.payloadBytes ≤ maxPayloadBytes) (hgeneration : header.generation ≠ 0)
    (hrequest : header.requestId ≠ 0) : decodeHeader (encodeHeader header) = .ok header := by
  have hinstance : ((encodeHeader header).drop 16).take 16 = header.instanceId := by
    have hsplit : encodeHeader header = (ByteWord.bytes 4 frameMagic ++ ByteWord.bytes 2 1 ++
        ByteWord.bytes 2 header.command.code ++ ByteWord.bytes 4 header.payloadBytes ++
        ByteWord.bytes 4 0) ++ (header.instanceId ++ (ByteWord.bytes 8 header.generation ++
          ByteWord.bytes 8 header.requestId)) := by
      simp [encodeHeader]
    rw [hsplit, List.drop_left' (by simp), List.take_left' h.instanceId]
  have hlong := length_encodeHeader h
  have hmax : header.payloadBytes < 256 ^ 4 := Nat.lt_of_le_of_lt hpayload (by decide)
  have hword : at_ (encodeHeader header) 0 4 = frameMagic ∧
      at_ (encodeHeader header) 4 2 = 1 ∧
      at_ (encodeHeader header) 6 2 = header.command.code ∧
      at_ (encodeHeader header) 8 4 = header.payloadBytes ∧
      at_ (encodeHeader header) 12 4 = 0 ∧
      at_ (encodeHeader header) 32 8 = header.generation ∧
      at_ (encodeHeader header) 40 8 = header.requestId := by
    simp [encodeHeader, at_append_left, at_append_right, value_bytes, h.instanceId]
    refine ⟨by decide, code_lt header.command, hmax, h.generation, ?_⟩
    rw [at_, List.drop_zero, List.take_of_length_le (by simp), value_bytes]
    exact Nat.mod_eq_of_lt h.requestId
  obtain ⟨hmagic, hversion, hcommand, hbytes, hreserved, hgen, hreq⟩ := hword
  simp [decodeHeader, hmagic, hversion, hcommand, hbytes, hreserved, hgen, hreq, hinstance, hlong,
    ofCode_code, hgeneration, hrequest, Nat.not_lt.mpr hpayload]

/-- `output` is what `encode_frame` makes of a frame. -/
def Encodes (frame : FrameHeader × List UInt8) (output : List UInt8) : Prop :=
  frame.1.Typed ∧ ∃ capacity, encodeFrame frame.1 frame.2 capacity =
    (⟨.none, output.length⟩, output)

theorem encodeFrame_ok (h : encodeFrame header payload capacity = (⟨.none, n⟩, output)) :
    payload.length ≤ maxPayloadBytes ∧ header.generation ≠ 0 ∧ header.requestId ≠ 0 ∧
      header.payloadBytes = payload.length ∧ output = encodeHeader header ++ payload := by
  simp only [encodeFrame] at h
  split at h
  · cases h
  next hmax =>
  split at h
  · cases h
  next hwell =>
  simp only [not_or, not_not] at hwell
  split at h
  · cases h
  · cases h
    exact ⟨Nat.le_of_not_lt hmax, hwell.1, hwell.2.1, hwell.2.2, rfl⟩

def holding (header : FrameHeader) (part : List UInt8) : FrameDecoder where
  storage := encodeHeader header ++ part
  target := headerBytes + header.payloadBytes
  decoded := header

theorem read_encodeHeader (h : header.Typed)
    (hdecoded : decodeHeader (encodeHeader header) = .ok header) :
    ({} : FrameDecoder).read (encodeHeader header) = holding header [] := by
  have hlong := length_encodeHeader h
  have htake : (encodeHeader header).take headerBytes = encodeHeader header := by
    rw [← hlong, List.take_length]
  simp only [FrameDecoder.read, FrameDecoder.settle, FrameDecoder.used,
    List.nil_append, hlong, if_true, htake, hdecoded, holding, append_nil]

theorem read_payload (h : header.Typed) (hpayload : header.payloadBytes = payload.length)
    {t : Delivery} (ht : t.firstError = .none) (c : Nat) :
    payload.foldl Delivery.byte (t.after c (holding header [])) =
      t.after (c + payload.length) (holding header payload) := by
  cases payload with
  | nil => rfl
  | cons b payload =>
    have hused : (holding header []).used = headerBytes := by
      rw [FrameDecoder.used, holding, append_nil, length_encodeHeader h]
    have htarget : (holding header []).target = headerBytes + (b :: payload).length := by
      rw [holding, hpayload]
    have hopen : (holding header []).Open :=
      ⟨rfl, by rw [hused, htarget, length_cons]; omega, .inr (Nat.le_of_eq hused.symm)⟩
    rw [Delivery.bytes_read hopen ht (cons_ne_nil b payload)
      (Nat.le_of_eq (by rw [hused, htarget]))]
    have hread : (holding header []).read (b :: payload) = holding header (b :: payload) := by
      simp only [FrameDecoder.read, FrameDecoder.settle, FrameDecoder.used, holding, append_nil,
        length_append, length_encodeHeader h, length_cons]
      exact if_neg (by omega)
    rw [hread]

theorem ready_holding (h : header.Typed) (hpayload : header.payloadBytes = payload.length) :
    (holding header payload).ready = true := by
  have hused : (holding header payload).used = headerBytes + payload.length := by
    rw [FrameDecoder.used, holding, length_append, length_encodeHeader h]
  exact FrameDecoder.ready_iff.mpr ⟨rfl, by rw [hused, holding, hpayload], by rw [hused]; omega⟩

theorem after_ready {t : Delivery} (hd : d.ready = true) (ht : t.firstError = .none)
    (hfresh : t.decoder = {}) (c : Nat) :
    t.after c d = { t with
      frames := t.frames ++ [(d.decoded, d.payload)], consumed := t.consumed + c } := by
  have hnone := (FrameDecoder.ready_iff.mp hd).1
  simp only [Delivery.after, Delivery.absorb, hnone, hd, and_self, if_true, ht, hfresh]
  rfl

theorem Encodes.bytes {output : List UInt8} (h : Encodes frame output) (hd : t.decoder = {})
    (ht : t.firstError = .none) :
    output.foldl Delivery.byte t =
      { t with frames := t.frames ++ [frame], consumed := t.consumed + output.length } := by
  obtain ⟨header, payload⟩ := frame
  obtain ⟨htyped, capacity, hencode⟩ := h
  obtain ⟨hmax, hgeneration, hrequest, hpayload, rfl⟩ := encodeFrame_ok hencode
  have hlong := length_encodeHeader htyped
  have hne : encodeHeader header ≠ [] := List.ne_nil_of_length_pos (by rw [hlong]; decide)
  have hheader := read_encodeHeader htyped
    (decodeHeader_encodeHeader htyped (hpayload ▸ hmax) hgeneration hrequest)
  have hready := ready_holding htyped hpayload
  have hfresh : t.after 0 {} = t := by
    rw [Delivery.after_open FrameDecoder.open_empty ht, ← hd]
    rfl
  have hframe : (holding header payload).payload = payload := by
    rw [FrameDecoder.payload, if_pos hready]
    exact List.drop_left' hlong
  rw [foldl_append]
  conv_lhs => rw [← hfresh]
  rw [Delivery.bytes_read FrameDecoder.open_empty ht hne (by rw [hlong]; decide), hheader,
    read_payload htyped hpayload ht, after_ready hready ht hd, hframe, Nat.zero_add, length_append]
  rfl

theorem frames_bytes (h : List.Forall₂ Encodes frames outputs) (hd : t.decoder = {})
    (ht : t.firstError = .none) :
    outputs.flatten.foldl Delivery.byte t =
      { t with frames := t.frames ++ frames, consumed := t.consumed + outputs.flatten.length } := by
  induction h generalizing t with
  | nil => simp
  | cons hframe _ ih =>
    rw [List.flatten_cons, foldl_append, hframe.bytes hd ht]
    refine (ih ?_ ?_).trans ?_
    · exact hd
    · exact ht
    · simp [Nat.add_assoc]

/-- A stream of encoded frames gives back these frames. -/
theorem frames_encoded {frames : List (FrameHeader × List UInt8)} {outputs : List (List UInt8)}
    (h : List.Forall₂ Encodes frames outputs) :
    let t := Delivery.chunk {} outputs.flatten
    t.frames = frames ∧ t.firstError = .none ∧ t.consumed = outputs.flatten.length := by
  rw [Delivery.chunk_eq Delivery.empty_good, frames_bytes h rfl rfl]
  exact ⟨rfl, rfl, Nat.zero_add _⟩

theorem frames_encoded_two : let header : FrameHeader := { generation := 1, requestId := 1 }
    let frames := [({ header with payloadBytes := 1 }, [7]), (header, [])]
    let outputs := frames.map fun frame => (encodeFrame frame.1 frame.2 64).2
    (Delivery.chunk {} outputs.flatten).frames = frames :=
  (frames_encoded (.cons ⟨⟨rfl, by decide, by decide⟩, 64, rfl⟩
    (.cons ⟨⟨rfl, by decide, by decide⟩, 64, rfl⟩ .nil))).1

end Uwvm2.Control
