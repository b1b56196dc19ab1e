import Mathlib.Data.List.Infix
import Psbox.DBus.Conn
import Psbox.DBus.NoPanic.Messages

/-!
# D-Bus Framing

`read_one` and `recvmsg` of `dbus/conn.rs`: messages are taken from the bytes and the
descriptors read so far, and more is read while no message is whole.

The reads are given as the chunks that the socket delivers. For messages with valid
headers whose descriptors come no later than their last byte, `reads_frames` says that
the chunks do not matter: each result is that of its own message.
-/

namespace Psbox.DBus

open Psbox.Foundations (bind_eq_ok)

/-! ## Section 1: Reading -/

/-- Descriptors accepted per received chunk. -/
def maxFdsPerChunk : Nat := 253

/-- What one `recvmsg` delivers; no bytes are the end of the stream. -/
structure Chunk where
  bytes : List UInt8
  fds : List Fd

/-- What is read and belongs to no message yet: `buf` and `fds` of `ReadState`. -/
structure Unread where
  buf : List UInt8 := []
  fds : List Fd := []

/-- Why reading ends. -/
inductive ReadFault where
  | invalid (e : DecodeError)
  | missingDescriptors
  | truncatedDescriptors
  | closed
  /-- The code panics or does not return. -/
  | stuck
  deriving DecidableEq, Repr

/-- An error of the decoder that the code reports. -/
def invalid {α : Type} : Except Failure α → Except ReadFault α
  | .ok a => .ok a
  | .error (.reported e) => .error (.invalid e)
  | .error .panicked | .error .diverged => .error .stuck

/-- `recvmsg`: how many bytes came, and what is there then. -/
def recvmsg (st : Unread) (c : Chunk) : Except ReadFault (Nat × Unread) :=
  if maxFdsPerChunk < c.fds.length then .error .truncatedDescriptors
  else .ok (c.bytes.length, { buf := st.buf ++ c.bytes, fds := st.fds ++ c.fds })

/-- A message from its bytes and its descriptors, once its header has been read. -/
def arrival (header : Message) (raw : List UInt8) (fds : List Fd) : Except ReadFault Arrival :=
  match Message.parse raw with
  | .ok m => .ok (.message m fds)
  | .error (.reported e) =>
      .ok (.undecodable { message := { header with body := [], signature := [] }, reason := e })
  | .error .panicked | .error .diverged => .error .stuck

/-- One pass over what has been read: the first message and what is after it, or `none`
while it is not whole. -/
def takeFrame (st : Unread) : Except ReadFault (Option (Arrival × Unread)) :=
  if st.buf.length < 16 then .ok none
  else do
    let total ← invalid (frameLen (st.buf.take 16))
    if st.buf.length < total then .ok none
    else do
      let raw := st.buf.take total
      let (header, _) ← invalid (Message.parseHeader raw)
      let n := header.unixFds.toNat
      if st.fds.length < n then .error .missingDescriptors
      else do
        let a ← arrival header raw (st.fds.take n)
        .ok (some (a, { buf := st.buf.drop total, fds := st.fds.drop n }))

/-- The loop of `read_one`, over the chunks to come. Returns those it has not read. -/
def readOne : List Chunk → Unread → Except ReadFault (Arrival × Unread × List Chunk)
  | chunks, st => do
      match ← takeFrame st with
      | some (a, st) => .ok (a, st, chunks)
      | none =>
          match chunks with
          | [] => .error .closed
          | c :: chunks => do
              let (n, st) ← recvmsg st c
              if n = 0 then .error .closed else readOne chunks st

/-- What `n` calls of `read_one` return, one after the other, until one fails. -/
def reads : Nat → List Chunk → Unread → Except ReadFault (List Arrival × Unread × List Chunk)
  | 0, chunks, st => .ok ([], st, chunks)
  | n + 1, chunks, st => do
      let (a, st, chunks) ← readOne chunks st
      let (as, st, chunks) ← reads n chunks st
      .ok (a :: as, st, chunks)

/-! ## Section 2: Frames -/

/-- The bytes of a message with a valid header, and as many descriptors as it names. -/
structure Frame where
  raw : List UInt8
  fds : List Fd
  header : Message
  big : Bool
  valid : Message.parseHeader raw = .ok (header, big)
  counted : fds.length = header.unixFds.toNat

namespace Frame

/-- What `read_one` makes of the frame. -/
def result (f : Frame) : Except ReadFault Arrival :=
  arrival f.header f.raw f.fds

end Frame

/-- A valid header names the length of its message. -/
theorem frameLen_of_parseHeader {raw : List UInt8} {header : Message} {big : Bool}
    (h : Message.parseHeader raw = .ok (header, big)) :
    16 ≤ raw.length ∧ frameLen (raw.take 16) = .ok raw.length := by
  unfold Message.parseHeader at h
  split at h
  · cases h
  rename_i hlong
  obtain ⟨total, htotal, h⟩ := bind_eq_ok h
  split at h
  · cases h
  rename_i hlen
  rw [ne_eq, not_not] at hlen
  exact ⟨by omega, hlen ▸ htotal⟩

/-! ## Section 3: Cutting a Stream into Chunks -/

def allBytes (chunks : List Chunk) : List UInt8 :=
  chunks.flatMap Chunk.bytes

def allFds (chunks : List Chunk) : List Fd :=
  chunks.flatMap Chunk.fds

/-- The chunks deliver, behind what is read already, the frames and then anything, with
the descriptors of each frame no later than its last byte. -/
structure Delivers (frames : List Frame) (tail : List UInt8) (tailFds : List Fd) (st : Unread)
    (chunks : List Chunk) : Prop where
  bytes : st.buf ++ allBytes chunks = frames.flatMap Frame.raw ++ tail
  fds : st.fds ++ allFds chunks = frames.flatMap Frame.fds ++ tailFds
  onTime : ∀ read, read <+: chunks → ∀ whole, whole <+: frames →
    (whole.flatMap Frame.raw).length ≤ (st.buf ++ allBytes read).length →
      (whole.flatMap Frame.fds).length ≤ (st.fds ++ allFds read).length
  /-- The socket neither ends nor delivers more descriptors than fit. -/
  open_ : ∀ c ∈ chunks, c.bytes ≠ [] ∧ c.fds.length ≤ maxFdsPerChunk

namespace Delivers

variable {f : Frame} {frames : List Frame} {tail : List UInt8} {tailFds : List Fd} {st : Unread}
  {chunks : List Chunk} {c : Chunk}

/-- Reading a chunk moves it to what is read. -/
theorem recv (h : Delivers frames tail tailFds st (c :: chunks)) :
    recvmsg st c = .ok (c.bytes.length, ⟨st.buf ++ c.bytes, st.fds ++ c.fds⟩) ∧
      c.bytes.length ≠ 0 ∧ Delivers frames tail tailFds ⟨st.buf ++ c.bytes, st.fds ++ c.fds⟩ chunks := by
  obtain ⟨hne, hfew⟩ := h.open_ c List.mem_cons_self
  refine ⟨?_, by simpa using hne, ?_⟩
  -- The chunk is not empty and not too large, as the stream stays open.
  · unfold recvmsg
    rw [if_neg (by omega)]
  constructor
  case bytes =>
    rw [← h.bytes]
    simp [allBytes]
  case fds =>
    rw [← h.fds]
    simp [allFds]
  -- A descriptor that is late for a frame behind the chunk is late for it here.
  case onTime =>
    intro read hread whole hwhole hle
    have hlate := h.onTime (c :: read) (List.cons_prefix_cons.mpr ⟨rfl, hread⟩) whole hwhole
    simp only [allBytes, allFds, List.flatMap_cons, ← List.append_assoc] at hlate hle ⊢
    exact hlate hle
  case open_ =>
    intro d hd
    exact h.open_ d (List.mem_cons_of_mem c hd)

/-- While the first frame is not whole, there is nothing to take. -/
theorem takeFrame_none (h : Delivers (f :: frames) tail tailFds st chunks)
    (hshort : st.buf.length < f.raw.length) : takeFrame st = .ok none := by
  obtain ⟨hlong, hlen⟩ := frameLen_of_parseHeader f.valid
  unfold takeFrame
  -- Without 16 bytes the length is not known.
  by_cases hprefix : st.buf.length < 16
  · rw [if_pos hprefix]
  -- The first 16 bytes are the frame's own, and name its length.
  have htake : st.buf.take 16 = f.raw.take 16 := by
    have hbytes := congrArg (List.take 16) h.bytes
    rw [List.flatMap_cons, List.append_assoc, List.take_append_of_le_length (by omega),
      List.take_append_of_le_length hlong] at hbytes
    exact hbytes
  rw [if_neg hprefix, htake, hlen]
  show (if st.buf.length < f.raw.length then _ else _) = _
  rw [if_pos hshort]

/-- Once the first frame is whole it is taken, with its own descriptors, and the rest of
what is read stays. -/
theorem takeFrame_some (h : Delivers (f :: frames) tail tailFds st chunks)
    (hwhole : f.raw.length ≤ st.buf.length) :
    takeFrame st = (do
      let a ← f.result
      .ok (some (a, ⟨st.buf.drop f.raw.length, st.fds.drop f.fds.length⟩))) ∧
      Delivers frames tail tailFds ⟨st.buf.drop f.raw.length, st.fds.drop f.fds.length⟩ chunks := by
  obtain ⟨hlong, hlen⟩ := frameLen_of_parseHeader f.valid
  -- The bytes of the frame are the first that are there.
  have hraw : st.buf.take f.raw.length = f.raw := by
    have hbytes := congrArg (List.take f.raw.length) h.bytes
    rwa [List.flatMap_cons, List.append_assoc, List.take_append_of_le_length hwhole,
      List.take_left] at hbytes
  -- When its bytes are all there, so are its descriptors.
  have hcome : f.fds.length ≤ st.fds.length := by
    have hlate := h.onTime [] List.nil_prefix [f] (List.cons_prefix_cons.mpr ⟨rfl, List.nil_prefix⟩)
    simpa [allBytes, allFds, hwhole] using hlate
  have hfds : st.fds.take f.fds.length = f.fds := by
    have hall := congrArg (List.take f.fds.length) h.fds
    rwa [List.flatMap_cons, List.append_assoc, List.take_append_of_le_length hcome,
      List.take_left] at hall
  have htake : st.buf.take 16 = f.raw.take 16 := by
    rw [← hraw, List.take_take, Nat.min_eq_left hlong]
  constructor
  · unfold takeFrame
    rw [if_neg (by omega), htake, hlen]
    show (if st.buf.length < f.raw.length then _ else _) = _
    rw [if_neg (by omega), hraw, f.valid]
    show (if st.fds.length < f.header.unixFds.toNat then _ else _) = _
    rw [← f.counted, if_neg (by omega), hfds]
    rfl
  · have hbuf : f.raw ++ st.buf.drop f.raw.length = st.buf := by
      conv_rhs => rw [← List.take_append_drop f.raw.length st.buf, hraw]
    -- Its own descriptors are taken, those behind it stay.
    have hdrop : f.fds ++ st.fds.drop f.fds.length = st.fds := by
      conv_rhs => rw [← List.take_append_drop f.fds.length st.fds, hfds]
    constructor
    case bytes =>
      have hbytes := h.bytes
      rw [← hbuf, List.flatMap_cons, List.append_assoc, List.append_assoc] at hbytes
      exact List.append_cancel_left hbytes
    case fds =>
      have hall := h.fds
      rw [← hdrop, List.flatMap_cons, List.append_assoc, List.append_assoc] at hall
      exact List.append_cancel_left hall
    -- What was on time for the frames behind it is so without it.
    case onTime =>
      intro read hread whole hprefix hle
      have hlate := h.onTime read hread (f :: whole) (List.cons_prefix_cons.mpr ⟨rfl, hprefix⟩)
      have hbufLen := congrArg List.length hbuf
      have hfdsLen := congrArg List.length hdrop
      simp only [List.flatMap_cons, List.length_append] at hlate hle hbufLen hfdsLen ⊢
      omega
    case open_ =>
      exact h.open_

end Delivers

/-! ## Section 4: The Chunks Do Not Matter -/

/-- `read_one` returns the result of the first frame, and leaves everything behind it. -/
theorem readOne_frame {f : Frame} {frames : List Frame} {tail : List UInt8} {tailFds : List Fd}
    {chunks : List Chunk} {st : Unread} (h : Delivers (f :: frames) tail tailFds st chunks) :
    ∃ st' chunks', Delivers frames tail tailFds st' chunks' ∧
      readOne chunks st = (do let a ← f.result; .ok (a, st', chunks')) := by
  -- By induction over the chunks to come.
  induction chunks generalizing st with
  | nil =>
      -- Everything is read, so the frame is whole.
      have hwhole : f.raw.length ≤ st.buf.length := by
        have hbytes := congrArg List.length h.bytes
        simp [allBytes] at hbytes
        omega
      obtain ⟨htake, hrest⟩ := h.takeFrame_some hwhole
      refine ⟨_, _, hrest, ?_⟩
      unfold readOne
      rw [htake]
      cases f.result <;> rfl
  | cons c chunks ih =>
      -- The frame may be whole before anything is read.
      by_cases hwhole : f.raw.length ≤ st.buf.length
      · obtain ⟨htake, hrest⟩ := h.takeFrame_some hwhole
        refine ⟨_, _, hrest, ?_⟩
        unfold readOne
        rw [htake]
        cases f.result <;> rfl
      -- Otherwise one chunk is read, and the frame is the same.
      · obtain ⟨hrecv, hne, hrest⟩ := h.recv
        obtain ⟨st', chunks', hrest', hread⟩ := ih hrest
        refine ⟨st', chunks', hrest', ?_⟩
        rw [← hread]
        conv_lhs => unfold readOne
        rw [h.takeFrame_none (by omega)]
        show (recvmsg st c >>= _) = _
        rw [hrecv]
        show (if c.bytes.length = 0 then _ else _) = _
        rw [if_neg hne]

/-- However the stream is cut, the results are those of the frames, each with its own
descriptors, and what comes after the frames is left. -/
theorem reads_frames {frames : List Frame} {tail : List UInt8} {tailFds : List Fd}
    {chunks : List Chunk} {st : Unread} (h : Delivers frames tail tailFds st chunks) :
    ∃ st' chunks', Delivers [] tail tailFds st' chunks' ∧
      reads frames.length chunks st =
        (do let as ← frames.mapM Frame.result; .ok (as, st', chunks')) := by
  -- By induction over the frames; what one call leaves is what the next one finds.
  induction frames generalizing st chunks with
  | nil => exact ⟨st, chunks, h, rfl⟩
  | cons f frames ih =>
      obtain ⟨st₁, chunks₁, hrest, hread⟩ := readOne_frame h
      obtain ⟨st', chunks', hrest', hreads⟩ := ih hrest
      refine ⟨st', chunks', hrest', ?_⟩
      simp only [List.length_cons, reads, hread, List.mapM_cons]
      cases f.result with
      | error e => rfl
      | ok a =>
          show (reads frames.length chunks₁ st₁ >>= _) = _
          rw [hreads]
          cases frames.mapM Frame.result <;> rfl

/-- What `read_one` makes of a frame, from its own bytes and descriptors: its message with
all of these, or its header when the body cannot be decoded. -/
inductive Frame.Gives (f : Frame) : Arrival → Prop where
  | message {m : Message} (h : Message.parse f.raw = .ok m) : Gives f (.message m f.fds)
  | undecodable {e : DecodeError} (h : Message.parse f.raw = .error (.reported e)) :
      Gives f (.undecodable { message := { f.header with body := [], signature := [] }, reason := e })

/-- Every frame gives something: a message, or one that cannot be decoded. -/
theorem Frame.exists_gives (f : Frame) : ∃ a, f.Gives a ∧ f.result = .ok a := by
  unfold Frame.result arrival
  cases h : Message.parse f.raw with
  | ok m => exact ⟨_, .message h, rfl⟩
  | error e =>
      -- Decoding ends with nothing but an error that is reported.
      obtain ⟨why, rfl⟩ := (Checked.parse_fair f.raw).safe e h
      exact ⟨_, .undecodable h, rfl⟩

theorem exists_gives_all (frames : List Frame) :
    ∃ as, List.Forall₂ Frame.Gives frames as ∧ frames.mapM Frame.result = .ok as := by
  induction frames with
  | nil => exact ⟨[], .nil, rfl⟩
  | cons f frames ih =>
      obtain ⟨a, hgives, hresult⟩ := f.exists_gives
      obtain ⟨as, hall, hresults⟩ := ih
      refine ⟨a :: as, .cons hgives hall, ?_⟩
      rw [List.mapM_cons, hresult, hresults]
      rfl

/-- The results of `read_one` are those of the frames, whatever was read before, however
the bytes are cut and whatever comes behind, which is left as it is. -/
theorem read_one_frames (frames : List Frame) : ∃ as, List.Forall₂ Frame.Gives frames as ∧
    ∀ tail tailFds st chunks, Delivers frames tail tailFds st chunks →
      ∃ st' chunks', reads frames.length chunks st = .ok (as, st', chunks') ∧
        st'.buf ++ allBytes chunks' = tail ∧ st'.fds ++ allFds chunks' = tailFds := by
  obtain ⟨as, hgives, hresults⟩ := exists_gives_all frames
  refine ⟨as, hgives, ?_⟩
  intro tail tailFds st chunks h
  obtain ⟨st', chunks', hrest, hreads⟩ := reads_frames h
  rw [hresults] at hreads
  exact ⟨st', chunks', hreads, hrest.bytes, hrest.fds⟩

/-- A message of one value of the type `code`, with the body of a number. -/
def rawMessage (code : UInt8) : List UInt8 :=
  [108, 4, 1, 1, 4, 0, 0, 0, 7, 0, 0, 0, 16, 0, 0, 0, 8, 1, 103, 0, 1, code, 0, 0, 9, 1, 117, 0, 1, 0, 0,
    0, 9, 0, 0, 0]

def rawHeader (code : Char) : Message :=
  { kind := 4, flags := 1, serial := 7, signature := [code], unixFds := 1, body := [9, 0, 0, 0] }

/-- A message that is no string, as it says, and one that is the number it says. -/
def badThenGood : List Frame :=
  [{ raw := rawMessage 115, fds := [3], header := rawHeader 's', big := false,
     valid := by decide +kernel, counted := rfl },
   { raw := rawMessage 117, fds := [4], header := rawHeader 'u', big := false,
     valid := by decide +kernel, counted := rfl }]

/-- The first message is cut, and both descriptors come with its end. -/
def cutInThree : List Chunk :=
  [{ bytes := (rawMessage 115).take 10, fds := [] },
   { bytes := (rawMessage 115).drop 10 ++ (rawMessage 117).take 20, fds := [3, 4] },
   { bytes := (rawMessage 117).drop 20, fds := [] }]

theorem read_one_frames_example : ∃ as st' chunks', List.Forall₂ Frame.Gives badThenGood as ∧
    reads 2 cutInThree {} = .ok (as, st', chunks') ∧ st'.buf ++ allBytes chunks' = [] := by
  obtain ⟨as, hgives, hreads⟩ := read_one_frames badThenGood
  have honTime : ∀ read ∈ cutInThree.inits, ∀ whole ∈ badThenGood.inits,
      (whole.flatMap Frame.raw).length ≤ (allBytes read).length →
        (whole.flatMap Frame.fds).length ≤ (allFds read).length := by
    decide +kernel
  have hdelivers : Delivers badThenGood [] [] {} cutInThree := by
    constructor
    case bytes =>
      rfl
    case fds =>
      rfl
    case onTime =>
      intro read hread whole hwhole
      exact honTime read ((List.mem_inits ..).mpr hread) whole ((List.mem_inits ..).mpr hwhole)
    case open_ =>
      decide +kernel
  obtain ⟨st', chunks', hok, hbytes, _⟩ := hreads _ _ _ _ hdelivers
  exact ⟨as, st', chunks', hgives, hok, hbytes⟩

/-- The connection whose socket delivers what `read_one` makes of the frames returns these, in
order. -/
theorem recvs_frames {frames : List Frame} {as : List Arrival} {turns : List Turn}
    (hgives : List.Forall₂ Frame.Gives frames as) (hturns : turns.map Turn.arrival = as) :
    ReadState.recvs frames.length { incoming := turns } = as.map Arrival.result := by
  -- A turn delivers what one frame gives.
  have hlen : frames.length = turns.length := by
    rw [hgives.length_eq, ← hturns, List.length_map]
  have hall := ReadState.recvs_all { incoming := turns }
  rw [List.length_nil, Nat.zero_add, List.map_nil, List.nil_append] at hall
  rw [hlen, hall, ← hturns, List.map_map]
  rfl

end Psbox.DBus
