import Psbox.Decorations.WireRoundTrip
import Psbox.Foundations.Runs

/-!
# What the Proxy Writes to the Bridge

`Socket::send` and `Socket::flush` (`decorations/wire.rs`) over `send_stream`
(`sys/fd.rs`). A descriptor waits with the offset in the stream of the message that
carries it, and goes with a write that starts no later.

The kernel's answers to the writes are given with each flush. What is proved is about
every run of sends and flushes: which descriptors have left when, and that the stream
is made of the messages sent. The last fails where a message with padding is queued
behind a part of another one.
-/

namespace Psbox.Decorations

open Psbox.Foundations

variable {δ : Type}

/-! ## Section 1: The Socket -/

/-- The most descriptors that go with one write. -/
def streamMaxFds : Nat := 28

/-- The side of the connection that is written. -/
structure Socket (δ : Type) where
  outgoing : List UInt8 := []
  /-- Descriptors waiting to go out, each with the stream offset of the message that
  carries it. -/
  outgoingFds : List (Nat × δ) := []
  /-- Bytes written to the socket so far. -/
  written : Nat := 0
  deriving DecidableEq, Repr

/-- What the kernel does with a write. -/
inductive Kernel where
  /-- It takes `n + 1` bytes, or all when there are fewer. -/
  | takes (n : Nat)
  | wouldBlock
  | interrupted
  | fails
  deriving DecidableEq, Repr

/-- Why a flush fails. -/
inductive IoFault where
  | tooManyDescriptors
  /-- `send_stream` refuses the batch it is given. -/
  | badDescriptorBatch
  | fromKernel
  /-- An index, a slice or a subtraction is out of range. -/
  | panicked
  deriving DecidableEq, Repr

/-- One write that the kernel took, with the descriptors that went with it. -/
structure Write (δ : Type) where
  bytes : List UInt8
  fds : List δ
  deriving DecidableEq, Repr

namespace Socket

/-- Queues an event. -/
def send (big : Bool) (s : Socket δ) (m : WireMessage δ) : Except WireFault Unit × Socket δ :=
  let pos := s.written + s.outgoing.length
  match write big m s.outgoing [] with
  | (.ok (), out, fds) =>
      (.ok (), { s with
        outgoing := out
        outgoingFds := s.outgoingFds ++ fds.map fun d => (pos, d) })
  | (.error e, out, _) => (.error e, { s with outgoing := out })

/-- `while n > 0 && fds[n].0 == fds[n - 1].0 { n -= 1 }`. -/
def keepTogether (fds : List (Nat × δ)) : Nat → Except IoFault Nat
  | 0 => .ok 0
  | n + 1 =>
      match fds[n + 1]?, fds[n]? with
      | some next, some last => if next.1 = last.1 then keepTogether fds n else .ok (n + 1)
      | _, _ => .error .panicked

/-- How many descriptors go with the next write, and how many bytes it may have. -/
def batch (s : Socket δ) : Except IoFault (Nat × Nat) :=
  let n := min s.outgoingFds.length streamMaxFds
  if n < s.outgoingFds.length then do
    -- Stop before the first message whose descriptors are left for the next write.
    let n ← keepTogether s.outgoingFds n
    if n = 0 then .error .tooManyDescriptors
    else
      match s.outgoingFds[n]? with
      | none => .error .panicked
      | some next =>
          if next.1 < s.written then .error .panicked else .ok (n, next.1 - s.written)
  else .ok (n, s.outgoing.length)

/-- What `send_stream` is given: the bytes up to the limit and the first descriptors. -/
def offered (s : Socket δ) (n limit : Nat) : Except IoFault (Write δ) :=
  if s.outgoing.length < limit then .error .panicked
  else if streamMaxFds < n ∨ limit = 0 then .error .badDescriptorBatch
  else .ok { bytes := s.outgoing.take limit, fds := (s.outgoingFds.take n).map Prod.snd }

/-- The next write, with the number of its descriptors. -/
def nextWrite (s : Socket δ) : Except IoFault (Nat × Write δ) := do
  let (n, limit) ← s.batch
  let w ← s.offered n limit
  .ok (n, w)

/-- The socket after `sent` bytes and `n` descriptors are gone. -/
def advance (s : Socket δ) (sent n : Nat) : Socket δ where
  outgoing := s.outgoing.drop sent
  outgoingFds := s.outgoingFds.drop n
  written := s.written + sent

/-- Writes what the socket takes. After the answers it takes nothing more. The writes that
the kernel took are returned too. -/
def flush : List Kernel → Socket δ → Except IoFault Unit × List (Write δ) × Socket δ
  | answers, s =>
      if s.outgoing = [] then (.ok (), [], s)
      else
        match s.nextWrite with
        | .error e => (.error e, [], s)
        | .ok (n, w) =>
            match answers with
            | [] | .wouldBlock :: _ => (.ok (), [], s)
            | .interrupted :: answers => flush answers s
            | .fails :: _ => (.error .fromKernel, [], s)
            | .takes k :: answers =>
                let sent := min (k + 1) w.bytes.length
                let (result, ws, s') := flush answers (s.advance sent n)
                (result, { w with bytes := w.bytes.take sent } :: ws, s')

end Socket

/-! ## Section 2: Runs -/

/-- A message that was queued, with the bytes it was queued as. -/
structure Sent (δ : Type) where
  message : WireMessage δ
  bytes : List UInt8
  deriving DecidableEq, Repr

/-- The descriptors of a queued message. -/
def Sent.fds (x : Sent δ) : List δ :=
  descriptors x.message.args

/-- A socket with its past: the messages sent and the writes, oldest first. -/
structure Stream (δ : Type) where
  socket : Socket δ := {}
  sent : List (Sent δ) := []
  writes : List (Write δ) := []
  deriving DecidableEq, Repr

inductive SocketAction (δ : Type) where
  | send (m : WireMessage δ)
  | flush (answers : List Kernel)

namespace Stream

/-- Every action is possible; a message that is not queued is not sent. -/
def step (big : Bool) (s : Stream δ) : SocketAction δ → Option (Stream δ)
  | .send m =>
      match s.socket.send big m with
      | (.ok (), socket) =>
          some { s with
            socket := socket
            sent := s.sent ++ [⟨m, socket.outgoing.drop s.socket.outgoing.length⟩] }
      | (.error _, socket) => some { s with socket := socket }
  | .flush answers =>
      let (_, ws, socket) := s.socket.flush answers
      some { s with socket := socket, writes := s.writes ++ ws }

/-- The stream: what was written, and what is waiting to be. -/
def stream (s : Stream δ) : List UInt8 :=
  s.writes.flatMap Write.bytes ++ s.socket.outgoing

/-- A step that queues no padding behind a part of a word. -/
def Aligned (big : Bool) (s : Stream δ) : SocketAction δ → Prop
  | .send m =>
      s.socket.outgoing.length % 4 = 0 ∨ ¬m.padded ∨ 65535 < m.size big s.socket.outgoing.length
  | .flush _ => True

instance (big : Bool) (s : Stream δ) : ∀ a : SocketAction δ, Decidable (s.Aligned big a)
  | .send _ => inferInstanceAs (Decidable (_ ∨ _ ∨ _))
  | .flush _ => isTrue trivial

end Stream

/-! ## Section 3: Descriptors and Their Messages -/

/-- The bytes of queued messages, one after the other. -/
def allBytes (xs : List (Sent δ)) : List UInt8 :=
  xs.flatMap Sent.bytes

/-- The descriptors of queued messages, one after the other. -/
def allFds (xs : List (Sent δ)) : List δ :=
  xs.flatMap Sent.fds

/-- The descriptors of messages that start at the offset `pos`, with the offset of the
message that carries each. -/
def due : Nat → List (Sent δ) → List (Nat × δ)
  | _, [] => []
  | pos, x :: xs => x.fds.map (fun d => (pos, d)) ++ due (pos + x.bytes.length) xs

private theorem map_snd_due (xs : List (Sent δ)) : ∀ pos, (due pos xs).map Prod.snd = allFds xs := by
  induction xs with
  | nil =>
      intro pos
      rfl
  | cons x xs ih =>
      intro pos
      simp [due, ih, allFds, Function.comp_def]

private theorem due_append (xs ys : List (Sent δ)) :
    ∀ pos, due pos (xs ++ ys) = due pos xs ++ due (pos + (allBytes xs).length) ys := by
  induction xs with
  | nil =>
      intro pos
      simp [due, allBytes]
  | cons x xs ih =>
      intro pos
      simp [due, ih, allBytes, Nat.add_assoc]

/-- No descriptor is due before the first message. -/
theorem le_due {xs : List (Sent δ)} :
    ∀ {pos : Nat} {p : Nat × δ}, p ∈ due pos xs → pos ≤ p.1 := by
  induction xs with
  | nil =>
      intro pos p h
      cases h
  | cons x xs ih =>
      intro pos p h
      rcases List.mem_append.mp h with h | h
      · obtain ⟨d, _, rfl⟩ := List.mem_map.mp h
        exact Nat.le_refl pos
      · have hle := ih h
        omega

/-- Between two descriptors that are due at different offsets, the messages split: the
second is due where the messages after the split start. -/
theorem due_split {xs : List (Sent δ)} :
    ∀ {pos n : Nat} {next : Nat × δ}, (due pos xs)[n]? = some next →
      (∀ last, 0 < n → (due pos xs)[n - 1]? = some last → next.1 ≠ last.1) →
      ∃ left waiting, xs = left ++ waiting ∧ (due pos xs).take n = due pos left ∧
        (due pos xs).drop n = due (pos + (allBytes left).length) waiting ∧
        next.1 = pos + (allBytes left).length := by
  induction xs with
  | nil =>
      intro pos n next h
      cases h
  | cons x xs ih =>
      intro pos n next h hdiff
      rw [due] at h hdiff ⊢
      by_cases hn : n < x.fds.length
      · -- The first message carries the descriptor, so it must be its first one.
        have hnext : next.1 = pos := by
          rw [List.getElem?_append_left (by simpa using hn)] at h
          obtain ⟨d, _, rfl⟩ := List.mem_map.mp (List.mem_of_getElem? h)
          rfl
        have hzero : n = 0 := by
          by_contra hpos
          obtain ⟨last, hlast⟩ : ∃ last, (x.fds.map fun d => (pos, d))[n - 1]? = some last := by
            exact ⟨_, List.getElem?_eq_getElem (by simp; omega)⟩
          apply hdiff last (by omega)
          · rw [List.getElem?_append_left (by simp; omega)]
            exact hlast
          · obtain ⟨d, _, rfl⟩ := List.mem_map.mp (List.mem_of_getElem? hlast)
            exact hnext
        subst hzero
        refine ⟨[], x :: xs, rfl, rfl, ?_, hnext⟩
        simp [due, allBytes]
      · have hlen : (x.fds.map fun d => (pos, d)).length ≤ n := by
          simpa using hn
        rw [List.getElem?_append_right hlen] at h
        obtain ⟨left, waiting, hxs, htake, hdrop, hnext⟩ := ih h (by
          intro last hpos hlast
          apply hdiff last (by omega)
          rw [List.getElem?_append_right (by omega)]
          rwa [Nat.sub_right_comm] at hlast)
        refine ⟨x :: left, waiting, by rw [hxs]; rfl, ?_, ?_, ?_⟩
        · rw [List.take_append, List.take_of_length_le hlen, htake, due]
        · rw [List.drop_append, List.drop_of_length_le hlen, hdrop]
          simp [allBytes, Nat.add_assoc]
        · rw [hnext]
          simp [allBytes, Nat.add_assoc]

/-- When the first `n + 1` descriptors are due at one offset, one message carries them. -/
theorem carried_of_due_eq {xs : List (Sent δ)} (hbytes : ∀ x ∈ xs, x.bytes ≠ []) :
    ∀ {pos n : Nat} {first next : Nat × δ}, (due pos xs)[0]? = some first →
      (due pos xs)[n]? = some next → next.1 = first.1 → ∃ x ∈ xs, n < x.fds.length := by
  induction xs with
  | nil =>
      intro pos n first next h
      cases h
  | cons x xs ih =>
      intro pos n first next hfirst hnext heq
      rw [due] at hfirst hnext
      by_cases hn : n < x.fds.length
      · exact ⟨x, List.mem_cons_self, hn⟩
      rw [List.getElem?_append_right (by simpa using hn)] at hnext
      by_cases hempty : x.fds = []
      · -- A message without descriptors leaves no trace.
        rw [hempty, List.length_map, List.length_nil, Nat.sub_zero] at hnext
        rw [hempty, List.map_nil, List.nil_append] at hfirst
        obtain ⟨y, hy, hlen⟩ := ih (fun y hy => hbytes y (List.mem_cons_of_mem x hy)) hfirst hnext heq
        exact ⟨y, List.mem_cons_of_mem x hy, hlen⟩
      · -- The first descriptor is due at `pos`, the other behind the message's bytes.
        have hfirst' : first.1 = pos := by
          rw [List.getElem?_append_left (by simpa [List.length_pos_iff] using hempty)] at hfirst
          obtain ⟨d, _, rfl⟩ := List.mem_map.mp (List.mem_of_getElem? hfirst)
          rfl
        have hle := le_due (List.mem_of_getElem? hnext)
        have hpos := List.length_pos_iff.mpr (hbytes x List.mem_cons_self)
        omega

/-! ## Section 4: One Write -/

namespace Socket

/-- What `keepTogether` returns: a place between two offsets, with one offset from there
to where it started. -/
theorem keepTogether_spec {fds : List (Nat × δ)} :
    ∀ {n : Nat}, n < fds.length → ∃ k, keepTogether fds n = .ok k ∧ k ≤ n ∧
      (∀ next last, 0 < k → fds[k]? = some next → fds[k - 1]? = some last → next.1 ≠ last.1) ∧
      ∀ first next, fds[k]? = some first → fds[n]? = some next → next.1 = first.1 := by
  intro n
  induction n with
  | zero =>
      intro _
      refine ⟨0, rfl, Nat.le_refl 0, fun _ _ h => absurd h (Nat.lt_irrefl 0), ?_⟩
      intro first next hfirst hnext
      cases hfirst.symm.trans hnext
      rfl
  | succ n ih =>
      intro hn
      obtain ⟨next, hnext⟩ : ∃ next, fds[n + 1]? = some next := ⟨_, List.getElem?_eq_getElem hn⟩
      obtain ⟨last, hlast⟩ : ∃ last, fds[n]? = some last :=
        ⟨_, List.getElem?_eq_getElem (Nat.lt_of_succ_lt hn)⟩
      simp only [keepTogether, hnext, hlast]
      by_cases heq : next.1 = last.1
      · obtain ⟨k, hk, hle, hdiff, hsame⟩ := ih (Nat.lt_of_succ_lt hn)
        rw [if_pos heq]
        refine ⟨k, hk, by omega, hdiff, ?_⟩
        intro first next' hfirst hnext'
        cases hnext'
        rw [heq]
        exact hsame first last hfirst hlast
      · rw [if_neg heq]
        refine ⟨n + 1, rfl, Nat.le_refl _, ?_, ?_⟩
        · intro next' last' _ hnext' hlast'
          cases hnext.symm.trans hnext'
          cases hlast.symm.trans hlast'
          exact heq
        · intro first next' hfirst hnext'
          cases hnext'
          cases hfirst.symm.trans hnext
          rfl

end Socket

namespace Stream

/-- The queue of a stream: its bytes are those of the messages sent, and the descriptors
of a message leave together, with a write that starts no later than the message. -/
structure Queued (s : Stream δ) : Prop where
  bytes : s.stream = allBytes s.sent
  written : s.socket.written = (s.writes.flatMap Write.bytes).length
  nonempty : ∀ x ∈ s.sent, x.bytes ≠ []
  split : ∃ left waiting, s.sent = left ++ waiting ∧
    s.socket.outgoingFds = due (allBytes left).length waiting ∧
    s.socket.written ≤ (allBytes left).length ∧ s.writes.flatMap Write.fds = allFds left
  together : ∀ ws, ws <+: s.writes → ∃ left, left <+: s.sent ∧
    ws.flatMap Write.fds = allFds left ∧
    (ws.flatMap Write.bytes).length ≤ (allBytes left).length
  batches : ∀ w ∈ s.writes, w.bytes ≠ [] ∧ w.fds.length ≤ streamMaxFds

/-- The end of the stream is the end of what is waiting. -/
theorem Queued.length_allBytes {s : Stream δ} (h : s.Queued) :
    (allBytes s.sent).length = s.socket.written + s.socket.outgoing.length := by
  rw [← h.bytes, stream, List.length_append, h.written]

/-- A write that the messages allow: it takes the descriptors of some, and no byte past
them. -/
structure Allowed (s : Stream δ) (n : Nat) (w : Write δ) : Prop where
  bytes : w.bytes ≠ [] ∧ w.bytes <+: s.socket.outgoing
  fds : w.fds.length ≤ streamMaxFds
  split : ∃ left waiting, s.sent = left ++ waiting ∧
    s.socket.outgoingFds.drop n = due (allBytes left).length waiting ∧
    s.socket.written + w.bytes.length ≤ (allBytes left).length ∧
    s.writes.flatMap Write.fds ++ w.fds = allFds left

/-- The next write is allowed, or one message has more descriptors than a write. -/
theorem Queued.nextWrite {s : Stream δ} (h : s.Queued) (hne : s.socket.outgoing ≠ []) :
    (s.socket.nextWrite = .error .tooManyDescriptors ∧
      ∃ x ∈ s.sent, streamMaxFds < x.fds.length) ∨
    ∃ n w, s.socket.nextWrite = .ok (n, w) ∧ s.Allowed n w := by
  obtain ⟨left, waiting, hsent, hqueue, hwritten, hleft⟩ := h.split
  have htotal := h.length_allBytes
  have hpos := List.length_pos_iff.mpr hne
  by_cases hmore : min s.socket.outgoingFds.length streamMaxFds < s.socket.outgoingFds.length
  · -- More descriptors wait than one write takes.
    have hmin : min s.socket.outgoingFds.length streamMaxFds = streamMaxFds := by omega
    obtain ⟨k, hk, hkle, hdiff, hsame⟩ := Socket.keepTogether_spec hmore
    have hklt : k < s.socket.outgoingFds.length := by omega
    by_cases hzero : k = 0
    · left
      subst hzero
      refine ⟨by simp [Socket.nextWrite, Socket.batch, hmore, hk, bind, Except.bind], ?_⟩
      obtain ⟨first, hfirst⟩ : ∃ first, s.socket.outgoingFds[0]? = some first :=
        ⟨_, List.getElem?_eq_getElem hklt⟩
      obtain ⟨next, hnext⟩ : ∃ next, s.socket.outgoingFds[streamMaxFds]? = some next :=
        ⟨_, List.getElem?_eq_getElem (by omega)⟩
      have heq := hsame first next hfirst (by rw [hmin]; exact hnext)
      rw [hqueue] at hfirst hnext
      obtain ⟨x, hx, hlen⟩ := carried_of_due_eq
        (fun x hx => h.nonempty x (by rw [hsent]; exact List.mem_append_right left hx))
        hfirst hnext heq
      exact ⟨x, by rw [hsent]; exact List.mem_append_right left hx, hlen⟩
    · right
      obtain ⟨next, hnext⟩ : ∃ next, s.socket.outgoingFds[k]? = some next :=
        ⟨_, List.getElem?_eq_getElem hklt⟩
      obtain ⟨left', waiting', hwaiting, htake, hdrop, hdue⟩ := due_split (hqueue ▸ hnext)
        (fun last hlt hlast => hdiff next last hlt hnext (hqueue ▸ hlast))
      -- The descriptors taken belong to messages with bytes, so there is room for a write.
      have hroom : (allBytes left').length ≠ 0 := by
        intro hnil
        cases left' with
        | nil =>
            rw [due, List.take_eq_nil_iff] at htake
            rw [← hqueue] at htake
            rcases htake with hzero' | hempty
            · exact hzero hzero'
            · rw [hempty] at hklt
              cases hklt
        | cons x xs =>
            have hx := h.nonempty x (by simp [hsent, hwaiting])
            simp [allBytes, hx] at hnil
      have hle : (allBytes left).length + (allBytes left').length ≤ (allBytes s.sent).length := by
        rw [hsent, hwaiting]
        simp [allBytes]
      have hlimit : 0 < next.1 - s.socket.written ∧
          next.1 - s.socket.written ≤ s.socket.outgoing.length := by omega
      have hbatch : s.socket.batch = .ok (k, next.1 - s.socket.written) := by
        simp only [Socket.batch, if_pos hmore, hk, bind, Except.bind, if_neg hzero, hnext]
        rw [if_neg (by omega)]
      refine ⟨k, _, by
        simp only [Socket.nextWrite, hbatch, bind, Except.bind, Socket.offered]
        rw [if_neg (by omega), if_neg (by omega)], ?_⟩
      constructor
      case bytes =>
        refine ⟨?_, List.take_prefix _ _⟩
        apply List.ne_nil_of_length_pos
        rw [List.length_take]
        omega
      case fds =>
        rw [List.length_map, List.length_take]
        omega
      case split =>
        refine ⟨left ++ left', waiting', by rw [hsent, hwaiting, List.append_assoc], ?_, ?_, ?_⟩
        · rw [hqueue, hdrop]
          simp [allBytes]
        · rw [List.length_take]
          simp only [allBytes, List.flatMap_append, List.length_append] at hdue ⊢
          omega
        · rw [hleft, hqueue, htake, map_snd_due]
          simp [allFds]
  · -- All of them go, and everything that waits may.
    right
    have hbatch : s.socket.batch = .ok (s.socket.outgoingFds.length, s.socket.outgoing.length) := by
      simp only [Socket.batch, if_neg hmore]
      rw [Nat.min_eq_left (by omega)]
    refine ⟨s.socket.outgoingFds.length, _, by
      simp only [Socket.nextWrite, hbatch, bind, Except.bind, Socket.offered]
      rw [if_neg (by omega), if_neg (by omega)], ?_⟩
    constructor
    case bytes =>
      simpa using hne
    case fds =>
      simp
      omega
    case split =>
      refine ⟨s.sent, [], by simp, by simp [due], ?_, ?_⟩
      · simp
        omega
      · dsimp only
        rw [List.take_length, hqueue, map_snd_due, hleft, hsent]
        simp [allFds]

/-- The stream after `sent` bytes of an allowed write went out. -/
def wrote (s : Stream δ) (n : Nat) (w : Write δ) (sent : Nat) : Stream δ where
  socket := s.socket.advance sent n
  sent := s.sent
  writes := s.writes ++ [{ w with bytes := w.bytes.take sent }]

private theorem Queued.wrote {s : Stream δ} (h : s.Queued) {n : Nat} {w : Write δ} (hw : s.Allowed n w)
    {sent : Nat} (hpos : 0 < sent) (hle : sent ≤ w.bytes.length) : (s.wrote n w sent).Queued := by
  obtain ⟨hne, rest, hrest⟩ := hw.bytes
  obtain ⟨left, waiting, hsent, hqueue, hend, hleft⟩ := hw.split
  have htake : w.bytes.take sent = s.socket.outgoing.take sent := by
    rw [← hrest, List.take_append_of_le_length hle]
  have hlen : (w.bytes.take sent).length = sent := by
    rw [List.length_take]
    omega
  constructor
  case bytes =>
    show _ = allBytes s.sent
    rw [← h.bytes]
    simp [stream, Stream.wrote, Socket.advance, htake]
  case written =>
    show s.socket.written + sent = _
    rw [h.written, Stream.wrote, List.flatMap_append, List.length_append, List.flatMap_singleton,
      hlen]
  case nonempty =>
    exact h.nonempty
  case split =>
    refine ⟨left, waiting, hsent, hqueue, ?_, by simpa [Stream.wrote] using hleft⟩
    show s.socket.written + sent ≤ _
    omega
  case together =>
    intro ws hws
    rcases List.prefix_concat_iff.mp hws with rfl | hws
    · -- The last write ends before the messages whose descriptors wait.
      refine ⟨left, ⟨waiting, hsent.symm⟩, by simpa using hleft, ?_⟩
      rw [List.flatMap_append, List.length_append, List.flatMap_singleton, hlen, ← h.written]
      omega
    · exact h.together ws hws
  case batches =>
    intro w' hw'
    rcases List.mem_append.mp hw' with hw' | hw'
    · exact h.batches w' hw'
    · obtain rfl := List.mem_singleton.mp hw'
      refine ⟨?_, hw.fds⟩
      apply List.ne_nil_of_length_pos
      rw [hlen]
      exact hpos

/-- The stream after a flush that returned these writes and left this socket. -/
def flushed (s : Stream δ) (ws : List (Write δ)) (socket : Socket δ) : Stream δ :=
  { s with socket := socket, writes := s.writes ++ ws }

/-- A flush keeps the queue, and fails only for a message with too many descriptors or with
the kernel. -/
theorem Queued.flush {answers : List Kernel} :
    ∀ {s : Stream δ}, s.Queued → ∀ {result ws socket},
      s.socket.flush answers = (result, ws, socket) →
        (s.flushed ws socket).Queued ∧
          (result = .ok () ∨ result = .error .fromKernel ∨
            result = .error .tooManyDescriptors ∧ ∃ x ∈ s.sent, streamMaxFds < x.fds.length) := by
  have hsame {s : Stream δ} (h : s.Queued) : (s.flushed [] s.socket).Queued := by
    rw [flushed, List.append_nil]
    exact h
  induction answers with
  | nil =>
      intro s h result ws socket hflush
      unfold Socket.flush at hflush
      split at hflush
      · cases hflush
        exact ⟨hsame h, .inl rfl⟩
      rename_i hne
      rcases h.nextWrite hne with ⟨herr, hx⟩ | ⟨n, w, hok, _⟩
      · rw [herr] at hflush
        cases hflush
        exact ⟨hsame h, .inr (.inr ⟨rfl, hx⟩)⟩
      · rw [hok] at hflush
        cases hflush
        exact ⟨hsame h, .inl rfl⟩
  | cons answer answers ih =>
      intro s h result ws socket hflush
      unfold Socket.flush at hflush
      split at hflush
      · cases hflush
        exact ⟨hsame h, .inl rfl⟩
      rename_i hne
      rcases h.nextWrite hne with ⟨herr, hx⟩ | ⟨n, w, hok, hallowed⟩
      · rw [herr] at hflush
        cases hflush
        exact ⟨hsame h, .inr (.inr ⟨rfl, hx⟩)⟩
      rw [hok] at hflush
      cases answer with
      | wouldBlock =>
          cases hflush
          exact ⟨hsame h, .inl rfl⟩
      | interrupted => exact ih h hflush
      | fails =>
          cases hflush
          exact ⟨hsame h, .inr (.inl rfl)⟩
      | takes k =>
          have hpos := List.length_pos_iff.mpr hallowed.bytes.1
          have hwrote := h.wrote hallowed (show 0 < min (k + 1) w.bytes.length by omega) (by omega)
          obtain ⟨hqueued, hresult⟩ := ih hwrote rfl
          cases hflush
          refine ⟨?_, hresult⟩
          simpa [flushed, Stream.wrote] using hqueued

/-- The stream after a message that fits is queued. -/
def queue (big : Bool) (s : Stream δ) (m : WireMessage δ) : Stream δ where
  socket :=
    { outgoing := s.socket.outgoing ++ m.bytes big s.socket.outgoing.length
      outgoingFds := s.socket.outgoingFds ++
        (descriptors m.args).map fun d => (s.socket.written + s.socket.outgoing.length, d)
      written := s.socket.written }
  sent := s.sent ++ [⟨m, m.bytes big s.socket.outgoing.length⟩]
  writes := s.writes

private theorem step_send (big : Bool) (s : Stream δ) (m : WireMessage δ) :
    step big s (.send m) =
      some (if 65535 < m.size big s.socket.outgoing.length then s else s.queue big m) := by
  simp only [step, Socket.send, write_eq]
  by_cases hlarge : 65535 < m.size big s.socket.outgoing.length
  · simp [hlarge]
  · simp [hlarge, queue]

private theorem step_flush (big : Bool) (s : Stream δ) (answers : List Kernel) :
    ∃ result ws socket, s.socket.flush answers = (result, ws, socket) ∧
      step big s (.flush answers) = some (s.flushed ws socket) :=
  ⟨_, _, _, rfl, rfl⟩

private theorem Queued.queue {big : Bool} {s : Stream δ} (h : s.Queued) (m : WireMessage δ) :
    (s.queue big m).Queued := by
  obtain ⟨left, waiting, hsent, hqueue, hwritten, hleft⟩ := h.split
  have htotal := h.length_allBytes
  constructor
  case bytes =>
    have hbytes := h.bytes
    simp only [stream] at hbytes
    simp [stream, Stream.queue, allBytes, ← List.append_assoc, hbytes]
  case written =>
    exact h.written
  case nonempty =>
    intro x hx
    rcases List.mem_append.mp hx with hx | hx
    · exact h.nonempty x hx
    · obtain rfl := List.mem_singleton.mp hx
      apply List.ne_nil_of_length_pos
      rw [m.length_bytes, WireMessage.size, header]
      omega
  case split =>
    refine ⟨left, waiting ++ [⟨m, m.bytes big s.socket.outgoing.length⟩], ?_, ?_, hwritten, hleft⟩
    · simp [Stream.queue, hsent]
    · -- The new message starts where the stream ends.
      rw [hsent, allBytes, List.flatMap_append, List.length_append] at htotal
      rw [due_append, ← hqueue]
      simp only [allBytes] at htotal ⊢
      rw [htotal]
      simp [Stream.queue, due, Sent.fds]
  case together =>
    intro ws hws
    obtain ⟨left, hprefix, hrest⟩ := h.together ws hws
    exact ⟨left, hprefix.trans (List.prefix_append _ _), hrest⟩
  case batches =>
    exact h.batches

/-! ## Section 5: What the Bridge Receives -/

/-- What holds of a stream whatever was queued where. -/
structure Delivers (s : Stream δ) : Prop where
  /-- The stream is what the messages were queued as. -/
  bytes : s.stream = allBytes s.sent
  /-- The descriptors that left, and those that wait, are those of the messages. -/
  fds : s.writes.flatMap Write.fds ++ s.socket.outgoingFds.map Prod.snd = allFds s.sent
  /-- After each write, the descriptors of some messages have left, whole and no others,
  and no byte of a later message. -/
  together : ∀ ws, ws <+: s.writes → ∃ left, left <+: s.sent ∧
    ws.flatMap Write.fds = allFds left ∧
    (ws.flatMap Write.bytes).length ≤ (allBytes left).length
  batches : ∀ w ∈ s.writes, w.bytes ≠ [] ∧ w.fds.length ≤ streamMaxFds
  /-- A flush never panics or offers a bad batch. -/
  flush : ∀ answers, (s.socket.flush answers).1 = .ok () ∨
    (s.socket.flush answers).1 = .error .fromKernel ∨
    (s.socket.flush answers).1 = .error .tooManyDescriptors ∧
      ∃ x ∈ s.sent, streamMaxFds < x.fds.length

theorem Queued.delivers {s : Stream δ} (h : s.Queued) : s.Delivers := by
  obtain ⟨left, waiting, hsent, hqueue, _, hleft⟩ := h.split
  constructor
  case bytes =>
    exact h.bytes
  case fds =>
    rw [hleft, hqueue, map_snd_due, hsent]
    simp [allFds]
  case together =>
    exact h.together
  case batches =>
    exact h.batches
  case flush =>
    intro answers
    exact (h.flush rfl).2

/-- The invariant of runs: the queue, and that each message was queued as its bytes at some
offset. -/
structure Inv (big : Bool) (s : Stream δ) : Prop extends s.Queued where
  encoded : ∀ x ∈ s.sent, ∃ pos, x.bytes = x.message.bytes big pos

theorem Inv.init (big : Bool) : ({} : Stream δ).Inv big := by
  constructor
  · constructor
    case bytes =>
      rfl
    case written =>
      rfl
    case nonempty =>
      simp
    case split =>
      exact ⟨[], [], rfl, rfl, Nat.le_refl 0, rfl⟩
    case together =>
      intro ws hws
      obtain rfl := List.prefix_nil.mp hws
      exact ⟨[], List.nil_prefix, rfl, Nat.le_refl 0⟩
    case batches =>
      simp
  · simp

theorem Inv.step {big : Bool} {s s' : Stream δ} {a : SocketAction δ} (h : s.Inv big)
    (hstep : step big s a = some s') : s'.Inv big := by
  cases a with
  | send m =>
      rw [step_send] at hstep
      obtain rfl := Option.some.inj hstep
      split
      · exact h
      · refine ⟨h.toQueued.queue m, ?_⟩
        intro x hx
        rcases List.mem_append.mp hx with hx | hx
        · exact h.encoded x hx
        · obtain rfl := List.mem_singleton.mp hx
          exact ⟨_, rfl⟩
  | flush answers =>
      obtain ⟨result, ws, socket, hflush, heq⟩ := step_flush big s answers
      obtain rfl := Option.some.inj (heq.symm.trans hstep)
      exact ⟨(h.toQueued.flush hflush).1, h.encoded⟩

/-- The messages sent, encoded on their own. -/
def encodings (big : Bool) (s : Stream δ) : List UInt8 :=
  s.sent.flatMap fun x => x.message.bytes big 0

private theorem allBytes_append_eq_iff (big : Bool) {xs : List (Sent δ)}
    (hxs : ∀ x ∈ xs, ∃ pos, x.bytes = x.message.bytes big pos) (rest rest' : List UInt8) :
    allBytes xs ++ rest = (xs.flatMap fun x => x.message.bytes big 0) ++ rest' ↔
      allBytes xs = (xs.flatMap fun x => x.message.bytes big 0) ∧ rest = rest' := by
  induction xs with
  | nil => simp [allBytes]
  | cons x xs ih =>
      obtain ⟨pos, hpos⟩ := hxs x List.mem_cons_self
      have hrest := ih fun y hy => hxs y (List.mem_cons_of_mem x hy)
      simp only [allBytes] at hrest
      simp only [allBytes, List.flatMap_cons, List.append_assoc, hpos, bytes_append_eq_iff, hrest,
        and_assoc]

/-- A step keeps the stream the messages' encodings exactly when it is aligned. -/
theorem stream_eq_encodings_step {big : Bool} {s s' : Stream δ} {a : SocketAction δ}
    (h : s.Inv big) (hstep : step big s a = some s') :
    s'.stream = s'.encodings big ↔ s.stream = s.encodings big ∧ s.Aligned big a := by
  have hstream := (h.step hstep).bytes
  rw [hstream, h.bytes]
  cases a with
  | send m =>
      rw [step_send] at hstep
      obtain rfl := Option.some.inj hstep
      split
      · rename_i hlarge
        simp [Aligned, hlarge]
      · rename_i hfits
        have happend := allBytes_append_eq_iff big h.encoded
          (m.bytes big s.socket.outgoing.length) (m.bytes big 0)
        -- The message itself is the same at both offsets exactly when the step is aligned.
        have hlast := bytes_append_eq_iff big m s.socket.outgoing.length [] []
        simp only [List.append_nil, and_true] at hlast
        rw [hlast] at happend
        simpa [queue, encodings, allBytes, Aligned, hfits] using happend
  | flush answers =>
      obtain ⟨result, ws, socket, hflush, heq⟩ := step_flush big s answers
      obtain rfl := Option.some.inj (heq.symm.trans hstep)
      simp [flushed, encodings, Aligned]

/-- In every run of sends and flushes the descriptors leave as they should, and the stream
is the encodings of the messages sent exactly when every step is aligned. -/
theorem stream_delivers_iff (big : Bool) {as : List (SocketAction δ)} {s : Stream δ}
    (hrun : run (step big) {} as = some s) :
    s.Delivers ∧
      (s.stream = s.encodings big ↔ StepsMeet (step big) (Aligned big) {} as) := by
  have hinv : s.Inv big := run_invariant (fun _ _ _ h hstep => Inv.step h hstep) (Inv.init big) hrun
  refine ⟨hinv.toQueued.delivers, ?_⟩
  have hmeets : StepsMeet (step big) (fun _ _ => True) ({} : Stream δ) as :=
    stepsMeet_of_forall (fun _ _ _ => trivial) _
  have hiff := run_iff_of_step_of_inv (I := fun s => Inv big s)
    (P := fun s => s.stream = s.encodings big)
    (fun _ _ _ h hstep => Inv.step h hstep)
    (fun _ _ _ h _ hstep => stream_eq_encodings_step h hstep) (Inv.init big) hmeets hrun
  rw [hiff]
  exact and_iff_right rfl

/-- Two messages, the first with a descriptor, and a kernel that takes a word at a time. -/
theorem stream_delivers_iff_example :
    ∃ s : Stream Nat, run (step false) {} [.send ⟨1, 0, [.fd 5]⟩, .flush [.takes 3, .wouldBlock],
        .send ⟨1, 1, [.array [104]]⟩, .flush [.takes 3, .interrupted, .takes 99]] = some s ∧
      s.Delivers ∧ s.stream = s.encodings false := by
  obtain ⟨s, hrun, _⟩ := exists_of_any (p := fun _ => true) (o := run (step false)
    ({} : Stream Nat) [.send ⟨1, 0, [.fd 5]⟩, .flush [.takes 3, .wouldBlock],
      .send ⟨1, 1, [.array [104]]⟩, .flush [.takes 3, .interrupted, .takes 99]])
    (by decide +kernel)
  obtain ⟨hdelivers, hiff⟩ := stream_delivers_iff false hrun
  refine ⟨s, hrun, hdelivers, hiff.mpr ?_⟩
  decide +kernel

/-- The kernel takes five bytes of a message, and the next one has an array: three bytes of
padding are missing from it. -/
theorem stream_ne_encodings :
    ∃ s : Stream Nat, run (step false) {} [.send ⟨1, 0, []⟩, .flush [.takes 4],
        .send ⟨1, 1, [.array [104]]⟩] = some s ∧ s.stream ≠ s.encodings false := by
  obtain ⟨s, hrun, hne⟩ := exists_of_any (p := fun s => s.stream != s.encodings false)
    (o := run (step false) ({} : Stream Nat) [.send ⟨1, 0, []⟩, .flush [.takes 4],
      .send ⟨1, 1, [.array [104]]⟩]) (by decide +kernel)
  exact ⟨s, hrun, by simpa using hne⟩

end Stream

end Psbox.Decorations
