import Psbox.Decorations.Codec
import Psbox.Foundations.Fallible

/-!
# Wayland Messages There and Back

What `write` appends depends on where in the output buffer it starts: the padding of a
string or an array goes up to a multiple of four of the buffer, and `parse` expects it
up to a multiple of four of the message. The two are the same when the buffer's length
is a multiple of four, and for a message with neither.

`argsBytes` says which bytes `write` appends at an offset. Everything else is about the
bytes at offset 0, which `parse` reads back.
-/

namespace Psbox.Decorations

open Psbox.Foundations (bind_eq_ok)
open Psbox.DBus (leBytes ofBytes leNat length_leBytes leNat_leBytes leBytes_leNat ofBytes_lt)

variable {δ : Type}

/-! ## Section 1: Arguments -/

/-- Whether an argument is one of this type. -/
def WireArg.hasType : WireArg δ → ArgType → Bool
  | .int _, .int | .uint _, .uint | .fixed _, .fixed | .array _, .array | .fd _, .fd => true
  | .object _, .object _ | .newId _, .newId => true
  | .str s, .str nullable => s.isSome || nullable
  | _, _ => false

/-- The arguments are those of a signature. -/
def OfSignature (args : List (WireArg δ)) (sig : List ArgType) : Prop :=
  List.Forall₂ (fun arg ty => arg.hasType ty) args sig

def WireArg.descriptor : WireArg δ → Option δ
  | .fd d => some d
  | _ => none

/-- The descriptors of the arguments, in order. -/
def descriptors (args : List (WireArg δ)) : List δ :=
  args.filterMap WireArg.descriptor

/-- Whether an argument is written with padding. -/
def WireArg.padded : WireArg δ → Bool
  | .str (some _) | .array _ => true
  | _ => false

/-- Whether a message has a string or an array. -/
def WireMessage.padded (m : WireMessage δ) : Bool :=
  m.args.any WireArg.padded

/-! ## Section 2: The Bytes at an Offset -/

/-- How far `n` is from the next multiple of four. -/
def padding (n : Nat) : Nat :=
  nextMultipleOf4 n - n

def arrayBytes (big : Bool) (pos : Nat) (bytes : List UInt8) : List UInt8 :=
  neBytes big (UInt32.ofNat bytes.length) ++ bytes ++
    List.replicate (padding (pos + 4 + bytes.length)) 0

/-- The bytes of an argument that starts at the offset `pos`. -/
def argBytes (big : Bool) (pos : Nat) : WireArg δ → List UInt8
  | .int v | .fixed v => neBytes big v.toUInt32
  | .uint v | .object v | .newId v => neBytes big v
  | .str none => neBytes big 0
  | .str (some s) => arrayBytes big pos (s.bytes ++ [0])
  | .array bytes => arrayBytes big pos bytes
  | .fd _ => []

/-- The bytes of arguments that start at the offset `pos`. -/
def argsBytes (big : Bool) : Nat → List (WireArg δ) → List UInt8
  | _, [] => []
  | pos, arg :: args =>
      argBytes big pos arg ++ argsBytes big (pos + (argBytes big pos arg).length) args

private theorem padding_congr {m n : Nat} (h : m % 4 = n % 4) : padding m = padding n := by
  unfold padding nextMultipleOf4
  omega

private theorem add_padding (n : Nat) : (n + padding n) % 4 = 0 := by
  unfold padding nextMultipleOf4
  omega

private theorem nextMultipleOf4_eq (n : Nat) : nextMultipleOf4 n = n + padding n := by
  unfold padding nextMultipleOf4
  omega

@[simp] theorem length_neBytes (big : Bool) (v : UInt32) : (neBytes big v).length = 4 := by
  unfold neBytes
  split
  · rw [List.length_reverse, length_leBytes]
  · rw [length_leBytes]

private theorem length_arrayBytes (big : Bool) (pos : Nat) (bytes : List UInt8) :
    (arrayBytes big pos bytes).length =
      4 + bytes.length + padding (pos + 4 + bytes.length) := by
  simp [arrayBytes]
  omega

private theorem arrayBytes_congr (big : Bool) {pos pos' : Nat} (h : pos % 4 = pos' % 4)
    (bytes : List UInt8) : arrayBytes big pos bytes = arrayBytes big pos' bytes := by
  unfold arrayBytes
  rw [padding_congr (m := pos + 4 + bytes.length) (n := pos' + 4 + bytes.length) (by omega)]

private theorem argBytes_congr (big : Bool) {pos pos' : Nat} (h : pos % 4 = pos' % 4)
    (arg : WireArg δ) : argBytes big pos arg = argBytes big pos' arg := by
  unfold argBytes
  split <;> first | rfl | exact arrayBytes_congr big h _

/-- Only the offset's remainder matters. -/
theorem argsBytes_congr (big : Bool) (args : List (WireArg δ)) :
    ∀ (pos pos' : Nat), pos % 4 = pos' % 4 →
      argsBytes big pos args = argsBytes big pos' args := by
  induction args with
  | nil =>
      intro pos pos' _
      rfl
  | cons arg args ih =>
      intro pos pos' h
      have harg := argBytes_congr big h arg
      unfold argsBytes
      rw [harg, ih _ (pos' + (argBytes big pos' arg).length) (by omega)]

/-- A padded argument ends at a multiple of four of the buffer. -/
theorem argBytes_end_of_padded (big : Bool) (pos : Nat) {arg : WireArg δ} (h : arg.padded) :
    (pos + (argBytes big pos arg).length) % 4 = 0 := by
  have harray (bytes : List UInt8) : (pos + (arrayBytes big pos bytes).length) % 4 = 0 := by
    have hpad := add_padding (pos + 4 + bytes.length)
    rw [length_arrayBytes]
    omega
  cases arg with
  | str s =>
      cases s with
      | none => cases h
      | some s => exact harray _
  | array bytes => exact harray _
  | int | uint | fixed | object | newId | fd => cases h

/-- Any other argument takes a multiple of four bytes, the same ones everywhere. -/
theorem argBytes_of_not_padded (big : Bool) (pos : Nat) {arg : WireArg δ} (h : ¬arg.padded) :
    (argBytes big pos arg).length % 4 = 0 ∧ argBytes big pos arg = argBytes big 0 arg := by
  cases arg with
  | str s =>
      cases s with
      | none => simp [argBytes]
      | some s => exact absurd rfl h
  | array bytes => exact absurd rfl h
  | int | uint | fixed | object | newId | fd => simp [argBytes]

/-- After a string or an array, the arguments end at a multiple of four of the buffer. -/
theorem argsBytes_end_of_padded (big : Bool) {args : List (WireArg δ)} :
    ∀ (pos : Nat), args.any WireArg.padded ∨ pos % 4 = 0 →
      (pos + (argsBytes big pos args).length) % 4 = 0 := by
  induction args with
  | nil =>
      intro pos h
      simpa [argsBytes] using h
  | cons arg args ih =>
      intro pos h
      have hrest : args.any WireArg.padded ∨ (pos + (argBytes big pos arg).length) % 4 = 0 := by
        by_cases harg : arg.padded
        · exact .inr (argBytes_end_of_padded big pos harg)
        · rcases h with h | h
          · left
            simpa [harg] using h
          · have hlen := (argBytes_of_not_padded big pos harg).1
            right
            omega
      have hend := ih _ hrest
      rw [argsBytes, List.length_append]
      omega

private theorem argsBytes_of_not_padded (big : Bool) {args : List (WireArg δ)} :
    ∀ (pos : Nat), ¬args.any WireArg.padded →
      argsBytes big pos args = argsBytes big 0 args := by
  induction args with
  | nil =>
      intro pos _
      rfl
  | cons arg args ih =>
      intro pos h
      obtain ⟨harg, hargs⟩ : ¬arg.padded ∧ ¬args.any WireArg.padded := by
        simpa [not_or] using h
      unfold argsBytes
      rw [(argBytes_of_not_padded big pos harg).2, ih _ hargs, ih (0 + _) hargs]

/-- `args` at the offset `pos` are as at the start of a message. -/
theorem argsBytes_of_aligned (big : Bool) {args : List (WireArg δ)} {pos : Nat}
    (h : pos % 4 = 0 ∨ ¬args.any WireArg.padded) :
    argsBytes big pos args = argsBytes big 0 args := by
  rcases h with h | h
  · exact argsBytes_congr big args pos 0 (by omega)
  · exact argsBytes_of_not_padded big pos h

/-- Elsewhere the length is not a multiple of four. -/
theorem length_argsBytes_mod (big : Bool) (args : List (WireArg δ)) (pos : Nat) :
    (argsBytes big pos args).length % 4 = 0 ↔ pos % 4 = 0 ∨ ¬args.any WireArg.padded := by
  by_cases hpad : args.any WireArg.padded
  · have hend := argsBytes_end_of_padded big pos (Or.inl hpad)
    simp only [hpad, not_true_eq_false, or_false]
    omega
  · have hzero := @argsBytes_end_of_padded _ big args 0 (Or.inr rfl)
    rw [argsBytes_of_not_padded big pos hpad]
    exact ⟨fun _ => .inr hpad, fun _ => by omega⟩

/-! ## Section 3: What Is Written -/

private theorem descriptors_cons (arg : WireArg δ) (args : List (WireArg δ)) :
    descriptors (arg :: args) = arg.descriptor.toList ++ descriptors args := by
  unfold descriptors
  rw [List.filterMap_cons]
  cases arg <;> rfl

private theorem putArray_eq (big : Bool) (out bytes : List UInt8) :
    putArray big out bytes = out ++ arrayBytes big out.length bytes := by
  have hlen : (out ++ neBytes big (UInt32.ofNat bytes.length) ++ bytes).length =
      out.length + 4 + bytes.length := by simp; omega
  unfold putArray arrayBytes
  dsimp only
  rw [hlen, padding]
  simp only [List.append_assoc]

private theorem putArgs_eq (big : Bool) (args : List (WireArg δ)) :
    ∀ (out : List UInt8) (fds : List δ),
      putArgs big args out fds =
        (out ++ argsBytes big out.length args, fds ++ descriptors args) := by
  induction args with
  | nil =>
      intro out fds
      simp [putArgs, argsBytes, descriptors]
  | cons arg args ih =>
      intro out fds
      -- Each argument appends its bytes and its descriptor, and the rest follows them.
      have hstep : putArgs big (arg :: args) out fds =
          putArgs big args (out ++ argBytes big out.length arg) (fds ++ arg.descriptor.toList) := by
        cases arg with
        | str s => cases s <;> simp [putArgs, argBytes, putArray_eq, WireArg.descriptor]
        | array bytes => simp [putArgs, argBytes, putArray_eq, WireArg.descriptor]
        | int | uint | fixed | object | newId | fd =>
            simp [putArgs, argBytes, WireArg.descriptor]
      rw [hstep, ih, descriptors_cons, argsBytes]
      simp only [List.append_assoc, List.length_append]

/-- The size of a message written at the offset `pos`. -/
def WireMessage.size (big : Bool) (pos : Nat) (m : WireMessage δ) : Nat :=
  header + (argsBytes big pos m.args).length

/-- The bytes of a message written at the offset `pos`. -/
def WireMessage.bytes (big : Bool) (pos : Nat) (m : WireMessage δ) : List UInt8 :=
  headerBytes big m.sender m.opcode (m.size big pos) ++ argsBytes big pos m.args

@[simp] theorem length_headerBytes (big : Bool) (sender : UInt32) (opcode : UInt16) (size : Nat) :
    (headerBytes big sender opcode size).length = header := by
  simp [headerBytes, header]

theorem WireMessage.length_bytes (big : Bool) (pos : Nat) (m : WireMessage δ) :
    (m.bytes big pos).length = m.size big pos := by
  simp [WireMessage.bytes, WireMessage.size]

theorem write_eq (big : Bool) (m : WireMessage δ) (out : List UInt8) (fds : List δ) :
    write big m out fds =
      if 65535 < m.size big out.length then
        (.error (.bail s!"event {m.opcode} on object {m.sender} is too large ({m.size big out.length} bytes)"),
          out, fds ++ descriptors m.args)
      else (.ok (), out ++ m.bytes big out.length, fds ++ descriptors m.args) := by
  have hargs : argsBytes big (out ++ List.replicate header (0 : UInt8)).length m.args =
      argsBytes big out.length m.args := by
    apply argsBytes_congr
    simp [header]
    omega
  have hsize : (out ++ List.replicate header 0 ++ argsBytes big out.length m.args).length -
      out.length = m.size big out.length := by
    simp [WireMessage.size]
  unfold write
  simp only [putArgs_eq, hargs, hsize]
  split
  · simp
  · have hdrop : (out ++ List.replicate header 0 ++ argsBytes big out.length m.args).drop
        (out.length + header) = argsBytes big out.length m.args := by
      rw [List.drop_append_of_le_length (by simp)]
      simp [header]
    rw [hdrop]
    simp [WireMessage.bytes]

/-! ## Section 4: Reading Back -/

private theorem neNumber_neBytes (big : Bool) (v : UInt32) : neNumber big (neBytes big v) = v := by
  have hlt := v.toNat_lt
  have hle : leNat (leBytes 4 v.toNat) = v.toNat := by
    rw [leNat_leBytes]
    omega
  have hnat : ofBytes big (neBytes big v) = v.toNat := by
    cases big <;> simp [ofBytes, neBytes, hle]
  rw [neNumber, hnat, UInt32.ofNat_toNat]

private theorem neBytes_neNumber (big : Bool) {bytes : List UInt8} (h : bytes.length = 4) :
    neBytes big (neNumber big bytes) = bytes := by
  have hlt := ofBytes_lt big bytes
  rw [h] at hlt
  have hnat : (neNumber big bytes).toNat = ofBytes big bytes := by
    simp only [neNumber, UInt32.toNat_ofNat']
    omega
  unfold neBytes
  rw [hnat]
  cases big with
  | false =>
      have hle := leBytes_leNat bytes
      rw [h] at hle
      simpa [ofBytes] using hle
  | true =>
      have hle := leBytes_leNat bytes.reverse
      rw [List.length_reverse, h] at hle
      simp [ofBytes, hle]

private theorem takeU32_append (big : Bool) (v : UInt32) (rest : List UInt8) :
    takeU32 big (neBytes big v ++ rest) = .ok (v, rest) := by
  have htake : (neBytes big v ++ rest).take 4 = neBytes big v :=
    List.take_left' (length_neBytes big v)
  have hdrop : (neBytes big v ++ rest).drop 4 = rest :=
    List.drop_left' (length_neBytes big v)
  unfold takeU32
  rw [if_neg (by simp), htake, hdrop, neNumber_neBytes]

private theorem takeArray_append (big : Bool) {pos : Nat} (hpos : pos % 4 = 0) {bytes : List UInt8}
    (hlen : bytes.length < 2 ^ 32) (rest : List UInt8) :
    takeArray big (arrayBytes big pos bytes ++ rest) = .ok (bytes, rest) := by
  have hnat : (UInt32.ofNat bytes.length).toNat = bytes.length := by
    simpa using hlen
  have hpad : nextMultipleOf4 bytes.length =
      (bytes ++ List.replicate (padding (pos + 4 + bytes.length)) (0 : UInt8)).length := by
    rw [nextMultipleOf4_eq, List.length_append, List.length_replicate,
      padding_congr (m := bytes.length) (n := pos + 4 + bytes.length) (by omega)]
  have hsmall : ¬2 ^ 64 ≤ nextMultipleOf4 bytes.length := by
    unfold nextMultipleOf4
    omega
  unfold takeArray arrayBytes
  rw [List.append_assoc, List.append_assoc, takeU32_append]
  show (if 2 ^ 64 ≤ nextMultipleOf4 (UInt32.ofNat bytes.length).toNat then _ else _) = _
  rw [hnat, if_neg hsmall, if_neg (by rw [hpad]; simp), List.take_left,
    ← List.append_assoc, List.drop_left' hpad.symm]

private theorem CString.ofBytes_bytes (s : CString) : CString.ofBytes s.bytes = some s := by
  unfold CString.ofBytes
  rw [dif_pos s.noNul]

private theorem readStr_text (sender : UInt32) (opcode : UInt16) (nullable : Bool) (s : CString) :
    readStr sender opcode nullable (s.bytes ++ [0]) = .ok (some s) := by
  simp [readStr, CString.ofBytes_bytes]

/-- An argument's bytes and descriptor are read as the argument. -/
theorem readArg_argBytes (big : Bool) (sender : UInt32) (opcode : UInt16) {arg : WireArg δ}
    {ty : ArgType} (hty : arg.hasType ty) {pos : Nat} (hpos : pos % 4 = 0)
    (hlen : (argBytes big pos arg).length < 2 ^ 32) (rest : List UInt8) (fds : List δ) :
    readArg big sender opcode ty (argBytes big pos arg ++ rest) (arg.descriptor.toList ++ fds) =
      .ok (arg, rest, fds) := by
  have harray {bytes : List UInt8} (h : (arrayBytes big pos bytes).length < 2 ^ 32) :
      takeArray big (arrayBytes big pos bytes ++ rest) = .ok (bytes, rest) := by
    apply takeArray_append big hpos
    rw [length_arrayBytes] at h
    omega
  cases arg with
  | int v =>
      cases ty <;> cases hty
      simp [readArg, argBytes, takeU32_append, WireArg.descriptor, bind, Except.bind]
  | uint v =>
      cases ty <;> cases hty
      simp [readArg, argBytes, takeU32_append, WireArg.descriptor, bind, Except.bind]
  | fixed v =>
      cases ty <;> cases hty
      simp [readArg, argBytes, takeU32_append, WireArg.descriptor, bind, Except.bind]
  | object id =>
      cases ty <;> cases hty
      simp [readArg, argBytes, takeU32_append, WireArg.descriptor, bind, Except.bind]
  | newId id =>
      cases ty <;> cases hty
      simp [readArg, argBytes, takeU32_append, WireArg.descriptor, bind, Except.bind]
  | array bytes =>
      cases ty <;> cases hty
      simp [readArg, argBytes, harray hlen, WireArg.descriptor, bind, Except.bind]
  | fd d =>
      cases ty <;> cases hty
      simp [readArg, argBytes, WireArg.descriptor]
  | str s =>
      cases s with
      | some s =>
          cases ty with
          | str nullable =>
              simp [readArg, argBytes, harray hlen, readStr_text, WireArg.descriptor, bind,
                Except.bind]
          | _ => cases hty
      | none =>
          cases ty with
          | str nullable =>
              -- The null string is an array of no bytes.
              have hnull : takeArray big (neBytes big 0 ++ rest) = .ok ([], rest) := by
                unfold takeArray
                rw [takeU32_append]
                simp [bind, Except.bind, nextMultipleOf4]
              have hnullable : nullable := by simpa [WireArg.hasType] using hty
              simp [readArg, argBytes, hnull, readStr, hnullable, WireArg.descriptor, bind,
                Except.bind]
          | _ => cases hty

private theorem readArgs_argsBytes (big : Bool) (sender : UInt32) (opcode : UInt16)
    {args : List (WireArg δ)} {sig : List ArgType} (h : OfSignature args sig) (rest : List UInt8)
    (fds : List δ) :
    ∀ {pos : Nat}, pos % 4 = 0 → (argsBytes big pos args).length < 2 ^ 32 →
      readArgs big sender opcode sig (argsBytes big pos args ++ rest) (descriptors args ++ fds) =
        .ok (args, rest, fds) := by
  induction h with
  | nil =>
      intro pos _ _
      rfl
  | @cons arg ty args sig hty hargs ih =>
      intro pos hpos hlen
      rw [argsBytes, List.length_append] at hlen
      -- An argument that starts at a multiple of four ends at one.
      have hend : (pos + (argBytes big pos arg).length) % 4 = 0 := by
        by_cases hpad : arg.padded
        · exact argBytes_end_of_padded big pos hpad
        · have hmod := (argBytes_of_not_padded big pos hpad).1
          omega
      have hhead := readArg_argBytes big sender opcode hty hpos (by omega)
        (argsBytes big (pos + (argBytes big pos arg).length) args ++ rest)
        (descriptors args ++ fds)
      have htail := ih hend (by omega)
      simp only [readArgs, argsBytes, descriptors_cons, List.append_assoc, hhead, htail, bind,
        Except.bind]

private theorem countP_descriptors {args : List (WireArg δ)} {sig : List ArgType}
    (h : OfSignature args sig) : sig.countP (· = .fd) = (descriptors args).length := by
  induction h with
  | nil => rfl
  | @cons arg ty args sig hty hargs ih =>
      rw [List.countP_cons, descriptors_cons, List.length_append, ih, Nat.add_comm]
      -- The type is a descriptor's exactly when the argument is one.
      congr 1
      cases arg <;> cases ty <;> first | rfl | cases hty

/-! ## Section 5: The Header -/

/-- The second word of a header. -/
def headerWord (opcode : UInt16) (size : Nat) : UInt32 :=
  UInt32.ofNat size <<< 16 ||| opcode.toUInt32

private theorem headerWord_toNat (opcode : UInt16) (size : Nat) :
    (headerWord opcode size).toNat = size % 65536 * 65536 + opcode.toNat := by
  have hlt := opcode.toNat_lt
  have hshift : (UInt32.ofNat size <<< 16).toNat = (size % 65536) <<< 16 := by
    rw [UInt32.toNat_shiftLeft, UInt32.toNat_ofNat', Nat.shiftLeft_eq, Nat.shiftLeft_eq]
    simp
    omega
  rw [headerWord, UInt32.toNat_or, hshift, UInt16.toNat_toUInt32,
    ← Nat.shiftLeft_add_eq_or_of_lt hlt, Nat.shiftLeft_eq]

private theorem headerWord_size (opcode : UInt16) {size : Nat} (h : size ≤ 65535) :
    (headerWord opcode size >>> 16).toNat = size := by
  have hlt := opcode.toNat_lt
  rw [UInt32.toNat_shiftRight, headerWord_toNat, Nat.shiftRight_eq_div_pow]
  simp
  omega

private theorem headerWord_opcode (opcode : UInt16) (size : Nat) :
    (headerWord opcode size &&& 0xffff).toUInt16 = opcode := by
  have hlt := opcode.toNat_lt
  apply UInt16.toNat_inj.mp
  rw [UInt32.toNat_toUInt16, UInt32.toNat_and, headerWord_toNat]
  have hmask : (size % 65536 * 65536 + opcode.toNat) &&& (0xffff : UInt32).toNat =
      (size % 65536 * 65536 + opcode.toNat) % 2 ^ 16 := Nat.and_two_pow_sub_one_eq_mod _ 16
  rw [hmask]
  omega

/-- Every word is the header of some size and opcode. -/
theorem headerWord_of_word (word : UInt32) :
    headerWord (word &&& 0xffff).toUInt16 (word >>> 16).toNat = word := by
  have hlt := word.toNat_lt
  have hsize : (word >>> 16).toNat = word.toNat / 65536 := by
    rw [UInt32.toNat_shiftRight, Nat.shiftRight_eq_div_pow]
    rfl
  have hmask : word.toNat &&& (0xffff : UInt32).toNat = word.toNat % 2 ^ 16 :=
    Nat.and_two_pow_sub_one_eq_mod _ 16
  apply UInt32.toNat_inj.mp
  rw [headerWord_toNat, UInt32.toNat_toUInt16, UInt32.toNat_and, hmask, hsize]
  omega

/-- A header tells its size, up to a multiple of 65536. -/
theorem size_of_headerBytes_eq {big : Bool} {sender : UInt32} {opcode : UInt16} {size size' : Nat}
    (h : headerBytes big sender opcode size = headerBytes big sender opcode size') :
    size % 65536 = size' % 65536 := by
  have hword : neBytes big (headerWord opcode size) = neBytes big (headerWord opcode size') :=
    List.append_cancel_left h
  have heq := congrArg (neNumber big) hword
  rw [neNumber_neBytes, neNumber_neBytes] at heq
  have hnat := congrArg UInt32.toNat heq
  rw [headerWord_toNat, headerWord_toNat] at hnat
  omega

/-- What `parse` does with a buffer that starts with the header of a request it knows. -/
theorem parse_header (big : Bool) {sender : UInt32} {opcode : UInt16} {size : Nat}
    (hsize : size ≤ 65535) (body : List UInt8) (fds : List δ) {signature : Signatures}
    {sig : List ArgType} (hsig : signature sender opcode = some sig) :
    parse big (headerBytes big sender opcode size ++ body) fds signature =
      if size < header ∨ size % 4 ≠ 0 then
        .error (.bail s!"malformed message header (size {size})")
      else if header + body.length < size then .ok (none, fds)
      else readMessage big sender opcode size sig (body.take (size - header)) fds := by
  have hsender : (headerBytes big sender opcode size ++ body).take 4 = neBytes big sender := by
    rw [headerBytes, List.append_assoc]
    exact List.take_left' (length_neBytes big sender)
  have hword : ((headerBytes big sender opcode size ++ body).drop 4).take 4 =
      neBytes big (headerWord opcode size) := by
    rw [headerBytes, List.append_assoc, List.drop_left' (length_neBytes big sender)]
    exact List.take_left' (length_neBytes big _)
  have hlen : (headerBytes big sender opcode size ++ body).length = header + body.length := by
    simp
  have hbody : ((headerBytes big sender opcode size ++ body).take size).drop header =
      body.take (size - header) := by
    rw [List.drop_take, List.drop_left' (length_headerBytes big sender opcode size)]
  unfold parse
  rw [hsender, hword, hlen, neNumber_neBytes, neNumber_neBytes, if_neg (by omega)]
  simp only [headerWord_size opcode hsize, headerWord_opcode opcode size, hbody, hsig]

/-- A whole header is that of its sender, size and opcode. -/
theorem headerBytes_of_buf (big : Bool) {buf : List UInt8} (h : header ≤ buf.length) :
    let word := neNumber big ((buf.drop 4).take 4)
    headerBytes big (neNumber big (buf.take 4)) (word &&& 0xffff).toUInt16 (word >>> 16).toNat =
      buf.take header := by
  intro word
  have hword : neBytes big word = (buf.drop 4).take 4 := by
    apply neBytes_neNumber
    simp [header] at h ⊢
    omega
  have hsender : neBytes big (neNumber big (buf.take 4)) = buf.take 4 := by
    apply neBytes_neNumber
    simp [header] at h ⊢
    omega
  have hwhole := headerWord_of_word word
  unfold headerWord at hwhole
  rw [headerBytes, hwhole, hword, hsender, header, ← List.take_add]

/-! ## Section 6: There and Back -/

/-- The bytes of a message that `write` accepts at an offset are the message, and whatever
comes after it stays; less than all of them are nothing yet. -/
def RoundTrips (big : Bool) (m : WireMessage δ) (signature : Signatures) (bytes : List UInt8) :
    Prop :=
  (∀ rest others, parse big (bytes ++ rest) (descriptors m.args ++ others) signature =
    .ok (some (m, bytes.length), others)) ∧
  ∀ n < bytes.length, ∀ others : List δ,
    parse big (bytes.take n) others signature = .ok (none, others)

private theorem readMessage_bytes (big : Bool) {m : WireMessage δ} {sig : List ArgType}
    (hconf : OfSignature m.args sig) {size : Nat} (hsize : (argsBytes big 0 m.args).length < 2 ^ 32)
    (others : List δ) :
    readMessage big m.sender m.opcode size sig (argsBytes big 0 m.args)
        (descriptors m.args ++ others) =
      .ok (some (m, size), others) := by
  have hargs := readArgs_argsBytes big m.sender m.opcode hconf [] others rfl hsize
  rw [List.append_nil] at hargs
  unfold readMessage
  rw [countP_descriptors hconf, if_neg (by simp), hargs]
  rfl

/-- A message written at a multiple of four, or without padding, comes back. -/
theorem roundTrips_of_aligned (big : Bool) {m : WireMessage δ} {signature : Signatures}
    {sig : List ArgType} (hsig : signature m.sender m.opcode = some sig)
    (hconf : OfSignature m.args sig) {pos : Nat} (hfits : m.size big pos ≤ 65535)
    (haligned : pos % 4 = 0 ∨ ¬m.padded) : RoundTrips big m signature (m.bytes big pos) := by
  have hargs : argsBytes big pos m.args = argsBytes big 0 m.args :=
    argsBytes_of_aligned big haligned
  have hmod := (length_argsBytes_mod big m.args pos).mpr haligned
  have hgood : ¬(m.size big pos < header ∨ m.size big pos % 4 ≠ 0) := by
    simp only [WireMessage.size, header]
    omega
  have hargsLen : (argsBytes big pos m.args).length = m.size big pos - header := by
    simp [WireMessage.size]
  constructor
  -- All of it has arrived, with others behind it.
  · intro rest others
    have hlen := m.length_bytes big pos
    rw [hlen]
    unfold WireMessage.bytes
    rw [List.append_assoc, parse_header big hfits _ _ hsig, if_neg hgood,
      if_neg (by rw [List.length_append]; omega), ← hargsLen, List.take_left, hargs]
    apply readMessage_bytes big hconf
    rw [← hargs]
    omega
  -- A part of it has arrived.
  · intro n hn others
    rw [m.length_bytes] at hn
    by_cases hshort : n < header
    · -- Not even the header has arrived.
      unfold parse
      rw [if_pos]
      simp
      omega
    · have htake : (m.bytes big pos).take n =
          headerBytes big m.sender m.opcode (m.size big pos) ++
            (argsBytes big pos m.args).take (n - header) := by
        unfold WireMessage.bytes
        rw [List.take_append, length_headerBytes, List.take_of_length_le (by simp; omega)]
      rw [htake, parse_header big hfits _ _ hsig, if_neg hgood, if_pos]
      rw [List.length_take]
      omega

/-- Elsewhere a padded message has a size that no message has. -/
theorem not_roundTrips (big : Bool) {m : WireMessage δ} {signature : Signatures}
    {sig : List ArgType} (hsig : signature m.sender m.opcode = some sig) {pos : Nat}
    (hfits : m.size big pos ≤ 65535) (hmisaligned : ¬(pos % 4 = 0 ∨ ¬m.padded)) :
    ¬RoundTrips big m signature (m.bytes big pos) := by
  intro h
  have hmod := (length_argsBytes_mod big m.args pos).not.mpr hmisaligned
  have hbad : m.size big pos < header ∨ m.size big pos % 4 ≠ 0 := by
    right
    simp only [WireMessage.size, header]
    omega
  have hparse := h.1 [] []
  unfold WireMessage.bytes at hparse
  rw [List.append_assoc, parse_header big hfits _ _ hsig, if_pos hbad] at hparse
  cases hparse

/-- Two streams that start with a message, at an offset and at 0, differ unless the message
is the same at both. -/
theorem bytes_append_eq_iff (big : Bool) (m : WireMessage δ) (pos : Nat) (rest rest' : List UInt8) :
    m.bytes big pos ++ rest = m.bytes big 0 ++ rest' ↔
      (pos % 4 = 0 ∨ ¬m.padded) ∧ rest = rest' := by
  have hzero := (length_argsBytes_mod big m.args 0).mpr (.inl rfl)
  have haligned := length_argsBytes_mod big m.args pos
  constructor
  · intro h
    have hheader : headerBytes big m.sender m.opcode (m.size big pos) =
        headerBytes big m.sender m.opcode (m.size big 0) := by
      have htake := congrArg (List.take header) h
      simp only [WireMessage.bytes, List.append_assoc] at htake
      rwa [List.take_left' (length_headerBytes ..), List.take_left' (length_headerBytes ..)] at htake
    have hsize := size_of_headerBytes_eq hheader
    have hpos : pos % 4 = 0 ∨ ¬m.padded := by
      apply haligned.mp
      simp only [WireMessage.size, header] at hsize
      omega
    refine ⟨hpos, ?_⟩
    have hargs : argsBytes big pos m.args = argsBytes big 0 m.args := argsBytes_of_aligned big hpos
    simp only [WireMessage.bytes, WireMessage.size, hargs] at h
    exact List.append_cancel_left h
  · intro ⟨hpos, hrest⟩
    have hargs : argsBytes big pos m.args = argsBytes big 0 m.args := argsBytes_of_aligned big hpos
    simp only [WireMessage.bytes, WireMessage.size, hargs, hrest]

/-! ## Section 7: Back and There -/

/-- The body of a request with this signature, with zeros for its padding. -/
def clearPadding (big : Bool) : List ArgType → List UInt8 → List UInt8
  | [], body => body
  | .fd :: sig, body => clearPadding big sig body
  | .str _ :: sig, body | .array :: sig, body =>
      let len := (neNumber big (body.take 4)).toNat
      body.take (4 + len) ++ List.replicate (padding len) 0 ++
        clearPadding big sig (body.drop (4 + nextMultipleOf4 len))
  | _ :: sig, body => body.take 4 ++ clearPadding big sig (body.drop 4)

/-- `write` appends a message it accepts as it was received, up to padding. -/
def WritesBack (big : Bool) (out buf : List UInt8) (m : WireMessage δ) (size : Nat)
    (sig : List ArgType) : Prop :=
  write big m out [] =
    (.ok (), out ++ (buf.take header ++ clearPadding big sig ((buf.take size).drop header)),
      descriptors m.args)

private theorem takeU32_eq_ok {big : Bool} {body rest : List UInt8} {v : UInt32}
    (h : takeU32 big body = .ok (v, rest)) :
    body.take 4 = neBytes big v ∧ rest = body.drop 4 ∧ body = neBytes big v ++ rest := by
  unfold takeU32 at h
  split at h
  · cases h
  · rename_i hlen
    obtain ⟨rfl, rfl⟩ : neNumber big (body.take 4) = v ∧ body.drop 4 = rest := by simpa using h
    have hbytes : neBytes big (neNumber big (body.take 4)) = body.take 4 :=
      neBytes_neNumber big (by simp; omega)
    exact ⟨hbytes.symm, rfl, by rw [hbytes, List.take_append_drop]⟩

private theorem takeArray_eq_ok {big : Bool} {body bytes rest : List UInt8}
    (h : takeArray big body = .ok (bytes, rest)) :
    let len := (neNumber big (body.take 4)).toNat
    bytes.length = len ∧ rest = body.drop (4 + nextMultipleOf4 len) ∧
      4 + nextMultipleOf4 len ≤ body.length ∧
      body.take (4 + len) ++ List.replicate (padding len) 0 = arrayBytes big 0 bytes := by
  unfold takeArray at h
  cases htake : takeU32 big body with
  | error e =>
      rw [htake] at h
      cases h
  | ok r =>
      obtain ⟨v, body'⟩ := r
      obtain ⟨hhead, rfl, hbody⟩ := takeU32_eq_ok htake
      rw [hhead, neNumber_neBytes]
      rw [htake] at h
      replace h : (if 2 ^ 64 ≤ nextMultipleOf4 v.toNat then _
        else if (body.drop 4).length < nextMultipleOf4 v.toNat then _ else _) =
          Except.ok (bytes, rest) := h
      split at h
      · cases h
      split at h
      · cases h
      rename_i hlen
      obtain ⟨rfl, rfl⟩ : (body.drop 4).take v.toNat = bytes ∧
          (body.drop 4).drop (nextMultipleOf4 v.toNat) = rest := by simpa using h
      have hbytes : ((body.drop 4).take v.toNat).length = v.toNat := by
        rw [nextMultipleOf4_eq] at hlen
        rw [List.length_take]
        omega
      have hbodyLen := congrArg List.length hbody
      simp only [List.length_append, length_neBytes] at hbodyLen
      refine ⟨hbytes, List.drop_drop, by omega, ?_⟩
      unfold arrayBytes
      rw [hbytes, UInt32.ofNat_toNat, padding_congr (m := 0 + 4 + v.toNat) (n := v.toNat) (by omega),
        List.take_add, hhead]

private theorem readStr_eq_ok {sender : UInt32} {opcode : UInt16} {nullable : Bool} {bytes : List UInt8}
    {s : Option CString} (h : readStr sender opcode nullable bytes = .ok s) (big : Bool) :
    arrayBytes big 0 bytes = argBytes big 0 (.str s : WireArg δ) := by
  unfold readStr at h
  dsimp only at h
  split at h
  · rename_i hlast
    obtain rfl := List.getLast?_eq_none_iff.mp hlast
    split at h
    · obtain rfl : none = s := by simpa using h
      simp [arrayBytes, argBytes, padding, nextMultipleOf4]
    · cases h
  · rename_i last hlast
    split at h
    · rename_i hnul
      subst hnul
      split at h
      · rename_i text htext
        obtain rfl : some text = s := by simpa using h
        -- The text is everything before the last byte, a NUL.
        have hbytes : bytes = text.bytes ++ [0] := by
          unfold CString.ofBytes at htext
          split at htext
          · obtain rfl := Option.some.inj htext
            exact (List.dropLast_append_getLast? 0 hlast).symm
          · cases htext
        rw [hbytes]
        rfl
      · cases h
    · cases h

/-- What reading an argument takes: its bytes, up to padding, and its descriptor. -/
theorem readArg_eq_ok {big : Bool} {sender : UInt32} {opcode : UInt16} {ty : ArgType}
    {body rest : List UInt8} {fds fds' : List δ} {arg : WireArg δ}
    (h : readArg big sender opcode ty body fds = .ok (arg, rest, fds')) (sig : List ArgType) :
    clearPadding big (ty :: sig) body = argBytes big 0 arg ++ clearPadding big sig rest ∧
      body.length = (argBytes big 0 arg).length + rest.length ∧
      fds = arg.descriptor.toList ++ fds' := by
  -- A number is four bytes.
  have hnumber (wrap : UInt32 → WireArg δ)
      (hread : (takeU32 big body >>= fun r => .ok (wrap r.1, r.2, fds)) = Except.ok (arg, rest, fds'))
      (hbytes : ∀ v, argBytes big 0 (wrap v) = neBytes big v)
      (hfd : ∀ v, (wrap v).descriptor = none) :
      body.take 4 ++ clearPadding big sig (body.drop 4) =
          argBytes big 0 arg ++ clearPadding big sig rest ∧
        body.length = (argBytes big 0 arg).length + rest.length ∧
        fds = arg.descriptor.toList ++ fds' := by
    cases htake : takeU32 big body with
    | error e =>
        rw [htake] at hread
        cases hread
    | ok r =>
        obtain ⟨v, body'⟩ := r
        obtain ⟨hhead, htail, hbody⟩ := takeU32_eq_ok htake
        rw [htake] at hread
        obtain ⟨rfl, rfl, rfl⟩ : wrap v = arg ∧ body' = rest ∧ fds = fds' := by
          simpa [bind, Except.bind] using hread
        refine ⟨by rw [hbytes, hhead, htail], ?_, by simp [hfd]⟩
        conv_lhs => rw [hbody]
        rw [hbytes, List.length_append]
  -- A string or an array is its length, its bytes, and padding.
  have harray {bytes : List UInt8} (hread : takeArray big body = .ok (bytes, rest))
      (hbytes : arrayBytes big 0 bytes = argBytes big 0 arg) (hfd : arg.descriptor = none)
      (hfds : fds = fds') :
      (let len := (neNumber big (body.take 4)).toNat
       body.take (4 + len) ++ List.replicate (padding len) 0 ++
          clearPadding big sig (body.drop (4 + nextMultipleOf4 len))) =
          argBytes big 0 arg ++ clearPadding big sig rest ∧
        body.length = (argBytes big 0 arg).length + rest.length ∧
        fds = arg.descriptor.toList ++ fds' := by
    obtain ⟨hsize, hrest, hle, htake⟩ := takeArray_eq_ok hread
    refine ⟨?_, ?_, by simp [hfd, hfds]⟩
    · dsimp only
      rw [htake, hbytes, ← hrest]
    · rw [← hbytes, length_arrayBytes, hrest, List.length_drop, ← hsize,
        padding_congr (m := 0 + 4 + bytes.length) (n := bytes.length) (by omega)]
      rw [← hsize, nextMultipleOf4_eq] at hle
      rw [nextMultipleOf4_eq]
      omega
  cases ty with
  | int => exact hnumber (fun v => .int v.toInt32) h (fun v => by simp [argBytes]) fun _ => rfl
  | uint => exact hnumber .uint h (fun _ => rfl) fun _ => rfl
  | fixed =>
      exact hnumber (fun v => .fixed v.toInt32) h (fun v => by simp [argBytes]) fun _ => rfl
  | object nullable => exact hnumber .object h (fun _ => rfl) fun _ => rfl
  | newId => exact hnumber .newId h (fun _ => rfl) fun _ => rfl
  | str nullable =>
      simp only [readArg] at h
      obtain ⟨⟨bytes, body'⟩, htake, h⟩ := bind_eq_ok h
      obtain ⟨s, hs, h⟩ := bind_eq_ok h
      obtain ⟨rfl, rfl, rfl⟩ : .str s = arg ∧ body' = rest ∧ fds = fds' := by simpa using h
      exact harray htake (readStr_eq_ok hs big) rfl rfl
  | array =>
      simp only [readArg] at h
      obtain ⟨⟨bytes, body'⟩, htake, h⟩ := bind_eq_ok h
      obtain ⟨rfl, rfl, rfl⟩ : .array bytes = arg ∧ body' = rest ∧ fds = fds' := by simpa using h
      exact harray htake rfl rfl rfl
  | fd =>
      cases fds with
      | nil => cases h
      | cons d fds =>
          obtain ⟨rfl, rfl, rfl⟩ : .fd d = arg ∧ body = rest ∧ fds = fds' := by
            simpa [readArg] using h
          simp [clearPadding, argBytes, WireArg.descriptor]

private theorem readArgs_eq_ok {big : Bool} {sender : UInt32} {opcode : UInt16} {sig : List ArgType} :
    ∀ {body rest : List UInt8} {fds fds' : List δ} {args : List (WireArg δ)},
      readArgs big sender opcode sig body fds = .ok (args, rest, fds') →
        clearPadding big sig body = argsBytes big 0 args ++ rest ∧
          body.length = (argsBytes big 0 args).length + rest.length ∧
          fds = descriptors args ++ fds' := by
  induction sig with
  | nil =>
      intro body rest fds fds' args h
      obtain ⟨rfl, rfl, rfl⟩ : [] = args ∧ body = rest ∧ fds = fds' := by
        simpa [readArgs] using h
      simp [clearPadding, argsBytes, descriptors]
  | cons ty sig ih =>
      intro body rest fds fds' args h
      simp only [readArgs] at h
      obtain ⟨⟨arg, body₁, fds₁⟩, harg, h⟩ := bind_eq_ok h
      obtain ⟨⟨args₁, body₂, fds₂⟩, hargs, h⟩ := bind_eq_ok h
      obtain ⟨rfl, rfl, rfl⟩ : arg :: args₁ = args ∧ body₂ = rest ∧ fds₂ = fds' := by
        simpa using h
      obtain ⟨hbytes, hlen, hfds⟩ := readArg_eq_ok harg sig
      obtain ⟨hbytes₁, hlen₁, hfds₁⟩ := ih hargs
      dsimp only at hbytes₁ hlen₁ hfds₁
      -- The next argument starts at a multiple of four again.
      have hend : (0 + (argBytes big 0 arg).length) % 4 = 0 := by
        by_cases hpad : arg.padded
        · exact argBytes_end_of_padded big 0 hpad
        · have hmod := (argBytes_of_not_padded big 0 hpad).1
          omega
      have hrest : argsBytes big (0 + (argBytes big 0 arg).length) args₁ =
          argsBytes big 0 args₁ := argsBytes_of_aligned big (.inl hend)
      rw [argsBytes, hrest, descriptors_cons]
      refine ⟨by rw [hbytes, hbytes₁, List.append_assoc], ?_, by
        rw [hfds, hfds₁, List.append_assoc]⟩
      rw [List.length_append]
      omega

/-- What `parse` accepts, and what it takes for it. -/
theorem parse_eq_some {big : Bool} {buf : List UInt8} {fds fds' : List δ} {signature : Signatures}
    {m : WireMessage δ} {size : Nat}
    (h : parse big buf fds signature = .ok (some (m, size), fds')) :
    ∃ sig, signature m.sender m.opcode = some sig ∧ size ≤ 65535 ∧
      buf.take header = headerBytes big m.sender m.opcode size ∧
      size = m.size big 0 ∧ size % 4 = 0 ∧
      clearPadding big sig ((buf.take size).drop header) = argsBytes big 0 m.args ∧
      fds = descriptors m.args ++ fds' := by
  unfold parse at h
  split at h
  · cases h
  rename_i hheader
  have hbytes := headerBytes_of_buf big (Nat.le_of_not_lt hheader)
  dsimp only at h hbytes
  generalize hword : neNumber big ((buf.drop 4).take 4) = word at h hbytes
  have hlt := word.toNat_lt
  have hmax : (word >>> 16).toNat ≤ 65535 := by
    rw [UInt32.toNat_shiftRight, Nat.shiftRight_eq_div_pow]
    simp
    omega
  split at h
  · cases h
  rename_i hgood
  split at h
  · cases h
  rename_i hwhole
  split at h
  · cases h
  rename_i sig hsig
  unfold readMessage at h
  split at h
  · cases h
  obtain ⟨⟨args, rest, fds₁⟩, hargs, h⟩ := bind_eq_ok h
  dsimp only at h
  split at h
  · cases h
  rename_i hrest
  obtain rfl : rest = [] := by simpa using hrest
  simp only [Except.ok.injEq, Prod.mk.injEq, Option.some.injEq] at h
  obtain ⟨⟨rfl, rfl⟩, rfl⟩ := h
  obtain ⟨hclear, hlen, hfds⟩ := readArgs_eq_ok hargs
  rw [List.append_nil] at hclear
  rw [List.length_drop, List.length_take, List.length_nil, Nat.add_zero] at hlen
  refine ⟨sig, hsig, hmax, hbytes.symm, ?_, by omega, hclear, hfds⟩
  simp only [WireMessage.size]
  omega

/-- A message that was accepted is written back where its padding is that of a message. -/
theorem writesBack_iff {big : Bool} {buf : List UInt8} {fds fds' : List δ}
    {signature : Signatures} {m : WireMessage δ} {size : Nat}
    (h : parse big buf fds signature = .ok (some (m, size), fds')) (out : List UInt8) :
    (∃ sig, signature m.sender m.opcode = some sig ∧ fds = descriptors m.args ++ fds' ∧
      WritesBack big out buf m size sig) ↔ out.length % 4 = 0 ∨ ¬m.padded := by
  obtain ⟨sig, hsig, hmax, hheader, hsize, hmod, hclear, hfds⟩ := parse_eq_some h
  constructor
  · intro ⟨sig', hsig', _, hback⟩
    cases hsig.symm.trans hsig'
    unfold WritesBack at hback
    rw [write_eq, hclear, hheader] at hback
    split at hback
    · cases hback
    -- What was written has the size of what was received, a multiple of four.
    have hbytes : m.bytes big out.length =
        headerBytes big m.sender m.opcode size ++ argsBytes big 0 m.args := by
      simpa using hback
    have hlen := congrArg List.length hbytes
    rw [m.length_bytes, List.length_append, length_headerBytes] at hlen
    apply (length_argsBytes_mod big m.args out.length).mp
    simp only [WireMessage.size, header] at hlen hsize
    omega
  · intro haligned
    have hargs : argsBytes big out.length m.args = argsBytes big 0 m.args :=
      argsBytes_of_aligned big haligned
    have hsize' : m.size big out.length = size := by
      rw [hsize, WireMessage.size, WireMessage.size, hargs]
    refine ⟨sig, hsig, hfds, ?_⟩
    unfold WritesBack
    rw [write_eq, hclear, hheader, hsize', if_neg (by omega), WireMessage.bytes, hsize', hargs]
    rfl

/-! ## Section 8: Where Messages Come Back -/

/-- A message that fits comes back, and one that was received is written back, exactly
when the output buffer ends at a multiple of four or the message has no string and no
array. One that is too large leaves the buffer as it was. -/
theorem wire_round_trip_iff (big : Bool) (out : List UInt8) :
    (∀ (m : WireMessage δ) (signature : Signatures) (sig : List ArgType),
      signature m.sender m.opcode = some sig → OfSignature m.args sig →
      m.size big out.length ≤ 65535 →
        ∃ bytes, write big m out [] = (.ok (), out ++ bytes, descriptors m.args) ∧
          (RoundTrips big m signature bytes ↔ out.length % 4 = 0 ∨ ¬m.padded)) ∧
    (∀ (buf : List UInt8) (fds fds' : List δ) (signature : Signatures) (m : WireMessage δ)
        (size : Nat), parse big buf fds signature = .ok (some (m, size), fds') →
      ((∃ sig, signature m.sender m.opcode = some sig ∧ fds = descriptors m.args ++ fds' ∧
        WritesBack big out buf m size sig) ↔ out.length % 4 = 0 ∨ ¬m.padded)) ∧
    ∀ (m : WireMessage δ) (fds : List δ), 65535 < m.size big out.length →
      ∃ text, write big m out fds = (.error (.bail text), out, fds ++ descriptors m.args) := by
  refine ⟨?_, ?_, ?_⟩
  · intro m signature sig hsig hconf hfits
    refine ⟨m.bytes big out.length, ?_, ?_⟩
    · rw [write_eq, if_neg (by omega)]
      rfl
    constructor
    · intro htrips
      by_contra hmisaligned
      exact not_roundTrips big hsig hfits hmisaligned htrips
    · intro haligned
      exact roundTrips_of_aligned big hsig hconf hfits haligned
  · intro buf fds fds' signature m size hparse
    exact writesBack_iff hparse out
  · intro m fds hlarge
    rw [write_eq, if_pos hlarge]
    exact ⟨_, rfl⟩

/-- A number and an array for the object 3, into an empty output buffer. -/
theorem wire_round_trip_iff_example :
    let m : WireMessage Nat := { sender := 3, opcode := 1, args := [.uint 7, .array [104, 105]] }
    ∃ bytes, write false m [] [] = (.ok (), bytes, []) ∧
      RoundTrips false m (fun _ _ => some [.uint, .array]) bytes := by
  intro m
  have hconf : OfSignature m.args [.uint, .array] := .cons rfl (.cons rfl .nil)
  obtain ⟨bytes, hwrite, hiff⟩ := (wire_round_trip_iff false []).1 m
    (fun _ _ => some [.uint, .array]) [.uint, .array] rfl hconf (by decide)
  exact ⟨bytes, hwrite, hiff.mpr (.inl rfl)⟩

/-- After a part of a write, one byte of an earlier message is left: an array of one byte is
then padded to that byte, and not read back. -/
theorem wire_round_trip_fails :
    ∃ (out : List UInt8) (m : WireMessage Nat) (sig : List ArgType) (bytes : List UInt8),
      OfSignature m.args sig ∧ write false m out [] = (.ok (), out ++ bytes, []) ∧
        ¬RoundTrips false m (fun _ _ => some sig) bytes := by
  let m : WireMessage Nat := { sender := 3, opcode := 1, args := [.array [104]] }
  have hconf : OfSignature m.args [.array] := .cons rfl .nil
  have hwrite : write false m [0] [] = (.ok (), [0] ++ m.bytes false 1, []) := by decide
  have hmisaligned : ¬(1 % 4 = 0 ∨ ¬m.padded) := by decide
  exact ⟨[0], m, [.array], m.bytes false 1, hconf, hwrite,
    not_roundTrips false rfl (by decide) hmisaligned⟩

end Psbox.Decorations
