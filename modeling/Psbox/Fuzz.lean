import Psbox.DBus.NoPanic.Messages
import Psbox.Portal.Policy

/-!
# Any Bytes as a Message

The target `dbus_message` of `fuzz.rs`: bytes are parsed as the gateway parses them, the
arguments decoded, the message checked against the portal policy, and encoded again. It runs
the functions that check every step, and ends on any bytes.
-/

namespace Psbox.Fuzz

open Psbox.DBus Psbox.Portal
open Psbox.Foundations (exists_of_isOk)
open Psbox.DBus.Checked (len Consumes)

/-! ## Section 1: The Target -/

/-- `let _ = ..`: a reported error is dropped, a panic is not. -/
def drop {α : Type} : Except Failure α → Except Failure Unit
  | .ok _ => .ok ()
  | .error (.reported _) => .ok ()
  | .error e => .error e

/-- `portal::check`, whose one step that can panic is decoding the arguments. -/
def check (policy : Policy) (identified : Bool) (msg : Message) : Except Failure Verdict := do
  drop (Checked.Message.args msg)
  .ok (Portal.check policy identified msg)

/-- The policy of the target, with every optional portal. -/
def everyPortal : Policy := { camera := true, realtime := true }

def dbusMessage (data : List UInt8) : Except Failure Unit :=
  match Checked.Message.parse data with
  | .error (.reported _) => .ok ()
  | .error e => .error e
  | .ok msg => do
      drop (Checked.Message.args msg)
      let _ ← check everyPortal true msg
      let _ ← check everyPortal false msg
      let encoded ← Checked.Message.encode msg 1
      drop (Checked.Message.parse encoded)

/-! ## Section 2: Nothing Panics -/

theorem drop_of_fair {α : Type} {x y : Except Failure α} (h : Fair x y) : drop x = .ok () := by
  rw [h.eq]
  cases y with
  | ok a => rfl
  | error e =>
      obtain ⟨why, rfl⟩ := h.safe e rfl
      rfl

theorem check_eq {msg : Message} (h : Fair (Checked.Message.args msg) msg.args) (policy : Policy)
    (identified : Bool) : check policy identified msg = .ok (Portal.check policy identified msg) := by
  unfold check
  rw [drop_of_fair h]
  rfl

/-- What is done with a message that was parsed. -/
structure Handled (msg : Message) : Prop where
  args : Fair (Checked.Message.args msg) msg.args
  check : ∀ policy identified,
    Fuzz.check policy identified msg = .ok (Portal.check policy identified msg)
  encode : ∀ serial, Checked.Message.encode msg serial = .ok (msg.encode serial)

theorem handled_of_parse {data : List UInt8} {msg : Message} (h : Message.parse data = .ok msg) :
    Handled msg := by
  obtain ⟨hof, hmax⟩ := Checked.wellFormed_of_parse h
  have hargs := Checked.args_fair hof hmax
  exact ⟨hargs, check_eq hargs, Checked.encode_ok hof hmax⟩

theorem dbusMessage_ok (data : List UInt8) : dbusMessage data = .ok () := by
  have hparse := Checked.parse_fair data
  unfold dbusMessage
  rw [hparse.eq]
  cases h : Message.parse data with
  | error e =>
      obtain ⟨why, rfl⟩ := hparse.safe e h
      rfl
  | ok msg =>
      have hmsg := handled_of_parse h
      have hargs := drop_of_fair hmsg.args
      have hidentified := hmsg.check everyPortal true
      have hunidentified := hmsg.check everyPortal false
      have hencode := hmsg.encode 1
      show (drop (Checked.Message.args msg) >>= fun _ => check everyPortal true msg >>= fun _ =>
        check everyPortal false msg >>= fun _ => Checked.Message.encode msg 1 >>= fun encoded =>
          drop (Checked.Message.parse encoded)) = _
      rw [hargs, ok_bind, hidentified, ok_bind, hunidentified, ok_bind, hencode, ok_bind]
      exact drop_of_fair (Checked.parse_fair _)

theorem depth_of_decodeBody {sig : Signature} {body : List UInt8} {big : Bool} {vs : List Value}
    (h : decodeBody sig body big = .ok vs) : ∀ v ∈ vs, v.depth ≤ maxDepth + 1 := by
  intro v hv
  obtain ⟨_, _, htyped, _⟩ := decodeBody_eq_ok.mp h
  exact (htyped v hv).depth_le

/-- On any bytes, the decoder and what works on its messages end, with a value or an error
that is reported. Every item of an array takes a byte at least, and values nest no deeper
than the limit, those inside variants included.

A body and a signature that come from elsewhere are no longer than a slice can be. -/
theorem decoder_never_panics (data : List UInt8) :
    Fair (Checked.Message.parseHeader data) (Message.parseHeader data) ∧
      Fair (Checked.Message.parse data) (Message.parse data) ∧
      (∀ msg, Message.parse data = .ok msg → Handled msg) ∧ dbusMessage data = .ok () ∧
      (∀ sig, len sig < maxLen → Fair (Checked.splitSignature sig) (splitSignature sig)) ∧
      (∀ sig big, len sig < maxLen → data.length < maxLen →
        Fair (Checked.decodeBody sig data big) (decodeBody sig data big)) ∧
      (∀ sig big vs, decodeBody sig data big = .ok vs → ∀ v ∈ vs, v.depth ≤ maxDepth + 1) ∧
      (∀ n m elem, IsType m elem → Consumes (Reader.readDepth n elem)) ∧
      ∀ n m l k v, IsType m k → IsType l v →
        Consumes (Reader.readEntry (Reader.readDepth n k) (Reader.readDepth n v)) :=
  ⟨Checked.parseHeader_fair data, Checked.parse_fair data, fun _ => handled_of_parse,
    dbusMessage_ok data, fun _ => Checked.splitSignature_fair,
    fun _ big hsig hdata => Checked.decodeBody_fair hsig hdata big,
    fun _ _ _ => depth_of_decodeBody, fun n _ _ ht => Checked.consumes_readDepth ht n,
    fun n _ _ _ _ hk hv => Checked.consumes_entry hk hv n⟩

/-- A big-endian reply, with a field of no known code. -/
def bigEndianReply : List UInt8 :=
  [66, 2, 1, 1, 0, 0, 0, 4, 0, 0, 0, 9, 0, 0, 0, 23, 5, 1, 117, 0, 0, 0, 0, 3, 200, 1, 121, 0, 7, 0, 0,
    0, 8, 1, 103, 0, 1, 117, 0, 0, 0, 0, 0, 1]

theorem decoder_never_panics_example : (∃ msg, Message.parse bigEndianReply = .ok msg ∧ Handled msg) ∧
    Fair (Checked.decodeBody ['a', 'y'] bigEndianReply true)
      (decodeBody ['a', 'y'] bigEndianReply true) := by
  obtain ⟨_, _, hhandled, _, _, hbody, _⟩ := decoder_never_panics bigEndianReply
  have hok : (Message.parse bigEndianReply).isOk = true := by decide +kernel
  obtain ⟨msg, hmsg⟩ := exists_of_isOk hok
  exact ⟨⟨msg, hmsg, hhandled msg hmsg⟩, hbody ['a', 'y'] true (by decide) (by decide)⟩

end Psbox.Fuzz
