import Mathlib.Data.List.AList
import Mathlib.Data.List.Dedup
import Mathlib.Data.List.Sort
import Psbox.Devices.Udev
import Psbox.Foundations.Runs

/-!
# Devices of the Sandbox

How the supervisor keeps the sandbox's `/dev` (`reconcile`, `publish` and `unpublish` of `supervisor.rs`). A
device's node is attached in psbox's own directory there and recorded, and then a symlink is made for each of
its names. Each step can fail, and what is undone for that can fail too.

A node that is there is recorded, and a record that is not complete is a reason for a restart
(`nodes_are_known`). A device that is looked at is there afterwards when it is granted, unless something
fails (`rescan_exact`). The links lead to nodes that are there, as far as they can be removed, but for those
that are left in psbox's directory because they could not be renamed (`links_lead_to_nodes`).
-/

namespace Psbox.Devices

open Psbox.Foundations
open Psbox.Desktop (Text)
open Psbox.Sandbox (DeviceClass)

/-! ## Section 1: State -/

/-- A record of a published device (`Published`). Its names come first the node's own, then its links. -/
structure Record where
  names : List Text
  hidden : Text
  /-- All links are in place. -/
  complete : Bool
  deriving DecidableEq, Repr

/-- What a failed removal leaves behind as a reason for a restart. -/
abbrev Reason := Text × Number

def Record.reason (p : Record) (n : Number) : Reason :=
  (p.names.headD [], n)

/-- The sandbox's `/dev`, and what the supervisor has noted. -/
structure Dev where
  records : AList fun _ : Number => Record := ∅
  /-- How many nodes are attached at an entry of psbox's directory. -/
  nodes : Text → Nat := fun _ => 0
  /-- The symlinks of devices, by their paths in `/dev`. -/
  links : Text → Option Text := fun _ => none
  /-- The removals among what is not applied. -/
  unapplied : List Reason := []

/-- What fails in the removal of a device: by their number its links, and its node. -/
structure RemovalFaults where
  unlink : Nat → Bool := fun _ => false
  detach : Bool := false

/-- Where making a link fails. -/
inductive LinkFault where
  /-- Before anything changes. -/
  | point
  /-- The old temporary link is gone. -/
  | symlink
  /-- The temporary link is made, and stays. -/
  | rename
  deriving DecidableEq, Repr

/-- What fails in a look at a device: the removal of what is left of it, everything up to its node, by their
number its links, and the removal it comes to. -/
structure Faults where
  cleanup : RemovalFaults := {}
  node : Bool := false
  link : Nat → Option LinkFault := fun _ => none
  removal : RemovalFaults := {}

/-- All links can be removed. -/
def Faults.Unlinks (f : Faults) : Prop :=
  ∀ i, f.cleanup.unlink i = false ∧ f.removal.unlink i = false

/-- Nothing fails but that links may stay. -/
def Faults.Harmless (f : Faults) : Prop :=
  f.cleanup.detach = false ∧ f.node = false ∧ (∀ i, f.link i = none) ∧ f.removal.detach = false

/-! ## Section 2: Links -/

abbrev Links := Text → Option Text

/-- Where a link is made before it is renamed. -/
def tempName (name : Text) : Text :=
  hiddenDir ++ "/.link-".toList ++ name.map fun c => if c = '/' then '_' else c

/-- `publish_link`, and whether it did not fail. -/
def publishLink (name target : Text) (fault : Option LinkFault) (L : Links) : Links × Bool :=
  match fault with
  | some .point => (L, false)
  | some .symlink => (Function.update L (tempName name) none, false)
  | some .rename => (Function.update L (tempName name) (some target), false)
  | none => (Function.update (Function.update L (tempName name) none) name (some target), true)

/-- `publish_link` for some names, until one fails. -/
def publishLinks (hidden : Text) : List Text → (Nat → Option LinkFault) → Links → Links × Bool
  | [], _, L => (L, true)
  | name :: names, fault, L =>
      let linked := publishLink name (linkTarget name hidden) (fault 0) L
      if linked.2 then publishLinks hidden names (fun i => fault (i + 1)) linked.1 else linked

/-- `unlink_if_ours` for some names. -/
def unlinkAll (hidden : Text) : List Text → (Nat → Bool) → Links → Links
  | [], _, L => L
  | name :: names, fault, L =>
      unlinkAll hidden names (fun i => fault (i + 1))
        (if L name = some (linkTarget name hidden) ∧ !fault 0 then Function.update L name none else L)

/-! ## Section 3: Reconciling -/

namespace Dev

/-- `unpublish`, and whether it did not fail. -/
def unpublish (s : Dev) (n : Number) (faults : RemovalFaults) : Dev × Bool :=
  match s.records.lookup n with
  | none => (s, true)
  | some p =>
      let p := { p with complete := false }
      let s := { s with
        records := s.records.insert n p
        links := unlinkAll p.hidden p.names faults.unlink s.links }
      if faults.detach ∨ s.nodes p.hidden = 0 then
        ({ s with unapplied := if p.reason n ∈ s.unapplied then s.unapplied else s.unapplied ++ [p.reason n] }, false)
      else
        ({ s with
          records := s.records.erase n
          nodes := Function.update s.nodes p.hidden (s.nodes p.hidden - 1)
          unapplied := s.unapplied.filter (· ≠ p.reason n) }, true)

/-- `publish`: the device's names are recorded as soon as its node is attached. -/
def publish (s : Dev) (d : Device) (faults : Faults) : Dev :=
  if faults.node then s
  else
    let p : Record := { names := d.devname :: d.links, hidden := hiddenName d.number, complete := false }
    let linked := publishLinks p.hidden p.names faults.link s.links
    let s := { s with
      records := s.records.insert d.number p
      nodes := Function.update s.nodes p.hidden (s.nodes p.hidden + 1)
      links := linked.1 }
    if linked.2 then { s with records := s.records.insert d.number { p with complete := true } }
    else (s.unpublish d.number faults.removal).1

/-- The start of `reconcile`: what a failure has left is cleaned up before anything else. -/
def cleanUp (s : Dev) (n : Number) (faults : RemovalFaults) : Dev × Bool :=
  if (s.records.lookup n).any fun p => !p.complete then s.unpublish n faults else (s, true)

/-- The rest of it, for a device as it is read and the classes that the plan grants. -/
def settle (s : Dev) (n : Number) (d : Option Device) (granted : List DeviceClass) (faults : Faults) : Dev :=
  let classes := match d with
    | some d => classify d granted
    | none => []
  match d, classes.isEmpty, (s.records.lookup n).isSome with
  | some d, false, false => s.publish d faults
  | _, true, true => (s.unpublish n faults.removal).1
  | none, _, true => (s.unpublish n faults.removal).1
  | _, _, _ => s

/-- `reconcile` -/
def reconcile (s : Dev) (n : Number) (d : Option Device) (granted : List DeviceClass) (faults : Faults) : Dev :=
  let cleaned := s.cleanUp n faults.cleanup
  if cleaned.2 then cleaned.1.settle n d granted faults else cleaned.1

end Dev

/-- A look at one device. -/
structure Look where
  host : Host
  depth : Nat
  number : Number
  granted : List DeviceClass
  faults : Faults

/-- The host has the device, and it is of a class that is granted. -/
def wanted (host : Host) (depth : Nat) (granted : List DeviceClass) (n : Number) : Bool :=
  (readDevice host depth n).any fun d => !(classify d granted).isEmpty

def Dev.look (s : Dev) (l : Look) : Dev :=
  s.reconcile l.number (readDevice l.host l.depth l.number) l.granted l.faults

/-- The devices of the database (`scan`) and those that are recorded, in their order. -/
def Dev.keys (s : Dev) (listing : List Text) : List Number :=
  ((listing.filterMap parseDbName ++ s.records.keys).dedup).mergeSort fun a b => a.1 < b.1 ∨ (a.1 = b.1 ∧ a.2 ≤ b.2)

/-- `reconcile_all` -/
def Dev.reconcileAll (s : Dev) (listing : List Text) (host : Host) (depth : Nat) (granted : List DeviceClass)
    (faults : Number → Faults) : Dev :=
  (s.keys listing).foldl (fun s n => s.look ⟨host, depth, n, granted, faults n⟩) s

/-! ## Section 4: Nodes and Records -/

namespace Dev

/-- A node is attached for each record, once, and the removals among what is not applied are those of the
records that are not complete. -/
structure Sound (s : Dev) : Prop where
  hidden : ∀ n p, s.records.lookup n = some p → p.hidden = hiddenName n
  nodes : ∀ n, s.nodes (hiddenName n) = if (s.records.lookup n).isSome then 1 else 0
  others : ∀ x, (∀ n, x ≠ hiddenName n) → s.nodes x = 0
  unapplied : ∀ r, r ∈ s.unapplied ↔ ∃ p, s.records.lookup r.2 = some p ∧ p.complete = false ∧ p.reason r.2 = r

/-- The same, but that one device is in the works. -/
structure SoundBut (s : Dev) (n : Number) : Prop where
  hidden : ∀ m p, s.records.lookup m = some p → p.hidden = hiddenName m
  nodes : ∀ m, s.nodes (hiddenName m) = if (s.records.lookup m).isSome then 1 else 0
  others : ∀ x, (∀ n, x ≠ hiddenName n) → s.nodes x = 0
  known : ∀ r ∈ s.unapplied, ∃ p, s.records.lookup r.2 = some p ∧ (r.2 ≠ n → p.complete = false) ∧ p.reason r.2 = r
  incomplete : ∀ m p, m ≠ n → s.records.lookup m = some p → p.complete = false → p.reason m ∈ s.unapplied

variable {s : Dev} {n m : Number}

theorem Sound.but (h : s.Sound) (n : Number) : s.SoundBut n where
  hidden := h.hidden
  nodes := h.nodes
  others := h.others
  known r hr := by
    obtain ⟨p, hp, hcomplete, hreason⟩ := (h.unapplied r).mp hr
    exact ⟨p, hp, fun _ => hcomplete, hreason⟩
  incomplete m p _ hp hcomplete := (h.unapplied _).mpr ⟨p, hp, hcomplete, rfl⟩

theorem sound_empty : ({} : Dev).Sound where
  hidden n p hp := by simp at hp
  nodes n := by simp
  others _ _ := rfl
  unapplied r := by simp

theorem unpublish_none (h : s.records.lookup n = none) (faults : RemovalFaults) : s.unpublish n faults = (s, true) := by
  simp [unpublish, h]

/-- A removal leaves the records of other devices alone. -/
theorem unpublish_lookup_of_ne (s : Dev) (faults : RemovalFaults) (hne : m ≠ n) :
    (s.unpublish n faults).1.records.lookup m = s.records.lookup m := by
  unfold unpublish
  split
  · rfl
  · dsimp only
    split
    · exact AList.lookup_insert_ne hne
    · exact (AList.lookup_erase_ne hne).trans (AList.lookup_insert_ne hne)

/-- What a removal leaves of the record. -/
theorem unpublish_lookup (s : Dev) (n : Number) (faults : RemovalFaults) :
    ((s.unpublish n faults).2 = true ∧ (s.unpublish n faults).1.records.lookup n = none) ∨
      ((s.unpublish n faults).2 = false ∧ (faults.detach = true ∨ ∃ p, s.records.lookup n = some p ∧ s.nodes p.hidden = 0) ∧
        ∃ p, (s.unpublish n faults).1.records.lookup n = some p ∧ p.complete = false) := by
  unfold unpublish
  split
  · rename_i hnone
    exact Or.inl ⟨rfl, hnone⟩
  · rename_i p hp
    dsimp only
    split
    · rename_i hfails
      refine Or.inr ⟨rfl, hfails.imp_right fun hzero => ⟨p, hp, hzero⟩, _, AList.lookup_insert _, rfl⟩
    · exact Or.inl ⟨rfl, AList.lookup_erase _ _⟩

/-- What is noted about the device that is in the works is about its record. -/
theorem SoundBut.reason_eq (h : s.SoundBut n) {p : Record} (hp : s.records.lookup n = some p) {r : Reason}
    (hr : r ∈ s.unapplied) (heq : r.2 = n) : r = p.reason n := by
  obtain ⟨p', hrecord, _, hreason⟩ := h.known r hr
  rw [heq, hp] at hrecord
  obtain rfl := Option.some.inj hrecord
  rw [← hreason, heq]

/-- The node stays, and so does the record, with its reason. -/
theorem SoundBut.kept (h : s.SoundBut n) {p : Record} (hp : s.records.lookup n = some p) (L : Links)
    {rs : List Reason} (hrs : ∀ r, r ∈ rs ↔ r ∈ s.unapplied ∨ r = p.reason n) :
    Sound { records := s.records.insert n { p with complete := false }, nodes := s.nodes, links := L, unapplied := rs } := by
  constructor
  case hidden =>
    intro m p' hm
    dsimp only at hm
    by_cases heq : m = n
    · rw [heq, AList.lookup_insert] at hm
      obtain rfl := Option.some.inj hm
      rw [heq]
      exact h.hidden n p hp
    · rw [AList.lookup_insert_ne heq] at hm
      exact h.hidden m p' hm
  case nodes =>
    intro m
    dsimp only
    by_cases heq : m = n
    · rw [heq, h.nodes n, hp, AList.lookup_insert]
      rfl
    · rw [AList.lookup_insert_ne heq]
      exact h.nodes m
  case others =>
    exact h.others
  case unapplied =>
    intro r
    refine (hrs r).trans ?_
    dsimp only
    by_cases heq : r.2 = n
    · rw [heq, AList.lookup_insert]
      constructor
      · intro hr
        obtain rfl : r = p.reason n := hr.elim (fun hin => h.reason_eq hp hin heq) id
        exact ⟨_, rfl, rfl, rfl⟩
      · rintro ⟨p', hp', _, hreason⟩
        obtain rfl := Option.some.inj hp'
        exact Or.inr hreason.symm
    · rw [AList.lookup_insert_ne heq]
      constructor
      · rintro (hr | rfl)
        · obtain ⟨p', hrecord, hcomplete, hreason⟩ := h.known r hr
          exact ⟨p', hrecord, hcomplete heq, hreason⟩
        · exact absurd rfl heq
      · rintro ⟨p', hrecord, hcomplete, hreason⟩
        exact Or.inl (hreason ▸ h.incomplete r.2 p' heq hrecord hcomplete)

/-- The node goes, with the record and its reason. -/
theorem SoundBut.gone (h : s.SoundBut n) {p p' : Record} (hp : s.records.lookup n = some p) (L : Links) :
    Sound
      { records := (s.records.insert n p').erase n
        nodes := Function.update s.nodes p.hidden (s.nodes p.hidden - 1)
        links := L
        unapplied := s.unapplied.filter (· ≠ p.reason n) } := by
  have hhidden := h.hidden n p hp
  constructor
  case hidden =>
    intro m o hm
    dsimp only at hm
    by_cases heq : m = n
    · rw [heq, AList.lookup_erase] at hm
      cases hm
    · rw [AList.lookup_erase_ne heq, AList.lookup_insert_ne heq] at hm
      exact h.hidden m o hm
  case nodes =>
    intro m
    dsimp only
    by_cases heq : m = n
    · have hone : s.nodes (hiddenName n) = 1 := by
        rw [h.nodes n, hp]
        rfl
      rw [heq, AList.lookup_erase, hhidden, Function.update_self, hone]
      rfl
    · have hother : hiddenName m ≠ p.hidden := by
        rw [hhidden]
        exact fun hsame => heq (hiddenName_injective hsame)
      rw [AList.lookup_erase_ne heq, AList.lookup_insert_ne heq, Function.update_of_ne hother]
      exact h.nodes m
  case others =>
    intro x hx
    dsimp only
    rw [Function.update_of_ne (hhidden ▸ hx n)]
    exact h.others x hx
  case unapplied =>
    intro r
    dsimp only
    rw [List.mem_filter, decide_eq_true_iff]
    by_cases heq : r.2 = n
    · rw [heq, AList.lookup_erase]
      constructor
      · rintro ⟨hr, hne⟩
        exact absurd (h.reason_eq hp hr heq) hne
      · rintro ⟨_, hnone, _⟩
        cases hnone
    · rw [AList.lookup_erase_ne heq, AList.lookup_insert_ne heq]
      constructor
      · rintro ⟨hr, _⟩
        obtain ⟨o, hrecord, hcomplete, hreason⟩ := h.known r hr
        exact ⟨o, hrecord, hcomplete heq, hreason⟩
      · rintro ⟨o, hrecord, hcomplete, hreason⟩
        refine ⟨hreason ▸ h.incomplete r.2 o heq hrecord hcomplete, ?_⟩
        rintro rfl
        exact heq rfl

/-- A removal, of whatever is there of the device. -/
theorem SoundBut.unpublish (h : s.SoundBut n) (faults : RemovalFaults) : (s.unpublish n faults).1.Sound := by
  cases hp : s.records.lookup n with
  | none =>
      rw [unpublish_none hp]
      have hne : ∀ {r : Reason} {p : Record}, s.records.lookup r.2 = some p → r.2 ≠ n := by
        intro r p hrecord heq
        rw [heq, hp] at hrecord
        cases hrecord
      refine ⟨h.hidden, h.nodes, h.others, fun r => ⟨fun hr => ?_, ?_⟩⟩
      · obtain ⟨p, hrecord, hcomplete, hreason⟩ := h.known r hr
        exact ⟨p, hrecord, hcomplete (hne hrecord), hreason⟩
      · rintro ⟨p, hrecord, hcomplete, hreason⟩
        exact hreason ▸ h.incomplete r.2 p (hne hrecord) hrecord hcomplete
  | some p =>
      unfold Dev.unpublish
      rw [hp]
      dsimp only
      split
      · refine h.kept hp _ fun r => ?_
        have hreason : Record.reason { p with complete := false } n = p.reason n := rfl
        rw [hreason]
        split
        · rename_i hin
          exact ⟨Or.inl, fun hr => hr.elim id fun heq => heq ▸ hin⟩
        · simp
      · exact h.gone hp _

/-- What is to be done depends on whether the device is wanted and whether it is recorded. -/
theorem settle_eq (s : Dev) (n : Number) (d : Option Device) (granted : List DeviceClass) (faults : Faults) :
    s.settle n d granted faults =
      match d.filter (fun d => !(classify d granted).isEmpty), s.records.lookup n with
      | some d, none => s.publish d faults
      | none, some _ => (s.unpublish n faults.removal).1
      | _, _ => s := by
  unfold settle
  cases d with
  | none => cases s.records.lookup n <;> rfl
  | some d =>
      cases hclasses : (classify d granted).isEmpty <;> cases s.records.lookup n <;> simp [hclasses, Option.filter]

/-- With the node of a device attached, and its record made. -/
theorem Sound.attached (h : s.Sound) (hnone : s.records.lookup n = none) {p : Record} (hp : p.hidden = hiddenName n)
    (L : Links) :
    SoundBut
      { records := s.records.insert n p
        nodes := Function.update s.nodes (hiddenName n) (s.nodes (hiddenName n) + 1)
        links := L
        unapplied := s.unapplied } n := by
  constructor
  case hidden =>
    intro m p' hm
    dsimp only at hm
    by_cases heq : m = n
    · rw [heq, AList.lookup_insert] at hm
      obtain rfl := Option.some.inj hm
      rw [hp, heq]
    · rw [AList.lookup_insert_ne heq] at hm
      exact h.hidden m p' hm
  case nodes =>
    intro m
    dsimp only
    by_cases heq : m = n
    · rw [heq, Function.update_self, h.nodes, hnone, AList.lookup_insert]
      rfl
    · rw [Function.update_of_ne fun hsame => heq (hiddenName_injective hsame), AList.lookup_insert_ne heq]
      exact h.nodes m
  case others =>
    intro x hx
    dsimp only
    rw [Function.update_of_ne (hx n)]
    exact h.others x hx
  case known =>
    intro r hr
    obtain ⟨p', hp', hcomplete, hreason⟩ := (h.unapplied r).mp hr
    have hne : r.2 ≠ n := by
      intro heq
      rw [heq, hnone] at hp'
      cases hp'
    exact ⟨p', (AList.lookup_insert_ne hne).trans hp', fun _ => hcomplete, hreason⟩
  case incomplete =>
    intro m p' hne hm hcomplete
    dsimp only at hm
    rw [AList.lookup_insert_ne hne] at hm
    exact (h.unapplied _).mpr ⟨p', hm, hcomplete, rfl⟩

/-- The record that was made is complete. -/
theorem SoundBut.complete (h : s.SoundBut n) {p : Record} (hp : s.records.lookup n = some p) (hcomplete : p.complete = true)
    (hnone : ∀ r ∈ s.unapplied, r.2 ≠ n) : s.Sound := by
  refine ⟨h.hidden, h.nodes, h.others, fun r => ⟨fun hr => ?_, ?_⟩⟩
  · obtain ⟨p', hrecord, hincomplete, hreason⟩ := h.known r hr
    exact ⟨p', hrecord, hincomplete (hnone r hr), hreason⟩
  · rintro ⟨p', hrecord, hincomplete, hreason⟩
    have hne : r.2 ≠ n := by
      intro heq
      rw [heq, hp] at hrecord
      obtain rfl := Option.some.inj hrecord
      rw [hcomplete] at hincomplete
      cases hincomplete
    exact hreason ▸ h.incomplete r.2 p' hne hrecord hincomplete

/-- A device that is published, when it is not recorded. -/
theorem Sound.publish (h : s.Sound) {d : Device} (hnone : s.records.lookup d.number = none) (faults : Faults) :
    (s.publish d faults).Sound := by
  unfold Dev.publish
  split
  · exact h
  dsimp only
  split
  · rw [AList.insert_insert]
    refine (h.attached hnone rfl _).complete (AList.lookup_insert _) rfl fun r hr heq => ?_
    obtain ⟨p, hp, _⟩ := (h.unapplied r).mp hr
    rw [heq, hnone] at hp
    cases hp
  · exact (h.attached hnone rfl _).unpublish _

theorem Sound.cleanUp (h : s.Sound) (n : Number) (faults : RemovalFaults) : (s.cleanUp n faults).1.Sound := by
  unfold Dev.cleanUp
  split
  · exact (h.but n).unpublish faults
  · exact h

/-- A look at a device keeps the records in order, whatever fails. -/
theorem Sound.look (h : s.Sound) (l : Look) : (s.look l).Sound := by
  have hcleaned := h.cleanUp l.number l.faults.cleanup
  unfold Dev.look reconcile
  dsimp only
  split
  · rw [settle_eq]
    split
    · rename_i d hread hrecord
      apply hcleaned.publish
      rw [(readDevice_valid (Option.filter_eq_some_iff.mp hread).1).1]
      exact hrecord
    · exact (hcleaned.but l.number).unpublish _
    · exact hcleaned
  · exact hcleaned

/-! ## Section 5: What a Look Comes To -/

theorem publish_lookup_of_ne (s : Dev) (d : Device) (faults : Faults) (hne : m ≠ d.number) :
    (s.publish d faults).records.lookup m = s.records.lookup m := by
  unfold publish
  split
  · rfl
  dsimp only
  split
  · exact (AList.lookup_insert_ne hne).trans (AList.lookup_insert_ne hne)
  · rw [unpublish_lookup_of_ne _ _ hne]
    exact AList.lookup_insert_ne hne

theorem cleanUp_lookup_of_ne (s : Dev) (faults : RemovalFaults) (hne : m ≠ n) :
    (s.cleanUp n faults).1.records.lookup m = s.records.lookup m := by
  unfold cleanUp
  split
  · exact unpublish_lookup_of_ne _ _ hne
  · rfl

/-- The other devices are left alone. -/
theorem look_lookup_of_ne (s : Dev) (l : Look) (hne : m ≠ l.number) :
    (s.look l).records.lookup m = s.records.lookup m := by
  have hcleaned := cleanUp_lookup_of_ne s l.faults.cleanup hne
  unfold look reconcile
  dsimp only
  split
  · rw [settle_eq]
    split
    · rename_i d hread _
      rw [publish_lookup_of_ne _ _ _ (by rw [(readDevice_valid (Option.filter_eq_some_iff.mp hread).1).1]; exact hne)]
      exact hcleaned
    · rw [unpublish_lookup_of_ne _ _ hne]
      exact hcleaned
    · exact hcleaned
  · exact hcleaned

theorem publishLinks_of_no_fault (hidden : Text) (names : List Text) {fault : Nat → Option LinkFault}
    (h : ∀ i, fault i = none) (L : Links) : (publishLinks hidden names fault L).2 = true := by
  induction names generalizing fault L with
  | nil => rfl
  | cons name names ih =>
      rw [publishLinks, h 0]
      exact ih (fun i => h (i + 1)) _

/-- What is published: all of it when nothing fails, and otherwise nothing that is complete. -/
theorem publish_lookup (s : Dev) {d : Device} (hnone : s.records.lookup d.number = none) (faults : Faults) :
    (∃ p, (s.publish d faults).records.lookup d.number = some p ∧ p.complete = true) ∨
      (¬faults.Harmless ∧ ∀ p, (s.publish d faults).records.lookup d.number = some p → p.complete = false) := by
  unfold publish
  split
  · rename_i hnode
    refine Or.inr ⟨fun hharmless => ?_, fun p hp => ?_⟩
    · rw [hharmless.2.1] at hnode
      cases hnode
    · rw [hnone] at hp
      cases hp
  dsimp only
  split
  · exact Or.inl ⟨_, AList.lookup_insert _, rfl⟩
  · rename_i hlinks
    refine Or.inr ⟨fun hharmless => hlinks (publishLinks_of_no_fault _ _ hharmless.2.2.1 _), fun p hp => ?_⟩
    rcases unpublish_lookup _ d.number faults.removal with ⟨_, hgone⟩ | ⟨_, _, p', hp', hincomplete⟩
    · rw [hgone] at hp
      cases hp
    · obtain rfl := Option.some.inj (hp'.symm.trans hp)
      exact hincomplete

/-- A removal that does not fail. -/
theorem Sound.unpublish_lookup_none (h : s.Sound) {faults : RemovalFaults} (hfaults : faults.detach = false) :
    (s.unpublish n faults).2 = true ∧ (s.unpublish n faults).1.records.lookup n = none := by
  rcases unpublish_lookup s n faults with hgone | ⟨_, hfails, _⟩
  · exact hgone
  · rcases hfails with hdetach | ⟨p, hp, hzero⟩
    · rw [hfaults] at hdetach
      cases hdetach
    · have hone := h.nodes n
      rw [hp, ← h.hidden n p hp, hzero] at hone
      cases hone

/-- After the cleanup there is no record, or one that is complete, unless the cleanup fails. -/
theorem Sound.cleanUp_lookup (h : s.Sound) (n : Number) (faults : RemovalFaults) :
    ((s.cleanUp n faults).2 = true ∧
        ∀ p, (s.cleanUp n faults).1.records.lookup n = some p → p.complete = true) ∨
      ((s.cleanUp n faults).2 = false ∧ faults.detach = true ∧
        ∀ p, (s.cleanUp n faults).1.records.lookup n = some p → p.complete = false) := by
  unfold Dev.cleanUp
  split
  · rcases unpublish_lookup s n faults with ⟨hok, hgone⟩ | ⟨hfail, _, p', hp', hincomplete⟩
    · exact Or.inl ⟨hok, fun p hp => by rw [hgone] at hp; cases hp⟩
    · refine Or.inr ⟨hfail, ?_, fun p hp => ?_⟩
      · by_contra hdetach
        rw [(h.unpublish_lookup_none (by simpa using hdetach)).1] at hfail
        cases hfail
      · obtain rfl := Option.some.inj (hp'.symm.trans hp)
        exact hincomplete
  · rename_i hcomplete
    refine Or.inl ⟨rfl, fun p hp => ?_⟩
    rw [hp] at hcomplete
    simpa using hcomplete

/-- After a look a device's record is complete only when the device is wanted. When nothing fails it is there
exactly when the device is wanted, and complete. -/
theorem Sound.look_lookup (h : s.Sound) (l : Look) :
    (∀ p, (s.look l).records.lookup l.number = some p → p.complete = true →
      wanted l.host l.depth l.granted l.number = true) ∧
      (l.faults.Harmless → if wanted l.host l.depth l.granted l.number then
        ∃ p, (s.look l).records.lookup l.number = some p ∧ p.complete = true
      else (s.look l).records.lookup l.number = none) := by
  have hsound := h.cleanUp l.number l.faults.cleanup
  rcases h.cleanUp_lookup l.number l.faults.cleanup with ⟨hok, hclean⟩ | ⟨hfail, hdetach, hdirty⟩
  -- What a failure left is cleaned up, and the device is looked at afresh.
  · have hlook : s.look l = (s.cleanUp l.number l.faults.cleanup).1.settle l.number
        (readDevice l.host l.depth l.number) l.granted l.faults := by
      unfold Dev.look reconcile
      dsimp only
      rw [if_pos hok]
    rw [hlook]
    generalize (s.cleanUp l.number l.faults.cleanup).1 = t at hsound hclean ⊢
    have hwanted : wanted l.host l.depth l.granted l.number =
        ((readDevice l.host l.depth l.number).filter fun d => !(classify d l.granted).isEmpty).isSome := by
      unfold wanted
      cases readDevice l.host l.depth l.number with
      | none => rfl
      | some d => cases hclasses : (classify d l.granted).isEmpty <;> simp [hclasses, Option.filter]
    rw [settle_eq, hwanted]
    cases hfound : (readDevice l.host l.depth l.number).filter fun d => !(classify d l.granted).isEmpty with
    | none =>
        rw [if_neg (by simp)]
        cases hrecord : t.records.lookup l.number with
        | none =>
            dsimp only
            refine ⟨fun p hp => ?_, fun _ => hrecord⟩
            rw [hrecord] at hp
            cases hp
        | some p =>
            dsimp only
            refine ⟨fun p' hp' hcomplete => ?_, fun hharmless => (hsound.unpublish_lookup_none hharmless.2.2.2).2⟩
            rcases unpublish_lookup t l.number l.faults.removal with ⟨_, hgone⟩ | ⟨_, _, o, ho, hincomplete⟩
            · rw [hgone] at hp'
              cases hp'
            · obtain rfl := Option.some.inj (ho.symm.trans hp')
              rw [hincomplete] at hcomplete
              cases hcomplete
    | some d =>
        have hnumber := (readDevice_valid (Option.filter_eq_some_iff.mp hfound).1).1
        rw [if_pos (by simp)]
        refine ⟨fun _ _ _ => rfl, fun hharmless => ?_⟩
        cases hrecord : t.records.lookup l.number with
        | none =>
            rw [← hnumber] at hrecord ⊢
            exact (publish_lookup t hrecord l.faults).resolve_right fun hharmful => hharmful.1 hharmless
        | some p => exact ⟨p, hrecord, hclean p hrecord⟩
  -- What a failure left stays, and nothing else is done.
  · have hlook : s.look l = (s.cleanUp l.number l.faults.cleanup).1 := by
      unfold Dev.look reconcile
      dsimp only
      rw [if_neg (by simp [hfail])]
    rw [hlook]
    refine ⟨fun p hp hcomplete => ?_, fun hharmless => ?_⟩
    · rw [hdirty p hp] at hcomplete
      cases hcomplete
    · rw [hharmless.1] at hdetach
      cases hdetach

/-! ## Section 6: What Links There Are -/

/-- Without failures, those of the links go that lead to the entry. -/
theorem unlinkAll_apply (hidden : Text) {names : List Text} {fault : Nat → Bool} (h : ∀ i, fault i = false) (L : Links)
    (name : Text) : unlinkAll hidden names fault L name =
      if name ∈ names ∧ L name = some (linkTarget name hidden) then none else L name := by
  induction names generalizing fault L with
  | nil => simp [unlinkAll]
  | cons x names ih =>
      rw [unlinkAll, ih fun i => h (i + 1)]
      by_cases hx : L x = some (linkTarget x hidden)
      · have hgone : (if L x = some (linkTarget x hidden) ∧ (!fault 0) = true then Function.update L x none else L) =
            Function.update L x none := if_pos ⟨hx, by simp [h]⟩
        rw [hgone]
        by_cases heq : name = x
        · subst heq
          simp [hx]
        · simp [heq]
      · have hkept : (if L x = some (linkTarget x hidden) ∧ (!fault 0) = true then Function.update L x none else L) = L :=
          if_neg fun hboth => hx hboth.1
        rw [hkept]
        by_cases heq : name = x
        · subst heq
          simp [hx]
        · simp [heq]

/-- A path in psbox's own directory. -/
def Inside (path : Text) : Prop :=
  hiddenDir <+: path

theorem inside_tempName (name : Text) : Inside (tempName name) :=
  (List.prefix_append hiddenDir _).trans (List.prefix_append _ _)

theorem not_inside_of_valid {name : Text} (h : validDevName name = true) : ¬Inside name := by
  unfold validDevName at h
  simp only [Bool.and_eq_true, Bool.not_eq_true', decide_eq_false_iff_not] at h
  exact h.1.2

/-- Making one link, seen at a path outside psbox's directory. -/
theorem publishLink_apply (name target : Text) (fault : Option LinkFault) (L : Links) {path : Text}
    (hpath : ¬Inside path) :
    (publishLink name target fault L).1 path =
      if (publishLink name target fault L).2 = true ∧ path = name then some target else L path := by
  have hne : path ≠ tempName name := by
    rintro rfl
    exact hpath (inside_tempName name)
  unfold publishLink
  split
  · simp
  · simp [hne]
  · simp [hne]
  · by_cases heq : path = name
    · simp [heq]
    · simp [heq, hne]

/-- A link is as it was, or it leads to the entry. When nothing fails all the names are links that do. -/
theorem publishLinks_apply (hidden : Text) (names : List Text) (fault : Nat → Option LinkFault) (L : Links) {name : Text}
    (hname : ¬Inside name) :
    ((publishLinks hidden names fault L).1 name = L name ∨
        (name ∈ names ∧ (publishLinks hidden names fault L).1 name = some (linkTarget name hidden))) ∧
      ((publishLinks hidden names fault L).2 = true → name ∈ names →
        (publishLinks hidden names fault L).1 name = some (linkTarget name hidden)) := by
  induction names generalizing fault L with
  | nil => simp [publishLinks]
  | cons x names ih =>
      have hfirst := publishLink_apply x (linkTarget x hidden) (fault 0) L hname
      rw [publishLinks]
      generalize publishLink x (linkTarget x hidden) (fault 0) L = linked at hfirst ⊢
      split
      · rename_i hok
        obtain ⟨hsame, hall⟩ := ih (fun i => fault (i + 1)) linked.1
        by_cases heq : name = x
        · rw [if_pos ⟨hok, heq⟩, ← heq] at hfirst
          have htarget := hsame.elim (fun hsame => hsame.trans hfirst) And.right
          exact ⟨Or.inr ⟨heq ▸ List.mem_cons_self, htarget⟩, fun _ _ => htarget⟩
        · rw [if_neg fun hboth => heq hboth.2] at hfirst
          rw [hfirst] at hsame
          refine ⟨hsame.imp_right fun hboth => ⟨List.mem_cons_of_mem x hboth.1, hboth.2⟩, fun hdone hmem => ?_⟩
          exact hall hdone ((List.mem_cons.mp hmem).resolve_left heq)
      · rename_i hfails
        rw [if_neg fun hboth => hfails hboth.1] at hfirst
        exact ⟨Or.inl hfirst, fun hdone => absurd hdone hfails⟩

/-- Making one link, seen at a path in psbox's directory. -/
theorem publishLink_inside {name target : Text} (hname : ¬Inside name) {fault : Option LinkFault} {L : Links}
    {path target' : Text} (hpath : Inside path) (h : (publishLink name target fault L).1 path = some target') :
    L path = some target' ∨ fault = some .rename ∧ path = tempName name ∧ target' = target := by
  have hne : path ≠ name := by
    rintro rfl
    exact hname hpath
  by_cases htemp : path = tempName name
  · subst htemp
    unfold publishLink at h
    split at h
    · exact Or.inl h
    · dsimp only at h
      rw [Function.update_self] at h
      cases h
    · dsimp only at h
      rw [Function.update_self] at h
      exact Or.inr ⟨rfl, rfl, (Option.some.inj h).symm⟩
    · dsimp only at h
      rw [Function.update_of_ne hne, Function.update_self] at h
      cases h
  · unfold publishLink at h
    split at h
    · exact Or.inl h
    all_goals simp only [Function.update_of_ne htemp, Function.update_of_ne hne] at h
    all_goals exact Or.inl h

/-- In psbox's directory a link comes from one that could not be renamed. -/
theorem publishLinks_inside (hidden : Text) {names : List Text} (hnames : ∀ name ∈ names, ¬Inside name)
    (fault : Nat → Option LinkFault) (L : Links) {path target : Text} (hpath : Inside path)
    (h : (publishLinks hidden names fault L).1 path = some target) :
    L path = some target ∨ ∃ name i, fault i = some .rename ∧ path = tempName name ∧ target = linkTarget name hidden := by
  induction names generalizing fault L with
  | nil => exact Or.inl h
  | cons x names ih =>
      obtain ⟨hx, hnames⟩ := List.forall_mem_cons.mp hnames
      have hfirst : (publishLink x (linkTarget x hidden) (fault 0) L).1 path = some target →
          L path = some target ∨
            ∃ name i, fault i = some .rename ∧ path = tempName name ∧ target = linkTarget name hidden :=
        fun hlink => (publishLink_inside hx hpath hlink).imp_right fun htemp => ⟨x, 0, htemp⟩
      rw [publishLinks] at h
      split at h
      · rcases ih hnames _ _ h with hlink | ⟨name, i, hfault, hrest⟩
        · exact hfirst hlink
        · exact Or.inr ⟨name, i + 1, hfault, hrest⟩
      · exact hfirst h

/-- Removing links makes none. -/
theorem unlinkAll_eq_some {hidden : Text} {names : List Text} {fault : Nat → Bool} {L : Links} {path target : Text}
    (h : unlinkAll hidden names fault L path = some target) : L path = some target := by
  induction names generalizing fault L with
  | nil => exact h
  | cons x names ih =>
      have hrest := ih h
      split at hrest
      · by_cases heq : path = x
        · rw [heq, Function.update_self] at hrest
          cases hrest
        · rwa [Function.update_of_ne heq] at hrest
      · exact hrest

theorem linkTarget_injective (name : Text) : Function.Injective (linkTarget name) := by
  intro hidden hidden' h
  have hrest := List.append_cancel_left (List.append_cancel_left h)
  exact (List.cons.inj hrest).2

/-- The names of the records are names in `/dev`. -/
def Named (s : Dev) : Prop :=
  ∀ n p, s.records.lookup n = some p → ∀ name ∈ p.names, validDevName name = true

/-- Every link leads to the node of a record that is complete and has its name. -/
def Linked (s : Dev) : Prop :=
  ∀ name target, ¬Inside name → s.links name = some target →
    ∃ n p, s.records.lookup n = some p ∧ p.complete = true ∧ name ∈ p.names ∧ target = linkTarget name p.hidden

/-- The records that are complete have all their links. -/
def Full (s : Dev) : Prop :=
  ∀ n p, s.records.lookup n = some p → p.complete = true → ∀ name ∈ p.names, s.links name = some (linkTarget name p.hidden)

/-- With one device in the works: its links are there, or not. -/
def LinkedBut (s : Dev) (n : Number) : Prop :=
  ∀ name target, ¬Inside name → s.links name = some target →
    ∃ m p, s.records.lookup m = some p ∧ (m ≠ n → p.complete = true) ∧ name ∈ p.names ∧ target = linkTarget name p.hidden

def FullBut (s : Dev) (n : Number) : Prop :=
  ∀ m p, m ≠ n → s.records.lookup m = some p → p.complete = true →
    ∀ name ∈ p.names, s.links name = some (linkTarget name p.hidden)

theorem Linked.but (h : s.Linked) (n : Number) : s.LinkedBut n := by
  intro name target hname hlink
  obtain ⟨m, p, hp, hcomplete, hrest⟩ := h name target hname hlink
  exact ⟨m, p, hp, fun _ => hcomplete, hrest⟩

/-- The links of a removal, and the records that it leaves complete. -/
theorem unpublish_links {p : Record} (hp : s.records.lookup n = some p) (faults : RemovalFaults) :
    (s.unpublish n faults).1.links = unlinkAll p.hidden p.names faults.unlink s.links ∧
      ∀ m o, (s.unpublish n faults).1.records.lookup m = some o → o.complete = true → m ≠ n := by
  constructor
  · unfold unpublish
    rw [hp]
    dsimp only
    split <;> rfl
  · rintro m o ho hcomplete rfl
    rcases unpublish_lookup s m faults with ⟨_, hgone⟩ | ⟨_, _, o', ho', hincomplete⟩
    · rw [hgone] at ho
      cases ho
    · obtain rfl := Option.some.inj (ho'.symm.trans ho)
      rw [hincomplete] at hcomplete
      cases hcomplete

theorem LinkedBut.unpublish (h : s.LinkedBut n) {faults : RemovalFaults} (hfaults : ∀ i, faults.unlink i = false) :
    (s.unpublish n faults).1.Linked := by
  cases hp : s.records.lookup n with
  | none =>
      rw [unpublish_none hp]
      intro name target hname hlink
      obtain ⟨m, p, hm, hcomplete, hrest⟩ := h name target hname hlink
      refine ⟨m, p, hm, hcomplete ?_, hrest⟩
      rintro rfl
      rw [hp] at hm
      cases hm
  | some p =>
      intro name target hinside hlink
      rw [(unpublish_links hp faults).1, unlinkAll_apply p.hidden hfaults] at hlink
      split at hlink
      · cases hlink
      · rename_i hother
        obtain ⟨m, o, hm, hcomplete, hname, rfl⟩ := h name target hinside hlink
        -- A link of the device itself would be gone.
        have hne : m ≠ n := by
          rintro rfl
          obtain rfl := Option.some.inj (hp.symm.trans hm)
          exact hother ⟨hname, hlink⟩
        refine ⟨m, o, ?_, hcomplete hne, hname, rfl⟩
        rw [unpublish_lookup_of_ne _ _ hne]
        exact hm

theorem FullBut.unpublish (h : s.FullBut n) (hsound : s.SoundBut n) {faults : RemovalFaults}
    (hfaults : ∀ i, faults.unlink i = false) : (s.unpublish n faults).1.Full := by
  cases hp : s.records.lookup n with
  | none =>
      rw [unpublish_none hp]
      intro m p hm hcomplete
      refine h m p ?_ hm hcomplete
      rintro rfl
      rw [hp] at hm
      cases hm
  | some p =>
      intro m o hm hcomplete name hname
      have hne := (unpublish_links hp faults).2 m o hm hcomplete
      rw [unpublish_lookup_of_ne _ _ hne] at hm
      have hlink := h m o hne hm hcomplete name hname
      rw [(unpublish_links hp faults).1, unlinkAll_apply p.hidden hfaults, if_neg, hlink]
      -- It leads to an entry of another device.
      rintro ⟨_, hsame⟩
      have hhidden := linkTarget_injective name (Option.some.inj (hlink.symm.trans hsame))
      rw [hsound.hidden m o hm, hsound.hidden n p hp] at hhidden
      exact hne (hiddenName_injective hhidden)

theorem Linked.publish (h : s.Linked) {d : Device} (hnone : s.records.lookup d.number = none) {faults : Faults}
    (hfaults : ∀ i, faults.removal.unlink i = false) : (s.publish d faults).Linked := by
  unfold Dev.publish
  split
  · exact h
  dsimp only
  have hold : ∀ {name target} (o : Record), ¬Inside name → s.links name = some target →
      ∃ m p, (s.records.insert d.number o).lookup m = some p ∧ p.complete = true ∧ name ∈ p.names ∧
        target = linkTarget name p.hidden := by
    intro name target o hinside hlink
    obtain ⟨m, p, hm, hrest⟩ := h name target hinside hlink
    have hne : m ≠ d.number := by
      rintro rfl
      rw [hnone] at hm
      cases hm
    exact ⟨m, p, (AList.lookup_insert_ne hne).trans hm, hrest⟩
  split
  · intro name target hinside hlink
    dsimp only at hlink ⊢
    rw [AList.insert_insert]
    rcases (publishLinks_apply (hiddenName d.number) (d.devname :: d.links) faults.link s.links hinside).1 with hsame | ⟨hmem, hnew⟩
    · rw [hsame] at hlink
      exact hold _ hinside hlink
    · rw [hnew] at hlink
      exact ⟨d.number, _, AList.lookup_insert _, rfl, hmem, (Option.some.inj hlink).symm⟩
  · refine LinkedBut.unpublish (fun name target hinside hlink => ?_) hfaults
    dsimp only at hlink ⊢
    rcases (publishLinks_apply (hiddenName d.number) (d.devname :: d.links) faults.link s.links hinside).1 with hsame | ⟨hmem, hnew⟩
    · rw [hsame] at hlink
      obtain ⟨m, p, hm, hcomplete, hrest⟩ := hold _ hinside hlink
      exact ⟨m, p, hm, fun _ => hcomplete, hrest⟩
    · rw [hnew] at hlink
      exact ⟨d.number, _, AList.lookup_insert _, fun hne => absurd rfl hne, hmem, (Option.some.inj hlink).symm⟩

theorem Full.publish (h : s.Full) (hsound : s.Sound) (hnamed : s.Named) {d : Device}
    (hvalid : ∀ name ∈ d.devname :: d.links, validDevName name = true) (hnone : s.records.lookup d.number = none)
    {faults : Faults} (hfaults : ∀ i, faults.removal.unlink i = false)
    (hapart : ∀ m p, s.records.lookup m = some p → ∀ name ∈ d.devname :: d.links, name ∉ p.names) :
    (s.publish d faults).Full := by
  unfold Dev.publish
  split
  · exact h
  dsimp only
  -- The links of other devices are not among those that are made.
  have hold : ∀ (o : Record) m p, m ≠ d.number → (s.records.insert d.number o).lookup m = some p → p.complete = true →
      ∀ name ∈ p.names, (publishLinks (hiddenName d.number) (d.devname :: d.links) faults.link s.links).1 name =
        some (linkTarget name p.hidden) := by
    intro o m p hne hm hcomplete name hname
    rw [AList.lookup_insert_ne hne] at hm
    have hinside := not_inside_of_valid (hnamed m p hm name hname)
    rcases (publishLinks_apply (hiddenName d.number) (d.devname :: d.links) faults.link s.links hinside).1 with hsame | ⟨hmem, _⟩
    · rw [hsame]
      exact h m p hm hcomplete name hname
    · exact absurd hname (hapart m p hm name hmem)
  split
  · rename_i hok
    intro m p hm hcomplete name hname
    dsimp only at hm ⊢
    rw [AList.insert_insert] at hm
    by_cases heq : m = d.number
    · rw [heq, AList.lookup_insert] at hm
      obtain rfl := Option.some.inj hm
      exact (publishLinks_apply _ _ _ _ (not_inside_of_valid (hvalid name hname))).2 hok hname
    · exact hold _ m p heq hm hcomplete name hname
  · refine FullBut.unpublish (fun m p hne hm => ?_) (hsound.attached hnone rfl _) hfaults
    exact hold _ m p hne hm

/-- The names of the device that is looked at are not those of other devices. -/
def Apart (s : Dev) (l : Look) : Prop :=
  ∀ d ∈ readDevice l.host l.depth l.number, ∀ m p, m ≠ l.number → s.records.lookup m = some p →
    ∀ name ∈ d.devname :: d.links, name ∉ p.names

/-- A look at a device, when links can be removed. -/
theorem Linked.look (h : s.Linked) {l : Look} (hunlinks : l.faults.Unlinks) : (s.look l).Linked := by
  have hcleaned : (s.cleanUp l.number l.faults.cleanup).1.Linked := by
    unfold cleanUp
    split
    · exact (h.but l.number).unpublish fun i => (hunlinks i).1
    · exact h
  unfold Dev.look reconcile
  dsimp only
  split
  · rw [settle_eq]
    split
    · rename_i d hread hrecord
      have hnumber := (readDevice_valid (Option.filter_eq_some_iff.mp hread).1).1
      exact hcleaned.publish (by rw [hnumber]; exact hrecord) fun i => (hunlinks i).2
    · exact (hcleaned.but l.number).unpublish fun i => (hunlinks i).2
    · exact hcleaned
  · exact hcleaned

theorem Named.unpublish (h : s.Named) (n : Number) (faults : RemovalFaults) : (s.unpublish n faults).1.Named := by
  intro m p hm
  by_cases heq : m = n
  · subst heq
    cases hp : s.records.lookup m with
    | none =>
        rw [unpublish_none hp] at hm
        exact h _ p hm
    | some p' =>
        unfold Dev.unpublish at hm
        rw [hp] at hm
        dsimp only at hm
        split at hm
        · rw [AList.lookup_insert] at hm
          obtain rfl := Option.some.inj hm
          exact h _ p' hp
        · rw [AList.lookup_erase] at hm
          cases hm
  · rw [unpublish_lookup_of_ne _ _ heq] at hm
    exact h m p hm

theorem Named.cleanUp (h : s.Named) (n : Number) (faults : RemovalFaults) : (s.cleanUp n faults).1.Named := by
  unfold Dev.cleanUp
  split
  · exact h.unpublish n faults
  · exact h

theorem Named.publish (h : s.Named) {d : Device} (hvalid : ∀ name ∈ d.devname :: d.links, validDevName name = true)
    (faults : Faults) : (s.publish d faults).Named := by
  -- What is recorded of the device are the names that were read.
  have hinsert : ∀ (p : Record) (L : Links) (nodes : Text → Nat), p.names = d.devname :: d.links →
      Named { s with records := s.records.insert d.number p, nodes := nodes, links := L } := by
    intro p L nodes hp m o hm
    dsimp only at hm
    by_cases heq : m = d.number
    · rw [heq, AList.lookup_insert] at hm
      obtain rfl := Option.some.inj hm
      rw [hp]
      exact hvalid
    · rw [AList.lookup_insert_ne heq] at hm
      exact h m o hm
  unfold Dev.publish
  split
  · exact h
  dsimp only
  split
  · rw [AList.insert_insert]
    exact hinsert _ _ _ rfl
  · exact (hinsert _ _ _ rfl).unpublish _ _

/-- A look at a device leaves only records with names in `/dev`. -/
theorem Named.look (h : s.Named) (l : Look) : (s.look l).Named := by
  have hcleaned := h.cleanUp l.number l.faults.cleanup
  unfold Dev.look reconcile
  dsimp only
  split
  · rw [settle_eq]
    split
    · rename_i d hread _
      exact hcleaned.publish (readDevice_valid (Option.filter_eq_some_iff.mp hread).1).2 _
    · exact hcleaned.unpublish _ _
    · exact hcleaned
  · exact hcleaned

/-- A link in psbox's directory after a look was there before, or could not be renamed. -/
theorem look_inside (s : Dev) (l : Look) {path target : Text} (hpath : Inside path)
    (h : (s.look l).links path = some target) :
    s.links path = some target ∨ ∃ name i, l.faults.link i = some .rename ∧ path = tempName name ∧
      target = linkTarget name (hiddenName l.number) := by
  have hunpublish : ∀ (t : Dev) (n : Number) (faults : RemovalFaults),
      (t.unpublish n faults).1.links path = some target → t.links path = some target := by
    intro t n faults hlink
    cases hp : t.records.lookup n with
    | none =>
        rw [unpublish_none hp] at hlink
        exact hlink
    | some p =>
        rw [(unpublish_links hp faults).1] at hlink
        exact unlinkAll_eq_some hlink
  have hcleaned : (s.cleanUp l.number l.faults.cleanup).1.links path = some target → s.links path = some target := by
    unfold cleanUp
    split
    · exact hunpublish s _ _
    · exact id
  unfold look reconcile at h
  dsimp only at h
  split at h
  · rw [settle_eq] at h
    split at h
    · rename_i d hread _
      obtain ⟨hnumber, hvalid⟩ := readDevice_valid (Option.filter_eq_some_iff.mp hread).1
      have hmade := @publishLinks_inside (hiddenName d.number) _
        (fun name hname => not_inside_of_valid (hvalid name hname)) l.faults.link
        (s.cleanUp l.number l.faults.cleanup).1.links path target hpath
      rw [hnumber] at hmade
      unfold publish at h
      split at h
      · exact Or.inl (hcleaned h)
      dsimp only at h
      rw [hnumber] at h
      split at h
      · exact (hmade h).imp_left hcleaned
      · exact (hmade (hunpublish _ _ _ h)).imp_left hcleaned
    · exact Or.inl (hcleaned (hunpublish _ _ _ h))
    · exact Or.inl (hcleaned h)
  · exact Or.inl (hcleaned h)

theorem Full.look (h : s.Full) (hsound : s.Sound) (hnamed : s.Named) {l : Look} (hunlinks : l.faults.Unlinks)
    (hapart : s.Apart l) : (s.look l).Full := by
  have hbut : ∀ {t : Dev}, t.Full → t.FullBut l.number := fun ht m p _ => ht m p
  have hcleaned : (s.cleanUp l.number l.faults.cleanup).1.Full := by
    unfold cleanUp
    split
    · exact (hbut h).unpublish (hsound.but l.number) fun i => (hunlinks i).1
    · exact h
  have hsound' := hsound.cleanUp l.number l.faults.cleanup
  have hnamed' := hnamed.cleanUp l.number l.faults.cleanup
  have hsame : ∀ {m}, m ≠ l.number → (s.cleanUp l.number l.faults.cleanup).1.records.lookup m = s.records.lookup m :=
    fun hne => cleanUp_lookup_of_ne s _ hne
  unfold Dev.look reconcile
  dsimp only
  split
  · rw [settle_eq]
    split
    · rename_i d hread hrecord
      obtain ⟨hd, _⟩ := Option.filter_eq_some_iff.mp hread
      obtain ⟨hnumber, hvalid⟩ := readDevice_valid hd
      apply hcleaned.publish hsound' hnamed' hvalid (by rw [hnumber]; exact hrecord) fun i => (hunlinks i).2
      intro m p hm
      have hne : m ≠ l.number := by
        rintro rfl
        rw [hrecord] at hm
        cases hm
      rw [hsame hne] at hm
      exact hapart d hd m p hne hm
    · exact (hbut hcleaned).unpublish (hsound'.but l.number) fun i => (hunlinks i).2
    · exact hcleaned
  · exact hcleaned

/-! ## Section 7: Runs -/

theorem sound_foldl (h : s.Sound) (ls : List Look) : (ls.foldl look s).Sound := by
  induction ls generalizing s with
  | nil => exact h
  | cons l ls ih => exact ih (h.look l)

theorem full_foldl (hsound : s.Sound) (hnamed : s.Named) (hfull : s.Full) {ls : List Look} (hunlinks : ∀ l ∈ ls, l.faults.Unlinks)
    (hapart : StepsMeet (fun s l => some (look s l)) Apart s ls) : (ls.foldl look s).Full := by
  induction ls generalizing s with
  | nil => exact hfull
  | cons l ls ih =>
      obtain ⟨hl, hls⟩ := List.forall_mem_cons.mp hunlinks
      obtain ⟨hfirst, hrest⟩ := hapart
      exact ih (hsound.look l) (hnamed.look l) (hfull.look hsound hnamed hl hfirst) hls (hrest _ rfl)

end Dev

/-- Whether a device was wanted when it was last looked at. -/
def lastWanted (ls : List Look) (n : Number) : Bool :=
  (ls.reverse.find? fun l => l.number = n).any fun l => wanted l.host l.depth l.granted n

/-- In every run of looks at devices, whatever fails in them: a node is attached for each record, once, and
nothing else is. A node that is there is that of a device that was wanted when it was last looked at, or its removal is
a reason for a restart, and there is no such reason without the node. -/
theorem nodes_are_known (ls : List Look) :
    (∀ n, (ls.foldl Dev.look {}).nodes (hiddenName n) = if ((ls.foldl Dev.look {}).records.lookup n).isSome then 1 else 0) ∧
      (∀ x, (ls.foldl Dev.look {}).nodes x ≠ 0 → ∃ n, x = hiddenName n) ∧
      (∀ n, (ls.foldl Dev.look {}).nodes (hiddenName n) ≠ 0 →
        lastWanted ls n = true ∨ ∃ name, (name, n) ∈ (ls.foldl Dev.look {}).unapplied) ∧
      ∀ r ∈ (ls.foldl Dev.look {}).unapplied, (ls.foldl Dev.look {}).nodes (hiddenName r.2) = 1 := by
  have hsound := Dev.sound_foldl Dev.sound_empty ls
  -- A record that is complete was left so by the last look at the device.
  have hlast : ∀ n p, (ls.foldl Dev.look {}).records.lookup n = some p → p.complete = true → lastWanted ls n = true := by
    clear hsound
    induction ls using List.reverseRecOn with
    | nil =>
        intro n p hp
        simp at hp
    | append_singleton ls l ih =>
        intro n p hp hcomplete
        rw [List.foldl_append, List.foldl_cons, List.foldl_nil] at hp
        unfold lastWanted
        rw [List.reverse_append, List.reverse_singleton, List.singleton_append, List.find?_cons]
        by_cases heq : l.number = n
        · subst heq
          simpa using ((Dev.sound_foldl Dev.sound_empty ls).look_lookup l).1 p hp hcomplete
        · rw [Dev.look_lookup_of_ne _ _ (Ne.symm heq)] at hp
          have hbefore := ih n p hp hcomplete
          unfold lastWanted at hbefore
          simpa [heq] using hbefore
  refine ⟨hsound.nodes, fun x hx => ?_, fun n hnode => ?_, fun r hr => ?_⟩
  · by_contra hother
    exact hx (hsound.others x (not_exists.mp hother))
  · rw [hsound.nodes n] at hnode
    split at hnode
    · rename_i hsome
      obtain ⟨p, hp⟩ := Option.isSome_iff_exists.mp hsome
      cases hcomplete : p.complete with
      | true => exact Or.inl (hlast n p hp hcomplete)
      | false => exact Or.inr ⟨_, (hsound.unapplied (p.reason n)).mpr ⟨p, hp, hcomplete, rfl⟩⟩
    · exact absurd rfl hnode
  · obtain ⟨p, hp, _⟩ := (hsound.unapplied r).mp hr
    rw [hsound.nodes, hp]
    rfl

namespace Dev

variable {s : Dev} {n : Number}

theorem mem_keys (s : Dev) (listing : List Text) (n : Number) :
    n ∈ s.keys listing ↔ n ∈ listing.filterMap parseDbName ∨ (s.records.lookup n).isSome := by
  unfold keys
  rw [List.mem_mergeSort, List.mem_dedup, List.mem_append, AList.lookup_isSome, AList.mem_keys]

/-- A device that is wanted has a file in the database. -/
theorem db_isSome_of_wanted {host : Host} {depth : Nat} {granted : List DeviceClass}
    (h : wanted host depth granted n = true) : (host.db n).isSome = true := by
  obtain ⟨d, hd, _⟩ := Option.any_eq_true _ _ |>.mp h
  unfold readDevice at hd
  obtain ⟨db, hdb, _⟩ := Option.bind_eq_some_iff.mp hd
  rw [hdb]
  rfl

/-- Some devices are looked at in turn: these are there as they are wanted, and the others as before. -/
theorem Sound.looks_lookup (h : s.Sound) (host : Host) (depth : Nat) (granted : List DeviceClass)
    {faults : Number → Faults} (hharmless : ∀ n, (faults n).Harmless) (ks : List Number) (n : Number) :
    let t := ks.foldl (fun s n => s.look ⟨host, depth, n, granted, faults n⟩) s
    t.Sound ∧ if n ∈ ks then
        (if wanted host depth granted n then ∃ p, t.records.lookup n = some p ∧ p.complete = true
        else t.records.lookup n = none)
      else t.records.lookup n = s.records.lookup n := by
  induction ks using List.reverseRecOn with
  | nil => simpa using h
  | append_singleton ks k ih =>
      obtain ⟨hsound, hbefore⟩ := ih
      rw [List.foldl_append, List.foldl_cons, List.foldl_nil]
      refine ⟨hsound.look _, ?_⟩
      by_cases heq : n = k
      · subst heq
        rw [if_pos (by simp)]
        exact (hsound.look_lookup ⟨host, depth, n, granted, faults n⟩).2 (hharmless n)
      · rw [look_lookup_of_ne _ ⟨host, depth, k, granted, faults k⟩ heq]
        simpa [heq] using hbefore

end Dev

/-- After every run of looks at devices, whatever failed in them, a look at all devices in which nothing fails
but that links stay: attached are the nodes of just those devices of the host that are of a class that is
granted, each once, their records are complete, and no removal is left as a reason for a restart. -/
theorem rescan_exact (ls : List Look) (listing : List Text) (host : Host) (depth : Nat) (granted : List DeviceClass)
    (faults : Number → Faults) (hlisted : ∀ n, (host.db n).isSome → n ∈ listing.filterMap parseDbName)
    (hharmless : ∀ n, (faults n).Harmless) :
    let s := (ls.foldl Dev.look {}).reconcileAll listing host depth granted faults
    (∀ n, s.nodes (hiddenName n) = if wanted host depth granted n then 1 else 0) ∧
      (∀ n, wanted host depth granted n = (s.records.lookup n).any Record.complete) ∧ s.unapplied = [] := by
  intro s
  have hbefore := Dev.sound_foldl Dev.sound_empty ls
  have hlooks := hbefore.looks_lookup host depth granted hharmless
    ((ls.foldl Dev.look {}).keys listing)
  have hsound : s.Sound := (hlooks (0, 0)).1
  have hrecords : ∀ n, if wanted host depth granted n then ∃ p, s.records.lookup n = some p ∧ p.complete = true
      else s.records.lookup n = none := by
    intro n
    have hn := (hlooks n).2
    by_cases hmem : n ∈ (ls.foldl Dev.look {}).keys listing
    · rw [if_pos hmem] at hn
      exact hn
    · -- Such a device was not recorded, and the host has no file for it.
      rw [if_neg hmem] at hn
      rw [Dev.mem_keys, not_or] at hmem
      rw [if_neg fun hwanted => hmem.1 (hlisted n (Dev.db_isSome_of_wanted hwanted))]
      exact hn.trans (by simpa using hmem.2)
  refine ⟨fun n => ?_, fun n => ?_, List.eq_nil_iff_forall_not_mem.mpr fun r hr => ?_⟩
  -- A node for every record, and a record for what is wanted.
  · rw [hsound.nodes n]
    have hn := hrecords n
    split at hn
    · rename_i hwanted
      obtain ⟨p, hp, _⟩ := hn
      simp [hp, hwanted]
    · rename_i hwanted
      simp [hn, hwanted]
  · have hn := hrecords n
    split at hn
    · rename_i hwanted
      obtain ⟨p, hp, hcomplete⟩ := hn
      simp [hp, hwanted, hcomplete]
    · rename_i hwanted
      simpa [hn] using hwanted
  -- Every record is complete, so there is no reason left.
  · obtain ⟨p, hp, hincomplete, _⟩ := (hsound.unapplied r).mp hr
    have hn := hrecords r.2
    split at hn
    · obtain ⟨p', hp', hcomplete⟩ := hn
      obtain rfl := Option.some.inj (hp'.symm.trans hp)
      rw [hcomplete] at hincomplete
      cases hincomplete
    · rw [hn] at hp
      cases hp

theorem wanted_cameraHost : wanted cameraHost 0 [.camera] (81, 0) = true := by
  decide

/-- A camera's second link could not be made, and then its node could not be detached. -/
theorem rescan_exact_camera :
    let s := ([⟨cameraHost, 0, (81, 0), [.camera], { link := fun i => if i = 1 then some .rename else none, removal := { detach := true } }⟩].foldl
      Dev.look {}).reconcileAll ["c81:0".toList] cameraHost 0 [.camera] fun _ => {}
    s.nodes (hiddenName (81, 0)) = 1 ∧ (s.records.lookup (81, 0)).any Record.complete = true ∧ s.unapplied = [] := by
  have hlisted : ∀ n, (cameraHost.db n).isSome → n ∈ ["c81:0".toList].filterMap parseDbName := by
    intro n hn
    by_cases heq : n = (81, 0)
    · subst heq
      decide
    · have hnone : cameraHost.db n = none := if_neg heq
      rw [hnone] at hn
      cases hn
  obtain ⟨hnodes, hrecords, hunapplied⟩ := rescan_exact
    [⟨cameraHost, 0, (81, 0), [.camera], { link := fun i => if i = 1 then some .rename else none, removal := { detach := true } }⟩]
    ["c81:0".toList] cameraHost 0 [.camera] (fun _ => {}) hlisted fun _ => ⟨rfl, rfl, fun _ => rfl, rfl⟩
  refine ⟨?_, ?_, hunapplied⟩
  · rw [hnodes, wanted_cameraHost]
    rfl
  · rw [← hrecords]
    exact wanted_cameraHost

/-- In every run of looks at devices in which links can be removed, whatever else fails: each link that is
there is a name of a recorded device and leads to that device's node, which is there; or it is a temporary one in
psbox's directory that could not be renamed. When each device is looked at while no other recorded one has a name
of its, all names of the complete records are links. -/
theorem links_lead_to_nodes (ls : List Look) (hunlinks : ∀ l ∈ ls, l.faults.Unlinks) :
    let s := ls.foldl Dev.look {}
    (∀ path target, s.links path = some target →
      (∃ n p, s.records.lookup n = some p ∧ path ∈ p.names ∧
        follow (devDir path) target = ["dev".toList, hiddenDir, hiddenName n] ∧ s.nodes (hiddenName n) = 1) ∨
      ∃ l ∈ ls, ∃ name i, l.faults.link i = some .rename ∧ path = tempName name ∧
        target = linkTarget name (hiddenName l.number)) ∧
      (StepsMeet (fun s l => some (Dev.look s l)) Dev.Apart {} ls → ∀ n p, s.records.lookup n = some p →
        p.complete = true → ∀ name ∈ p.names, s.links name = some (linkTarget name (hiddenName n))) := by
  have hsound := Dev.sound_foldl Dev.sound_empty ls
  have hlinked : (ls.foldl Dev.look {}).Linked := by
    clear hsound
    induction ls using List.reverseRecOn with
    -- No link was made.
    | nil =>
        intro name target _ hlink
        cases hlink
    | append_singleton ls l ih =>
        rw [List.foldl_append, List.foldl_cons, List.foldl_nil]
        have hls := ih fun l' hl' => hunlinks l' (List.mem_append_left _ hl')
        exact hls.look (hunlinks l (by simp))
  have htemporary : ∀ path target, Dev.Inside path → (ls.foldl Dev.look {}).links path = some target →
      ∃ l ∈ ls, ∃ name i, l.faults.link i = some .rename ∧ path = tempName name ∧
        target = linkTarget name (hiddenName l.number) := by
    clear hsound hlinked
    intro path target hpath hlink
    induction ls using List.reverseRecOn with
    | nil => cases hlink
    | append_singleton ls l ih =>
        rw [List.foldl_append, List.foldl_cons, List.foldl_nil] at hlink
        rcases Dev.look_inside _ l hpath hlink with hbefore | hmade
        · obtain ⟨l', hl', htemp⟩ := ih (fun l' hl' => hunlinks l' (List.mem_append_left _ hl')) hbefore
          exact ⟨l', List.mem_append_left _ hl', htemp⟩
        · exact ⟨l, by simp, hmade⟩
  refine ⟨fun path target hlink => ?_, fun hapart n p hp hcomplete name hname => ?_⟩
  · by_cases hinside : Dev.Inside path
    · exact Or.inr (htemporary path target hinside hlink)
    · left
      obtain ⟨n, p, hp, _, hname, rfl⟩ := hlinked path target hinside hlink
      refine ⟨n, p, hp, hname, ?_, ?_⟩
      · rw [hsound.hidden n p hp]
        exact follow_linkTarget path n
      · rw [hsound.nodes, hp]
        rfl
  · have hfull : (ls.foldl Dev.look {}).Full :=
      Dev.full_foldl Dev.sound_empty (fun n p hp => by simp at hp) (fun n p hp => by simp at hp) hunlinks hapart
    rw [← hsound.hidden n p hp]
    exact hfull n p hp hcomplete name hname

/-- A camera is plugged in, and the second of its links can be renamed only when it is looked at again. -/
def cameraLooks : List Look :=
  [⟨cameraHost, 0, (81, 0), [.camera], { link := fun i => if i = 1 then some .rename else none }⟩,
    ⟨cameraHost, 0, (81, 0), [.camera], {}⟩]

theorem links_lead_to_nodes_camera :
    let s := cameraLooks.foldl Dev.look {}
    let target := linkTarget "v4l/by-id/cam".toList (hiddenName (81, 0))
    s.links "v4l/by-id/cam".toList = some target ∧
      ∃ n, follow (devDir "v4l/by-id/cam".toList) target = ["dev".toList, hiddenDir, hiddenName n] ∧
        s.nodes (hiddenName n) = 1 := by
  obtain ⟨hlinks, hnames⟩ := links_lead_to_nodes cameraLooks fun l hl i => by
    rcases List.mem_pair.mp hl with rfl | rfl <;> exact ⟨rfl, rfl⟩
  have hrecord : (cameraLooks.foldl Dev.look {}).records.lookup (81, 0) =
      some ⟨["video0".toList, "v4l/by-id/cam".toList], hiddenName (81, 0), true⟩ := by
    decide
  have hapart : ∀ (s : Dev) (l : Look), l.number = (81, 0) → (∀ m, m ≠ (81, 0) → s.records.lookup m = none) →
      s.Apart l := by
    intro s l hnumber hnone d _ m p hne hm
    rw [hnone m (hnumber ▸ hne)] at hm
    cases hm
  have hlink := hnames
    ⟨hapart _ _ rfl fun m _ => by simp, fun t ht => by
      obtain rfl := Option.some.inj ht
      refine ⟨hapart _ _ rfl fun m hne => ?_, fun _ _ => trivial⟩
      rw [Dev.look_lookup_of_ne _ _ hne]
      simp⟩
    (81, 0) _ hrecord rfl "v4l/by-id/cam".toList (by simp)
  rcases hlinks _ _ hlink with ⟨n, p, _, _, hfollow, hnode⟩ | ⟨_, _, name, _, _, htemp, _⟩
  · exact ⟨hlink, n, hfollow, hnode⟩
  · have hinside := Dev.inside_tempName name
    rw [← htemp] at hinside
    exact absurd hinside (by unfold Dev.Inside; decide)

end Psbox.Devices
