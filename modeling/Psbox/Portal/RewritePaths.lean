import Psbox.DBus.MapPaths
import Psbox.Portal.Paths

/-!
# Request and Session Paths, There and Back

The gateway puts a client's host name in place of its private one in the request and
session paths it sends on, and the other way round in what comes back.

`swapSender_eq_some` says when a path is swapped and to what. From that a path is
restored by the way back (`swapSender_swapSender`), and with it every value
(`mapPaths_mapPaths`); `args_rewritePaths` says what a whole message then holds.
-/

namespace Psbox.Portal

open Psbox.DBus
open Image

/-! ## Section 1: One Path -/

/-- The prefixes of request and session paths. -/
def pathPrefixes : List String :=
  [requestPrefix, sessionPrefix]

/-- A request or session path of the sender `seg`. -/
def Carries (seg path : String) : Prop :=
  ∃ pre ∈ pathPrefixes, ∃ rest : List Char,
    path.toList = pre.toList ++ (seg.toList ++ rest) ∧ (rest = [] ∨ rest.head? = some '/')

theorem splitSegment_append {seg rest : List Char} (hseg : '/' ∉ seg)
    (hrest : rest = [] ∨ rest.head? = some '/') :
    splitSegment (seg ++ rest) = (seg, rest.drop 1) := by
  -- The segment ends at its slash, or at the end.
  have hall : ∀ c ∈ seg, decide (c ≠ '/') = true := by
    intro c hc
    apply decide_eq_true
    rintro rfl
    exact hseg hc
  have hstop : rest.takeWhile (· ≠ '/') = [] ∧ rest.dropWhile (· ≠ '/') = rest := by
    rcases hrest with rfl | hhead
    · exact ⟨rfl, rfl⟩
    · obtain ⟨tail, rfl⟩ := List.head?_eq_some_iff.mp hhead
      exact ⟨rfl, rfl⟩
  rw [splitSegment, List.takeWhile_append_of_pos hall, List.dropWhile_append_of_pos hall, hstop.1,
    hstop.2, List.append_nil]

theorem splitSegment_eq {s seg tail : List Char} (h : splitSegment s = (seg, tail)) :
    '/' ∉ seg ∧ ∃ rest, s = seg ++ rest ∧ tail = rest.drop 1 ∧ (rest = [] ∨ rest.head? = some '/') := by
  obtain ⟨rfl, rfl⟩ := Prod.mk.inj h
  refine ⟨fun hmem => ?_, s.dropWhile (· ≠ '/'), (List.takeWhile_append_dropWhile ..).symm, rfl, ?_⟩
  · have hslash := List.all_eq_true.mp List.all_takeWhile _ hmem
    exact absurd rfl (of_decide_eq_true hslash)
  · cases hdrop : s.dropWhile (· ≠ '/') with
    | nil => exact Or.inl rfl
    | cons c cs =>
        have hc := List.head?_dropWhile_not (fun c => decide (c ≠ '/')) s
        rw [hdrop] at hc
        simp at hc
        simp [hc]

/-- A segment is swapped with what follows it, but for a slash at the very end. -/
theorem swapAfter_eq_some (pre path : List Char) {src : List Char} (hsrc : '/' ∉ src)
    (dst q : List Char) :
    swapAfter pre path src dst = some q ↔
      ∃ rest, path = pre ++ (src ++ rest) ∧ (rest = [] ∨ rest.head? = some '/') ∧
        q = pre ++ (dst ++ if rest.drop 1 = [] then [] else rest) := by
  unfold swapAfter
  -- The path begins with the prefix, or it is no path of this kind.
  cases hstrip : stripPrefix pre path with
  | none =>
      refine ⟨(fun h => by cases h), ?_⟩
      rintro ⟨rest, hpath, -, -⟩
      rw [stripPrefix_eq_some.mpr hpath] at hstrip
      cases hstrip
  | some after =>
      have hpath := stripPrefix_eq_some.mp hstrip
      rcases hsplit : splitSegment after with ⟨seg, tail⟩
      obtain ⟨hseg, rest, rfl, rfl, hrest⟩ := splitSegment_eq hsplit
      simp only [hsplit]
      by_cases heq : seg = src
      · subst heq
        rw [if_neg (not_not.mpr rfl)]
        have hswapped : (if rest.drop 1 = [] then some (pre ++ dst)
            else some (pre ++ dst ++ ['/'] ++ rest.drop 1)) =
            some (pre ++ (dst ++ if rest.drop 1 = [] then [] else rest)) := by
          split
          · rw [List.append_nil]
          · rename_i htail
            rcases hrest with rfl | hhead
            · exact absurd rfl htail
            · obtain ⟨cs, rfl⟩ := List.head?_eq_some_iff.mp hhead
              simp
        rw [hswapped, Option.some.injEq]
        constructor
        · rintro rfl
          exact ⟨rest, hpath, hrest, rfl⟩
        · rintro ⟨rest', hpath', _, rfl⟩
          rw [hpath, List.append_cancel_left_eq, List.append_cancel_left_eq] at hpath'
          rw [hpath']
      · rw [if_pos heq]
        refine ⟨(fun h => by cases h), ?_⟩
        rintro ⟨rest', hpath', hrest', -⟩
        rw [hpath, List.append_cancel_left_eq] at hpath'
        rw [hpath', splitSegment_append hsrc hrest'] at hsplit
        exact absurd (Prod.mk.inj hsplit).1.symm heq

/-- Both prefixes are of one length, so a path has one of them only. -/
theorem prefix_unique {pre pre' : String} (hpre : pre ∈ pathPrefixes) (hpre' : pre' ∈ pathPrefixes)
    {x y : List Char} (h : pre.toList ++ x = pre'.toList ++ y) : pre = pre' ∧ x = y := by
  have hlen : ∀ s ∈ pathPrefixes, s.toList.length = 40 := by decide
  obtain ⟨hsame, hrest⟩ := List.append_inj h ((hlen pre hpre).trans (hlen pre' hpre').symm)
  exact ⟨String.toList_inj.mp hsame, hrest⟩

/-- What a path is swapped to. -/
theorem swapSender_eq_some {path src dst q : String} (hsrc : '/' ∉ src.toList) :
    swapSender path src dst = some q ↔ ∃ pre ∈ pathPrefixes, ∃ rest : List Char,
      path.toList = pre.toList ++ (src.toList ++ rest) ∧ (rest = [] ∨ rest.head? = some '/') ∧
        q.toList = pre.toList ++ (dst.toList ++ if rest.drop 1 = [] then [] else rest) := by
  -- The two kinds of paths are tried one after the other.
  have hrequest := swapAfter_eq_some requestPrefix.toList path.toList hsrc dst.toList
  have hsession := swapAfter_eq_some sessionPrefix.toList path.toList hsrc dst.toList
  rw [swapSender, Option.map_eq_some_iff]
  constructor
  · rintro ⟨l, hl, rfl⟩
    rw [String.toList_ofList]
    rcases Option.or_eq_some_iff.mp hl with hl | ⟨-, hl⟩
    · exact ⟨requestPrefix, by decide, (hrequest l).mp hl⟩
    · exact ⟨sessionPrefix, by decide, (hsession l).mp hl⟩
  · rintro ⟨pre, hpre, hswap⟩
    refine ⟨q.toList, Option.or_eq_some_iff.mpr ?_, String.ofList_toList⟩
    simp only [pathPrefixes, List.mem_cons, List.not_mem_nil, or_false] at hpre
    rcases hpre with rfl | rfl
    · exact Or.inl ((hrequest _).mpr hswap)
    · refine Or.inr ⟨?_, (hsession _).mpr hswap⟩
      apply Option.eq_none_iff_forall_ne_some.mpr
      intro l hl
      obtain ⟨_, hpath, _⟩ := (hrequest l).mp hl
      obtain ⟨_, hpath', _⟩ := hswap
      have hsame := (prefix_unique (by decide) (by decide) (hpath.symm.trans hpath')).1
      exact absurd hsame (by decide)

theorem swapSender_eq_none {path src : String} (hsrc : '/' ∉ src.toList) (dst : String) :
    swapSender path src dst = none ↔ ¬ Carries src path := by
  rw [Option.eq_none_iff_forall_ne_some, ← not_exists, not_iff_not]
  constructor
  · rintro ⟨q, hq⟩
    obtain ⟨pre, hpre, rest, hpath, hrest, _⟩ := (swapSender_eq_some hsrc).mp hq
    exact ⟨pre, hpre, rest, hpath, hrest⟩
  · rintro ⟨pre, hpre, rest, hpath, hrest⟩
    exact ⟨String.ofList _, (swapSender_eq_some hsrc).mpr
      ⟨pre, hpre, rest, hpath, hrest, String.toList_ofList⟩⟩

/-- The way back restores a path, but for a slash at the very end. -/
theorem swapSender_swapSender {path a b q : String} (ha : '/' ∉ a.toList) (hb : '/' ∉ b.toList)
    (hslash : path.toList.getLast? ≠ some '/') (h : swapSender path a b = some q) :
    swapSender q b a = some path := by
  obtain ⟨pre, hpre, rest, hpath, hrest, hq⟩ := (swapSender_eq_some ha).mp h
  -- There is no slash alone at the end that would be dropped.
  have hkept : (if rest.drop 1 = [] then [] else rest) = rest := by
    split
    · rename_i htail
      rcases hrest with rfl | hhead
      · rfl
      · obtain ⟨cs, rfl⟩ := List.head?_eq_some_iff.mp hhead
        have hcs : cs = [] := htail
        subst hcs
        rw [hpath] at hslash
        simp at hslash
    · rfl
  rw [hkept] at hq
  refine (swapSender_eq_some hb).mpr ⟨pre, hpre, rest, hq, hrest, ?_⟩
  rw [hkept, hpath]

/-- What a path is in the end, when the swap may not apply to it. -/
theorem swapSender_getD {path a b : String} (ha : '/' ∉ a.toList) (hb : '/' ∉ b.toList)
    (hcarries : ¬ Carries b path) (hslash : path.toList.getLast? ≠ some '/') :
    (swapSender ((swapSender path a b).getD path) b a).getD ((swapSender path a b).getD path) =
      path := by
  cases hswap : swapSender path a b with
  | none => rw [Option.getD_none, (swapSender_eq_none hb a).mpr hcarries, Option.getD_none]
  | some q => rw [Option.getD_some, swapSender_swapSender ha hb hslash hswap, Option.getD_some]

/-! ## Section 2: Whole Messages -/

/-- A path and what it is rewritten to: another one exactly when it is a request or
session path of `a`. -/
def Rewrites (a b path path' : String) : Prop :=
  (Carries a path ∧ swapSender path a b = some path') ∨ (¬ Carries a path ∧ path' = path)

theorem rewrites_getD {a : String} (ha : '/' ∉ a.toList) (b path : String) :
    Rewrites a b path ((swapSender path a b).getD path) := by
  by_cases hcarries : Carries a path
  · cases hswap : swapSender path a b with
    | none => exact absurd hcarries ((swapSender_eq_none ha b).mp hswap)
    | some q => exact Or.inl ⟨hcarries, hswap⟩
  · rw [(swapSender_eq_none ha b).mpr hcarries]
    exact Or.inr ⟨hcarries, rfl⟩

/-- The object paths of a message with the arguments `args`. -/
def objectPaths (m : Message) (args : List Value) : List String :=
  m.path.toList ++ Value.pathsList args

/-- `rewrite_paths` of the header. -/
def rewriteHeader (m : Message) (src dst : String) : Message :=
  { m with path := m.path.map fun p => (swapSender p src dst).getD p }

/-- `rewrite_paths` of the body, decoded whatever its signature. -/
def rewriteArgs (m : Message) (src dst : String) : Message :=
  match m.args with
  | .error _ => m
  | .ok args =>
      if Value.anyPathList (fun p => (swapSender p src dst).isSome) args then
        m.setBody (Value.mapPathsList (swapSender · src dst) args)
      else m

/-- The body encoded again, whether a path changed or not. -/
def encodeAgain (m : Message) (src dst : String) : Message :=
  match m.args with
  | .error _ => m
  | .ok args => m.setBody (Value.mapPathsList (swapSender · src dst) args)

theorem rewritePaths_eq_args (m : Message) (src dst : String) : rewritePaths m src dst =
    if !(m.signature.contains 'o' || m.signature.contains 'v') then rewriteHeader m src dst
    else rewriteArgs (rewriteHeader m src dst) src dst := by
  obtain ⟨_, _, _, path, _, _, _, _, _, _, _, _, _⟩ := m
  cases path with
  | none => rfl
  | some p =>
      unfold rewritePaths rewriteHeader
      simp only [Option.bind_some, Option.map_some]
      cases swapSender p src dst <;> rfl

theorem rewriteArgs_eq {m : Message} {args : List Value} (h : m.args = .ok args) (src dst : String) :
    rewriteArgs m src dst =
      if Value.anyPathList (fun p => (swapSender p src dst).isSome) args then
        m.setBody (Value.mapPathsList (swapSender · src dst) args)
      else m := by
  rw [rewriteArgs, h]

@[simp] theorem path_rewriteArgs (m : Message) (src dst : String) :
    (rewriteArgs m src dst).path = m.path := by
  unfold rewriteArgs
  split
  · rfl
  · split <;> rfl

theorem path_rewritePaths (m : Message) (src dst : String) :
    (rewritePaths m src dst).path = m.path.map fun p => (swapSender p src dst).getD p := by
  rw [rewritePaths_eq_args]
  split
  · rfl
  · rw [path_rewriteArgs]
    rfl

/-- A body whose signature names neither paths nor variants has no path to change. -/
theorem anyPathList_eq_false {m : Message} {args : List Value} (h : m.args = .ok args)
    (ho : 'o' ∉ m.signature) (hv : 'v' ∉ m.signature) (p : String → Bool) :
    Value.anyPathList p args = false := by
  obtain ⟨hsig, _, htyped, _⟩ := decodeBody_eq_ok.mp h
  rw [anyPathList_eq_any, List.any_eq_false]
  intro v hmem
  rw [← hsig] at ho hv
  rw [(htyped v hmem).anyPath_eq_false p (fun hc => ho (mem_signatures hmem hc))
    fun hc => hv (mem_signatures hmem hc)]
  exact Bool.false_ne_true

/-- The shortcut leaves out nothing. -/
theorem rewritePaths_eq_rewriteArgs {m : Message} {args : List Value} (h : m.args = .ok args)
    (src dst : String) : rewritePaths m src dst = rewriteArgs (rewriteHeader m src dst) src dst := by
  rw [rewritePaths_eq_args]
  split
  · rename_i hshort
    simp only [Bool.not_eq_true', Bool.or_eq_false_iff, List.contains_eq_mem, decide_eq_false_iff_not]
      at hshort
    rw [rewriteArgs_eq (show (rewriteHeader m src dst).args = .ok args from h),
      anyPathList_eq_false h hshort.1 hshort.2, if_neg Bool.false_ne_true]
  · rfl

/-- What a rewritten message holds, if its body is read back. -/
theorem args_rewritePaths {m : Message} {args : List Value} (h : m.args = .ok args)
    (src dst : String)
    (hback : Value.anyPathList (fun p => (swapSender p src dst).isSome) args = true →
      decodeBody m.signature (rewritePaths m src dst).body false =
        .ok (Value.mapPathsList (swapSender · src dst) args)) :
    (rewritePaths m src dst).signature = m.signature ∧
      (rewritePaths m src dst).args = .ok (Value.mapPathsList (swapSender · src dst) args) := by
  have hsig := (decodeBody_eq_ok.mp h).1
  have hheader : (rewriteHeader m src dst).args = .ok args := h
  rw [rewritePaths_eq_rewriteArgs h, rewriteArgs_eq hheader] at hback ⊢
  -- The arguments are written anew only where a path in them changed.
  split at hback
  · rename_i hchanged
    -- Written anew, the body has the types it had.
    have hsame : (encodeBody (Value.mapPathsList (swapSender · src dst) args)).1 = m.signature := by
      rw [encodeBody_eq, Value.signatures_mapPathsList, hsig]
    rw [if_pos hchanged]
    refine ⟨hsame, ?_⟩
    rw [← hback hchanged, ← hsame]
    rfl
  · rename_i hkept
    rw [if_neg hkept, Value.mapPathsList_of_anyPath args (Bool.eq_false_iff.mpr hkept)]
    exact ⟨rfl, hheader⟩

theorem body_rewritePaths {m : Message} {args : List Value} (h : m.args = .ok args) {src dst : String}
    (hchanged : Value.anyPathList (fun p => (swapSender p src dst).isSome) args = true) :
    (rewritePaths m src dst).body =
      (encodeBody (Value.mapPathsList (swapSender · src dst) args)).2 := by
  rw [rewritePaths_eq_rewriteArgs h, rewriteArgs_eq (show (rewriteHeader m src dst).args = .ok args from h), if_pos hchanged]
  rfl

/-- A rewritten body that is not too long is read back. -/
theorem args_rewritePaths_of_lt {m : Message} {args : List Value} (h : m.args = .ok args)
    {src dst : String} (hsize : (rewritePaths m src dst).body.length < maxLength) :
    (rewritePaths m src dst).signature = m.signature ∧
      (rewritePaths m src dst).args = .ok (Value.mapPathsList (swapSender · src dst) args) := by
  refine args_rewritePaths h src dst fun hchanged => ?_
  rw [body_rewritePaths h hchanged] at hsize ⊢
  exact decodeBody_mapPaths h _ hsize

/-- Request and session paths are translated there and back without loss, and nothing else is
translated, as long as the rewritten body has a length a message can have; and the
shortcut for bodies that can hold no path changes nothing but padding. -/
theorem rewritePaths_there_and_back (m : Message) (args : List Value) (a b : String)
    (hargs : m.args = .ok args) (ha : '/' ∉ a.toList) (hb : '/' ∉ b.toList) :
    ((rewritePaths m a b).body.length < 2 ^ 32 →
      ((∀ p ∈ objectPaths m args, ¬ Carries b p ∧ p.toList.getLast? ≠ some '/') →
        (rewritePaths (rewritePaths m a b) b a).path = m.path ∧
        (rewritePaths (rewritePaths m a b) b a).signature = m.signature ∧
        (rewritePaths (rewritePaths m a b) b a).args = .ok args) ∧
      ∃ path body args', rewritePaths m a b = { m with path := path, body := body } ∧
        Option.Rel (Rewrites a b) m.path path ∧ (rewritePaths m a b).args = .ok args' ∧
        List.Forall₂ (Value.Alike (Rewrites a b)) args args') ∧
    ('o' ∉ m.signature → 'v' ∉ m.signature →
      rewritePaths m a b = rewriteArgs (rewriteHeader m a b) a b ∧
      ∃ body, encodeAgain (rewriteHeader m a b) a b = { rewritePaths m a b with body := body } ∧
        body.length = m.body.length ∧ decodeBody m.signature body false = .ok args ∧
        (ZeroPadded m.signature m.body → body = m.body)) := by
  refine ⟨fun hsize => ?_, fun ho hv => ?_⟩
  -- What is written is read as the rewritten arguments.
  · obtain ⟨hsig, hread⟩ := args_rewritePaths_of_lt hargs hsize
    refine ⟨fun hpaths => ?_, ?_⟩
    · have hrestored : Value.mapPathsList (swapSender · b a)
          (Value.mapPathsList (swapSender · a b) args) = args := by
        apply Value.mapPathsList_mapPathsList
        intro p hp
        obtain ⟨hcarries, hslash⟩ := hpaths p (List.mem_append_right _ hp)
        exact swapSender_getD ha hb hcarries hslash
      have hback := args_rewritePaths hread b a fun hchanged => by
        rw [body_rewritePaths hread hchanged, hrestored, hsig, encodeBody_eq]
        exact decodeBody_fill hargs
      rw [hrestored, hsig] at hback
      refine ⟨?_, hback⟩
      rw [path_rewritePaths, path_rewritePaths, Option.map_map]
      cases hpath : m.path with
      | none => rfl
      | some p =>
          have hmem : p ∈ objectPaths m args := by simp [objectPaths, hpath]
          exact congrArg some (swapSender_getD ha hb (hpaths p hmem).1 (hpaths p hmem).2)
    · obtain ⟨path, sig, body, heq⟩ := rewritePaths_eq m a b
      have hkept : sig = m.signature := by rw [← hsig, heq]
      have hpath : path = m.path.map fun p => (swapSender p a b).getD p := by
        rw [← path_rewritePaths, heq]
      subst hkept
      refine ⟨path, body, _, heq, ?_, hread, Value.alike_mapPathsList (rewrites_getD ha b) args⟩
      rw [hpath]
      cases m.path with
      | none => exact .none
      | some p => exact .some (rewrites_getD ha b p)
  -- Where no path can be there is nothing to rewrite.
  · refine ⟨rewritePaths_eq_rewriteArgs hargs a b, (encodeBody args).2, ?_, ?_, ?_, ?_⟩
    · have hnone := anyPathList_eq_false hargs ho hv fun p => (swapSender p a b).isSome
      have hsame := (decodeBody_eq_ok.mp hargs).1
      have hheader : (rewriteHeader m a b).args = .ok args := hargs
      rw [rewritePaths_eq_rewriteArgs hargs, rewriteArgs_eq hheader, hnone,
        if_neg Bool.false_ne_true, encodeAgain, hheader]
      show Message.setBody _ (Value.mapPathsList (swapSender · a b) args) = _
      rw [Value.mapPathsList_of_anyPath args hnone, Message.setBody, encodeBody_eq, hsame]
      rfl
    · rw [encodeBody_eq, length_fill, (decodeBody_eq_ok.mp hargs).2.2.2.2.2]
    · rw [encodeBody_eq]
      exact decodeBody_fill hargs
    · intro hpadded
      rw [encodeBody_eq]
      exact fill_eq_of_zeroPadded hargs hpadded

/-! ## Section 3: A Message with One Path -/

/-- A message whose only argument is a path. -/
def pathMessage (path : String) : Message :=
  Message.setBody {} [.path path]

theorem length_encodeBody_path (path : String) :
    (encodeBody [.path path]).2.length = (utf8 path).length + 5 := by
  rw [encodeBody_eq, length_fill, layoutAll_cons, Layout.andThen, size_append, layout, size_aligned,
    Value.signature, content, Layout.text, Layout.andThen, size_append, size_u32, size_exactly, layoutAll,
    size_exactly]
  have hfirst : alignment ['o'] = 4 := rfl
  have hpad : Layout.padLen 4 0 = 0 := rfl
  simp only [hfirst, hpad, size_cons, size_nil, Segment.size, List.length_append, List.length_cons,
    List.length_nil]
  omega

theorem args_pathMessage {path : String} (hlen : (utf8 path).length + 5 < maxLength) :
    (pathMessage path).args = .ok [.path path] := by
  have hread := decodeBody_encodeBody [.path path] (by simpa using .basic rfl)
    (by simpa using .path (show _ < 2 ^ 32 by simp only [maxLength] at hlen; omega))
    (by rw [length_encodeBody_path]; exact hlen)
  exact hread

theorem mem_objectPaths_pathMessage {p path : String} :
    p ∈ objectPaths (pathMessage path) [.path path] ↔ p = path := by
  show p ∈ Option.toList none ++ ([path] ++ []) ↔ _
  simp

/-- The request of a client, seen from the client. -/
def requestPath : String :=
  "/org/freedesktop/portal/desktop/request/1_5/t"

theorem args_requestPath : (pathMessage requestPath).args = .ok [.path requestPath] :=
  args_pathMessage (by decide)

/-- A request path is translated to another client's and back. -/
theorem rewritePaths_there_and_back_example :
    (rewritePaths (rewritePaths (pathMessage requestPath) "1_5" "1_9") "1_9" "1_5").args =
      .ok [.path requestPath] := by
  have hall := rewritePaths_there_and_back (pathMessage requestPath) [.path requestPath] "1_5" "1_9"
    args_requestPath (by decide) (by decide +kernel)
  refine ((hall.1 (by decide)).1 fun p hp => ?_).2.2
  rw [mem_objectPaths_pathMessage.mp hp]
  have hnone : swapSender requestPath "1_9" "" = none := by decide
  exact ⟨(swapSender_eq_none (by decide) "").mp hnone, by decide +kernel⟩

/-- A sender segment of any length. -/
def segment (n : Nat) : String :=
  String.ofList (List.replicate n 'x')

theorem length_segment (n : Nat) : (segment n).toList.length = n := by
  rw [segment, String.toList_ofList, List.length_replicate]

theorem slash_notMem_segment (n : Nat) : '/' ∉ (segment n).toList := by
  rw [segment, String.toList_ofList]
  intro hmem
  exact absurd (List.eq_of_mem_replicate hmem) (by decide)

theorem length_le_utf8 (s : String) : s.toList.length ≤ (utf8 s).length := by
  rw [utf8_eq]
  induction s.toList with
  | nil => exact Nat.le_refl 0
  | cons c cs ih =>
      have hc := c.utf8Size_pos
      rw [List.flatMap_cons, List.length_append, String.length_utf8EncodeChar, List.length_cons]
      omega

/-- The length of a path of 4 GiB does not fit before it. -/
theorem args_pathMessage_ne {path : String} (hlen : 2 ^ 32 ≤ (utf8 path).length) (args : List Value) :
    (pathMessage path).args ≠ .ok args := by
  intro h
  -- A body that can be read is shorter than this path.
  obtain ⟨hsig, htypes, htyped, _, _, hsize⟩ := decodeBody_eq_ok.mp h
  have hbody : (pathMessage path).body.length = (utf8 path).length + 5 := length_encodeBody_path path
  -- A body that is read has one argument, which is the path.
  cases args with
  | nil => cases hsig
  | cons v vs =>
      have hpath : IsType 1 ['o'] := .basic rfl
      obtain ⟨hv, hvs⟩ := (htypes v List.mem_cons_self).append_inj hpath
        (show v.signature ++ Value.signatures vs = ['o'] ++ [] from hsig)
      cases vs with
      | cons w ws =>
          have hw := (htypes w (by simp)).ne_nil
          exact absurd (List.append_eq_nil_iff.mp hvs).1 hw
      | nil =>
          cases htyped v List.mem_cons_self with
          | @path _ s hs =>
              have hread := length_encodeBody_path s
              rw [encodeBody_eq, length_fill, hsize, hbody] at hread
              omega
          | struct _ _ _ => simp [Value.signature] at hv
          | _ => simp [Value.signature] at hv

theorem args_rewritePaths_of_error {m : Message} (h : ∀ args, m.args ≠ .ok args) (src dst : String) :
    (rewritePaths m src dst).args = m.args := by
  rw [rewritePaths_eq_args]
  split
  · rfl
  · have hheader : (rewriteHeader m src dst).args = m.args := rfl
    rw [rewriteArgs]
    split
    · rfl
    · rename_i args hargs
      exact absurd (hheader.symm.trans hargs) (h args)

/-- A request path, translated to a segment of `n` characters. -/
theorem swapSender_segment (n : Nat) :
    ∃ q, swapSender requestPath "1_5" (segment n) = some q ∧ n ≤ q.toList.length := by
  have hswap : swapSender requestPath "1_5" (segment n) =
      some (String.ofList (requestPrefix.toList ++ ((segment n).toList ++ ['/', 't']))) :=
    (swapSender_eq_some (by decide)).mpr
      ⟨requestPrefix, by decide, ['/', 't'], by decide, Or.inr rfl, by simp⟩
  refine ⟨_, hswap, ?_⟩
  rw [String.toList_ofList]
  simp only [List.length_append, length_segment]
  omega

theorem Carries.length_le {seg path : String} (h : Carries seg path) :
    seg.toList.length ≤ path.toList.length := by
  obtain ⟨pre, _, rest, hpath, _⟩ := h
  rw [hpath]
  simp only [List.length_append]
  omega

/-- A path of 4 GiB is not read back. -/
theorem rewritePaths_segment_ne {n : Nat} (hn : 2 ^ 32 ≤ n) (dst : String) (args : List Value) :
    (rewritePaths (rewritePaths (pathMessage requestPath) "1_5" (segment n)) (segment n) dst).args ≠
      .ok args := by
  obtain ⟨q, hswap, hlen⟩ := swapSender_segment n
  -- Restoring makes the path of the long segment.
  have hmessage : rewritePaths (pathMessage requestPath) "1_5" (segment n) = pathMessage q := by
    have hchanged : Value.anyPathList (fun p => (swapSender p "1_5" (segment n)).isSome)
        [.path requestPath] = true := by
      show ((swapSender requestPath "1_5" (segment n)).isSome || false) = true
      rw [hswap]
      rfl
    have hmapped : Value.mapPathsList (swapSender · "1_5" (segment n)) [.path requestPath] =
        [.path q] := by
      show [Value.path ((swapSender requestPath "1_5" (segment n)).getD requestPath)] = _
      rw [hswap, Option.getD_some]
    have hheader : (rewriteHeader (pathMessage requestPath) "1_5" (segment n)).args =
        .ok [.path requestPath] := args_requestPath
    rw [rewritePaths_eq_rewriteArgs args_requestPath, rewriteArgs_eq hheader, if_pos hchanged, hmapped]
    rfl
  -- Such a path is not read back.
  have hread := args_pathMessage_ne (Nat.le_trans hn (Nat.le_trans hlen (length_le_utf8 q)))
  rw [hmessage, args_rewritePaths_of_error hread]
  exact hread args

/-- A body whose padding bytes are not zeros. -/
def paddedMessage : Message :=
  { signature := ['y', 'u'], body := [1, 9, 9, 9, 0, 0, 0, 0] }

/-- A segment of 4 GiB is not translated back, and a body that is encoded again has other
padding bytes. -/
theorem rewritePaths_not_restored :
    ((pathMessage requestPath).args = .ok [.path requestPath] ∧ "1_5" ≠ segment (2 ^ 32) ∧
      '/' ∉ "1_5".toList ∧ '/' ∉ (segment (2 ^ 32)).toList ∧
      (∀ p ∈ objectPaths (pathMessage requestPath) [.path requestPath],
        ¬ Carries (segment (2 ^ 32)) p ∧ p.toList.getLast? ≠ some '/') ∧
      (rewritePaths (rewritePaths (pathMessage requestPath) "1_5" (segment (2 ^ 32)))
        (segment (2 ^ 32)) "1_5").args ≠ .ok [.path requestPath]) ∧
    (paddedMessage.args.isOk ∧ 'o' ∉ paddedMessage.signature ∧ 'v' ∉ paddedMessage.signature ∧
      rewritePaths paddedMessage "1_5" "1_9" ≠
        encodeAgain (rewriteHeader paddedMessage "1_5" "1_9") "1_5" "1_9") := by
  refine ⟨⟨args_requestPath, ?_, by decide, slash_notMem_segment _, ?_,
    rewritePaths_segment_ne (Nat.le_refl _) _ _⟩, by decide⟩
  -- The segments differ in their length.
  · intro heq
    have hlen := length_segment (2 ^ 32)
    rw [← heq] at hlen
    exact absurd hlen (by decide)
  · intro p hp
    rw [mem_objectPaths_pathMessage.mp hp]
    -- The path is too short to hold the long segment.
    have hshort : requestPath.toList.length = 45 := by decide
    refine ⟨fun hcarries => ?_, by decide⟩
    have hle := hcarries.length_le
    rw [length_segment, hshort] at hle
    exact absurd hle (by decide)

end Psbox.Portal
