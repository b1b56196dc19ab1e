import Psbox.Desktop.Changes
import Psbox.Install.Escaping

/-!
# Built Entries Are Read as They Were Built

When the text that is written of a built entry is read as the entry: what a configuration's keys,
actions and arguments must be like, and what a host's entry (`reads_back_iff`).

Most of the proof goes backwards through `build`: the values that an entry has when it is finished
are one line each when those written last are, and those that an earlier entry has of other keys.
-/

namespace Psbox.Install

open Psbox.Foundations Psbox.Desktop

/-! ## Section 1: Names of Keys -/

/-- A key that nothing else on its line is read as. -/
structure PlainKey (k : Text) : Prop where
  oneLine : OneLine k
  noEquals : '=' ∉ k
  noComment : k.head? ≠ some '#'
  noHeader : k.head? ≠ some '['

/-- The key that a key translates. -/
def baseKey (k : Text) : Text :=
  k.takeWhile (· ≠ '[')

private theorem toNat_of_isAsciiAlphanumeric {c : Char} (h : isAsciiAlphanumeric c) :
    48 ≤ c.toNat ∧ c.toNat ≤ 57 ∨ 65 ≤ c.toNat ∧ c.toNat ≤ 90 ∨ 97 ≤ c.toNat ∧ c.toNat ≤ 122 := by
  simp only [isAsciiAlphanumeric, Bool.or_eq_true, Bool.and_eq_true, decide_eq_true_eq,
    Char.le_def, UInt32.le_iff_toNat_le] at h
  simp only [Char.toNat]
  rcases h with (h | h) | h
  · exact Or.inr (Or.inr h)
  · exact Or.inr (Or.inl h)
  · exact Or.inl h

private theorem not_isWhitespace_of_toNat {c : Char} (h : 33 ≤ c.toNat ∧ c.toNat ≤ 126) :
    ¬isWhitespace c := by
  simp only [isWhitespace, Bool.or_eq_true, Bool.and_eq_true, decide_eq_true_eq, beq_iff_eq]
  omega

private theorem toNat_of_isWordChar {c : Char} (h : isWordChar c) : 33 ≤ c.toNat ∧ c.toNat ≤ 126 := by
  rcases Bool.or_eq_true_iff.mp h with h | h
  · have := toNat_of_isAsciiAlphanumeric h
    omega
  · obtain rfl : c = '-' := by simpa using h
    decide

private theorem isWordChar_ne {c d : Char} (h : isWordChar c) (hd : isWordChar d = false) : c ≠ d := by
  rintro rfl
  rw [h] at hd
  cases hd

/-- A text of such characters is one line. -/
theorem oneLine_of_toNat {t : Text} (h : ∀ c ∈ t, 33 ≤ c.toNat ∧ c.toNat ≤ 126) : OneLine t := by
  refine ⟨fun hmem => ?_, fun c hc => ?_, fun c hc => ?_⟩
  · exact absurd (h _ hmem) (by decide)
  · exact not_isWhitespace_of_toNat (h c (List.mem_of_mem_head? hc))
  · exact not_isWhitespace_of_toNat (h c (List.mem_of_mem_getLast? hc))

section Keys

variable {key locale : Text}

private theorem validKey_chars (h : validKey key) :
    key ≠ [] ∧ (∀ c ∈ key, isWordChar c) ∧ key ∉ reservedKeys := by
  simpa [validKey, and_assoc] using h

private theorem validLocale_chars (h : validLocale locale) :
    ∀ c ∈ locale, isWordChar c ∨ c ∈ ['@', '.', '_'] := by
  -- Each of the separators cuts the tag into two texts that may be looked at for themselves.
  have hparts : ∀ (d : Char) (t : Text), d ∈ ['@', '.', '_'] →
      ∀ c ∈ t, c ∈ ((splitOnce d t).getD (t, [])).1 ∨ c ∈ ((splitOnce d t).getD (t, [])).2 ∨
        c ∈ ['@', '.', '_'] := by
    intro d t hd c hc
    cases hsplit : splitOnce d t with
    | none => exact Or.inl hc
    | some kv =>
        obtain ⟨k, v⟩ := kv
        obtain ⟨rfl, _⟩ := splitOnce_eq_some hsplit
        rcases List.mem_append.mp hc with hc | hc
        · exact Or.inl hc
        · rcases List.mem_cons.mp hc with rfl | hc
          · exact Or.inr (Or.inr hd)
          · exact Or.inr (Or.inl hc)
  simp only [validLocale, Bool.and_eq_true, List.all_eq_true] at h
  obtain ⟨⟨⟨⟨_, hlang⟩, hcountry⟩, hencoding⟩, hmodifier⟩ := h
  have hletter : ∀ c : Char, ('a' ≤ c && c ≤ 'z') = true → isWordChar c := by
    intro c hc
    simp [isWordChar, isAsciiAlphanumeric, hc]
  intro c hc
  rcases hparts '@' locale (by decide) c hc with hc | hc | hc
  · rcases hparts '.' _ (by decide) c hc with hc | hc | hc
    · rcases hparts '_' _ (by decide) c hc with hc | hc | hc
      · exact Or.inl (hletter c (by simpa using hlang c hc))
      · exact Or.inl (hcountry c hc)
      · exact Or.inr hc
    · exact Or.inl (hencoding c hc)
    · exact Or.inr hc
  · exact Or.inl (hmodifier c hc)
  · exact Or.inr hc

private theorem plainKey_of_validKey (h : validKey key) : PlainKey key := by
  obtain ⟨_, hword, _⟩ := validKey_chars h
  -- Nothing that the reader takes for another kind of line stands at its start.
  have hhead : ∀ d, isWordChar d = false → key.head? ≠ some d := by
    intro d hd heq
    exact isWordChar_ne (hword d (List.mem_of_mem_head? heq)) hd rfl
  refine ⟨oneLine_of_toNat fun c hc => toNat_of_isWordChar (hword c hc), fun hmem => ?_,
    hhead '#' (by decide), hhead '[' (by decide)⟩
  exact isWordChar_ne (hword _ hmem) (by decide) rfl

private theorem plainKey_localizedKey (h : validKey key) (hl : validLocale locale) :
    PlainKey (localizedKey key locale) := by
  obtain ⟨hne, hword, _⟩ := validKey_chars h
  have hlocale := validLocale_chars hl
  -- The characters of a translated key are those of the key, of the locale, and the brackets.
  have hchar : ∀ c ∈ localizedKey key locale, (33 ≤ c.toNat ∧ c.toNat ≤ 126) ∧ c ≠ '=' := by
    intro c hc
    simp only [localizedKey, List.mem_append, List.mem_cons, List.not_mem_nil, or_false] at hc
    rcases hc with hc | rfl | hc | rfl
    · exact ⟨toNat_of_isWordChar (hword c hc), isWordChar_ne (hword c hc) (by decide)⟩
    · decide
    · rcases hlocale c hc with hc | hc
      · exact ⟨toNat_of_isWordChar hc, isWordChar_ne hc (by decide)⟩
      · have hall : ∀ c ∈ ['@', '.', '_'], (33 ≤ c.toNat ∧ c.toNat ≤ 126) ∧ c ≠ '=' := by decide
        exact hall c hc
    · decide
  have hhead : (localizedKey key locale).head? = key.head? :=
    List.head?_append_of_ne_nil key hne
  have hplain := plainKey_of_validKey h
  exact ⟨oneLine_of_toNat fun c hc => (hchar c hc).1, fun hmem => (hchar _ hmem).2 rfl,
    hhead ▸ hplain.noComment, hhead ▸ hplain.noHeader⟩

private theorem baseKey_of_validKey (h : validKey key) : baseKey key = key := by
  obtain ⟨_, hword, _⟩ := validKey_chars h
  refine List.takeWhile_eq_self_iff.mpr fun c hc => ?_
  simpa using isWordChar_ne (hword c hc) (by decide : isWordChar '[' = false)

private theorem baseKey_append (h : validKey key) (t : Text) : baseKey (key ++ '[' :: t) = key := by
  obtain ⟨_, hword, _⟩ := validKey_chars h
  -- A word character is no bracket, so the key ends at the first one.
  have hbracket : ∀ c ∈ key, (c ≠ '[' : Bool) := fun c hc => by
    simpa using isWordChar_ne (hword c hc) (by decide : isWordChar '[' = false)
  rw [baseKey, List.takeWhile_append_of_pos hbracket]
  simp

private theorem baseKey_of_translates (h : validKey key) {k v : Text}
    (ht : (Line.key k v).translates key) : baseKey k = key := by
  simp only [Line.translates, Bool.or_eq_true, Bool.and_eq_true, decide_eq_true_eq,
    List.isPrefixOf_iff_prefix, beq_iff_eq] at ht
  rcases ht with rfl | ⟨⟨rest, rfl⟩, hbracket⟩
  · exact baseKey_of_validKey h
  · rw [List.drop_left' rfl] at hbracket
    obtain ⟨t, rfl⟩ := List.head?_eq_some_iff.mp hbracket
    exact baseKey_append h t

/-- The keys of a configuration are none of those that psbox writes. -/
theorem not_reserved_of_baseKey (h : validKey key) {k : Text} (hk : baseKey k = key) :
    k ∉ reservedKeys := by
  intro hmem
  -- The keys of its own are no translations.
  have hbase : ∀ k ∈ reservedKeys, baseKey k = k := by decide
  exact (validKey_chars h).2.2 (hk ▸ (hbase k hmem).symm ▸ hmem)

end Keys

/-! ## Section 2: What Building Leaves -/

/-- What holds of an entry all the time that it is built, whatever is written. -/
structure Buildable (e : Entry) : Prop where
  sound : Sound e
  later : LaterKept e
  /-- The keys that psbox alone writes have values of one line. -/
  own : KeptOn (fun _ k => k ∈ reservedKeys ∧ k ≠ execKey) e

/-- One entry is made from another by changes of the keys in `R` of a section. -/
structure Built (name : Text) (R : Text → Prop) (e e' : Entry) : Prop where
  names : e'.names = e.names
  buildable : Buildable e → Buildable e'
  frame : ∀ D : Text → Text → Prop, (∀ k, R k → ¬D name k) → KeptOn D e → KeptOn D e'
  get : ∀ n k, ¬R k → e'.get n k = e.get n k

section Built

variable {e e₁ e' : Entry} {name key value : Text} {R R' : Text → Prop}

theorem Built.refl (e : Entry) : Built name R e e :=
  ⟨rfl, id, fun _ _ h => h, fun _ _ _ => rfl⟩

theorem Built.trans (h : Built name R e e₁) (h' : Built name R e₁ e') : Built name R e e' :=
  ⟨h'.names.trans h.names, fun he => h'.buildable (h.buildable he),
    fun D hD he => h'.frame D hD (h.frame D hD he),
    fun n k hk => (h'.get n k hk).trans (h.get n k hk)⟩

theorem Built.mono (h : Built name R e e') (hle : ∀ k, R k → R' k) : Built name R' e e' :=
  ⟨h.names, h.buildable, fun D hD he => h.frame D (fun k hk => hD k (hle k hk)) he,
    fun n k hk => h.get n k fun hR => hk (hle k hR)⟩

private theorem hasSection_names : e.hasSection name ↔ name ∈ e.names := by
  rw [hasSection_iff, Entry.names, List.mem_map]

theorem Built.hasSection (h : Built name R e e') (n : Text) :
    e'.hasSection n ↔ e.hasSection n := by
  rw [hasSection_names, hasSection_names, h.names]

private theorem sound_change {f : Section → Section} (he : Sound e) (hname : ∀ s, (f s).name = s.name)
    (hf : ∀ s, ∀ l ∈ (f s).lines, l ∈ s.lines ∨ l.Sound) : Sound (e.change name f) := by
  -- A change of values leaves the names of the sections.
  have hnames : (e.change name f).names = e.names := names_change hname
  refine ⟨he.preamble, fun s hs => ?_, ?_, ?_⟩
  · have hmem : s.name ∈ e.names := hnames ▸ List.mem_map_of_mem hs
    obtain ⟨s', hs', heq⟩ := List.mem_map.mp hmem
    rw [← heq]
    exact he.names s' hs'
  · refine allLines_change (Q := fun _ l => l.Sound) he.lines hname fun s _ hs l hl => ?_
    exact (hf s l hl).elim (hs l) id
  · have hmain : e.hasSection mainSection := he.main
    rw [hasSection_names, ← hnames, ← hasSection_names] at hmain
    exact hmain

theorem PlainKey.sound (hk : PlainKey key) (value : Text) : (Line.key key value).Sound :=
  ⟨hk.oneLine, hk.noEquals, hk.noComment, fun hbracket => absurd hbracket hk.noHeader⟩

theorem Buildable.change {f : Section → Section} (he : Buildable e)
    (hname : ∀ s, (f s).name = s.name)
    (hf : ∀ s, ∀ l ∈ (f s).lines, l ∈ s.lines ∨ ∃ k v, l = .key k v ∧ PlainKey k ∧
      (k ∈ reservedKeys ∧ k ≠ execKey → OneLine v)) :
    Buildable (e.change name f) := by
  refine ⟨sound_change he.sound hname fun s l hl => ?_, he.later.change hname,
    allLines_change he.own hname fun s _ hs l hl => ?_⟩
  · rcases hf s l hl with hl | ⟨k, v, rfl, hk, _⟩
    · exact Or.inl hl
    · exact Or.inr (hk.sound v)
  · rcases hf s l hl with hl | ⟨k, v, rfl, _, hv⟩
    · exact hs l hl
    · intro k' v' hline hown
      cases hline
      exact hv hown

/-- A value is left that a change leaves in every section. -/
theorem get_change {f : Section → Section} {n k : Text} (hname : ∀ s, (f s).name = s.name)
    (hf : ∀ s, (f s).get k = s.get k) : (e.change name f).get n k = e.get n k := by
  rw [Entry.get, Entry.get, Entry.change, find?_mapFirst hname, Option.bind_map]
  refine congrArg _ (funext fun s => ?_)
  -- The section changed is the one asked for, or another.
  by_cases hn : n = name
  · simpa [hn] using hf s
  · simp [hn]

private theorem built_set (hk : PlainKey key) (hv : key ∈ reservedKeys ∧ key ≠ execKey → OneLine value) :
    Built name (· = key) e (e.set name key value) := by
  refine ⟨names_change fun s => s.name_set key value, fun he => ?_, fun D hD he => ?_,
    fun n k hk => get_change (fun s => s.name_set key value) fun s => ?_⟩
  · refine he.change (fun s => s.name_set key value) fun s l hl => ?_
    rcases Section.mem_set.mp hl with rfl | ⟨hl, _⟩
    · exact Or.inr ⟨key, value, rfl, hk, hv⟩
    · exact Or.inl hl
  · exact he.set fun hDk => absurd hDk (hD key rfl)
  · rw [Section.get_eq, Section.get_eq, s.values_set_of_ne value hk]

private theorem built_filter {p : Line → Bool} (hp : ∀ k v, ¬R k → p (.key k v)) :
    Built name R e (e.change name fun s => { s with lines := s.lines.filter p }) := by
  refine ⟨names_change fun _ => rfl,
    fun he => he.change (fun _ => rfl) fun _ _ hl => Or.inl (List.mem_of_mem_filter hl),
    fun _ _ he => allLines_filter he p, fun n k hk => get_change (fun _ => rfl) fun s => ?_⟩
  rw [Section.get_eq, Section.get_eq, Section.values, Section.values, List.filterMap_filter]
  refine congrArg List.head? (List.filterMap_congr fun l _ => ?_)
  -- A line that is removed says nothing of a key that is kept.
  cases l with
  | other t => simp [Line.value?]
  | key k' v =>
      by_cases hk' : k' = k
      · rw [if_pos (hp k' v (hk' ▸ hk))]
      · simp [Line.value?, hk']

private theorem built_remove : Built name (· = key) e (e.remove name key) :=
  built_filter fun k v hk => by simp [Line.value?, hk]

private theorem built_removeAll (hkey : validKey key) : Built name (baseKey · = key) e (e.removeAll name key) :=
  built_filter fun k v hk => by
    by_contra hnot
    exact hk (baseKey_of_translates hkey (by simpa using hnot))

/-- Keys need not be looked at that are known to have values of one line. -/
theorem keptOn_except {D D' : Text → Text → Prop} (hD' : KeptOn D' e) {Q : Text → Text → Prop}
    (hQ : ∀ n k, Q n k → D' n k) : KeptOn (fun n k => D n k ∧ ¬Q n k) e ↔ KeptOn D e :=
  keptOn_congr hD' fun n k hnot => and_iff_left fun hq => hnot (hQ n k hq)

/-- Setting a key whose old values are of one line. -/
theorem keptOn_set_new {D : Text → Text → Prop} (he : Buildable e) (hsection : e.hasSection name)
    (hold : KeptOn (fun n k => n = name ∧ k = key) e) (hD : D name key) :
    KeptOn D (e.set name key value) ↔ OneLine value ∧ KeptOn D e := by
  rw [keptOn_set he.later hsection, keptOn_except hold fun _ _ h => h, forall_prop_of_true hD]
  exact and_comm

end Built

/-! ## Section 3: Keys -/

/-- A text whose escaped value is one line. -/
def TextKept (s : Text) : Prop :=
  StartKept s ∧ EndKept s

/-- A value of a configuration of which nothing is lost. -/
def KeyValue.Kept : KeyValue → Prop
  | .remove => True
  | .bool _ => True
  | .str s => TextKept s
  | .list items => ∀ item ∈ items.head?, StartKept item
  | .localized default locales => TextKept default ∧ ∀ l ∈ locales, TextKept l.2

section ApplyKeys

variable {e e' : Entry} {name key : Text} {D : Text → Text → Prop}

private theorem applyLocales_built {locales : List (Text × Text)} (hkey : validKey key)
    (hlocales : ∀ l ∈ locales, validLocale l.1) (h : applyLocales e name key locales = .ok e') :
    Built name (baseKey · = key) e e' := by
  -- Induction over the locales; each sets one key.
  induction locales generalizing e with
  | nil =>
      obtain rfl := Except.ok.inj h
      exact Built.refl e
  | cons l locales ih =>
      obtain ⟨hl, hlocales⟩ := List.forall_mem_cons.mp hlocales
      obtain ⟨out, _, h⟩ := bind_eq_ok h
      have hset : Built name (baseKey · = key) e (e.set name (localizedKey key l.1) out) := by
        refine (built_set (plainKey_localizedKey hkey hl) fun hown => ?_).mono fun k hk => ?_
        · exact absurd hown.1 (not_reserved_of_baseKey hkey (baseKey_append hkey _))
        · rw [hk]
          exact baseKey_append hkey _
      exact hset.trans (ih hlocales h)

private theorem localizedKey_inj {a b : Text} (h : localizedKey key a = localizedKey key b) : a = b := by
  simpa [localizedKey] using h

private theorem applyLocales_kept {locales : List (Text × Text)} (hkey : validKey key)
    (hlocales : ∀ l ∈ locales, validLocale l.1) (hdistinct : (locales.map Prod.fst).Nodup)
    (he : Buildable e) (hsection : e.hasSection name) (hD : ∀ k, baseKey k = key → D name k)
    (hold : KeptOn (fun n k => n = name ∧ k ∈ locales.map (localizedKey key ·.1)) e)
    (h : applyLocales e name key locales = .ok e') :
    KeptOn D e' ↔ (∀ l ∈ locales, TextKept l.2) ∧ KeptOn D e := by
  -- Induction over the locales; what the keys still to be set hold is no matter yet.
  induction locales generalizing e with
  | nil =>
      obtain rfl := Except.ok.inj h
      simp
  | cons l locales ih =>
      obtain ⟨hl, hlocales⟩ := List.forall_mem_cons.mp hlocales
      rw [List.map_cons, List.nodup_cons] at hdistinct
      obtain ⟨out, hout, h⟩ := bind_eq_ok h
      -- An escape that fails ends the build.
      have hout := mapError_eq_ok.mp hout
      have hbase : baseKey (localizedKey key l.1) = key := baseKey_append hkey _
      have hbuilt : Built name (· = localizedKey key l.1) e (e.set name (localizedKey key l.1) out) :=
        built_set (plainKey_localizedKey hkey hl) fun hown =>
          absurd hown.1 (not_reserved_of_baseKey hkey hbase)
      have hrest : KeptOn (fun n k => n = name ∧ k ∈ locales.map (localizedKey key ·.1))
          (e.set name (localizedKey key l.1) out) := by
        refine hbuilt.frame _ (fun k hk hmem => ?_) (hold.mono fun n k hk => ?_)
        · obtain ⟨l', hl', heq⟩ := List.mem_map.mp hmem.2
          -- Two locales of one key give two keys.
          have := localizedKey_inj (heq.trans hk)
          exact hdistinct.1 (this ▸ List.mem_map_of_mem hl')
        · exact ⟨hk.1, List.mem_cons_of_mem _ hk.2⟩
      rw [ih hlocales hdistinct.2 (hbuilt.buildable he) ((hbuilt.hasSection name).mpr hsection)
          hrest h,
        keptOn_set_new he hsection (hold.mono fun n k hk => ⟨hk.1, by simp [hk.2]⟩) (hD _ hbase),
        oneLine_escape hout, List.forall_mem_cons, ← TextKept]
      tauto

private theorem applyKey_built {value : KeyValue} (hkey : validKey key) (hvalue : value.valid)
    (h : applyKey e name key value = .ok e') : Built name (baseKey · = key) e e' := by
  have hset : ∀ (e : Entry) (v : Text), Built name (baseKey · = key) e (e.set name key v) := by
    intro e v
    refine (built_set (plainKey_of_validKey hkey) fun hown => ?_).mono fun k hk => ?_
    · exact absurd hown.1 (validKey_chars hkey).2.2
    · rw [hk]
      exact baseKey_of_validKey hkey
  -- By the shape of the value.
  cases value with
  | remove =>
      obtain rfl := Except.ok.inj h
      exact built_removeAll hkey
  | bool b =>
      obtain rfl := Except.ok.inj h
      exact hset e _
  | str s =>
      obtain ⟨out, _, h⟩ := bind_eq_ok h
      obtain rfl := Except.ok.inj h
      exact (built_removeAll hkey).trans (hset _ out)
  | list items =>
      obtain ⟨out, _, h⟩ := bind_eq_ok h
      obtain rfl := Except.ok.inj h
      exact hset e out
  | localized default locales =>
      obtain ⟨out, _, h⟩ := bind_eq_ok h
      have hlocales : ∀ l ∈ locales, validLocale l.1 := by simpa [KeyValue.valid] using hvalue
      exact ((built_removeAll hkey).trans (hset _ out)).trans (applyLocales_built hkey hlocales h)

private theorem applyKey_kept {value : KeyValue} (hkey : validKey key) (hvalue : value.valid)
    (hdistinct : ∀ d ls, value = .localized d ls → (ls.map Prod.fst).Nodup) (he : Buildable e)
    (hsection : e.hasSection name) (hD : ∀ k, baseKey k = key → D name k)
    (hold : KeptOn (fun n k => n = name ∧ baseKey k = key) e)
    (h : applyKey e name key value = .ok e') :
    KeptOn D e' ↔ value.Kept ∧ KeptOn D e := by
  have hself : baseKey key = key := baseKey_of_validKey hkey
  -- The key and its translations are removed before anything is set.
  have hremoved : Built name (baseKey · = key) e (e.removeAll name key) :=
    built_removeAll hkey
  -- Nothing that matters is removed.
  have hremove : ∀ D, KeptOn D (e.removeAll name key) ↔ KeptOn D e := by
    intro D
    rw [keptOn_removeAll he.later hsection]
    exact keptOn_except hold fun n k hk => ⟨hk.1, baseKey_of_translates hkey hk.2⟩
  have hset : ∀ v, KeptOn D (e.set name key v) ↔ OneLine v ∧ KeptOn D e := fun v =>
    keptOn_set_new he hsection (hold.mono fun n k hk => ⟨hk.1, hk.2 ▸ hself⟩) (hD key hself)
  have hset' : ∀ v, KeptOn D ((e.removeAll name key).set name key v) ↔ OneLine v ∧ KeptOn D e := by
    intro v
    rw [keptOn_set_new (hremoved.buildable he) ((hremoved.hasSection name).mpr hsection)
      ((hremove _).mpr (hold.mono fun n k hk => ⟨hk.1, hk.2 ▸ hself⟩)) (hD key hself), hremove]
  -- By the shape of the value; only translations are more than one line of the entry.
  cases value with
  | remove =>
      obtain rfl := Except.ok.inj h
      simpa [KeyValue.Kept] using hremove D
  | bool b =>
      obtain rfl := Except.ok.inj h
      have hone : OneLine (if b then "true".toList else "false".toList) := by
        cases b <;> exact oneLine_of_toNat (by decide)
      rw [hset]
      exact ⟨fun h => ⟨trivial, h.2⟩, fun h => ⟨hone, h.2⟩⟩
  | str s =>
      obtain ⟨out, hout, h⟩ := bind_eq_ok h
      obtain rfl := Except.ok.inj h
      rw [hset', oneLine_escape (mapError_eq_ok.mp hout)]
      exact Iff.rfl
  | list items =>
      obtain ⟨out, hout, h⟩ := bind_eq_ok h
      obtain rfl := Except.ok.inj h
      rw [hset, oneLine_escapeList (mapError_eq_ok.mp hout)]
      exact Iff.rfl
  | localized default locales =>
      obtain ⟨out, hout, h⟩ := bind_eq_ok h
      have hlocales : ∀ l ∈ locales, validLocale l.1 := by simpa [KeyValue.valid] using hvalue
      -- The text without a language, and then those in the locales.
      have hbuilt : Built name (· = key) (e.removeAll name key)
          ((e.removeAll name key).set name key out) :=
        built_set (plainKey_of_validKey hkey) fun hown => absurd hown.1 (validKey_chars hkey).2.2
      have hrest : KeptOn (fun n k => n = name ∧ k ∈ locales.map (localizedKey key ·.1))
          ((e.removeAll name key).set name key out) := by
        refine hbuilt.frame _ (fun k hk hmem => ?_)
          ((hremove _).mpr (hold.mono fun n k hk => ⟨hk.1, ?_⟩))
        · obtain ⟨l, _, heq⟩ := List.mem_map.mp hmem.2
          rw [hk] at heq
          simp [localizedKey] at heq
        · obtain ⟨l, _, rfl⟩ := List.mem_map.mp hk.2
          exact baseKey_append hkey _
      rw [applyLocales_kept hkey hlocales (hdistinct _ _ rfl)
          (hbuilt.buildable (hremoved.buildable he))
          ((hbuilt.hasSection name).mpr ((hremoved.hasSection name).mpr hsection)) hD hrest h,
        hset', oneLine_escape (mapError_eq_ok.mp hout)]
      rw [KeyValue.Kept, TextKept]
      tauto

private theorem applyKeys_built {entries : List (Text × KeyValue)}
    (hvalid : ∀ x ∈ entries, validKey x.1 ∧ x.2.valid)
    (h : applyKeys e name entries = .ok e') :
    Built name (baseKey · ∈ entries.map Prod.fst) e e' := by
  -- Induction over the keys.
  induction entries generalizing e with
  | nil =>
      obtain rfl := Except.ok.inj h
      exact Built.refl e
  | cons x entries ih =>
      obtain ⟨hx, hvalid⟩ := List.forall_mem_cons.mp hvalid
      obtain ⟨e₁, he₁, h⟩ := bind_eq_ok h
      have hfirst : Built name (baseKey · ∈ (x :: entries).map Prod.fst) e e₁ :=
        (applyKey_built hx.1 hx.2 he₁).mono fun k hk => by simp [hk]
      exact hfirst.trans ((ih hvalid h).mono fun k hk => List.mem_cons_of_mem _ hk)

private theorem applyKeys_kept {entries : List (Text × KeyValue)}
    (hvalid : ∀ x ∈ entries, validKey x.1 ∧ x.2.valid)
    (hdistinct : (entries.map Prod.fst).Nodup)
    (hlocales : ∀ x ∈ entries, ∀ d ls, x.2 = .localized d ls → (ls.map Prod.fst).Nodup)
    (he : Buildable e) (hsection : e.hasSection name)
    (hD : ∀ k, baseKey k ∈ entries.map Prod.fst → D name k)
    (hold : KeptOn (fun n k => n = name ∧ baseKey k ∈ entries.map Prod.fst) e)
    (h : applyKeys e name entries = .ok e') :
    KeptOn D e' ↔ (∀ x ∈ entries, x.2.Kept) ∧ KeptOn D e := by
  -- Induction over the keys; what the others hold is no matter yet.
  induction entries generalizing e with
  | nil =>
      obtain rfl := Except.ok.inj h
      simp
  | cons x entries ih =>
      obtain ⟨hx, hvalid⟩ := List.forall_mem_cons.mp hvalid
      obtain ⟨hlocale, hlocales⟩ := List.forall_mem_cons.mp hlocales
      rw [List.map_cons, List.nodup_cons] at hdistinct
      obtain ⟨e₁, he₁, h⟩ := bind_eq_ok h
      have hbuilt : Built name (baseKey · = x.1) e e₁ := applyKey_built hx.1 hx.2 he₁
      have hrest : KeptOn (fun n k => n = name ∧ baseKey k ∈ entries.map Prod.fst) e₁ := by
        refine hbuilt.frame _ (fun k hk hmem => ?_)
          (hold.mono fun n k hk => ⟨hk.1, List.mem_cons_of_mem _ hk.2⟩)
        exact hdistinct.1 (hk ▸ hmem.2)
      rw [ih hvalid hdistinct.2 hlocales (hbuilt.buildable he) ((hbuilt.hasSection name).mpr hsection)
          (fun k hk => hD k (List.mem_cons_of_mem _ hk)) hrest h,
        applyKey_kept hx.1 hx.2 hlocale he hsection (fun k hk => hD k (by simp [hk]))
          (hold.mono fun n k hk => ⟨hk.1, by simp [hk.2]⟩) he₁, List.forall_mem_cons]
      tauto

end ApplyKeys

/-- Keys of a configuration of which nothing is lost. -/
def Keys.Kept (keys : Keys) : Prop :=
  ∀ x ∈ keys.entries, x.2.Kept

private theorem keys_built {e e' : Entry} {name : Text} {keys : Keys}
    (h : applyKeys e name keys.entries = .ok e') : Built name (· ∉ reservedKeys) e e' := by
  refine (applyKeys_built keys.valid h).mono fun k hk => ?_
  obtain ⟨x, hx, heq⟩ := List.mem_map.mp hk
  exact not_reserved_of_baseKey (keys.valid x hx).1 heq.symm

/-- Of a section without values of more than one line, but for the reserved keys. -/
theorem keys_kept {e e' : Entry} {name : Text} {keys : Keys} {D : Text → Text → Prop}
    (he : Buildable e) (hsection : e.hasSection name) (hD : ∀ k, k ∉ reservedKeys → D name k)
    (hold : KeptOn (fun n k => n = name ∧ k ∉ reservedKeys) e)
    (h : applyKeys e name keys.entries = .ok e') :
    KeptOn D e' ↔ keys.Kept ∧ KeptOn D e := by
  -- No key of a configuration is one of psbox's own.
  have hkeys : ∀ k, baseKey k ∈ keys.entries.map Prod.fst → k ∉ reservedKeys := by
    intro k hk
    obtain ⟨x, hx, heq⟩ := List.mem_map.mp hk
    exact not_reserved_of_baseKey (keys.valid x hx).1 heq.symm
  exact applyKeys_kept keys.valid keys.distinct keys.locales he hsection
    (fun k hk => hD k (hkeys k hk)) (hold.mono fun n k hk => ⟨hk.1, hkeys k hk.2⟩) h

/-! ## Section 4: Actions -/

/-- The path of psbox, as the first argument of a command line. -/
def PathKept (t : Target) : Prop :=
  '\n' ∉ t.psbox ∧ ArgStartKept t.psbox

/-- Whose names are names. -/
structure Named (t : Target) : Prop where
  sandbox : validName t.sandbox
  app : validName t.app

private theorem validName_chars {name : Text} (h : validName name) :
    name ≠ [] ∧ ∀ c ∈ name, 33 ≤ c.toNat ∧ c.toNat ≤ 126 := by
  simp only [validName, Bool.and_eq_true, List.all_eq_true, Bool.not_eq_true',
    List.isEmpty_eq_false_iff] at h
  obtain ⟨⟨⟨⟨hne, _⟩, _⟩, _⟩, hall⟩ := h
  refine ⟨hne, fun c hc => ?_⟩
  have hc := hall c hc
  simp only [Bool.or_eq_true, beq_iff_eq] at hc
  rcases hc with ((hc | rfl) | rfl) | rfl
  · have := toNat_of_isAsciiAlphanumeric hc
    omega
  · decide
  · decide
  · decide

private theorem argEndKept_of_oneLine {a : Text} (h : OneLine a) : ArgEndKept a :=
  fun c hc hwhite => absurd hwhite (h.trimmed.2 c hc)

private theorem argsKept_of_oneLine {args : List Text} (h : ∀ a ∈ args, OneLine a) : ArgsKept args :=
  ⟨fun a ha => (h a ha).noNewline, fun a ha => argEndKept_of_oneLine (h a (List.mem_of_mem_getLast? ha))⟩

private theorem argsKept_append {args : List Text} (h : ∀ a ∈ args, OneLine a) (args' : List Text) :
    ArgsKept (args ++ args') ↔ ArgsKept args' := by
  -- Where nothing follows, the last argument is the end of the line.
  cases args' with
  | nil =>
      rw [List.append_nil]
      exact iff_of_true (argsKept_of_oneLine h) ⟨by simp, by simp⟩
  | cons b args' =>
      rw [ArgsKept, ArgsKept, List.getLast?_append_of_ne_nil _ (List.cons_ne_nil b args')]
      refine and_congr_left' ⟨fun hall a ha => hall a (List.mem_append_right _ ha), fun hall a ha => ?_⟩
      rcases List.mem_append.mp ha with ha | ha
      · exact (h a ha).noNewline
      · exact hall a ha

section Commands

variable {t : Target}

/-- A command line that runs the app is one line as the path of psbox and its own arguments are. -/
theorem oneLine_command (ht : Named t) (args : List Text) :
    OneLine (joinExec (t.command ++ args)) ↔ PathKept t ∧ ArgsKept args := by
  -- All of psbox's own words are one line.
  have hwords : ∀ a ∈ ["run".toList, t.sandbox, "--app".toList, t.app], OneLine a := by
    intro a ha
    simp only [List.mem_cons, List.not_mem_nil, or_false] at ha
    rcases ha with rfl | rfl | rfl | rfl
    · exact oneLine_of_toNat (by decide)
    · exact oneLine_of_toNat (validName_chars ht.sandbox).2
    · exact oneLine_of_toNat (by decide)
    · exact oneLine_of_toNat (validName_chars ht.app).2
  have hsplit : t.command ++ args =
      t.psbox :: (["run".toList, t.sandbox, "--app".toList, t.app] ++ args) := rfl
  rw [hsplit, oneLine_joinExec, ← argsKept_append hwords args, PathKept, ArgsKept, ArgsKept,
    List.forall_mem_cons, List.getLast?_cons_of_ne_nil (by simp)]
  tauto

private theorem oneLine_exec (ht : Named t) (args : List Text) :
    OneLine (t.exec args) ↔ PathKept t ∧ ArgsKept args := by
  rw [Target.exec, oneLine_command ht]
  refine and_congr_right fun _ => ?_
  rw [dashed]
  split
  · rename_i hargs
    rw [hargs]
  -- The dashes are before the arguments, so there is always a word before them.
  · have hdashes : ∀ a ∈ ["--".toList], OneLine a := fun a ha => by
      obtain rfl := List.mem_singleton.mp ha
      exact oneLine_of_toNat (by decide)
    exact argsKept_append hdashes args

end Commands

/-- An action of which nothing is lost. -/
def Action.Kept (a : Action) : Prop :=
  a.keys.Kept ∧ ArgsKept a.arguments

section Sections

variable {e e' : Entry} {name : Text} {D : Text → Text → Prop}

private theorem names_addSection : (e.addSection name).names =
    if e.hasSection name then e.names else e.names ++ [name] := by
  rw [Entry.addSection]
  split <;> simp [Entry.names]

private theorem names_removeSection : (e.removeSection name).names = e.names.filter (· ≠ name) := by
  rw [Entry.removeSection, Entry.names, Entry.names, List.filter_map]
  rfl

theorem Buildable.addSection (he : Buildable e) (hname : '\n' ∉ name) : Buildable (e.addSection name) := by
  refine ⟨?_, he.later.addSection, keptOn_addSection.mpr he.own⟩
  rw [Entry.addSection]
  split
  · exact he.sound
  · refine ⟨he.sound.preamble, fun s hs => ?_, fun s hs l hl => ?_, ?_⟩
    · rcases List.mem_append.mp hs with hs | hs
      · exact he.sound.names s hs
      · obtain rfl := List.mem_singleton.mp hs
        exact hname
    · rcases List.mem_append.mp hs with hs | hs
      · exact he.sound.lines s hs l hl
      · obtain rfl := List.mem_singleton.mp hs
        cases hl
    · rw [List.any_append, he.sound.main, Bool.true_or]

theorem Buildable.removeSection (he : Buildable e) (hname : name ≠ mainSection) :
    Buildable (e.removeSection name) := by
  refine ⟨⟨he.sound.preamble, fun s hs => he.sound.names s (List.mem_of_mem_filter hs),
    fun s hs => he.sound.lines s (List.mem_of_mem_filter hs), ?_⟩, he.later.removeSection,
    allLines_removeSection he.own name⟩
  have hmain : mainSection ∈ e.names := hasSection_names.mp he.sound.main
  refine hasSection_names.mpr ?_
  rw [names_removeSection]
  exact List.mem_filter.mpr ⟨hmain, by simpa using hname.symm⟩

private theorem get_addSection {n k : Text} (hn : e.hasSection n) :
    (e.addSection name).get n k = e.get n k := by
  rw [Entry.addSection]
  split
  · rfl
  · obtain ⟨s, hs, hsname⟩ := hasSection_iff.mp hn
    -- The section that is added is behind all others, so no other is found later.
    have hfind : (e.sections.find? (·.name = n)).isSome :=
      List.find?_isSome.mpr ⟨s, hs, by simpa using hsname⟩
    obtain ⟨s', hs'⟩ := Option.isSome_iff_exists.mp hfind
    rw [Entry.get, Entry.get, List.find?_append, hs']
    rfl

private theorem get_removeSection {n k : Text} (hn : n ≠ name) :
    (e.removeSection name).get n k = e.get n k := by
  rw [Entry.get, Entry.get, Entry.removeSection, List.find?_filter]
  refine congrArg (Option.bind · _) (congrArg (List.find? · _) (funext fun s => ?_))
  -- The section removed is another one.
  by_cases hs : s.name = n
  · simp [hs, hn]
  · simp [hs]

private theorem actionSection_ne_main (name : Text) : actionSection name ≠ mainSection := by
  intro h
  -- A section's name does not start like one of an action.
  have := congrArg (List.take 9) h
  rw [actionSection, List.take_append_of_le_length (by decide)] at this
  revert this
  decide

private theorem actionSection_inj {a b : Text} (h : actionSection a = actionSection b) : a = b :=
  List.append_cancel_left h

end Sections

section ApplyActions

variable {t : Target} {e e' : Entry} {name : Text} {D : Text → Text → Prop}

private theorem validAction_chars (h : validAction name) : ∀ c ∈ name, 33 ≤ c.toNat ∧ c.toNat ≤ 126 := by
  simp only [validAction, Bool.and_eq_true, List.all_eq_true] at h
  exact fun c hc => toNat_of_isWordChar (h.2 c hc)

private theorem textKept_of_oneLine {s : Text} (h : OneLine s) : TextKept s :=
  ⟨fun c hc hwhite => absurd hwhite (h.trimmed.1 c hc),
    fun c hc hwhite => absurd hwhite (h.trimmed.2 c hc)⟩

/-- The steps of an action that is added or changed. -/
theorem applyAction_some {a : Action} (h : applyAction t e name (some a) = .ok e') :
    ∃ e₂ e₃, (e₂ = e.addSection (actionSection name) ∨ ∃ out, escape name = .ok out ∧
        e₂ = (e.addSection (actionSection name)).set (actionSection name) "Name".toList out) ∧
      applyKeys e₂ (actionSection name) a.keys.entries = .ok e₃ ∧
      e' = e₃.set (actionSection name) execKey (t.exec a.arguments) := by
  have hrest : ∀ e₂, (do
      let e₃ ← applyKeys e₂ (actionSection name) a.keys.entries
      Except.ok (e₃.set (actionSection name) execKey (t.exec a.arguments))) = .ok e' →
      ∃ e₃, applyKeys e₂ (actionSection name) a.keys.entries = .ok e₃ ∧
        e' = e₃.set (actionSection name) execKey (t.exec a.arguments) := by
    intro e₂ h
    obtain ⟨e₃, he₃, h⟩ := bind_eq_ok h
    exact ⟨e₃, he₃, (Except.ok.inj h).symm⟩
  rw [applyAction] at h
  split at h
  · obtain ⟨out, hout, h⟩ := bind_eq_ok h
    obtain ⟨e₃, h⟩ := hrest _ h
    exact ⟨_, e₃, Or.inr ⟨out, mapError_eq_ok.mp hout, rfl⟩, h⟩
  · obtain ⟨e₃, h⟩ := hrest _ h
    exact ⟨_, e₃, Or.inl rfl, h⟩

private theorem plainKey_exec : PlainKey execKey :=
  ⟨oneLine_of_toNat (by decide), by decide, by decide, by decide⟩

private theorem name_valid : validKey "Name".toList := by decide

/-- An action leaves the other sections, and the `Exec` of the main one. -/
theorem applyAction_frame {action : Option Action} (hname : validAction name)
    (h : applyAction t e name action = .ok e') :
    (Buildable e → Buildable e' ∧ e'.get mainSection execKey = e.get mainSection execKey) ∧
      ∀ D : Text → Text → Prop, (∀ k, ¬D (actionSection name) k) → KeptOn D e → KeptOn D e' := by
  have hnewline : '\n' ∉ actionSection name := by
    rw [actionSection, List.mem_append, not_or]
    exact ⟨by decide, (oneLine_of_toNat (validAction_chars hname)).noNewline⟩
  -- An action that is removed, and one that is written.
  cases action with
  | none =>
      obtain rfl := Except.ok.inj h
      exact ⟨fun he => ⟨he.removeSection (actionSection_ne_main name),
          get_removeSection (actionSection_ne_main name).symm⟩,
        fun D _ he => allLines_removeSection he _⟩
  | some a =>
      obtain ⟨e₂, e₃, he₂, he₃, rfl⟩ := applyAction_some h
      have hname : Built (actionSection name) (· = "Name".toList)
          (e.addSection (actionSection name)) e₂ := by
        rcases he₂ with rfl | ⟨out, _, rfl⟩
        · exact Built.refl _
        · refine built_set (plainKey_of_validKey name_valid) fun hown => ?_
          exact absurd hown.1 (validKey_chars name_valid).2.2
      have hkeys := keys_built he₃
      have hexec : Built (actionSection name) (· = execKey) e₃
          (e₃.set (actionSection name) execKey (t.exec a.arguments)) :=
        built_set plainKey_exec fun hown => absurd rfl hown.2
      -- The section of the action is not the main one.
      have hmain : (e₃.set (actionSection name) execKey (t.exec a.arguments)).get mainSection execKey =
          e₃.get mainSection execKey := by
        rw [Entry.get, Entry.get, Entry.set, Entry.change,
          find?_mapFirst fun s : Section => s.name_set execKey (t.exec a.arguments)]
        simp [(actionSection_ne_main name).symm]
      refine ⟨fun he => ⟨?_, ?_⟩, fun D hD he => ?_⟩
      · exact hexec.buildable (hkeys.buildable (hname.buildable (he.addSection hnewline)))
      · rw [hmain, hkeys.get _ _ (by decide), hname.get _ _ (by decide), get_addSection he.sound.main]
      · exact hexec.frame D (fun k _ => hD k) (hkeys.frame D (fun k _ => hD k)
          (hname.frame D (fun k _ => hD k) (keptOn_addSection.mpr he)))

/-- The keys of a section that an action leaves in their place. -/
def Left (action : Option Action) (k : Text) : Prop :=
  action.isSome ∧ k ≠ execKey

private theorem applyAction_kept {action : Option Action} (ht : Named t) (hname : validAction name)
    (he : Buildable e) (hD : ∀ k, D (actionSection name) k)
    (hold : KeptOn (fun n k => n = actionSection name ∧ k ∉ reservedKeys) e)
    (h : applyAction t e name action = .ok e') :
    KeptOn D e' ↔ (∀ a, action = some a → PathKept t ∧ a.Kept) ∧
      KeptOn (fun n k => D n k ∧ (n = actionSection name → Left action k)) e := by
  -- An action that is removed leaves nothing to be lost.
  cases action with
  | none =>
      obtain rfl := Except.ok.inj h
      rw [keptOn_removeSection]
      simp [Left]
  | some a =>
      have hnewline : '\n' ∉ actionSection name := by
        rw [actionSection, List.mem_append, not_or]
        exact ⟨by decide, (oneLine_of_toNat (validAction_chars hname)).noNewline⟩
      obtain ⟨e₂, e₃, he₂, he₃, rfl⟩ := applyAction_some h
      have hadded : Buildable (e.addSection (actionSection name)) := he.addSection hnewline
      have hsection : (e.addSection (actionSection name)).hasSection (actionSection name) := by
        rw [hasSection_names, names_addSection]
        split
        · rename_i hthere
          exact hasSection_names.mp hthere
        · simp
      -- The name that is written for an action without one is one line.
      have hdefault : Built (actionSection name) (· = "Name".toList)
            (e.addSection (actionSection name)) e₂ ∧
          ∀ D : Text → Text → Prop, D (actionSection name) "Name".toList → (KeptOn D e₂ ↔ KeptOn D e) := by
        rcases he₂ with rfl | ⟨out, hout, rfl⟩
        · exact ⟨Built.refl _, fun D _ => keptOn_addSection⟩
        · constructor
          · refine built_set (plainKey_of_validKey name_valid) fun hown => ?_
            exact absurd hown.1 (validKey_chars name_valid).2.2
          · intro D hD
            have hone : OneLine out := (oneLine_escape hout).mpr
              (textKept_of_oneLine (oneLine_of_toNat (validAction_chars hname)))
            rw [keptOn_set_new hadded hsection _ hD, keptOn_addSection]
            · exact and_iff_right hone
            · refine keptOn_addSection.mpr (hold.mono fun n k hk => ⟨hk.1, ?_⟩)
              rw [hk.2]
              exact (validKey_chars name_valid).2.2
      have hsection₂ := (hdefault.1.hasSection (actionSection name)).mpr hsection
      have hbuilt := keys_built he₃
      have hexec : KeptOn D (e₃.set (actionSection name) execKey (t.exec a.arguments)) ↔
          KeptOn (fun n k => D n k ∧ ¬(n = actionSection name ∧ k = execKey)) e₃ ∧
            OneLine (t.exec a.arguments) := by
        rw [keptOn_set (hbuilt.buildable (hdefault.1.buildable hadded)).later
          ((hbuilt.hasSection _).mpr hsection₂), forall_prop_of_true (hD execKey)]
      -- The `Exec` of the action is written last, so that it does not matter before.
      have hnotExec : ∀ k, k ∉ reservedKeys → k ≠ execKey := by
        rintro k hk rfl
        exact hk (by decide)
      have hold₂ : KeptOn (fun n k => n = actionSection name ∧ k ∉ reservedKeys) e₂ :=
        (hdefault.2 _ ⟨rfl, (validKey_chars name_valid).2.2⟩).mpr hold
      rw [hexec, keys_kept (hdefault.1.buildable hadded) hsection₂
          (fun k hk => ⟨hD k, fun h => hnotExec k hk h.2⟩) hold₂ he₃,
        hdefault.2 _ ⟨hD _, fun h => absurd h.2 (by decide)⟩, oneLine_exec ht]
      -- What is left to say of the section's own keys.
      have hsame : ∀ n k, (D n k ∧ ¬(n = actionSection name ∧ k = execKey)) ↔
          D n k ∧ (n = actionSection name → Left (some a) k) := by
        intro n k
        simp [Left]
      simp only [hsame, Option.some.injEq, forall_eq', Action.Kept]
      tauto

/-- The keys that are left in their place by all of the actions. -/
def Spared (actions : List (Text × Option Action)) (n k : Text) : Prop :=
  ∀ x ∈ actions, n = actionSection x.1 → Left x.2 k

private theorem applyActions_kept {actions : List (Text × Option Action)} (ht : Named t)
    (hdistinct : (actions.map Prod.fst).Nodup) (hvalid : ∀ x ∈ actions, validAction x.1)
    (he : Buildable e) (hD : ∀ x ∈ actions, ∀ k, D (actionSection x.1) k)
    (hold : KeptOn (fun n k => n ∈ actions.map (actionSection ·.1) ∧ k ∉ reservedKeys) e)
    (h : applyActions t e actions = .ok e') :
    (Buildable e' ∧ e'.get mainSection execKey = e.get mainSection execKey) ∧
      (KeptOn D e' ↔ (∀ x ∈ actions, ∀ a, x.2 = some a → PathKept t ∧ a.Kept) ∧
        KeptOn (fun n k => D n k ∧ Spared actions n k) e) := by
  -- Induction over the actions, each of which has a section of its own.
  induction actions generalizing e with
  | nil =>
      obtain rfl := Except.ok.inj h
      simp [Spared, he]
  | cons x actions ih =>
      obtain ⟨hx, hvalid⟩ := List.forall_mem_cons.mp hvalid
      rw [List.map_cons, List.nodup_cons] at hdistinct
      obtain ⟨e₁, he₁, h⟩ := bind_eq_ok h
      obtain ⟨hbuildable, hframe⟩ := applyAction_frame hx he₁
      -- The sections of the other actions are others.
      have hother : ∀ n ∈ actions.map (actionSection ·.1), n ≠ actionSection x.1 := by
        rintro n hn rfl
        obtain ⟨y, hy, heq⟩ := List.mem_map.mp hn
        exact hdistinct.1 (actionSection_inj heq ▸ List.mem_map_of_mem hy)
      have hold₁ : KeptOn (fun n k => n ∈ actions.map (actionSection ·.1) ∧ k ∉ reservedKeys) e₁ :=
        hframe _ (fun k hk => hother _ hk.1 rfl)
          (hold.mono fun n k hk => ⟨List.mem_cons_of_mem _ hk.1, hk.2⟩)
      obtain ⟨⟨hbuildable', hmain⟩, hiff⟩ := ih hdistinct.2 hvalid (hbuildable he).1
        (fun y hy => hD y (List.mem_cons_of_mem _ hy)) hold₁ h
      refine ⟨⟨hbuildable', hmain.trans (hbuildable he).2⟩, ?_⟩
      have hspared : ∀ k, D (actionSection x.1) k ∧ Spared actions (actionSection x.1) k := by
        refine fun k => ⟨hD x List.mem_cons_self k, fun y hy heq => ?_⟩
        exact absurd heq.symm (hother _ (List.mem_map_of_mem hy))
      rw [hiff, applyAction_kept ht hx he hspared
        (hold.mono fun n k hk => ⟨by simp [hk.1], hk.2⟩) he₁, List.forall_mem_cons]
      -- What is spared by the first and by the others is spared by all.
      have hsame : ∀ n k, ((D n k ∧ Spared actions n k) ∧ (n = actionSection x.1 → Left x.2 k)) ↔
          D n k ∧ Spared (x :: actions) n k := by
        intro n k
        rw [Spared, Spared, List.forall_mem_cons]
        tauto
      simp only [hsame]
      tauto

/-! ## Section 5: The Names of the Actions -/

/-- The name that the list of the actions starts with does not start with white space. -/
def FirstKept (names : List Text) : Prop :=
  ∀ name ∈ names.head?, ∀ c ∈ name.head?, ¬isWhitespace c

/-- Whether a configuration does not remove the action. -/
def keepsAction (actions : List (Text × Option Action)) (name : Text) : Bool :=
  actions.all fun x => x.1 ≠ name || x.2.isSome

def actionName? (name : Text) : Option Text :=
  if actionPrefix.isPrefixOf name then some (name.drop actionPrefix.length) else none

private theorem actions_eq (e : Entry) : e.actions = e.names.filterMap actionName? := by
  rw [Entry.actions, Entry.names, List.filterMap_map]
  rfl

private theorem actionName?_actionSection (name : Text) : actionName? (actionSection name) = some name := by
  rw [actionName?, actionSection, if_pos (by simp), List.drop_left' rfl]

private theorem actionName?_eq_some {s name : Text} : actionName? s = some name ↔ s = actionSection name := by
  constructor
  · intro h
    rw [actionName?] at h
    split at h
    · rename_i hprefix
      obtain ⟨rest, rfl⟩ := List.isPrefixOf_iff_prefix.mp hprefix
      rw [List.drop_left' rfl] at h
      rw [← Option.some.inj h, actionSection]
    · cases h
  · rintro rfl
    exact actionName?_actionSection name

private theorem actions_removeSection (name : Text) :
    (e.removeSection (actionSection name)).actions = e.actions.filter (· ≠ name) := by
  rw [actions_eq, actions_eq, names_removeSection]
  -- Section by section.
  induction e.names with
  | nil => rfl
  | cons n names ih =>
      cases hn : actionName? n with
      | none =>
          have hne : n ≠ actionSection name := by
            rintro rfl
            rw [actionName?_actionSection] at hn
            cases hn
          simpa [hne, hn] using ih
      | some a =>
          rw [List.filterMap_cons_some hn]
          obtain rfl := actionName?_eq_some.mp hn
          -- The section of the action is not among those that are left.
          by_cases ha : a = name
          · simpa [ha, hn] using ih
          · have hne : actionSection a ≠ actionSection name := fun h => ha (actionSection_inj h)
            simpa [ha, hne, hn] using ih

private theorem actions_of_names (h : e'.names = e.names) : e'.actions = e.actions := by
  rw [actions_eq, actions_eq, h]

private theorem firstKept_concat {names : List Text} (hname : validAction name) (p : Text → Bool) :
    FirstKept ((names ++ [name]).filter p) ↔ FirstKept (names.filter p) := by
  rw [List.filter_append]
  -- There were actions before, or the new one is the first.
  cases hfirst : names.filter p with
  | nil =>
      have hone := oneLine_of_toNat (validAction_chars hname)
      refine iff_of_true (fun n hn => ?_) (by simp [FirstKept])
      have hn : n ∈ [name].filter p := List.mem_of_mem_head? hn
      rw [List.mem_singleton.mp (List.mem_of_mem_filter hn)]
      exact hone.trimmed.1
  | cons n names => exact Iff.rfl

private theorem applyActions_first {actions : List (Text × Option Action)}
    (hvalid : ∀ x ∈ actions, validAction x.1) (h : applyActions t e actions = .ok e') :
    FirstKept e'.actions ↔ FirstKept (e.actions.filter (keepsAction actions)) := by
  -- Induction over the actions; each is removed, or there as it was, or there as the last one.
  induction actions generalizing e with
  | nil =>
      obtain rfl := Except.ok.inj h
      have hall : e.actions.filter (keepsAction []) = e.actions :=
        List.filter_eq_self.mpr fun _ _ => rfl
      rw [hall]
  | cons x actions ih =>
      obtain ⟨hx, hvalid⟩ := List.forall_mem_cons.mp hvalid
      obtain ⟨e₁, he₁, h⟩ := bind_eq_ok h
      rw [ih hvalid h]
      obtain ⟨name, action⟩ := x
      cases action with
      | none =>
          obtain rfl := Except.ok.inj he₁
          rw [actions_removeSection, List.filter_filter]
          -- A removed action is no longer in the list.
          have hsame : e.actions.filter (fun a => keepsAction actions a && decide (a ≠ name)) =
              e.actions.filter (keepsAction ((name, none) :: actions)) := by
            refine List.filter_congr fun a _ => ?_
            rw [keepsAction, keepsAction, List.all_cons, Bool.and_comm]
            simp [eq_comm]
          rw [hsame]
      | some a =>
          have hkeep : keepsAction ((name, some a) :: actions) = keepsAction actions := by
            funext n
            simp [keepsAction]
          obtain ⟨e₂, e₃, he₂, he₃, rfl⟩ := applyAction_some he₁
          have hnames₂ : e₂.names = (e.addSection (actionSection name)).names := by
            rcases he₂ with rfl | ⟨out, _, rfl⟩
            · rfl
            · exact names_change fun s => s.name_set _ _
          have hnames : (e₃.set (actionSection name) execKey (t.exec a.arguments)).names =
              (e.addSection (actionSection name)).names :=
            (names_change fun s => s.name_set _ _).trans ((keys_built he₃).names.trans hnames₂)
          rw [hkeep, actions_of_names hnames, actions_eq, names_addSection]
          split
          · rw [actions_eq]
          · rw [List.filterMap_append, ← actions_eq]
            -- It comes as the last one.
            have hlast : [actionSection name].filterMap actionName? = [name] := by
              simp [actionName?_actionSection]
            rw [hlast]
            exact firstKept_concat hx _

end ApplyActions

/-! ## Section 6: Finishing -/

section Finish

variable {t : Target} {e : Entry} {name key value : Text} {D : Text → Text → Prop}

private theorem plainKey_of_reserved (hk : key ∈ reservedKeys) : PlainKey key := by
  have hchars : ∀ k ∈ reservedKeys, (∀ c ∈ k, 33 ≤ c.toNat ∧ c.toNat ≤ 126) ∧ '=' ∉ k ∧
      k.head? ≠ some '#' ∧ k.head? ≠ some '[' := by decide
  obtain ⟨hc, hequals, hhash, hbracket⟩ := hchars key hk
  exact ⟨oneLine_of_toNat hc, hequals, hhash, hbracket⟩

/-- Setting or removing a key of psbox's own, as to the values of the entry. -/
theorem own_set (he : Buildable e) (hsection : e.hasSection name) (hk : key ∈ reservedKeys)
    (hexec : key ≠ execKey) (hv : OneLine value) (hD : D name key) :
    Built name (· = key) e (e.set name key value) ∧ (KeptOn D (e.set name key value) ↔ KeptOn D e) := by
  refine ⟨built_set (plainKey_of_reserved hk) fun _ => hv, ?_⟩
  rw [keptOn_set_new he hsection (he.own.mono fun n k h => h.2 ▸ ⟨hk, hexec⟩) hD]
  exact and_iff_right hv

private theorem own_remove (he : Buildable e) (hsection : e.hasSection name) (hk : key ∈ reservedKeys)
    (hexec : key ≠ execKey) :
    Built name (· = key) e (e.remove name key) ∧ (KeptOn D (e.remove name key) ↔ KeptOn D e) := by
  refine ⟨built_remove, ?_⟩
  rw [keptOn_remove he.later hsection]
  exact keptOn_except he.own fun n k h => h.2 ▸ ⟨hk, hexec⟩

private theorem applyNoDisplay_kept (he : Buildable e) (noDisplay : Option Bool) :
    Built mainSection (· = "NoDisplay".toList) e (applyNoDisplay e noDisplay) ∧
      (KeptOn (fun _ _ => True) (applyNoDisplay e noDisplay) ↔ KeptOn (fun _ _ => True) e) := by
  match noDisplay with
  | none => exact ⟨Built.refl e, Iff.rfl⟩
  | some true =>
      exact own_set he he.sound.main (by decide) (by decide) (oneLine_of_toNat (by decide)) trivial
  | some false => exact own_remove he he.sound.main (by decide) (by decide)

private theorem removeTryExec_kept (he : Buildable e) :
    Buildable (removeTryExec e) ∧ (removeTryExec e).names = e.names ∧
      (KeptOn (fun _ _ => True) (removeTryExec e) ↔ KeptOn (fun _ _ => True) e) := by
  -- By induction over the sections, each of which loses its `TryExec`.
  have hfold : ∀ (names : List Text) (e : Entry), Buildable e → (∀ n ∈ names, n ∈ e.names) →
      Buildable (names.foldl (fun e name => e.remove name tryExecKey) e) ∧
      (names.foldl (fun e name => e.remove name tryExecKey) e).names = e.names ∧
      (KeptOn (fun _ _ => True) (names.foldl (fun e name => e.remove name tryExecKey) e) ↔
        KeptOn (fun _ _ => True) e) := by
    intro names
    induction names with
    | nil => exact fun e he _ => ⟨he, rfl, Iff.rfl⟩
    | cons name names ih =>
        intro e he hnames
        obtain ⟨hname, hnames⟩ := List.forall_mem_cons.mp hnames
        obtain ⟨hbuilt, hiff⟩ := own_remove (D := fun _ _ => True) he (hasSection_names.mpr hname)
          (by decide : tryExecKey ∈ reservedKeys) (by decide)
        obtain ⟨hb, hn, hkept⟩ := ih (e.remove name tryExecKey) (hbuilt.buildable he)
          fun n hn => hbuilt.names.symm ▸ hnames n hn
        exact ⟨hb, hn.trans hbuilt.names, hkept.trans hiff⟩
  refine hfold e.execSections e he fun n hn => ?_
  obtain ⟨s, hs, rfl⟩ := List.mem_map.mp hn
  exact List.mem_map_of_mem (List.mem_of_mem_filter hs)

/-- The values of a key, in the first section of a name. -/
theorem keptOn_key (hlater : LaterKept e) :
    KeptOn (fun n k => n = name ∧ k = key) e ↔
      ∀ s ∈ e.sections.find? (·.name = name), ∀ v ∈ s.values key, OneLine v := by
  -- The values of a key are those of its lines.
  have hvalues : ∀ s : Section, (∀ v ∈ s.values key, OneLine v) ↔ ∀ v, .key key v ∈ s.lines → OneLine v := by
    intro s
    have hmem : ∀ v, v ∈ s.values key ↔ .key key v ∈ s.lines := by
      intro v
      rw [Section.values, List.mem_filterMap]
      constructor
      · rintro ⟨l, hl, hv⟩
        cases l with
        | other t => cases hv
        | key k w =>
            -- The line is of the key, or of another.
            by_cases hk : k = key
            · have hw : w = v := by simpa [Line.value?, hk] using hv
              rwa [hk, hw] at hl
            · simp [Line.value?, hk] at hv
      · intro hl
        exact ⟨_, hl, if_pos rfl⟩
    exact forall_congr' fun v => by rw [hmem]
  have hsection : ∀ s : Section, (∀ l ∈ s.lines, ∀ k v, l = .key k v → s.name = name ∧ k = key → OneLine v) ↔
      (s.name = name → ∀ v ∈ s.values key, OneLine v) := by
    intro s
    rw [hvalues]
    constructor
    · exact fun h hname v hl => h _ hl key v rfl ⟨hname, rfl⟩
    · rintro h l hl k v rfl ⟨hname, rfl⟩
      exact h hname v hl
  rw [KeptOn, AllLines, forall₂_congr fun s _ => hsection s]
  have hmatch := forall_match_iff (fun s : Section => decide (s.name = name))
    (fun s => ∀ v ∈ s.values key, OneLine v) e.sections
  simp only [decide_eq_true_eq] at hmatch
  rw [hmatch]
  refine and_iff_left fun s hs => ?_
  rw [hvalues]
  exact fun v hv => hlater name s hs key v hv

private theorem ensureExec_kept (ht : Named t) (he : Buildable e) :
    Built mainSection (· = execKey) e (ensureExec e t) ∧
      (KeptOn (fun _ _ => True) (ensureExec e t) ↔
        (e.get mainSection execKey = none → PathKept t) ∧ KeptOn (fun _ _ => True) e) := by
  rw [ensureExec]
  split
  · rename_i hnone
    -- The command line may have the field code at its end, which is one line.
    have hnone : e.get mainSection execKey = none := by simpa using hnone
    refine ⟨built_set plainKey_exec fun hown => absurd rfl hown.2, ?_⟩
    have hargs : ArgsKept (if (e.get mainSection "MimeType".toList).isSome then ["%U".toList] else []) := by
      split
      · refine argsKept_of_oneLine fun a ha => ?_
        obtain rfl := List.mem_singleton.mp ha
        exact oneLine_of_toNat (by decide)
      · exact argsKept_of_oneLine (by simp)
    rw [keptOn_set_new he he.sound.main _ trivial, oneLine_exec ht, forall_prop_of_true hnone]
    · exact and_congr_left' (and_iff_left hargs)
    · refine (keptOn_key he.later).mpr fun s hs v hv => ?_
      -- There was no such key before.
      have hget : s.get execKey = none := by
        rw [Entry.get, Option.mem_def.mp hs] at hnone
        exact hnone
      rw [Section.get_eq, List.head?_eq_none_iff] at hget
      rw [hget] at hv
      cases hv
  · rename_i hsome
    have hsome : e.get mainSection execKey ≠ none := by simpa using hsome
    exact ⟨Built.refl e, (and_iff_right fun h => absurd h hsome).symm⟩

/-- A list of names, each followed by a semicolon. -/
theorem oneLine_names {names : List Text} (hnewline : ∀ n ∈ names, '\n' ∉ n) :
    OneLine (names.flatMap (· ++ [';'])) ↔ FirstKept names := by
  -- A semicolon is no newline.
  have hno : '\n' ∉ names.flatMap (· ++ [';']) := by
    rw [List.mem_flatMap]
    rintro ⟨n, hn, hmem⟩
    rcases List.mem_append.mp hmem with hmem | hmem
    · exact hnewline n hn hmem
    · simp at hmem
  -- The list ends with a semicolon, which is no blank.
  have hend : ∀ c ∈ (names.flatMap (· ++ [';'])).getLast?, ¬isWhitespace c := by
    intro c hc
    cases hlast : names.getLast? with
    | none =>
        rw [List.getLast?_eq_none_iff.mp hlast] at hc
        cases hc
    | some n =>
        obtain ⟨front, rfl⟩ := List.getLast?_eq_some_iff.mp hlast
        rw [List.flatMap_append, List.flatMap_singleton, ← List.append_assoc, List.getLast?_concat] at hc
        obtain rfl := Option.some.inj hc
        decide
  -- It starts as the first name does.
  have hstart : (∀ c ∈ (names.flatMap (· ++ [';'])).head?, ¬isWhitespace c) ↔ FirstKept names := by
    cases names with
    | nil => simp [FirstKept]
    | cons n names =>
        cases n with
        | nil => simpa [FirstKept] using (by decide : ¬isWhitespace ';')
        | cons c n => simp [FirstKept]
  rw [← hstart]
  exact ⟨fun h => h.trimmed.1, fun h => ⟨hno, h, hend⟩⟩

private theorem nameActions_kept (he : Buildable e) :
    Sound (nameActions e) ∧ (KeptOn (fun _ _ => True) (nameActions e) ↔
      FirstKept e.actions ∧ KeptOn (fun _ _ => True) e) := by
  rw [nameActions]
  split
  · rename_i hempty
    obtain ⟨hbuilt, hiff⟩ := own_remove (D := fun _ _ => True) he he.sound.main
      (by decide : "Actions".toList ∈ reservedKeys) (by decide)
    -- Without actions there is no first one.
    have hfirst : FirstKept e.actions := by
      rw [List.isEmpty_iff.mp hempty]
      simp [FirstKept]
    exact ⟨(hbuilt.buildable he).sound, hiff.trans (and_iff_right hfirst).symm⟩
  · have hnewline : ∀ n ∈ e.actions, '\n' ∉ n := by
      intro n hn hmem
      rw [actions_eq] at hn
      obtain ⟨s, hs, hname⟩ := List.mem_filterMap.mp hn
      obtain ⟨sec, hsec, rfl⟩ := List.mem_map.mp hs
      refine he.sound.names sec hsec ?_
      rw [actionName?_eq_some.mp hname, actionSection]
      exact List.mem_append_right _ hmem
    -- `Actions` is a key of psbox's own.
    have hkey : "Actions".toList ∈ reservedKeys ∧ "Actions".toList ≠ execKey := by decide
    constructor
    · refine sound_change he.sound (fun s => s.name_set _ _) fun s l hl => ?_
      rcases Section.mem_set.mp hl with rfl | ⟨hl, _⟩
      · exact Or.inr ((plainKey_of_reserved hkey.1).sound _)
      · exact Or.inl hl
    · rw [keptOn_set_new he he.sound.main (he.own.mono fun n k h => h.2 ▸ hkey) trivial,
        oneLine_names hnewline]

/-- The rules of an installed entry lose nothing but the start of the first action's name, or all
of an `Exec` that names a path of more than one line. -/
theorem finish_kept (ht : Named t) (he : Buildable e) :
    Sound (finish e t) ∧ (KeptOn (fun _ _ => True) (finish e t) ↔
      (e.get mainSection execKey = none → PathKept t) ∧ FirstKept e.actions ∧
        KeptOn (fun _ _ => True) e) := by
  obtain ⟨hexec, hexecIff⟩ := ensureExec_kept ht he
  obtain ⟨he₂, hnames₂, hiff₂⟩ := removeTryExec_kept (hexec.buildable he)
  -- The three are keys of its own, with values of one line.
  have hkey : ∀ key ∈ ["Type".toList, "Hidden".toList, dbusKey], key ∈ reservedKeys ∧ key ≠ execKey := by
    decide
  have happlication : OneLine "Application".toList := oneLine_of_toNat (by decide)
  have hfalse : OneLine "false".toList := oneLine_of_toNat (by decide)
  obtain ⟨htype, htypeIff⟩ := own_set (D := fun _ _ => True) he₂ he₂.sound.main
    (hkey "Type".toList (by decide)).1 (by decide) happlication trivial
  have he₃ := htype.buildable he₂
  obtain ⟨hhidden, hhiddenIff⟩ := own_remove (D := fun _ _ => True) he₃ he₃.sound.main
    (hkey "Hidden".toList (by decide)).1 (by decide)
  have he₄ := hhidden.buildable he₃
  obtain ⟨hdbus, hdbusIff⟩ := own_set (D := fun _ _ => True) he₄ he₄.sound.main
    (hkey dbusKey (by decide)).1 (by decide) hfalse trivial
  obtain ⟨hsound, hiff⟩ := nameActions_kept (hdbus.buildable he₄)
  -- None of these changes the names of the sections.
  have hactions := actions_of_names
    ((hdbus.names.trans hhidden.names).trans ((htype.names.trans hnames₂).trans hexec.names))
  rw [hactions] at hiff
  have hvalues := ((hdbusIff.trans hhiddenIff).trans (htypeIff.trans hiff₂)).trans hexecIff
  exact ⟨hsound, (hiff.trans (and_congr_right fun _ => hvalues)).trans and_left_comm⟩

end Finish

/-! ## Section 7: A Host's Entry -/

def launchedArgs : Launch → List Text
  | .command args => args
  | .exec args => args

/-- What the last of `k + 1` rewrites of a command line runs. -/
def relaunch (t : Target) (removeArgs : List Text) : Nat → List Text → Except ExecError Launch
  | 0, args => classify args removeArgs
  | k + 1, args => do
      let launch ← classify args removeArgs
      relaunch t removeArgs k (t.command ++ launch.argv)

/-- The command lines of a host's entry of which nothing is lost, but for the actions that a
configuration has. A section's is rewritten as often as there are sections of its name. -/
def HostKept (t : Target) (removeArgs : List Text) (actions : List (Text × Option Action))
    (host : Entry) : Prop :=
  ∀ name value args launch, isExecSection name → (∀ x ∈ actions, name ≠ actionSection x.1) →
    host.get name execKey = some value → splitExec value = .ok args →
      relaunch t removeArgs (host.names.count name - 1) args = .ok launch → ArgsKept (launchedArgs launch)

section Host

variable {t : Target} {removeArgs : List Text} {e e' : Entry} {s s' : Section} {name : Text}

private theorem argsKept_argv (launch : Launch) : ArgsKept launch.argv ↔ ArgsKept (launchedArgs launch) := by
  have hdashes : ∀ a ∈ ["--".toList], OneLine a := fun a ha => by
    obtain rfl := List.mem_singleton.mp ha
    exact oneLine_of_toNat (by decide)
  -- Both ways to launch keep the arguments at the end of the line.
  cases launch with
  | command args => exact argsKept_append hdashes args
  | exec args =>
      have hexec : ∀ a ∈ ["--exec".toList], OneLine a := fun a ha => by
        obtain rfl := List.mem_singleton.mp ha
        exact oneLine_of_toNat (by decide)
      exact (argsKept_append hexec ("--".toList :: args)).trans (argsKept_append hdashes args)

/-- The `Exec` of a section after all of its rewrites. -/
theorem wrapTimes_values {k : Nat} {v : Text} {args : List Text} (hv : s.get execKey = some v)
    (hargs : splitExec v = .ok args) (h : wrapTimes t removeArgs (k + 1) s = .ok s') :
    ∃ launch, relaunch t removeArgs k args = .ok launch ∧
      s'.values execKey = [joinExec (t.command ++ launch.argv)] := by
  -- Induction over the rewrites that are still to come.
  induction k generalizing s v args with
  | zero =>
      obtain ⟨s₁, hs₁, hsame⟩ := bind_eq_ok h
      obtain rfl := Except.ok.inj hsame
      obtain ⟨w, hw, rfl⟩ := wrap_some hv hs₁
      obtain ⟨launch, hlaunch, hjoin⟩ := bind_eq_ok hw
      obtain rfl := Except.ok.inj hjoin
      obtain ⟨args', hargs', hclassify⟩ := bind_eq_ok hlaunch
      obtain rfl := Except.ok.inj (hargs.symm.trans hargs')
      exact ⟨launch, hclassify, Section.values_set s execKey _⟩
  | succ k ih =>
      obtain ⟨s₁, hs₁, h⟩ := bind_eq_ok h
      obtain ⟨w, hw, rfl⟩ := wrap_some hv hs₁
      obtain ⟨launch, hlaunch, hjoin⟩ := bind_eq_ok hw
      obtain rfl := Except.ok.inj hjoin
      obtain ⟨args', hargs', hclassify⟩ := bind_eq_ok hlaunch
      obtain rfl := Except.ok.inj (hargs.symm.trans hargs')
      obtain ⟨last, hlast, hvalues⟩ := ih (get_set_exec s _) (splitPlain_joinExec _ []) h
      exact ⟨last, bind_eq_ok_iff.mpr ⟨launch, hclassify, hlast⟩, hvalues⟩

private theorem built_rewriteSection (h : rewriteSection t removeArgs e name = .ok e') :
    Built name (· = execKey) e e' := by
  rw [rewriteSection] at h
  split at h
  · obtain rfl := Except.ok.inj h
    exact Built.refl e
  · obtain ⟨w, _, hw⟩ := bind_eq_ok h
    obtain rfl := Except.ok.inj hw
    exact built_set plainKey_exec fun hown => absurd rfl hown.2

private theorem rewrite_buildable (he : Buildable e) (h : rewrite e t removeArgs = .ok e') :
    Buildable e' ∧ ∀ D : Text → Text → Prop, (∀ n, ¬D n execKey) → KeptOn D e → KeptOn D e' := by
  -- Section by section.
  have hfold : ∀ (names : List Text) (e : Entry), Buildable e →
      names.foldlM (rewriteSection t removeArgs) e = .ok e' →
        Buildable e' ∧ ∀ D : Text → Text → Prop, (∀ n, ¬D n execKey) → KeptOn D e → KeptOn D e' := by
    intro names
    induction names with
    | nil =>
        intro e he h
        obtain rfl := Except.ok.inj h
        exact ⟨he, fun _ _ h => h⟩
    | cons name names ih =>
        intro e he h
        rw [List.foldlM_cons] at h
        obtain ⟨e₁, he₁, h⟩ := bind_eq_ok h
        have hbuilt := built_rewriteSection he₁
        obtain ⟨he', hframe⟩ := ih e₁ (hbuilt.buildable he) h
        exact ⟨he', fun D hD hkept => hframe D hD
          (hbuilt.frame D (fun k hk => by rw [hk]; exact hD name) hkept)⟩
  exact hfold e.execSections e he h

/-- The first section of a name, rewritten. -/
theorem values_of_rewrite (h : rewrite e t removeArgs = .ok e')
    (hs' : e'.sections.find? (·.name = name) = some s') :
    ∃ s, e.sections.find? (·.name = name) = some s ∧
      (¬isExecSection name → s' = s) ∧ (s.values execKey = [] → s' = s) ∧
      ∀ v args, isExecSection name → s.get execKey = some v → splitExec v = .ok args →
        ∃ launch, relaunch t removeArgs (e.names.count name - 1) args = .ok launch ∧
          s'.values execKey = [joinExec (t.command ++ launch.argv)] := by
  have hnames := foldlM_rewriteSection_names h
  obtain ⟨i, hi, hname, hfirst⟩ := exists_place_of_find? hs'
  -- The names stay, so the section stands where it stood.
  have hfirst : FirstAt e.names i := by
    rw [← hnames]
    exact hfirst
  have hlength : i < e.sections.length := by
    have hlt := (List.getElem?_eq_some_iff.mp hi).1
    have hlen := congrArg List.length hnames
    simp only [Entry.names, List.length_map] at hlen
    rwa [hlen] at hlt
  have hs : e.sections[i]? = some e.sections[i] := List.getElem?_eq_getElem hlength
  obtain ⟨s₁, hs₁, hsame, htimes, _⟩ := foldlM_rewriteSection_place h hs
  obtain rfl : s₁ = s' := Option.some.inj (hs₁.symm.trans hi)
  have hsname : e.sections[i].name = name := hsame.symm.trans hname
  have hwrapped := htimes hfirst
  rw [hsname] at hwrapped
  have hfind : e.sections.find? (·.name = name) = some e.sections[i] := by
    have := find?_eq_of_firstAt hs hfirst
    rwa [hsname] at this
  refine ⟨e.sections[i], hfind, fun hnot => ?_, fun hnone => ?_, fun v args hsection hv hargs => ?_⟩
  -- A section that is not rewritten has no command line to run.
  · have hcount : e.execSections.count name = 0 := by
      rw [List.count_eq_zero]
      intro hmem
      obtain ⟨s, hs, rfl⟩ := List.mem_map.mp hmem
      exact hnot (List.mem_filter.mp hs).2
    rw [hcount] at hwrapped
    exact (Except.ok.inj hwrapped).symm
  · exact wrapTimes_none hnone _ hwrapped
  · have hpos : 0 < e.names.count name := by
      rw [List.count_pos_iff, ← hsname]
      exact List.mem_map_of_mem (List.mem_of_getElem? hs)
    -- It is rewritten once for each section of its name.
    have hcount : e.execSections.count name = e.names.count name - 1 + 1 := by
      have hcount := count_execSections (e := e) (s := e.sections[i]) (hsname ▸ hsection)
      rw [hsname] at hcount
      omega
    rw [hcount] at hwrapped
    exact wrapTimes_values hv hargs hwrapped

/-- Of a host's entry, only a rewritten command line can be more than one line. -/
theorem keptOn_rewrite (ht : Named t) (actions : List (Text × Option Action)) (he : Buildable e)
    (hkept : KeptOn (fun _ _ => True) e) (h : rewrite e t removeArgs = .ok e') :
    KeptOn (Spared actions) e' ↔
      ∀ name value args launch, isExecSection name → (∀ x ∈ actions, name ≠ actionSection x.1) →
        e.get name execKey = some value → splitExec value = .ok args →
        relaunch t removeArgs (e.names.count name - 1) args = .ok launch →
          PathKept t ∧ ArgsKept (launchedArgs launch) := by
  obtain ⟨he', hframe⟩ := rewrite_buildable he h
  -- The rewrites change no key but `Exec`.
  have hothers : KeptOn (fun _ k => k ≠ execKey) e' :=
    hframe _ (fun _ hne => hne rfl) (hkept.mono fun _ _ _ => trivial)
  have hspared : ∀ n, Spared actions n execKey ↔ ∀ x ∈ actions, n ≠ actionSection x.1 := by
    intro n
    refine forall₂_congr fun x _ => ?_
    simp [Left]
  have hexec : KeptOn (Spared actions) e' ↔
      ∀ n, Spared actions n execKey → KeptOn (fun n' k => n' = n ∧ k = execKey) e' := by
    constructor
    · exact fun h n hn => h.mono fun n' k hk => by rwa [hk.1, hk.2]
    · intro h s hs l hl k v hline hD
      -- `Exec` or another key.
      by_cases hk : k = execKey
      · exact h s.name (hk ▸ hD) s hs l hl k v hline ⟨rfl, hk⟩
      · exact hothers s hs l hl k v hline hk
  rw [hexec]
  constructor
  · intro h₁ name value args launch hsection hnot hget hargs hlaunch
    have hkey := (keptOn_key he'.later).mp (h₁ name ((hspared name).mpr hnot))
    obtain ⟨s, hs, hvalue⟩ := Option.bind_eq_some_iff.mp hget
    have hthere : name ∈ e'.names := by
      rw [foldlM_rewriteSection_names h, ← hasSection_names, hasSection_iff]
      exact ⟨s, List.mem_of_find?_eq_some hs, by simpa using List.find?_some hs⟩
    obtain ⟨s₀, hs₀, hs₀name⟩ := List.mem_map.mp hthere
    obtain ⟨s', hs'⟩ := Option.isSome_iff_exists.mp
      (List.find?_isSome (p := fun s : Section => s.name = name) |>.mpr ⟨s₀, hs₀, by simpa using hs₀name⟩)
    obtain ⟨s₁, hs₁, _, _, hvalues⟩ := values_of_rewrite h hs'
    obtain rfl : s₁ = s := Option.some.inj (hs₁.symm.trans hs)
    obtain ⟨launch', hlaunch', hjoin⟩ := hvalues value args hsection hvalue hargs
    obtain rfl := Except.ok.inj (hlaunch.symm.trans hlaunch')
    have hone := hkey s' hs' _ (by rw [hjoin]; exact List.mem_singleton_self _)
    rwa [oneLine_command ht, argsKept_argv] at hone
  · intro h₁ name hname
    refine (keptOn_key he'.later).mpr fun s' hs' v hv => ?_
    obtain ⟨s, hs, hsame, hnone, hvalues⟩ := values_of_rewrite h hs'
    have hold : ∀ v ∈ s.values execKey, OneLine v :=
      (keptOn_key he.later).mp (hkept.mono fun _ _ _ => trivial) s hs
    -- A section that is rewritten, or one whose `Exec` stays as it was.
    by_cases hsection : isExecSection name
    · by_cases hexec : s.values execKey = []
      · exact hold v (hnone hexec ▸ hv)
      · obtain ⟨value, hvalue, _⟩ := get_of_values hexec
        have hget : e.get name execKey = some value := by
          rw [Entry.get, hs]
          exact hvalue
        obtain ⟨launch₀, hlaunch₀⟩ := readable_of_rewrite h name hsection value hget
        obtain ⟨args, hargs, _⟩ := bind_eq_ok hlaunch₀
        obtain ⟨launch, hlaunch, hjoin⟩ := hvalues value args hsection hvalue hargs
        rw [hjoin, List.mem_singleton] at hv
        rw [hv, oneLine_command ht, argsKept_argv]
        exact h₁ name value args launch hsection ((hspared name).mp hname) hget hargs hlaunch
    · exact hold v (hsame hsection ▸ hv)

end Host

/-! ## Section 8: Built Entries -/

/-- What is configured, and the host's entry that is copied, are such that nothing is lost. -/
structure NothingLost (source : Source) (t : Target) : Prop where
  path : PathKept t
  keys : source.keys.Kept
  actions : ∀ x ∈ source.actions.entries, ∀ a, x.2 = some a → a.Kept
  host : ∀ text entry, source.copy = some (some text) → Entry.parse text = .ok entry →
    HostKept t source.removeArguments source.actions.entries entry ∧
      FirstKept (entry.actions.filter (keepsAction source.actions.entries))

section Start

variable {source : Source} {t : Target} {e : Entry}

/-- Before the configuration is applied, only rewritten command lines can be more than one line. -/
structure Started (source : Source) (t : Target) (e : Entry) : Prop where
  buildable : Buildable e
  others : KeptOn (fun _ k => k ≠ execKey) e
  spared : PathKept t → (KeptOn (Spared source.actions.entries) e ↔
    ∀ text entry, source.copy = some (some text) → Entry.parse text = .ok entry →
      HostKept t source.removeArguments source.actions.entries entry)
  path : KeptOn (Spared source.actions.entries) e → e.get mainSection execKey ≠ none → PathKept t
  first : FirstKept (e.actions.filter (keepsAction source.actions.entries)) ↔
    ∀ text entry, source.copy = some (some text) → Entry.parse text = .ok entry →
      FirstKept (entry.actions.filter (keepsAction source.actions.entries))

private theorem started_new (h : start source t = .ok e) (hcopy : source.copy = none) :
    Started source t e := by
  rw [start, hcopy] at h
  obtain ⟨out, hout, h⟩ := bind_eq_ok h
  obtain rfl := Except.ok.inj h
  have hnew : Buildable Entry.new := by
    refine ⟨⟨by simp [Entry.new], ?_, by simp [Entry.new], rfl⟩, ?_, ?_⟩
    · intro s hs
      obtain rfl := List.mem_singleton.mp hs
      decide
    · intro name s hs
      -- The new entry has one section.
      have hnone : repeats (·.name = name) Entry.new.sections = [] := by
        rw [Entry.new, repeats]
        split <;> rfl
      rw [hnone] at hs
      cases hs
    · intro s hs l hl
      obtain rfl := List.mem_singleton.mp hs
      cases hl
  have hempty : KeptOn (fun _ _ => True) Entry.new := by
    intro s hs l hl
    obtain rfl := List.mem_singleton.mp hs
    cases hl
  have hone : OneLine out := (oneLine_escape (mapError_eq_ok.mp hout)).mpr
    (textKept_of_oneLine (oneLine_of_toNat (validName_chars source.validName).2))
  have hbuilt : Built mainSection (· = "Name".toList) Entry.new
      (Entry.new.set mainSection "Name".toList out) := by
    refine built_set (plainKey_of_validKey name_valid) fun hown => ?_
    exact absurd hown.1 (validKey_chars name_valid).2.2
  have hkept : KeptOn (fun _ _ => True) (Entry.new.set mainSection "Name".toList out) :=
    hempty.set fun _ => hone
  have hactions : (Entry.new.set mainSection "Name".toList out).actions = [] := by
    rw [actions_of_names hbuilt.names]
    rfl
  refine ⟨hbuilt.buildable hnew, hkept.mono fun _ _ _ => trivial, fun _ => ?_, fun _ hexec => ?_, ?_⟩
  · refine iff_of_true (hkept.mono fun _ _ _ => trivial) fun text entry htext => ?_
    rw [hcopy] at htext
    cases htext
  · rw [hbuilt.get _ _ (by decide)] at hexec
    exact absurd rfl hexec
  · rw [hactions]
    refine iff_of_true (by simp [FirstKept]) fun text entry htext => ?_
    rw [hcopy] at htext
    cases htext

private theorem started_host (ht : Named t) {text : Text} (h : start source t = .ok e)
    (hcopy : source.copy = some (some text)) : Started source t e := by
  rw [start, hcopy] at h
  simp only at h
  split at h
  · cases h
  rename_i entry hparse
  split at h
  · cases h
  rename_i e' hrewrite
  obtain rfl := Except.ok.inj h
  obtain ⟨hsound, hlines⟩ := sound_of_parse hparse
  -- The host's entry is as it was read, so that its lines are sound.
  have hkept : KeptOn (fun _ _ => True) entry := keptOn_iff_kept.mpr hlines
  have hentry : Buildable entry := by
    refine ⟨hsound, fun name s hs k v hl => ?_, hkept.mono fun _ _ _ => trivial⟩
    have hmem : s ∈ entry.sections := by
      have hall := (forall_match_iff (fun s : Section => decide (s.name = name))
        (fun s => s ∈ entry.sections) entry.sections).mp fun s hs _ => hs
      exact hall.2 s hs
    exact hlines s hmem _ hl
  obtain ⟨he', hframe⟩ := rewrite_buildable hentry hrewrite
  have hiff := keptOn_rewrite ht source.actions.entries hentry hkept hrewrite
  have hcopied : ∀ P : Entry → Prop, (∀ text entry, source.copy = some (some text) →
      Entry.parse text = .ok entry → P entry) ↔ P entry := by
    intro P
    rw [hcopy]
    constructor
    · exact fun h => h text entry rfl hparse
    · intro h text' entry' htext hparse'
      obtain rfl : text = text' := by simpa using htext
      obtain rfl := Except.ok.inj (hparse.symm.trans hparse')
      exact h
  refine ⟨he', hframe _ (fun _ hne => hne rfl) (hkept.mono fun _ _ _ => trivial), fun hpath => ?_,
    fun hspared hexec => ?_, ?_⟩
  · rw [hcopied fun entry => HostKept t source.removeArguments source.actions.entries entry, hiff]
    -- The path is one line by hypothesis.
    have hand : ∀ p : Prop, PathKept t ∧ p ↔ p := fun p => and_iff_right hpath
    simp only [hand]
    exact Iff.rfl
  · -- The main section has a command line that was rewritten.
    have hmain : isExecSection mainSection := by decide
    obtain ⟨w, hw⟩ := Option.ne_none_iff_exists'.mp hexec
    obtain ⟨s', hs', hvalue'⟩ := Option.bind_eq_some_iff.mp hw
    obtain ⟨s, hs, _, hnone, hvalues⟩ := values_of_rewrite hrewrite hs'
    have hvalues' : s.values execKey ≠ [] := by
      intro hempty
      rw [hnone hempty, Section.get_eq, hempty] at hvalue'
      cases hvalue'
    obtain ⟨value, hvalue, _⟩ := get_of_values hvalues'
    have hget : entry.get mainSection execKey = some value := by
      rw [Entry.get, hs]
      exact hvalue
    obtain ⟨launch₀, hlaunch₀⟩ := readable_of_rewrite hrewrite mainSection hmain value hget
    obtain ⟨args, hargs, _⟩ := bind_eq_ok hlaunch₀
    obtain ⟨launch, hlaunch, _⟩ := hvalues value args hmain hvalue hargs
    exact (hiff.mp hspared mainSection value args launch hmain
      (fun x _ => (actionSection_ne_main x.1).symm) hget hargs hlaunch).1
  · rw [hcopied fun entry => FirstKept (entry.actions.filter (keepsAction source.actions.entries)),
      actions_of_names (foldlM_rewriteSection_names hrewrite)]

theorem started (ht : Named t) (h : start source t = .ok e) : Started source t e := by
  -- A host's entry, one that is not found, or none to copy.
  cases hcopy : source.copy with
  | none => exact started_new h hcopy
  | some found =>
      cases found with
      | none =>
          rw [start, hcopy] at h
          cases h
      | some text => exact started_host ht h hcopy

end Start

/-- What is written of a built entry is read as that entry exactly when nothing is lost of what is
configured and of the host's command lines. -/
theorem reads_back_iff {source : Source} {t : Target} {e : Entry} (ht : Named t)
    (h : build source t = .ok e) :
    Entry.parse (e.render t.sandbox) = .ok e ↔ NothingLost source t := by
  obtain ⟨e₀, he₀, h⟩ := bind_eq_ok h
  obtain ⟨e₁, he₁, h⟩ := bind_eq_ok h
  obtain ⟨e₂, he₂, h⟩ := bind_eq_ok h
  obtain rfl := Except.ok.inj h
  have hstart := started ht he₀
  have hkeys := keys_built he₁
  have hbuildable₁ := hkeys.buildable hstart.buildable
  have hnotExec : ∀ k, k ∉ reservedKeys → k ≠ execKey := by
    rintro k hk rfl
    exact hk (by decide)
  -- No section of an action is the main one.
  have hmainKeys : ∀ x ∈ source.actions.entries, mainSection ≠ actionSection x.1 :=
    fun x _ => (actionSection_ne_main x.1).symm
  have hold₁ : KeptOn (fun n k => n ∈ source.actions.entries.map (actionSection ·.1) ∧
      k ∉ reservedKeys) e₁ := by
    refine hkeys.frame _ (fun k _ hmem => ?_)
      (hstart.others.mono fun n k hk => hnotExec k hk.2)
    obtain ⟨x, hx, heq⟩ := List.mem_map.mp hmem.1
    exact hmainKeys x hx heq.symm
  obtain ⟨⟨hbuildable₂, hmain₂⟩, hactions⟩ := applyActions_kept (D := fun _ _ => True) ht
    source.actions.distinct source.actions.valid hbuildable₁ (fun _ _ _ => trivial) hold₁ he₂
  obtain ⟨hdisplay, hdisplayIff⟩ := applyNoDisplay_kept hbuildable₂ source.noDisplay
  obtain ⟨hsound, hfinish⟩ := finish_kept ht (hdisplay.buildable hbuildable₂)
  have hname := validName_chars ht.sandbox
  -- The keys and the actions leave the main section's `Exec`.
  have hexec : (applyNoDisplay e₂ source.noDisplay).get mainSection execKey =
      e₀.get mainSection execKey := by
    rw [hdisplay.get _ _ (by decide), hmain₂, hkeys.get _ _ (by decide)]
  have hfirst : FirstKept (applyNoDisplay e₂ source.noDisplay).actions ↔
      ∀ text entry, source.copy = some (some text) → Entry.parse text = .ok entry →
        FirstKept (entry.actions.filter (keepsAction source.actions.entries)) := by
    rw [actions_of_names hdisplay.names, applyActions_first source.actions.valid he₂,
      actions_of_names hkeys.names, hstart.first]
  have hvalues : KeptOn (fun n k => True ∧ Spared source.actions.entries n k) e₁ ↔
      source.keys.Kept ∧ KeptOn (Spared source.actions.entries) e₀ := by
    simp only [true_and]
    refine keys_kept hstart.buildable hstart.buildable.sound.main (fun k _ x hx heq => ?_)
      (hstart.others.mono fun n k hk => hnotExec k hk.2) he₁
    exact absurd heq (hmainKeys x hx)
  rw [parse_render_iff hsound (oneLine_of_toNat hname.2) hname.1, ← keptOn_iff_kept, hfinish,
    hdisplayIff, hactions, hexec, hfirst, hvalues]
  constructor
  · rintro ⟨hnone, hfirst, hactions, hkeys, hspared⟩
    -- The path of psbox is written in any case.
    have hpath : PathKept t := by
      by_cases hexec : e₀.get mainSection execKey = none
      · exact hnone hexec
      · exact hstart.path hspared hexec
    have hhost := (hstart.spared hpath).mp hspared
    exact ⟨hpath, hkeys, fun x hx a ha => (hactions x hx a ha).2,
      fun text entry htext hparse => ⟨hhost text entry htext hparse, hfirst text entry htext hparse⟩⟩
  · intro hlost
    refine ⟨fun _ => hlost.path, fun text entry htext hparse => (hlost.host text entry htext hparse).2,
      fun x hx a ha => ⟨hlost.path, hlost.actions x hx a ha⟩, hlost.keys, ?_⟩
    exact (hstart.spared hlost.path).mpr fun text entry htext hparse =>
      (hlost.host text entry htext hparse).1

def noKeys : Keys :=
  ⟨[], by simp, by simp, by simp⟩

/-- An app with an action, whose only argument is given. -/
def withAction (argument : Text) : Source where
  copy := none
  name := "app".toList
  keys := noKeys
  actions := ⟨[("run".toList, some ⟨[argument], noKeys⟩)], by simp, by simp; decide⟩
  removeArguments := []
  noDisplay := none
  validName := by decide

def exampleTarget : Target :=
  ⟨"/usr/bin/psbox".toList, "box".toList, "app".toList⟩

theorem reads_back_iff_example : ∃ e, build (withAction "--new".toList) exampleTarget = .ok e ∧
    (Entry.parse (e.render exampleTarget.sandbox) = .ok e ↔
      NothingLost (withAction "--new".toList) exampleTarget) := by
  obtain ⟨e, he⟩ := exists_of_isOk (x := build (withAction "--new".toList) exampleTarget)
    (by decide)
  exact ⟨e, he, reads_back_iff ⟨by decide, by decide⟩ he⟩

/-- A newline in an argument ends the `Exec` line, and what follows is a line of its own. -/
theorem not_reads_back : ¬∀ source t e, Named t → build source t = .ok e →
    Entry.parse (e.render t.sandbox) = .ok e := by
  intro h
  obtain ⟨e, he⟩ := exists_of_isOk (x := build (withAction "a\nHidden=true".toList) exampleTarget)
    (by decide)
  have hread : (match build (withAction "a\nHidden=true".toList) exampleTarget with
      | .ok e => decide (Entry.parse (e.render exampleTarget.sandbox) = .ok e)
      | .error _ => true) = false := by
    decide
  rw [he] at hread
  -- The newline in the argument ends the line.
  have := h _ exampleTarget e ⟨by decide, by decide⟩ he
  simp [this] at hread

end Psbox.Install
