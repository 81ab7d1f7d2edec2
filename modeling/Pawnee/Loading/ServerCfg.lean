import Pawnee.Loading.SiteFiles

/-!
# `server.cfg`

A `server.cfg` is a text of the keys of `ConfigKey`.  The port is written in digits,
the other values between quotes (`configFormat`).

The value of a key goes through `strtok` twice, once with `=` and once with the
quote, so the first `=` in a value ends it (`unquote_quoted`).  A value that starts
with one leaves no token and ends the process.  The settings that are loaded are
the written ones exactly if neither happens to a value that counts
(`loadsSettings_iff`).
-/

namespace Pawnee

open CText Effects Entries

/-! ## Keys -/

theorem ConfigKey.ofName_name (k : ConfigKey) : ofName k.name = some k := by cases k <;> decide

theorem ConfigKey.name_ne_nil (k : ConfigKey) : k.name ≠ [] := by cases k <;> decide

/-- A name that stands for a key is the name of the key. -/
theorem ConfigKey.eq_name {token : Str} {k : ConfigKey} (h : ofName token = some k) :
    token = k.name := by
  unfold ofName at h
  split at h
  · cases h; assumption
  split at h
  · cases h; assumption
  split at h
  · cases h; assumption
  split at h
  · cases h; assumption
  · cases h

/-- The bytes of a key are no delimiters, and no white space. -/
theorem ConfigKey.not_delim (k : ConfigKey) :
    '=' ∉ k.name ∧ '\x00' ∉ k.name ∧ ∀ c ∈ k.name, isSpace c = false := by
  have hspace : (k.name.all fun c => !isSpace c) = true := by cases k <;> decide
  refine ⟨by cases k <;> decide, by cases k <;> decide, fun c hc => ?_⟩
  simpa using List.all_eq_true.mp hspace c hc

/-- No key starts like a comment. -/
theorem ConfigKey.head?_ne (k : ConfigKey) (rest : Str) : (k.name ++ rest).head? ≠ some '#' := by
  rw [List.head?_append_of_ne_nil _ k.name_ne_nil]
  cases k <;> decide

/-! ## Values -/

/-- A value as `server.cfg` has it: the digits of the port, or a text between
quotes. -/
def ConfigKey.quote : ConfigKey → Str → Str
  | .port => fun v => v
  | .listenAddr | .mimesFile | .logsDir => fun v => '\"' :: (v ++ ['\"'])

/-- The number of some digits. -/
def number (digits : Str) : Nat := Nat.ofDigitChars 10 digits 0

/-- The values of a key. -/
def ConfigKey.Ok : ConfigKey → Str → Prop
  | .port => fun v => v ≠ [] ∧ (∀ c ∈ v, c.isDigit = true) ∧ number v < 2147483648
  | .listenAddr | .mimesFile | .logsDir => fun v => v ≠ [] ∧ '\"' ∉ v ∧ '\n' ∉ v

/-- The member a written value stands for. -/
def ConfigKey.value : (k : ConfigKey) → Str → k.Value
  | .port => fun v => (number v : Int)
  | .listenAddr | .mimesFile | .logsDir => fun v => v

theorem ConfigKey.Ok.no_lineFeed {k : ConfigKey} {v : Str} (h : k.Ok v) : '\n' ∉ k.quote v := by
  cases k with
  | port => exact fun hm => absurd (h.2.1 _ hm) (by decide)
  | listenAddr | mimesFile | logsDir => simpa [quote] using h.2.2

theorem ConfigKey.Ok.ne_nil {k : ConfigKey} {v : Str} (h : k.Ok v) : v ≠ [] := by
  cases k <;> exact h.1

/-- `server.cfg`. -/
def configFormat : Format ConfigKey where
  write k v := k.name ++ '=' :: k.quote v
  Ok k v := k.Ok v
  no_lineFeed := by
    intro k v hv
    have hname : '\n' ∉ k.name := fun hm => by
      have hspace := k.not_delim.2.2 _ hm
      exact absurd hspace (by decide)
    simp [hname, ConfigKey.Ok.no_lineFeed hv]
  ne_nil k v := List.append_ne_nil_of_left_ne_nil k.name_ne_nil _

instance : ∀ (k : ConfigKey) (v : Str), Decidable (configFormat.Ok k v)
  | .port, v =>
      have : Decidable (∀ c ∈ v, c.isDigit = true) := List.decidableBAll _ v
      inferInstanceAs (Decidable (v ≠ [] ∧ (∀ c ∈ v, c.isDigit = true) ∧ number v < 2147483648))
  | .listenAddr, v | .mimesFile, v | .logsDir, v =>
      inferInstanceAs (Decidable (v ≠ [] ∧ '\"' ∉ v ∧ '\n' ∉ v))

/-- What two calls of `strtok` leave of a value between quotes. -/
def kept (v : Str) : Str := v.takeWhile fun c => c ≠ '=' ∧ c ≠ '\x00'

theorem kept_eq_self_iff {v : Str} : kept v = v ↔ '=' ∉ v ∧ '\x00' ∉ v := by
  rw [kept, List.takeWhile_eq_self_iff]
  constructor
  · intro h
    exact ⟨fun hm => by simpa using h _ hm, fun hm => by simpa using h _ hm⟩
  · rintro ⟨h1, h2⟩ c hc
    simp only [ne_eq, decide_eq_true_eq]
    exact ⟨fun heq => h1 (heq ▸ hc), fun heq => h2 (heq ▸ hc)⟩

theorem kept_eq_nil_iff {v : Str} (hv : v ≠ []) :
    kept v = [] ↔ v.head? = some '=' ∨ v.head? = some '\x00' := by
  obtain ⟨c, r, rfl⟩ := List.exists_cons_of_ne_nil hv
  have hhead : kept (c :: r) = [] ↔ (c ≠ '=' → c = '\x00') := by
    simp [kept, List.takeWhile_eq_nil_iff]
  rw [hhead, List.head?_cons, Option.some.injEq, Option.some.injEq]
  tauto

/-- A value that is cut ends at its first `=` or NUL. -/
theorem kept_split {v : Str} (h : kept v ≠ v) :
    ∃ d r, v = kept v ++ d :: r ∧ (d = '=' ∨ d = '\x00') := by
  have hv := List.takeWhile_append_dropWhile (p := fun c => c ≠ '=' ∧ c ≠ '\x00') (l := v)
  cases hd : v.dropWhile (fun c => c ≠ '=' ∧ c ≠ '\x00') with
  | nil =>
      rw [hd, List.append_nil] at hv
      exact absurd hv h
  | cons d r =>
      have hstop := head_dropWhile d (by rw [hd]; rfl)
      rw [hd] at hv
      refine ⟨d, r, hv.symm, ?_⟩
      simpa [or_iff_not_imp_left] using hstop

theorem kept_clean (v : Str) : '=' ∉ kept v ∧ '\x00' ∉ kept v := by
  constructor <;> intro h <;> simpa using List.mem_takeWhile_imp h

/-! ## What is read of a value -/

/-- A value between quotes is cut at its first `=` or NUL, and what is left must
not be empty. -/
theorem unquote_quoted {v eol : Str} (hne : v ≠ []) (hv : '\"' ∉ v)
    (heol : eol = [] ∨ eol = ['\n']) :
    unquote (cstr ('\"' :: (v ++ '\"' :: eol))) =
      if kept v = [] then none else some (kept v) := by
  have hskip : ∀ s, strtok ['\"'] ('\"' :: s) = strtok ['\"'] s := strtok_skip_cons (by decide)
  obtain ⟨hequals, hnul⟩ := kept_clean v
  by_cases hcut : kept v = v
  · -- the whole value is one token, and the quotes are cut from it
    obtain ⟨hequals', hnul'⟩ := kept_eq_self_iff.mp hcut
    have heol' : '=' ∉ eol ∧ '\x00' ∉ eol := by rcases heol with rfl | rfl <;> decide
    have hcstr : cstr ('\"' :: (v ++ '\"' :: eol)) = '\"' :: (v ++ '\"' :: eol) :=
      cstr_eq_self (by simp [hnul', heol'])
    have htoken : strtok ['='] ('\"' :: (v ++ '\"' :: eol)) =
        (some ('\"' :: (v ++ '\"' :: eol)), []) :=
      strtok_last (List.cons_ne_nil _ _) (no_delim_iff.mpr (by simp [hequals', heol']))
    rw [hcstr, unquote, htoken]
    simp only [hskip]
    rw [strtok_token hne (no_delim_iff.mpr hv) (by decide), hcut, if_neg hne]
  · obtain ⟨d, r, hsplit, hd⟩ := kept_split hcut
    -- the token is the quote and what stands before the `=` or NUL
    have htoken : (strtok ['='] (cstr ('\"' :: (v ++ '\"' :: eol)))).1 =
        some ('\"' :: kept v) := by
      have hbytes : ∀ c ∈ '\"' :: kept v, c ∉ ['='] := no_delim_iff.mpr (by simp [hequals])
      have hassoc : '\"' :: (v ++ '\"' :: eol) =
          ('\"' :: kept v) ++ d :: (r ++ '\"' :: eol) := by
        conv_lhs => rw [hsplit]
        simp
      rw [hassoc, cstr_append (by simp [hnul])]
      rcases hd with rfl | rfl
      · rw [cstr_cons (by decide), strtok_token (List.cons_ne_nil _ _) hbytes (by decide)]
      · have hend : ∀ s, cstr ('\x00' :: s) = [] := fun s => by simp [cstr]
        rw [hend, List.append_nil, strtok_last (List.cons_ne_nil _ _) hbytes]
    have hquote : '\"' ∉ kept v := fun hm => hv ((List.takeWhile_sublist _).subset hm)
    rw [unquote]
    rcases hcut' : strtok ['='] (cstr ('\"' :: (v ++ '\"' :: eol))) with ⟨token, rest⟩
    rw [hcut'] at htoken
    subst htoken
    simp only [hskip]
    by_cases hnil : kept v = []
    · simp [hnil]
    · rw [if_neg hnil, strtok_last hnil (no_delim_iff.mpr hquote)]

/-- What is made of a key with its value. -/
def readSetting : ConfigKey × Str → Except Fault (Option (Sigma ConfigKey.Value))
  | (.port, v) => .ok (some ⟨.port, number v⟩)
  | (.listenAddr, v) =>
      if kept v = [] then .error .nullPointer else .ok (some ⟨.listenAddr, kept v⟩)
  | (.mimesFile, v) =>
      if kept v = [] then .error .nullPointer else .ok (some ⟨.mimesFile, kept v⟩)
  | (.logsDir, v) => if kept v = [] then .error .nullPointer else .ok (some ⟨.logsDir, kept v⟩)

/-- Digits are read as their number. -/
theorem read_port {v eol : Str} (hv : ConfigKey.port.Ok v) (heol : eol = [] ∨ eol = ['\n']) :
    ConfigKey.port.read (cstr (v ++ eol)) = some (number v : Int) := by
  obtain ⟨hne, hdigits, hsmall⟩ := hv
  have hno : ∀ {c}, c.isDigit = false → c ∉ v := by
    intro c hc hm
    rw [hdigits c hm] at hc
    cases hc
  have heol' : '=' ∉ eol ∧ '\x00' ∉ eol := by rcases heol with rfl | rfl <;> decide
  have hstop : ∀ c ∈ eol.head?, c.isDigit = false := by
    rcases heol with rfl | rfl <;> rintro c ⟨⟩
    rfl
  have hscan : scanInt (v ++ eol) = some ((number v : Int), eol) := by
    refine scanInt_numeral ⟨[], [], v, rfl, by simp, .inl rfl, hne, hdigits, ?_⟩ hstop
    rw [if_neg (by decide), saturate64_eq_self, toInt32_eq_self] <;> simp only [number] at hsmall ⊢
      <;> omega
  have htoken : strtok ['='] (v ++ eol) = (some (v ++ eol), []) :=
    strtok_last (List.append_ne_nil_of_left_ne_nil hne _)
      (no_delim_iff.mpr (by simp [hno (c := '=') (by decide), heol'.1]))
  rw [cstr_eq_self (by simp [hno (c := '\x00') (by decide), heol'.2])]
  simp only [ConfigKey.read, htoken, Option.map_some, atoi, hscan]

/-- The loop over `server.cfg` reads the settings of a text. -/
theorem reads_configEntry : Reads configFormat configEntry readSetting where
  comment _ := rfl
  blank s hne hs := by
    have hcomment : s.head? ≠ some '#' := by
      obtain ⟨c, r, rfl⟩ := List.exists_cons_of_ne_nil hne
      rintro ⟨⟩
      exact absurd (hs '#' List.mem_cons_self) (by decide)
    have hname : ConfigKey.ofName s = none := by
      cases hk : ConfigKey.ofName s with
      | none => rfl
      | some k =>
          obtain ⟨c, r, hcr⟩ := List.exists_cons_of_ne_nil hne
          have hmem : c ∈ k.name := by
            rw [← ConfigKey.eq_name hk, hcr]
            exact List.mem_cons_self
          have hspace := k.not_delim.2.2 c hmem
          rw [hs c (hcr ▸ List.mem_cons_self)] at hspace
          cases hspace
    simp only [configEntry, keyedLine, if_neg hcomment, strtok_blank hne hs, hname]
  setting := by
    intro k v eol hv heol
    have hcomment : (configFormat.write k v ++ eol).head? ≠ some '#' := by
      simpa [configFormat] using k.head?_ne ('=' :: (k.quote v ++ eol))
    have hdelim : ∀ c ∈ k.name, c ∉ ['='] := no_delim_iff.mpr k.not_delim.1
    have hcut : strtok ['='] (cstr (configFormat.write k v ++ eol)) =
        (some k.name, cstr (k.quote v ++ eol)) := by
      have hassoc : configFormat.write k v ++ eol = k.name ++ '=' :: (k.quote v ++ eol) := by
        simp [configFormat]
      rw [hassoc, strtok_cstr k.name_ne_nil hdelim k.not_delim.2.1 (by decide) (by decide)]
    simp only [configEntry, keyedLine, if_neg hcomment, hcut, ConfigKey.ofName_name]
    cases k with
    | port =>
        have hread := read_port hv heol
        simp only [ConfigKey.quote, hread, readSetting]
    | listenAddr | mimesFile | logsDir =>
        have hread := unquote_quoted hv.1 hv.2.1 heol
        simp only [ConfigKey.quote, ConfigKey.read, List.cons_append, List.append_assoc,
          List.nil_append, hread, readSetting]
        by_cases hnil : kept v = [] <;> simp [hnil]

/-! ## The settings that are loaded -/

/-- The last value written for a key. -/
def lastWritten (k : ConfigKey) (t : Text configFormat) : Option Str :=
  lastOf k (t.settings.map fun s => (⟨s.1, s.2⟩ : Sigma fun _ : ConfigKey => Str))

/-- The last value written for each key, or the default of a key that is not
written. -/
def writtenSettings (t : Text configFormat) : Settings where
  port := ((lastWritten .port t).map ConfigKey.port.value).getD Settings.default.port
  listenAddr := (lastWritten .listenAddr t).getD Settings.default.listenAddr
  mimesFile := (lastWritten .mimesFile t).getD Settings.default.mimesFile
  logDir := (lastWritten .logsDir t).getD Settings.default.logDir

/-- `get_config_from_file` loads the settings of a text: the loop over `server.cfg`
ends with them, and they are there when it returns. -/
structure LoadsSettings (t : Text configFormat) : Prop where
  loop : configLoop (fgetsAll 255 t.content) .default = .ret (writtenSettings t)
  returned : ∀ {sites : Option (List DirEntry)} {s s' : Startup} {status : Int}
    {tr : List ServerEvent}, s.config.toSettings = .default →
    Prog.Runs (getConfigFromFile ⟨some t.content, sites⟩ s) tr (.ok (status, s')) →
    s'.config.toSettings = writtenSettings t

/-- No value between quotes starts with a `=` or NUL, and the last one of each key
holds none. -/
structure NoEquals (t : Text configFormat) : Prop where
  starts : ∀ s ∈ t.settings, s.1 ≠ .port → s.2.head? ≠ some '=' ∧ s.2.head? ≠ some '\x00'
  last : ∀ k v, k ≠ .port → lastWritten k t = some v → '=' ∉ v ∧ '\x00' ∉ v

/-- The member that is set for a written value. -/
def ConfigKey.keptValue : (k : ConfigKey) → Str → k.Value
  | .port => fun v => (number v : Int)
  | .listenAddr | .mimesFile | .logsDir => kept

/-- A value leaves a token. -/
theorem readSetting_eq {s : ConfigKey × Str} (h : s.1 ≠ .port → kept s.2 ≠ []) :
    readSetting s = .ok (some ⟨s.1, s.1.keptValue s.2⟩) := by
  obtain ⟨k, v⟩ := s
  cases k with
  | port => rfl
  | listenAddr | mimesFile | logsDir => exact if_neg (h ConfigKey.noConfusion)

theorem readSetting_error {s : ConfigKey × Str} (hs : s.1 ≠ .port) (h : kept s.2 = []) :
    readSetting s = .error .nullPointer := by
  obtain ⟨k, v⟩ := s
  cases k with
  | port => exact absurd rfl hs
  | listenAddr | mimesFile | logsDir => exact if_pos h

/-- The loop gets through a text if every value leaves a token. -/
theorem entries_readSetting_iff {l : List (ConfigKey × Str)} {es : List (Sigma ConfigKey.Value)} :
    entries readSetting l = .ok es ↔
      (∀ s ∈ l, s.1 ≠ .port → kept s.2 ≠ []) ∧ es = l.map fun s => ⟨s.1, s.1.keptValue s.2⟩ := by
  have hread : (∀ s ∈ l, s.1 ≠ .port → kept s.2 ≠ []) →
      entries readSetting l = .ok (l.map fun s => ⟨s.1, s.1.keptValue s.2⟩) := by
    intro hkept
    rw [entries_of_forall fun s hs => readSetting_eq (hkept s hs), ← Function.comp_def some,
      List.filterMap_eq_map]
  constructor
  · intro h
    have hkept : ∀ s ∈ l, s.1 ≠ .port → kept s.2 ≠ [] := by
      intro s hs hport hnil
      obtain ⟨e, he⟩ := entries_ok_iff.mp ⟨es, h⟩ s hs
      rw [readSetting_error hport hnil] at he
      cases he
    exact ⟨hkept, Except.ok.inj (h.symm.trans (hread hkept))⟩
  · rintro ⟨hkept, rfl⟩
    exact hread hkept

/-- The member of a key after all settings of a text. -/
theorem get_setAll_settings (t : Text configFormat) (k : ConfigKey) :
    Settings.record.get (Settings.record.setAll .default
        (t.settings.map fun s => ⟨s.1, s.1.keptValue s.2⟩)) k =
      ((lastWritten k t).map k.keptValue).getD (Settings.record.get .default k) := by
  have hmap : (t.settings.map fun s => (⟨s.1, s.1.keptValue s.2⟩ : Sigma ConfigKey.Value)) =
      (t.settings.map fun s => (⟨s.1, s.2⟩ : Sigma fun _ : ConfigKey => Str)).map fun e =>
        ⟨e.1, e.1.keptValue e.2⟩ := by
    rw [List.map_map]
    rfl
  rw [Record.get_setAll, hmap, lastOf_map ConfigKey.keptValue]
  rfl

/-- The member of a key in the settings as written. -/
theorem get_writtenSettings (t : Text configFormat) (k : ConfigKey) :
    Settings.record.get (writtenSettings t) k =
      ((lastWritten k t).map k.value).getD (Settings.record.get .default k) := by
  cases k <;> simp [writtenSettings, Settings.record, ConfigKey.value]

/-- The settings are loaded as they were written exactly if no value that counts
is cut at a `=`. -/
theorem loadsSettings_iff {t : Text configFormat} (ht : t.Fits 255) :
    LoadsSettings t ↔ NoEquals t := by
  have hloop : configLoop (fgetsAll 255 t.content) .default =
      orFault ((entries readSetting t.settings).map (Settings.record.setAll .default)) := by
    rw [configLoop_eq, reads_configEntry.entries_content ht]
  constructor
  · intro h
    obtain ⟨es, hes, hset⟩ := orFault_map_eq_ret_iff.mp (hloop.symm.trans h.loop)
    obtain ⟨hkept, rfl⟩ := entries_readSetting_iff.mp hes
    refine ⟨fun s hs hport => ?_, fun k v hport hv => ?_⟩
    · have hne : s.2 ≠ [] := (Text.ok_of_mem_settings hs).ne_nil
      exact not_or.mp fun hstart => hkept s hs hport ((kept_eq_nil_iff hne).mpr hstart)
    · have hget := get_setAll_settings t k
      rw [hset, get_writtenSettings, hv] at hget
      cases k with
      | port => exact absurd rfl hport
      | listenAddr | mimesFile | logsDir => exact kept_eq_self_iff.mp hget.symm
  · intro h
    have hkept : ∀ s ∈ t.settings, s.1 ≠ .port → kept s.2 ≠ [] := by
      intro s hs hport hnil
      have hne : s.2 ≠ [] := (Text.ok_of_mem_settings hs).ne_nil
      exact not_or.mpr (h.starts s hs hport) ((kept_eq_nil_iff hne).mp hnil)
    have hret : configLoop (fgetsAll 255 t.content) .default = .ret (writtenSettings t) := by
      rw [hloop, entries_readSetting_iff.mpr ⟨hkept, rfl⟩]
      refine congrArg Prog.ret (Settings.record.ext (funext fun k => ?_))
      rw [get_setAll_settings, get_writtenSettings]
      cases hv : lastWritten k t with
      | none => rfl
      | some v =>
          cases k with
          | port => rfl
          | listenAddr | mimesFile | logsDir =>
              exact kept_eq_self_iff.mpr (h.last _ v ConfigKey.noConfusion hv)
    refine ⟨hret, fun hs hruns => toSettings_of_runs ?_ hruns⟩
    rw [hs, hret]

/-- A `server.cfg` that gives its port twice. -/
def plainCfg : Text configFormat where
  lines := [.comment " the server".toList, .blank [], .setting .port "80".toList,
    .setting .mimesFile "/etc/types.txt".toList, .setting .port "08081".toList]
  last := .setting .logsDir "/logs/".toList
  ok := by decide
  ok_last := by decide

theorem loadsSettings_plainCfg : plainCfg.Fits 255 ∧ (LoadsSettings plainCfg ↔ NoEquals plainCfg) ∧
    writtenSettings plainCfg =
      ⟨8081, "127.0.0.1".toList, "/etc/types.txt".toList, "/logs/".toList⟩ := by
  have hfits : plainCfg.Fits 255 := by decide
  exact ⟨hfits, loadsSettings_iff hfits, by decide⟩

/-- A `server.cfg` with a `=` in a value. -/
def equalsCfg : Text configFormat where
  lines := [.setting .mimesFile "/a=b".toList]
  last := .blank []
  ok := by decide
  ok_last := by decide

/-- The value is loaded up to the `=`. -/
theorem not_loadsSettings_equalsCfg : equalsCfg.Fits 255 ∧ ¬ LoadsSettings equalsCfg := by
  constructor
  · decide
  · intro h
    have hloop : configLoop (fgetsAll 255 equalsCfg.content) .default =
        .ret { Settings.default with mimesFile := "/a".toList } := rfl
    have hmimes := congrArg Settings.mimesFile (Prog.ret.inj (hloop.symm.trans h.loop))
    exact absurd hmimes (by decide)

end Pawnee
