import Pawnee.Source.Config
import Pawnee.Foundation.SettingText

/-!
# Site files

A site file is a text of the keys `hostname`, `root` and `log_dir`, with values
between quotes (`siteFormat`).  `get_vhost_config` finds at most one key in a line
(`hostEntry`), and what its line loop leaves are the last values of the keys
(`scanSite_eq`).  In a site file these are the values that were written, as C
strings.
-/

namespace Pawnee

open CText Effects Entries

/-! ## Keys -/

/-- The keys `get_vhost_config` knows. -/
inductive SiteKey where
  | hostname
  | root
  | logDir
deriving DecidableEq, Repr

/-- The key as it is written. -/
def SiteKey.name : SiteKey → Str
  | .hostname => "hostname".toList
  | .root => "root".toList
  | .logDir => "log_dir".toList

/-- The key with a name. -/
def SiteKey.ofName (token : Str) : Option SiteKey :=
  if token = "hostname".toList then some .hostname
  else if token = "root".toList then some .root
  else if token = "log_dir".toList then some .logDir
  else none

theorem SiteKey.ofName_name (k : SiteKey) : ofName k.name = some k := by cases k <;> decide

theorem SiteKey.name_ne_nil (k : SiteKey) : k.name ≠ [] := by cases k <;> decide

/-- The bytes of a key are no delimiters. -/
theorem SiteKey.not_delim (k : SiteKey) : '=' ∉ k.name ∧ '\x00' ∉ k.name ∧ '\n' ∉ k.name := by
  cases k <;> decide

/-- No key starts like a comment. -/
theorem SiteKey.head?_ne (k : SiteKey) (rest : Str) : (k.name ++ rest).head? ≠ some '#' := by
  rw [List.head?_append_of_ne_nil _ k.name_ne_nil]
  cases k <;> decide

/-! ## The line loop of `get_vhost_config` as its entries -/

/-- What `get_vhost_config` finds in what one `fgets` has read. -/
def hostEntry (buffer : Str) : Option (Sigma fun _ : SiteKey => Str) :=
  if buffer.head? = some '#' then none
  else
    match strtok ['='] (cstr buffer) with
    | (none, _) => none
    | (some key, rest) =>
        match SiteKey.ofName key, (strtok ['\"'] rest).1 with
        | some k, some value => some ⟨k, value⟩
        | _, _ => none

/-- The pointers after some entries. -/
def SiteKeys.ofEntries (es : List (Sigma fun _ : SiteKey => Str)) : SiteKeys :=
  ⟨lastOf .hostname es, lastOf .root es, lastOf .logDir es⟩

theorem scanSiteLine_eq (es : List (Sigma fun _ : SiteKey => Str)) (buffer : Str) :
    scanSiteLine (.ofEntries es) buffer = .ofEntries (es ++ (hostEntry buffer).toList) := by
  unfold scanSiteLine hostEntry
  by_cases hcomment : buffer.head? = some '#'
  · simp [hcomment]
  rw [if_neg hcomment, if_neg hcomment]
  rcases strtok ['='] (cstr buffer) with ⟨_ | key, rest⟩
  · simp
  rcases hv : strtok ['\"'] rest with ⟨_ | value, rest'⟩
  · cases SiteKey.ofName key <;> simp [hv]
  simp only [hv, SiteKey.ofName]
  by_cases hhost : key = "hostname".toList
  · rw [if_pos hhost, if_pos hhost]
    simp [SiteKeys.ofEntries, lastOf_append, lastOf, valueFor]
  rw [if_neg hhost, if_neg hhost]
  by_cases hroot : key = "root".toList
  · rw [if_pos hroot, if_pos hroot]
    simp [SiteKeys.ofEntries, lastOf_append, lastOf, valueFor]
  rw [if_neg hroot, if_neg hroot]
  by_cases hlog : key = "log_dir".toList
  · rw [if_pos hlog, if_pos hlog]
    simp [SiteKeys.ofEntries, lastOf_append, lastOf, valueFor]
  · rw [if_neg hlog, if_neg hlog]
    exact congrArg SiteKeys.ofEntries (List.append_nil es).symm

/-- The line loop leaves the last values of the keys. -/
theorem scanSite_eq (content : Str) :
    scanSite content = .ofEntries ((fgetsAll 256 content).filterMap hostEntry) := by
  have hfold : ∀ (lines : List Str) (es : List (Sigma fun _ : SiteKey => Str)),
      lines.foldl scanSiteLine (.ofEntries es) = .ofEntries (es ++ lines.filterMap hostEntry) := by
    intro lines
    induction lines with
    | nil => simp
    | cons line lines ih =>
        intro es
        rw [List.foldl_cons, scanSiteLine_eq, ih, List.filterMap_cons, List.append_assoc]
        cases hostEntry line <;> rfl
  exact hfold _ []

/-! ## Files -/

/-- Keys with values between quotes.  A value is not empty as a C string. -/
def siteFormat : Format SiteKey where
  write k v := k.name ++ '=' :: '\"' :: (v ++ ['\"'])
  Ok _ v := cstr v ≠ [] ∧ '\"' ∉ v ∧ '\n' ∉ v
  no_lineFeed := by
    rintro k v ⟨-, -, hv⟩
    simpa [hv] using k.not_delim.2.2
  ne_nil k v := List.append_ne_nil_of_left_ne_nil k.name_ne_nil _

instance (k : SiteKey) (v : Str) : Decidable (siteFormat.Ok k v) :=
  inferInstanceAs (Decidable (cstr v ≠ [] ∧ '\"' ∉ v ∧ '\n' ∉ v))

/-- A value between quotes, as a C string. -/
theorem strtok_quoted {v : Str} (hne : cstr v ≠ []) (hv : '\"' ∉ v) (eol : Str) :
    (strtok ['\"'] (cstr ('\"' :: (v ++ '\"' :: eol)))).1 = some (cstr v) := by
  have hbytes : ∀ c ∈ cstr v, c ∉ ['\"'] := no_delim_iff.mpr fun hm => hv (mem_of_mem_cstr hm)
  rw [cstr_cons (by decide), strtok_skip_cons (by decide)]
  by_cases hnul : '\x00' ∈ v
  · rw [cstr_append_of_mem hnul, strtok_last hne hbytes]
  · rw [cstr_append hnul, cstr_cons (by decide)]
    rw [cstr_eq_self hnul] at hne hbytes ⊢
    rw [strtok_token hne hbytes (by decide)]

/-- A blank piece is one token, with nothing behind it. -/
theorem strtok_blank {s : Str} (hne : s ≠ []) (hs : ∀ c ∈ s, isSpace c = true) :
    strtok ['='] (cstr s) = (some s, []) := by
  have hno : ∀ {c}, isSpace c = false → c ∉ s := by
    intro c hc hm
    rw [hs c hm] at hc
    cases hc
  rw [cstr_eq_self (hno (by decide))]
  exact strtok_last hne (no_delim_iff.mpr (hno (by decide)))

/-- The first token of a setting is its key. -/
theorem strtok_setting (k : SiteKey) (v eol : Str) :
    strtok ['='] (cstr (siteFormat.write k v ++ eol)) =
      (some k.name, cstr ('\"' :: (v ++ '\"' :: eol))) := by
  have hdelim : ∀ c ∈ k.name, c ∉ ['='] := no_delim_iff.mpr k.not_delim.1
  have hassoc : siteFormat.write k v ++ eol = k.name ++ '=' :: ('\"' :: (v ++ '\"' :: eol)) := by
    simp [siteFormat]
  rw [hassoc, strtok_cstr k.name_ne_nil hdelim k.not_delim.2.1 (by decide) (by decide)]

/-- `get_vhost_config` reads the settings of a site file. -/
theorem reads_hostEntry :
    Reads siteFormat (fun b => (.ok (hostEntry b) : Except Fault _))
      (fun s => .ok (some ⟨s.1, cstr s.2⟩)) where
  comment _ := rfl
  blank s hne hs := by
    have hcomment : s.head? ≠ some '#' := by
      obtain ⟨c, r, rfl⟩ := List.exists_cons_of_ne_nil hne
      rintro ⟨⟩
      exact absurd (hs '#' List.mem_cons_self) (by decide)
    rw [hostEntry, if_neg hcomment, strtok_blank hne hs]
    cases h : SiteKey.ofName s <;> simp [h]
  setting := by
    rintro k v eol ⟨hne, hv, -⟩ -
    have hcomment : (siteFormat.write k v ++ eol).head? ≠ some '#' := by
      simpa [siteFormat] using k.head?_ne ('=' :: '\"' :: (v ++ '\"' :: eol))
    simp only [hostEntry, if_neg hcomment, strtok_setting, SiteKey.ofName_name,
      strtok_quoted hne hv]

/-- The last value of a key, as a C string. -/
def lastValue (k : SiteKey) (t : Text siteFormat) : Option Str :=
  lastOf k (t.settings.map fun s => (⟨s.1, cstr s.2⟩ : Sigma fun _ : SiteKey => Str))

/-- The line loop of `get_vhost_config` leaves the last values that were written. -/
theorem scanSite_content {t : Text siteFormat} (ht : t.Fits 256) :
    scanSite t.content = ⟨lastValue .hostname t, lastValue .root t, lastValue .logDir t⟩ := by
  have hread := reads_hostEntry.entries_content ht
  rw [entries_of_forall fun _ _ => rfl, entries_of_forall fun _ _ => rfl,
    ← Function.comp_def some, List.filterMap_eq_map] at hread
  rw [scanSite_eq, Except.ok.inj hread]
  rfl

end Pawnee
