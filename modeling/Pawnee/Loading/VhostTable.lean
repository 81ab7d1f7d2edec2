import Pawnee.Loading.SiteFiles

/-!
# The table of virtual hosts

`get_config_from_file` makes an entry of the table for every regular file of the
sites directory.  The entry is a struct of pointers, built in a local variable
that is not initialised, and `strcpy` writes through its pointers.  So the first
file with a host name or a root ends the process (`vhostLoop_unset`), and the table
is filled as it should be exactly if there is no file to fill it from.

`VhostsLoaded` is what the table should be: the strings of every file, in blocks of
their own.
-/

namespace Pawnee

open CText Effects Entries

/-! ## The table as it should be -/

/-- A site file with one host name and one root. -/
structure VhostFile extends Text siteFormat where
  hostname : Str
  root : Str
  one_hostname : toText.settings.filter (·.1 = .hostname) = [(.hostname, hostname)]
  one_root : toText.settings.filter (·.1 = .root) = [(.root, root)]
  no_equals : '=' ∉ hostname ∧ '=' ∉ root

/-- The pointers of the entries of the table. -/
def ServerConfig.pointers (config : ServerConfig) : List (Option Nat) :=
  (List.range config.vhostCount).flatMap fun i =>
    [(config.vhosts i).hostname, (config.vhosts i).root]

/-- The string a pointer points to. -/
def Startup.string (s : Startup) (pointer : Option Nat) : Option Str := pointer.map s.memory

/-- The table holds the strings of the files, in blocks of their own. -/
structure VhostsLoaded (files : List VhostFile) (s : Startup) : Prop where
  count : s.config.vhostCount = files.length
  hostname : ∀ i (hi : i < files.length),
    s.string (s.config.vhosts i).hostname = some (cstr files[i].hostname)
  root : ∀ i (hi : i < files.length),
    s.string (s.config.vhosts i).root = some (cstr files[i].root)
  own : s.config.pointers.Nodup

/-- `get_config_from_file` fills the table from at most 100 files, and with more
it fails and writes nothing behind the table. -/
def FillsTable (config : ConfigFiles) (files : List VhostFile) (s : Startup) : Prop :=
  ∀ {tr : List ServerEvent} {out : Except Halt (Int × Startup)},
    Prog.Runs (getConfigFromFile config s) tr out → ∃ status s', out = .ok (status, s') ∧
      if files.length ≤ maxVhosts then status = 0 ∧ VhostsLoaded files s'
      else status = 1 ∧ ∀ i, maxVhosts ≤ i → s'.config.vhosts i = s.config.vhosts i

/-- The regular files of a listing. -/
def regularSites (entries : List DirEntry) : List (Option Str) :=
  (entries.filter DirEntry.isReg).map DirEntry.content

/-! ## What the loops do -/

/-- A line that starts with a host name is not read as nothing. -/
theorem siteEntry_hostname (rest : Str) :
    siteEntry ("hostname".toList ++ '=' :: rest) ≠ .ok none := by
  have hcomment : ("hostname".toList ++ '=' :: rest).head? ≠ some '#' := by simp
  have hcut : strtok ['='] (cstr ("hostname".toList ++ '=' :: rest)) =
      (some "hostname".toList, cstr rest) :=
    strtok_cstr (by decide) (no_delim_iff.mpr (by decide)) (by decide) (by decide) (by decide) rest
  have hname : SiteField.ofName "hostname".toList = some .hostname := by decide
  simp only [siteEntry, keyedLine, if_neg hcomment, hcut, hname]
  cases unquote (cstr rest) <;> simp

/-- The loop over a file with a host name does not get to its end. -/
theorem vhostLoop_hostname {t : Text siteFormat} {v : Str} (h : (.hostname, v) ∈ t.settings)
    (memory : Nat → Str) :
    ∃ f, vhostLoop .unset (fgetsAll 255 t.content) memory = fault f := by
  rcases vhostLoop_unset (fgetsAll 255 t.content) memory with ⟨hnil, -⟩ | hfault
  · exfalso
    obtain ⟨eol, hline⟩ := Text.exists_line_of_mem_settings h
    have hne : siteFormat.write .hostname v ++ eol ≠ [] :=
      List.append_ne_nil_of_left_ne_nil (siteFormat.ne_nil _ _) _
    -- the first block of the line starts with the key
    have hblock : (siteFormat.write .hostname v ++ eol).take (255 - 1) ∈
        freadAll (255 - 1) (siteFormat.write .hostname v ++ eol) := by
      rw [freadAll_cons (by decide) hne]
      exact List.mem_cons_self
    have hpiece : (siteFormat.write .hostname v ++ eol).take (255 - 1) ∈
        fgetsAll 255 t.content := by
      rw [fgetsAll_eq (by decide)]
      exact List.mem_flatMap.mpr ⟨_, hline, hblock⟩
    have hstart : (siteFormat.write .hostname v ++ eol).take (255 - 1) =
        "hostname".toList ++ '=' :: ('\"' :: (v ++ ['\"']) ++ eol).take 245 := rfl
    exact siteEntry_hostname _ (hstart ▸ entries_eq_nil_iff.mp hnil _ hpiece)
  · exact hfault

/-- The directory loop starts with the first regular file. -/
theorem loadSites_regular {content : Str} {rest : List (Option Str)} : ∀ {entries : List DirEntry}
    {s : Startup}, regularSites entries = some content :: rest →
    ∃ k, loadSites entries s = vhostLoop .unset (fgetsAll 255 content) s.memory >>= k
  | [], _, h => by cases h
  | ⟨false, c⟩ :: entries, s, h => by
      have hrest : regularSites entries = some content :: rest := by simpa [regularSites] using h
      have ih := loadSites_regular (s := s) hrest
      exact ih
  | ⟨true, c⟩ :: entries, s, h => by
      have hc : c = some content := by
        simp only [regularSites, List.filter_cons, if_true, List.map_cons, List.cons.injEq] at h
        exact h.1
      subst hc
      exact ⟨_, rfl⟩

/-- Without a regular file the table stays empty. -/
theorem loadSites_nil : ∀ {entries : List DirEntry} {s : Startup}, regularSites entries = [] →
    loadSites entries s = .ret (0, s)
  | [], _, _ => rfl
  | ⟨false, c⟩ :: entries, s, h => by
      have hrest : regularSites entries = [] := by simpa [regularSites] using h
      have ih := loadSites_nil (s := s) hrest
      exact ih
  | ⟨true, c⟩ :: entries, s, h => by simp [regularSites] at h

/-! ## When the table is filled -/

section

variable {config : ConfigFiles} {cfg : Str} {listing : List DirEntry} {files : List VhostFile}
  {s : Startup}

/-- The table is filled from a sites directory exactly if there is no site file. -/
theorem fillsTable_iff (hcfg : config.serverCfg = some cfg)
    (hloads : ∃ es, entries configEntry (fgetsAll 255 cfg) = .ok es)
    (hlisting : config.sites = some listing)
    (hfiles : regularSites listing = files.map fun t => some t.content) :
    FillsTable config files s ↔ files = [] := by
  obtain ⟨es, hes⟩ := hloads
  have hstart : getConfigFromFile config s = loadSites listing
      { s with config := { s.config with
        toSettings := Settings.record.setAll s.config.toSettings es, vhostCount := 0 } } := by
    simp only [getConfigFromFile, hcfg, hlisting, configLoop_eq, hes, Except.map, orFault_ok,
      Prog.ret_bind]
  constructor
  · intro h
    by_contra hne
    obtain ⟨t, rest, rfl⟩ := List.exists_cons_of_ne_nil hne
    have hhost : (.hostname, t.hostname) ∈ t.toText.settings :=
      List.mem_of_mem_filter (t.one_hostname ▸ List.mem_singleton_self _)
    obtain ⟨k, hk⟩ := loadSites_regular hfiles
    obtain ⟨f, hf⟩ := vhostLoop_hostname hhost s.memory
    have hfault : getConfigFromFile config s = fault f := by
      rw [hstart, hk]
      exact congrArg (· >>= k) hf
    have hruns : Prog.Runs (getConfigFromFile config s) [] (.error (.fault f)) := by
      rw [hfault]
      exact .stop _
    obtain ⟨status, s', hout, -⟩ := h hruns
    cases hout
  · rintro rfl tr out hruns
    rw [hstart, loadSites_nil hfiles] at hruns
    obtain ⟨-, rfl⟩ := Prog.runs_ret_iff.mp hruns
    refine ⟨0, _, rfl, ?_⟩
    rw [if_pos (show ([] : List VhostFile).length ≤ maxVhosts from Nat.zero_le _)]
    exact ⟨rfl, rfl, fun i hi => absurd hi (Nat.not_lt_zero i),
      fun i hi => absurd hi (Nat.not_lt_zero i), List.nodup_nil⟩

end

/-- A site file with the two keys. -/
def plainVhost : VhostFile where
  lines := [.setting .hostname "a".toList, .setting .root "/w/".toList]
  last := .blank []
  ok := by decide
  ok_last := by decide
  hostname := "a".toList
  root := "/w/".toList
  one_hostname := by decide
  one_root := by decide
  no_equals := by decide

/-- The directory with `plainVhost` as its only site. -/
def plainDirectory : ConfigFiles := ⟨some [], some [⟨true, some plainVhost.content⟩]⟩

/-- The process before anything is loaded. -/
def Startup.initial : Startup := ⟨⟨.default, fun _ => .unset, 0⟩, fun _ => [], []⟩

theorem fillsTable_iff_plain :
    FillsTable plainDirectory [plainVhost] .initial ↔ [plainVhost] = [] :=
  fillsTable_iff rfl ⟨[], rfl⟩ rfl rfl

/-- The table is not filled from one file. -/
theorem not_fillsTable_plain :
    regularSites [⟨true, some plainVhost.content⟩] = [plainVhost].map (fun t => some t.content) ∧
      ¬ FillsTable plainDirectory [plainVhost] .initial := by
  refine ⟨rfl, fun h => ?_⟩
  have hfault : getConfigFromFile plainDirectory .initial = fault .unsetField := rfl
  have hruns : Prog.Runs (getConfigFromFile plainDirectory .initial) []
      (.error (.fault .unsetField)) := by
    rw [hfault]
    exact .stop _
  obtain ⟨status, s', hout, -⟩ := h hruns
  cases hout

end Pawnee
