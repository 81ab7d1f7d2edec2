import Pawnee.Child.Observed
import Pawnee.Loading.SiteFiles

/-!
# Virtual hosts of a request

`get_vhost_config` returns the strings of the first site file whose host name is
the part of the `Host` header before its first `:` (`firstSite`).  The directory
loop is a search in the list of what the files say, each file read on its own
(`findSite_eq`).

The header is cut to the 255 bytes of a buffer before it is compared.  A host
name from a line of 254 bytes is shorter than that, so the cut name matches no
file that the whole name does not match (`take_eq_iff`).
-/

namespace Pawnee

open CText Effects Entries

/-! ## Files and their vhosts -/

/-- A site file whose lines fit the buffer of `get_vhost_config` and which gives a
root and a log directory. -/
structure SiteText extends Text siteFormat where
  fits : toText.Fits 256
  gives_root : (lastValue .root toText).isSome
  gives_logDir : (lastValue .logDir toText).isSome

/-- The last root of a file. -/
def SiteText.root (t : SiteText) : Str := (lastValue .root t.toText).get t.gives_root

/-- The last log directory of a file. -/
def SiteText.logDir (t : SiteText) : Str := (lastValue .logDir t.toText).get t.gives_logDir

/-- The first file with a host name. -/
def firstText (host : Str) (files : List SiteText) : Option SiteText :=
  files.find? fun t => lastValue .hostname t.toText = some host

/-- The host name, root and log directory of the first file with a host name. -/
def firstSite (host : Str) (files : List SiteText) : Option (Str × Str × Str) :=
  (firstText host files).map fun t => (host, t.root, t.logDir)

/-- The strings of a `vhost_config`. -/
def VhostConfig.strings (vhost : VhostConfig) : Str × Str × Str :=
  (vhost.hostname.text, vhost.root.text, vhost.logDir.text)

/-- The contents of the regular files of a listing that can be opened. -/
def readableSites (entries : List DirEntry) : List Str :=
  entries.filterMap fun e => if e.isReg then e.content else none

/-- A written value is not empty, and shorter than its line. -/
theorem lastValue_bounded {k : SiteKey} {n : Nat} {t : Text siteFormat} (ht : t.Fits n) {v : Str}
    (h : lastValue k t = some v) : v ≠ [] ∧ k.name.length + v.length + 5 ≤ n := by
  obtain ⟨s, hs, heq⟩ := List.mem_map.mp (mem_of_lastOf h)
  cases heq
  have hlen := ht.setting hs
  have hcstr := (cstr_sublist s.2).length_le
  simp only [siteFormat, List.length_append, List.length_cons, List.length_nil] at hlen
  exact ⟨(Text.ok_of_mem_settings hs).1, by omega⟩

/-! ## The directory loop -/

/-- The directory loop reads every file on its own and takes the first that has
the host name. -/
theorem findSite_eq (host : Str) : ∀ entries : List DirEntry,
    findSite host entries =
      ((readableSites entries).map scanSite).find? fun keys => keys.hostname = some host
  | [] => rfl
  | ⟨false, _⟩ :: entries => by simpa [findSite, readableSites] using findSite_eq host entries
  | ⟨true, none⟩ :: entries => by simpa [findSite, readableSites] using findSite_eq host entries
  | ⟨true, some content⟩ :: entries => by
      have hrest := findSite_eq host entries
      simp only [readableSites] at hrest
      simp only [findSite, readableSites, List.filterMap_cons, if_true, List.map_cons,
        List.find?_cons, hrest]
      by_cases h : (scanSite content).hostname = some host <;> simp [h]

/-- The name that is looked for: the header up to its first `:`, at most 255 bytes
of it. -/
theorem strtokBuffer_host {h : Str} (hcolon : h.head? ≠ some ':') :
    strtokBuffer [':'] (h.take 255) = (h.takeWhile (· ≠ ':')).take 255 := by
  have hlead : ∀ s : Str, s.head? ≠ some ':' →
      s.takeWhile (· ∈ [':']) = [] ∧ s.dropWhile (· ∈ [':']) = s := by
    intro s hs
    cases s with
    | nil => exact ⟨rfl, rfl⟩
    | cons c s =>
        have hc : c ≠ ':' := fun heq => hs (by rw [heq]; rfl)
        simp [hc]
  have htake : (h.take 255).head? ≠ some ':' := by
    cases h with
    | nil => simp
    | cons c h => simpa using hcolon
  obtain ⟨h1, h2⟩ := hlead _ htake
  have hcut : (h.take 255).takeWhile (· ∉ [':']) = (h.takeWhile (· ≠ ':')).take 255 := by
    rw [List.take_takeWhile]
    simp
  rw [strtokBuffer, h1, h2, List.nil_append, hcut]

/-- A name that is shorter than the buffer is not the front of a longer one. -/
theorem take_eq_iff {s H : Str} {n : Nat} (hH : H.length < n) : s.take n = H ↔ s = H := by
  constructor
  · intro h
    have hlen := congrArg List.length h
    rw [List.length_take] at hlen
    rwa [List.take_of_length_le (by omega)] at h
  · rintro rfl
    exact List.take_of_length_le hH.le

/-- The keys of a file that gives a host name make a `vhost_config`. -/
theorem vhost_content (t : SiteText) {host : Str}
    (h : lastValue .hostname t.toText = some host) :
    ∃ vhost, (scanSite t.content).vhost = some vhost ∧
      vhost.strings = (host, t.root, t.logDir) := by
  have hroot : lastValue .root t.toText = some t.root := (Option.some_get t.gives_root).symm
  have hlog : lastValue .logDir t.toText = some t.logDir := (Option.some_get t.gives_logDir).symm
  rw [scanSite_content t.fits, h, hroot, hlog]
  exact ⟨_, rfl, rfl⟩

/-- The search for the cut name finds the first file of the whole name. -/
theorem findSite_files {files : List SiteText} {entries : List DirEntry}
    (hfiles : readableSites entries = files.map fun t => t.content) (name : Str) :
    findSite (name.take 255) entries =
      (firstText name files).map fun t => scanSite t.content := by
  have hcut : ∀ t : SiteText, (scanSite t.content).hostname = some (name.take 255) ↔
      lastValue .hostname t.toText = some name := by
    intro t
    rw [scanSite_content t.fits]
    cases hv : lastValue .hostname t.toText with
    | none => simp
    | some H =>
        have hlen := (lastValue_bounded t.fits hv).2
        have hH : H.length < 255 := by omega
        rw [Option.some_inj, Option.some_inj, eq_comm, take_eq_iff hH, eq_comm]
  have hsame : (fun keys : SiteKeys => decide (keys.hostname = some (name.take 255))) ∘
      (scanSite ∘ fun t : SiteText => t.content) =
      fun t => decide (lastValue .hostname t.toText = some name) :=
    funext fun t => decide_eq_decide.mpr (hcut t)
  rw [findSite_eq, hfiles, List.map_map, List.find?_map, hsame]
  rfl

/-! ## `get_vhost_config` -/

/-- `get_vhost_config` returns the strings of the first file with the host name. -/
theorem getVhostConfig_firstSite {env : Env} {q : Request} {store : HttpHeaders} {h : Str}
    {entries : List DirEntry} {files : List SiteText} (hh : Holds store q.headers)
    (hhost : lookupHeader q.headers "Host".toList = some h) (hcolon : h.head? ≠ some ':')
    (hsites : env.sites = some entries)
    (hfiles : readableSites entries = files.map fun t => t.content) {tr : List ServerEvent}
    {out : Except Halt (Option VhostConfig)}
    (hruns : Prog.Runs (getVhostConfig env (q.filled store)) tr out) :
    ∃ vhost, out = .ok vhost ∧
      vhost.map VhostConfig.strings = firstSite (h.takeWhile (· ≠ ':')) files := by
  have hselected : selectedSite env q.headers =
      (firstText (h.takeWhile (· ≠ ':')) files).map fun t => scanSite t.content := by
    cases h with
    | nil =>
        have hempty : firstText [] files = none := by
          refine List.find?_eq_none.mpr fun t _ ht => ?_
          exact (lastValue_bounded t.fits (of_decide_eq_true ht)).1 rfl
        rw [List.takeWhile_nil, hempty]
        simp only [selectedSite, hhost]
        rfl
    | cons c h =>
        simp only [selectedSite, hhost, hsites, strtokBuffer_host hcolon]
        exact findSite_files hfiles _
  have hout := runs_getVhostConfig hh hruns
  rw [hselected] at hout
  cases hfind : firstText (h.takeWhile (· ≠ ':')) files with
  | none =>
      rw [hfind] at hout
      exact ⟨none, hout, by rw [firstSite, hfind]; rfl⟩
  | some t =>
      have hname := List.find?_some hfind
      obtain ⟨vhost, hvhost, hstrings⟩ := vhost_content t (of_decide_eq_true hname)
      rw [hfind] at hout
      refine ⟨some vhost, hout.trans (lookupOutcome_eq_some_iff.mpr ⟨_, rfl, hvhost⟩), ?_⟩
      rw [firstSite, hfind, Option.map_some, Option.map_some, hstrings]

/-- A site file that gives its host name twice. -/
def renamedSite : SiteText where
  lines := [.comment " a site".toList, .setting .hostname "b".toList, .setting .root "/w/".toList,
    .blank [], .setting .logDir "/l/".toList]
  last := .setting .hostname "a".toList
  ok := by decide
  ok_last := by decide
  fits := by decide
  gives_root := by decide
  gives_logDir := by decide

/-- The machine with `renamedSite` as its only site file. -/
def renamedMachine : Env :=
  { machine siteFile [] with sites := some [⟨false, none⟩, ⟨true, some renamedSite.content⟩] }

/-- A request with a port in its `Host` header. -/
def portRequest : Request := ⟨.get, 1, 1, "/".toList, [⟨"Host".toList, "a:80".toList⟩]⟩

theorem getVhostConfig_firstSite_port :
    ∃ store, Holds store portRequest.headers ∧ ∃ vhost,
      (Prog.play kindAnswer (getVhostConfig renamedMachine (portRequest.filled store))).2 =
        .ok vhost ∧
      vhost.map VhostConfig.strings = some ("a".toList, "/w/".toList, "/l/".toList) := by
  obtain ⟨store, -, hh⟩ := addHeader_holds holds_initHeaders "Host".toList "a:80".toList
  have hcut : "a:80".toList.takeWhile (· ≠ ':') = "a".toList := by decide
  have hfirst : firstSite "a".toList [renamedSite] =
      some ("a".toList, "/w/".toList, "/l/".toList) := by decide
  refine ⟨store, hh, ?_⟩
  rw [← hfirst, ← hcut]
  refine getVhostConfig_firstSite (q := portRequest) hh ?_ ?_ rfl ?_ (Prog.play_runs kindAnswer _)
  · decide
  · decide
  · rfl

end Pawnee
