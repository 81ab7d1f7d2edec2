import Pawnee.Child.Observed

/-!
# Two readers of one site file

`get_config_from_file` reads a site file at startup and `get_vhost_config` reads
it again for a request.  The first one knows the keys `hostname` and `root`.
The second one also needs `log_dir`, and duplicates the string of a missing key
all the same.

`SiteFile` is a file of comments, blank lines and the two keys both readers know.
The second reader finds it by its host name and never returns
(`not_returnsSite`), whatever the first reader has taken from it.
-/

namespace Pawnee

open CText Effects

/-! ## Site files -/

/-- A value between quotes. -/
structure SiteValue (v : Str) : Prop where
  ne_nil : v ≠ []
  no_quote : '\"' ∉ v
  no_lineFeed : '\n' ∉ v

/-- A line of a site file, without its line feed. -/
inductive SiteLine : Str → Prop
  | comment {s : Str} : '\n' ∉ s → SiteLine ('#' :: s)
  | blank {s : Str} : (∀ c ∈ s, c = ' ' ∨ c = '\t' ∨ c = '\r') → SiteLine s
  | hostname {v : Str} : SiteValue v → SiteLine ("hostname".toList ++ '=' :: '\"' :: v ++ ['\"'])
  | root {v : Str} : SiteValue v → SiteLine ("root".toList ++ '=' :: '\"' :: v ++ ['\"'])

theorem SiteLine.no_lineFeed {l : Str} (h : SiteLine l) : '\n' ∉ l := by
  cases h with
  | comment hs => simpa using hs
  | blank hs =>
      intro hm
      rcases hs _ hm with h | h | h <;> exact absurd h (by decide)
  | hostname hv => simpa using hv.no_lineFeed
  | root hv => simpa using hv.no_lineFeed

/-- A site file with the keys both readers know. -/
structure SiteFile where
  lines : List Str
  /-- What stands behind the last line feed. -/
  last : Str
  isLine : ∀ l ∈ lines, SiteLine l
  isLine_last : SiteLine last
  short : ∀ l ∈ lines, l.length < 255
  short_last : last.length < 255

/-- The bytes of a site file. -/
def SiteFile.content (file : SiteFile) : Str :=
  (file.lines.map (· ++ ['\n'])).flatten ++ file.last

/-- The lines `get_vhost_config` reads. -/
theorem SiteFile.fgetsAll_content (file : SiteFile) :
    fgetsAll 256 file.content =
      file.lines.map (· ++ ['\n']) ++ if file.last = [] then [] else [file.last] := by
  have hread := getlineAll_lines (fun l hl => (file.isLine l hl).no_lineFeed)
    file.isLine_last.no_lineFeed
  rw [SiteFile.content, fgetsAll_of_short (by decide), hread]
  intro l hl
  rw [hread] at hl
  rcases List.mem_append.mp hl with hl | hl
  · obtain ⟨l, hmem, rfl⟩ := List.mem_map.mp hl
    have hshort := file.short l hmem
    rw [List.length_append, List.length_singleton]
    omega
  · split at hl
    · cases hl
    · obtain rfl := List.mem_singleton.mp hl
      exact Nat.le_of_lt file.short_last

/-! ## The second reader -/

/-- A line of one of the first two keys leaves the third key alone. -/
theorem logDir_scanSiteLine_key {key rest : Str} (keys : SiteKeys)
    (hkey : key = "hostname".toList ∨ key = "root".toList) :
    (scanSiteLine keys (key ++ '=' :: rest)).logDir = keys.logDir := by
  have hcomment : (key ++ '=' :: rest).head? ≠ some '#' := by
    rcases hkey with rfl | rfl <;> simp
  have hcut : strtok ['='] (cstr (key ++ '=' :: rest)) = (some key, cstr rest) := by
    have hnul : '\x00' ∉ key := by rcases hkey with rfl | rfl <;> decide
    have hne : key ≠ [] := by rcases hkey with rfl | rfl <;> decide
    have hdelim : '=' ∉ key := by rcases hkey with rfl | rfl <;> decide
    exact strtok_cstr hne (no_delim_iff.mpr hdelim) hnul (by decide) (by decide) rest
  simp only [scanSiteLine, if_neg hcomment, hcut]
  rcases strtok ['\"'] (cstr rest) with ⟨_ | value, rest'⟩
  · rfl
  · rcases hkey with rfl | rfl
    · rfl
    · rfl

/-- A line without `=` and quote sets nothing. -/
theorem scanSiteLine_blank {l : Str} (keys : SiteKeys) (h : ∀ c ∈ l, c ∉ ['=']) :
    scanSiteLine keys l = keys := by
  unfold scanSiteLine
  split
  · rfl
  · have hcstr : ∀ c ∈ cstr l, c ∉ ['='] := fun c hc => h c ((cstr_sublist l).subset hc)
    by_cases hnil : cstr l = []
    · simp [hnil]
    · simp [strtok_last hnil hcstr]

theorem logDir_scanSiteLine {l eol : Str} (hl : SiteLine l) (heol : eol = [] ∨ eol = ['\n'])
    (keys : SiteKeys) : (scanSiteLine keys (l ++ eol)).logDir = keys.logDir := by
  cases hl with
  | comment hs => rfl
  | blank hs =>
      rw [scanSiteLine_blank]
      intro c hc
      rcases List.mem_append.mp hc with hc | hc
      · rcases hs c hc with rfl | rfl | rfl <;> decide
      · rcases heol with rfl | rfl
        · cases hc
        · rw [List.mem_singleton] at hc
          subst hc
          decide
  | hostname hv =>
      simpa only [List.append_assoc, List.cons_append] using
        logDir_scanSiteLine_key keys (.inl rfl)
  | root hv =>
      simpa only [List.append_assoc, List.cons_append] using
        logDir_scanSiteLine_key keys (.inr rfl)

/-- The second reader finds no log directory. -/
theorem SiteFile.logDir_scanSite (file : SiteFile) : (scanSite file.content).logDir = none := by
  have hfold : ∀ {lines : List Str} {keys : SiteKeys}, (∀ l ∈ lines, SiteLine l) →
      ((lines.map (· ++ ['\n'])).foldl scanSiteLine keys).logDir = keys.logDir := by
    intro lines
    induction lines with
    | nil => exact fun _ => rfl
    | cons l lines ih =>
        intro keys hl
        rw [List.map_cons, List.foldl_cons, ih fun x hx => hl x (List.mem_cons_of_mem _ hx)]
        exact logDir_scanSiteLine (hl l List.mem_cons_self) (.inr rfl) keys
  rw [scanSite, file.fgetsAll_content, List.foldl_append]
  split
  · exact hfold file.isLine
  · rw [List.foldl_cons, List.foldl_nil]
    have hlast := logDir_scanSiteLine file.isLine_last (.inl rfl)
    simp only [List.append_nil] at hlast
    rw [hlast, hfold file.isLine]
    rfl

/-! ## Both readers -/

/-- The request asks for the host `H` of a site file from which the first reader
takes `H` and `R`, and the file is the only one in the sites directory. -/
structure SiteRequest (content H R : Str) (env : Env) (q : Request) : Prop where
  taken : readSiteFile content = .ret (some H, some R)
  no_colon : ':' ∉ H
  host : lookupHeader q.headers "Host".toList = some H
  only : env.sites = some [⟨true, some content⟩]

/-- The second reader can return a `vhost_config` with these strings. -/
def ReturnsSite (env : Env) (request : HttpRequest) (H R : Str) : Prop :=
  ∃ tr vhost, Prog.Runs (getVhostConfig env request) tr (.ok (some vhost)) ∧
    vhost.hostname.text = H ∧ vhost.root.text = R

/-- The second reader never returns the site of a file without a log directory. -/
theorem not_returnsSite {file : SiteFile} {H R : Str} {env : Env} {q : Request}
    {store : HttpHeaders} (hreq : SiteRequest file.content H R env q) (hh : Holds store q.headers) :
    ¬ ReturnsSite env (q.filled store) H R := by
  rintro ⟨tr, vhost, hruns, -, -⟩
  obtain ⟨keys, hsite, hvhost⟩ :=
    lookupOutcome_eq_some_iff.mp (runs_getVhostConfig hh hruns).symm
  have hkeys : keys = scanSite file.content := by
    simp only [selectedSite, hreq.only] at hsite
    split at hsite
    · cases hsite
    · cases hsite
    · simp only [findSite] at hsite
      split at hsite
      · exact (Option.some.inj hsite).symm
      · cases hsite
  rw [vhost_eq_none (.inr (hkeys ▸ file.logDir_scanSite))] at hvhost
  cases hvhost

/-- A site file with the two keys. -/
def plainFile : SiteFile where
  lines := ["hostname=\"a\"".toList, "root=\"/w/\"".toList]
  last := []
  isLine := by
    intro l hl
    simp only [List.mem_cons, List.not_mem_nil, or_false] at hl
    rcases hl with rfl | rfl
    · exact .hostname (v := ['a']) ⟨by decide, by decide, by decide⟩
    · exact .root (v := ['/', 'w', '/']) ⟨by decide, by decide, by decide⟩
  isLine_last := .blank (by simp)
  short := by decide
  short_last := by decide

/-- A request for the host of `plainFile`. -/
def plainRequest : Request where
  method := .get
  major := 1
  minor := 1
  target := "/".toList
  headers := [⟨"Host".toList, "a".toList⟩]

/-- The machine with `plainFile` as its only site. -/
def plainMachine : Env :=
  { machine siteFile [] with sites := some [⟨true, some plainFile.content⟩] }

theorem plainRequest_taken : SiteRequest plainFile.content "a".toList "/w/".toList plainMachine
    plainRequest where
  taken := by rfl
  no_colon := by decide
  host := by decide
  only := rfl

theorem exists_holds_plainRequest : ∃ store, Holds store plainRequest.headers := by
  obtain ⟨store, -, hh⟩ := addHeader_holds holds_initHeaders "Host".toList "a".toList
  exact ⟨store, hh⟩

theorem not_returnsSite_plain :
    ∃ store, Holds store plainRequest.headers ∧
      ¬ ReturnsSite plainMachine (plainRequest.filled store) "a".toList "/w/".toList := by
  obtain ⟨store, hh⟩ := exists_holds_plainRequest
  exact ⟨store, hh, not_returnsSite plainRequest_taken hh⟩

/-- The two readers do not agree on `plainFile`. -/
theorem not_readersAgree :
    ¬ ∀ (file : SiteFile) (H R : Str) (env : Env) (q : Request) (store : HttpHeaders),
      SiteRequest file.content H R env q → Holds store q.headers →
        ReturnsSite env (q.filled store) H R := by
  intro hagree
  obtain ⟨store, hh⟩ := exists_holds_plainRequest
  obtain ⟨tr, vhost, hruns, -⟩ := hagree plainFile _ _ _ _ store plainRequest_taken hh
  have hsite : selectedSite plainMachine plainRequest.headers =
      some ⟨some "a".toList, some "/w/".toList, none⟩ := by decide +kernel
  have hout := runs_getVhostConfig hh hruns
  rw [hsite] at hout
  cases hout

end Pawnee
