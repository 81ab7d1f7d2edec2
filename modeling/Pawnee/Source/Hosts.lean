import Pawnee.Source.File

/-!
# Virtual hosts (`vhosts/hosts.c`, `config.c`)

Two readers of the same files.  `getVhostConfig` looks for the host of a request
in the sites directory.  `siteLine` is the site loop of `get_config_from_file`,
one line at a time: the member it copies to and the string it copies.

A vhost is found by its host name alone (`findSite`), and only then its three
strings are duplicated, so a file without a root or a log directory makes the
lookup use a NULL pointer.
-/

namespace Pawnee

open CText Effects

/-- `vhost_config`. -/
structure VhostConfig where
  hostname : CharBuffer
  root : CharBuffer
  logDir : CharBuffer
deriving DecidableEq, Repr

/-- The three pointers the line loop of `get_vhost_config` sets. -/
structure SiteKeys where
  hostname : Option Str
  root : Option Str
  logDir : Option Str
deriving DecidableEq, Repr

/-- The pointers before the first line. -/
def SiteKeys.null : SiteKeys := ⟨none, none, none⟩

/-- One line of a site file, as `get_vhost_config` reads it. -/
def scanSiteLine (keys : SiteKeys) (buffer : Str) : SiteKeys :=
  if buffer.head? = some '#' then keys
  else
    let (key, rest) := strtok ['='] (cstr buffer)
    let (value, _) := strtok ['\"'] rest
    match key, value with
    | some key, some value =>
        if key = "hostname".toList then { keys with hostname := some value }
        else if key = "root".toList then { keys with root := some value }
        else if key = "log_dir".toList then { keys with logDir := some value }
        else keys
    | _, _ => keys

/-- The line loop of `get_vhost_config`. -/
def scanSite (content : Str) : SiteKeys := (fgetsAll 256 content).foldl scanSiteLine .null

/-- The directory loop of `get_vhost_config`. -/
def findVhost (hostClean : Str) : List DirEntry → Server (Option VhostConfig)
  | [] => pure none
  | entry :: entries =>
      if !entry.isReg then findVhost hostClean entries
      else
        match entry.content with
        | none => findVhost hostClean entries
        | some content =>
            let keys := scanSite content
            if keys.hostname = some hostClean then do
              let hostname ← strdup keys.hostname
              let root ← strdup keys.root
              let logDir ← strdup keys.logDir
              pure (some ⟨hostname, root, logDir⟩)
            else findVhost hostClean entries

/-- `get_vhost_config`. -/
def getVhostConfig (env : Env) (request : HttpRequest) : Server (Option VhostConfig) := do
  let headers ← field request.headers
  let hostHeader ← getHeader headers "Host".toList
  match hostHeader with
  | none | some [] => do
      writeError "missing or empty Host header"
      pure none
  | some hostHeader =>
      let hostClean := strtokBuffer [':'] (hostHeader.take 255)
      match env.sites with
      | none => do
          writeError "cannot open sites directory"
          pure none
      | some entries => findVhost hostClean entries

/-! ## What the lookup finds -/

/-- The keys of the first readable site file of a host name. -/
def findSite (hostClean : Str) : List DirEntry → Option SiteKeys
  | [] => none
  | entry :: entries =>
      match entry with
      | ⟨true, some content⟩ =>
          if (scanSite content).hostname = some hostClean then some (scanSite content)
          else findSite hostClean entries
      | _ => findSite hostClean entries

/-- The site file a request selects. -/
def selectedSite (env : Env) (headers : List HttpHeader) : Option SiteKeys :=
  match lookupHeader headers "Host".toList with
  | none | some [] => none
  | some host =>
      match env.sites with
      | none => none
      | some entries => findSite (strtokBuffer [':'] (host.take 255)) entries

/-- The calls the lookup makes. -/
def lookupCalls (env : Env) (headers : List HttpHeader) : List Call :=
  match lookupHeader headers "Host".toList with
  | none | some [] => [.logError "missing or empty Host header".toList]
  | some _ =>
      match env.sites with
      | none => [.logError "cannot open sites directory".toList]
      | some _ => []

/-- The `vhost_config` made of the keys of a site file. -/
def vhostOf (keys : SiteKeys) : Server (Option VhostConfig) := do
  let hostname ← strdup keys.hostname
  let root ← strdup keys.root
  let logDir ← strdup keys.logDir
  pure (some ⟨hostname, root, logDir⟩)

theorem findVhost_eq (hostClean : Str) : ∀ entries : List DirEntry,
    findVhost hostClean entries =
      match findSite hostClean entries with
      | none => .ret none
      | some keys => vhostOf keys
  | [] => rfl
  | ⟨false, _⟩ :: entries => by
      simpa [findVhost, findSite] using findVhost_eq hostClean entries
  | ⟨true, none⟩ :: entries => by
      simpa [findVhost, findSite] using findVhost_eq hostClean entries
  | ⟨true, some content⟩ :: entries => by
      by_cases h : (scanSite content).hostname = some hostClean
      · simp only [findVhost, findSite, h, if_true, Bool.not_true]
        simp [vhostOf, h]
      · simpa [findVhost, findSite, h] using findVhost_eq hostClean entries

theorem getVhostConfig_eq (env : Env) {q : Request} {store : HttpHeaders}
    (hh : Holds store q.headers) :
    getVhostConfig env (q.filled store) =
      .doing (lookupCalls env q.headers)
        (match selectedSite env q.headers with
          | none => .ret none
          | some keys => vhostOf keys) := by
  simp only [getVhostConfig, Request.filled, field_some, Prog.ret_bind, getHeader_eq hh,
    lookupCalls, selectedSite]
  cases lookupHeader q.headers "Host".toList with
  | none => rfl
  | some host =>
      cases host with
      | nil => rfl
      | cons c host =>
          cases env.sites with
          | none => rfl
          | some entries => exact findVhost_eq _ entries

/-- The `vhost_config` of complete keys. -/
def SiteKeys.vhost : SiteKeys → Option VhostConfig
  | ⟨some hostname, some root, some logDir⟩ =>
      some ⟨⟨hostname, hostname.length + 1⟩, ⟨root, root.length + 1⟩, ⟨logDir, logDir.length + 1⟩⟩
  | _ => none

/-- A key that is missing is a NULL pointer given to `strdup`. -/
theorem vhostOf_eq (keys : SiteKeys) :
    vhostOf keys =
      match keys.vhost with
      | some vhost => .ret (some vhost)
      | none => fault .nullPointer := by
  obtain ⟨hostname, root, logDir⟩ := keys
  cases hostname <;> cases root <;> cases logDir <;> rfl

/-- How a lookup ends that finds a file with these keys, or none. -/
def lookupOutcome (keys : Option SiteKeys) : Except Halt (Option VhostConfig) :=
  match keys with
  | none => .ok none
  | some keys =>
      match keys.vhost with
      | some vhost => .ok (some vhost)
      | none => .error (.fault .nullPointer)

theorem lookupOutcome_eq_some_iff {keys : Option SiteKeys} {vhost : VhostConfig} :
    lookupOutcome keys = .ok (some vhost) ↔ ∃ k, keys = some k ∧ k.vhost = some vhost := by
  cases keys with
  | none => simp [lookupOutcome]
  | some k => cases hv : k.vhost <;> simp [lookupOutcome, hv]

/-- A lookup that has found its keys, or none, ends as they say. -/
theorem runs_vhostOf {keys : Option SiteKeys} {tr : List ServerEvent}
    {out : Except Halt (Option VhostConfig)}
    (h : Prog.Runs (match keys with
      | none => (.ret none : Server (Option VhostConfig))
      | some keys => vhostOf keys) tr out) :
    out = lookupOutcome keys := by
  cases keys with
  | none => exact (Prog.runs_ret_iff.mp h).2
  | some keys =>
      simp only [vhostOf_eq] at h
      cases hv : keys.vhost with
      | none =>
          rw [hv] at h
          simpa only [lookupOutcome, hv] using (Prog.runs_stop_iff.mp h).2
      | some vhost =>
          rw [hv] at h
          simpa only [lookupOutcome, hv] using (Prog.runs_ret_iff.mp h).2

theorem runs_findVhost {hostClean : Str} {entries : List DirEntry} {tr : List ServerEvent}
    {out : Except Halt (Option VhostConfig)} (h : Prog.Runs (findVhost hostClean entries) tr out) :
    out = lookupOutcome (findSite hostClean entries) :=
  runs_vhostOf (findVhost_eq hostClean entries ▸ h)

/-- Every run of the lookup ends as the keys say that the request selects. -/
theorem runs_getVhostConfig {env : Env} {q : Request} {store : HttpHeaders}
    (hh : Holds store q.headers) {tr : List ServerEvent} {out : Except Halt (Option VhostConfig)}
    (h : Prog.Runs (getVhostConfig env (q.filled store)) tr out) :
    out = lookupOutcome (selectedSite env q.headers) := by
  rw [getVhostConfig_eq env hh] at h
  obtain ⟨_, _, -, -, hrest⟩ := Prog.runs_doing_iff.mp h
  exact runs_vhostOf hrest

/-- A file without one of the keys has no `vhost_config`. -/
theorem vhost_eq_none {keys : SiteKeys} (h : keys.root = none ∨ keys.logDir = none) :
    keys.vhost = none := by
  obtain ⟨hostname, root, logDir⟩ := keys
  cases hostname <;> cases root <;> cases logDir <;> simp_all [SiteKeys.vhost]

/-- The keys are parts of one line buffer, and not empty. -/
structure SiteKeys.Bounded (keys : SiteKeys) : Prop where
  hostname : ∀ v, keys.hostname = some v → v ≠ [] ∧ v.length ≤ 255
  root : ∀ v, keys.root = some v → v ≠ [] ∧ v.length ≤ 255
  logDir : ∀ v, keys.logDir = some v → v ≠ [] ∧ v.length ≤ 255

theorem scanSiteLine_bounded {keys : SiteKeys} {buffer : Str} (hk : keys.Bounded)
    (hb : buffer.length ≤ 255) : (scanSiteLine keys buffer).Bounded := by
  simp only [scanSiteLine]
  split
  · exact hk
  · rcases h1 : strtok ['='] (cstr buffer) with ⟨_ | key, rest⟩
    · exact hk
    · rcases h2 : strtok ['\"'] rest with ⟨_ | value, rest'⟩
      · exact hk
      · have hvalue : ∀ v, some value = some v → v ≠ [] ∧ v.length ≤ 255 := by
          rintro v ⟨⟩
          have hv := (strtok_isInfix h2).length_le
          have hr := strtok_length_lt h1
          have hc := (cstr_sublist buffer).length_le
          exact ⟨(strtok_some h2).1, by omega⟩
        simp only
        split
        · exact { hk with hostname := hvalue }
        · split
          · exact { hk with root := hvalue }
          · split
            · exact { hk with logDir := hvalue }
            · exact hk

theorem foldl_scanSiteLine_bounded {lines : List Str} {keys : SiteKeys} (hk : keys.Bounded)
    (hl : ∀ l ∈ lines, l.length ≤ 255) : (lines.foldl scanSiteLine keys).Bounded := by
  induction lines generalizing keys with
  | nil => exact hk
  | cons l lines ih =>
      exact ih (scanSiteLine_bounded hk (hl l List.mem_cons_self))
        fun l' hl' => hl l' (List.mem_cons_of_mem _ hl')

theorem scanSite_bounded (content : Str) : (scanSite content).Bounded := by
  refine foldl_scanSiteLine_bounded ?_ fun l hl => length_le_of_mem_fgetsAll hl
  exact ⟨by simp [SiteKeys.null], by simp [SiteKeys.null], by simp [SiteKeys.null]⟩

theorem findSite_bounded {hostClean : Str} {keys : SiteKeys} : ∀ {entries : List DirEntry},
    findSite hostClean entries = some keys → keys.Bounded
  | [], h => by cases h
  | ⟨false, _⟩ :: entries, h => by
      have hrest : findSite hostClean entries = some keys := by simpa [findSite] using h
      exact findSite_bounded hrest
  | ⟨true, none⟩ :: entries, h => by
      have hrest : findSite hostClean entries = some keys := by simpa [findSite] using h
      exact findSite_bounded hrest
  | ⟨true, some content⟩ :: entries, h => by
      by_cases hc : (scanSite content).hostname = some hostClean
      · simp only [findSite, hc, if_true, Option.some.injEq] at h
        exact h ▸ scanSite_bounded content
      · have hrest : findSite hostClean entries = some keys := by simpa [findSite, hc] using h
        exact findSite_bounded hrest

theorem selectedSite_bounded {env : Env} {headers : List HttpHeader} {keys : SiteKeys}
    (h : selectedSite env headers = some keys) : keys.Bounded := by
  simp only [selectedSite] at h
  split at h
  · cases h
  · cases h
  · split at h
    · cases h
    · exact findSite_bounded h

/-- The root of a `vhost_config` is part of one line buffer, and not empty. -/
theorem vhost_root_bounded {keys : SiteKeys} {vhost : VhostConfig} (hb : keys.Bounded)
    (hv : keys.vhost = some vhost) : vhost.root.text ≠ [] ∧ vhost.root.text.length ≤ 255 := by
  obtain ⟨hostname, root, logDir⟩ := keys
  cases hostname <;> cases root <;> cases logDir <;> cases hv
  exact hb.root _ rfl

/-! ## The startup reader -/

/-- The members of the local `vhost` of `get_config_from_file` that are copied to. -/
inductive SiteField where
  | hostname
  | root
deriving DecidableEq, Repr

/-- `strtok(NULL, "=")` and then `strtok(token, "\"")`.  With a NULL token the
second call goes on behind the first one. -/
def unquote (rest : Str) : Option Str :=
  match strtok ['='] rest with
  | (some token, _) => (strtok ['\"'] token).1
  | (none, rest) => (strtok ['\"'] rest).1

/-- One line of a site file, as `get_config_from_file` reads it: the member and
the string it gives to `strcpy`. -/
def siteLine (buffer : Str) : Server (Option (SiteField × Str)) :=
  if buffer.head? = some '#' then pure none
  else do
    let (token, rest) := strtok ['='] (cstr buffer)
    let token ← pointee token
    if token = "hostname".toList then do
      let value ← pointee (unquote rest)
      pure (some (.hostname, value))
    else if token = "root".toList then do
      let value ← pointee (unquote rest)
      pure (some (.root, value))
    else pure none

/-- The line loop of `get_config_from_file` over a site file: the last strings
given to `strcpy` for each member.  The copies are in `vhostLoop`. -/
def siteLoop : List Str → Option Str × Option Str → Server (Option Str × Option Str)
  | [], taken => pure taken
  | line :: lines, (hostname, root) => do
      let copied ← siteLine line
      match copied with
      | some (.hostname, value) => siteLoop lines (some value, root)
      | some (.root, value) => siteLoop lines (hostname, some value)
      | none => siteLoop lines (hostname, root)

/-- The strings `get_config_from_file` copies from a site file. -/
def readSiteFile (content : Str) : Server (Option Str × Option Str) :=
  siteLoop (fgetsAll 255 content) (none, none)

end Pawnee
