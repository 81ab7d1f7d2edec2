import Pawnee.Source.Hosts
import Pawnee.Foundation.Entries

/-!
# The configuration (`config.c`)

`getConfigFromFile` reads `server.cfg` line by line (`configLoop`), then every
site file (`vhostLoop`), and adds one entry to the table of virtual hosts for
each of them.  A line is cut in place by `strtok`, and its tokens are used without
a test for NULL.

An entry of the table is a `vhost_config`, a struct of pointers.  The entry of a
site file is built in the local `vhost`, whose pointers nothing assigns
(`VhostPointers.unset`), and `strcpy` writes through them.

Both loops find at most one entry in what one `fgets` has read (`keyedLine`), and
what they leave is made of the entries of all pieces (`configLoop_eq`,
`siteLoop_eq`).
-/

namespace Pawnee

open CText Effects Entries

/-! ## Data -/

/-- The members of `server_config` that `server.cfg` sets. -/
structure Settings where
  port : Int
  listenAddr : Str
  mimesFile : Str
  logDir : Str
deriving DecidableEq, Repr

/-- `vhost_config` as a struct of pointers, `none` for one that nothing has
assigned. -/
structure VhostPointers where
  hostname : Option Nat
  root : Option Nat
  logDir : Option Nat
deriving DecidableEq, Repr

/-- A local `vhost_config` before any assignment. -/
def VhostPointers.unset : VhostPointers := ⟨none, none, none⟩

/-- `server_config`. -/
structure ServerConfig extends Settings where
  vhosts : Nat → VhostPointers
  vhostCount : Nat

/-- `MAX_VHOSTS`. -/
def maxVhosts : Nat := 100

/-- The process that loads the configuration. -/
structure Startup where
  config : ServerConfig
  /-- The strings in the blocks that pointers point to. -/
  memory : Nat → Str
  /-- What `perror` and `fprintf(stderr, ..)` were given. -/
  stderr : List Str

/-- `perror(message)` or `fprintf(stderr, message)`. -/
def Startup.report (s : Startup) (message : String) : Startup :=
  { s with stderr := s.stderr ++ [message.toList] }

/-- The files of the directory `config`. -/
structure ConfigFiles where
  /-- The content of `server.cfg`, `none` if `fopen` fails. -/
  serverCfg : Option Str
  /-- The entries `readdir` gives for the sites directory, `none` if `opendir` fails. -/
  sites : Option (List DirEntry)

/-! ## `get_config_from_file` -/

/-- `atoi`. -/
def atoi (s : Str) : Int :=
  match scanInt s with
  | some (i, _) => i
  | none => 0

/-- One line of `server.cfg`. -/
def configLine (config : Settings) (buffer : Str) : Server Settings :=
  if buffer.head? = some '#' then pure config
  else do
    let (token, rest) := strtok ['='] (cstr buffer)
    let token ← pointee token
    if token = "port".toList then do
      let value ← pointee (strtok ['='] rest).1
      pure { config with port := atoi value }
    else if token = "listen_addr".toList then do
      let value ← pointee (unquote rest)
      pure { config with listenAddr := value }
    else if token = "mimes_file".toList then do
      let value ← pointee (unquote rest)
      pure { config with mimesFile := value }
    else if token = "logs_dir".toList then do
      let value ← pointee (unquote rest)
      pure { config with logDir := value }
    else pure config

/-- The line loop over `server.cfg`. -/
def configLoop : List Str → Settings → Server Settings
  | [], config => pure config
  | line :: lines, config => do
      let config ← configLine config line
      configLoop lines config

/-- `strcpy(dest, src)`. -/
def strcpy (memory : Nat → Str) (dest : Option Nat) (src : Str) : Server (Nat → Str) := do
  let dest ← field dest
  pure (Function.update memory dest src)

/-- The line loop over a site file. -/
def vhostLoop (vhost : VhostPointers) : List Str → (Nat → Str) → Server (Nat → Str)
  | [], memory => pure memory
  | line :: lines, memory => do
      let copied ← siteLine line
      let memory ←
        match copied with
        | some (.hostname, value) => strcpy memory vhost.hostname value
        | some (.root, value) => strcpy memory vhost.root value
        | none => pure memory
      vhostLoop vhost lines memory

/-- `config.vhosts[config.vhost_count++] = vhost`. -/
def ServerConfig.addVhost (config : ServerConfig) (vhost : VhostPointers) : ServerConfig :=
  { config with
    vhosts := Function.update config.vhosts config.vhostCount vhost
    vhostCount := config.vhostCount + 1 }

/-- The directory loop. -/
def loadSites : List DirEntry → Startup → Server (Int × Startup)
  | [], s => pure (0, s)
  | entry :: entries, s =>
      if !entry.isReg then loadSites entries s
      else
        match entry.content with
        | none => pure (1, s.report "open vhost config file error")
        | some content => do
            let vhost := VhostPointers.unset
            let memory ← vhostLoop vhost (fgetsAll 255 content) s.memory
            let s := { s with memory }
            if s.config.vhostCount < maxVhosts then
              loadSites entries { s with config := s.config.addVhost vhost }
            else pure (1, s.report "Maximum number of vhosts reached\n")

/-- `get_config_from_file`: its result, and the process as it leaves it. -/
def getConfigFromFile (files : ConfigFiles) (s : Startup) : Server (Int × Startup) :=
  match files.serverCfg with
  | none => pure (1, s.report "open config file error")
  | some content => do
      let settings ← configLoop (fgetsAll 255 content) s.config.toSettings
      let s := { s with config := { s.config with toSettings := settings } }
      match files.sites with
      | none => pure (1, s.report "open sites directory error")
      | some entries => loadSites entries { s with config := { s.config with vhostCount := 0 } }

/-! ## `init_config` -/

/-- The settings before `server.cfg` is read. -/
def Settings.default : Settings where
  port := 8080
  listenAddr := "127.0.0.1".toList
  mimesFile := "/types.txt".toList
  logDir := "/logs/".toList

/-- `init_config`: its result, the process, and the configuration in shared
memory.  `mapped` is whether `mmap` succeeds, `appPath` is `get_app_path()`. -/
def initConfig (mapped : Bool) (appPath : Str) (files : ConfigFiles) (s : Startup) :
    Server (Int × Startup × Option ServerConfig) :=
  if !mapped then pure (1, s.report "config shared memory error", none)
  else do
    let s := { s with config := { s.config with toSettings := .default } }
    let vhost := VhostPointers.unset
    let memory ← strcpy s.memory vhost.hostname "localhost".toList
    let memory ← strcpy memory vhost.root appPath
    let config := { s.config with
      vhosts := Function.update s.config.vhosts 0 vhost
      vhostCount := 1 }
    let (status, s) ← getConfigFromFile files { s with config, memory }
    if status ≠ 0 then pure (1, s.report "file config loading error", none)
    else pure (0, s, some s.config)

/-- The entry for `localhost` is copied to where a pointer nothing has assigned
points. -/
theorem initConfig_mapped (appPath : Str) (files : ConfigFiles) (s : Startup) :
    initConfig true appPath files s = fault .unsetField := rfl

/-! ## Keys -/

/-- The keys of `server.cfg`. -/
inductive ConfigKey where
  | port
  | listenAddr
  | mimesFile
  | logsDir
deriving DecidableEq, Repr

/-- The key as it is written. -/
def ConfigKey.name : ConfigKey → Str
  | .port => "port".toList
  | .listenAddr => "listen_addr".toList
  | .mimesFile => "mimes_file".toList
  | .logsDir => "logs_dir".toList

/-- The key with a name. -/
def ConfigKey.ofName (token : Str) : Option ConfigKey :=
  if token = "port".toList then some .port
  else if token = "listen_addr".toList then some .listenAddr
  else if token = "mimes_file".toList then some .mimesFile
  else if token = "logs_dir".toList then some .logsDir
  else none

/-- The type of the member of a key. -/
abbrev ConfigKey.Value : ConfigKey → Type
  | .port => Int
  | .listenAddr | .mimesFile | .logsDir => Str

/-- The value in the text behind a key. -/
def ConfigKey.read : (k : ConfigKey) → Str → Option k.Value
  | .port => fun rest => (strtok ['='] rest).1.map atoi
  | .listenAddr | .mimesFile | .logsDir => unquote

/-- `Settings` as a record. -/
def Settings.record : Record ConfigKey.Value Settings where
  get s
    | .port => s.port
    | .listenAddr => s.listenAddr
    | .mimesFile => s.mimesFile
    | .logsDir => s.logDir
  set s
    | ⟨.port, v⟩ => { s with port := v }
    | ⟨.listenAddr, v⟩ => { s with listenAddr := v }
    | ⟨.mimesFile, v⟩ => { s with mimesFile := v }
    | ⟨.logsDir, v⟩ => { s with logDir := v }
  get_set s e := by
    obtain ⟨k, v⟩ := e
    funext k'
    cases k <;> cases k' <;> rfl
  ext s s' h := by
    obtain ⟨port, listenAddr, mimesFile, logDir⟩ := s
    cases congrFun h .port
    cases congrFun h .listenAddr
    cases congrFun h .mimesFile
    cases congrFun h .logsDir
    rfl

/-- The member a startup name stands for. -/
def SiteField.ofName (token : Str) : Option SiteField :=
  if token = "hostname".toList then some .hostname
  else if token = "root".toList then some .root
  else none

/-! ## The loops as their entries -/

/-- What a loop of `get_config_from_file` finds in what one `fgets` has read.
A token that is missing is a NULL pointer given to `strcmp`, `atoi` or `strcpy`. -/
def keyedLine {K : Type} {V : K → Type} (ofName : Str → Option K)
    (read : (k : K) → Str → Option (V k)) (buffer : Str) : Except Fault (Option (Sigma V)) :=
  if buffer.head? = some '#' then .ok none
  else
    match strtok ['='] (cstr buffer) with
    | (none, _) => .error .nullPointer
    | (some token, rest) =>
        match ofName token with
        | none => .ok none
        | some k =>
            match read k rest with
            | none => .error .nullPointer
            | some v => .ok (some ⟨k, v⟩)

/-- What the loop over `server.cfg` finds. -/
def configEntry : Str → Except Fault (Option (Sigma ConfigKey.Value)) :=
  keyedLine ConfigKey.ofName ConfigKey.read

/-- What the loop over a site file finds. -/
def siteEntry : Str → Except Fault (Option (Sigma fun _ : SiteField => Str)) :=
  keyedLine SiteField.ofName fun _ => unquote

theorem configLine_eq (config : Settings) (buffer : Str) :
    configLine config buffer =
      orFault ((configEntry buffer).map fun e => Settings.record.setAll config e.toList) := by
  unfold configLine configEntry keyedLine
  by_cases hcomment : buffer.head? = some '#'
  · simp [hcomment, Except.map]
  · rw [if_neg hcomment, if_neg hcomment]
    rcases strtok ['='] (cstr buffer) with ⟨_ | token, rest⟩
    · rfl
    · simp only [pointee_some, Prog.ret_bind, ConfigKey.ofName]
      by_cases hport : token = "port".toList
      · rw [if_pos hport, if_pos hport]
        rcases h : (strtok ['='] rest).1 with _ | value <;> simp [ConfigKey.read, h] <;> rfl
      rw [if_neg hport, if_neg hport]
      by_cases haddr : token = "listen_addr".toList
      · rw [if_pos haddr, if_pos haddr]
        rcases h : unquote rest with _ | value <;> simp [ConfigKey.read, h] <;> rfl
      rw [if_neg haddr, if_neg haddr]
      by_cases hmimes : token = "mimes_file".toList
      · rw [if_pos hmimes, if_pos hmimes]
        rcases h : unquote rest with _ | value <;> simp [ConfigKey.read, h] <;> rfl
      rw [if_neg hmimes, if_neg hmimes]
      by_cases hlogs : token = "logs_dir".toList
      · rw [if_pos hlogs, if_pos hlogs]
        rcases h : unquote rest with _ | value <;> simp [ConfigKey.read, h] <;> rfl
      · rw [if_neg hlogs, if_neg hlogs]
        rfl

/-- The loop over `server.cfg` sets the entries it finds, one after the other. -/
theorem configLoop_eq : ∀ (lines : List Str) (config : Settings),
    configLoop lines config =
      orFault ((entries configEntry lines).map (Settings.record.setAll config))
  | [], _ => rfl
  | line :: lines, config => by
      rw [configLoop, configLine_eq]
      cases hline : configEntry line with
      | error x => simp [entries_cons_error hline, Except.map]
      | ok e =>
          rw [entries_cons_ok hline]
          simp only [Except.map, orFault_ok, Prog.ret_bind, configLoop_eq lines]
          cases entries configEntry lines with
          | error x => rfl
          | ok es => simp only [Settings.record.setAll_append]

theorem siteLine_eq (buffer : Str) :
    siteLine buffer =
      orFault ((siteEntry buffer).map (Option.map fun e => (e.1, e.2))) := by
  unfold siteLine siteEntry keyedLine
  by_cases hcomment : buffer.head? = some '#'
  · simp [hcomment, Except.map]
  · rw [if_neg hcomment, if_neg hcomment]
    rcases strtok ['='] (cstr buffer) with ⟨_ | token, rest⟩
    · rfl
    · simp only [pointee_some, Prog.ret_bind, SiteField.ofName]
      by_cases hhost : token = "hostname".toList
      · rw [if_pos hhost, if_pos hhost]
        cases unquote rest <;> simp <;> rfl
      rw [if_neg hhost, if_neg hhost]
      by_cases hroot : token = "root".toList
      · rw [if_pos hroot, if_pos hroot]
        cases unquote rest <;> simp <;> rfl
      · rw [if_neg hroot, if_neg hroot]
        rfl

/-- The last strings the loop over a site file gives to `strcpy`. -/
theorem siteLoop_eq : ∀ (lines : List Str) (taken : Option Str × Option Str),
    siteLoop lines taken = orFault ((entries siteEntry lines).map fun es =>
      ((lastOf .hostname es).or taken.1, (lastOf .root es).or taken.2))
  | [], _ => rfl
  | line :: lines, (hostname, root) => by
      rw [siteLoop, siteLine_eq]
      cases hline : siteEntry line with
      | error x => simp [entries_cons_error hline, Except.map]
      | ok e =>
          rw [entries_cons_ok hline]
          cases hlines : entries siteEntry lines with
          | error x =>
              rcases e with _ | ⟨_ | _, value⟩ <;> simp [siteLoop_eq lines, hlines, Except.map]
          | ok es =>
              rcases e with _ | ⟨_ | _, value⟩ <;>
                simp [siteLoop_eq lines, hlines, Except.map, lastOf, valueFor]

/-- The loop over a site file finds no key and copies nothing, or does not get to
its end, because the pointers of the members are not assigned. -/
theorem vhostLoop_unset (lines : List Str) (memory : Nat → Str) :
    (entries siteEntry lines = .ok [] ∧ vhostLoop .unset lines memory = .ret memory) ∨
      ∃ f, vhostLoop .unset lines memory = fault f := by
  induction lines with
  | nil => exact .inl ⟨rfl, rfl⟩
  | cons line lines ih =>
      rw [vhostLoop, siteLine_eq]
      cases hline : siteEntry line with
      | error f => exact .inr ⟨f, rfl⟩
      | ok e =>
          rcases e with _ | ⟨_ | _, value⟩
          · rcases ih with ⟨hnil, hret⟩ | ⟨f, hfault⟩
            · exact .inl ⟨by rw [entries_cons_ok hline, hnil]; rfl, hret⟩
            · exact .inr ⟨f, hfault⟩
          · exact .inr ⟨.unsetField, rfl⟩
          · exact .inr ⟨.unsetField, rfl⟩

/-- Lines without a key are copied to nothing, whatever the pointers are. -/
theorem vhostLoop_of_nil (vhost : VhostPointers) {lines : List Str}
    (h : entries siteEntry lines = .ok []) (memory : Nat → Str) :
    vhostLoop vhost lines memory = .ret memory := by
  induction lines with
  | nil => rfl
  | cons line lines ih =>
      rw [entries_eq_nil_iff, List.forall_mem_cons, ← entries_eq_nil_iff] at h
      rw [vhostLoop, siteLine_eq, h.1]
      exact ih h.2

/-- The loop over the lines of one text and then those of another. -/
theorem vhostLoop_append (vhost : VhostPointers) (lines' : List Str) :
    ∀ (lines : List Str) (memory : Nat → Str), vhostLoop vhost (lines ++ lines') memory =
      (vhostLoop vhost lines memory >>= fun memory => vhostLoop vhost lines' memory)
  | [], _ => rfl
  | line :: lines, memory => by
      have ih := vhostLoop_append vhost lines' lines
      rw [List.cons_append, vhostLoop, vhostLoop, siteLine_eq]
      cases siteEntry line with
      | error f => rfl
      | ok e =>
          rcases e with _ | ⟨_ | _, value⟩
          · exact ih memory
          · obtain ⟨_ | hostname, root, logDir⟩ := vhost
            · rfl
            · exact ih (Function.update memory hostname value)
          · obtain ⟨hostname, _ | root, logDir⟩ := vhost
            · rfl
            · exact ih (Function.update memory root value)

/-- The directory loop leaves the settings of `server.cfg` as they are. -/
theorem toSettings_of_runs_loadSites {entries : List DirEntry} {s s' : Startup} {status : Int}
    {tr : List ServerEvent} (h : Prog.Runs (loadSites entries s) tr (.ok (status, s'))) :
    s'.config.toSettings = s.config.toSettings := by
  induction entries generalizing s tr with
  | nil =>
      obtain ⟨-, hout⟩ := Prog.runs_ret_iff.mp h
      cases hout
      rfl
  | cons entry entries ih =>
      obtain ⟨isReg, content⟩ := entry
      cases isReg with
      | false => exact ih h
      | true =>
          cases content with
          | none =>
              obtain ⟨-, hout⟩ := Prog.runs_ret_iff.mp h
              cases hout
              rfl
          | some content =>
              rcases Prog.runs_bind h with ⟨tr₁, tr₂, memory, -, -, hrest⟩ | ⟨x, hout, -⟩
              · dsimp only at hrest
                split at hrest
                · exact (ih hrest :)
                · obtain ⟨-, hout⟩ := Prog.runs_ret_iff.mp hrest
                  cases hout
                  rfl
              · cases hout

/-- What `get_config_from_file` leaves of the settings when it returns. -/
theorem toSettings_of_runs {content : Str} {sites : Option (List DirEntry)} {s s' : Startup}
    {loaded : Settings} {status : Int} {tr : List ServerEvent}
    (hloop : configLoop (fgetsAll 255 content) s.config.toSettings = .ret loaded)
    (h : Prog.Runs (getConfigFromFile ⟨some content, sites⟩ s) tr (.ok (status, s'))) :
    s'.config.toSettings = loaded := by
  simp only [getConfigFromFile, hloop, Prog.ret_bind] at h
  cases sites with
  | none =>
      obtain ⟨-, hout⟩ := Prog.runs_ret_iff.mp h
      cases hout
      rfl
  | some entries => exact toSettings_of_runs_loadSites h

end Pawnee
