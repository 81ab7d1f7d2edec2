import Pawnee.Source.Config

/-!
# Where the configuration is (`get_app_path`)

`get_app_path` is the directory of the executable.  `get_config_from_file` and
`get_vhost_config` each build the paths of the configuration from it, with buffers and
calls of their own: the first with `strcpy`, `strncpy` and `strncat`, the second with
`strncat` and `snprintf`.

A `Disk` has what the paths lead to.  The entries of the sites directory, which the other
modules take as data, are read from it by both functions (`Disk.configFiles`,
`Disk.sites`).
-/

namespace Pawnee

open CText Effects

/-! ## `get_app_path` -/

/-- A path without the slashes at its end. -/
def trimSlashes (path : Str) : Str := (path.reverse.dropWhile (· = '/')).reverse

/-- `dirname`. -/
def dirname (path : Str) : Str :=
  let trimmed := trimSlashes path
  if trimmed = [] then if path = [] then ['.'] else ['/']
  else if '/' ∉ trimmed then ['.']
  else
    let parent := trimSlashes (trimmed.reverse.dropWhile (· ≠ '/')).reverse
    if parent = [] then ['/'] else parent

/-- `get_app_path`.  `exe` is what `readlink` finds at `/proc/self/exe`, `none` if it
fails.  It is cut to the buffer. -/
def getAppPath (exe : Option Str) : Server Str :=
  match exe with
  | none => exitFailure
  | some exe => pure (dirname (exe.take (pathMax - 1)))

/-! ## Paths of the configuration -/

/-- `strncat(path, suffix, PATH_MAX - strlen(path) - 1)`. -/
def extendPath (path suffix : Str) : Str := strncat path suffix (pathMax - path.length - 1)

/-- The path of `server.cfg` in `get_config_from_file`. -/
def serverCfgPath (app : Str) : Str := extendPath app "/../config/server.cfg".toList

/-- The path `get_config_from_file` gives to `opendir`. -/
def configSitesPath (app : Str) : Str := extendPath app "/../config/sites/".toList

/-- The path of a site file in `get_config_from_file`.  `strncpy` leaves no NUL behind a
text that fills its `PATH_MAX - 1` bytes, and `strlen` does not stop there. -/
def vhostPath (app name : Str) : Except Fault Str :=
  if (configSitesPath app).length < pathMax - 1 then .ok (extendPath (configSitesPath app) name)
  else .error .outOfBounds

/-- The path `get_vhost_config` gives to `opendir`. -/
def hostsSitesPath (app : Str) : Str := extendPath app "/../config/sites".toList

/-- `snprintf(filepath, sizeof(filepath), "%s/%s", sites_dir, name)` in `get_vhost_config`. -/
def filePath (app name : Str) : Str := (hostsSitesPath app ++ '/' :: name).take (pathMax - 1)

/-! ## The disk -/

/-- What `readdir` says of an entry. -/
structure Dirent where
  name : Str
  /-- `d_type == DT_REG`. -/
  isReg : Bool
deriving DecidableEq, Repr

/-- The files and directories behind the paths. -/
structure Disk where
  /-- `opendir` and `readdir`, `none` if `opendir` fails. -/
  entries : Str → Option (List Dirent)
  /-- The content `fopen(path, "r")` gives access to, `none` if it fails. -/
  content : Str → Option Str
  /-- A slash behind the path of a directory leads to the same directory. -/
  slash : ∀ path, path.getLast? ≠ some '/' → entries (path ++ ['/']) = entries path

/-- An entry of the sites directory as `get_config_from_file` sees it. -/
def Disk.vhostEntry (disk : Disk) (app : Str) (e : Dirent) : Except Fault DirEntry :=
  if e.isReg then (vhostPath app e.name).map fun path => ⟨true, disk.content path⟩
  else .ok ⟨false, none⟩

/-- An entry of the sites directory as `get_vhost_config` sees it. -/
def Disk.hostEntry (disk : Disk) (app : Str) (e : Dirent) : DirEntry :=
  if e.isReg then ⟨true, disk.content (filePath app e.name)⟩ else ⟨false, none⟩

/-- The files of the configuration as `get_config_from_file` sees them. -/
def Disk.configFiles (disk : Disk) (app : Str) : Except Fault ConfigFiles := do
  let sites ←
    match disk.entries (configSitesPath app) with
    | none => .ok none
    | some entries => (entries.mapM (disk.vhostEntry app)).map some
  pure ⟨disk.content (serverCfgPath app), sites⟩

/-- The sites directory as `get_vhost_config` sees it. -/
def Disk.sites (disk : Disk) (app : Str) : Option (List DirEntry) :=
  (disk.entries (hostsSitesPath app)).map fun entries => entries.map (disk.hostEntry app)

end Pawnee
