import Pawnee.Foundation.PathWalk
import Pawnee.Source.AppPath

/-!
# The two readers look at the same files

`get_config_from_file` reads the site files when the server starts, and
`get_vhost_config` reads them for each request.  They build the paths with different
calls, and the buffers can cut what they build.  Both cut at the same byte
(`vhostPath_eq`), so whatever the path of the program and the names of the files, both
see the same directory with the same contents (`same_sites`).

The directory is `config/sites` beside the directory of the program
(`config_beside`).
-/

namespace Pawnee

open CText Effects PathWalk

/-! ## Paths that are cut -/

theorem take_append_cut (l m : Str) (n : Nat) : (l.take n ++ m).take n = (l ++ m).take n := by
  rw [List.take_append, List.take_append, List.take_take, Nat.min_self, List.length_take]
  rcases Nat.le_total n l.length with h | h
  · rw [Nat.min_eq_left h, Nat.sub_self, Nat.sub_eq_zero_of_le h]
  · rw [Nat.min_eq_right h]

/-- A path is extended up to the last byte of its buffer. -/
theorem extendPath_eq {path : Str} (h : path.length ≤ pathMax - 1) (suffix : Str) :
    extendPath path suffix = (path ++ suffix).take (pathMax - 1) := by
  rw [extendPath, strncat, List.take_append, List.take_of_length_le h, Nat.sub_right_comm]

/-- The path of the sites directory that is given to `opendir` first has a slash more, if
there is room for it. -/
theorem configSitesPath_eq {app : Str} (h : app.length ≤ pathMax - 1) :
    configSitesPath app = (hostsSitesPath app ++ ['/']).take (pathMax - 1) := by
  rw [configSitesPath, hostsSitesPath, extendPath_eq h, extendPath_eq h, take_append_cut,
    List.append_assoc]
  rfl

/-- Both readers build the same path for a site file. -/
theorem vhostPath_eq {app name path : Str} (h : app.length ≤ pathMax - 1)
    (hpath : vhostPath app name = .ok path) : path = filePath app name := by
  unfold vhostPath at hpath
  split at hpath
  · next hshort =>
    cases hpath
    rw [extendPath_eq (Nat.le_of_lt hshort), configSitesPath_eq h, take_append_cut, filePath,
      List.append_assoc]
    rfl
  · cases hpath

/-- Both readers open the same directory. -/
theorem Disk.entries_eq (disk : Disk) {app : Str} (h : app.length ≤ pathMax - 1) :
    disk.entries (configSitesPath app) = disk.entries (hostsSitesPath app) := by
  have hhosts := extendPath_eq h "/../config/sites".toList
  rw [configSitesPath_eq h]
  by_cases hroom : (app ++ "/../config/sites".toList).length < pathMax - 1
  · rw [List.take_of_length_le (Nat.le_of_lt hroom)] at hhosts
    have hlen : (hostsSitesPath app ++ ['/']).length ≤ pathMax - 1 := by
      rw [hostsSitesPath, hhosts, List.length_append, List.length_singleton]
      omega
    rw [List.take_of_length_le hlen]
    refine disk.slash _ ?_
    have hlast : "/../config/sites".toList.getLast? = some 's' := by decide
    rw [hostsSitesPath, hhosts, List.getLast?_append, hlast]
    simp
  · -- the path fills its buffer, and the slash is cut off
    have hlen : (hostsSitesPath app).length = pathMax - 1 := by
      rw [hostsSitesPath, hhosts, List.length_take]
      omega
    rw [List.take_append_of_le_length (by omega), List.take_of_length_le (by omega)]

theorem trimSlashes_length_le (path : Str) : (trimSlashes path).length ≤ path.length := by
  have hle := (List.dropWhile_sublist (· = '/') (l := path.reverse)).length_le
  simpa [trimSlashes] using hle

theorem dirname_length_le {path : Str} (h : path.length ≤ pathMax - 1) :
    (dirname path).length ≤ pathMax - 1 := by
  have hone : 1 ≤ pathMax - 1 := by decide
  have htrim := trimSlashes_length_le path
  have hparent := trimSlashes_length_le ((trimSlashes path).reverse.dropWhile (· ≠ '/')).reverse
  have hdrop := (List.dropWhile_sublist (· ≠ '/') (l := (trimSlashes path).reverse)).length_le
  simp only [List.length_reverse] at hparent hdrop
  unfold dirname
  simp only
  split_ifs
  · exact hone
  · exact hone
  · exact hone
  · omega
  · exact hone

/-- Both readers see the same in an entry. -/
theorem Disk.vhostEntry_eq (disk : Disk) {app : Str} (h : app.length ≤ pathMax - 1) {e : Dirent}
    {entry : DirEntry} (he : disk.vhostEntry app e = .ok entry) : entry = disk.hostEntry app e := by
  unfold Disk.vhostEntry at he
  unfold Disk.hostEntry
  split at he
  · next hreg =>
    rw [if_pos hreg]
    cases hpath : vhostPath app e.name with
    | error f =>
        rw [hpath] at he
        cases he
    | ok path =>
        rw [hpath] at he
        cases he
        rw [vhostPath_eq h hpath]
  · next hreg =>
    rw [if_neg hreg]
    cases he
    rfl

theorem Disk.mapM_vhostEntry (disk : Disk) {app : Str} (h : app.length ≤ pathMax - 1) :
    ∀ (entries : List Dirent) {sites : List DirEntry},
      entries.mapM (disk.vhostEntry app) = .ok sites → sites = entries.map (disk.hostEntry app)
  | [], _, hsites => by
      cases hsites
      rfl
  | e :: entries, sites, hsites => by
      rw [List.mapM_cons] at hsites
      cases he : disk.vhostEntry app e with
      | error f =>
          rw [he] at hsites
          cases hsites
      | ok entry =>
          cases hrest : entries.mapM (disk.vhostEntry app) with
          | error f =>
              rw [he, hrest] at hsites
              cases hsites
          | ok rest =>
              rw [he, hrest] at hsites
              cases hsites
              rw [disk.vhostEntry_eq h he, disk.mapM_vhostEntry h entries hrest]
              rfl

/-- Whatever the path of the program, the names in the sites directory and the contents of
the files: if `get_config_from_file` gets through, it has seen the site files that
`get_vhost_config` sees. -/
theorem same_sites (disk : Disk) (exe : Str) {files : ConfigFiles}
    (h : disk.configFiles (dirname (exe.take (pathMax - 1))) = .ok files) :
    files.sites = disk.sites (dirname (exe.take (pathMax - 1))) := by
  have happ : (dirname (exe.take (pathMax - 1))).length ≤ pathMax - 1 :=
    dirname_length_le (List.length_take_le _ _)
  generalize dirname (exe.take (pathMax - 1)) = app at h happ
  unfold Disk.configFiles at h
  unfold Disk.sites
  rw [disk.entries_eq happ] at h
  cases hentries : disk.entries (hostsSitesPath app) with
  | none =>
      rw [hentries] at h
      cases h
      rfl
  | some entries =>
      rw [hentries] at h
      cases hsites : entries.mapM (disk.vhostEntry app) with
      | error f =>
          simp only [hsites] at h
          cases h
      | ok sites =>
          simp only [hsites] at h
          cases h
          exact congrArg some (disk.mapM_vhostEntry happ entries hsites)

/-! ## Where the files are -/

/-- A name of a file or directory. -/
structure IsFileName (c : Str) : Prop where
  no_slash : '/' ∉ c
  name : isName c = true

theorem IsFileName.ne_nil {c : Str} (h : IsFileName c) : c ≠ [] := by
  have hname := h.name
  simp only [isName, decide_eq_true_eq] at hname
  exact hname.1

/-- A path that ends with a name has no slash at its end. -/
theorem trimSlashes_name (path : Str) {c : Str} (hc : IsFileName c) :
    trimSlashes (path ++ c) = path ++ c := by
  have hlast : ∀ d ∈ (path ++ c).reverse.head?, decide (d = '/') = false := by
    intro d hd
    rw [List.head?_reverse, List.getLast?_append_of_ne_nil _ hc.ne_nil] at hd
    have hmem := List.mem_of_getLast? hd
    exact decide_eq_false fun h => hc.no_slash (h ▸ hmem)
  rw [trimSlashes, ← List.nil_append (path ++ c).reverse,
    dropWhile_run (fun d hd => absurd hd List.not_mem_nil) hlast, List.reverse_reverse]

theorem pathText_concat (cs : List Str) (c : Str) :
    pathText (cs ++ [c]) = pathText cs ++ ['/'] ++ c := by
  rw [pathText_append, pathText_singleton, List.append_assoc]
  rfl

/-- The directory of a file that is not at the top. -/
theorem dirname_pathText {cs : List Str} {prog : Str} (hne : cs ≠ [])
    (hcs : ∀ c ∈ cs, IsFileName c) (hprog : IsFileName prog) :
    dirname (pathText (cs ++ [prog])) = pathText cs := by
  obtain ⟨front, last, rfl⟩ := (List.eq_nil_or_concat cs).resolve_left hne
  rw [List.concat_eq_append] at hcs ⊢
  have hlast := hcs last (List.mem_append_right _ List.mem_cons_self)
  have hparent : trimSlashes (pathText (front ++ [last]) ++ ['/']) =
      pathText (front ++ [last]) := by
    have hrev : (pathText (front ++ [last]) ++ ['/']).reverse =
        '/' :: (pathText (front ++ [last])).reverse := List.reverse_concat
    rw [trimSlashes, hrev, List.dropWhile_cons_of_pos (by decide)]
    exact pathText_concat front last ▸ trimSlashes_name _ hlast
  have hprogram : ∀ c ∈ prog.reverse, decide (c ≠ '/') = true := fun c hc =>
    decide_eq_true fun h => hprog.no_slash (h ▸ List.mem_reverse.mp hc)
  have hdrop : (pathText (front ++ [last]) ++ ['/'] ++ prog).reverse.dropWhile (· ≠ '/') =
      (pathText (front ++ [last]) ++ ['/']).reverse := by
    rw [List.reverse_append]
    exact dropWhile_run hprogram fun d hd => by
      rw [List.reverse_concat] at hd
      cases hd
      rfl
  have hne' : pathText (front ++ [last]) ≠ [] := by simp [pathText_concat]
  unfold dirname
  simp only [pathText_concat (front ++ [last]), trimSlashes_name _ hprog, hdrop,
    List.reverse_reverse, hparent]
  rw [if_neg (by simp), if_neg (by simp), if_neg hne']

/-- The file of a name under `config`, from the directory of the program. -/
theorem walk_config {cs ds : List Str} (hne : cs ≠ []) (hcs : ∀ c ∈ cs, IsFileName c)
    (hds : ∀ c ∈ ds, IsFileName c) :
    walk (pathText cs ++ pathText ("..".toList :: ds)) =
      some (ds.reverse ++ cs.dropLast.reverse) := by
  have hslash : ∀ c ∈ cs ++ "..".toList :: ds, '/' ∉ c := by
    intro c hc
    rcases List.mem_append.mp hc with hc | hc
    · exact (hcs c hc).no_slash
    · rcases List.mem_cons.mp hc with rfl | hc
      · decide
      · exact (hds c hc).no_slash
  have hup : ∀ stack : List Str, step (cs.reverse ++ stack) "..".toList =
      some (cs.dropLast.reverse ++ stack) := by
    intro stack
    obtain ⟨front, last, rfl⟩ := (List.eq_nil_or_concat cs).resolve_left hne
    simp [step]
  rw [← pathText_append, walk_pathText hslash, List.foldlM_append,
    foldlM_names fun c hc => (hcs c hc).name]
  simp only [Option.bind_eq_bind, Option.bind_some, List.foldlM_cons, hup]
  rw [foldlM_names fun c hc => (hds c hc).name, List.append_nil]

/-- If the executable lies in a directory that is not the top, and the paths fit their
buffers, `server.cfg` is the file of that name in the directory `config` beside the
directory of the executable, and the site files of both readers are the files in
`config/sites` there. -/
theorem config_beside {cs : List Str} {prog name : Str} (hne : cs ≠ [])
    (hcs : ∀ c ∈ cs, IsFileName c) (hprog : IsFileName prog) (hname : IsFileName name)
    (hexe : (pathText (cs ++ [prog])).length < pathMax)
    (hcfg : (pathText cs ++ "/../config/server.cfg".toList).length < pathMax)
    (hsite : (pathText cs ++ "/../config/sites/".toList ++ name).length < pathMax) :
    getAppPath (some (pathText (cs ++ [prog]))) = .ret (pathText cs) ∧
      walk (serverCfgPath (pathText cs)) =
        some ("server.cfg".toList :: "config".toList :: cs.dropLast.reverse) ∧
      vhostPath (pathText cs) name = .ok (filePath (pathText cs) name) ∧
      walk (filePath (pathText cs) name) =
        some (name :: "sites".toList :: "config".toList :: cs.dropLast.reverse) := by
  have hbound : (pathText cs).length ≤ pathMax - 1 := by
    rw [List.length_append] at hcfg
    omega
  have hok : IsFileName "config".toList ∧ IsFileName "server.cfg".toList ∧
      IsFileName "sites".toList := ⟨⟨by decide, by decide⟩, ⟨by decide, by decide⟩,
        ⟨by decide, by decide⟩⟩
  obtain ⟨hconfig, hserver, hsites⟩ := hok
  have hsites_text : "/../config/sites".toList ++ '/' :: name =
      pathText ["..".toList, "config".toList, "sites".toList, name] := by simp [pathText]
  have hcfg_text : "/../config/server.cfg".toList =
      pathText ["..".toList, "config".toList, "server.cfg".toList] := by decide
  have hfile : filePath (pathText cs) name =
      pathText cs ++ ("/../config/sites".toList ++ '/' :: name) := by
    have hlen : (pathText cs ++ ("/../config/sites".toList ++ '/' :: name)).length ≤
        pathMax - 1 := by
      simp only [List.length_append, List.length_cons] at hsite ⊢
      have hone : "/../config/sites/".toList.length = "/../config/sites".toList.length + 1 := by
        decide
      omega
    rw [filePath, hostsSitesPath, extendPath_eq hbound, take_append_cut, List.append_assoc,
      List.take_of_length_le hlen]
  have hserver_file : serverCfgPath (pathText cs) =
      pathText cs ++ "/../config/server.cfg".toList := by
    rw [serverCfgPath, extendPath_eq hbound, List.take_of_length_le (Nat.le_sub_one_of_lt hcfg)]
  have hvhost : vhostPath (pathText cs) name = .ok (filePath (pathText cs) name) := by
    have hshort : (configSitesPath (pathText cs)).length < pathMax - 1 := by
      have hpos := List.length_pos_iff.mpr hname.ne_nil
      rw [List.length_append] at hsite
      rw [configSitesPath, extendPath_eq hbound, List.length_take]
      omega
    have hok : vhostPath (pathText cs) name = .ok _ := if_pos hshort
    rw [hok, vhostPath_eq hbound hok]
  refine ⟨?_, ?_, hvhost, ?_⟩
  · have hexe' : (pathText (cs ++ [prog])).take (pathMax - 1) = pathText (cs ++ [prog]) :=
      List.take_of_length_le (Nat.le_sub_one_of_lt hexe)
    rw [getAppPath, hexe', dirname_pathText hne hcs hprog]
    rfl
  · have hnames := List.forall_mem_cons.mpr ⟨hconfig, List.forall_mem_singleton.mpr hserver⟩
    rw [hserver_file, hcfg_text, walk_config hne hcs hnames]
    rfl
  · have hnames := List.forall_mem_cons.mpr ⟨hconfig, List.forall_mem_cons.mpr
      ⟨hsites, List.forall_mem_singleton.mpr hname⟩⟩
    rw [hfile, hsites_text, walk_config hne hcs hnames]
    rfl

/-! ## A server under `/srv/pawnee` -/

/-- A disk with one site file. -/
def smallDisk : Disk where
  entries path :=
    if trimSlashes path = "/srv/pawnee/bin/../config/sites".toList then
      some [⟨".".toList, false⟩, ⟨"a".toList, true⟩]
    else none
  content path := if path = "/srv/pawnee/bin/../config/sites/a".toList then some [] else none
  slash path hlast := by
    have htrim : trimSlashes (path ++ ['/']) = trimSlashes path := by
      rw [trimSlashes, List.reverse_concat, List.dropWhile_cons_of_pos (by decide)]
      rfl
    rw [htrim]

theorem same_sites_small : ∃ files,
    smallDisk.configFiles (dirname ("/srv/pawnee/bin/server".toList.take (pathMax - 1))) =
      .ok files ∧ files.sites = some [⟨false, none⟩, ⟨true, some []⟩] ∧
    files.sites =
      smallDisk.sites (dirname ("/srv/pawnee/bin/server".toList.take (pathMax - 1))) := by
  have hfiles : smallDisk.configFiles (dirname ("/srv/pawnee/bin/server".toList.take
      (pathMax - 1))) = .ok ⟨none, some [⟨false, none⟩, ⟨true, some []⟩]⟩ := rfl
  exact ⟨_, hfiles, rfl, same_sites smallDisk _ hfiles⟩

/-- The configuration of `/srv/pawnee/bin/server` is in `/srv/pawnee/config`. -/
theorem config_beside_small :
    getAppPath (some "/srv/pawnee/bin/server".toList) = .ret "/srv/pawnee/bin".toList ∧
      walk (serverCfgPath "/srv/pawnee/bin".toList) =
        some ["server.cfg".toList, "config".toList, "pawnee".toList, "srv".toList] ∧
      vhostPath "/srv/pawnee/bin".toList "a".toList =
        .ok (filePath "/srv/pawnee/bin".toList "a".toList) ∧
      walk (filePath "/srv/pawnee/bin".toList "a".toList) =
        some ["a".toList, "sites".toList, "config".toList, "pawnee".toList, "srv".toList] := by
  have hname : ∀ c ∈ ["srv".toList, "pawnee".toList, "bin".toList, "server".toList, "a".toList],
      IsFileName c := by
    intro c hc
    have hboth : ∀ c ∈ ["srv".toList, "pawnee".toList, "bin".toList, "server".toList, "a".toList],
        '/' ∉ c ∧ isName c = true := by decide
    exact ⟨(hboth c hc).1, (hboth c hc).2⟩
  exact @config_beside ["srv".toList, "pawnee".toList, "bin".toList] "server".toList "a".toList
    (by simp) (fun c hc => hname c (by simp at hc ⊢; tauto)) (hname _ (by simp)) (hname _ (by simp))
    (by decide) (by decide) (by decide)

end Pawnee
