import Pawnee.Child.VhostLookup
import Pawnee.Loading.ServerCfg
import Pawnee.Loading.Survival

/-!
# Comments

A comment line should have no effect, in `server.cfg` and in the site files
(`CommentsIgnored`).  All three loops test for `#` at the start of what one `fgets`
has read.  That is the start of the line only for the first piece of it, so what
stands behind the first 254 or 255 bytes of a comment is read as a line of its own.

The comments that have no effect are those whose later pieces have none
(`commentsIgnored_iff`).
-/

namespace Pawnee

open CText Effects Entries

/-! ## Comments between the lines of a text -/

/-- A comment line. -/
def IsComment (c : Str) : Prop := IsLine c ∧ c.head? = some '#'

/-- The settings and vhosts that are loaded stay the same when lines of `C` are
inserted between the lines of a text.  A site file is read at startup, for `vhosts`
through pointers that are assigned or not, and for `startup` up to what is given to
`strcpy`; and it is read when a host is looked up. -/
structure CommentsIgnored (C : Set Str) : Prop where
  cfg : ∀ {t t' : List Str} {loaded : Settings}, (∀ l ∈ t, IsLine l) → Inserted C t t' →
    configLoop (fgetsAll 255 t.flatten) .default = .ret loaded →
    configLoop (fgetsAll 255 t'.flatten) .default = .ret loaded
  vhosts : ∀ {t t' : List Str} (vhost : VhostPointers) {memory memory' : Nat → Str},
    (∀ l ∈ t, IsLine l) → Inserted C t t' →
    vhostLoop vhost (fgetsAll 255 t.flatten) memory = .ret memory' →
    vhostLoop vhost (fgetsAll 255 t'.flatten) memory = .ret memory'
  startup : ∀ {t t' : List Str} {taken : Option Str × Option Str}, (∀ l ∈ t, IsLine l) →
    Inserted C t t' → readSiteFile t.flatten = .ret taken → readSiteFile t'.flatten = .ret taken
  lookup : ∀ {t t' : List Str} {env : Env} (before after : List DirEntry) {request : HttpRequest}
    {tr : List ServerEvent} {vhost : Option VhostConfig}, (∀ l ∈ t, IsLine l) → Inserted C t t' →
    Prog.Runs (getVhostConfig
      { env with sites := some (before ++ ⟨true, some t.flatten⟩ :: after) } request) tr
      (.ok vhost) →
    Prog.Runs (getVhostConfig
      { env with sites := some (before ++ ⟨true, some t'.flatten⟩ :: after) } request) tr
      (.ok vhost)

/-- A later piece of a comment has no effect at startup: it has no key, neither of
`server.cfg` nor of a site file. -/
structure StartupInert (piece : Str) : Prop where
  cfg : KeyFree ConfigKey.name piece
  site : KeyFree SiteField.name piece

/-- A later piece of a comment has no effect on a lookup: it looks like a comment,
or there is nothing but quotes behind a key. -/
def LookupInert (piece : Str) : Prop :=
  piece.head? = some '#' ∨
    ∀ k rest, FirstWord (SiteKey.name k) piece rest → ∀ c ∈ rest, c = '\"'

/-- The pieces of a comment behind the first have no effect. -/
structure CommentOk (c : Str) : Prop where
  startup : ∀ piece ∈ (fgetsAll 255 c).tail, StartupInert piece
  lookup : ∀ piece ∈ (fgetsAll 256 c).tail, LookupInert piece

/-- The pieces of a text of whole lines are those of its lines. -/
theorem fgetsAll_flatten {n : Nat} (hn : 2 ≤ n) {t : List Str} (ht : ∀ l ∈ t, IsLine l) :
    fgetsAll n t.flatten = t.flatMap (fgetsAll n) := by
  have hlines := getlineAll_flatten ht []
  rw [List.append_nil, getlineAll_nil, List.append_nil] at hlines
  rw [fgetsAll_flatMap hn, hlines]

/-- The first piece of a comment looks like one. -/
theorem IsComment.fgetsAll {n : Nat} (hn : 2 ≤ n) {c : Str} (hc : IsComment c) :
    ∃ piece, CText.fgetsAll n c = piece :: (CText.fgetsAll n c).tail ∧ piece.head? = some '#' := by
  have hline := fgetsAll_line hn hc.1 []
  rw [List.append_nil, fgetsAll_nil, List.append_nil, freadAll_cons (by omega) hc.1.ne_nil] at hline
  refine ⟨c.take (n - 1), by rw [hline]; rfl, ?_⟩
  rw [List.head?_take, if_neg (by omega), hc.2]

/-- A reader that skips pieces with a `#` finds nothing in a comment if it finds
nothing in its later pieces. -/
theorem entries_comment_iff {T : Type} {V : T → Type} {ε : Type}
    {read : Str → Except ε (Option (Sigma V))}
    (hread : ∀ piece, piece.head? = some '#' → read piece = .ok none) {n : Nat} (hn : 2 ≤ n)
    {c : Str} (hc : IsComment c) :
    entries read (fgetsAll n c) = .ok [] ↔
      ∀ piece ∈ (fgetsAll n c).tail, read piece = .ok none := by
  obtain ⟨piece, hcut, hhead⟩ := hc.fgetsAll hn
  rw [entries_eq_nil_iff, hcut, List.forall_mem_cons]
  exact and_iff_right (hread piece hhead)

/-! ## Comments without effect -/

theorem SiteKey.keyNames : KeyNames SiteKey.name SiteKey.ofName where
  ofName_iff {token k} := by
    constructor
    · intro h
      unfold ofName at h
      split at h
      · cases h; assumption
      split at h
      · cases h; assumption
      split at h
      · cases h; assumption
      · cases h
    · rintro rfl
      exact SiteKey.ofName_name k
  ne_nil := SiteKey.name_ne_nil
  no_equals k := k.not_delim.1

theorem hostEntry_none_iff {piece : Str} : hostEntry piece = none ↔ LookupInert piece := by
  have hvalue : ∀ {rest : Str}, (strtok ['\"'] rest).1 = none ↔ ∀ c ∈ rest, c = '\"' := by
    intro rest
    rw [strtok_eq_none_iff]
    simp
  simp only [LookupInert, ← SiteKey.keyNames.strtok_iff, ← hvalue]
  unfold hostEntry
  by_cases hcomment : piece.head? = some '#'
  · simp [hcomment]
  · rw [if_neg hcomment]
    rcases strtok ['='] (cstr piece) with ⟨_ | key, rest⟩
    · simp
    · rcases hv : strtok ['\"'] rest with ⟨_ | value, rest'⟩ <;>
        cases hk : SiteKey.ofName key <;> simp [hcomment, hv, hk]

/-- The line loop of `get_vhost_config` as a reader that never fails. -/
def hostReader (piece : Str) : Except Fault (Option (Sigma fun _ : SiteKey => Str)) :=
  .ok (hostEntry piece)

theorem scanSite_congr {content content' : Str}
    (h : entries hostReader (fgetsAll 256 content') = entries hostReader (fgetsAll 256 content)) :
    scanSite content' = scanSite content := by
  have hread : ∀ pieces, entries hostReader pieces = .ok (pieces.filterMap hostEntry) :=
    fun pieces => entries_of_forall fun _ _ => rfl
  rw [hread, hread] at h
  rw [scanSite_eq, scanSite_eq, Except.ok.inj h]

/-- `get_vhost_config` sees of a site file what its line loop leaves. -/
theorem getVhostConfig_congr {content content' : Str} (h : scanSite content' = scanSite content)
    (env : Env) (before after : List DirEntry) (request : HttpRequest) :
    getVhostConfig { env with sites := some (before ++ ⟨true, some content'⟩ :: after) } request =
      getVhostConfig { env with sites := some (before ++ ⟨true, some content⟩ :: after) }
        request := by
  have hfind : ∀ host, findVhost host (before ++ ⟨true, some content'⟩ :: after) =
      findVhost host (before ++ ⟨true, some content⟩ :: after) := by
    intro host
    rw [findVhost_eq, findVhost_eq, findSite_eq, findSite_eq]
    simp [readableSites, List.filterMap_append, h]
  simp only [getVhostConfig, hfind]

/-- Lines without a key can be inserted into a site file. -/
theorem vhostLoop_inserted (vhost : VhostPointers) {C : Set Str}
    (hC : ∀ c ∈ C, entries siteEntry (fgetsAll 255 c) = .ok []) {t t' : List Str}
    (h : Inserted C t t') (memory : Nat → Str) :
    vhostLoop vhost (t'.flatMap (fgetsAll 255)) memory =
      vhostLoop vhost (t.flatMap (fgetsAll 255)) memory := by
  induction h generalizing memory with
  | nil => rfl
  | keep l _ ih =>
      rw [List.flatMap_cons, List.flatMap_cons, vhostLoop_append, vhostLoop_append]
      exact congrArg _ (funext ih)
  | insert hc _ ih =>
      rw [List.flatMap_cons, vhostLoop_append, vhostLoop_of_nil vhost (hC _ hc)]
      exact ih memory

theorem commentsIgnored_of_ok {C : Set Str} (hC : ∀ c ∈ C, IsComment c)
    (hok : ∀ c ∈ C, CommentOk c) : CommentsIgnored C := by
  have hline : ∀ c ∈ C, IsLine c := fun c hc => (hC c hc).1
  have hcfg : ∀ c ∈ C, entries configEntry (fgetsAll 255 c) = .ok [] := fun c hc =>
    (entries_comment_iff (fun piece h => ConfigKey.keyNames.keyedLine_none_iff.mpr (.inl h))
      (by decide) (hC c hc)).mpr fun piece hp =>
        ConfigKey.keyNames.keyedLine_none_iff.mpr ((hok c hc).startup piece hp).cfg
  have hsite : ∀ c ∈ C, entries siteEntry (fgetsAll 255 c) = .ok [] := fun c hc =>
    (entries_comment_iff (fun piece h => SiteField.keyNames.keyedLine_none_iff.mpr (.inl h))
      (by decide) (hC c hc)).mpr fun piece hp =>
        SiteField.keyNames.keyedLine_none_iff.mpr ((hok c hc).startup piece hp).site
  have hhost : ∀ c ∈ C, entries hostReader (fgetsAll 256 c) = .ok [] := fun c hc =>
    (entries_comment_iff (fun piece h => congrArg _ (hostEntry_none_iff.mpr (.inl h))) (by decide)
      (hC c hc)).mpr fun piece hp =>
        congrArg _ (hostEntry_none_iff.mpr ((hok c hc).lookup piece hp))
  constructor
  · intro t t' loaded ht h hrun
    rw [fgetsAll_flatten (by decide) (h.forall_mem ht hline), configLoop_eq,
      entries_inserted hcfg h, ← configLoop_eq, ← fgetsAll_flatten (by decide) ht, hrun]
  · intro t t' vhost memory memory' ht h hrun
    rw [fgetsAll_flatten (by decide) (h.forall_mem ht hline), vhostLoop_inserted vhost hsite h,
      ← fgetsAll_flatten (by decide) ht, hrun]
  · intro t t' taken ht h hrun
    rw [readSiteFile, fgetsAll_flatten (by decide) (h.forall_mem ht hline), siteLoop_eq,
      entries_inserted hsite h, ← siteLoop_eq, ← fgetsAll_flatten (by decide) ht, ← readSiteFile,
      hrun]
  · intro t t' env before after request tr vhost ht h hrun
    have hsame : scanSite t'.flatten = scanSite t.flatten := by
      refine scanSite_congr ?_
      rw [fgetsAll_flatten (by decide) (h.forall_mem ht hline), entries_inserted hhost h,
        fgetsAll_flatten (by decide) ht]
    rw [getVhostConfig_congr hsame]
    exact hrun

/-! ## Comments with an effect -/

/-- Two values for each key. -/
def ConfigKey.sample : ConfigKey → Bool → Str
  | .port, false => "0".toList
  | .port, true => "1".toList
  | .listenAddr, false | .mimesFile, false | .logsDir, false => "a".toList
  | .listenAddr, true | .mimesFile, true | .logsDir, true => "b".toList

theorem ConfigKey.sample_ne (k : ConfigKey) :
    k.value (k.sample true) ≠ k.value (k.sample false) := by
  cases k <;> decide

/-- The line that gives a key one of its two values. -/
theorem entries_sample (k : ConfigKey) (b : Bool) :
    entries configEntry (fgetsAll 255 (configFormat.write k (k.sample b) ++ ['\n'])) =
      .ok [⟨k, k.value (k.sample b)⟩] := by
  cases k <;> cases b <;> rfl

/-- For every value of a key there is a line that gives the key another one. -/
theorem exists_cfgLine (k : ConfigKey) (w : k.Value) : ∃ l w', IsLine l ∧
    entries configEntry (fgetsAll 255 l) = .ok [⟨k, w'⟩] ∧ w' ≠ w := by
  have hline : ∀ b, IsLine (configFormat.write k (k.sample b) ++ ['\n']) := fun b =>
    ⟨_, configFormat.no_lineFeed (by cases k <;> cases b <;> decide), rfl⟩
  by_cases hw : k.value (k.sample false) = w
  · exact ⟨_, _, hline true, entries_sample k true, hw ▸ k.sample_ne⟩
  · exact ⟨_, _, hline false, entries_sample k false, hw⟩

section

variable {C : Set Str} {c : Str}

/-- One comment behind the lines of a text. -/
theorem inserted_last (hc : c ∈ C) : ∀ t : List Str, Inserted C t (t ++ [c])
  | [] => .insert hc .nil
  | l :: t => .keep l (inserted_last hc t)

theorem configEntry_of_ignored (h : CommentsIgnored C) (hc : c ∈ C) (hcomment : IsComment c) :
    entries configEntry (fgetsAll 255 c) = .ok [] := by
  have hrun : ∀ {t : List Str} {es : List (Sigma ConfigKey.Value)}, (∀ l ∈ t, IsLine l) →
      entries configEntry (t.flatMap (fgetsAll 255)) = .ok es →
      configLoop ((t ++ [c]).flatMap (fgetsAll 255)) .default =
        .ret (Settings.record.setAll .default es) := by
    intro t es ht hes
    have hlines : ∀ l ∈ t ++ [c], IsLine l :=
      List.forall_mem_append.mpr ⟨ht, List.forall_mem_singleton.mpr hcomment.1⟩
    rw [← fgetsAll_flatten (by decide) hlines]
    refine h.cfg ht (inserted_last hc t) ?_
    rw [fgetsAll_flatten (by decide) ht, configLoop_eq, hes]
    rfl
  have halone := hrun (t := []) (by simp) rfl
  simp only [List.nil_append, List.flatMap_singleton, configLoop_eq] at halone
  obtain ⟨es, hes, -⟩ := orFault_map_eq_ret_iff.mp halone
  rw [hes]
  refine congrArg _ (List.eq_nil_iff_forall_not_mem.mpr fun e he => ?_)
  -- a text that gives the key of the entry another value than the comment does
  obtain ⟨w, hw⟩ := Option.ne_none_iff_exists'.mp
    (fun hnone => lastOf_eq_none_iff.mp hnone e he rfl)
  obtain ⟨l, w', hl, hentries, hne⟩ := exists_cfgLine e.1 w
  have htext := hrun (t := [l]) (by simpa using hl)
    (by rw [List.flatMap_singleton]; exact hentries)
  rw [List.flatMap_append, List.flatMap_singleton, List.flatMap_singleton, configLoop_eq,
    entries_append, hentries, hes] at htext
  have hget := congrArg (fun s => Settings.record.get s e.1) (Prog.ret.inj htext)
  simp only [Record.get_setAll, lastOf_append, hw, Option.some_or, Option.getD_some] at hget
  rw [lastOf, lastOf_nil, Option.none_or, valueFor_self, Option.getD_some] at hget
  exact hne hget.symm

theorem siteEntry_of_ignored (h : CommentsIgnored C) (hc : c ∈ C) :
    entries siteEntry (fgetsAll 255 c) = .ok [] := by
  have hrun : ∀ memory, vhostLoop .unset (fgetsAll 255 [c].flatten) memory = .ret memory :=
    fun memory => h.vhosts (t := []) .unset (by simp) (inserted_last hc []) rfl
  rw [List.flatten_singleton] at hrun
  exact vhostLoop_unset_ret_iff.mp fun memory => ⟨memory, hrun memory⟩

/-- A string that is not the given one. -/
def otherThan (v : Option Str) : Str := if v = some "a".toList then "b".toList else "a".toList

theorem otherThan_ne (v : Option Str) : some (otherThan v) ≠ v := by
  unfold otherThan
  split
  · next h => rw [h]; decide
  · next h => exact Ne.symm h

/-- A value that gives way to the other one is none. -/
theorem eq_none_of_or {v : Option Str} (h : v.or (some (otherThan v)) = some (otherThan v)) :
    v = none := by
  cases v with
  | none => rfl
  | some v => exact absurd h.symm (otherThan_ne (some v))

/-- A site file that gives each key a value the entries do not give it. -/
def otherSite (es : List (Sigma fun _ : SiteKey => Str)) : List Str :=
  [SiteKey.hostname, .root, .logDir].map fun k =>
    siteFormat.write k (otherThan (lastOf k es)) ++ ['\n']

theorem otherSite_isLine (es : List (Sigma fun _ : SiteKey => Str)) :
    ∀ l ∈ otherSite es, IsLine l := by
  intro l hl
  obtain ⟨k, -, rfl⟩ := List.mem_map.mp hl
  refine ⟨_, siteFormat.no_lineFeed ?_, rfl⟩
  unfold otherThan
  split <;> cases k <;> decide

/-- What the lookup reads of such a file. -/
theorem hostEntries_otherSite (es : List (Sigma fun _ : SiteKey => Str)) :
    ((otherSite es).flatMap (fgetsAll 256)).filterMap hostEntry =
      [⟨.hostname, otherThan (lastOf .hostname es)⟩, ⟨.root, otherThan (lastOf .root es)⟩,
        ⟨.logDir, otherThan (lastOf .logDir es)⟩] := by
  have hone : ∀ k, (fgetsAll 256 (siteFormat.write k (otherThan (lastOf k es)) ++ ['\n'])).filterMap
      hostEntry = [⟨k, otherThan (lastOf k es)⟩] := by
    intro k
    unfold otherThan
    split <;> cases k <;> rfl
  simp only [otherSite, List.map_cons, List.map_nil, List.flatMap_cons, List.flatMap_nil,
    List.filterMap_append, hone, List.filterMap_nil]
  rfl

/-- The vhost of a machine with one site file. -/
theorem runs_lookup_iff (env : Env) {content host : Str} {store : HttpHeaders}
    (hh : Holds store [⟨"Host".toList, host⟩]) (hne : host ≠ [])
    (hclean : strtokBuffer [':'] (host.take 255) = host) {vhost : VhostConfig} :
    Prog.Runs (getVhostConfig { env with sites := some [⟨true, some content⟩] }
        ((⟨.get, 1, 1, "/".toList, [⟨"Host".toList, host⟩]⟩ : Request).filled store)) []
        (.ok (some vhost)) ↔
      (scanSite content).hostname = some host ∧ (scanSite content).vhost = some vhost := by
  obtain ⟨c, r, rfl⟩ := List.exists_cons_of_ne_nil hne
  have hname : strcaseeq "Host".toList "Host".toList = true := by decide
  have hlookup : lookupHeader [⟨"Host".toList, c :: r⟩] "Host".toList = some (c :: r) := by
    simp only [lookupHeader, List.find?_cons, hname, Option.map_some]
  rw [getVhostConfig_eq (q := ⟨.get, 1, 1, "/".toList, _⟩) _ hh]
  simp only [lookupCalls, selectedSite, hlookup, hclean, findSite, Prog.doing_nil]
  by_cases hhost : (scanSite content).hostname = some (c :: r)
  · simp only [hhost, if_true, vhostOf_eq, true_and]
    cases (scanSite content).vhost <;> simp [Prog.runs_ret_iff, fault, Prog.runs_stop_iff, eq_comm]
  · simp [hhost, Prog.runs_ret_iff]

/-- A `vhost_config` has the strings of its keys. -/
theorem vhost_injective {keys keys' : SiteKeys} {vhost : VhostConfig}
    (h : keys.vhost = some vhost) (h' : keys'.vhost = some vhost) : keys = keys' := by
  obtain ⟨hostname, root, logDir⟩ := keys
  obtain ⟨hostname', root', logDir'⟩ := keys'
  cases hostname <;> cases root <;> cases logDir <;> cases h
  cases hostname' <;> cases root' <;> cases logDir' <;> cases h'
  rfl

theorem hostEntry_of_ignored (h : CommentsIgnored C) (hc : c ∈ C) (hcomment : IsComment c) :
    (fgetsAll 256 c).filterMap hostEntry = [] := by
  generalize hes : (fgetsAll 256 c).filterMap hostEntry = es
  have hlines : ∀ l ∈ otherSite es ++ [c], IsLine l :=
    List.forall_mem_append.mpr ⟨otherSite_isLine es, List.forall_mem_singleton.mpr hcomment.1⟩
  have hown : scanSite (otherSite es).flatten = ⟨some (otherThan (lastOf .hostname es)),
      some (otherThan (lastOf .root es)), some (otherThan (lastOf .logDir es))⟩ := by
    rw [scanSite_eq, fgetsAll_flatten (by decide) (otherSite_isLine es), hostEntries_otherSite]
    rfl
  have hboth : scanSite (otherSite es ++ [c]).flatten = .ofEntries
      ([⟨.hostname, otherThan (lastOf .hostname es)⟩, ⟨.root, otherThan (lastOf .root es)⟩,
        ⟨.logDir, otherThan (lastOf .logDir es)⟩] ++ es) := by
    rw [scanSite_eq, fgetsAll_flatten (by decide) hlines, List.flatMap_append,
      List.filterMap_append, hostEntries_otherSite, List.flatMap_singleton, hes]
  generalize hhost : otherThan (lastOf .hostname es) = host at hown hboth
  have hclean : host ≠ [] ∧ strtokBuffer [':'] (host.take 255) = host := by
    rw [← hhost]
    unfold otherThan
    split <;> decide
  obtain ⟨store, -, hh⟩ := addHeader_holds holds_initHeaders "Host".toList host
  -- the host name of the file is asked for
  have hfound := (runs_lookup_iff (machine siteFile []) hh hclean.1 hclean.2).mpr
    ⟨by rw [hown], by rw [hown]; rfl⟩
  have hsame := h.lookup [] [] (otherSite_isLine es) (inserted_last hc _) hfound
  have heq := vhost_injective ((runs_lookup_iff _ hh hclean.1 hclean.2).mp hsame).2
    ((runs_lookup_iff _ hh hclean.1 hclean.2).mp hfound).2
  rw [hboth, hown, ← hhost] at heq
  have hlast : ∀ k, lastOf k es = none := by
    intro k
    cases k with
    | hostname =>
        exact eq_none_of_or ((lastOf_append _ _ es).symm.trans (congrArg SiteKeys.hostname heq))
    | root =>
        exact eq_none_of_or ((lastOf_append _ _ es).symm.trans (congrArg SiteKeys.root heq))
    | logDir =>
        exact eq_none_of_or ((lastOf_append _ _ es).symm.trans (congrArg SiteKeys.logDir heq))
  exact List.eq_nil_iff_forall_not_mem.mpr fun e he =>
    lastOf_eq_none_iff.mp (hlast e.1) e he rfl

end

/-! ## Which comments are ignored -/

/-- Comments are ignored exactly if their later pieces have no effect. -/
theorem commentsIgnored_iff {C : Set Str} (hC : ∀ c ∈ C, IsComment c) :
    CommentsIgnored C ↔ ∀ c ∈ C, CommentOk c := by
  refine ⟨fun h c hc => ⟨fun piece hp => ⟨?_, ?_⟩, fun piece hp => ?_⟩, commentsIgnored_of_ok hC⟩
  · exact ConfigKey.keyNames.keyedLine_none_iff.mp
      (entries_eq_nil_iff.mp (configEntry_of_ignored h hc (hC c hc)) piece
        (List.mem_of_mem_tail hp))
  · exact SiteField.keyNames.keyedLine_none_iff.mp
      (entries_eq_nil_iff.mp (siteEntry_of_ignored h hc) piece (List.mem_of_mem_tail hp))
  · have hnone := List.filterMap_eq_nil_iff.mp (hostEntry_of_ignored h hc (hC c hc))
    exact hostEntry_none_iff.mp (hnone piece (List.mem_of_mem_tail hp))

/-- A comment of 254 bytes with a port behind them. -/
def longComment : Str := List.replicate 254 '#' ++ "port=1\n".toList

theorem longComment_isComment : ∀ c ∈ ({longComment} : Set Str), IsComment c := by
  rintro c rfl
  refine ⟨⟨List.replicate 254 '#' ++ "port=1".toList, ?_,
    (List.append_assoc _ "port=1".toList ['\n']).symm⟩, rfl⟩
  decide +kernel

/-- A short comment is ignored. -/
theorem commentsIgnored_iff_short :
    CommentsIgnored {"# port=1\n".toList} ↔ ∀ c ∈ ({"# port=1\n".toList} : Set Str), CommentOk c :=
  commentsIgnored_iff (by rintro c rfl; exact ⟨⟨"# port=1".toList, by decide, rfl⟩, rfl⟩)

/-- The port behind a long comment is loaded. -/
theorem not_commentsIgnored_long :
    (∀ c ∈ ({longComment} : Set Str), IsComment c) ∧ ¬ CommentsIgnored {longComment} := by
  refine ⟨longComment_isComment, fun h => ?_⟩
  have hmem : longComment ∈ ({longComment} : Set Str) := rfl
  have hrun : configLoop (fgetsAll 255 [longComment].flatten) .default = .ret .default :=
    h.cfg (t := []) (by simp) (inserted_last hmem []) rfl
  have hport : configLoop (fgetsAll 255 [longComment].flatten) .default =
      .ret { Settings.default with port := 1 } := by
    have hpieces : fgetsAll 255 [longComment].flatten =
        [List.replicate 254 '#', "port=1\n".toList] := by decide +kernel
    rw [hpieces]
    rfl
  have hsame := congrArg Settings.port (Prog.ret.inj (hport.symm.trans hrun))
  exact absurd hsame (by decide)

end Pawnee
