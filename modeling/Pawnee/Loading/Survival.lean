import Pawnee.Loading.ServerCfg

/-!
# Configuration texts of any content

The loops of `get_config_from_file` take any bytes.  They should end, and a line
that is not a key with its value should change nothing (`SurvivesLoading`).

What `fgets` reads in one call is a piece of a line, and each piece is cut on its
own.  A piece of delimiters has no token, and a key with nothing behind it has no
value, and both end the process.  A piece with a key sets it, whatever line it is
part of.  So `server.cfg` is survived exactly if every piece is a comment or has a
byte other than `=`, and only complete lines have pieces with a key, and these have a
value.  A site file is survived exactly if no piece has a key, because a value would
be copied to where an unassigned pointer points (`survivesLoading_iff`).
-/

namespace Pawnee

open CText Effects Entries

/-! ## The first word of a piece -/

/-- The first word of a piece, as a C string: what stands behind the first `=`, up to
the next one.  `rest` is what stands behind that. -/
def FirstWord (word piece rest : Str) : Prop :=
  ∃ n, cstr piece = List.replicate n '=' ++ word ∧ rest = [] ∨
    cstr piece = List.replicate n '=' ++ (word ++ '=' :: rest)

/-- The first token is the first word. -/
theorem strtok_eq_iff_firstWord {word piece rest : Str} (hne : word ≠ []) (hword : '=' ∉ word) :
    strtok ['='] (cstr piece) = (some word, rest) ↔ FirstWord word piece rest := by
  rw [strtok_eq_some_iff]
  constructor
  · rintro ⟨lead, after, hpiece, hlead, -, -, hafter⟩
    have hequals : lead = List.replicate lead.length '=' :=
      List.eq_replicate_iff.mpr ⟨rfl, fun c hc => by simpa using hlead c hc⟩
    rw [hequals] at hpiece
    rcases hafter with ⟨rfl, rfl⟩ | ⟨d, hd, rfl⟩
    · exact ⟨lead.length, .inl ⟨by simpa using hpiece, rfl⟩⟩
    · obtain rfl : d = '=' := by simpa using hd
      exact ⟨lead.length, .inr hpiece⟩
  · have hlead : ∀ n, ∀ c ∈ List.replicate n '=', c ∈ ['='] := fun n c hc => by
      simp [List.eq_of_mem_replicate hc]
    rintro ⟨n, ⟨hpiece, rfl⟩ | hpiece⟩
    · exact ⟨_, [], by simpa using hpiece, hlead n, hne, no_delim_iff.mpr hword, .inl ⟨rfl, rfl⟩⟩
    · exact ⟨_, _, hpiece, hlead n, hne, no_delim_iff.mpr hword, .inr ⟨'=', by simp, rfl⟩⟩

/-- A piece has a token if not all of its bytes are `=`. -/
theorem exists_token_iff {piece : Str} :
    (∃ token rest, strtok ['='] (cstr piece) = (some token, rest)) ↔ ∃ c ∈ cstr piece, c ≠ '=' := by
  rcases hcut : strtok ['='] (cstr piece) with ⟨_ | token, rest⟩
  · have hall := strtok_eq_none_iff.mp (congrArg Prod.fst hcut)
    exact iff_of_false (by simp) (by simpa using hall)
  · refine iff_of_true ⟨token, rest, rfl⟩ ?_
    by_contra hno
    have hnone : (strtok ['='] (cstr piece)).1 = none :=
      strtok_eq_none_iff.mpr (by simpa using hno)
    rw [hcut] at hnone
    cases hnone

/-! ## Keys and their names -/

/-- The keys of a loop have these names, which `strtok` does not cut. -/
structure KeyNames {K : Type} (name : K → Str) (ofName : Str → Option K) : Prop where
  ofName_iff : ∀ {token k}, ofName token = some k ↔ token = name k
  ne_nil : ∀ k, name k ≠ []
  no_equals : ∀ k, '=' ∉ name k

/-- The name of a member of `vhost`. -/
def SiteField.name : SiteField → Str
  | .hostname => "hostname".toList
  | .root => "root".toList

theorem ConfigKey.keyNames : KeyNames ConfigKey.name ConfigKey.ofName where
  ofName_iff := ⟨ConfigKey.eq_name, by rintro rfl; exact ConfigKey.ofName_name _⟩
  ne_nil := ConfigKey.name_ne_nil
  no_equals k := k.not_delim.1

theorem SiteField.keyNames : KeyNames SiteField.name SiteField.ofName where
  ofName_iff {token k} := by
    constructor
    · intro h
      unfold ofName at h
      split at h
      · cases h; assumption
      split at h
      · cases h; assumption
      · cases h
    · rintro rfl
      cases k <;> decide
  ne_nil k := by cases k <;> decide
  no_equals k := by cases k <;> decide

section

variable {K : Type} {V : K → Type} {name : K → Str} {ofName : Str → Option K}
  {read : (k : K) → Str → Option (V k)}

/-- The first token is a key if the first word is its name. -/
theorem KeyNames.strtok_iff (h : KeyNames name ofName) {piece rest : Str} {k : K} :
    (∃ token, strtok ['='] (cstr piece) = (some token, rest) ∧ ofName token = some k) ↔
      FirstWord (name k) piece rest := by
  rw [← strtok_eq_iff_firstWord (h.ne_nil k) (h.no_equals k)]
  constructor
  · rintro ⟨token, hcut, hk⟩
    rw [hcut, h.ofName_iff.mp hk]
  · exact fun hcut => ⟨_, hcut, h.ofName_iff.mpr rfl⟩

/-! ## One piece of a line -/

/-- A piece without a key: a comment, or a first word that is no key. -/
def KeyFree (name : K → Str) (piece : Str) : Prop :=
  piece.head? = some '#' ∨
    (∃ c ∈ cstr piece, c ≠ '=') ∧ ∀ k rest, ¬ FirstWord (name k) piece rest

/-- The loop gets through a piece: it is a comment, or it has a word, and a key in
it has a value. -/
theorem KeyNames.keyedLine_ok_iff (h : KeyNames name ofName) {piece : Str} :
    (∃ e, keyedLine ofName read piece = .ok e) ↔
      piece.head? = some '#' ∨ (∃ c ∈ cstr piece, c ≠ '=') ∧
        ∀ k rest, FirstWord (name k) piece rest → (read k rest).isSome := by
  simp only [← h.strtok_iff, ← exists_token_iff]
  unfold keyedLine
  by_cases hcomment : piece.head? = some '#'
  · simp [hcomment]
  · rw [if_neg hcomment]
    rcases strtok ['='] (cstr piece) with ⟨_ | token, rest⟩
    · simp [hcomment]
    · cases hk : ofName token with
      | none => simp [hk]
      | some k =>
          cases hv : read k rest with
          | none => simp [hcomment, hk, hv]
          | some v => simp [hk, hv]

/-- A piece has no effect if it has no key. -/
theorem KeyNames.keyedLine_none_iff (h : KeyNames name ofName) {piece : Str} :
    keyedLine ofName read piece = .ok none ↔ KeyFree name piece := by
  simp only [KeyFree, ← h.strtok_iff, ← exists_token_iff]
  unfold keyedLine
  by_cases hcomment : piece.head? = some '#'
  · simp [hcomment]
  · rw [if_neg hcomment]
    rcases strtok ['='] (cstr piece) with ⟨_ | token, rest⟩
    · simp [hcomment]
    · cases hk : ofName token with
      | none => simp [hk]
      | some k => cases hv : read k rest <;> simp [hcomment, hk, hv]

end

/-! ## Values -/

/-- There is a value behind a key: a byte other than `=` for the port, and for the
others one that is no quote in the first word. -/
def ConfigKey.HasValue : ConfigKey → Str → Prop
  | .port, rest => ∃ c ∈ rest, c ≠ '='
  | .listenAddr, rest | .mimesFile, rest | .logsDir, rest =>
      ∃ c ∈ (rest.dropWhile (· = '=')).takeWhile (· ≠ '='), c ≠ '\"'

theorem strtok_isSome_iff {d : Char} {s : Str} :
    (strtok [d] s).1.isSome ↔ ∃ c ∈ s, c ≠ d := by
  rw [Option.isSome_iff_ne_none, Ne, strtok_eq_none_iff]
  simp

theorem unquote_isSome_iff {rest : Str} :
    (unquote rest).isSome ↔ ∃ c ∈ (rest.dropWhile (· = '=')).takeWhile (· ≠ '='), c ≠ '\"' := by
  rw [← strtok_isSome_iff]
  unfold unquote
  by_cases hnone : rest.dropWhile (· = '=') = []
  · have hcut : strtok ['='] rest = (none, []) := by simp [strtok, hnone]
    rw [hcut, hnone]
    rfl
  · have hcut : (strtok ['='] rest).1 =
        some ((rest.dropWhile (· = '=')).takeWhile (· ≠ '=')) := by
      simp [strtok, hnone]
    cases h : strtok ['='] rest with
    | mk token rest' =>
        rw [h] at hcut
        obtain rfl := hcut
        rfl

theorem ConfigKey.read_isSome_iff {k : ConfigKey} {rest : Str} :
    (k.read rest).isSome ↔ k.HasValue rest := by
  cases k with
  | port => rw [read, Option.isSome_map, strtok_isSome_iff]; rfl
  | listenAddr | mimesFile | logsDir => exact unquote_isSome_iff

/-! ## Texts -/

/-- A complete line: a known key, a `=`, and a value that is not made of delimiters
alone. -/
def Complete {K : Type} (name : K → Str) (line : Str) : Prop :=
  ∃ k value eol, line = name k ++ '=' :: value ++ eol ∧ '\n' ∉ value ∧
    (eol = [] ∨ eol = ['\n']) ∧ ∃ c ∈ cstr value, c ≠ '=' ∧ c ≠ '\"'

/-- A piece of a line of `server.cfg` that is read as it should be. -/
def PieceOk (line piece : Str) : Prop :=
  piece.head? = some '#' ∨ (∃ c ∈ cstr piece, c ≠ '=') ∧
    ∀ k rest, FirstWord (ConfigKey.name k) piece rest →
      Complete ConfigKey.name line ∧ k.HasValue rest

/-- The pieces of a text are those of its lines. -/
theorem mem_fgetsAll_iff {content piece : Str} :
    piece ∈ fgetsAll 255 content ↔ ∃ line ∈ getlineAll content, piece ∈ fgetsAll 255 line := by
  rw [fgetsAll_flatMap (by decide), List.mem_flatMap]

/-- The loop over `server.cfg` finds its way through a text, and nothing in lines that
are not complete. -/
theorem piecesOk_iff {content : Str} :
    ((∃ es, entries configEntry (fgetsAll 255 content) = .ok es) ∧
      ∀ line ∈ getlineAll content, ¬ Complete ConfigKey.name line →
        entries configEntry (fgetsAll 255 line) = .ok []) ↔
      ∀ line ∈ getlineAll content, ∀ piece ∈ fgetsAll 255 line, PieceOk line piece := by
  simp only [entries_ok_iff, entries_eq_nil_iff, configEntry, ConfigKey.keyNames.keyedLine_ok_iff,
    ConfigKey.keyNames.keyedLine_none_iff, ConfigKey.read_isSome_iff]
  constructor
  · rintro ⟨hends, hunchanged⟩ line hline piece hpiece
    rcases hends piece (mem_fgetsAll_iff.mpr ⟨line, hline, hpiece⟩) with hcomment | ⟨hword, hvalue⟩
    · exact .inl hcomment
    by_cases hcomment : piece.head? = some '#'
    · exact .inl hcomment
    refine .inr ⟨hword, fun k rest hk => ⟨?_, hvalue k rest hk⟩⟩
    -- a key in a line that is not complete would be found
    by_contra hincomplete
    have hfree := hunchanged line hline hincomplete piece hpiece
    exact (hfree.resolve_left hcomment).2 k rest hk
  · intro h
    constructor
    · intro piece hpiece
      obtain ⟨line, hline, hpiece⟩ := mem_fgetsAll_iff.mp hpiece
      exact (h line hline piece hpiece).imp_right fun hok =>
        ⟨hok.1, fun k rest hk => (hok.2 k rest hk).2⟩
    · intro line hline hincomplete piece hpiece
      exact (h line hline piece hpiece).imp_right fun hok =>
        ⟨hok.1, fun k rest hk => hincomplete (hok.2 k rest hk).1⟩

/-! ## The two loops -/

instance : ∀ k : ConfigKey, Nontrivial k.Value
  | .port => ⟨(0 : Int), (1 : Int), by decide⟩
  | .listenAddr | .mimesFile | .logsDir => ⟨([] : Str), ['a'], by decide⟩

/-- Both loops of `get_config_from_file` survive their texts: they end, and a line
that is not complete leaves what they have read before.  The loop over a site file
copies through the pointers of the local `vhost`. -/
structure SurvivesLoading (cfg : Str) (sites : List Str) : Prop where
  cfg_ends : ∀ config, ∃ config', configLoop (fgetsAll 255 cfg) config = .ret config'
  cfg_unchanged : ∀ line ∈ getlineAll cfg, ¬ Complete ConfigKey.name line →
    ∀ config, configLoop (fgetsAll 255 line) config = .ret config
  sites_end : ∀ site ∈ sites, ∀ memory, ∃ memory',
    vhostLoop .unset (fgetsAll 255 site) memory = .ret memory'
  sites_unchanged : ∀ site ∈ sites, ∀ line ∈ getlineAll site, ¬ Complete SiteField.name line →
    ∀ memory, vhostLoop .unset (fgetsAll 255 line) memory = .ret memory

theorem configLoop_ret_iff {lines : List Str} :
    (∀ config, ∃ config', configLoop lines config = .ret config') ↔
      ∃ es, entries configEntry lines = .ok es := by
  simp only [configLoop_eq, orFault_map_eq_ret_iff]
  constructor
  · intro h
    obtain ⟨-, es, hes, -⟩ := h .default
    exact ⟨es, hes⟩
  · rintro ⟨es, hes⟩ config
    exact ⟨_, es, hes, rfl⟩

theorem configLoop_self_iff {lines : List Str} :
    (∀ config, configLoop lines config = .ret config) ↔ entries configEntry lines = .ok [] := by
  have : Nonempty Settings := ⟨.default⟩
  simp only [configLoop_eq, orFault_map_eq_ret_iff]
  constructor
  · intro h
    obtain ⟨es, hes, -⟩ := h .default
    have hself : ∀ config, Settings.record.setAll config es = config := by
      intro config
      obtain ⟨es', hes', hset⟩ := h config
      cases hes.symm.trans hes'
      exact hset
    rw [hes, Settings.record.setAll_eq_self_iff.mp hself]
  · exact fun h config => ⟨[], h, rfl⟩

/-- The loop over a site file ends only if it has nothing to copy. -/
theorem vhostLoop_unset_ret_iff {lines : List Str} :
    (∀ memory, ∃ memory', vhostLoop .unset lines memory = .ret memory') ↔
      entries siteEntry lines = .ok [] := by
  constructor
  · intro h
    obtain ⟨memory', hret⟩ := h fun _ => []
    rcases vhostLoop_unset lines fun _ => [] with ⟨hnil, -⟩ | ⟨f, hfault⟩
    · exact hnil
    · cases hret.symm.trans hfault
  · exact fun h memory => ⟨memory, vhostLoop_of_nil .unset h memory⟩

/-- The loops survive exactly the texts whose pieces are read as they should be. -/
theorem survivesLoading_iff (cfg : Str) (sites : List Str) :
    SurvivesLoading cfg sites ↔
      (∀ line ∈ getlineAll cfg, ∀ piece ∈ fgetsAll 255 line, PieceOk line piece) ∧
        ∀ site ∈ sites, ∀ piece ∈ fgetsAll 255 site, KeyFree SiteField.name piece := by
  have hfree : ∀ {pieces : List Str}, entries siteEntry pieces = .ok [] ↔
      ∀ piece ∈ pieces, KeyFree SiteField.name piece := by
    intro pieces
    simp only [entries_eq_nil_iff, siteEntry, SiteField.keyNames.keyedLine_none_iff]
  rw [← piecesOk_iff]
  constructor
  · intro h
    refine ⟨⟨configLoop_ret_iff.mp h.cfg_ends, fun line hline hc =>
      configLoop_self_iff.mp (h.cfg_unchanged line hline hc)⟩, fun site hsite => ?_⟩
    exact hfree.mp (vhostLoop_unset_ret_iff.mp (h.sites_end site hsite))
  · rintro ⟨⟨hends, hunchanged⟩, hsites⟩
    exact
      { cfg_ends := configLoop_ret_iff.mpr hends
        cfg_unchanged := fun line hline hc => configLoop_self_iff.mpr (hunchanged line hline hc)
        sites_end := fun site hsite => vhostLoop_unset_ret_iff.mpr (hfree.mpr (hsites site hsite))
        sites_unchanged := fun site hsite line hline _ memory =>
          vhostLoop_of_nil .unset (hfree.mpr fun piece hpiece =>
            hsites site hsite piece (mem_fgetsAll_iff.mpr ⟨line, hline, hpiece⟩)) memory }

/-- A last line that is a key alone has no value. -/
theorem not_survivesLoading_port : ¬ SurvivesLoading "port".toList [] := by
  intro h
  have hfault : configLoop (fgetsAll 255 "port".toList) .default = fault .nullPointer := rfl
  obtain ⟨config', hret⟩ := h.cfg_ends .default
  cases hfault.symm.trans hret

end Pawnee
