import Pawnee.Source.Log

/-!
# Files (`file.c`)

`checkAndOpen` joins the document root and the target in a buffer of `PATH_MAX`
bytes and opens the file there.  `fullPath` is the path it builds, and
`openResult` is the file it returns, without the calls it makes.

`getMimeType` scans the mime file.  It uses two pointers that may be outside
their object: the extension of a name without a dot, and the byte before the
line.
-/

namespace Pawnee

open CText Effects

/-! ## `check_and_open` -/

/-- The path `check_and_open` builds from the document root and the target. -/
def fullPath (documentRoot target : Str) : Str :=
  let root := documentRoot.take (pathMax - 1)
  let root :=
    if root.getLast? ≠ some '/' then strncat root ['/'] (pathMax - root.length - 1) else root
  let path := strncat [] root (pathMax - 1)
  strncat path target (pathMax - path.length - 1)

/-- `check_and_open`. -/
def checkAndOpen (env : Env) (target : Str) (documentRoot : Option Str) :
    Server (Option OpenFile) :=
  match documentRoot with
  | none | some [] => do
      writeError "Invalid document root"
      pure none
  | some documentRoot => do
      let path := fullPath documentRoot target
      perform (.stat path)
      match env.stat path with
      | none => do
          writeError "stat error: no such file or directory"
          pure none
      | some pathStat =>
          if !pathStat.isReg then do
            writeError "stat error: not regular file"
            pure none
          else if pathStat.isDir then do
            writeError "stat error: is a directory"
            pure none
          else do
            perform (.fopen path)
            match env.fopen path with
            | none => do
                writeError "fopen error"
                pure none
            | some result => pure (some result)

/-- The file `check_and_open` returns for a path. -/
def openResult (env : Env) (path : Str) : Option OpenFile :=
  match env.stat path with
  | none => none
  | some pathStat => if !pathStat.isReg ∨ pathStat.isDir then none else env.fopen path

/-- The calls `check_and_open` makes for a path. -/
def openCalls (env : Env) (path : Str) : List Call :=
  match env.stat path with
  | none => [.stat path, .logError "stat error: no such file or directory".toList]
  | some pathStat =>
      if !pathStat.isReg then [.stat path, .logError "stat error: not regular file".toList]
      else if pathStat.isDir then [.stat path, .logError "stat error: is a directory".toList]
      else
        match env.fopen path with
        | none => [.stat path, .fopen path, .logError "fopen error".toList]
        | some _ => [.stat path, .fopen path]

theorem checkAndOpen_eq (env : Env) (target : Str) {documentRoot : Str} (h : documentRoot ≠ []) :
    checkAndOpen env target (some documentRoot) =
      .doing (openCalls env (fullPath documentRoot target))
        (.ret (openResult env (fullPath documentRoot target))) := by
  obtain ⟨c, r, rfl⟩ := List.exists_cons_of_ne_nil h
  simp only [checkAndOpen, openCalls, openResult]
  cases env.stat (fullPath (c :: r) target) with
  | none => rfl
  | some st =>
      obtain ⟨isReg, isDir⟩ := st
      cases isReg <;> cases isDir <;> try rfl
      cases env.fopen (fullPath (c :: r) target) <;> rfl

/-- The root as `check_root` leaves it: it ends with a `/`. -/
def withSlash (root : Str) : Str := if root.getLast? = some '/' then root else root ++ ['/']

theorem withSlash_ne_nil (root : Str) : withSlash root ≠ [] := by
  unfold withSlash
  split
  · next h => rintro rfl; simp at h
  · simp

theorem withSlash_withSlash (root : Str) : withSlash (withSlash root) = withSlash root := by
  have h : (withSlash root).getLast? = some '/' := by
    unfold withSlash
    split
    · assumption
    · simp
  rw [withSlash, if_pos h]

theorem withSlash_length_le (root : Str) : (withSlash root).length ≤ root.length + 1 := by
  unfold withSlash
  split <;> simp

/-- Nothing is cut from a path that fits its buffer. -/
theorem fullPath_eq {documentRoot target : Str}
    (h : documentRoot.length + target.length + 2 ≤ pathMax) :
    fullPath documentRoot target = withSlash documentRoot ++ target := by
  have hroot : documentRoot.take (pathMax - 1) = documentRoot := List.take_of_length_le (by omega)
  have hslash : (if documentRoot.getLast? ≠ some '/' then
      strncat documentRoot ['/'] (pathMax - documentRoot.length - 1) else documentRoot) =
      withSlash documentRoot := by
    unfold withSlash
    by_cases hl : documentRoot.getLast? = some '/'
    · simp [hl]
    · rw [if_pos hl, if_neg hl, strncat_eq_append]
      simp only [List.length_singleton]
      omega
  have hlen := withSlash_length_le documentRoot
  have hcopy : strncat [] (withSlash documentRoot) (pathMax - 1) = withSlash documentRoot := by
    rw [strncat_eq_append (by omega), List.nil_append]
  simp only [fullPath, hroot, hslash, hcopy]
  rw [strncat_eq_append (by omega)]

/-! ## `get_file_size`, `check_root`, `get_last_modified_date` -/

/-- `get_file_size`: `st_size` returned as an `int`. -/
def getFileSize (file : OpenFile) : Int := toInt32 file.content.length

/-- `get_last_modified_date`. -/
def getLastModifiedDate (file : OpenFile) : Int := file.mtime

/-- `check_root`.  `strncat` is told that the buffer has `PATH_MAX` bytes of room.  If it has
not, the text here gets longer than its block (`StaysInBuffer`). -/
def checkRoot (env : Env) (root : CharBuffer) : Server CharBuffer := do
  perform (.access root.text)
  if !env.access root.text then do
    writeError "no access to the root"
    exitFailure
  else do
    perform (.stat root.text)
    match env.stat root.text with
    | none => do
        writeError "root access error"
        exitFailure
    | some rootStat =>
        if !rootStat.isDir then do
          writeError "root is not a directory"
          exitFailure
        else if root.text.getLast? = some '/' then pure root
        else pure { root with text := strncat root.text ['/'] pathMax }

/-- The root passes the tests of `check_root`. -/
def RootPasses (env : Env) (root : Str) : Prop :=
  env.access root = true ∧ ∃ st, env.stat root = some st ∧ st.isDir = true

instance (env : Env) (root : Str) : Decidable (RootPasses env root) :=
  decidable_of_iff (env.access root = true ∧ (env.stat root).any FileStat.isDir = true) (by
    simp [RootPasses, Option.any_eq_true])

/-- The calls `check_root` makes. -/
def rootCalls (env : Env) (root : Str) : List Call :=
  if env.access root then
    match env.stat root with
    | none => [.access root, .stat root, .logError "root access error".toList]
    | some rootStat =>
        if rootStat.isDir then [.access root, .stat root]
        else [.access root, .stat root, .logError "root is not a directory".toList]
  else [.access root, .logError "no access to the root".toList]

/-- A root that passes ends with a `/`, and one that does not pass ends the process. -/
theorem checkRoot_eq (env : Env) (root : CharBuffer) :
    checkRoot env root = .doing (rootCalls env root.text)
      (if RootPasses env root.text then .ret ⟨withSlash root.text, root.capacity⟩
        else exitFailure) := by
  have hslash : (if root.text.getLast? = some '/' then (pure root : Server CharBuffer)
      else pure { root with text := strncat root.text ['/'] pathMax }) =
      .ret ⟨withSlash root.text, root.capacity⟩ := by
    have hcat : strncat root.text ['/'] pathMax = root.text ++ ['/'] := rfl
    unfold withSlash
    split <;> simp [hcat]
  simp only [checkRoot, rootCalls, hslash]
  cases hacc : env.access root.text with
  | false =>
      have hno : ¬ RootPasses env root.text := by simp [RootPasses, hacc]
      rw [if_neg hno]
      rfl
  | true =>
      cases hst : env.stat root.text with
      | none =>
          have hno : ¬ RootPasses env root.text := by simp [RootPasses, hst]
          rw [if_neg hno]
          rfl
      | some st =>
          cases hdir : st.isDir with
          | false =>
              have hno : ¬ RootPasses env root.text := by simp [RootPasses, hst, hdir]
              rw [if_neg hno]
              simp only [hdir]
              rfl
          | true =>
              have hyes : RootPasses env root.text := ⟨hacc, st, hst, hdir⟩
              rw [if_pos hyes]
              simp only [hdir]
              rfl

/-! ## `get_mime_type` -/

/-- What is done with the line whose extension matches.  `strlen(result - 1)`
looks at the byte before the type, which is outside the line if the line starts
with the type.  Otherwise it is a `*`, and the NUL is written behind the type. -/
def matchedType (line : Str) : Server (Option Str) :=
  match (strtok ['*'] line).1 with
  | none => fault .nullPointer
  | some result =>
      if result.getLast? = some ' ' then
        if line.head? = some '*' then pure (some result) else fault .outOfBounds
      else pure (some result)

/-- The loop of `get_mime_type`.  `ext` is `none` when the name has no dot. -/
def mimeLoop (ext : Option Str) : List Str → Server (Option Str)
  | [] => pure (some [])
  | line :: lines =>
      -- `strlen` and `strtok` see the line up to its first NUL
      let line := cstr line
      if line = [] then fault .outOfBounds
      else
        let line := line.dropLast
        let (_, rest) := strtok ['*'] line
        match (strtok ['*'] rest).1 with
        | none => mimeLoop ext lines
        | some token =>
            match ext with
            | none => fault .nullPointer
            | some ext => if token = ext then matchedType line else mimeLoop (some ext) lines

/-- `strrchr(name, '.')`, one byte further. -/
def extensionOf (name : Str) : Option Str :=
  if '.' ∈ name then some (name.reverse.takeWhile (· ≠ '.')).reverse else none

/-- `get_mime_type`. -/
def getMimeType (env : Env) (name : Str) : Server (Option Str) :=
  match env.mimes with
  | some mimeTypeFile => mimeLoop (extensionOf name) (getlineAll mimeTypeFile)
  | none => do
      writeError "open mime file error : "
      pure (some [])

/-- The two parts `strtok` cuts from a mime line whose last byte is removed. -/
def mimeParts (line : Str) : Option (Str × Str) :=
  match strtok ['*'] line with
  | (none, _) => none
  | (some mimeType, rest) => (strtok ['*'] rest).1.map fun token => (mimeType, token)

/-- The type found in the mime file, empty if there is none, or the undefined
behaviour of the scan. -/
def mimeLookup (ext : Option Str) : List Str → Except Fault Str
  | [] => .ok []
  | line :: lines =>
      if cstr line = [] then .error .outOfBounds
      else
        match mimeParts (cstr line).dropLast with
        | none => mimeLookup ext lines
        | some (mimeType, token) =>
            match ext with
            | none => .error .nullPointer
            | some ext =>
                if token = ext then
                  if mimeType.getLast? = some ' ' ∧ (cstr line).dropLast.head? ≠ some '*' then
                    .error .outOfBounds
                  else .ok mimeType
                else mimeLookup (some ext) lines

/-- The type `get_mime_type` returns for a name. -/
def mimeType (env : Env) (name : Str) : Except Fault Str :=
  match env.mimes with
  | some content => mimeLookup (extensionOf name) (getlineAll content)
  | none => .ok []

/-- The calls `get_mime_type` makes. -/
def mimeCalls (env : Env) : List Call :=
  match env.mimes with
  | some _ => []
  | none => [.logError "open mime file error : ".toList]

theorem mimeParts_none {line : Str} (h : mimeParts line = none) :
    (strtok ['*'] (strtok ['*'] line).2).1 = none := by
  rcases h1 : strtok ['*'] line with ⟨_ | m, r⟩
  · have hr : r = [] := by
      simp only [strtok] at h1
      split at h1 <;> cases h1
      rfl
    simp [hr]
  · simpa [mimeParts, h1] using h

theorem mimeParts_some {line mimeType token : Str} (h : mimeParts line = some (mimeType, token)) :
    (strtok ['*'] line).1 = some mimeType ∧
      (strtok ['*'] (strtok ['*'] line).2).1 = some token := by
  rcases h1 : strtok ['*'] line with ⟨_ | m, r⟩
  · simp [mimeParts, h1] at h
  · obtain ⟨t, ht, hmt⟩ : ∃ t, (strtok ['*'] r).1 = some t ∧ (m, t) = (mimeType, token) := by
      simpa [mimeParts, h1] using h
    cases hmt
    exact ⟨rfl, ht⟩

theorem matchedType_eq {line mimeType : Str} (h : (strtok ['*'] line).1 = some mimeType) :
    matchedType line =
      if mimeType.getLast? = some ' ' ∧ line.head? ≠ some '*' then fault .outOfBounds
      else .ret (some mimeType) := by
  simp only [matchedType, h]
  by_cases hs : mimeType.getLast? = some ' '
  · by_cases hstar : line.head? = some '*'
    · simp [hs, hstar]
    · simp [hs, hstar]
  · simp [hs]

/-- The loop finds the type of the first line with the extension. -/
theorem mimeLoop_eq (ext : Option Str) : ∀ lines : List Str,
    mimeLoop ext lines = orFault ((mimeLookup ext lines).map some)
  | [] => rfl
  | line :: lines => by
      simp only [mimeLoop, mimeLookup]
      by_cases hnil : cstr line = []
      · simp [hnil, Except.map]
      · simp only [hnil, if_false]
        cases hparts : mimeParts (cstr line).dropLast with
        | none =>
            simp only [mimeParts_none hparts]
            exact mimeLoop_eq ext lines
        | some parts =>
            obtain ⟨m, token⟩ := parts
            obtain ⟨hm, htoken⟩ := mimeParts_some hparts
            simp only [htoken]
            cases ext with
            | none => rfl
            | some e =>
                by_cases hte : token = e
                · simp only [hte, if_true, matchedType_eq hm]
                  split <;> rfl
                · simp only [hte, if_false]
                  exact mimeLoop_eq (some e) lines

theorem getMimeType_eq (env : Env) (name : Str) :
    getMimeType env name = .doing (mimeCalls env) (orFault ((mimeType env name).map some)) := by
  simp only [getMimeType, mimeCalls, mimeType]
  cases env.mimes with
  | none => rfl
  | some content => exact mimeLoop_eq _ _

/-! ## Mime files that can be scanned -/

/-- The line gives the type of the extension. -/
def GivesType (ext : Option Str) (line : Str) : Prop :=
  ∃ mimeType token, mimeParts (cstr line).dropLast = some (mimeType, token) ∧ ext = some token

/-- The scan can use a line. -/
structure Scannable (ext : Option Str) (line : Str) : Prop where
  /-- There is a byte before the first NUL. -/
  ne_nil : cstr line ≠ []
  /-- A second part is there only when there is an extension to compare with it. -/
  ext_ne_none : ∀ parts, mimeParts (cstr line).dropLast = some parts → ext ≠ none
  /-- The type that is found does not end with a space, or a `*` is in front of it. -/
  type_end : ∀ mimeType token, mimeParts (cstr line).dropLast = some (mimeType, token) →
    ext = some token → mimeType.getLast? = some ' ' → (cstr line).dropLast.head? = some '*'

/-- The lines up to the first that gives the type can be used. -/
def MimeScans (ext : Option Str) : List Str → Prop
  | [] => True
  | line :: lines => Scannable ext line ∧ (GivesType ext line ∨ MimeScans ext lines)

/-- The scan of the mime file for a name uses no pointer outside its object. -/
def MimeReadable (env : Env) (name : Str) : Prop :=
  ∀ content, env.mimes = some content → MimeScans (extensionOf name) (getlineAll content)

/-- A line of the extension is used up to the last character of its type. -/
theorem scannable_of_token {line m e : Str} (hnil : cstr line ≠ [])
    (hparts : mimeParts (cstr line).dropLast = some (m, e)) :
    Scannable (some e) line ↔
      ¬ (m.getLast? = some ' ' ∧ (cstr line).dropLast.head? ≠ some '*') := by
  constructor
  · rintro h ⟨hspace, hstar⟩
    exact hstar (h.type_end m e hparts rfl hspace)
  · intro h
    refine ⟨hnil, by simp, fun m' t' hp _ hspace => ?_⟩
    cases hparts.symm.trans hp
    exact not_not.mp fun hstar => h ⟨hspace, hstar⟩

/-- Of a line of another extension only the token is used. -/
theorem scannable_of_ne {line m token e : Str} (hnil : cstr line ≠ [])
    (hparts : mimeParts (cstr line).dropLast = some (m, token)) (hne : token ≠ e) :
    Scannable (some e) line := by
  refine ⟨hnil, by simp, fun m' t' hp he => ?_⟩
  cases hparts.symm.trans hp
  cases he
  exact absurd rfl hne

/-- A line that gives the type ends the scan. -/
theorem mimeLookup_here {ext : Option Str} {line m token : Str} (h : Scannable ext line)
    (hparts : mimeParts (cstr line).dropLast = some (m, token)) (hext : ext = some token)
    (lines : List Str) : mimeLookup ext (line :: lines) = .ok m := by
  subst hext
  have hgood := (scannable_of_token h.ne_nil hparts).mp h
  simp only [mimeLookup, if_neg h.ne_nil, hparts, if_true, if_neg hgood]

/-- A line that gives no type is skipped. -/
theorem mimeLookup_later {ext : Option Str} {line : Str} (h : Scannable ext line)
    (hno : ¬ GivesType ext line) (lines : List Str) :
    mimeLookup ext (line :: lines) = mimeLookup ext lines := by
  rw [mimeLookup, if_neg h.ne_nil]
  cases hparts : mimeParts (cstr line).dropLast with
  | none => rfl
  | some parts =>
      obtain ⟨m, token⟩ := parts
      cases ext with
      | none => exact absurd rfl (h.ext_ne_none _ hparts)
      | some e =>
          have hne : token ≠ e := fun heq => hno ⟨m, token, hparts, congrArg some heq.symm⟩
          exact if_neg hne

/-- A line that cannot be used ends the process. -/
theorem mimeLookup_unscannable {ext : Option Str} {line : Str} (h : ¬ Scannable ext line)
    (lines : List Str) : ∃ f, mimeLookup ext (line :: lines) = .error f := by
  rw [mimeLookup]
  by_cases hnil : cstr line = []
  · exact ⟨_, if_pos hnil⟩
  · rw [if_neg hnil]
    cases hparts : mimeParts (cstr line).dropLast with
    | none => exact absurd ⟨hnil, by simp [hparts], by simp [hparts]⟩ h
    | some parts =>
        obtain ⟨m, token⟩ := parts
        cases ext with
        | none => exact ⟨_, rfl⟩
        | some e =>
            by_cases hte : token = e
            · subst hte
              have hbad := not_not.mp ((scannable_of_token hnil hparts).not.mp h)
              simp only [if_true, if_pos hbad]
              exact ⟨_, rfl⟩
            · exact absurd (scannable_of_ne hnil hparts hte) h

theorem mimeLookup_ok_iff (ext : Option Str) : ∀ lines : List Str,
    (∃ t, mimeLookup ext lines = .ok t) ↔ MimeScans ext lines
  | [] => by simp [mimeLookup, MimeScans]
  | line :: lines => by
      rw [MimeScans]
      by_cases hscan : Scannable ext line
      · by_cases hgive : GivesType ext line
        · obtain ⟨m, token, hparts, hext⟩ := hgive
          have hhere := mimeLookup_here hscan hparts hext lines
          exact iff_of_true ⟨m, hhere⟩ ⟨hscan, .inl ⟨m, token, hparts, hext⟩⟩
        · rw [mimeLookup_later hscan hgive, mimeLookup_ok_iff ext lines]
          simp [hscan, hgive]
      · obtain ⟨f, hf⟩ := mimeLookup_unscannable hscan lines
        simp [hf, hscan]

/-- A type is returned exactly if the mime file can be scanned. -/
theorem mimeType_ok_iff (env : Env) (name : Str) :
    (∃ t, mimeType env name = .ok t) ↔ MimeReadable env name := by
  simp only [mimeType, MimeReadable]
  cases env.mimes with
  | none => simp
  | some content => simpa using mimeLookup_ok_iff _ _

end Pawnee
