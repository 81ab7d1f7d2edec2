import Pawnee.Child.Observed

/-!
# Targets, paths and queries (`rewrite_target`, `get_query_params`)

A target is a path, and a query behind the first `?`.  The rewriting drops the
first byte of the path, whatever it is, so a target names what the child looks
for only if it starts with a slash (`targets_name_resources`).

`get_query_params` cuts the query with `strtok`, which takes a `?` in the query
for a separator as well, so the two functions keep the whole target only if
there is no second `?` (`queryLossless_iff`).
-/

namespace Pawnee

open CText Effects

/-- The path of a target: what stands before its first `?`. -/
def targetPath (target : Str) : Str := target.takeWhile (· ≠ '?')

/-- The query of a target: what stands behind its first `?`, if it has one. -/
def targetQuery (target : Str) : Option Str :=
  match target.dropWhile (· ≠ '?') with
  | [] => none
  | _ :: query => some query

/-! ## Targets that start with a slash -/

/-- The rewriting of a target that starts with a slash is a rewriting of its path. -/
theorem rewritten_slash (s : Str) :
    rewritten ('/' :: s) = some (if targetPath ('/' :: s) = ['/'] then "index.html".toList
      else (targetPath ('/' :: s)).drop 1) := by
  have hcut := strtok_cons (s := s) (show '/' ∉ ['?'] by decide)
  have hpath : ('/' :: s).takeWhile (· ∉ ['?']) = targetPath ('/' :: s) := by
    simp [targetPath]
  rw [rewritten, hcut, hpath]
  rfl

theorem targetPath_slash (s : Str) : ∃ p, targetPath ('/' :: s) = '/' :: p :=
  ⟨_, List.takeWhile_cons_of_pos (by decide)⟩

/-- The query of a target that starts with a slash is cut once more. -/
theorem getQueryParams_slash (s : Str) :
    getQueryParams ('/' :: s) = (strtok ['?'] ((targetQuery ('/' :: s)).getD [])).1 := by
  have hcut := strtok_cons (s := s) (show '/' ∉ ['?'] by decide)
  have hrest : (('/' :: s).dropWhile (· ∉ ['?'])).drop 1 =
      (targetQuery ('/' :: s)).getD [] := by
    have hsame : ('/' :: s).dropWhile (· ∉ ['?']) = ('/' :: s).dropWhile (· ≠ '?') := by simp
    rw [hsame, targetQuery]
    cases ('/' :: s).dropWhile (· ≠ '?') <;> rfl
  rw [getQueryParams, hcut, hrest]

/-! ## The resource a target names -/

/-- The rewriting answers, and it answers the resource the path names. -/
def NamesResource (target : Str) : Prop :=
  ∃ r, rewriteTarget target = .ret r ∧
    (targetPath target = '/' :: r ∨ targetPath target = ['/'] ∧ r = "index.html".toList)

theorem rewriteTarget_eq_ret_iff {target r : Str} :
    rewriteTarget target = .ret r ↔ rewritten target = some r := by
  constructor
  · intro h
    cases hr : rewritten target with
    | none => cases (rewriteTarget_of_none hr).symm.trans h
    | some r' => cases (rewriteTarget_of_some hr).symm.trans h; rfl
  · exact rewriteTarget_of_some

theorem namesResource_iff {target : Str} : NamesResource target ↔ target.head? = some '/' := by
  constructor
  · rintro ⟨r, -, hpath⟩
    have hhead : (targetPath target).head? = some '/' := by
      rcases hpath with hpath | ⟨hpath, -⟩ <;> rw [hpath] <;> rfl
    obtain ⟨p, hp⟩ := List.head?_eq_some_iff.mp hhead
    obtain ⟨s, hs⟩ := List.takeWhile_prefix (l := target) (· ≠ '?')
    rw [← hs, show target.takeWhile (· ≠ '?') = '/' :: p from hp]
    rfl
  · intro h
    obtain ⟨s, rfl⟩ := List.head?_eq_some_iff.mp h
    refine ⟨_, rewriteTarget_of_some (rewritten_slash s), ?_⟩
    by_cases hroot : targetPath ('/' :: s) = ['/']
    · rw [if_pos hroot]
      exact .inr ⟨hroot, rfl⟩
    · obtain ⟨p, hp⟩ := targetPath_slash s
      rw [if_neg hroot, hp]
      exact .inl rfl

/-- The resource of a target that names it tells the path, but for `/` and
`/index.html`. -/
theorem NamesResource.path_eq {target target' r : Str} (h : NamesResource target)
    (h' : NamesResource target') (hr : rewritten target = some r)
    (hr' : rewritten target' = some r) :
    targetPath target = targetPath target' ∨
      (targetPath target = "/".toList ∧ targetPath target' = "/index.html".toList) ∨
      (targetPath target = "/index.html".toList ∧ targetPath target' = "/".toList) := by
  obtain ⟨r₁, h₁, hpath⟩ := h
  obtain ⟨r₂, h₂, hpath'⟩ := h'
  cases hr.symm.trans (rewriteTarget_eq_ret_iff.mp h₁)
  cases hr'.symm.trans (rewriteTarget_eq_ret_iff.mp h₂)
  rcases hpath with hpath | ⟨hpath, hindex⟩ <;> rcases hpath' with hpath' | ⟨hpath', hindex'⟩
  · exact .inl (hpath.trans hpath'.symm)
  · exact .inr (.inr ⟨by rw [hpath, hindex']; rfl, hpath'⟩)
  · exact .inr (.inl ⟨hpath, by rw [hpath', hindex]; rfl⟩)
  · exact .inl (hpath.trans hpath'.symm)

/-- The stats page of a target that names its resource is the page of the path `/stats`. -/
theorem NamesResource.stats_path {target : Str} (h : NamesResource target)
    (hr : rewritten target = some statsTarget) : targetPath target = "/stats".toList := by
  obtain ⟨r, h, hpath⟩ := h
  cases hr.symm.trans (rewriteTarget_eq_ret_iff.mp h)
  rcases hpath with hpath | ⟨-, hindex⟩
  · exact hpath
  · exact absurd hindex (by decide)

/-- A target names the resource the child looks for if and only if it starts with
a slash.  Such targets get the same resource for the same path, or for `/` and
`/index.html`, and the stats page for `/stats`. -/
theorem targets_name_resources (target : Str) :
    (NamesResource target ↔ target.head? = some '/') ∧
      (target.head? = some '/' → ∀ target' r, target'.head? = some '/' →
        rewritten target = some r → rewritten target' = some r →
          targetPath target = targetPath target' ∨
            (targetPath target = "/".toList ∧ targetPath target' = "/index.html".toList) ∨
            (targetPath target = "/index.html".toList ∧ targetPath target' = "/".toList)) ∧
      (target.head? = some '/' → ∀ (env : Env) (q q' : Request), q.target = target →
        (q.course env).ending = .statsPage q' → targetPath target = "/stats".toList) := by
  refine ⟨namesResource_iff, fun h target' r h' hr hr' => ?_, fun h env q q' hq hstats => ?_⟩
  · exact (namesResource_iff.mpr h).path_eq (namesResource_iff.mpr h') hr hr'
  · subst hq
    exact (namesResource_iff.mpr h).stats_path (Request.stats_of_ending hstats).2.2.2

/-- A target without slash is accepted and gets the stats page. -/
theorem slashless_target_gets_stats :
    ∃ q, parseRequest "GET xstats HTTP/1.1\r\n".toList [] = some q ∧ q.target = "xstats".toList ∧
      (∀ env, (q.course env).ending = .statsPage q) ∧ ¬ NamesResource q.target := by
  refine ⟨⟨.get, 1, 1, "xstats".toList, []⟩, by decide, rfl, fun env => ?_, ?_⟩
  · rfl
  · rw [namesResource_iff]
    decide

/-! ## The query -/

/-- The path comes back from the rewriting, and the query from `get_query_params`
if there is one that is not empty. -/
def QueryLossless (target : Str) : Prop :=
  (∃ r, rewriteTarget target = .ret r ∧ '/' :: r = targetPath target) ∧
    getQueryParams target = (targetQuery target).filter (· ≠ [])

/-- The split of a target with a slash and a path behind it is lossless if and
only if the query holds no `?`. -/
theorem queryLossless_iff {target : Str} (hslash : target.head? = some '/')
    (hpath : targetPath target ≠ "/".toList) :
    QueryLossless target ↔ ∀ query, targetQuery target = some query → '?' ∉ query := by
  obtain ⟨s, rfl⟩ := List.head?_eq_some_iff.mp hslash
  have hrewrite : ∃ r, rewriteTarget ('/' :: s) = .ret r ∧ '/' :: r = targetPath ('/' :: s) := by
    obtain ⟨p, hp⟩ := targetPath_slash s
    refine ⟨p, rewriteTarget_of_some ?_, hp.symm⟩
    have hroot : targetPath ('/' :: s) ≠ ['/'] := hpath
    rw [rewritten_slash, if_neg hroot, hp]
    rfl
  rw [QueryLossless, and_iff_right hrewrite, getQueryParams_slash]
  cases hquery : targetQuery ('/' :: s) with
  | none => simp
  | some query =>
      by_cases hempty : query = []
      · simp [hempty, Option.filter]
      · have hkept : (some query).filter (· ≠ []) = some query := by simp [hempty]
        rw [hkept, Option.getD_some, strtok_eq_self_iff, and_iff_right hempty]
        simp only [List.mem_singleton, Option.some.injEq, forall_eq']
        exact ⟨fun h hmem => h '?' hmem rfl, fun h c hc heq => h (heq ▸ hc)⟩

/-- A query of two values. -/
theorem queryLossless_values : QueryLossless "/a?b=1&c=2".toList :=
  (queryLossless_iff (by decide) (by decide)).mpr (by decide)

/-- A `?` in the query cuts it. -/
theorem not_queryLossless_mark :
    getQueryParams "/a?b?c".toList = some "b".toList ∧ ¬ QueryLossless "/a?b?c".toList := by
  refine ⟨by decide, fun h => ?_⟩
  exact absurd h.2 (by decide)

end Pawnee
