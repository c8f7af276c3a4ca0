import CodeInterpreter.Accepted
import CodeInterpreter.Executor.Files
import CodeInterpreter.Python.Path

/-!
# File names

`sanitizeFilename` of the API and `_safe_basename` of the worker take a path apart in different ways
and admit different characters. What the first one returns, both leave alone, and what the second
one returns is the name of a file: in a directory without symbolic links it denotes a direct child,
so the check of `_write_file` that a path stays inside never fires.

## Main definitions

* `WorkDir`: a directory without symbolic links.
* `Resolved`: the replies of `realpath` in a trace.

## Main results

* `sanitizeFilename_of_safeName`, `safeBasename_idempotent`: the names that are left alone.
* `realpath_child`: a name in a work directory denotes a direct child.
* `writeFile_confined`: what `_write_file` does with such a name.
* `filenames_confined`: the two functions compose, and their names are confined.
-/

namespace CodeInterpreter

open Api Executor Async Program

/-! ### Names of the API -/

theorem fileChar_of_safeName {base : JsStr} (h : SafeName base) {u : UInt16} (hu : u ∈ base) :
    u ≠ 0 ∧ u ≠ 47 ∧ u ≠ 92 := by
  obtain ⟨-, h0, h47, h92⟩ := isFileChar_bounds (h.chars u hu)
  refine ⟨?_, ?_, ?_⟩ <;> rintro rfl
  · exact h0 rfl
  · exact h47 rfl
  · exact h92 rfl

/-- A safe name is left alone. -/
theorem sanitizeFilename_of_safeName {base : JsStr} (h : SafeName base) :
    sanitizeFilename base = some base := by
  have hslash : (base.map fun u => if u = 92 then 47 else u) = base := by
    refine (List.map_congr_left fun u hu => ?_).trans (List.map_id _)
    exact if_neg (fileChar_of_safeName h hu).2.2
  have hsplit : base.splitOn 47 = [base] :=
    List.splitOnP_eq_singleton fun u hu => beq_eq_false_iff_ne.mpr (fileChar_of_safeName h hu).2.1
  have hnul : 0 ∉ base := fun hmem => (fileChar_of_safeName h hmem).1 rfl
  have hbase : ((([base] : List JsStr).filter fun s => s ≠ []).getLast?).getD [] = base := by
    simp [h.ne_nil]
  have hchars : base.all isFileChar = true := List.all_eq_true.mpr h.chars
  unfold sanitizeFilename
  dsimp only
  rw [hslash, hsplit, hbase, if_neg hnul, if_neg (by simp [h.ne_nil, h.ne_dot, h.ne_dots]),
    if_neg (by simp [hchars]), if_neg (Nat.not_lt.mpr h.length_le)]

/-! ### A directory without symbolic links -/

section

variable {links : List Str → Option Str} {depth : ℕ} {workdir name content : Str} {root : List Str}

/-- Joining a name to a directory adds one step. -/
theorem pathNames_joinPath (hdir : workdir ≠ []) (hname : PlainName name) :
    pathNames (joinPath workdir name) = pathNames workdir ++ [name] := by
  have hone := pathNames_name hname.no_slash hname.ne_nil hname.ne_dot
  have hhead : name.head? ≠ some 47 := fun h => hname.no_slash (List.mem_of_head? h)
  rw [joinPath, if_neg hhead]
  split_ifs with hlast
  · obtain ⟨dir, rfl⟩ := List.getLast?_eq_some_iff.mp (hlast.resolve_left hdir)
    have hempty : pathNames [] = [] := rfl
    rw [List.append_assoc, List.singleton_append, pathNames_append, pathNames_append, hone, hempty,
      List.append_nil]
  · rw [List.append_assoc, List.singleton_append, pathNames_append, hone]

/-- A directory without symbolic links, which is not the root of the file system: `mkdtemp` creates
it inside another one. The names are those of its real path. -/
structure WorkDir (links : List Str → Option Str) (depth : ℕ) (workdir : Str) (root : List Str) :
    Prop where
  absolute : workdir.head? = some 47
  resolved : follow links depth [] (pathNames workdir) = some root
  ne_root : root ≠ []
  no_links : ∀ name, links (root ++ [name]) = none

section

variable (hdir : WorkDir links depth workdir root)
include hdir

theorem realpath_workdir : realpath links depth workdir = some (pathText root) := by
  rw [realpath, hdir.resolved, Option.map_some]

/-- A name in a work directory denotes a direct child of it. -/
theorem realpath_child (hname : PlainName name) :
    realpath links depth (joinPath workdir name) = some (pathText root ++ [47] ++ name) := by
  have hne : workdir ≠ [] := by
    rintro rfl
    cases hdir.absolute
  rw [realpath, pathNames_joinPath hne hname, follow_append, hdir.resolved, Option.bind_some,
    follow_name hname.ne_dots (hdir.no_links name), Option.map_some,
    pathText_append hdir.ne_root]

/-- The file system of a work directory answers as that of a working machine. -/
theorem answers_realpath (py : Python) (cfg : Settings) (host : Host) {m : Machine}
    (hworkdir : m.workdir = workdir) (hroot : m.root = pathText root) {path : Str}
    {r : Except Exc Str} (hr : ∀ real, realpath links depth path = some real → r = .ok real) :
    m.Answers py cfg host (.realpath path) r := by
  subst hworkdir
  refine ⟨?_, ?_⟩
  · rintro rfl
    rw [hroot]
    exact hr _ (realpath_workdir hdir)
  · rintro name hname rfl
    rw [hroot]
    exact hr _ (realpath_child hdir hname)

end

/-! ### Writing a file -/

/-- The replies of `realpath` in a trace are those of a disk with the given links. -/
def Resolved (links : List Str → Option Str) (depth : ℕ) (t : Executor.Trace) : Prop :=
  ∀ path r, (⟨.realpath path, r⟩ : Event Executor.Cmd Executor.Reply Exc) ∈ t →
    ∀ real, realpath links depth path = some real → r = .ok real

/-- The path and the text that an event writes. -/
def writtenText : Event Executor.Cmd Executor.Reply Exc → Option (Str × Str)
  | ⟨.writeText path text, _⟩ => some (path, text)
  | _ => none

/-- No path escapes, and one text is written. -/
structure WrittenTo (path content : Str) (t : Executor.Trace) : Prop where
  inside : escapes t = false
  written : t.filterMap writtenText = [(path, content)]

/-- The end of `_write_file`, after a path inside the directory was resolved. -/
theorem writtenTo_of_runs {real dir path : Str} (hinside : dir ++ [47] <+: real)
    {out : Except Exc Unit} {t : Executor.Trace}
    (hrun : Runs (do Executor.issue (.writeText real content); Executor.issue (.chmod real 0o644))
      [⟨.realpath workdir, .ok dir⟩, ⟨.realpath path, .ok real⟩] out t) :
    WrittenTo real content t := by
  rcases runs_bind hrun with ⟨u, t₃, hwrite, hrun⟩ | ⟨e, rfl, hwrite⟩
  · obtain rfl := runs_perform hwrite
    obtain rfl := runs_perform hrun
    exact ⟨by simp [escapes, resolvedTo, hinside], rfl⟩
  · obtain rfl := runs_perform hwrite
    exact ⟨by simp [escapes, resolvedTo, hinside], rfl⟩

/-- `_write_file` writes a plain name into a work directory; its check of the path never fires. -/
theorem writeFile_confined (hdir : WorkDir links depth workdir root) (hname : PlainName name)
    {out : Except Exc Unit} {t : Executor.Trace}
    (hrun : Runs (writeFile workdir name content) [] out t) (hreplies : Resolved links depth t) :
    WrittenTo (pathText root ++ [47] ++ name) content t := by
  have hreal := realpath_child hdir hname
  have hroot := realpath_workdir hdir
  have hprefix : pathText root ++ [47] <+: pathText root ++ [47] ++ name := List.prefix_append _ _
  rcases runs_bind hrun with ⟨real, t₁, hfirst, hrun⟩ | ⟨e, rfl, hfirst⟩
  · obtain rfl := runs_perform hfirst
    rcases runs_bind hrun with ⟨root', t₂, hsecond, hrun⟩ | ⟨e, rfl, hsecond⟩
    · obtain rfl := runs_perform hsecond
      -- both paths are resolved before the check
      have hsuffix := hrun.suffix
      cases hreplies _ _ (hsuffix.subset (List.mem_cons_of_mem _ List.mem_cons_self)) _ hreal
      cases hreplies _ _ (hsuffix.subset List.mem_cons_self) _ hroot
      rcases runs_ite hrun with ⟨-, hrun⟩ | ⟨houtside, -⟩
      · exact writtenTo_of_runs hprefix hrun
      · exact absurd hprefix houtside
    · obtain rfl := runs_perform hsecond
      cases hreplies _ _ List.mem_cons_self _ hroot
  · obtain rfl := runs_perform hfirst
    cases hreplies _ _ List.mem_cons_self _ hreal

end

/-! ### The two functions -/

/-- What holds of a name that the API returns. -/
structure ApiName (py : Python) (base : JsStr) : Prop where
  ne_nil : base ≠ []
  ne_dot : base ≠ js "."
  ne_dots : base ≠ js ".."
  no_separator : 47 ∉ base ∧ 92 ∉ base ∧ 0 ∉ base
  fixed : sanitizeFilename base = some base
  worker : safeBasename py (codePoints base) = some (codePoints base)

theorem apiName_of_sanitizeFilename (py : Python) {name base : JsStr}
    (h : sanitizeFilename name = some base) : ApiName py base := by
  have hsafe := sanitizeFilename_safe h
  exact ⟨hsafe.ne_nil, hsafe.ne_dot, hsafe.ne_dots,
    ⟨fun hu => (fileChar_of_safeName hsafe hu).2.1 rfl,
      fun hu => (fileChar_of_safeName hsafe hu).2.2 rfl,
      fun hu => (fileChar_of_safeName hsafe hu).1 rfl⟩,
    sanitizeFilename_of_safeName hsafe, safeBasename_of_safeName hsafe py⟩

/-- What holds of a name that the worker returns: it denotes a direct child of every work directory,
and `_write_file` writes that child. -/
structure WorkerName (py : Python) (base : Str) : Prop where
  fixed : safeBasename py base = some base
  no_slash : 47 ∉ base
  child : ∀ links depth workdir root, WorkDir links depth workdir root →
    realpath links depth workdir = some (pathText root) ∧
    realpath links depth (joinPath workdir base) = some (pathText root ++ [47] ++ base)
  confined : ∀ links depth workdir root, WorkDir links depth workdir root →
    ∀ content out t, Runs (writeFile workdir base content) [] out t → Resolved links depth t →
      WrittenTo (pathText root ++ [47] ++ base) content t

theorem workerName_of_safeBasename {py : Python} {name base : Str}
    (h : safeBasename py name = some base) : WorkerName py base := by
  have hbase := safeBase_of_safeBasename h
  exact ⟨safeBasename_of_safeBase hbase, hbase.plainName.no_slash,
    fun _ _ _ _ hdir => ⟨realpath_workdir hdir, realpath_child hdir hbase.plainName⟩,
    fun _ _ _ _ hdir _ _ _ => writeFile_confined hdir hbase.plainName⟩

/-- The names of the API are fixed by both functions, and those of the worker are confined. -/
theorem filenames_confined (py : Python) :
    (∀ name base, sanitizeFilename name = some base → ApiName py base) ∧
      ∀ name base, safeBasename py name = some base → WorkerName py base :=
  ⟨fun _ _ => apiName_of_sanitizeFilename py, fun _ _ => workerName_of_safeBasename⟩

/-- A disk on which `/tmp` is a link to `/var/tmp`. -/
def tmpLinks (names : List Str) : Option Str :=
  if names = [str "tmp"] then some (str "/var/tmp") else none

theorem workDir_tmp :
    WorkDir tmpLinks 1 (str "/tmp/j-1") [str "var", str "tmp", str "j-1"] := by
  have hpath : pathNames (str "/tmp/j-1") = [str "tmp", str "j-1"] := by decide
  have htarget : pathNames (str "/var/tmp") = [str "var", str "tmp"] := by decide
  have htmp : tmpLinks [str "tmp"] = some (str "/var/tmp") := if_pos rfl
  have hvar : tmpLinks [str "var"] = none := by decide
  have hnolink : ∀ dir name more, tmpLinks (dir :: name :: more) = none := fun dir name more =>
    if_neg (by simp)
  have hinner : follow tmpLinks 0 [] [str "var", str "tmp"] = some [str "var", str "tmp"] := by
    rw [← List.singleton_append, follow_append, follow_name (by decide) hvar, Option.bind_some,
      follow_name (by decide) (hnolink _ _ _)]
    rfl
  have hfirst : follow tmpLinks 1 [] [str "tmp"] = some [str "var", str "tmp"] := by
    rw [follow, if_neg (by decide), List.nil_append, htmp]
    simp only [ite_self, htarget, hinner, Option.bind_some, follow]
  refine ⟨by decide, ?_, by decide, fun name => hnolink _ _ _⟩
  rw [hpath, ← List.singleton_append, follow_append, hfirst, Option.bind_some,
    follow_name (by decide) (hnolink _ _ _)]
  rfl

/-- Paths of both kinds of separators, and a work directory behind a link. -/
theorem filenames_confined_sample :
    ApiName samplePython (js "in.txt") ∧ WorkerName samplePython (str "in.txt") ∧
      realpath tmpLinks 1 (str "/tmp/j-1/in.txt") = some (str "/var/tmp/j-1/in.txt") := by
  obtain ⟨hapi, hworker⟩ := filenames_confined samplePython
  have hname := hworker (str "../d/in.txt") (str "in.txt") (by decide +kernel)
  exact ⟨hapi (js "d\\..//in.txt") (js "in.txt") (by decide +kernel), hname,
    (hname.child _ _ _ _ workDir_tmp).2⟩

end CodeInterpreter
