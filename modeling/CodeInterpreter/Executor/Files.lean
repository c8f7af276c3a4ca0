import CodeInterpreter.Executor.Completed

/-!
# The files that an execution leaves behind

`execute` creates a directory under `local_workdir`, writes the program and its input files there,
and removes the directory in the `finally` block around `_run`. The preparation itself stands before
that block: once the directory exists, whatever makes the preparation fail leaves the directory and
the files written so far behind.

The entries of `local_workdir` are read off the trace of an execution: `mkdtemp` adds one and
`rmtree` removes one.

## Main definitions

* `entries`: the entries of `local_workdir` after a trace.
* `Created`, `failed`: the directory was created; a later step of the preparation failed.

## Main results

* `writeFile_leaves`, `writeInputs_leaves`, `prepareWorkdir_leaves`: what the preparation leaves.
* `finish_leaves`: what the rest of an execution leaves.
* `no_files_left_iff`: when an execution leaves the entries as they were.
-/

namespace CodeInterpreter.Executor

open Async Program

variable {α : Type} {t t' : Trace} {before : List Str}

/-! ### Traces and the disk -/

/-- The entries of `local_workdir` after a trace, from those before it. -/
def entries (before : List Str) : Trace → List Str
  | [] => before
  | ⟨.mkdtemp _ _, .ok path⟩ :: t => path :: entries before t
  | ⟨.rmtree path, _⟩ :: t => (entries before t).filter (· ≠ path)
  | _ :: t => entries before t

/-- The directory that `mkdtemp` created. -/
def created : Event Cmd Reply Exc → Option Str
  | ⟨.mkdtemp _ _, .ok path⟩ => some path
  | _ => none

/-- A directory was created. -/
def Created (t : Trace) : Prop := ∃ ev ∈ t, ∃ path, created ev = some path

/-- A step of the preparation that comes after `mkdtemp` raised. -/
def stepFailed : Event Cmd Reply Exc → Bool
  | ⟨.chmod _ _, .error _⟩ | ⟨.realpath _, .error _⟩ | ⟨.writeText _ _, .error _⟩ => true
  | _ => false

/-- The path that `realpath` answered. -/
def resolvedTo : Event Cmd Reply Exc → Option Str
  | ⟨.realpath _, .ok path⟩ => some path
  | _ => none

/-- The real path of a file is not inside the real path of its directory, which `_write_file`
resolves next. -/
def escapes : Trace → Bool
  | [] => false
  | ev :: t => escapes t ||
    match resolvedTo ev, t.head?.bind resolvedTo with
    | some root, some real => !decide (root ++ [47] <+: real)
    | _, _ => false

/-- A step of the preparation raised, or a path escaped. -/
def failed (t : Trace) : Bool := t.any stepFailed || escapes t

section

variable {ev : Event Cmd Reply Exc}

theorem entries_cons (h : ev.cmd.part ≠ .disk) : entries before (ev :: t) = entries before t := by
  obtain ⟨c, r⟩ := ev
  cases c <;> first | rfl | exact absurd rfl h

theorem created_eq_none (h : ev.cmd.part ≠ .disk) : created ev = none := by
  obtain ⟨c, r⟩ := ev
  cases c <;> first | rfl | exact absurd rfl h

theorem stepFailed_eq_false (h : ev.cmd.part ≠ .disk) : stepFailed ev = false := by
  obtain ⟨c, r⟩ := ev
  cases c <;> first | rfl | exact absurd rfl h

theorem resolvedTo_eq_none (h : ev.cmd.part ≠ .disk) : resolvedTo ev = none := by
  obtain ⟨c, r⟩ := ev
  cases c <;> first | rfl | exact absurd rfl h

theorem failed_cons_eq (ev : Event Cmd Reply Exc) (t : Trace) :
    failed (ev :: t) = (failed t || stepFailed ev ||
      match resolvedTo ev, t.head?.bind resolvedTo with
      | some root, some real => !decide (root ++ [47] <+: real)
      | _, _ => false) := by
  simp only [failed, List.any_cons, escapes]
  cases stepFailed ev <;> cases t.any stepFailed <;> simp

theorem failed_of_stepFailed (h : stepFailed ev = true) : failed (ev :: t) = true := by
  simp [failed_cons_eq, h]

/-- A step that did not raise and resolved no path. -/
theorem failed_of_passed (h : stepFailed ev = false) (hr : resolvedTo ev = none) :
    failed (ev :: t) = failed t := by
  simp [failed_cons_eq, h, hr]

/-- The first of the two resolutions of `_write_file`. -/
theorem failed_of_first (h : stepFailed ev = false) (ht : t.head?.bind resolvedTo = none) :
    failed (ev :: t) = failed t := by
  rw [failed_cons_eq, h, ht, Bool.or_false]
  cases resolvedTo ev <;> simp

/-- The second one decides whether the path escapes. -/
theorem failed_of_second {root real : Str} (h : stepFailed ev = false)
    (hr : resolvedTo ev = some root) (ht : t.head?.bind resolvedTo = some real) :
    failed (ev :: t) = (failed t || !decide (root ++ [47] <+: real)) := by
  rw [failed_cons_eq, h, hr, ht, Bool.or_false]

end

variable (before) in
/-- A program that does not touch the disk changes nothing. -/
theorem offDisk_run {p : Prog α} {out : Except Exc α} (h : Runs p t out t')
    (hp : p.Issues fun c => c.part ≠ .disk) :
    entries before t' = entries before t ∧ (Created t' ↔ Created t) ∧ failed t' = failed t := by
  obtain ⟨new, rfl, hnew⟩ := h.issued hp
  clear h
  induction new with
  | nil => exact ⟨rfl, Iff.rfl, rfl⟩
  | cons ev new ih =>
    obtain ⟨hentries, hcreated, hfailed⟩ :=
      ih fun ev' hev' => hnew ev' (List.mem_cons_of_mem ev hev')
    have hev := hnew ev List.mem_cons_self
    rw [List.cons_append]
    refine ⟨(entries_cons hev).trans hentries, ?_, ?_⟩
    · rw [← hcreated]
      simp [Created, created_eq_none hev]
    · rw [failed_of_passed (stepFailed_eq_false hev) (resolvedTo_eq_none hev), hfailed]

/-! ### The preparation -/

/-- What a part of the preparation leaves of the trace: the entries are the same, and a directory
that was created still counts. -/
def SameEntries (before : List Str) (t t' : Trace) : Prop :=
  entries before t' = entries before t ∧ (Created t' ↔ Created t)

theorem SameEntries.trans {t'' : Trace} (h : SameEntries before t t')
    (h' : SameEntries before t' t'') : SameEntries before t t'' :=
  ⟨h'.1.trans h.1, h'.2.trans h.2⟩

/-- A disk command other than `mkdtemp` and `rmtree`. -/
theorem sameEntries_cons {ev : Event Cmd Reply Exc} (h : created ev = none)
    (hentries : entries before (ev :: t) = entries before t) : SameEntries before t (ev :: t) :=
  ⟨hentries, by simp [Created, h]⟩

variable (before) in
/-- `_write_file` fails with a mark in the trace, or leaves none. -/
theorem writeFile_leaves {workdir name content : Str} {out : Except Exc Unit}
    (h : Runs (writeFile workdir name content) t out t') (hfailed : failed t = false)
    (hresolved : t.head?.bind resolvedTo = none) :
    SameEntries before t t' ∧
      ((out = .ok () ∧ failed t' = false ∧ t'.head?.bind resolvedTo = none) ∨
        ((∃ e, out = .error e) ∧ failed t' = true)) := by
  have hsame : ∀ {path : Str} {r : Except Exc Str} {u : Trace},
      SameEntries before u (⟨.realpath path, r⟩ :: u) := sameEntries_cons rfl rfl
  rcases runs_bind h with ⟨real, t₁, hreal, h⟩ | ⟨e, rfl, hreal⟩
  · obtain rfl := runs_perform hreal
    rcases runs_bind h with ⟨root, t₂, hroot, h⟩ | ⟨e, rfl, hroot⟩
    · obtain rfl := runs_perform hroot
      -- the state of the marks once both paths are resolved
      have hmark : failed (⟨.realpath workdir, .ok root⟩ ::
          ⟨.realpath (joinPath workdir name), .ok real⟩ :: t) =
            !decide ((root : Str) ++ [47] <+: real) := by
        rw [failed_of_second rfl rfl rfl, failed_of_first rfl hresolved, hfailed, Bool.false_or]
      rcases runs_ite h with ⟨hinside, h⟩ | ⟨hinside, h⟩
      · rw [decide_eq_true hinside] at hmark
        rcases runs_bind h with ⟨u, t₃, hwrite, h⟩ | ⟨e, rfl, hwrite⟩
        · obtain rfl := runs_perform hwrite
          obtain rfl := runs_perform h
          refine ⟨hsame.trans (hsame.trans ((sameEntries_cons rfl rfl).trans
            (sameEntries_cons rfl rfl))), ?_⟩
          cases out with
          | ok v =>
            refine .inl ⟨rfl, ?_, rfl⟩
            rw [failed_of_passed rfl rfl, failed_of_passed rfl rfl]
            exact hmark
          | error e => exact .inr ⟨⟨e, rfl⟩, failed_of_stepFailed rfl⟩
        · obtain rfl := runs_perform hwrite
          exact ⟨hsame.trans (hsame.trans (sameEntries_cons rfl rfl)),
            .inr ⟨⟨e, rfl⟩, failed_of_stepFailed rfl⟩⟩
      · obtain ⟨rfl, rfl⟩ := runs_throw h
        rw [decide_eq_false hinside] at hmark
        exact ⟨hsame.trans hsame, .inr ⟨⟨_, rfl⟩, hmark⟩⟩
    · obtain rfl := runs_perform hroot
      exact ⟨hsame.trans hsame, .inr ⟨⟨e, rfl⟩, failed_of_stepFailed rfl⟩⟩
  · obtain rfl := runs_perform hreal
    exact ⟨hsame, .inr ⟨⟨e, rfl⟩, failed_of_stepFailed rfl⟩⟩

/-- An input file has a name that `_safe_basename` refuses. -/
def Unsafe (py : Python) (files : List InputFile) : Prop :=
  ∃ file ∈ files, safeBasename py file.name = none

variable (before) in
/-- The loop over the input files fails with a mark in the trace or at an unsafe name, or all
names are safe and it leaves no mark. -/
theorem writeInputs_leaves {py : Python} {workdir : Str} {files : List InputFile}
    {out : Except Exc Unit} (h : Runs (writeInputs py workdir files) t out t')
    (hfailed : failed t = false) (hresolved : t.head?.bind resolvedTo = none) :
    SameEntries before t t' ∧
      ((out = .ok () ∧ failed t' = false ∧ ¬ Unsafe py files) ∨
        ((∃ e, out = .error e) ∧ (failed t' = true ∨ Unsafe py files))) := by
  induction files generalizing t with
  | nil =>
    obtain ⟨rfl, rfl⟩ := runs_pure h
    exact ⟨⟨rfl, Iff.rfl⟩, .inl ⟨rfl, hfailed, by simp [Unsafe]⟩⟩
  | cons file rest ih =>
    cases hsafe : safeBasename py file.name with
    | none =>
      simp only [writeInputs, hsafe] at h
      obtain ⟨rfl, rfl⟩ := runs_throw h
      exact ⟨⟨rfl, Iff.rfl⟩, .inr ⟨⟨_, rfl⟩, .inr ⟨file, List.mem_cons_self, hsafe⟩⟩⟩
    | some safe =>
      simp only [writeInputs, hsafe] at h
      rcases runs_bind h with ⟨u, t₁, hwrite, h⟩ | ⟨e, rfl, hwrite⟩
      · obtain ⟨hsame, ⟨-, hfailed₁, hresolved₁⟩ | ⟨⟨e, he⟩, -⟩⟩ :=
          writeFile_leaves before hwrite hfailed hresolved
        · obtain ⟨hsame', hend⟩ := ih h hfailed₁ hresolved₁
          refine ⟨hsame.trans hsame', ?_⟩
          have hrefused : Unsafe py (file :: rest) ↔ Unsafe py rest := by simp [Unsafe, hsafe]
          rwa [hrefused]
        · cases he
      · obtain ⟨hsame, ⟨hout, -, -⟩ | ⟨-, hfailed'⟩⟩ :=
          writeFile_leaves before hwrite hfailed hresolved
        · cases hout
        · exact ⟨hsame, .inr ⟨⟨e, rfl⟩, .inl hfailed'⟩⟩

variable (before) in
/-- The part of the preparation after `mkdtemp`. -/
theorem fillWorkdir_leaves {py : Python} {runtime : RuntimeConfig} {request : ExecutionRequest}
    {workdir : Str} {out : Except Exc Str}
    (h : Runs (do
      issue (.chmod workdir 0o755)
      writeFile workdir runtime.sourceFilename request.code
      writeInputs py workdir request.files
      return workdir) t out t')
    (hfailed : failed t = false) : SameEntries before t t' ∧
      ((out = .ok workdir ∧ failed t' = false ∧ ¬ Unsafe py request.files) ∨
        ((∃ e, out = .error e) ∧ (failed t' = true ∨ Unsafe py request.files))) := by
  rcases runs_bind h with ⟨u, t₁, hchmod, h⟩ | ⟨e, rfl, hchmod⟩
  · obtain rfl := runs_perform hchmod
    have hsame : SameEntries before t (⟨.chmod workdir 0o755, .ok u⟩ :: t) :=
      sameEntries_cons rfl rfl
    have hfailed₁ : failed (⟨.chmod workdir 0o755, .ok u⟩ :: t) = false :=
      (failed_of_passed rfl rfl).trans hfailed
    rcases runs_bind h with ⟨v, t₂, hsource, h⟩ | ⟨e, rfl, hsource⟩
    · obtain ⟨hsame₂, ⟨-, hfailed₂, hresolved₂⟩ | ⟨⟨e, he⟩, -⟩⟩ :=
        writeFile_leaves before hsource hfailed₁ rfl
      · rcases runs_bind h with ⟨x, t₃, hinputs, h⟩ | ⟨e, rfl, hinputs⟩
        · obtain ⟨rfl, rfl⟩ := runs_pure h
          obtain ⟨hsame₃, ⟨-, hend⟩ | ⟨⟨e, he⟩, -⟩⟩ :=
            writeInputs_leaves before hinputs hfailed₂ hresolved₂
          · exact ⟨hsame.trans (hsame₂.trans hsame₃), .inl ⟨rfl, hend⟩⟩
          · cases he
        · obtain ⟨hsame₃, ⟨hout, -⟩ | ⟨-, hend⟩⟩ :=
            writeInputs_leaves before hinputs hfailed₂ hresolved₂
          · cases hout
          · exact ⟨hsame.trans (hsame₂.trans hsame₃), .inr ⟨⟨e, rfl⟩, hend⟩⟩
      · cases he
    · obtain ⟨hsame₂, ⟨hout, -⟩ | ⟨-, hend⟩⟩ :=
        writeFile_leaves before hsource hfailed₁ rfl
      · cases hout
      · exact ⟨hsame.trans hsame₂, .inr ⟨⟨e, rfl⟩, .inl hend⟩⟩
  · obtain rfl := runs_perform hchmod
    exact ⟨sameEntries_cons rfl rfl, .inr ⟨⟨e, rfl⟩, .inl (failed_of_stepFailed rfl)⟩⟩

/-- **What the preparation leaves.** It raises before the directory is created, or it has created
a directory; then it returns it with no mark, or raises with a mark or at an unsafe name. -/
theorem prepareWorkdir_leaves {py : Python} {cfg : Settings} {runtime : RuntimeConfig}
    {request : ExecutionRequest} {jobId : Str} {out : Except Exc Str}
    (h : Runs (prepareWorkdir py cfg runtime request jobId) t out t')
    (hfailed : failed t = false) (hentries : entries before t = before) (hcreated : ¬ Created t) :
    ((∃ e, out = .error e) ∧ entries before t' = before ∧ ¬ Created t') ∨
    ∃ workdir, entries before t' = workdir :: before ∧ (∃ ev ∈ t', created ev = some workdir) ∧
      ((out = .ok workdir ∧ failed t' = false ∧ ¬ Unsafe py request.files) ∨
        ((∃ e, out = .error e) ∧ (failed t' = true ∨ Unsafe py request.files))) := by
  rcases runs_bind h with ⟨u, t₁, hmake, h⟩ | ⟨e, rfl, hmake⟩
  · obtain rfl := runs_perform hmake
    rcases runs_bind h with ⟨workdir, t₂, hmkdtemp, h⟩ | ⟨e, rfl, hmkdtemp⟩
    · obtain rfl := runs_perform hmkdtemp
      have hfailed₂ : failed (⟨.mkdtemp (jobId ++ str "-") cfg.localWorkdir, .ok workdir⟩ ::
          ⟨.makedirs cfg.localWorkdir, .ok u⟩ :: t) = false := by
        rw [failed_of_passed rfl rfl, failed_of_passed rfl rfl, hfailed]
      obtain ⟨hsame, hend⟩ := fillWorkdir_leaves before h hfailed₂
      refine .inr ⟨workdir, hsame.1.trans (congrArg _ hentries), ?_, hend⟩
      exact ⟨_, h.suffix.subset List.mem_cons_self, rfl⟩
    · obtain rfl := runs_perform hmkdtemp
      refine .inl ⟨⟨e, rfl⟩, hentries, ?_⟩
      simpa [Created, created] using hcreated
  · obtain rfl := runs_perform hmake
    refine .inl ⟨⟨e, rfl⟩, hentries, ?_⟩
    simpa [Created, created] using hcreated

/-! ### The whole execution -/

section

variable (py : Python) (cfg : Settings)

variable (before) in
/-- `_cleanup` removes the directory. -/
theorem cleanup_leaves {container workdir : Str} {out : Except Exc Unit}
    (h : Runs (cleanup cfg container workdir) t out t') :
    entries before t' = (entries before t).filter (· ≠ workdir) ∧ (Created t' ↔ Created t) ∧
      failed t' = failed t := by
  have hdocker : (MonadExcept.tryCatch (do
      let _ ← issue (.simple [cfg.dockerPath, str "rm", str "-f", container])) fun _ => Pure.pure () :
      Prog Unit).Issues fun c => c.part ≠ .disk :=
    issues_tryCatch (issues_bind (issues_perform (by simp [Cmd.part])) fun _ => issues_pure _)
      fun _ => issues_pure _
  rcases runs_bind h with ⟨u, t₁, hrm, h⟩ | ⟨e, rfl, hrm⟩
  · obtain ⟨hentries, hcreated, hfailed⟩ := offDisk_run before hrm hdocker
    obtain rfl := runs_perform h
    refine ⟨by rw [← hentries]; rfl, ?_, ?_⟩
    · rw [← hcreated]
      simp [Created, created]
    · rw [failed_of_passed rfl rfl, hfailed]
  · -- the error of `docker rm` is suppressed
    rcases runs_tryCatch hrm with ⟨a, hout, -⟩ | ⟨e', t₁, -, hhandled⟩
    · cases hout
    · obtain ⟨hout, -⟩ := runs_pure hhandled
      cases hout

variable (before) in
/-- The part of `execute` after the preparation removes the directory, however it ends. -/
theorem finish_leaves {runtime : RuntimeConfig} {request : ExecutionRequest}
    {jobId workdir container : Str} {cancellable : Bool} {out : Except Exc ExecutionResult}
    (h : Runs ((run cfg runtime request jobId workdir container cancellable).ensuring
      (cleanup cfg container workdir)) t out t')
    (hentries : entries before t = workdir :: before) (hnew : workdir ∉ before) :
    (∀ x, x ∈ entries before t' ↔ x ∈ before) ∧ failed t' = failed t := by
  obtain ⟨out₁, t₁, u, hrun, hcleanup⟩ := runs_ensuring h
  obtain ⟨hentries₁, -, hfailed₁⟩ := offDisk_run before hrun
    (issues_outside (run_issues cfg runtime request jobId workdir container cancellable) rfl)
  obtain ⟨hentries₂, -, hfailed₂⟩ := cleanup_leaves before cfg hcleanup
  refine ⟨fun x => ?_, hfailed₂.trans hfailed₁⟩
  rw [hentries₂, hentries₁, hentries]
  simp only [List.mem_filter, List.mem_cons, decide_eq_true_eq]
  constructor
  · rintro ⟨rfl | hx, hne⟩
    · exact absurd rfl hne
    · exact hx
  · exact fun hx => ⟨.inr hx, fun heq => hnew (heq ▸ hx)⟩

/-- **When an execution leaves no files.** However it ends, the entries of `local_workdir` are what
they were exactly when no directory was created, or every name of an input file is safe, every path
stays inside the directory, and every later step of the preparation got through. -/
theorem no_files_left_iff {request : ExecutionRequest} {jobId : Str} {cancellable : Bool}
    {out : Except Exc ExecutionResult}
    (h : Runs (execute py cfg request jobId cancellable) [] out t)
    (hfresh : ∀ ev ∈ t, ∀ path, created ev = some path → path ∉ before) :
    (∀ x, x ∈ entries before t ↔ x ∈ before) ↔
      ¬ Created t ∨ (failed t = false ∧ ¬ Unsafe py request.files) := by
  have hnone : entries before t = before → ¬ Created t → ((∀ x, x ∈ entries before t ↔ x ∈ before) ↔
      ¬ Created t ∨ (failed t = false ∧ ¬ Unsafe py request.files)) := fun hentries hcreated =>
    iff_of_true (fun x => by rw [hentries]) (.inl hcreated)
  have hinit : ¬ Created [] := by simp [Created]
  rcases runs_bind h with ⟨runtime, t₁, hruntime, h⟩ | ⟨e, rfl, hruntime⟩
  · obtain ⟨-, rfl⟩ := runs_ofExcept hruntime
    rcases runs_bind h with ⟨u, t₂, hverify, h⟩ | ⟨e, rfl, hverify⟩
    · obtain ⟨hentries, hcreated, hfailed⟩ := offDisk_run before hverify
        (issues_outside (verifyImage_issues py cfg runtime) rfl)
      have hquiet : ¬ Created t₂ := fun hc => hinit (hcreated.mp hc)
      rcases runs_bind h with ⟨workdir, t₃, hprepare, h⟩ | ⟨e, rfl, hprepare⟩
      · rcases prepareWorkdir_leaves hprepare hfailed hentries hquiet with ⟨⟨e, he⟩, -⟩ |
          ⟨dir, hentries₃, ⟨ev, hev, hdir⟩, ⟨hout, hfailed₃, hsafe⟩ | ⟨⟨e, he⟩, -⟩⟩
        · cases he
        · obtain rfl : workdir = dir := Except.ok.inj hout
          have hnew : workdir ∉ before := hfresh ev (h.suffix.subset hev) workdir hdir
          obtain ⟨hsame, hfailed₄⟩ := finish_leaves before cfg h hentries₃ hnew
          exact iff_of_true hsame (.inr ⟨hfailed₄.trans hfailed₃, hsafe⟩)
        · cases he
      · rcases prepareWorkdir_leaves hprepare hfailed hentries hquiet with ⟨-, hentries₃, hcreated₃⟩ |
          ⟨dir, hentries₃, ⟨ev, hev, hdir⟩, ⟨hout, -⟩ | ⟨-, hcause⟩⟩
        · exact hnone hentries₃ hcreated₃
        · cases hout
        · -- the directory stays, and its cause is in the trace or among the names
          refine iff_of_false (fun hsame => ?_) ?_
          · refine hfresh ev hev dir hdir ((hsame dir).mp ?_)
            rw [hentries₃]
            exact List.mem_cons_self
          · rintro (hno | ⟨hfailed', hsafe⟩)
            · exact hno ⟨ev, hev, dir, hdir⟩
            · rcases hcause with hfail | hrefused
              · rw [hfailed'] at hfail
                cases hfail
              · exact hsafe hrefused
    · obtain ⟨hentries, hcreated, -⟩ := offDisk_run before hverify
        (issues_outside (verifyImage_issues py cfg runtime) rfl)
      exact hnone hentries fun hc => hinit (hcreated.mp hc)
  · obtain ⟨-, rfl⟩ := runs_ofExcept hruntime
    exact hnone rfl hinit

end

/-! ### Executions of a sample request -/

/-- The sample request with an input file of the given name. -/
def namedRequest (name : Str) : ExecutionRequest :=
  { sampleRequest with files := [⟨name, str "evil"⟩] }

/-- Its execution on a working machine. -/
def namedExecution (name : Str) : Except Exc ExecutionResult × Trace :=
  (execute samplePython sampleSettings (namedRequest name) (str "j") true).play
    (sampleEnv ⟨some (.exited 0), false⟩) []

theorem namedExecution_runs (name : Str) :
    Runs (execute samplePython sampleSettings (namedRequest name) (str "j") true) []
      (namedExecution name).1 (namedExecution name).2 :=
  runs_play _ _ _

/-- Another job has its directory on the disk; an input file with a plain name leaves nothing
else. -/
theorem no_files_left_helper :
    Created (namedExecution (str "helper.py")).2 ∧
    ∀ x, x ∈ entries [str "/work/k-"] (namedExecution (str "helper.py")).2 ↔
      x ∈ [str "/work/k-"] := by
  have hcreated : (namedExecution (str "helper.py")).2.any
      (fun ev => created ev == some (str "/work/j-")) = true := by decide +kernel
  have hfresh : (namedExecution (str "helper.py")).2.all
      (fun ev => created ev != some (str "/work/k-")) = true := by decide +kernel
  have hsafe : (safeBasename samplePython (str "helper.py")).isSome = true := by decide +kernel
  refine ⟨?_, (no_files_left_iff _ _ (namedExecution_runs _) ?_).mpr (.inr ⟨?_, ?_⟩)⟩
  · obtain ⟨ev, hev, heq⟩ := List.any_eq_true.mp hcreated
    exact ⟨ev, hev, _, eq_of_beq heq⟩
  · rintro ev hev path hpath hmem
    obtain rfl := List.mem_singleton.mp hmem
    simpa [hpath] using List.all_eq_true.mp hfresh ev hev
  · decide +kernel
  · rintro ⟨file, hfile, hnone⟩
    obtain rfl := List.mem_singleton.mp hfile
    rw [hnone] at hsafe
    cases hsafe

/-- A name that `_safe_basename` refuses: the execution raises, and the directory with the source
of the program stays. -/
theorem refused_name_leaves_directory :
    ¬ ∀ (request : ExecutionRequest) (jobId : Str) (out : Except Exc ExecutionResult) (t : Trace),
      Runs (execute samplePython sampleSettings request jobId true) [] out t →
      (∀ ev ∈ t, ∀ path, created ev = some path → path ∉ ([] : List Str)) →
      ∀ x, x ∈ entries [] t ↔ x ∈ ([] : List Str) := by
  intro hall
  have hleft : str "/work/j-" ∈ entries [] (namedExecution (str "; rm -rf /")).2 := by
    decide +kernel
  have hgone := hall _ _ _ _ (namedExecution_runs (str "; rm -rf /"))
    (fun _ _ _ _ => List.not_mem_nil)
  exact List.not_mem_nil ((hgone _).mp hleft)

end CodeInterpreter.Executor
