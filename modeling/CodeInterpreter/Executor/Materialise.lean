import CodeInterpreter.Executor.Command
import Mathlib.Data.List.TakeWhile

/-!
# Requests that the executor can materialise

On a working machine an execution raises for one of four reasons only: a source or an input file
has no UTF-8 encoding, the command line cannot be passed to a process, or the standard input has no
UTF-8 encoding.

`os.fsencode` turns an argument into bytes. A surrogate from U+DC80 to U+DCFF stands for a byte, any
other one raises, and so does NUL. The kernel limits the length of one argument and of all together.

## Main definitions

* `Passable`, `fsLength`, `spawnArgv`: what `create_subprocess_exec` accepts.
* `Machine`, `Machine.Answers`: a working file system and a working Docker.
* `Encodable`: the texts of a request that are encoded.

## Main results

* `execute_returns_of`, `execute_raises_of`: how an execution ends on a working machine.
* `spawnArgv_buildCommand_iff`: when the command of a request can be spawned.
-/

namespace CodeInterpreter.Executor

open Async Program

/-! ### Arguments of a process -/

/-- A surrogate that stands for a byte. -/
def isEscapedByte (c : ℕ) : Bool := 0xDC80 ≤ c && c ≤ 0xDCFF

/-- The text can be an argument of a process. -/
def Passable (s : Str) : Prop := ∀ c ∈ s, c ≠ 0 ∧ (isSurrogate c = true → isEscapedByte c = true)

instance (s : Str) : Decidable (Passable s) := inferInstanceAs (Decidable (∀ c ∈ s, _))

/-- The length of `os.fsencode`. -/
def fsLength (s : Str) : ℕ := (s.map fun c => if isEscapedByte c then 1 else utf8Size c).sum

/-- Longest argument of a process, with its final NUL (`MAX_ARG_STRLEN`). -/
def maxArgStrlen : ℕ := 131072

/-- The space that arguments take, with a final NUL and a pointer for each. -/
def argSize (argv : List Str) : ℕ := (argv.map fun s => fsLength s + 1 + 8).sum

/-- `create_subprocess_exec`, when there is room for arguments of the given size. -/
def spawnArgv (argSpace : ℕ) (argv : List Str) : Except Exc Unit :=
  if ∀ s ∈ argv, Passable s then
    if (∀ s ∈ argv, fsLength s + 1 ≤ maxArgStrlen) ∧ argSize argv ≤ argSpace then .ok ()
    else .error .other
  else .error .valueError

/-- A single argument that a process can get. -/
def Fits (s : Str) : Prop := Passable s ∧ fsLength s + 1 ≤ maxArgStrlen

theorem spawnArgv_ok {argSpace : ℕ} {argv : List Str} :
    spawnArgv argSpace argv = .ok () ↔ (∀ s ∈ argv, Fits s) ∧ argSize argv ≤ argSpace := by
  unfold spawnArgv Fits
  split_ifs with hpass hfits
  · exact iff_of_true rfl ⟨fun s hs => ⟨hpass s hs, hfits.1 s hs⟩, hfits.2⟩
  · exact iff_of_false nofun fun h => hfits ⟨fun s hs => (h.1 s hs).2, h.2⟩
  · exact iff_of_false nofun fun h => hpass fun s hs => (h.1 s hs).1

/-! ### A working machine -/

/-- The name of a file in a directory. -/
structure PlainName (name : Str) : Prop where
  ne_nil : name ≠ []
  ne_dot : name ≠ str "."
  ne_dots : name ≠ str ".."
  no_slash : 47 ∉ name
  no_nul : 0 ∉ name
  length_le : name.length ≤ 255

theorem basename_eq_self {s : Str} (hs : 47 ∉ s) : basename s = s := by
  have htake : s.reverse.takeWhile (fun c => c != 47) = s.reverse := by
    rw [List.takeWhile_eq_self_iff]
    intro c hc
    simp only [bne_iff_ne, ne_eq]
    rintro rfl
    exact hs (List.mem_reverse.mp hc)
  rw [basename, htake, List.reverse_reverse]

theorem basename_append {name : Str} (hname : 47 ∉ name) (dir : Str) :
    basename (dir ++ 47 :: name) = name := by
  have htake : ∀ c ∈ name.reverse, (c != 47) = true := by
    intro c hc
    simp only [bne_iff_ne, ne_eq]
    rintro rfl
    exact hname (List.mem_reverse.mp hc)
  simp [basename, List.takeWhile_append_of_pos htake]

/-- The last part of a path in a directory is the name, and the path is not the directory. -/
theorem basename_joinPath {name : Str} (hname : PlainName name) (dir : Str) :
    basename (joinPath dir name) = name ∧ joinPath dir name ≠ dir := by
  have hhead : name.head? ≠ some 47 := fun h => hname.no_slash (List.mem_of_head? h)
  have hlength : 0 < name.length := List.length_pos_iff.mpr hname.ne_nil
  have hne (s : Str) (hs : dir.length < s.length) : s ≠ dir := fun h => by
    rw [h] at hs
    omega
  rw [joinPath, if_neg hhead]
  split_ifs with hdir
  · refine ⟨?_, hne _ (by rw [List.length_append]; omega)⟩
    rcases hdir with rfl | hlast
    · exact basename_eq_self hname.no_slash
    · obtain ⟨dir', rfl⟩ := List.getLast?_eq_some_iff.mp hlast
      rw [List.append_assoc, List.singleton_append]
      exact basename_append hname.no_slash dir'
  · refine ⟨?_, hne _ (by simp only [List.length_append]; omega)⟩
    rw [List.append_assoc, List.singleton_append]
    exact basename_append hname.no_slash dir

/-- The characters that `_safe_basename` admits. -/
def isSafeChar (py : Python) (c : ℕ) : Bool := py.isalnum c || c == 46 || c == 95 || c == 45

/-- A name that `_safe_basename` leaves alone. -/
structure SafeBase (py : Python) (base : Str) : Prop where
  ne_nil : base ≠ []
  ne_dot : base ≠ str "."
  ne_dots : base ≠ str ".."
  chars : ∀ c ∈ base, isSafeChar py c = true
  length_le : base.length ≤ 255

theorem isSafeChar_ne {py : Python} {c : ℕ} (h : isSafeChar py c = true) :
    c ≠ 0 ∧ c ≠ 47 ∧ c ≠ 92 := by
  have hother : ∀ d < 128, isAsciiAlnum d = false → d ≠ 46 → d ≠ 95 → d ≠ 45 → c ≠ d := by
    rintro d hd halnum h46 h95 h45 rfl
    rw [isSafeChar, py.isalnum_ascii c hd, halnum] at h
    simp [h46, h95, h45] at h
  exact ⟨hother 0 (by decide) rfl (by decide) (by decide) (by decide),
    hother 47 (by decide) rfl (by decide) (by decide) (by decide),
    hother 92 (by decide) rfl (by decide) (by decide) (by decide)⟩

section

variable {py : Python} {base : Str}

theorem SafeBase.plainName (h : SafeBase py base) : PlainName base where
  ne_nil := h.ne_nil
  ne_dot := h.ne_dot
  ne_dots := h.ne_dots
  no_slash hmem := (isSafeChar_ne (h.chars 47 hmem)).2.1 rfl
  no_nul hmem := (isSafeChar_ne (h.chars 0 hmem)).1 rfl
  length_le := h.length_le

theorem safeBase_of_safeBasename {name : Str} (h : safeBasename py name = some base) :
    SafeBase py base := by
  unfold safeBasename at h
  dsimp only at h
  split_ifs at h with hnul hdots hchars hlength
  cases h
  rw [not_or, not_or] at hdots
  refine ⟨hdots.1, hdots.2.1, hdots.2.2, ?_, by omega⟩
  simpa [isSafeChar] using hchars

theorem safeBasename_of_safeBase (h : SafeBase py base) : safeBasename py base = some base := by
  have hplain := h.plainName
  have hslash : (base.map fun c => if c = 92 then 47 else c) = base := by
    refine (List.map_congr_left fun c hc => ?_).trans (List.map_id _)
    exact if_neg (isSafeChar_ne (h.chars c hc)).2.2
  have hchars : (base.all fun c => py.isalnum c || c == 46 || c == 95 || c == 45) = true :=
    List.all_eq_true.mpr h.chars
  simp only [safeBasename, hslash, basename_eq_self hplain.no_slash, hplain.no_nul, h.ne_nil,
    h.ne_dot, h.ne_dots, hchars, or_self, if_false, not_true_eq_false,
    if_neg (Nat.not_lt.mpr h.length_le)]

end

/-- The directory that `mkdtemp` creates, its canonical path, and the room for arguments. -/
structure Machine where
  workdir : Str
  root : Str
  argSpace : ℕ

variable (py : Python) (cfg : Settings) (host : Host)

/-- The command that looks for an image. -/
def inspectArgv (image : Str) : List Str :=
  [cfg.dockerPath, str "image", str "inspect", image, str "--format",
    str "\x7b\x7bjson .RepoDigests\x7d\x7d"]

/-- The answers of a working file system and a working Docker: the images of the registry are
there, the fresh directory has no symbolic links, a text is written if it has an encoding, and a
process is started if its arguments can be passed. -/
def Machine.Answers (m : Machine) : (c : Cmd) → Except Exc (Reply c) → Prop
  | .simple argv, r => ∃ reply : ℤ × Str × Str, r = .ok reply ∧
    ∀ runtime ∈ registry cfg.env, argv = inspectArgv cfg runtime.image →
      reply.1 = 0 ∧ (runtime.imageDigest ≠ [] → runtime.imageDigest <:+: reply.2.1)
  | .mkdtemp _ _, r => r = .ok m.workdir
  | .realpath path, r => (path = m.workdir → r = .ok m.root) ∧
    ∀ name, PlainName name → path = joinPath m.workdir name → r = .ok (m.root ++ [47] ++ name)
  | .writeText _ content, r => r = encodeUtf8 content
  | .spawn runtime request workdir container, r =>
    r = spawnArgv m.argSpace (buildCommand py cfg host runtime request workdir container)
  | _, r => ∃ reply, r = .ok reply

/-- The contract with a working machine. -/
def Machine.contract (m : Machine) : Contract Cmd Reply Exc where
  allows _ _ := True
  answers _ c r := m.Answers py cfg host c r

section

variable {py cfg host} {m : Machine} {α : Type}

theorem returns_issue {c : Cmd} {P : Reply c → Prop}
    (h : ∀ r, m.Answers py cfg host c r → ∃ a, r = .ok a ∧ P a) :
    Returns (m.contract py cfg host) (issue c) P := fun t =>
  (wp_perform c _ t).mpr ⟨trivial, h⟩

theorem raises_issue {c : Cmd} (h : ∀ r, m.Answers py cfg host c r → ∃ e, r = .error e) :
    Raises (m.contract py cfg host) (issue c : Prog (Reply c)) := fun t =>
  (wp_perform c _ t).mpr ⟨trivial, h⟩

/-- A command that a working machine never refuses. -/
theorem returns_issue_any {c : Cmd} (h : ∀ r, m.Answers py cfg host c r → ∃ a, r = .ok a) :
    Returns (m.contract py cfg host) (issue c) fun _ => True := by
  refine returns_issue fun r hr => ?_
  obtain ⟨a, ha⟩ := h r hr
  exact ⟨a, ha, trivial⟩

theorem returns_simple (argv : List Str) :
    Returns (m.contract py cfg host) (issue (.simple argv)) fun _ => True := by
  refine returns_issue_any fun r hr => ?_
  obtain ⟨reply, hreply, -⟩ := hr
  exact ⟨reply, hreply⟩

/-! ### The parts of an execution -/

theorem returns_verifyImage {runtime : RuntimeConfig} (hruntime : runtime ∈ registry cfg.env) :
    Returns (m.contract py cfg host) (verifyImage py cfg runtime) fun _ => True := by
  refine returns_bind (P := fun reply : ℤ × Str × Str => reply.1 = 0 ∧
    (runtime.imageDigest ≠ [] → runtime.imageDigest <:+: reply.2.1)) (returns_issue ?_) ?_
  · rintro r ⟨reply, rfl, himages⟩
    exact ⟨reply, rfl, himages runtime hruntime rfl⟩
  · rintro reply ⟨hzero, hdigest⟩
    have hpinned : ¬ (runtime.imageDigest ≠ [] ∧ ¬ runtime.imageDigest <:+: reply.2.1) := by
      rintro ⟨hne, hnot⟩
      exact hnot (hdigest hne)
    rw [if_neg (not_not.mpr hzero), if_neg hpinned]
    exact returns_pure trivial

theorem returns_root :
    Returns (m.contract py cfg host) (issue (.realpath m.workdir)) fun p : Str => p = m.root :=
  returns_issue fun _ hr => ⟨m.root, hr.1 rfl, rfl⟩

section

variable {name : Str} (hname : PlainName name)
include hname

theorem returns_path :
    Returns (m.contract py cfg host) (issue (.realpath (joinPath m.workdir name)))
      fun p : Str => p = m.root ++ [47] ++ name :=
  returns_issue fun _ hr => ⟨_, hr.2 name hname rfl, rfl⟩

/-- A text with an encoding is written. -/
theorem returns_writeFile {content : Str} (hcontent : encodeUtf8 content = .ok ()) :
    Returns (m.contract py cfg host) (writeFile m.workdir name content) fun _ => True := by
  refine returns_bind (returns_path hname) ?_
  rintro _ rfl
  refine returns_bind returns_root ?_
  rintro _ rfl
  refine returns_if_pos (List.prefix_append _ _) ?_ _
  refine returns_bind (P := fun _ => True) (returns_issue_any fun r hr => ?_) fun _ _ => ?_
  · exact ⟨(), hr.trans hcontent⟩
  · exact returns_issue_any fun r hr => hr

/-- A text without an encoding is not. -/
theorem raises_writeFile {content : Str} {e : Exc} (hcontent : encodeUtf8 content = .error e) :
    Raises (m.contract py cfg host) (writeFile m.workdir name content) := by
  refine raises_bind (returns_path hname) ?_
  rintro _ rfl
  refine raises_bind returns_root ?_
  rintro _ rfl
  refine raises_if_pos (List.prefix_append _ _) ?_ _
  exact raises_bind_left (raises_issue fun r hr => ⟨e, hr.trans hcontent⟩)

end

theorem encodeUtf8_cases (text : Str) :
    encodeUtf8 text = .ok () ∨ ∃ e, encodeUtf8 text = .error e := by
  cases encodeUtf8 text with
  | ok u => exact .inl rfl
  | error e => exact .inr ⟨e, rfl⟩

section

variable {files : List InputFile}
  (hfiles : ∀ file ∈ files, safeBasename py file.name = some file.name ∧ PlainName file.name)
include hfiles

theorem returns_writeInputs (hcontents : ∀ file ∈ files, encodeUtf8 file.content = .ok ()) :
    Returns (m.contract py cfg host) (writeInputs py m.workdir files) fun _ => True := by
  induction files with
  | nil => exact returns_pure trivial
  | cons file rest ih =>
    obtain ⟨hsafe, hname⟩ := hfiles file List.mem_cons_self
    rw [writeInputs, hsafe]
    refine returns_bind (returns_writeFile hname (hcontents file List.mem_cons_self)) fun _ _ => ?_
    exact ih (fun file' h => hfiles file' (List.mem_cons_of_mem _ h))
      fun file' h => hcontents file' (List.mem_cons_of_mem _ h)

theorem raises_writeInputs (hcontents : ¬ ∀ file ∈ files, encodeUtf8 file.content = .ok ()) :
    Raises (m.contract py cfg host) (writeInputs py m.workdir files) := by
  induction files with
  | nil => exact absurd (fun file h => by cases h) hcontents
  | cons file rest ih =>
    obtain ⟨hsafe, hname⟩ := hfiles file List.mem_cons_self
    rw [writeInputs, hsafe]
    rcases encodeUtf8_cases file.content with hok | ⟨e, he⟩
    · refine raises_bind (returns_writeFile hname hok) fun _ _ => ?_
      refine ih (fun file' h => hfiles file' (List.mem_cons_of_mem _ h)) fun hrest => ?_
      exact hcontents (List.forall_mem_cons.mpr ⟨hok, hrest⟩)
    · exact raises_bind_left (raises_writeFile hname he)

end

section

variable {runtime : RuntimeConfig} (hsource : PlainName runtime.sourceFilename)
  {request : ExecutionRequest}
  (hfiles : ∀ file ∈ request.files,
    safeBasename py file.name = some file.name ∧ PlainName file.name)
  (jobId : Str)
include hsource hfiles

theorem returns_prepareWorkdir (hcode : encodeUtf8 request.code = .ok ())
    (hcontents : ∀ file ∈ request.files, encodeUtf8 file.content = .ok ()) :
    Returns (m.contract py cfg host) (prepareWorkdir py cfg runtime request jobId)
      fun w => w = m.workdir := by
  refine returns_bind (returns_issue_any fun r hr => hr) fun _ _ => ?_
  refine returns_bind (P := fun w : Str => w = m.workdir)
    (returns_issue fun r hr => ⟨_, hr, rfl⟩) ?_
  rintro _ rfl
  refine returns_bind (returns_issue_any fun r hr => hr) fun _ _ => ?_
  refine returns_bind (returns_writeFile hsource hcode) fun _ _ => ?_
  refine returns_bind (returns_writeInputs hfiles hcontents) fun _ _ => ?_
  exact returns_pure rfl

theorem raises_prepareWorkdir (hcontents : ¬ (encodeUtf8 request.code = .ok () ∧
      ∀ file ∈ request.files, encodeUtf8 file.content = .ok ())) :
    Raises (m.contract py cfg host) (prepareWorkdir py cfg runtime request jobId) := by
  refine raises_bind (returns_issue_any fun r hr => hr) fun _ _ => ?_
  refine raises_bind (P := fun w : Str => w = m.workdir)
    (returns_issue fun r hr => ⟨_, hr, rfl⟩) ?_
  rintro _ rfl
  refine raises_bind (returns_issue_any fun r hr => hr) fun _ _ => ?_
  rcases encodeUtf8_cases request.code with hcode | ⟨e, he⟩
  · refine raises_bind (returns_writeFile hsource hcode) fun _ _ => ?_
    exact raises_bind_left (raises_writeInputs hfiles fun h => hcontents ⟨hcode, h⟩)
  · exact raises_bind_left (raises_writeFile hsource he)

end

theorem returns_terminate (container : Str) :
    Returns (m.contract py cfg host) (terminate cfg container) fun _ => True := by
  refine returns_bind (returns_simple _) fun _ _ => ?_
  refine returns_bind (returns_issue_any fun r hr => hr) fun gracefully _ => ?_
  cases gracefully with
  | some e => exact returns_pure trivial
  | none =>
    refine returns_bind (returns_simple _) fun _ _ => ?_
    refine returns_bind (returns_issue_any fun r hr => hr) fun killed _ => ?_
    cases killed with
    | some e => exact returns_pure trivial
    | none =>
      refine returns_bind (returns_simple _) fun _ _ => ?_
      refine returns_bind (returns_issue_any fun r hr => hr) fun _ _ => ?_
      exact returns_issue_any fun r hr => hr

theorem returns_cancelPending (tasks : List Task) :
    Returns (m.contract py cfg host) (cancelPending tasks) fun _ => True := by
  induction tasks with
  | nil => exact returns_pure trivial
  | cons task rest ih =>
    refine returns_bind (returns_issue_any fun r hr => hr) fun _ _ => ?_
    exact returns_bind (returns_issue_any fun r hr => hr) fun _ _ => ih

theorem returns_awaitCompletion (container : Str) (timeout : ℤ) (cancellable : Bool) :
    Returns (m.contract py cfg host) (awaitCompletion cfg container timeout cancellable)
      fun _ => True := by
  refine returns_bind (returns_issue_any fun r hr => hr) fun _ _ => ?_
  refine returns_bind (P := fun _ => True) ?_ fun _ _ => ?_
  · cases cancellable with
    | true => exact returns_issue_any fun r hr => hr
    | false => exact returns_pure trivial
  · refine returns_bind (returns_issue_any fun r hr => hr) fun race _ => ?_
    refine returns_bind (returns_cancelPending _) fun _ _ => ?_
    split
    · exact returns_pure trivial
    · exact returns_bind (returns_terminate container) fun _ _ => returns_pure trivial

theorem returns_cleanup (container workdir : Str) :
    Returns (m.contract py cfg host) (cleanup cfg container workdir) fun _ => True := by
  refine returns_bind (P := fun _ => True) (returns_tryCatch ?_) fun _ _ => ?_
  · exact returns_bind (returns_simple _) fun _ _ => returns_pure trivial
  · exact returns_issue_any fun r hr => hr

section

variable {runtime : RuntimeConfig} {request : ExecutionRequest} (jobId : Str) {container : Str}
  (cancellable : Bool)

theorem returns_run
    (hspawn : spawnArgv m.argSpace
      (buildCommand py cfg host runtime request m.workdir container) = .ok ())
    (hstdin : encodeUtf8 request.stdin = .ok ()) :
    Returns (m.contract py cfg host)
      (run cfg runtime request jobId m.workdir container cancellable) fun _ => True := by
  refine returns_bind (returns_issue_any fun r hr => hr) fun _ _ => ?_
  refine returns_bind (returns_issue_any fun r hr => ⟨(), hr.trans hspawn⟩) fun _ _ => ?_
  refine returns_bind (P := fun _ => True) (returns_ofExcept hstdin trivial) fun _ _ => ?_
  refine returns_bind (returns_issue_any fun r hr => hr) fun _ _ => ?_
  refine returns_bind (returns_issue_any fun r hr => hr) fun _ _ => ?_
  refine returns_bind (returns_issue_any fun r hr => hr) fun _ _ => ?_
  refine returns_bind (returns_issue_any fun r hr => hr) fun _ _ => ?_
  refine returns_bind (returns_awaitCompletion _ _ _) fun _ _ => ?_
  refine returns_bind (returns_issue_any fun r hr => hr) fun _ _ => ?_
  refine returns_bind (returns_issue_any fun r hr => hr) fun _ _ => ?_
  refine returns_bind (returns_issue_any fun r hr => hr) fun _ _ => ?_
  refine returns_bind (returns_issue_any fun r hr => hr) fun _ _ => ?_
  refine returns_bind (returns_issue_any fun r hr => hr) fun _ _ => ?_
  exact returns_pure trivial

theorem raises_run
    (hspawn : ¬ (spawnArgv m.argSpace
        (buildCommand py cfg host runtime request m.workdir container) = .ok () ∧
      encodeUtf8 request.stdin = .ok ())) :
    Raises (m.contract py cfg host)
      (run cfg runtime request jobId m.workdir container cancellable) := by
  refine raises_bind (returns_issue_any fun r hr => hr) fun _ _ => ?_
  cases hargv : spawnArgv m.argSpace
      (buildCommand py cfg host runtime request m.workdir container) with
  | error e => exact raises_bind_left (raises_issue fun r hr => ⟨e, hr.trans hargv⟩)
  | ok u =>
    refine raises_bind (returns_issue_any fun r hr => ⟨(), hr.trans hargv⟩) fun _ _ => ?_
    rcases encodeUtf8_cases request.stdin with hstdin | ⟨e, he⟩
    · exact absurd ⟨hargv, hstdin⟩ hspawn
    · exact raises_bind_left (raises_ofExcept he)

end

/-! ### Executions on a working machine -/

/-- What the executor encodes and passes on. -/
structure Materialises (py : Python) (cfg : Settings) (host : Host) (m : Machine)
    (runtime : RuntimeConfig) (request : ExecutionRequest) (container : Str) : Prop where
  code : encodeUtf8 request.code = .ok ()
  files : ∀ file ∈ request.files, encodeUtf8 file.content = .ok ()
  spawn : spawnArgv m.argSpace
    (buildCommand py cfg host runtime request m.workdir container) = .ok ()
  stdin : encodeUtf8 request.stdin = .ok ()

section

variable {runtime : RuntimeConfig} {request : ExecutionRequest}
  (hruntime : getRuntime cfg.env request.language = .ok runtime)
  (hmem : runtime ∈ registry cfg.env) (hsource : PlainName runtime.sourceFilename)
  (hfiles : ∀ file ∈ request.files,
    safeBasename py file.name = some file.name ∧ PlainName file.name)
  (jobId : Str) (cancellable : Bool)
include hruntime hmem hsource hfiles

theorem returns_execute
    (h : Materialises py cfg host m runtime request (str "sandbox-" ++ jobId)) :
    Returns (m.contract py cfg host) (execute py cfg request jobId cancellable) fun _ => True := by
  refine returns_bind (P := fun x => x = runtime) (returns_ofExcept hruntime rfl) ?_
  rintro _ rfl
  refine returns_bind (returns_verifyImage hmem) fun _ _ => ?_
  refine returns_bind (returns_prepareWorkdir hsource hfiles jobId h.code h.files) ?_
  rintro _ rfl
  exact returns_ensuring (returns_run jobId cancellable h.spawn h.stdin) (returns_cleanup _ _)

theorem raises_execute
    (h : ¬ Materialises py cfg host m runtime request (str "sandbox-" ++ jobId)) :
    Raises (m.contract py cfg host) (execute py cfg request jobId cancellable) := by
  refine raises_bind (P := fun x => x = runtime) (returns_ofExcept hruntime rfl) ?_
  rintro _ rfl
  refine raises_bind (returns_verifyImage hmem) fun _ _ => ?_
  by_cases hcontents : encodeUtf8 request.code = .ok () ∧
      ∀ file ∈ request.files, encodeUtf8 file.content = .ok ()
  · refine raises_bind
      (returns_prepareWorkdir hsource hfiles jobId hcontents.1 hcontents.2) ?_
    rintro _ rfl
    refine raises_ensuring (raises_run jobId cancellable fun hrun => ?_) (returns_cleanup _ _)
    exact h ⟨hcontents.1, hcontents.2, hrun.1, hrun.2⟩
  · exact raises_bind_left (raises_prepareWorkdir hsource hfiles jobId hcontents)

/-- **An execution on a working machine** returns exactly when all of the request can be encoded
and passed on. -/
theorem execute_returns_iff {out : Except Exc ExecutionResult}
    {t : List (Event Cmd Reply Exc)}
    (hrun : Runs (execute py cfg request jobId cancellable) [] out t)
    (hworks : Admitted (m.contract py cfg host) [] t) :
    (∃ result, out = .ok result) ↔
      Materialises py cfg host m runtime request (str "sandbox-" ++ jobId) := by
  constructor
  · rintro ⟨result, rfl⟩
    by_contra h
    obtain ⟨e, he⟩ := hrun.of_wp
      (raises_execute hruntime hmem hsource hfiles jobId cancellable h []) hworks
    cases he
  · intro h
    obtain ⟨result, hresult, -⟩ := hrun.of_wp
      (returns_execute hruntime hmem hsource hfiles jobId cancellable h []) hworks
    exact ⟨result, hresult⟩

end

end

/-! ### The command of a request -/

/-- The elements of the command that come from the request. -/
def userArgs (env : List (Str × Str)) : List Str :=
  env.flatMap fun kv => if Dropped py kv.1 then [] else [str "-e", entryText kv]

/-- A request without variables. -/
def bareRequest : ExecutionRequest := ⟨[], [], [], 10, [], []⟩

theorem argSize_append (xs ys : List Str) : argSize (xs ++ ys) = argSize xs + argSize ys := by
  simp [argSize]

theorem buildCommand_split (runtime : RuntimeConfig) (workdir container : Str) :
    ∃ before after, ∀ request,
      buildCommand py cfg host runtime request workdir container =
        before ++ (userArgs py request.envVars ++ after) := by
  exact ⟨_, _, fun request => (List.append_assoc _ _ _).trans (List.append_assoc _ _ _)⟩

theorem mem_userArgs {env : List (Str × Str)} :
    (∀ s ∈ userArgs py env, Fits s) ↔ ∀ kv ∈ env, ¬ Dropped py kv.1 → Fits (entryText kv) := by
  have hflag : Fits (str "-e") := ⟨by decide, by decide⟩
  induction env with
  | nil => simp [userArgs]
  | cons kv env ih =>
    have hcons : userArgs py (kv :: env) =
        (if Dropped py kv.1 then [] else [str "-e", entryText kv]) ++ userArgs py env := rfl
    rw [hcons, List.forall_mem_append, List.forall_mem_cons, and_congr_right fun _ => ih]
    refine and_congr_left fun _ => ?_
    by_cases hkv : Dropped py kv.1
    · simp [hkv]
    · simp [hkv, hflag]

/-- When a command without variables can be spawned, only the variables of the request decide. -/
theorem spawnArgv_buildCommand_iff {argSpace : ℕ} {runtime : RuntimeConfig}
    {workdir container : Str}
    (hbare : spawnArgv argSpace
      (buildCommand py cfg host runtime bareRequest workdir container) = .ok ())
    (request : ExecutionRequest) :
    spawnArgv argSpace (buildCommand py cfg host runtime request workdir container) = .ok () ↔
      (∀ kv ∈ request.envVars, ¬ Dropped py kv.1 → Fits (entryText kv)) ∧
      argSize (buildCommand py cfg host runtime bareRequest workdir container)
        + argSize (userArgs py request.envVars) ≤ argSpace := by
  obtain ⟨before, after, hsplit⟩ := buildCommand_split py cfg host runtime workdir container
  have hnone : userArgs py bareRequest.envVars = [] := rfl
  rw [spawnArgv_ok, hsplit, hnone, List.nil_append, List.forall_mem_append] at hbare
  obtain ⟨⟨hbefore, hafter⟩, -⟩ := hbare
  rw [spawnArgv_ok, hsplit request, hsplit bareRequest, hnone, List.nil_append,
    List.forall_mem_append, List.forall_mem_append, mem_userArgs, argSize_append, argSize_append,
    argSize_append]
  constructor
  · rintro ⟨⟨-, henv, -⟩, hsize⟩
    exact ⟨henv, by omega⟩
  · rintro ⟨henv, hsize⟩
    exact ⟨⟨hbefore, henv, hafter⟩, by omega⟩

/-! ### One working machine -/

/-- A machine on which every program exits at once. -/
def Machine.answer (m : Machine) : (c : Cmd) → Except Exc (Reply c)
  | .simple _ => .ok (0, (registry cfg.env).flatMap RuntimeConfig.imageDigest, [])
  | .mkdtemp _ _ => .ok m.workdir
  | .realpath path => .ok (if path = m.workdir then m.root else m.root ++ [47] ++ basename path)
  | .writeText _ content => encodeUtf8 content
  | .spawn runtime request workdir container =>
    spawnArgv m.argSpace (buildCommand py cfg host runtime request workdir container)
  | .clock => .ok (0 : ℕ)
  | .wait _ => .ok ⟨some (.exited 0), false⟩
  | .waitFor _ => .ok none
  | .waitClient => .ok (.exited 0)
  | .awaitPumps => .ok []
  | .awaitSampler => .ok {}
  | .makedirs _ | .chmod _ _ | .rmtree _ => .ok ()
  | .createTask _ | .cancelTask _ | .quiet _ | .killClient => .ok ()

theorem answers_answer (m : Machine) (c : Cmd) :
    m.Answers py cfg host c (m.answer py cfg host c) := by
  cases c with
  | simple argv =>
    refine ⟨_, rfl, fun runtime hruntime _ => ⟨rfl, fun _ => ?_⟩⟩
    exact List.infix_of_mem_flatten (List.mem_map_of_mem hruntime)
  | realpath path =>
    refine ⟨fun h => congrArg Except.ok (if_pos h), ?_⟩
    rintro name hname rfl
    obtain ⟨hbase, hne⟩ := basename_joinPath hname m.workdir
    have hpath : (if joinPath m.workdir name = m.workdir then m.root
        else m.root ++ [47] ++ basename (joinPath m.workdir name)) = m.root ++ [47] ++ name := by
      rw [if_neg hne, hbase]
    exact congrArg Except.ok hpath
  | mkdtemp pre dir => rfl
  | writeText path content => rfl
  | spawn runtime request workdir container => rfl
  | _ => exact ⟨_, rfl⟩

end CodeInterpreter.Executor
