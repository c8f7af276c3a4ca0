import CodeInterpreter.Executor.Sandbox
import Mathlib.Data.List.Nodup

/-!
# The command line of the sandbox

`SandboxExecutor._build_command` (`worker/sandbox/executor.py`) and the grammar with which
`docker run` reads it: some options take the next element, the others are complete, and the first
element that is not an option is the image. Options are read back as the list of `Opt` they were
rendered from, so a text of the request cannot become one. The variables of the environment are the
elements after `-e`, of which the last one with a name counts.

How `os.path` computes the path of the daemon is left open (`Host`).

## Main definitions

* `hostPathFor`, `profilePath`, `forbiddenEnv`, `buildCommand`.
* `Opt`, `Invocation`, `parseArgv`, `envValue`: the grammar.
* `EnvironmentKept`: the environment of the container.

## Main results

* `parseRun_render`: what is rendered from options is read back as these options.
* `command_unaltered`: only the environment depends on the request, and how.
-/

namespace CodeInterpreter.Executor

/-! ### The command -/

/-- What the command line depends on besides the settings. -/
structure Host where
  hostWorkdir : Str
  tempDir : Str
  relpath : Str → Str → Str
  normpath : Str → Str

/-- Names of environment variables user code may never override. -/
def forbiddenEnv : List Str :=
  [str "PATH", str "LD_PRELOAD", str "LD_LIBRARY_PATH", str "LD_AUDIT", str "HOME", str "TMPDIR",
    str "NODE_OPTIONS", str "PYTHONPATH", str "PYTHONSTARTUP", str "BASH_ENV", str "ENV", str "IFS",
    str "RUBYOPT", str "GEM_PATH", str "CLASSPATH", str "JAVA_TOOL_OPTIONS", str "SANDBOX"]

variable (py : Python) (cfg : Settings) (host : Host)

/-- `WorkerConfig.host_path_for`. -/
def hostPathFor (localPath : Str) : Str :=
  if host.hostWorkdir = [] then localPath
  else host.normpath (joinPath host.hostWorkdir (host.relpath localPath cfg.localWorkdir))

/-- `profile_path`: where the seccomp profile of a language is written. -/
def profilePath (language : Str) (networkEnabled : Bool) : Str :=
  let cacheDir := (cfg.env (str "SECCOMP_CACHE_DIR")).getD []
  joinPath (if cacheDir = [] then joinPath host.tempDir (str "sandbox-seccomp") else cacheDir)
    (language ++ (if networkEnabled then str "-net" else []) ++ str ".json")

/-- Where the program may write. -/
def workIn (runtime : RuntimeConfig) : Str :=
  if runtime.needsExecBuild then str "/build" else str "/tmp"

/-- A variable of the user that is not passed on. -/
def Dropped (key : Str) : Prop := py.upper key ∈ forbiddenEnv ∨ 61 ∈ key ∨ key = []

instance (key : Str) : Decidable (Dropped py key) := inferInstanceAs (Decidable (_ ∨ _))

/-- `SandboxExecutor._build_command`. -/
def buildCommand (runtime : RuntimeConfig) (request : ExecutionRequest) (workdir container : Str) :
    List Str :=
  [cfg.dockerPath, str "run", str "--rm", str "-i", str "--name", container, str "--read-only",
    str "--cap-drop", str "ALL", str "--security-opt", str "no-new-privileges",
    str "--security-opt",
    str "seccomp=" ++ profilePath cfg host runtime.id runtime.limits.networkEnabled,
    str "--user", str "nobody", str "--hostname", str "sandbox",
    str "--label", str "sandbox-managed=1", str "--stop-timeout", str "2", str "--init"]
  ++ runtime.limits.toDockerFlags py
  ++ (if runtime.needsExecBuild then
      [str "--tmpfs", str "/build:rw,exec,nosuid,nodev,size=" ++ decimal runtime.limits.diskMb
        ++ str "m,mode=1777"]
    else [])
  ++ [str "--workdir", workIn runtime, str "-e", str "SANDBOX=1",
    str "-e", str "HOME=" ++ workIn runtime, str "-e", str "TMPDIR=/tmp"]
  ++ request.envVars.flatMap (fun kv =>
      if Dropped py kv.1 then [] else [str "-e", kv.1 ++ str "=" ++ kv.2])
  ++ [str "-v", hostPathFor cfg host workdir ++ str ":/sandbox:ro", runtime.image]
  ++ runtime.argvFor (str "/sandbox/" ++ runtime.sourceFilename)

/-! ### The grammar of `docker run` -/

/-- An option: complete in itself, or with the next element as its value. -/
inductive Opt
  | flag (x : Str)
  | value (x y : Str)
  deriving DecidableEq

/-- What `docker run` is asked to do. The values of `-e` and `-v` are kept apart from the other
options. -/
structure Invocation where
  options : List Opt := []
  env : List Str := []
  mounts : List Str := []
  image : Str
  command : List Str
  deriving DecidableEq

/-- The options that take the next element. -/
def takesValue : List Str :=
  [str "-e", str "-v", str "--name", str "--user", str "--cap-drop", str "--security-opt",
    str "--label", str "--hostname", str "--stop-timeout", str "--ulimit", str "--tmpfs",
    str "--workdir"]

/-- Put an option in front. -/
def Invocation.add (inv : Invocation) : Opt → Invocation
  | .flag x => { inv with options := .flag x :: inv.options }
  | .value x y =>
    if x = str "-e" then { inv with env := y :: inv.env }
    else if x = str "-v" then { inv with mounts := y :: inv.mounts }
    else { inv with options := .value x y :: inv.options }

/-- Read the elements after `run`. -/
def parseRun : List Str → Option Invocation
  | [] => none
  | [x] => if x.head? = some 45 then none else some { image := x, command := [] }
  | x :: y :: rest =>
    if x ∈ takesValue then (parseRun rest).map fun inv => inv.add (.value x y)
    else if x.head? = some 45 then (parseRun (y :: rest)).map fun inv => inv.add (.flag x)
    else some { image := x, command := y :: rest }

/-- Read a whole argument vector. -/
def parseArgv : List Str → Option Invocation
  | _ :: sub :: rest => if sub = str "run" then parseRun rest else none
  | _ => none

/-- The name in an element after `-e`. -/
def envName (s : Str) : Str := s.takeWhile fun c => c != 61

/-- The text after the first `=`. -/
def envText (s : Str) : Str := (s.dropWhile fun c => c != 61).drop 1

/-- The value of a variable: the last element with its name counts. An element without `=` would
stand for a variable of the client; the command has none. -/
def envValue (key : Str) : List Str → Option Str
  | [] => none
  | s :: rest => (envValue key rest).or (if envName s = key then some (envText s) else none)

/-! ### Rendered options -/

/-- The elements of an option. -/
def Opt.render : Opt → List Str
  | .flag x => [x]
  | .value x y => [x, y]

/-- The option is read as it was rendered. -/
def Opt.Valid : Opt → Prop
  | .flag x => x ∉ takesValue ∧ x.head? = some 45
  | .value x _ => x ∈ takesValue

/-- What is rendered from options is read back as these options. -/
theorem parseRun_render {opts : List Opt} (hopts : ∀ o ∈ opts, o.Valid) {rest : List Str}
    (hrest : rest ≠ []) :
    parseRun (opts.flatMap Opt.render ++ rest) =
      (parseRun rest).map fun inv => opts.foldr (fun o inv => inv.add o) inv := by
  induction opts with
  | nil => simp
  | cons o opts ih =>
    have ho := hopts o List.mem_cons_self
    have ih := ih fun o' ho' => hopts o' (List.mem_cons_of_mem _ ho')
    cases o with
    | value x y =>
      have hstep : ∀ xs, parseRun (x :: y :: xs) =
          (parseRun xs).map fun inv => inv.add (.value x y) := fun xs => if_pos ho
      simp only [List.flatMap_cons, Opt.render, List.cons_append, List.nil_append, hstep, ih,
        Option.map_map, List.foldr_cons]
      rfl
    | flag x =>
      have hstep : ∀ xs : List Str, xs ≠ [] →
          parseRun (x :: xs) = (parseRun xs).map fun inv => inv.add (.flag x) := by
        intro xs hxs
        obtain ⟨y, ys, rfl⟩ := List.exists_cons_of_ne_nil hxs
        rw [parseRun, if_neg ho.1, if_pos ho.2]
      simp only [List.flatMap_cons, Opt.render, List.cons_append, List.nil_append,
        hstep _ (List.append_ne_nil_of_right_ne_nil _ hrest), ih, Option.map_map, List.foldr_cons]
      rfl

/-- An option that is neither a variable nor a mount. -/
def Opt.Plain : Opt → Prop
  | .flag _ => True
  | .value x _ => x ≠ str "-e" ∧ x ≠ str "-v"

theorem foldr_add_plain {opts : List Opt} (hopts : ∀ o ∈ opts, o.Plain) (inv : Invocation) :
    opts.foldr (fun o inv => inv.add o) inv = { inv with options := opts ++ inv.options } := by
  induction opts with
  | nil => rfl
  | cons o opts ih =>
    have ho := hopts o List.mem_cons_self
    rw [List.foldr_cons, ih fun o' ho' => hopts o' (List.mem_cons_of_mem _ ho')]
    cases o with
    | flag x => rfl
    | value x y => simp only [Invocation.add, if_neg ho.1, if_neg ho.2, List.cons_append]

theorem foldr_add_env (entries : List Str) (inv : Invocation) :
    (entries.map fun s => Opt.value (str "-e") s).foldr (fun o inv => inv.add o) inv =
      { inv with env := entries ++ inv.env } := by
  induction entries with
  | nil => rfl
  | cons s entries ih =>
    rw [List.map_cons, List.foldr_cons, ih]
    rfl

theorem add_mount (mount : Str) (inv : Invocation) :
    inv.add (.value (str "-v") mount) = { inv with mounts := mount :: inv.mounts } := by
  have hne : str "-v" ≠ str "-e" := by decide
  rw [Invocation.add, if_neg hne, if_pos rfl]

/-- An option with its value behind `=` is complete. -/
theorem valid_flag_of_assign {x : Str} (hdash : x.head? = some 45) (hassign : 61 ∈ x) :
    (Opt.flag x).Valid := by
  have htakes : ∀ y ∈ takesValue, 61 ∉ y := by decide
  exact ⟨fun hx => htakes x hx hassign, hdash⟩

/-! ### The environment -/

/-- The element after `-e` of a variable. -/
def entryText (kv : Str × Str) : Str := kv.1 ++ str "=" ++ kv.2

theorem bne_equals {key : Str} (hkey : 61 ∉ key) : ∀ c ∈ key, (c != 61) = true := by
  intro c hc
  simp only [bne_iff_ne, ne_eq]
  rintro rfl
  exact hkey hc

theorem envName_entryText {kv : Str × Str} (hkey : 61 ∉ kv.1) : envName (entryText kv) = kv.1 := by
  simp [envName, entryText, List.append_assoc, List.takeWhile_append_of_pos (bne_equals hkey), str]

theorem envText_entryText {kv : Str × Str} (hkey : 61 ∉ kv.1) : envText (entryText kv) = kv.2 := by
  simp [envText, entryText, List.append_assoc, List.dropWhile_append_of_pos (bne_equals hkey), str]

section

variable {entries : List (Str × Str)} (hentries : ∀ kv ∈ entries, 61 ∉ kv.1)
include hentries

/-- A variable that no element names is not set. -/
theorem envValue_eq_none {key : Str} (hkey : key ∉ entries.map Prod.fst) :
    envValue key (entries.map entryText) = none := by
  induction entries with
  | nil => rfl
  | cons kv entries ih =>
    rw [List.map_cons, List.mem_cons, not_or] at hkey
    have hname := envName_entryText (hentries kv List.mem_cons_self)
    have ih := ih (fun kv' hkv' => hentries kv' (List.mem_cons_of_mem _ hkv')) hkey.2
    simp [envValue, ih, hname, Ne.symm hkey.1]

/-- With distinct names every variable has the value of its element. -/
theorem envValue_eq_some (hnodup : (entries.map Prod.fst).Nodup) {kv : Str × Str}
    (hkv : kv ∈ entries) : envValue kv.1 (entries.map entryText) = some kv.2 := by
  induction entries with
  | nil => cases hkv
  | cons kv' entries ih =>
    rw [List.map_cons, List.nodup_cons] at hnodup
    have hrest : ∀ x ∈ entries, 61 ∉ x.1 := fun x hx => hentries x (List.mem_cons_of_mem _ hx)
    have hkey' := hentries kv' List.mem_cons_self
    rcases List.mem_cons.mp hkv with rfl | hkv
    · simp [envValue, envValue_eq_none hrest hnodup.1, envName_entryText hkey',
        envText_entryText hkey']
    · simp [envValue, ih hrest hnodup.2 hkv]

end

section

variable (runtime : RuntimeConfig) (request : ExecutionRequest)

/-- The variables that the executor sets itself. -/
def executorEntries : List (Str × Str) :=
  [(str "SANDBOX", str "1"), (str "HOME", workIn runtime), (str "TMPDIR", str "/tmp")]

/-- All variables of the container, those of the user last. -/
def containerEntries : List (Str × Str) :=
  executorEntries runtime ++ request.envVars.filter fun kv => ¬ Dropped py kv.1

/-- The environment of the container: the executor's variables keep their values, no name on the
list of the forbidden ones comes from the user in any letter case, and every other variable of the
user has the submitted value. -/
structure EnvironmentKept (env : List Str) : Prop where
  sandbox : envValue (str "SANDBOX") env = some (str "1")
  home : envValue (str "HOME") env = some (workIn runtime)
  tmpdir : envValue (str "TMPDIR") env = some (str "/tmp")
  forbidden : ∀ key, py.upper key ∈ forbiddenEnv ∨ key.map asciiUpper ∈ forbiddenEnv →
    key ∉ (executorEntries runtime).map Prod.fst → envValue key env = none
  user : ∀ kv ∈ request.envVars, py.upper kv.1 ∉ forbiddenEnv → kv.1 ≠ [] → 61 ∉ kv.1 →
    envValue kv.1 env = some kv.2
  origin : ∀ key value, envValue key env = some value →
    (key, value) ∈ executorEntries runtime ∨ (key, value) ∈ request.envVars

theorem mem_containerEntries {kv : Str × Str} :
    kv ∈ containerEntries py runtime request ↔
      kv ∈ executorEntries runtime ∨ kv ∈ request.envVars ∧ ¬ Dropped py kv.1 := by
  simp [containerEntries]

theorem executorEntries_name {key : Str} (hkey : key ∈ (executorEntries runtime).map Prod.fst) :
    key ∈ forbiddenEnv ∧ 61 ∉ key := by
  have hnames : ∀ key ∈ [str "SANDBOX", str "HOME", str "TMPDIR"],
      key ∈ forbiddenEnv ∧ 61 ∉ key := by decide
  exact hnames key hkey

/-- An ASCII name is forbidden in every letter case. -/
theorem upper_mem_forbiddenEnv {key : Str} (hkey : key.map asciiUpper ∈ forbiddenEnv) :
    py.upper key ∈ forbiddenEnv := by
  have hascii : ∀ name ∈ forbiddenEnv, ∀ c ∈ name, c < 128 := by decide
  rw [py.upper_ascii]
  · exact hkey
  · intro c hc
    have hlt := hascii _ hkey _ (List.mem_map_of_mem hc)
    unfold asciiUpper at hlt
    split at hlt <;> omega

theorem upper_of_mem_forbiddenEnv {key : Str} (hkey : key ∈ forbiddenEnv) :
    py.upper key ∈ forbiddenEnv := by
  have hupper : ∀ name ∈ forbiddenEnv, name.map asciiUpper = name := by decide
  exact upper_mem_forbiddenEnv py ((hupper key hkey).symm ▸ hkey)

theorem containerEntries_assign {kv : Str × Str}
    (hkv : kv ∈ containerEntries py runtime request) : 61 ∉ kv.1 := by
  rcases (mem_containerEntries py runtime request).mp hkv with hkv | ⟨-, hkv⟩
  · exact (executorEntries_name runtime (List.mem_map_of_mem hkv)).2
  · exact fun h => hkv (.inr (.inl h))

theorem containerEntries_nodup (hdict : (request.envVars.map Prod.fst).Nodup) :
    ((containerEntries py runtime request).map Prod.fst).Nodup := by
  rw [containerEntries, List.map_append, List.nodup_append]
  refine ⟨?_, (List.filter_sublist.map _).nodup hdict, ?_⟩
  · have hnames : [str "SANDBOX", str "HOME", str "TMPDIR"].Nodup := by decide
    exact hnames
  · rintro key hkey _ huser rfl
    obtain ⟨kv, hkv, rfl⟩ := List.mem_map.mp huser
    have hdropped : ¬ Dropped py kv.1 := by simpa using (List.mem_filter.mp hkv).2
    exact hdropped (.inl (upper_of_mem_forbiddenEnv py (executorEntries_name runtime hkey).1))

theorem environmentKept (hdict : (request.envVars.map Prod.fst).Nodup) :
    EnvironmentKept py runtime request
      ((containerEntries py runtime request).map entryText) := by
  have hassign : ∀ kv ∈ containerEntries py runtime request, 61 ∉ kv.1 := fun kv =>
    containerEntries_assign py runtime request
  have hnodup := containerEntries_nodup py runtime request hdict
  have hset : ∀ kv, kv ∈ executorEntries runtime ∨ kv ∈ request.envVars ∧ ¬ Dropped py kv.1 →
      envValue kv.1 ((containerEntries py runtime request).map entryText) = some kv.2 :=
    fun kv hkv => envValue_eq_some hassign hnodup
      ((mem_containerEntries py runtime request).mpr hkv)
  refine ⟨hset (str "SANDBOX", str "1") (.inl ?_), hset (str "HOME", workIn runtime) (.inl ?_),
    hset (str "TMPDIR", str "/tmp") (.inl ?_), ?_, ?_, ?_⟩
  · simp [executorEntries]
  · simp [executorEntries]
  · simp [executorEntries]
  · intro key hforbidden hkey
    have hupper : py.upper key ∈ forbiddenEnv :=
      hforbidden.elim id fun h => upper_mem_forbiddenEnv py h
    refine envValue_eq_none hassign fun hmem => ?_
    obtain ⟨kv, hkv, rfl⟩ := List.mem_map.mp hmem
    rcases (mem_containerEntries py runtime request).mp hkv with hkv | ⟨-, hkv⟩
    · exact hkey (List.mem_map_of_mem hkv)
    · exact hkv (.inl hupper)
  · intro kv hkv hupper hne hfree
    refine hset kv (.inr ⟨hkv, ?_⟩)
    rintro (h | h | h)
    · exact hupper h
    · exact hfree h
    · exact hne h
  · intro key value hvalue
    by_cases hmem : key ∈ (containerEntries py runtime request).map Prod.fst
    · obtain ⟨kv, hkv, rfl⟩ := List.mem_map.mp hmem
      rw [envValue_eq_some hassign hnodup hkv] at hvalue
      obtain rfl := Option.some.inj hvalue
      exact ((mem_containerEntries py runtime request).mp hkv).imp_right And.left
    · rw [envValue_eq_none hassign hmem] at hvalue
      cases hvalue

end

/-! ### The whole command -/

section

variable (runtime : RuntimeConfig) (request : ExecutionRequest) (workdir container : Str)

/-- The options apart from the variables and the mount. -/
def plainOpts : List Opt :=
  [.flag (str "--rm"), .flag (str "-i"), .value (str "--name") container,
    .flag (str "--read-only"), .value (str "--cap-drop") (str "ALL"),
    .value (str "--security-opt") (str "no-new-privileges"),
    .value (str "--security-opt")
      (str "seccomp=" ++ profilePath cfg host runtime.id runtime.limits.networkEnabled),
    .value (str "--user") (str "nobody"), .value (str "--hostname") (str "sandbox"),
    .value (str "--label") (str "sandbox-managed=1"), .value (str "--stop-timeout") (str "2"),
    .flag (str "--init"),
    .flag (str "--memory=" ++ decimal runtime.limits.memoryMb ++ str "m"),
    .flag (str "--memory-swap=" ++ decimal runtime.limits.memoryMb ++ str "m"),
    .flag (str "--cpus=" ++ py.str (.float (.finite runtime.limits.cpuQuota))),
    .flag (str "--pids-limit=" ++ decimal runtime.limits.pidsLimit),
    .flag (str "--tmpfs=/tmp:rw,noexec,nosuid,nodev,size=" ++ decimal runtime.limits.diskMb
      ++ str "m"),
    .value (str "--ulimit") (str "nofile=256:256"),
    .value (str "--ulimit") (str "nproc=" ++ decimal runtime.limits.pidsLimit ++ str ":"
      ++ decimal runtime.limits.pidsLimit),
    .value (str "--ulimit") (str "fsize=" ++ decimal (runtime.limits.diskMb * 1024 * 1024))]
  ++ (if runtime.limits.networkEnabled then [] else [.flag (str "--network=none")])
  ++ (if runtime.needsExecBuild then
      [.value (str "--tmpfs") (str "/build:rw,exec,nosuid,nodev,size="
        ++ decimal runtime.limits.diskMb ++ str "m,mode=1777")]
    else [])
  ++ [.value (str "--workdir") (workIn runtime)]

/-- The option of the only mount. -/
def mountSpec : Str := hostPathFor cfg host workdir ++ str ":/sandbox:ro"

/-- All options. -/
def allOpts : List Opt :=
  plainOpts py cfg host runtime container
  ++ ((containerEntries py runtime request).map entryText).map (fun s => Opt.value (str "-e") s)
  ++ [.value (str "-v") (mountSpec cfg host workdir)]

theorem render_userEnv (env : List (Str × Str)) :
    env.flatMap (fun kv => if Dropped py kv.1 then [] else [str "-e", kv.1 ++ str "=" ++ kv.2]) =
      (((env.filter fun kv => ¬ Dropped py kv.1).map entryText).map
        fun s => Opt.value (str "-e") s).flatMap Opt.render := by
  induction env with
  | nil => rfl
  | cons kv env ih =>
    rw [List.flatMap_cons, ih]
    by_cases hkv : Dropped py kv.1
    · simp only [hkv, not_true_eq_false, decide_false, Bool.false_eq_true, if_true, not_false_eq_true,
        List.filter_cons_of_neg, List.nil_append]
    · simp only [hkv, not_false_eq_true, decide_true, if_false, List.filter_cons_of_pos,
        List.map_cons, List.flatMap_cons, Opt.render, entryText]

/-- The command is rendered from its options. -/
theorem buildCommand_eq :
    buildCommand py cfg host runtime request workdir container =
      cfg.dockerPath :: str "run" ::
        ((allOpts py cfg host runtime request workdir container).flatMap Opt.render
          ++ runtime.image :: runtime.argvFor (str "/sandbox/" ++ runtime.sourceFilename)) := by
  have hhome : str "HOME=" = str "HOME" ++ str "=" := by decide
  have hsandbox : str "SANDBOX=1" = str "SANDBOX" ++ (str "=" ++ str "1") := by decide
  have htmpdir : str "TMPDIR=/tmp" = str "TMPDIR" ++ (str "=" ++ str "/tmp") := by decide
  have hnetwork : (if runtime.limits.networkEnabled then []
        else [Opt.flag (str "--network=none")]).flatMap Opt.render =
      if runtime.limits.networkEnabled then [] else [str "--network=none"] := by
    split <;> rfl
  have hbuild : ∀ text, (if runtime.needsExecBuild then [Opt.value (str "--tmpfs") text]
        else []).flatMap Opt.render =
      if runtime.needsExecBuild then [str "--tmpfs", text] else [] := by
    intro text
    split <;> rfl
  rw [buildCommand, render_userEnv]
  simp only [allOpts, plainOpts, ResourceConfig.toDockerFlags, containerEntries, executorEntries,
    mountSpec, hhome, hsandbox, htmpdir, entryText, List.flatMap_append, List.map_cons,
    List.flatMap_cons, List.flatMap_nil, hnetwork, hbuild, Opt.render, List.cons_append,
    List.nil_append, List.append_assoc, List.append_nil]

/-- The options other than `-e` and `-v` that take the next element. -/
theorem value_plain {x : Str} (hx : x ∈ takesValue.drop 2) (y : Str) :
    (Opt.value x y).Valid ∧ (Opt.value x y).Plain := by
  have hdrop : ∀ x ∈ takesValue.drop 2, x ∈ takesValue ∧ x ≠ str "-e" ∧ x ≠ str "-v" := by decide
  exact hdrop x hx

theorem flag_plain {x : Str} (hx : x ∉ takesValue ∧ x.head? = some 45) :
    (Opt.flag x).Valid ∧ (Opt.flag x).Plain := ⟨hx, trivial⟩

theorem assign_plain {name : Str} (hname : name.head? = some 45 ∧ 61 ∈ name) (text : Str) :
    (Opt.flag (name ++ text)).Valid ∧ (Opt.flag (name ++ text)).Plain := by
  refine ⟨valid_flag_of_assign ?_ (List.mem_append_left _ hname.2), trivial⟩
  rw [List.head?_append, hname.1]
  rfl

theorem plainOpts_valid :
    ∀ o ∈ plainOpts py cfg host runtime container, o.Valid ∧ o.Plain := by
  have hnetwork : ∀ o ∈ (if runtime.limits.networkEnabled then []
      else [Opt.flag (str "--network=none")]), o.Valid ∧ o.Plain := by
    split
    · simp
    · simpa using flag_plain (x := str "--network=none") (by decide)
  have hbuild : ∀ text, ∀ o ∈ (if runtime.needsExecBuild then [Opt.value (str "--tmpfs") text]
      else []), o.Valid ∧ o.Plain := by
    intro text
    split
    · simpa using value_plain (x := str "--tmpfs") (by decide) text
    · simp
  simp only [plainOpts, List.forall_mem_append, List.forall_mem_cons, List.append_assoc]
  exact ⟨⟨flag_plain (by decide), flag_plain (by decide), value_plain (by decide) _,
    flag_plain (by decide), value_plain (by decide) _, value_plain (by decide) _,
    value_plain (by decide) _, value_plain (by decide) _, value_plain (by decide) _,
    value_plain (by decide) _, value_plain (by decide) _, flag_plain (by decide),
    assign_plain (by decide) _, assign_plain (by decide) _, assign_plain (by decide) _,
    assign_plain (by decide) _, assign_plain (by decide) _, value_plain (by decide) _,
    value_plain (by decide) _, value_plain (by decide) _, by simp⟩, hnetwork, hbuild _,
    value_plain (by decide) _, by simp⟩

theorem allOpts_valid :
    ∀ o ∈ allOpts py cfg host runtime request workdir container, o.Valid := by
  have hvars : str "-e" ∈ takesValue ∧ str "-v" ∈ takesValue := by decide
  intro o ho
  rw [allOpts, List.mem_append, List.mem_append, List.mem_singleton] at ho
  rcases ho with (ho | ho) | rfl
  · exact (plainOpts_valid py cfg host runtime container o ho).1
  · obtain ⟨s, -, rfl⟩ := List.mem_map.mp ho
    exact hvars.1
  · exact hvars.2

/-- What comes after the options is read as the image and the command, unless the image looks like
an option. -/
theorem parseRun_image {image : Str} (himage : image.head? ≠ some 45) (argv : List Str)
    (hvalue : image ∉ takesValue) :
    parseRun (image :: argv) = some { image := image, command := argv } := by
  cases argv with
  | nil => exact if_neg himage
  | cons x xs => rw [parseRun, if_neg hvalue, if_neg himage]

theorem image_notMem_takesValue (hruntime : runtime ∈ registry cfg.env) :
    runtime.image ∉ takesValue := by
  have hcolon : ∀ x ∈ takesValue, 58 ∉ x := by decide
  obtain ⟨spec, -, rfl⟩ := List.mem_map.mp hruntime
  intro h
  refine hcolon _ h ?_
  simp [imageFor, str]

/-- The elements after the options bring no variable and no mount. -/
theorem parseRun_tail (hruntime : runtime ∈ registry cfg.env) (source : Str) :
    ∃ inv, parseRun (runtime.image :: runtime.argvFor source) = some inv ∧ inv.env = [] ∧
      inv.mounts = [] ∧ (runtime.image.head? ≠ some 45 →
        inv.options = [] ∧ inv.image = runtime.image ∧ inv.command = runtime.argvFor source) := by
  have hvalue := image_notMem_takesValue cfg runtime hruntime
  by_cases himage : runtime.image.head? = some 45
  · -- the image counts as a flag, and the interpreter as the image
    obtain ⟨spec, hspec, rfl⟩ := List.mem_map.mp hruntime
    have hentry : ∀ spec ∈ specs, spec.entrypoint.head?.any
        fun x => x.head? ≠ some 45 ∧ x ∉ takesValue := by decide
    obtain ⟨x, hx, hok⟩ := Option.any_eq_true _ _ |>.mp (hentry spec hspec)
    obtain ⟨hdash, htakes⟩ := of_decide_eq_true hok
    obtain ⟨xs, hxs⟩ := List.head?_eq_some_iff.mp hx
    refine ⟨({ image := x, command := xs ++ [source] } : Invocation).add
      (.flag (imageFor cfg.env spec.id).1), ?_, rfl, rfl, fun h => absurd himage h⟩
    rw [RuntimeConfig.argvFor, hxs, List.cons_append, parseRun, if_neg hvalue, if_pos himage,
      parseRun_image hdash _ htakes]
    rfl
  · exact ⟨_, parseRun_image himage _ hvalue, rfl, rfl, fun _ => ⟨rfl, rfl, rfl⟩⟩

/-- For every runtime of the registry, whatever the request: the options, the only mount, the image
and the command are the same, and the environment keeps to its rules. -/
theorem command_unaltered {runtime : RuntimeConfig} (hruntime : runtime ∈ registry cfg.env)
    (workdir container : Str) :
    ∃ inv : Invocation,
      inv.mounts = [hostPathFor cfg host workdir ++ str ":/sandbox:ro"] ∧
      (runtime.image.head? ≠ some 45 →
        inv.options = plainOpts py cfg host runtime container ∧ inv.image = runtime.image ∧
        inv.command = runtime.argvFor (str "/sandbox/" ++ runtime.sourceFilename)) ∧
      ∀ request : ExecutionRequest, (request.envVars.map Prod.fst).Nodup →
        ∃ env, parseArgv (buildCommand py cfg host runtime request workdir container) =
            some { inv with env := env } ∧
          EnvironmentKept py runtime request env := by
  obtain ⟨tail, htail, henv, hmounts, himage⟩ :=
    parseRun_tail cfg runtime hruntime (str "/sandbox/" ++ runtime.sourceFilename)
  have hplain : ∀ o ∈ plainOpts py cfg host runtime container, o.Plain := fun o ho =>
    (plainOpts_valid py cfg host runtime container o ho).2
  refine ⟨{ tail with
    options := plainOpts py cfg host runtime container ++ tail.options
    mounts := [mountSpec cfg host workdir] }, rfl, fun h => ?_, fun request hdict => ?_⟩
  · obtain ⟨hoptions, himg, hcommand⟩ := himage h
    exact ⟨by rw [hoptions, List.append_nil], himg, hcommand⟩
  · refine ⟨_, ?_, environmentKept py runtime request hdict⟩
    have hparse := parseRun_render (allOpts_valid py cfg host runtime request workdir container)
      (List.cons_ne_nil runtime.image
        (runtime.argvFor (str "/sandbox/" ++ runtime.sourceFilename)))
    rw [buildCommand_eq, parseArgv, if_pos rfl, hparse, htail, Option.map_some, allOpts,
      List.foldr_append, List.foldr_append, foldr_add_env, foldr_add_plain hplain]
    simp [add_mount, henv, hmounts]

end

/-- The settings of the sample command. -/
def commandSettings : Settings where
  env _ := none
  dockerPath := str "docker"
  localWorkdir := str "/tmp/sandbox-work"
  sigtermGraceSeconds := 2

/-- A worker on the host. -/
def commandHost : Host where
  hostWorkdir := []
  tempDir := str "/tmp"
  relpath path _ := path
  normpath path := path

/-- A request that tries to set a forbidden variable, one of the executor's and one of its own. -/
def commandRequest : ExecutionRequest where
  language := str "bash"
  code := str "env"
  stdin := []
  timeoutSeconds := 10
  envVars := [(str "Path", str "/evil"), (str "sandbox", str "0"), (str "-v", str "/:/sandbox")]
  files := []

/-- The request is run as every other one, with its own variable. -/
theorem command_unaltered_sample :
    ∃ runtime ∈ registry commandSettings.env, ∃ inv : Invocation,
      inv.mounts = [str "/tmp/sandbox-work/j:/sandbox:ro"] ∧
      ∃ env, parseArgv (buildCommand samplePython commandSettings commandHost runtime commandRequest
          (str "/tmp/sandbox-work/j") (str "sandbox-j")) = some { inv with env := env } ∧
        EnvironmentKept samplePython runtime commandRequest env := by
  refine ⟨_, List.mem_map_of_mem (List.mem_of_getElem? (i := 7) rfl), ?_⟩
  obtain ⟨inv, hmounts, -, hrequest⟩ := command_unaltered samplePython commandSettings commandHost
    (List.mem_map_of_mem (List.mem_of_getElem? (i := 7) rfl)) (str "/tmp/sandbox-work/j")
    (str "sandbox-j")
  exact ⟨inv, hmounts.trans (by decide), hrequest commandRequest (by decide)⟩

end CodeInterpreter.Executor
