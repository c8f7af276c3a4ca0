import CodeInterpreter.Accepted
import CodeInterpreter.Executor.Completed

/-!
# The files of an accepted request

`_prepare_workdir` writes the source of a program and then its input files, one after the other,
into the directory that the container mounts. The validator and the worker reduce the name of an
input file to its last part, and neither compares it with the other names or with that of the source
file: of two files with one name only the later one is there, and an input file may take the place
of the program.

## Main definitions

* `written`, `contentOf`: the files after a trace.
* `Mounted`: the directory holds the request.

## Main results

* `wp_prepareWorkdir`: what the preparation writes.
* `mounted_iff`: the directory holds the request exactly when all names are different.
* `input_replaces_source`: an accepted request whose program is not the one that is mounted.
-/

namespace CodeInterpreter

open Api Executor Async Program

/-! ### What is written -/

/-- The files that were written in a trace, the last one first. -/
def written : Trace → List (Str × Str)
  | [] => []
  | ⟨.writeText path content, .ok _⟩ :: t => (path, content) :: written t
  | _ :: t => written t

/-- The content of a file: that of the last write. -/
def contentOf (t : Trace) (path : Str) : Option Str := (written t).lookup path

/-- The path of a file in the directory of a machine. -/
def Executor.Machine.path (m : Machine) (name : Str) : Str := m.root ++ [47] ++ name

theorem path_injective (m : Machine) : Function.Injective m.path :=
  fun _ _ h => List.append_cancel_left h

section

variable {py : Python} {cfg : Settings} {host : Host} {m : Machine} {t : Trace}

/-- `_write_file` writes the file of that name. -/
theorem wp_writeFile {name : Str} (hname : PlainName name) (content : Str) (t : Trace) :
    (writeFile m.workdir name content).wp (m.contract py cfg host)
      (fun out t' => ∀ u, out = .ok u → written t' = (m.path name, content) :: written t) t := by
  refine (wp_bind _ _ _ _).mpr ((wp_perform _ _ _).mpr ⟨trivial, fun r hr => ?_⟩)
  obtain rfl : r = .ok (m.path name) := hr.2 name hname rfl
  refine (wp_bind _ _ _ _).mpr ((wp_perform _ _ _).mpr ⟨trivial, fun r hr => ?_⟩)
  obtain rfl : r = .ok m.root := hr.1 rfl
  refine wp_if_pos (List.prefix_append _ _) ?_ _
  refine (wp_bind _ _ _ _).mpr ((wp_perform _ _ _).mpr ⟨trivial, fun r _ => ?_⟩)
  cases r with
  | error e => exact fun u hu => by cases hu
  | ok v => exact (wp_perform _ _ _).mpr ⟨trivial, fun r _ u _ => rfl⟩

/-- The loop writes the input files in their order. -/
theorem wp_writeInputs {files : List InputFile}
    (hfiles : ∀ file ∈ files, safeBasename py file.name = some file.name ∧ PlainName file.name)
    (t : Trace) :
    (writeInputs py m.workdir files).wp (m.contract py cfg host)
      (fun out t' => ∀ u, out = .ok u →
        written t' = (files.map fun file => (m.path file.name, file.content)).reverse ++ written t)
      t := by
  induction files generalizing t with
  | nil => exact fun u _ => rfl
  | cons file rest ih =>
    obtain ⟨hsafe, hname⟩ := hfiles file List.mem_cons_self
    rw [writeInputs, hsafe]
    refine wp_bind_of (wp_writeFile hname file.content t) (fun u t' _ hwritten => ?_) ?_
    · refine wp_mono (ih (fun file' h => hfiles file' (List.mem_cons_of_mem _ h)) t') ?_
      intro out t'' hrest v hv
      rw [hrest v hv, hwritten u rfl]
      simp
    · exact fun e t' _ _ u hu => by cases hu

/-- **What the preparation writes**: the source, and then the input files. -/
theorem wp_prepareWorkdir {runtime : RuntimeConfig} (hsource : PlainName runtime.sourceFilename)
    {request : ExecutionRequest}
    (hfiles : ∀ file ∈ request.files,
      safeBasename py file.name = some file.name ∧ PlainName file.name)
    (jobId : Str) :
    (prepareWorkdir py cfg runtime request jobId).wp (m.contract py cfg host)
      (fun out t' => ∀ w, out = .ok w → written t' =
        ((m.path runtime.sourceFilename, request.code) ::
          request.files.map fun file => (m.path file.name, file.content)).reverse) [] := by
  refine (wp_bind _ _ _ _).mpr ((wp_perform _ _ _).mpr ⟨trivial, fun r _ => ?_⟩)
  cases r with
  | error e => exact fun w hw => by cases hw
  | ok u =>
    refine (wp_bind _ _ _ _).mpr ((wp_perform _ _ _).mpr ⟨trivial, fun r hr => ?_⟩)
    obtain rfl : r = .ok m.workdir := hr
    refine (wp_bind _ _ _ _).mpr ((wp_perform _ _ _).mpr ⟨trivial, fun r _ => ?_⟩)
    cases r with
    | error e => exact fun w hw => by cases hw
    | ok v =>
      refine wp_bind_of (wp_writeFile hsource request.code _) (fun x t' _ hcode => ?_) ?_
      · refine wp_bind_of (wp_writeInputs hfiles t') (fun y t'' _ hinputs => ?_) ?_
        · intro w _
          rw [hinputs y rfl, hcode x rfl]
          simp [written]
        · exact fun e t'' _ _ w hw => by cases hw
      · exact fun e t' _ _ w hw => by cases hw

/-! ### What is mounted -/

/-- The directory of the machine holds the request: the source file the program, each input file its
content, and no file was written twice. -/
structure Mounted (m : Machine) (source : Str) (q : NormalRequest) (t : Trace) : Prop where
  code : contentOf t (m.path source) = some (codePoints q.code)
  inputs : ∀ file ∈ q.files.getD [],
    contentOf t (m.path (codePoints file.name)) = some (codePoints file.content)
  once : ((written t).map Prod.fst).Nodup

/-- The names of the files of a request: that of its source, and those of its input files. -/
def fileNames (source : Str) (q : NormalRequest) : List Str :=
  source :: (q.files.getD []).map fun file => codePoints file.name

theorem lookup_of_nodup {kvs : List (Str × Str)} (h : (kvs.map Prod.fst).Nodup) {k v : Str}
    (hmem : (k, v) ∈ kvs) : kvs.lookup k = some v := by
  induction kvs with
  | nil => cases hmem
  | cons kv kvs ih =>
    rw [List.map_cons, List.nodup_cons] at h
    rcases List.mem_cons.mp hmem with rfl | hmem
    · exact List.lookup_cons_self
    · have hne : (k == kv.1) = false := by
        rw [beq_eq_false_iff_ne]
        rintro rfl
        exact h.1 (List.mem_map.mpr ⟨_, hmem, rfl⟩)
      rw [List.lookup_cons, hne]
      exact ih h.2 hmem

/-- **Which accepted requests are mounted as they are.** For every accepted request, every
registered runtime and every preparation on a working machine that returns, the directory holds the
request exactly when the names of the input files differ from each other and from that of the
source. -/
theorem mounted_iff (zod : Zod) (engine : Engine) (limits : Limits) {x : Json} {q : NormalRequest}
    (haccepted : validateExecutionRequest zod engine limits (some x) = .ok q)
    (runtime : RuntimeConfig) (hruntime : runtime ∈ registry cfg.env) (seconds : ℤ) {jobId w : Str}
    (hrun : Runs (prepareWorkdir py cfg runtime (q.toRequest seconds) jobId) [] (.ok w) t)
    (hworks : Admitted (m.contract py cfg host) [] t) :
    Mounted m runtime.sourceFilename q t ↔ (fileNames runtime.sourceFilename q).Nodup := by
  have hnormal := normalised_of_ok zod engine limits haccepted
  have hwritten := hrun.of_wp (wp_prepareWorkdir (plainName_sourceFilename hruntime)
    (files_safe hnormal seconds) jobId) hworks w rfl
  have hnames : (written t).map Prod.fst =
      ((fileNames runtime.sourceFilename q).map m.path).reverse := by
    rw [hwritten]
    simp [fileNames, NormalRequest.toRequest, Function.comp_def]
  have honce : ((written t).map Prod.fst).Nodup ↔ (fileNames runtime.sourceFilename q).Nodup := by
    rw [hnames, List.nodup_reverse, List.nodup_map_iff (path_injective m)]
  refine ⟨fun h => honce.mp h.once, fun h => ?_⟩
  have hnodup := honce.mpr h
  refine ⟨lookup_of_nodup hnodup ?_, fun file hfile => lookup_of_nodup hnodup ?_, hnodup⟩
  · rw [hwritten]
    exact List.mem_reverse.mpr List.mem_cons_self
  · rw [hwritten]
    refine List.mem_reverse.mpr (List.mem_cons_of_mem _ ?_)
    exact List.mem_map.mpr ⟨_, List.mem_map_of_mem hfile, rfl⟩

end

/-! ### Sample requests -/

/-- A body with a program in Python and input files of the given names. -/
def filesBody (names : List JsStr) : Json :=
  .obj [(js "language", .str (js "python")), (js "code", .str (js "print(1)")),
    (js "files", .arr (names.map fun name =>
      .obj [(js "name", .str name), (js "content", .str (js "x"))]))]

/-- The request of such a body. -/
def filesNormal (names : List JsStr) : NormalRequest where
  language := js "python"
  code := js "print(1)"
  stdin := none
  timeoutSeconds := .finite (10 : ℕ)
  envVars := none
  files := some (names.map fun name => ⟨name, js "x"⟩)

/-- The first registered runtime, that of Python. -/
def pythonRuntime : RuntimeConfig :=
  (registry commandSettings.env).head (List.cons_ne_nil _ _)

/-- The preparation of such a request on the sample machine. -/
def filesPrepared (names : List JsStr) : Except Exc Str × Trace :=
  (prepareWorkdir samplePython commandSettings pythonRuntime ((filesNormal names).toRequest 10)
    (str "j")).play (fun _ => sampleMachine.answer samplePython commandSettings commandHost) []

theorem filesPrepared_runs {names : List JsStr} {w : Str} (h : (filesPrepared names).1 = .ok w) :
    Runs (prepareWorkdir samplePython commandSettings pythonRuntime
      ((filesNormal names).toRequest 10) (str "j")) [] (.ok w) (filesPrepared names).2 :=
  h ▸ runs_play _ _ _

theorem filesPrepared_works (names : List JsStr) :
    Admitted (sampleMachine.contract samplePython commandSettings commandHost) []
      (filesPrepared names).2 :=
  admitted_play (fun _ c => answers_answer samplePython commandSettings commandHost sampleMachine c)
    _ _

/-- Two input files with different names. -/
theorem mounted_iff_two :
    validateExecutionRequest acceptor sampleEngine sampleLimits
      (some (filesBody [js "a.txt", js "lib/b.txt"])) = .ok (filesNormal [js "a.txt", js "b.txt"]) ∧
    Mounted sampleMachine (str "main.py") (filesNormal [js "a.txt", js "b.txt"])
      (filesPrepared [js "a.txt", js "b.txt"]).2 := by
  have haccepted : validateExecutionRequest acceptor sampleEngine sampleLimits
      (some (filesBody [js "a.txt", js "lib/b.txt"])) =
        .ok (filesNormal [js "a.txt", js "b.txt"]) := rfl
  have hreturns : (filesPrepared [js "a.txt", js "b.txt"]).1 = .ok sampleMachine.workdir := by
    decide +kernel
  refine ⟨haccepted, (mounted_iff acceptor sampleEngine sampleLimits haccepted pythonRuntime
    (List.head_mem _) 10 (filesPrepared_runs hreturns) (filesPrepared_works _)).mpr ?_⟩
  decide +kernel

/-- An input file in a directory that has the name of the source: it is accepted, and the program
that is mounted is not the one that was submitted. -/
theorem input_replaces_source :
    validateExecutionRequest acceptor sampleEngine sampleLimits
      (some (filesBody [js "lib/main.py"])) = .ok (filesNormal [js "main.py"]) ∧
    pythonRuntime ∈ registry commandSettings.env ∧
    Runs (prepareWorkdir samplePython commandSettings pythonRuntime
      ((filesNormal [js "main.py"]).toRequest 10) (str "j")) [] (.ok sampleMachine.workdir)
      (filesPrepared [js "main.py"]).2 ∧
    Admitted (sampleMachine.contract samplePython commandSettings commandHost) []
      (filesPrepared [js "main.py"]).2 ∧
    contentOf (filesPrepared [js "main.py"]).2 (sampleMachine.path pythonRuntime.sourceFilename) =
      some (str "x") ∧
    ¬ Mounted sampleMachine pythonRuntime.sourceFilename (filesNormal [js "main.py"])
      (filesPrepared [js "main.py"]).2 := by
  have hreturns : (filesPrepared [js "main.py"]).1 = .ok sampleMachine.workdir := by decide +kernel
  have hcontent : contentOf (filesPrepared [js "main.py"]).2
      (sampleMachine.path pythonRuntime.sourceFilename) = some (str "x") := by decide +kernel
  refine ⟨rfl, List.head_mem _, filesPrepared_runs hreturns, filesPrepared_works _, hcontent, ?_⟩
  intro h
  have hcode := h.code
  rw [hcontent] at hcode
  revert hcode
  decide +kernel

end CodeInterpreter
