import CodeInterpreter.Python.Value
import Mathlib.Data.List.Basic
import Mathlib.Data.List.Lex

/-!
# Seccomp profiles

The profile builder of `worker/sandbox/seccomp.py` and the meaning that Docker gives to a profile.
The interpreted runtimes get a default-deny profile, the toolchain-heavy ones a default-allow
profile; both have to keep the same escape barrier.

A rule matches a system call when it lists the name and all of its argument tests hold. Docker
does not say which of several matching rules decides, so `Profile.Verdict` admits the action of
each of them; the profiles here never leave a choice.

## Main definitions

* `Profile.Verdict`, `Profile.evaluate`: the meaning of a profile.
* `allowedSyscalls`, `buildProfile`: the builder.

## Main results

* `masked_zero_iff`: the mask of the default-deny profile against the flags of the other one.
* `evaluate_unique`: at most one action applies to a call.
* `escape_barrier`: what both models deny.
-/

namespace CodeInterpreter.Seccomp

/-! ### The meaning of a profile -/

/-- `SCMP_ACT_ALLOW`, or `SCMP_ACT_ERRNO` with the error number it returns. -/
inductive Action
  | allow
  | errno (ret : ℕ)
  deriving DecidableEq

/-- An argument test with the operator `SCMP_CMP_MASKED_EQ`. -/
structure ArgTest where
  index : Fin 6
  value : BitVec 64
  valueTwo : BitVec 64

/-- A rule of a profile. -/
structure Rule where
  names : List Str
  action : Action
  args : List ArgTest := []

/-- A seccomp profile. -/
structure Profile where
  defaultAction : Action
  architectures : List Str
  syscalls : List Rule

/-- A system call with its argument words. -/
structure Syscall where
  name : Str
  args : Fin 6 → BitVec 64

/-- `(arg & value) == valueTwo`. -/
def ArgTest.Holds (test : ArgTest) (call : Syscall) : Prop :=
  call.args test.index &&& test.value = test.valueTwo

instance (test : ArgTest) (call : Syscall) : Decidable (test.Holds call) :=
  inferInstanceAs (Decidable (_ = _))

/-- The rule lists the name and all of its tests hold. -/
def Rule.Matches (rule : Rule) (call : Syscall) : Prop :=
  call.name ∈ rule.names ∧ ∀ test ∈ rule.args, test.Holds call

instance (rule : Rule) (call : Syscall) : Decidable (rule.Matches call) :=
  inferInstanceAs (Decidable (_ ∧ _))

/-- An action that the profile may take on the call. -/
def Profile.Verdict (profile : Profile) (call : Syscall) (a : Action) : Prop :=
  (∃ rule ∈ profile.syscalls, rule.Matches call ∧ rule.action = a) ∨
    (∀ rule ∈ profile.syscalls, ¬ rule.Matches call) ∧ a = profile.defaultAction

/-- The action of the first matching rule, else the default action. -/
def Profile.evaluate (profile : Profile) (call : Syscall) : Action :=
  ((profile.syscalls.find? fun rule => rule.Matches call).map Rule.action).getD
    profile.defaultAction

theorem Profile.verdict_evaluate (profile : Profile) (call : Syscall) :
    profile.Verdict call (profile.evaluate call) := by
  rw [evaluate]
  cases h : profile.syscalls.find? fun rule => rule.Matches call with
  | none =>
    have hnone := List.find?_eq_none.mp h
    exact .inr ⟨fun rule hrule => by simpa using hnone rule hrule, rfl⟩
  | some rule =>
    exact .inl ⟨rule, List.mem_of_find?_eq_some h, by simpa using List.find?_some h, rfl⟩

/-! ### The lists of names -/

/-- The mask of all namespace flags of `clone`. -/
def cloneNamespaceMask : BitVec 64 := 0x7E020000#64

/-- The namespace flags of `clone`, one by one. -/
def cloneNamespaceFlags : List (BitVec 64) :=
  [0x00020000#64, 0x02000000#64, 0x04000000#64, 0x08000000#64, 0x10000000#64, 0x20000000#64,
    0x40000000#64]

/-- `ENOSYS`. -/
def enosys : ℕ := 38

/-- Languages that get a default-allow profile. -/
def blocklistLanguages : List Str := ["typescript", "go", "rust"].map str

/-- The architectures of every profile. -/
def architectures : List Str :=
  ["SCMP_ARCH_X86_64", "SCMP_ARCH_X86", "SCMP_ARCH_X32", "SCMP_ARCH_AARCH64", "SCMP_ARCH_ARM"].map
    str

/-- Escape and privilege primitives, which no profile may allow. -/
def dangerousSyscalls : List Str :=
  ["ptrace", "process_vm_readv", "process_vm_writev", "kcmp", "init_module", "finit_module",
    "delete_module", "create_module", "get_kernel_syms", "query_module", "mount", "umount",
    "umount2", "mount_setattr", "move_mount", "open_tree", "fsopen", "fsconfig", "fspick",
    "pivot_root", "chroot", "unshare", "setns", "bpf", "keyctl", "add_key", "request_key",
    "perf_event_open", "userfaultfd", "io_uring_setup", "io_uring_enter", "io_uring_register",
    "io_setup", "io_destroy", "io_submit", "io_cancel", "io_getevents", "kexec_load",
    "kexec_file_load", "reboot", "swapon", "swapoff", "settimeofday", "stime", "clock_settime",
    "clock_settime64", "clock_adjtime", "clock_adjtime64", "adjtimex", "acct", "quotactl",
    "nfsservctl", "ioperm", "iopl", "modify_ldt", "vm86", "vm86old", "personality",
    "open_by_handle_at", "name_to_handle_at", "fanotify_init", "fanotify_mark", "lookup_dcookie",
    "sysfs", "_sysctl", "vhangup", "memfd_create", "memfd_secret", "mknod", "mknodat", "setuid",
    "setgid", "setreuid", "setregid", "setresuid", "setresgid", "setfsuid", "setfsgid",
    "setgroups", "capset"].map str

/-- What the real runtimes need. -/
def commonSyscalls : List Str :=
  ["read", "write", "readv", "writev", "pread64", "pwrite64", "preadv", "pwritev", "preadv2",
    "pwritev2", "open", "openat", "openat2", "close", "close_range", "creat", "lseek", "_llseek",
    "dup", "dup2", "dup3", "pipe", "pipe2", "fcntl", "fcntl64", "flock", "fsync", "fdatasync",
    "sync", "syncfs", "sync_file_range", "fadvise64", "fadvise64_64", "readahead", "sendfile",
    "sendfile64", "copy_file_range", "splice", "tee", "vmsplice", "ioctl", "stat", "fstat",
    "lstat", "newfstatat", "statx", "fstatat64", "stat64", "lstat64", "fstat64", "statfs",
    "fstatfs", "statfs64", "fstatfs64", "getdents", "getdents64", "getcwd", "chdir", "fchdir",
    "rename", "renameat", "renameat2", "mkdir", "mkdirat", "rmdir", "link", "linkat", "unlink",
    "unlinkat", "symlink", "symlinkat", "readlink", "readlinkat", "chmod", "fchmod", "fchmodat",
    "chown", "fchown", "lchown", "fchownat", "umask", "access", "faccessat", "faccessat2",
    "truncate", "ftruncate", "truncate64", "ftruncate64", "utime", "utimes", "utimensat",
    "utimensat_time64", "futimesat", "mmap", "mmap2", "munmap", "mremap", "mprotect", "msync",
    "mincore", "madvise", "mlock", "munlock", "mlock2", "mlockall", "munlockall", "brk",
    "get_mempolicy", "set_mempolicy", "membarrier", "rt_sigaction", "rt_sigprocmask",
    "rt_sigreturn", "rt_sigpending", "rt_sigsuspend", "rt_sigtimedwait", "rt_sigtimedwait_time64",
    "rt_sigqueueinfo", "rt_tgsigqueueinfo", "sigaltstack", "signalfd", "signalfd4", "kill",
    "tgkill", "tkill", "getpid", "getppid", "gettid", "getuid", "geteuid", "getgid", "getegid",
    "getgroups", "getresuid", "getresgid", "getpgrp", "getpgid", "setpgid", "getsid", "setsid",
    "getpriority", "setpriority", "set_tid_address", "set_robust_list", "get_robust_list", "prctl",
    "arch_prctl", "getcpu", "capget", "execve", "execveat", "fork", "vfork", "exit", "exit_group",
    "wait4", "waitid", "futex", "futex_waitv", "futex_time64", "set_thread_area",
    "get_thread_area", "sched_yield", "sched_getaffinity", "sched_setaffinity", "sched_getparam",
    "sched_setparam", "sched_getscheduler", "sched_setscheduler", "sched_get_priority_max",
    "sched_get_priority_min", "sched_rr_get_interval", "sched_rr_get_interval_time64",
    "sched_getattr", "sched_setattr", "rseq", "nanosleep", "clock_nanosleep",
    "clock_nanosleep_time64", "clock_gettime", "clock_gettime64", "clock_getres",
    "clock_getres_time64", "gettimeofday", "time", "times", "getrandom", "poll", "ppoll",
    "ppoll_time64", "select", "_newselect", "pselect6", "pselect6_time64", "epoll_create",
    "epoll_create1", "epoll_ctl", "epoll_wait", "epoll_pwait", "epoll_pwait2", "eventfd",
    "eventfd2", "timerfd_create", "timerfd_settime", "timerfd_settime64", "timerfd_gettime",
    "timerfd_gettime64", "inotify_init", "inotify_init1", "inotify_add_watch", "inotify_rm_watch",
    "restart_syscall", "getrlimit", "setrlimit", "prlimit64", "getrusage", "uname", "sysinfo"].map str

/-- Additions for single languages. -/
def languageExtras : List (Str × List Str) :=
  [(str "python", []),
    (str "javascript", ["epoll_pwait", "statx"].map str),
    (str "typescript", ["epoll_pwait", "statx"].map str),
    (str "java", ["get_mempolicy", "set_mempolicy", "getcpu", "sched_setaffinity"].map str),
    (str "go", ["sched_getaffinity", "rseq"].map str),
    (str "ruby", []),
    (str "rust", [])]

/-- `LANGUAGE_EXTRA.get(language, frozenset())`. -/
def languageExtra (language : Str) : List Str := (languageExtras.lookup language).getD []

/-- Network calls, allowed only with network access. -/
def networkSyscalls : List Str :=
  ["socket", "connect", "bind", "listen", "accept", "accept4", "getsockname", "getpeername",
    "sendto", "recvfrom", "sendmsg", "recvmsg", "sendmmsg", "recvmmsg", "recvmmsg_time64",
    "getsockopt", "setsockopt", "shutdown"].map str

/-- Calls on local sockets that are always allowed. -/
def alwaysLocal : List Str := [str "socketpair"]

/-! ### The builder -/

/-- `sorted` on a set of names. -/
def sortedNames (names : List Str) : List Str := names.mergeSort fun a b => decide (a ≤ b)

/-- `allowed_syscalls`. -/
def allowedSyscalls (language : Str) (networkEnabled : Bool) : List Str :=
  let allowed := commonSyscalls ∪ languageExtra language ∪ alwaysLocal
  let allowed := if networkEnabled then allowed ∪ networkSyscalls else allowed
  allowed.filter fun name => name ∉ dangerousSyscalls

/-- `_build_allowlist_profile`: only the listed calls run. -/
def buildAllowlistProfile (language : Str) (networkEnabled : Bool) : Profile where
  defaultAction := .errno 1
  architectures := architectures
  syscalls :=
    [⟨sortedNames (allowedSyscalls language networkEnabled), .allow, []⟩,
      ⟨[str "clone"], .allow, [⟨0, cloneNamespaceMask, 0#64⟩]⟩,
      ⟨[str "clone3"], .errno enosys, []⟩]

/-- The rule that denies `clone` with the given namespace flag. -/
def denyFlag (flag : BitVec 64) : Rule := ⟨[str "clone"], .errno 1, [⟨0, flag, flag⟩]⟩

/-- `_build_blocklist_profile`: everything runs but the dangerous calls and the creation of
namespaces. -/
def buildBlocklistProfile : Profile where
  defaultAction := .allow
  architectures := architectures
  syscalls :=
    [⟨sortedNames dangerousSyscalls, .errno 1, []⟩, ⟨[str "clone3"], .errno enosys, []⟩]
      ++ cloneNamespaceFlags.map denyFlag

/-- `build_profile`. -/
def buildProfile (language : Str) (networkEnabled : Bool) : Profile :=
  if language ∈ blocklistLanguages then buildBlocklistProfile
  else buildAllowlistProfile language networkEnabled

@[simp] theorem mem_sortedNames {name : Str} {names : List Str} :
    name ∈ sortedNames names ↔ name ∈ names := List.mem_mergeSort

/-! ### Masks -/

theorem and_foldr_eq_zero_iff {w : ℕ} (x : BitVec w) (flags : List (BitVec w)) :
    x &&& flags.foldr (· ||| ·) 0#w = 0#w ↔ ∀ flag ∈ flags, x &&& flag = 0#w := by
  induction flags with
  | nil => simp
  | cons flag flags ih =>
    simp only [List.foldr_cons, BitVec.and_or_distrib_left, List.forall_mem_cons, ← ih]
    exact BitVec.or_eq_zero_iff

theorem and_twoPow_eq_zero_iff {w i : ℕ} (hi : i < w) (x : BitVec w) :
    x &&& BitVec.twoPow w i = 0#w ↔ x &&& BitVec.twoPow w i ≠ BitVec.twoPow w i := by
  have hne : BitVec.twoPow w i ≠ 0#w := by
    intro h
    have hval := congrArg BitVec.toNat h
    rw [BitVec.toNat_twoPow_of_lt hi, BitVec.toNat_zero] at hval
    exact (Nat.two_pow_pos i).ne' hval
  rw [BitVec.and_twoPow]
  split_ifs
  · simpa using hne
  · simpa using hne.symm

/-- **The two models of the clone barrier agree**: no bit of the mask is set exactly when none of
the single flags is. -/
theorem masked_zero_iff (x : BitVec 64) :
    x &&& cloneNamespaceMask = 0#64 ↔ ∀ flag ∈ cloneNamespaceFlags, x &&& flag ≠ flag := by
  have hflags : cloneNamespaceFlags = [17, 25, 26, 27, 28, 29, 30].map (BitVec.twoPow 64) := by
    decide
  have hmask : cloneNamespaceMask = cloneNamespaceFlags.foldr (· ||| ·) 0#64 := by decide
  rw [hmask, and_foldr_eq_zero_iff, hflags]
  simp only [List.forall_mem_map]
  refine forall₂_congr fun i hi => and_twoPow_eq_zero_iff ?_ x
  have hbound : ∀ i ∈ [17, 25, 26, 27, 28, 29, 30], i < 64 := by decide
  exact hbound i hi

/-! ### The lists -/

theorem mem_map_str {s : String} {names : List String} : str s ∈ names.map str ↔ s ∈ names :=
  List.mem_map_of_injective str_injective

/-- The names that the profiles treat apart are not in the common list. -/
theorem special_not_common : ∀ name ∈ str "clone" :: str "clone3" :: networkSyscalls,
    name ∉ commonSyscalls ∧ name ∉ alwaysLocal ∧ name ∉ dangerousSyscalls := by
  simp only [networkSyscalls, commonSyscalls, alwaysLocal, dangerousSyscalls, ← List.map_cons,
    ← List.map_singleton, List.forall_mem_map, mem_map_str]
  decide +kernel

/-- The additions for single languages are in the common list. -/
theorem languageExtra_common (language : Str) : ∀ name ∈ languageExtra language,
    name ∈ commonSyscalls := by
  have hall : ∀ x ∈ languageExtras, ∀ name ∈ x.2, name ∈ commonSyscalls := by
    simp only [languageExtras, commonSyscalls, List.forall_mem_cons, List.forall_mem_map,
      mem_map_str]
    decide +kernel
  intro name hname
  cases h : languageExtras.lookup language with
  | none => simp [languageExtra, h] at hname
  | some names =>
    obtain ⟨before, after, heq, -⟩ := List.lookup_eq_some_iff.mp h
    rw [languageExtra, h] at hname
    exact hall (language, names) (by simp [heq]) name hname

theorem mem_allowedSyscalls {language name : Str} {networkEnabled : Bool} :
    name ∈ allowedSyscalls language networkEnabled ↔
      (name ∈ commonSyscalls ∨ name ∈ alwaysLocal ∨
        networkEnabled = true ∧ name ∈ networkSyscalls) ∧ name ∉ dangerousSyscalls := by
  have hextra := languageExtra_common language name
  cases networkEnabled with
  | false => grind [allowedSyscalls]
  | true => grind [allowedSyscalls]

theorem clone_ne_clone3 : str "clone" ≠ str "clone3" := by decide

theorem clone_not_dangerous : str "clone" ∉ dangerousSyscalls :=
  (special_not_common _ List.mem_cons_self).2.2

theorem clone3_not_dangerous : str "clone3" ∉ dangerousSyscalls :=
  (special_not_common _ (List.mem_cons_of_mem _ List.mem_cons_self)).2.2

/-- `clone` and `clone3` are not network calls. -/
theorem clone_not_network : ∀ name ∈ [str "clone", str "clone3"], name ∉ networkSyscalls := by
  simp only [networkSyscalls, List.forall_mem_cons, mem_map_str]
  decide +kernel

section

variable (language : Str) (networkEnabled : Bool)

theorem clone_not_allowed : str "clone" ∉ allowedSyscalls language networkEnabled := by
  obtain ⟨hcommon, hlocal, -⟩ := special_not_common (str "clone") (by simp)
  simp [mem_allowedSyscalls, hcommon, hlocal, clone_not_network]

theorem clone3_not_allowed : str "clone3" ∉ allowedSyscalls language networkEnabled := by
  obtain ⟨hcommon, hlocal, -⟩ := special_not_common (str "clone3") (by simp)
  simp [mem_allowedSyscalls, hcommon, hlocal, clone_not_network]

theorem dangerous_not_allowed (name : Str) (h : name ∈ dangerousSyscalls) :
    name ∉ allowedSyscalls language networkEnabled := fun hmem =>
  (mem_allowedSyscalls.mp hmem).2 h

theorem network_not_allowed (name : Str) (h : name ∈ networkSyscalls) :
    name ∉ allowedSyscalls language false := by
  obtain ⟨hcommon, hlocal, -⟩ := special_not_common name (by simp [h])
  simp [mem_allowedSyscalls, hcommon, hlocal]

end

/-! ### Verdicts -/

section

variable {language : Str} {networkEnabled : Bool} {call : Syscall} {a : Action}

/-- The verdicts of the default-deny profile. -/
theorem allowlist_verdict_iff :
    (buildAllowlistProfile language networkEnabled).Verdict call a ↔
      call.name ∈ allowedSyscalls language networkEnabled ∧ a = .allow ∨
      (call.name = str "clone" ∧ call.args 0 &&& cloneNamespaceMask = 0#64) ∧ a = .allow ∨
      call.name = str "clone3" ∧ a = .errno enosys ∨
      (call.name ∉ allowedSyscalls language networkEnabled ∧
        ¬ (call.name = str "clone" ∧ call.args 0 &&& cloneNamespaceMask = 0#64) ∧
        call.name ≠ str "clone3") ∧ a = .errno 1 := by
  simp [Profile.Verdict, buildAllowlistProfile, Rule.Matches, ArgTest.Holds, eq_comm (b := a),
    or_assoc]

/-- The verdicts of the default-allow profile. -/
theorem blocklist_verdict_iff :
    buildBlocklistProfile.Verdict call a ↔
      call.name ∈ dangerousSyscalls ∧ a = .errno 1 ∨
      call.name = str "clone3" ∧ a = .errno enosys ∨
      (call.name = str "clone" ∧ call.args 0 &&& cloneNamespaceMask ≠ 0#64) ∧ a = .errno 1 ∨
      (call.name ∉ dangerousSyscalls ∧ call.name ≠ str "clone3" ∧
        ¬ (call.name = str "clone" ∧ call.args 0 &&& cloneNamespaceMask ≠ 0#64)) ∧ a = .allow := by
  have hmatch (flag : BitVec 64) : (denyFlag flag).Matches call ↔
      call.name = str "clone" ∧ call.args 0 &&& flag = flag := by
    simp [denyFlag, Rule.Matches, ArgTest.Holds]
  have hsome : (∃ flag ∈ cloneNamespaceFlags, (denyFlag flag).Matches call) ↔
      call.name = str "clone" ∧ call.args 0 &&& cloneNamespaceMask ≠ 0#64 := by
    simp only [hmatch, Ne, masked_zero_iff]
    push Not
    exact ⟨fun ⟨flag, hflag, hname, h⟩ => ⟨hname, flag, hflag, h⟩,
      fun ⟨hname, flag, hflag, h⟩ => ⟨flag, hflag, hname, h⟩⟩
  rw [← hsome]
  simp [Profile.Verdict, buildBlocklistProfile, Rule.Matches, denyFlag, ArgTest.Holds,
    eq_comm (b := a), or_assoc]
  simp only [← and_assoc, exists_and_right]

theorem buildProfile_verdict (h : (buildProfile language networkEnabled).Verdict call a) :
    language ∈ blocklistLanguages ∧ buildBlocklistProfile.Verdict call a ∨
      language ∉ blocklistLanguages ∧
        (buildAllowlistProfile language networkEnabled).Verdict call a := by
  rw [buildProfile] at h
  split_ifs at h with hlang
  · exact .inl ⟨hlang, h⟩
  · exact .inr ⟨hlang, h⟩

theorem dangerous_denied (h : (buildProfile language networkEnabled).Verdict call a)
    (hname : call.name ∈ dangerousSyscalls) : a = .errno 1 := by
  have hclone : call.name ≠ str "clone" := fun heq => clone_not_dangerous (heq ▸ hname)
  have hclone3 : call.name ≠ str "clone3" := fun heq => clone3_not_dangerous (heq ▸ hname)
  have hallowed := dangerous_not_allowed language networkEnabled call.name hname
  rcases buildProfile_verdict h with ⟨-, h⟩ | ⟨-, h⟩
  · simpa [blocklist_verdict_iff, hname, hclone, hclone3] using h
  · simpa [allowlist_verdict_iff, hallowed, hclone, hclone3] using h

theorem clone_verdict (h : (buildProfile language networkEnabled).Verdict call a)
    (hname : call.name = str "clone") :
    a = if call.args 0 &&& cloneNamespaceMask = 0#64 then .allow else .errno 1 := by
  have hdangerous := clone_not_dangerous
  have hallowed := clone_not_allowed language networkEnabled
  rcases buildProfile_verdict h with ⟨-, h⟩ | ⟨-, h⟩
  · split_ifs with hmask
    · simpa [blocklist_verdict_iff, hname, clone_ne_clone3, hdangerous, hmask] using h
    · simpa [blocklist_verdict_iff, hname, clone_ne_clone3, hdangerous, hmask] using h
  · split_ifs with hmask
    · simpa [allowlist_verdict_iff, hname, clone_ne_clone3, hallowed, hmask] using h
    · simpa [allowlist_verdict_iff, hname, clone_ne_clone3, hallowed, hmask] using h

theorem clone3_verdict (h : (buildProfile language networkEnabled).Verdict call a)
    (hname : call.name = str "clone3") : a = .errno enosys := by
  have hdangerous := clone3_not_dangerous
  have hallowed := clone3_not_allowed language networkEnabled
  rcases buildProfile_verdict h with ⟨-, h⟩ | ⟨-, h⟩
  · simpa [blocklist_verdict_iff, hname, clone_ne_clone3.symm, hdangerous] using h
  · simpa [allowlist_verdict_iff, hname, clone_ne_clone3.symm, hallowed] using h

theorem network_denied (h : (buildProfile language false).Verdict call a)
    (hlang : language ∉ blocklistLanguages) (hname : call.name ∈ networkSyscalls) :
    a = .errno 1 := by
  have hclone : call.name ≠ str "clone" := fun heq => clone_not_network _ (by simp) (heq ▸ hname)
  have hclone3 : call.name ≠ str "clone3" := fun heq => clone_not_network _ (by simp) (heq ▸ hname)
  have hallowed := network_not_allowed language call.name hname
  rcases buildProfile_verdict h with ⟨hin, -⟩ | ⟨-, h⟩
  · exact absurd hin hlang
  · simpa [allowlist_verdict_iff, hallowed, hclone, hclone3] using h

/-- At most one action applies to a call. -/
theorem evaluate_unique (h : (buildProfile language networkEnabled).Verdict call a) :
    a = (buildProfile language networkEnabled).evaluate call := by
  have he := (buildProfile language networkEnabled).verdict_evaluate call
  generalize (buildProfile language networkEnabled).evaluate call = b at he
  by_cases hclone : call.name = str "clone"
  · rw [clone_verdict h hclone, clone_verdict he hclone]
  by_cases hclone3 : call.name = str "clone3"
  · rw [clone3_verdict h hclone3, clone3_verdict he hclone3]
  rcases buildProfile_verdict h with ⟨hlang, h⟩ | ⟨hlang, h⟩ <;>
    rcases buildProfile_verdict he with ⟨hlang', he⟩ | ⟨hlang', he⟩
  · simp only [blocklist_verdict_iff, hclone, hclone3, false_and, false_or] at h he
    grind
  · exact absurd hlang hlang'
  · exact absurd hlang' hlang
  · simp only [allowlist_verdict_iff, hclone, hclone3, false_and, false_or] at h he
    grind

end

/-- **Both models keep the same escape barrier.** Whatever the language, the network flag and the
argument words: the action is determined, the dangerous calls are denied, `clone` runs exactly
when it creates no namespace, `clone3` does not exist, and a default-deny profile without network
access lets no network call through. -/
theorem escape_barrier (language : Str) (networkEnabled : Bool) (call : Syscall) :
    (∀ a, (buildProfile language networkEnabled).Verdict call a ↔
      a = (buildProfile language networkEnabled).evaluate call) ∧
    (call.name ∈ dangerousSyscalls →
      (buildProfile language networkEnabled).evaluate call = .errno 1) ∧
    (call.name = str "clone" →
      ((buildProfile language networkEnabled).evaluate call = .allow ↔
        call.args 0 &&& 0x7E020000#64 = 0#64)) ∧
    (call.name = str "clone3" →
      (buildProfile language networkEnabled).evaluate call = .errno enosys) ∧
    (language ∉ blocklistLanguages → networkEnabled = false → call.name ∈ networkSyscalls →
      (buildProfile language networkEnabled).evaluate call = .errno 1) := by
  have he := (buildProfile language networkEnabled).verdict_evaluate call
  refine ⟨fun a => ⟨evaluate_unique, ?_⟩, dangerous_denied he, fun hname => ?_, clone3_verdict he,
    fun hlang hnet hname => ?_⟩
  · rintro rfl
    exact he
  · rw [clone_verdict he hname, ← cloneNamespaceMask]
    split_ifs with hmask
    · simpa using hmask
    · simpa using hmask
  · subst hnet
    exact network_denied he hlang hname

end CodeInterpreter.Seccomp
