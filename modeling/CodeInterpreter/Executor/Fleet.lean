import CodeInterpreter.Async.System
import CodeInterpreter.Executor.Reaper

/-!
# Reapers next to running sandboxes

The workers of a host share its Docker daemon: each of them runs a reaper over the containers of
all. Between the listing of a reaper and its removals anything may happen: containers are created,
start, exit and are removed, and other reapers do the same.

`fleet` is the system of all reapers of a host with the containers. What the executors and Docker do
to a container are commands of their own processes, at any time. Docker gives out no identifier
twice and starts a container once.

## Main definitions

* `DockerEvent`, `DockerHost`, `fleet`.
* `Doomed`: a container that a reaper may remove.

## Main results

* `listing_doomed`: what a listing made a reaper remove stays doomed.
* `reaper_spares_young`: no reaper removes a young container that has not finished.
-/

namespace CodeInterpreter.Executor

open Async

/-! ### The host -/

/-- What happens to a container, but for the reapers. -/
inductive DockerEvent
  | create (id : Str)
  | start (id : Str)
  | note (id : Str) (note : Option Note)
  | exit (id : Str) (code : ℕ)
  | removing (id : Str)
  | dead (id : Str)
  | remove (id : Str)
  deriving DecidableEq

/-- The state of a container after an event; one that is not possible changes nothing. -/
def ContainerState.next (now : ℕ) : DockerEvent → ContainerState → ContainerState
  | .start _, .created => .up now none
  | .note _ note, .up since _ => .up since note
  | .exit _ code, .up _ _ => .exited code now
  | .removing _, _ => .removing
  | .dead _, _ => .dead
  | _, state => state

/-- The containers of a host, and the identifiers that were given out so far. -/
structure DockerHost where
  containers : List Container := []
  issued : List Str := []

namespace DockerHost

/-- `docker rm -f`, as far as it takes effect. -/
def remove (host : DockerHost) (id : Str) : DockerHost :=
  { host with containers := host.containers.filter fun c => c.id != id }

/-- Change the state of a container. -/
def update (host : DockerHost) (now : ℕ) (id : Str) (e : DockerEvent) : DockerHost :=
  { host with
    containers := host.containers.map fun c =>
      if c.id = id then { c with state := c.state.next now e } else c }

/-- What an event does to the host. -/
def apply (host : DockerHost) (now : ℕ) : DockerEvent → DockerHost
  | .create id =>
    if id ∈ host.issued ∨ ¬ IsWord id then host
    else ⟨host.containers ++ [⟨id, now, .created⟩], id :: host.issued⟩
  | .remove id => host.remove id
  | .start id => host.update now id (.start id)
  | .note id note => host.update now id (.note id note)
  | .exit id code => host.update now id (.exit id code)
  | .removing id => host.update now id (.removing id)
  | .dead id => host.update now id (.dead id)

end DockerHost

/-! ### The system -/

/-- The commands of the reapers, and what happens to the containers besides. -/
inductive FleetCmd
  | reaper (c : ReapCmd)
  | docker (e : DockerEvent)
  deriving DecidableEq

/-- The type of the reply to a command. -/
abbrev FleetReply : FleetCmd → Type
  | .reaper c => ReapReply c
  | .docker _ => Unit

/-- Who issues commands. -/
inductive FleetRole
  | reaper
  | docker
  deriving DecidableEq

/-- What starts a process: a cycle of a reaper over a work directory, or an event. -/
inductive FleetRequest
  | cycle (base : Str)
  | event (e : DockerEvent)

/-- What the host does not determine: how a command of Docker ends, and the work directories. -/
structure FleetOracle where
  status : ℤ := 0
  effective : Bool := true
  out : List UInt8 := []
  err : List UInt8 := []
  isdir : Bool := false
  clock : ℚ := 0
  entries : List Str := []
  mtime : Option ℚ := none

variable (py : Python) (dockerPath : Str)

/-- What a command of a reaper does to the host. -/
def DockerHost.reap (host : DockerHost) (now : ℕ) :
    (c : ReapCmd) → FleetOracle → DockerHost × ReapReply c
  | .simple argv, o =>
    if argv = psArgv dockerPath then
      (host, if o.status = 0 then (0, psOutput now host.containers, o.err)
        else (o.status, o.out, o.err))
    else
      match argv with
      | [_, _, _, id] =>
        if argv = rmArgv dockerPath id ∧ o.effective = true then
          (host.remove id, (o.status, o.out, o.err))
        else (host, (o.status, o.out, o.err))
      | _ => (host, (o.status, o.out, o.err))
  | .isdir _, o => (host, o.isdir)
  | .clock, o => (host, o.clock)
  | .listdir _, o => (host, o.entries)
  | .getmtime _, o => (host, o.mtime)
  | .rmtree _, _ => (host, ())

/-- A cycle of a reaper in the system. -/
def cycle (base : Str) : Async.Program FleetCmd FleetReply Exc Unit := do
  let _ ← (reapOnce py dockerPath base).embed FleetCmd.reaper fun _ r => r

/-- The reapers of a host and its containers. -/
def fleet : System DockerHost FleetCmd FleetReply Exc FleetRole FleetOracle FleetRequest where
  init := {}
  exec now host c o :=
    match c with
    | .reaper c => host.reap dockerPath now c o
    | .docker e => (host.apply now e, ())
  mayFail
    | .reaper _ => true
    | .docker _ => false
  fork _ _ := []
  handler
    | .cycle base => (.reaper, cycle py dockerPath base)
    | .event e => (.docker, Async.perform (FleetCmd.docker e))
  admits _ _ := true

/-! ### Invariants of the host -/

section

variable {py dockerPath} {now : ℕ} {host : DockerHost} {id : Str}

/-- The age that the reaper reads is no more than the age. -/
theorem le_of_humanAge {d : ℕ} (h : (humanAge d).any (orphanAgeSeconds ≤ ·) = true) : 300 ≤ d := by
  obtain ⟨a, ha, hle⟩ := (Option.any_eq_true _ _).mp h
  have hthreshold : (300 : ℤ) ≤ a := of_decide_eq_true hle
  dsimp only [humanAge] at ha
  split_ifs at ha <;> cases ha <;> omega

/-- A container of a host: it was created before it started, and not in the future. -/
structure Container.Dated (now : ℕ) (c : Container) : Prop where
  id : IsWord c.id
  past : c.createdAt ≤ now
  since : ∀ since note, c.state = .up since note → c.createdAt ≤ since

/-- The containers of a host have identifiers of their own, which were given out. -/
structure DockerHost.Sound (host : DockerHost) (now : ℕ) : Prop where
  nodup : (host.containers.map Container.id).Nodup
  issued : ∀ c ∈ host.containers, c.id ∈ host.issued
  dated : ∀ c ∈ host.containers, c.Dated now

/-- A container that a reaper may remove: whatever container has the identifier, it has finished
or it was created the threshold before the time `T`. -/
structure Doomed (id : Str) (T : ℕ) (host : DockerHost) : Prop where
  issued : id ∈ host.issued
  old : ∀ c ∈ host.containers, c.id = id → c.finished = true ∨ c.createdAt + 300 ≤ T

/-- The containers that a cycle takes for orphans are doomed. -/
theorem doomed_of_orphan (hsound : host.Sound now) {c : Container} (hc : c ∈ host.containers)
    (horphan : c.orphan now = true) : Doomed c.id now host := by
  refine ⟨hsound.issued c hc, fun c' hc' hid => ?_⟩
  obtain rfl : c' = c := List.inj_on_of_nodup_map hsound.nodup hc' hc hid
  have hdated := hsound.dated c' hc'
  obtain ⟨id, createdAt, state⟩ := c'
  cases state with
  | created =>
    have := le_of_humanAge horphan
    exact .inr (by simp only at this ⊢; omega)
  | up since note =>
    have := le_of_humanAge horphan
    have := hdated.since since note rfl
    exact .inr (by simp only at this ⊢; omega)
  | exited code since => exact .inl rfl
  | removing => exact .inl rfl
  | dead => exact .inl rfl

/-! #### Events -/

/-- A container that is up after an event was up before or has just been started. -/
theorem ContainerState.next_up {e : DockerEvent} {state : ContainerState} {since : ℕ}
    {note : Option Note} (h : state.next now e = .up since note) :
    since = now ∨ ∃ note', state = .up since note' := by
  cases e <;> cases state <;> simp_all [ContainerState.next]

/-- What has finished stays so. -/
theorem Container.finished_next (c : Container) (e : DockerEvent) (h : c.finished = true) :
    Container.finished { c with state := c.state.next now e } = true := by
  obtain ⟨id, createdAt, state⟩ := c
  cases e <;> cases state <;> simp_all [Container.finished, ContainerState.next]

/-- What a host becomes: a container keeps its identifier and the time of its creation, and stays
finished; a new one has a new identifier. -/
structure DockerHost.Evolves (host host' : DockerHost) : Prop where
  issued : ∀ id ∈ host.issued, id ∈ host'.issued
  old : ∀ c' ∈ host'.containers, c'.id ∉ host.issued ∨ ∃ c ∈ host.containers, c.id = c'.id ∧
    c.createdAt = c'.createdAt ∧ (c.finished = true → c'.finished = true)

theorem DockerHost.Evolves.refl (host : DockerHost) : host.Evolves host :=
  ⟨fun _ h => h, fun c hc => .inr ⟨c, hc, rfl, rfl, fun h => h⟩⟩

theorem Doomed.evolves {T : ℕ} {host' : DockerHost} (h : Doomed id T host)
    (hhost : host.Evolves host') :
    Doomed id T host' := by
  refine ⟨hhost.issued id h.issued, fun c' hc' hid => ?_⟩
  rcases hhost.old c' hc' with hnew | ⟨c, hc, hsame, hcreated, hfinished⟩
  · exact absurd (hid ▸ h.issued) hnew
  · rcases h.old c hc (hsame.trans hid) with hdone | hage
    · exact .inl (hfinished hdone)
    · exact .inr (hcreated ▸ hage)

theorem DockerHost.evolves_remove (host : DockerHost) (id : Str) : host.Evolves (host.remove id) :=
  ⟨fun _ h => h, fun c hc => .inr ⟨c, List.mem_of_mem_filter hc, rfl, rfl, fun h => h⟩⟩

theorem DockerHost.evolves_update (host : DockerHost) (now : ℕ) (id : Str) (e : DockerEvent) :
    host.Evolves (host.update now id e) := by
  refine ⟨fun _ h => h, fun c' hc' => .inr ?_⟩
  obtain ⟨c, hc, rfl⟩ := List.mem_map.mp hc'
  refine ⟨c, hc, ?_⟩
  split
  · exact ⟨rfl, rfl, c.finished_next e⟩
  · exact ⟨rfl, rfl, fun h => h⟩

theorem DockerHost.evolves_apply (host : DockerHost) (now : ℕ) (e : DockerEvent) :
    host.Evolves (host.apply now e) := by
  cases e with
  | create id =>
    rw [apply]
    split
    · exact .refl host
    · next hnew =>
      refine ⟨fun _ h => List.mem_cons_of_mem _ h, fun c hc => ?_⟩
      rcases List.mem_append.mp hc with hc | hc
      · exact .inr ⟨c, hc, rfl, rfl, fun h => h⟩
      · rw [List.mem_singleton.mp hc]
        exact .inl fun hmem => hnew (.inl hmem)
  | remove id => exact host.evolves_remove id
  | start id => exact host.evolves_update now id _
  | note id note => exact host.evolves_update now id _
  | exit id code => exact host.evolves_update now id _
  | removing id => exact host.evolves_update now id _
  | dead id => exact host.evolves_update now id _

theorem DockerHost.Sound.remove (h : host.Sound now) (id : Str) : (host.remove id).Sound now where
  nodup := h.nodup.sublist (List.filter_sublist.map _)
  issued c hc := h.issued c (List.mem_of_mem_filter hc)
  dated c hc := h.dated c (List.mem_of_mem_filter hc)

theorem DockerHost.Sound.update (h : host.Sound now) (id : Str) (e : DockerEvent) :
    (host.update now id e).Sound now := by
  have hids : (host.update now id e).containers.map Container.id =
      host.containers.map Container.id := by
    simp only [DockerHost.update, List.map_map]
    refine List.map_congr_left fun c _ => ?_
    simp only [Function.comp_apply]
    split <;> rfl
  refine ⟨hids ▸ h.nodup, fun c' hc' => ?_, fun c' hc' => ?_⟩
  · have hmem : c'.id ∈ (host.update now id e).containers.map Container.id :=
      List.mem_map_of_mem hc'
    rw [hids] at hmem
    obtain ⟨c, hc, hid⟩ := List.mem_map.mp hmem
    exact hid ▸ h.issued c hc
  · obtain ⟨c, hc, rfl⟩ := List.mem_map.mp hc'
    have hdated := h.dated c hc
    split
    · refine ⟨hdated.id, hdated.past, fun since note hstate => ?_⟩
      rcases ContainerState.next_up hstate with rfl | ⟨note', hup⟩
      · exact hdated.past
      · exact hdated.since since note' hup
    · exact hdated

theorem DockerHost.Sound.apply (h : host.Sound now) (e : DockerEvent) :
    (host.apply now e).Sound now := by
  cases e with
  | create id =>
    rw [DockerHost.apply]
    split
    · exact h
    · next hnew =>
      obtain ⟨hfresh, hword⟩ := not_or.mp hnew
      refine ⟨?_, fun c hc => ?_, fun c hc => ?_⟩
      · rw [List.map_append, List.nodup_append]
        refine ⟨h.nodup, List.nodup_singleton _, fun a ha b hb => ?_⟩
        obtain ⟨c, hc, rfl⟩ := List.mem_map.mp ha
        rw [List.mem_singleton.mp hb]
        rintro rfl
        exact hfresh (h.issued c hc)
      · rcases List.mem_append.mp hc with hc | hc
        · exact List.mem_cons_of_mem _ (h.issued c hc)
        · rw [List.mem_singleton.mp hc]
          exact List.mem_cons_self
      · rcases List.mem_append.mp hc with hc | hc
        · exact h.dated c hc
        · rw [List.mem_singleton.mp hc]
          exact ⟨not_not.mp hword, Nat.le_refl _, nofun⟩
  | remove id => exact h.remove id
  | start id => exact h.update id _
  | note id note => exact h.update id _
  | exit id code => exact h.update id _
  | removing id => exact h.update id _
  | dead id => exact h.update id _

theorem DockerHost.Sound.mono (h : host.Sound now) {later : ℕ} (hle : now ≤ later) :
    host.Sound later :=
  ⟨h.nodup, h.issued, fun c hc =>
    ⟨(h.dated c hc).id, (h.dated c hc).past.trans hle, (h.dated c hc).since⟩⟩

/-- A command of a reaper removes a container or changes nothing. -/
theorem DockerHost.reap_cases (host : DockerHost) (c : ReapCmd) (o : FleetOracle) :
    (host.reap dockerPath now c o).1 = host ∨
      ∃ id, (host.reap dockerPath now c o).1 = host.remove id := by
  cases c with
  | simple argv =>
    simp only [DockerHost.reap]
    split
    · exact .inl rfl
    · split
      · split
        · exact .inr ⟨_, rfl⟩
        · exact .inl rfl
      · exact .inl rfl
  | _ => exact .inl rfl

/-! ### What a reaper removes was listed -/

variable (py dockerPath)

/-- A listing in the trace has the container among those that pass the age test. -/
def Listed (t : ReapTrace) (id : Str) : Prop :=
  ∃ out err, ⟨.simple (psArgv dockerPath), .ok (0, out, err)⟩ ∈ t ∧
    id ∈ victims py (splitLines (decodeUtf8 out))

/-- What a reaper owes: it removes only what was listed. -/
def removesListed : Contract ReapCmd ReapReply Exc where
  allows t c := ∀ id, c = .simple (rmArgv dockerPath id) → Listed py dockerPath t id
  answers _ _ _ := True

variable {py dockerPath}

theorem Listed.mono {t t' : ReapTrace} (h : Listed py dockerPath t id) (ht : t ⊆ t') :
    Listed py dockerPath t' id := by
  obtain ⟨out, err, hmem, hid⟩ := h
  exact ⟨out, err, ht hmem, hid⟩

theorem reapLines_wp {lines : List Str} {reaped : ℕ} {t : ReapTrace}
    (h : ∀ id ∈ victims py lines, Listed py dockerPath t id) :
    (reapLines py dockerPath lines reaped).wp (removesListed py dockerPath)
      (fun _ _ => True) t := by
  induction lines generalizing reaped t with
  | nil => exact trivial
  | cons line lines ih =>
    rw [reapLines_cons]
    cases hvictim : victim py line with
    | none => exact ih fun id hid => h id (by simpa [victims, hvictim] using hid)
    | some containerId =>
      have hvictims : victims py (line :: lines) = containerId :: victims py lines := by
        simp [victims, hvictim]
      rw [hvictims] at h
      obtain ⟨hfirst, hrest⟩ := List.forall_mem_cons.mp h
      refine ⟨fun id hid => ?_, fun r _ => ?_⟩
      · have heq : containerId = id := by simpa [rmArgv] using hid
        exact heq ▸ hfirst
      · cases r with
        | error e => exact trivial
        | ok reply => exact ih fun id hid => (hrest id hid).mono (List.subset_cons_self _ _)

/-- The work directories are no containers. -/
theorem reapWorkdirs_issues (base : Str) :
    (reapWorkdirs base).Issues fun c => ∀ argv, c ≠ .simple argv := by
  refine Program.issues_bind (Program.issues_perform nofun) fun isdir => ?_
  refine Program.issues_ite ?_ (Program.issues_pure _)
  refine Program.issues_bind (Program.issues_perform nofun) fun time => ?_
  refine Program.issues_bind (Program.issues_perform nofun) fun entries => ?_
  induction entries with
  | nil => exact Program.issues_pure _
  | cons entry entries ih =>
    refine Program.issues_bind (Program.issues_perform nofun) fun mtime => ?_
    exact Program.issues_ite (Program.issues_bind (Program.issues_perform nofun) fun _ => ih) ih

theorem reapContainers_wp :
    (reapContainers py dockerPath).wp (removesListed py dockerPath) (fun _ _ => True) [] := by
  refine ⟨fun id hid => absurd (ReapCmd.simple.inj hid.symm) (rmArgv_ne_psArgv id),
    fun r _ => ?_⟩
  · cases r with
    | error e => exact trivial
    | ok reply =>
      obtain ⟨status, out, err⟩ := reply
      change (if status ≠ 0 then pure 0
        else reapLines py dockerPath (splitLines (decodeUtf8 out)) 0 : ReapProg ℕ).wp _ _ _
      split
      · exact trivial
      · next hstatus =>
        obtain rfl : status = 0 := not_not.mp hstatus
        exact reapLines_wp fun id hid => ⟨out, err, List.mem_cons_self, hid⟩

/-- **A reaper removes only what was listed to it.** -/
theorem reapOnce_wp (base : Str) :
    (reapOnce py dockerPath base).wp (removesListed py dockerPath) (fun _ _ => True) [] := by
  refine Program.wp_bind_of (M := fun _ _ => True) reapContainers_wp (fun reaped t _ _ => ?_)
    fun _ _ _ _ => trivial
  have hissues : (reapWorkdirs base >>= fun _ => pure reaped : ReapProg ℕ).Issues
      fun c => ∀ argv, c ≠ .simple argv :=
    Program.issues_bind (reapWorkdirs_issues base) fun _ => Program.issues_pure _
  exact hissues.wp_any (fun _ c hc id hid => absurd hid (hc _)) t

/-! ### The system -/

variable (py dockerPath)

/-- What a command of a reaper is in the system. -/
abbrev fleetEvent : Event ReapCmd ReapReply Exc → Event FleetCmd FleetReply Exc :=
  Program.liftEvent FleetCmd.reaper fun _ r => r

/-- What the processes of the fleet owe: a reaper removes what was listed to it. -/
def fleetDiscipline : Discipline FleetCmd FleetReply Exc FleetRole where
  allows role t c := role = .reaper → ∀ id, c = .reaper (.simple (rmArgv dockerPath id)) →
    ∃ t₀ : ReapTrace, t₀.map fleetEvent = t ∧ Listed py dockerPath t₀ id
  ends _ _ := True

variable {py dockerPath} {s : Async.State DockerHost FleetCmd FleetReply Exc FleetRole FleetRequest}

theorem fleet_kept (h : (fleet py dockerPath).Reachable s) :
    ∀ p ∈ s.procs, (fleet py dockerPath).Kept (fleetDiscipline py dockerPath) p.role p.trace
      p.prog := by
  refine System.reachable_kept h (fun q => ?_) fun role t c _ x hx => absurd hx List.not_mem_nil
  cases q with
  | cycle base =>
    have hembed : ((reapOnce py dockerPath base).embed FleetCmd.reaper fun _ r => r).wp
        ((fleet py dockerPath).contract (fleetDiscipline py dockerPath) .reaper)
        (fun _ t' => ∃ t₀ : ReapTrace, t' = t₀.map fleetEvent ∧ True)
        (([] : ReapTrace).map fleetEvent) :=
      Program.wp_embed (f := FleetCmd.reaper) (g := fun _ r => r) (fun _ r => r) (fun _ _ => rfl)
        (fun t c hallows _ id hid => ⟨t, rfl, hallows id (FleetCmd.reaper.inj hid)⟩)
        (fun _ _ _ _ => trivial) (reapOnce_wp base)
    exact Program.wp_bind_of hembed (fun _ _ _ _ => trivial) fun _ _ _ _ => trivial
  | event e =>
    refine (Program.wp_perform _ _ _).mpr ⟨?_, fun _ _ => trivial⟩
    exact fun hrole : FleetRole.docker = FleetRole.reaper => nomatch hrole

/-- What a step does to the host. -/
theorem fleet_responds {now : ℕ} {host host' : DockerHost} {c : FleetCmd}
    {r : Except Exc (FleetReply c)}
    {b : Bool} (h : (fleet py dockerPath).Responds now host c host' r b) :
    host.Evolves host' ∧ (host.Sound now → host'.Sound now) := by
  have hexec (o : FleetOracle) : host.Evolves ((fleet py dockerPath).exec now host c o).1 ∧
      (host.Sound now → ((fleet py dockerPath).exec now host c o).1.Sound now) := by
    cases c with
    | reaper c =>
      change host.Evolves (host.reap dockerPath now c o).1 ∧
        (host.Sound now → (host.reap dockerPath now c o).1.Sound now)
      obtain hsame | ⟨id, hremove⟩ : (host.reap dockerPath now c o).1 = host ∨ _ :=
        host.reap_cases c o
      · rw [hsame]
        exact ⟨.refl host, fun h => h⟩
      · rw [hremove]
        exact ⟨host.evolves_remove id, fun h => h.remove id⟩
    | docker e => exact ⟨host.evolves_apply now e, fun h => h.apply e⟩
  cases h with
  | reply o => exact hexec o
  | lost _ e => exact ⟨.refl host, fun h => h⟩
  | unheard _ e o => exact hexec o

theorem fleet_sound (h : (fleet py dockerPath).Reachable s) :
    s.world.Sound s.now ∧ ∀ o ∈ s.hist, o.time ≤ s.now := by
  refine System.Reachable.invariant
    (I := fun s => s.world.Sound s.now ∧ ∀ o ∈ s.hist, o.time ≤ s.now) h ?_ ?_
  · exact ⟨⟨List.nodup_nil, nofun, nofun⟩, nofun⟩
  · rintro t a t' _ ⟨hsound, hpast⟩ hs
    cases System.step_cases hs with
    | arrive q _ => exact ⟨hsound, hpast⟩
    | answer i a p c k w r b _ _ hr =>
      refine ⟨(fleet_responds (System.responds_of_respond hr)).2 hsound, ?_⟩
      exact List.forall_mem_cons.mpr ⟨Nat.le_refl _, hpast⟩
    | crash i _ => exact ⟨hsound, hpast⟩
    | tick d =>
      exact ⟨hsound.mono (Nat.le_add_right _ _),
        fun o ho => (hpast o ho).trans (Nat.le_add_right _ _)⟩

/-- The answer to a listing shows the host. -/
theorem listing_answer {now : ℕ} {host host' : DockerHost}
    {r : Except Exc (FleetReply (.reaper (.simple (psArgv dockerPath))))} {b : Bool}
    (h : (fleet py dockerPath).Responds now host (.reaper (.simple (psArgv dockerPath))) host' r b)
    {out err : List UInt8} (hr : r = .ok (0, out, err)) :
    host' = host ∧ out = psOutput now host.containers := by
  cases h with
  | reply o =>
    have hexec : (fleet py dockerPath).exec now host (.reaper (.simple (psArgv dockerPath))) o =
        (host, if o.status = 0 then (0, psOutput now host.containers, o.err)
          else (o.status, o.out, o.err)) := if_pos rfl
    rw [hexec] at hr ⊢
    refine ⟨rfl, ?_⟩
    have hreply := Except.ok.inj hr
    split at hreply
    · exact (Prod.mk.inj (Prod.mk.inj hreply).2).1.symm
    · next hstatus => exact absurd (Prod.mk.inj hreply).1 hstatus
  | lost _ e => cases hr
  | unheard _ e o => cases hr

/-- **What a listing made a reaper remove stays doomed**, whatever happens to the containers. -/
theorem listing_doomed (h : (fleet py dockerPath).Reachable s) :
    ∀ o ∈ s.hist, ∀ out err, o.event = ⟨.reaper (.simple (psArgv dockerPath)), .ok (0, out, err)⟩ →
      ∀ id ∈ victims py (splitLines (decodeUtf8 out)), Doomed id o.time s.world := by
  refine System.Reachable.history_invariant (J := fun host hist => ∀ o ∈ hist, ∀ out err,
    o.event = ⟨.reaper (.simple (psArgv dockerPath)), .ok (0, out, err)⟩ →
    ∀ id ∈ victims py (splitLines (decodeUtf8 out)), Doomed id o.time host) h nofun ?_
  intro t a p c host' r b ht ha ih o ho out err hevent id hid
  rcases List.mem_cons.mp ho with rfl | ho
  · obtain ⟨rfl, hr⟩ := Event.mk.inj hevent
    obtain ⟨rfl, rfl⟩ := listing_answer ha.responds (eq_of_heq hr)
    have hsound := (fleet_sound ht).1
    rw [victims_psOutput fun c hc => (hsound.dated c hc).id] at hid
    obtain ⟨c, hc, rfl⟩ := List.mem_map.mp hid
    obtain ⟨hmem, horphan⟩ := List.mem_filter.mp hc
    exact doomed_of_orphan hsound hmem horphan
  · exact (ih o ho out err hevent id hid).evolves (fleet_responds ha.responds).1

/-- **No reaper removes a young container that has not finished.** In every run with any number of
reapers, in which containers are created, start, exit and disappear at any time, also between the
listing of a reaper and its removals: when a reaper is about to remove a container, that container
has finished, or it was created at least 300 seconds ago. -/
theorem reaper_spares_young (h : (fleet py dockerPath).Reachable s)
    {p : Process FleetCmd FleetReply Exc FleetRole} (hp : p ∈ s.procs) (hrole : p.role = .reaper)
    {id : Str} (hnext : p.next = some (.reaper (.simple (rmArgv dockerPath id))))
    {c : Container} (hc : c ∈ s.world.containers) (hid : c.id = id) :
    c.finished = true ∨ c.createdAt + 300 ≤ s.now := by
  obtain ⟨k, hk⟩ := Process.next_eq_some.mp hnext
  obtain ⟨t₀, htrace, out, err, hlisting, hvictim⟩ :=
    (fleet_kept h p hp).allows hk hrole id rfl
  have hmem : fleetEvent ⟨.simple (psArgv dockerPath), .ok (0, out, err)⟩ ∈ p.trace :=
    htrace ▸ List.mem_map_of_mem hlisting
  obtain ⟨o, ho, -, hevent, -⟩ := (System.reachable_traced h p hp).mem hmem
  rcases (listing_doomed h o ho out err hevent id hvictim).old c hc hid with hdone | hold
  · exact .inl hdone
  · exact .inr (hold.trans ((fleet_sound h).2 o ho))

end

/-- A container is created and exits, another one starts; then a reaper lists both. -/
def sampleFleetActions : List (Async.Action Exc FleetOracle FleetRequest) :=
  [.arrive (.event (.create (str "a1"))), .answer 0 (.reply {}),
    .arrive (.event (.start (str "a1"))), .answer 1 (.reply {}), .tick 5,
    .arrive (.event (.exit (str "a1") 0)), .answer 2 (.reply {}),
    .arrive (.event (.create (str "b2"))), .answer 3 (.reply {}),
    .arrive (.event (.start (str "b2"))), .answer 4 (.reply {}), .tick 10,
    .arrive (.cycle (str "/work")), .answer 5 (.reply {})]

/-- Where the sample ends. -/
def sampleFleet : Async.State DockerHost FleetCmd FleetReply Exc FleetRole FleetRequest :=
  (fleet samplePython (str "docker")).run (fleet samplePython (str "docker")).start
    sampleFleetActions

/-- The reaper is about to remove the container that has exited. -/
theorem reaper_spares_young_sample :
    ∃ c ∈ sampleFleet.world.containers, c.id = str "a1" ∧
      (c.finished = true ∨ c.createdAt + 300 ≤ sampleFleet.now) := by
  have hreach : (fleet samplePython (str "docker")).Reachable sampleFleet :=
    System.reachable_run sampleFleetActions (by decide +kernel)
  have hprocs : (sampleFleet.procs[5]?.map fun p => (p.role, p.next)) =
      some (.reaper, some (.reaper (.simple (rmArgv (str "docker") (str "a1"))))) := by
    decide +kernel
  have hmem : (⟨str "a1", 0, .exited 0 5⟩ : Container) ∈ sampleFleet.world.containers := by
    decide +kernel
  obtain ⟨p, hp, hpair⟩ := Option.map_eq_some_iff.mp hprocs
  obtain ⟨hrole, hnext⟩ := Prod.mk.inj hpair
  exact ⟨_, hmem, rfl, reaper_spares_young hreach (List.mem_of_getElem? hp) hrole hnext hmem rfl⟩

end CodeInterpreter.Executor
