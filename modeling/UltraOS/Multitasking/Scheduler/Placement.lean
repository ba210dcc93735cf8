import UltraOS.Library.Machine
import UltraOS.Library.Queue
import UltraOS.Library.Tags
import UltraOS.Multitasking.Scheduler.Model

/-!
# Where the threads are

The actions of the machine and the relation between the state of the scheduler and the places of the
threads: on a CPU, in the ready queue, blocked, or finished.
-/

namespace UltraOS

open Function

def Blocker.Pending (blocker : Blocker) : Prop := blocker.shouldBlock = true → blocker.result = .undefined

/-- A blocker gets a result or stays as it is. -/
structure Blocker.Advances (blocker blocker' : Blocker) : Prop where
  thread : blocker'.thread = blocker.thread
  type : blocker'.type = blocker.type
  resolved : blocker.shouldBlock = false → blocker'.shouldBlock = false
  pending : blocker.Pending → blocker'.Pending

lemma Blocker.Advances.refl (b : Blocker) : b.Advances b := ⟨rfl, rfl, id, id⟩

lemma Blocker.Advances.trans {b b' b'' : Blocker} (h : b.Advances b') (h' : b'.Advances b'') : b.Advances b'' where
  thread := h'.thread.trans h.thread
  type := h'.type.trans h.type
  resolved hresolved := h'.resolved (h.resolved hresolved)
  pending hpend := h'.pending (h.pending hpend)

lemma Blocker.advances_setResult (b : Blocker) (res : BlockResult) : b.Advances (b.setResult res) := by
  unfold Blocker.setResult
  split
  · exact ⟨rfl, rfl, fun _ => rfl, fun _ hsh => nomatch hsh⟩
  · exact Blocker.Advances.refl b

namespace Tasks

lemma field_eq {α β : Type} {f f' : Nat → α} {i : Nat} (field : α → β) (hne : ∀ j, j ≠ i → f' j = f j)
    (hself : field (f' i) = field (f i)) (j : Nat) : field (f' j) = field (f j) := by
  by_cases heq : j = i
  · rw [heq, hself]
  · rw [hne j heq]

inductive Action where
  | createProcess
  | registerProcess (process : Nat)
  | createThread (process : Nat)
  | registerThread (thread : Nat)
  | setInvulnerable (cpu : Nat) (value : Bool)
  | lockMutex (cpu mutex : Nat)
  | unlockMutex (cpu mutex : Nat)
  | prepare (cpu : Nat) (type : BlockerType)
  | block (cpu blocker : Nat)
  | sleep (cpu wakeTime : Nat)
  /-- The thread returns from `block`, or gives the blocker up that it has prepared. -/
  | returnFromBlock (cpu : Nat)
  | testUnblock (blocker : Nat)
  | unblock (blocker : Nat)
  | exitThread (cpu : Nat) (code : Int)
  | exitProcess (cpu : Nat) (code : Int)
  | crash (cpu : Nat) (code : Int)
  | tick (cpu : Nat)
  | acquire (cpu : Nat)
  | pickNext (cpu now : Nat)
  | switchTask (cpu : Nat)

section

variable {Q : Type} [SleepQueue Q] (k : Tasks Q)

def step : Action → Run (Tasks Q)
  | .createProcess => .ok k.createProcess
  | .registerProcess process => k.registerProcess process
  | .createThread process => .ok (k.createThread process)
  | .registerThread thread => k.registerThread thread
  | .setInvulnerable cpu value => .ok (k.setInvulnerable cpu value)
  | .lockMutex cpu mutex => k.lockMutex cpu mutex
  | .unlockMutex cpu mutex => k.unlockMutex cpu mutex
  | .prepare cpu type => .ok (k.prepare cpu type 0)
  | .block cpu blocker => k.block cpu blocker
  | .sleep cpu wakeTime => k.sleep cpu wakeTime
  | .returnFromBlock cpu => .ok (k.returnFromBlock cpu)
  | .testUnblock blocker => .ok (k.testUnblock blocker)
  | .unblock blocker => k.unblock blocker
  | .exitThread cpu code => .ok (k.exitThread cpu code)
  | .exitProcess cpu code => .ok (k.exitProcess cpu code)
  | .crash cpu code => .ok (k.crash cpu code)
  | .tick cpu => .ok (k.enterScheduler cpu)
  | .acquire cpu => .ok (k.acquire cpu)
  | .pickNext cpu now => k.pickNext cpu now
  | .switchTask cpu => .ok (k.switchTask cpu)

def Executes (cpu : Nat) : Prop := cpu < k.cpuCount ∧ (k.cpus cpu).phase = .thread

def ExecutesTask (cpu : Nat) : Prop := k.Executes cpu ∧ (k.cpus cpu).currentThread ≠ (k.cpus cpu).idleTask

def currentCall (cpu : Nat) : BlockCall := (k.threads (k.cpus cpu).currentThread).call

/-- The thread of the blocker is between the making of the blocker and the return of `block`. -/
def InUse (blocker : Nat) : Prop :=
  blocker < k.blockerCount ∧ (k.blockers blocker).type ≠ .sleep ∧
    ((k.threads (k.blockers blocker).thread).call = .preparing blocker ∨
      (k.threads (k.blockers blocker).thread).call = .inside blocker)

/-- What the callers keep to: a thread has one call of `block` at a time, the blocker of a sleep is not
handed out, and a thread stays invulnerable while it owns a mutex. -/
def Permits : Action → Prop
  | .createProcess => True
  | .registerProcess process => k.cpuCount ≤ process ∧ process < k.processCount ∧
      process ∉ k.mProcesses ∧ k.queuesLock = none
  | .createThread process => process ∈ k.mProcesses
  | .registerThread thread => thread < k.threadCount ∧ (k.threads thread).state = .undefined ∧
      (k.threads thread).owner ∈ k.mProcesses ∧ k.queuesLock = none
  | .setInvulnerable cpu value => k.ExecutesTask cpu ∧
      (value = true ∨ ∀ owned ∈ k.mutexOwners, owned.2 ≠ (k.cpus cpu).currentThread)
  | .lockMutex cpu mutex => k.ExecutesTask cpu ∧ k.currentCall cpu = .outside ∧
      (k.threads (k.cpus cpu).currentThread).isInvulnerable = true ∧
      k.mutexOwner mutex ≠ some (k.cpus cpu).currentThread
  | .unlockMutex cpu mutex => k.ExecutesTask cpu ∧ k.mutexOwner mutex = some (k.cpus cpu).currentThread
  | .prepare cpu type => k.ExecutesTask cpu ∧ k.currentCall cpu = .outside ∧ type ≠ .sleep
  | .block cpu blocker => k.ExecutesTask cpu ∧ k.currentCall cpu = .preparing blocker
  | .sleep cpu _ => k.ExecutesTask cpu ∧ k.currentCall cpu = .outside
  | .returnFromBlock cpu => k.ExecutesTask cpu
  | .testUnblock blocker => k.InUse blocker
  | .unblock blocker => k.InUse blocker ∧ blocker ∈ k.unblockers ∧ k.queuesLock = none
  | .exitThread cpu _ => k.ExecutesTask cpu
  | .exitProcess cpu _ => k.ExecutesTask cpu
  | .crash cpu _ => k.ExecutesTask cpu
  | .tick cpu => k.Executes cpu
  | .acquire cpu => cpu < k.cpuCount ∧ (k.cpus cpu).phase = .scheduling ∧ k.queuesLock = none
  | .pickNext cpu _ => cpu < k.cpuCount ∧ (k.cpus cpu).phase = .locked
  | .switchTask cpu => cpu < k.cpuCount ∧ (k.cpus cpu).phase = .unlocked

instance (cpu : Nat) : Decidable (k.Executes cpu) := inferInstanceAs (Decidable (_ ∧ _))

instance (cpu : Nat) : Decidable (k.ExecutesTask cpu) :=
  inferInstanceAs (Decidable (_ ∧ _))

instance (blocker : Nat) : Decidable (k.InUse blocker) :=
  inferInstanceAs (Decidable (_ ∧ _))

def scheduler : Machine (Tasks Q) Action Fault where
  step := step
  admits := Permits

instance (action : Action) : Decidable (scheduler.admits k action) := by
  cases action <;> dsimp only [scheduler, Permits] <;> infer_instance

end

/-- A system whose CPUs run their idle tasks. -/
def boot (cpuCount : Nat) : Tasks where
  threads thread := { owner := thread, state := if thread < cpuCount then .running else .undefined }
  threadCount := cpuCount
  blockers _ := { thread := 0, type := .io }
  blockerCount := 0
  processes process := if process < cpuCount then { threads := [process] } else {}
  processCount := cpuCount
  cpus cpu := { currentThread := cpu, idleTask := cpu, stack := cpu }
  cpuCount := cpuCount
  mSleepingThreads := []

variable {p : Place} {p' : Nat → Place} {t : Thread}

section

inductive Place where
  | fresh
  | idle
  | running (cpu : Nat)
  | ready
  | blocked (blocker : Nat)
  | deferred
  | freed
deriving DecidableEq

def Place.isAlive : Place → Bool
  | .running _ => true
  | .ready => true
  | .blocked _ => true
  | _ => false

/-- A thread on the list of the deferred threads or on the one of the finalizer. -/
def Place.isFinished : Place → Bool
  | .deferred => true
  | .freed => true
  | _ => false

lemma isFinished_iff {pl : Place} : pl.isFinished = true ↔ pl = .deferred ∨ pl = .freed := by
  cases pl <;> simp [Place.isFinished]

def Asks (t : Thread) : Prop :=
  t.requestedState = .undefined ∧ t.blocker = none ∨
    ∃ blocker, t.requestedState = .blocked ∧ t.blocker = some blocker ∧ t.call = .inside blocker

lemma Asks.blocker_eq_none (h : Asks t) (hreq : t.requestedState = .undefined) : t.blocker = none := by
  rcases h with ⟨-, hb⟩ | ⟨_, hblk, -⟩
  · exact hb
  · rw [hreq] at hblk
    cases hblk

/-- The thread is as its place says. In the section of `pick_next` the current thread of the CPU may
have another state already. -/
def Fits (k : Tasks) (hand : Option Nat) (thread : Nat) : Place → Prop
  | .fresh => (k.threads thread).state = .undefined ∧
      (k.threads thread).requestedState = .undefined ∧ (k.threads thread).blocker = none
  | .idle => (k.threads thread).state = .ready ∧ (k.threads thread).requestedState = .undefined ∧
      (k.threads thread).blocker = none ∧ (k.threads thread).shouldDie = false ∧
      ∃ cpu < k.cpuCount, (k.cpus cpu).idleTask = thread
  | .running cpu => cpu < k.cpuCount ∧ (k.cpus cpu).currentThread = thread ∧
      (hand ≠ some cpu → (k.threads thread).state = .running) ∧ Asks (k.threads thread) ∧
      ((k.cpus cpu).idleTask = thread →
        (k.threads thread).requestedState = .undefined ∧ (k.threads thread).shouldDie = false)
  | .ready => (k.threads thread).state = .ready ∧ (k.threads thread).requestedState = .undefined ∧
      (k.threads thread).blocker = none
  | .blocked blocker => (k.threads thread).state = .blocked ∧
      (k.threads thread).requestedState = .undefined ∧ (k.threads thread).blocker = some blocker ∧
      (k.threads thread).call = .inside blocker ∧ (k.blockers blocker).shouldBlock = true
  | .deferred => (k.threads thread).state = .dead
  | .freed => (k.threads thread).state ≠ .undefined ∧ ((k.threads thread).state = .blocked →
      ∃ blocker, (k.threads thread).blocker = some blocker ∧
        (k.threads thread).call = .inside blocker ∧ (k.blockers blocker).type = .sleep)

variable {k k' : Tasks} {hand : Option Nat} {thread : Nat} {pl : Nat → Place}

lemma fits_congr (ht : k'.threads thread = k.threads thread) (hblockers : k'.blockers = k.blockers)
    (hcpus : k'.cpus = k.cpus) (hn : k'.cpuCount = k.cpuCount) (pl : Place) : Fits k' hand thread pl ↔
    Fits k hand thread pl := by
  cases pl <;> simp only [Fits, ht, hblockers, hcpus, hn]

/-- The state of the scheduler with the places of the threads. The CPU of `hand` is in the section of
`pick_next`, and its current thread may have left it already. -/
structure Placed (k : Tasks) (place : Nat → Place) (hand : Option Nat) : Prop where
  ready : Tags.Lists place .ready k.mReadyThreads
  deferred : Tags.Lists place .deferred k.mDeferredDeletedDeadThreads
  freed : Tags.Lists place .freed k.mThreadsToFree
  sleeping : ∀ blocker, blocker ∈ k.mSleepingThreads ↔
    place (k.blockers blocker).thread = .blocked blocker ∧ (k.blockers blocker).type = .sleep
  sleeping_nodup : k.mSleepingThreads.Nodup
  fits : ∀ thread, Fits k hand thread (place thread)
  onCpu : ∀ cpu < k.cpuCount, hand ≠ some cpu → place (k.cpus cpu).currentThread = .running cpu
  quiet : ∀ cpu < k.cpuCount, hand ≠ some cpu → (k.cpus cpu).phase = .thread ∨ (k.cpus cpu).phase = .unlocked →
    (k.threads (k.cpus cpu).currentThread).requestedState = .undefined
  idle : ∀ cpu < k.cpuCount, place (k.cpus cpu).idleTask = .idle ∨ place (k.cpus cpu).idleTask = .running cpu
  idle_unique : ∀ cpu < k.cpuCount, ∀ cpu' < k.cpuCount, (k.cpus cpu).idleTask = (k.cpus cpu').idleTask → cpu = cpu'
  fresh : ∀ thread, k.threadCount ≤ thread → place thread = .fresh
  called : ∀ thread blocker, (k.threads thread).call = .preparing blocker ∨ (k.threads thread).call = .inside blocker →
    blocker < k.blockerCount ∧ (k.blockers blocker).thread = thread
  pending : ∀ blocker, (k.blockers blocker).Pending
  unblocked : ∀ blocker ∈ k.unblocked, blocker < k.blockerCount ∧ (k.blockers blocker).shouldBlock = false

lemma Placed.fits_of (h : Placed k pl hand) (hp : pl thread = p) : Fits k hand thread p := hp ▸ h.fits thread

/-- The threads of the processes and their numbers. -/
structure Counted (k : Tasks) (place : Nat → Place) : Prop where
  registered : ∀ process ∈ k.mProcesses, k.cpuCount ≤ process ∧ process < k.processCount
  nodup : ∀ process, (k.processes process).threads.Nodup
  lt : ∀ process, ∀ thread ∈ (k.processes process).threads, thread < k.threadCount
  owner : ∀ process, ∀ thread ∈ (k.processes process).threads, (k.threads thread).owner = process
  member : ∀ thread, (place thread).isAlive = true → (∃ cpu < k.cpuCount, (k.cpus cpu).idleTask = thread) ∨
      thread ∈ (k.processes (k.threads thread).owner).threads ∧ (k.threads thread).owner ∈ k.mProcesses
  idle : ∀ cpu < k.cpuCount, (k.threads (k.cpus cpu).idleTask).owner < k.cpuCount
  listed : ∀ thread < k.threadCount, thread ∈ (k.processes (k.threads thread).owner).threads
  cpus : k.cpuCount ≤ k.processCount
  uncreated : ∀ process, k.processCount ≤ process → (k.processes process).threads = []
  unregistered : ∀ process, k.cpuCount ≤ process → process ∉ k.mProcesses →
    (k.processes process).aliveThreadCount = 0 ∧ ∀ thread ∈ (k.processes process).threads, place thread = .fresh
  counted : ∀ process ∈ k.mProcesses, (k.processes process).aliveThreadCount =
    (k.processes process).threads.countP fun thread => (place thread).isAlive

/-- At most one thread kills the others of its process, and only threads that it has killed are finished
without being dead. -/
structure Killers (k : Tasks) (place : Nat → Place) : Prop where
  unique : ∀ thread thread', (k.threads thread).shouldKillAllThreads = true →
    (k.threads thread').shouldKillAllThreads = true →
    (k.threads thread).owner = (k.threads thread').owner → thread = thread'
  exiting : ∀ thread, (k.threads thread).shouldKillAllThreads = true →
    (k.threads thread).owner ∈ k.mProcesses ∧ (k.processes (k.threads thread).owner).state ≠ .alive
  dead : ∀ thread, place thread = .deferred ∨ place thread = .freed →
    (k.threads thread).state = .dead ∨ ∃ killer, (k.threads killer).owner = (k.threads thread).owner ∧
      (k.threads killer).shouldKillAllThreads = true ∧
      (place killer = .deferred ∨ place killer = .freed)

lemma Killers.transport (hk : Killers k pl) (howner : ∀ thread, (k'.threads thread).owner = (k.threads thread).owner)
    (hkill : ∀ thread, (k'.threads thread).shouldKillAllThreads = (k.threads thread).shouldKillAllThreads)
    (hprocesses : ∀ q, (k.processes q).state ≠ .alive → (k'.processes q).state ≠ .alive)
    (hreg : ∀ q ∈ k.mProcesses, q ∈ k'.mProcesses) (hfin : ∀ thread, (pl thread).isFinished = true →
    (p' thread).isFinished = true) (hdead : ∀ thread, (p' thread).isFinished = true → (pl thread).isFinished = true ∧
    (k'.threads thread).state = (k.threads thread).state ∨ (k'.threads thread).state = .dead ∨
    ∃ killer, (k.threads killer).owner = (k.threads thread).owner ∧ (k.threads killer).shouldKillAllThreads = true ∧
    (p' killer).isFinished = true) : Killers k' p' where
  unique thread thread' := by
    rw [hkill, hkill, howner, howner]
    exact hk.unique thread thread'
  exiting thread ht := by
    rw [hkill] at ht
    obtain ⟨hmem, hstate⟩ := hk.exiting thread ht
    rw [howner]
    exact ⟨hreg _ hmem, hprocesses _ hstate⟩
  dead thread ht := by
    simp only [howner, hkill, ← isFinished_iff] at ht ⊢
    rcases hdead thread ht with ⟨hold, hstate⟩ | hnew
    · rw [hstate]
      refine (hk.dead thread (isFinished_iff.mp hold)).imp_right ?_
      rintro ⟨killer, hsame, hflag, hp⟩
      exact ⟨killer, hsame, hflag, hfin killer (isFinished_iff.mpr hp)⟩
    · exact hnew

end

section

def Queued (k k' : Tasks) (place : Nat → Place) : Prop :=
  Queue.Flows (fun thread => place thread ≠ .ready) k.mReadyThreads k'.mReadyThreads

/-- Only one thread and its blockers change, and no blocker gets back to blocking. -/
structure Frame (k k' : Tasks) (thread : Nat) : Prop where
  threads : ∀ other, other ≠ thread → k'.threads other = k.threads other
  call : (k'.threads thread).call = (k.threads thread).call
  owner : (k'.threads thread).owner = (k.threads thread).owner
  blocker : ∀ blocker, (k.blockers blocker).Advances (k'.blockers blocker)
  blockers : ∀ blocker, (k.blockers blocker).thread ≠ thread → k'.blockers blocker = k.blockers blocker
  processThreads : ∀ process, (k'.processes process).threads = (k.processes process).threads
  cpus : k'.cpus = k.cpus
  cpuCount : k'.cpuCount = k.cpuCount
  threadCount : k'.threadCount = k.threadCount
  blockerCount : k'.blockerCount = k.blockerCount
  processCount : k'.processCount = k.processCount
  mProcesses : k'.mProcesses = k.mProcesses
  unblocked : k'.unblocked = k.unblocked

variable {k k' : Tasks} {pl : Nat → Place} {hand : Option Nat} {thread : Nat} {new : Place}

def queues (k : Tasks) : List Nat × List Nat × List Nat × List Nat :=
  (k.mReadyThreads, k.mDeferredDeletedDeadThreads, k.mThreadsToFree, k.mSleepingThreads)

lemma Frame.of_update (hths : k'.threads = update k.threads thread t)
    (hcall : t.call = (k.threads thread).call) (howner : t.owner = (k.threads thread).owner)
    (hprocesses : ∀ q, (k'.processes q).threads = (k.processes q).threads)
    (hrest : (k'.blockers, k'.cpus, k'.cpuCount, k'.threadCount, k'.blockerCount, k'.processCount, k'.mProcesses,
        k'.unblocked) = (k.blockers, k.cpus, k.cpuCount, k.threadCount, k.blockerCount, k.processCount, k.mProcesses,
        k.unblocked)) : Frame k k' thread := by
  simp only [Prod.mk.injEq] at hrest
  obtain ⟨hblockers, hrest⟩ := hrest
  refine ⟨fun u hne => ?_, ?_, ?_, fun b => ?_, fun _ _ => by rw [hblockers], hprocesses, hrest.1, hrest.2.1,
    hrest.2.2.1, hrest.2.2.2.1, hrest.2.2.2.2.1, hrest.2.2.2.2.2.1, hrest.2.2.2.2.2.2⟩
  · rw [hths, update_of_ne hne]
  · rw [hths, update_self, hcall]
  · rw [hths, update_self, howner]
  · rw [hblockers]
    exact Blocker.Advances.refl _

variable (h : Counted k pl) (hframe : Frame k k' thread) (halive : (pl thread).isAlive = true)

lemma Frame.owner_eq (h : Frame k k' thread) (u : Nat) : (k'.threads u).owner = (k.threads u).owner :=
  field_eq Thread.owner h.threads h.owner u

lemma Frame.call_eq (h : Frame k k' thread) (u : Nat) : (k'.threads u).call = (k.threads u).call :=
  field_eq Thread.call h.threads h.call u

lemma Placed.blocker_lt (h : Placed k pl hand) {b : Nat} (hp : pl thread = .blocked b) :
    b < k.blockerCount ∧ (k.blockers b).thread = thread :=
  h.called thread b (.inr (h.fits_of hp).2.2.2.1)

lemma Fits.transport {hand' : Option Nat} (h : Fits k hand thread p) (ht : k'.threads thread = k.threads thread)
    (hn : k'.cpuCount = k.cpuCount) (hidle : ∀ cpu, (k'.cpus cpu).idleTask = (k.cpus cpu).idleTask)
    (hcur : ∀ cpu, p = .running cpu → (k'.cpus cpu).currentThread = (k.cpus cpu).currentThread ∧ (hand = some cpu →
    hand' = some cpu)) (hblk : ∀ b, p = .blocked b → (k'.blockers b).shouldBlock = (k.blockers b).shouldBlock)
    (htype : ∀ b, (k.threads thread).call = .inside b → (k'.blockers b).type = (k.blockers b).type) :
    Fits k' hand' thread p := by
  cases p with
  | running cpu =>
    obtain ⟨hcpu, hhand⟩ := hcur cpu rfl
    rw [Fits, hn, hidle, hcpu, ht]
    exact ⟨h.1, h.2.1, fun hne => h.2.2.1 fun heq => hne (hhand heq), h.2.2.2⟩
  | blocked b => rwa [Fits, ht, hblk b rfl]
  | idle =>
    rw [Fits, ht, hn]
    simp only [hidle]
    exact h
  | freed =>
    rw [Fits, ht]
    refine ⟨h.1, fun hstate => ?_⟩
    obtain ⟨b, hb, hcall, hsleep⟩ := h.2 hstate
    exact ⟨b, hb, hcall, (htype b hcall).trans hsleep⟩
  | fresh | ready | deferred => rwa [Fits, ht]

lemma Placed.fits_other (h : Placed k pl hand) (hframe : Frame k k' thread) {u : Nat}
    (hne : u ≠ thread) : Fits k' hand u (pl u) := by
  apply (h.fits u).transport (hframe.threads u hne) hframe.cpuCount
  · exact fun cpu => by rw [hframe.cpus]
  · exact fun cpu _ => ⟨by rw [hframe.cpus], id⟩
  · exact fun b hp => by rw [hframe.blockers b ((h.blocker_lt hp).2 ▸ hne)]
  · exact fun b _ => (hframe.blocker b).type

/-- The thread may get another place. The thread of a CPU can only leave it in the section of `pick_next`,
and an idle task stays one. -/
structure Loose (k : Tasks) (place : Nat → Place) (hand : Option Nat) (thread : Nat) (new : Place) : Prop where
  running : ∀ cpu, place thread = .running cpu → hand = some cpu
  idle : ∀ cpu < k.cpuCount, (k.cpus cpu).idleTask = thread → new = .idle
  lt : thread < k.threadCount

lemma Placed.move (h : Placed k pl hand) (hframe : Frame k k' thread)
    (hready : Tags.Lists (update pl thread new) .ready k'.mReadyThreads)
    (hdef : Tags.Lists (update pl thread new) .deferred k'.mDeferredDeletedDeadThreads)
    (hfreed : Tags.Lists (update pl thread new) .freed k'.mThreadsToFree) (hsleeping : ∀ b, b ∈ k'.mSleepingThreads ↔
    update pl thread new (k.blockers b).thread = .blocked b ∧ (k.blockers b).type = .sleep)
    (hsleepingNodup : k'.mSleepingThreads.Nodup) (hfits : Fits k' hand thread new)
    (hloose : Loose k pl hand thread new) : Placed k' (update pl thread new) hand where
  ready := hready
  deferred := hdef
  freed := hfreed
  sleeping b := by
    rw [(hframe.blocker b).thread, (hframe.blocker b).type]
    exact hsleeping b
  sleeping_nodup := hsleepingNodup
  fits u := by
    by_cases heq : u = thread
    · rwa [heq, update_self]
    · rw [update_of_ne heq]
      exact h.fits_other hframe heq
  onCpu cpu hcpu hhand := by
    rw [hframe.cpuCount] at hcpu
    have hcur := h.onCpu cpu hcpu hhand
    rw [hframe.cpus, update_of_ne]
    · exact hcur
    · rintro heq
      exact hhand (hloose.running cpu (heq ▸ hcur))
  quiet cpu hcpu hhand hphase := by
    rw [hframe.cpuCount] at hcpu
    rw [hframe.cpus] at hphase ⊢
    have hcur := h.onCpu cpu hcpu hhand
    rw [hframe.threads]
    · exact h.quiet cpu hcpu hhand hphase
    · rintro heq
      exact hhand (hloose.running cpu (heq ▸ hcur))
  idle cpu hcpu := by
    rw [hframe.cpuCount] at hcpu
    rw [hframe.cpus]
    by_cases heq : (k.cpus cpu).idleTask = thread
    · rw [heq, update_self]
      exact .inl (hloose.idle cpu hcpu heq)
    · rw [update_of_ne heq]
      exact h.idle cpu hcpu
  idle_unique := by
    rw [hframe.cpuCount, hframe.cpus]
    exact h.idle_unique
  fresh u hu := by
    rw [hframe.threadCount] at hu
    have hlt := hloose.lt
    rw [update_of_ne (by omega)]
    exact h.fresh u hu
  called u b hcall := by
    rw [hframe.call_eq] at hcall
    rw [hframe.blockerCount, (hframe.blocker b).thread]
    exact h.called u b hcall
  pending b := (hframe.blocker b).pending (h.pending b)
  unblocked b hb := by
    rw [hframe.unblocked] at hb
    obtain ⟨hlt, hsh⟩ := h.unblocked b hb
    exact ⟨hframe.blockerCount ▸ hlt, (hframe.blocker b).resolved hsh⟩

def unsleep : (old : Place) → (sleeping : List Nat) → List Nat
  | .blocked blocker, sleeping => sleeping.erase blocker
  | _, sleeping => sleeping

variable {old : Place}

lemma Placed.sleeping_unsleep (h : Placed k pl hand) (hp : pl thread = old)
    (hnew : ∀ b, new ≠ .blocked b) (u : Nat) : u ∈ unsleep old k.mSleepingThreads ↔
    update pl thread new (k.blockers u).thread = .blocked u ∧ (k.blockers u).type = .sleep := by
  have hmem : u ∈ unsleep old k.mSleepingThreads ↔ u ∈ k.mSleepingThreads ∧ old ≠ .blocked u := by
    cases old with
    | blocked b => rw [unsleep, h.sleeping_nodup.mem_erase_iff, and_comm, ne_comm, ne_eq, ne_eq, Place.blocked.injEq]
    | _ => simp [unsleep]
  rw [hmem, h.sleeping]
  by_cases heq : (k.blockers u).thread = thread
  · rw [heq, update_self, hp]
    exact iff_of_false (fun hblk => hblk.2 hblk.1.1) fun hblk => hnew u hblk.1
  · rw [update_of_ne heq]
    refine and_iff_left_of_imp fun hblk hold => ?_
    exact heq (h.blocker_lt (hp.trans hold)).2

lemma Placed.shift (h : Placed k pl hand) (hframe : Frame k k' thread) (hp : pl thread = old)
    (hnew : ∀ b, new ≠ .blocked b) (hqueues : k'.queues = (Tags.relist .ready old new thread k.mReadyThreads,
      Tags.relist .deferred old new thread k.mDeferredDeletedDeadThreads,
      Tags.relist .freed old new thread k.mThreadsToFree, unsleep old k.mSleepingThreads))
    (hfits : Fits k' hand thread new) (hloose : Loose k pl hand thread new) :
    Placed k' (update pl thread new) hand := by
  simp only [queues, Prod.mk.injEq] at hqueues
  obtain ⟨hready, hdef, hfreed, hsleeping⟩ := hqueues
  apply h.move hframe _ _ _ _ _ hfits hloose
  · rw [hready]
    exact h.ready.relist hp
  · rw [hdef]
    exact h.deferred.relist hp
  · rw [hfreed]
    exact h.freed.relist hp
  · rw [hsleeping]
    exact h.sleeping_unsleep hp hnew
  · rw [hsleeping]
    cases old with
    | blocked b => exact h.sleeping_nodup.erase b
    | _ => exact h.sleeping_nodup

def Registered (k : Tasks) (thread : Nat) : Prop :=
  thread ∈ (k.processes (k.threads thread).owner).threads ∧ (k.threads thread).owner ∈ k.mProcesses

structure SameOwners (k k' : Tasks) : Prop where
  owner : ∀ thread, (k'.threads thread).owner = (k.threads thread).owner
  processThreads : ∀ process, (k'.processes process).threads = (k.processes process).threads
  idleTask : ∀ cpu, (k'.cpus cpu).idleTask = (k.cpus cpu).idleTask
  cpuCount : k'.cpuCount = k.cpuCount
  threadCount : k'.threadCount = k.threadCount
  processCount : k'.processCount = k.processCount
  mProcesses : k'.mProcesses = k.mProcesses

variable (hsame : SameOwners k k') (hreg : k.Registered thread)

include h hsame in
lemma Counted.transport
    (halive : ∀ u, (p' u).isAlive = true → (∃ cpu < k.cpuCount, (k.cpus cpu).idleTask = u) ∨ k.Registered u)
    (hfresh : ∀ u, (k.threads u).owner ∉ k.mProcesses → pl u = .fresh → p' u = .fresh)
    (hcounts : ∀ q, q ∉ k.mProcesses → (k'.processes q).aliveThreadCount = (k.processes q).aliveThreadCount)
    (hcnt : ∀ q ∈ k.mProcesses, (k'.processes q).aliveThreadCount =
      (k.processes q).threads.countP fun u => (p' u).isAlive) : Counted k' p' := by
  constructor
  all_goals simp only [hsame.owner, hsame.processThreads, hsame.idleTask, hsame.cpuCount, hsame.threadCount,
    hsame.processCount, hsame.mProcesses]
  · exact h.registered
  · exact h.nodup
  · exact h.lt
  · exact h.owner
  · exact halive
  · exact h.idle
  · exact h.listed
  · exact h.cpus
  · exact h.uncreated
  · intro q hp hnot
    obtain ⟨hn, hall⟩ := h.unregistered q hp hnot
    refine ⟨(hcounts q hnot).trans hn, fun u hu => hfresh u ?_ (hall u hu)⟩
    rwa [h.owner q u hu]
  · exact hcnt

include h hsame in
lemma Counted.same (hcounts : ∀ q, (k'.processes q).aliveThreadCount = (k.processes q).aliveThreadCount) :
    Counted k' pl := by
  apply h.transport hsame h.member (fun _ _ hfresh => hfresh) (fun q _ => hcounts q)
  intro q hp
  rw [hcounts]
  exact h.counted q hp

lemma Frame.sameOwners (h : Frame k k' thread) : SameOwners k k' where
  owner := h.owner_eq
  processThreads := h.processThreads
  idleTask cpu := by rw [h.cpus]
  cpuCount := h.cpuCount
  threadCount := h.threadCount
  processCount := h.processCount
  mProcesses := h.mProcesses

include h hsame in
lemma Counted.relocate
    (hmember : new.isAlive = true → (∃ cpu < k.cpuCount, (k.cpus cpu).idleTask = thread) ∨ k.Registered thread)
    (hfresh : pl thread = .fresh → (k.threads thread).owner ∈ k.mProcesses)
    (hcounts : ∀ q, q ∉ k.mProcesses → (k'.processes q).aliveThreadCount = (k.processes q).aliveThreadCount)
    (hcnt : ∀ q ∈ k.mProcesses, (k'.processes q).aliveThreadCount =
      (k.processes q).threads.countP fun u => (update pl thread new u).isAlive) :
    Counted k' (update pl thread new) := by
  apply h.transport hsame _ _ hcounts hcnt
  · intro u halive
    by_cases heq : u = thread
    · rw [heq, update_self] at halive
      exact heq ▸ hmember halive
    · rw [update_of_ne heq] at halive
      exact h.member u halive
  · intro u hnot hu
    rw [update_of_ne]
    · exact hu
    · rintro rfl
      exact hnot (hfresh hu)

include h hframe hreg in
lemma Counted.move (hcounts : ∀ q, q ≠ (k.threads thread).owner →
      (k'.processes q).aliveThreadCount = (k.processes q).aliveThreadCount)
    (hn : (k'.processes (k.threads thread).owner).aliveThreadCount =
      (k.processes (k.threads thread).owner).threads.countP fun u => (update pl thread new u).isAlive) :
    Counted k' (update pl thread new) := by
  apply h.relocate hframe.sameOwners (fun _ => .inr hreg) fun _ => hreg.2
  · intro q hnot
    apply hcounts
    rintro rfl
    exact hnot hreg.2
  · intro q hp
    by_cases heq : q = (k.threads thread).owner
    · rw [heq, hn]
    · rw [hcounts q heq, h.counted q hp, Tags.countP_update_of_notMem]
      intro hmem
      exact heq (h.owner q thread hmem).symm

include h hsame in
lemma Counted.keep (hfresh : pl thread ≠ .fresh) (halive : new.isAlive = (pl thread).isAlive)
    (hcounts : ∀ q, (k'.processes q).aliveThreadCount = (k.processes q).aliveThreadCount) :
    Counted k' (update pl thread new) := by
  apply h.relocate hsame (fun hnew => h.member thread (halive ▸ hnew)) (fun heq => absurd heq hfresh)
    fun q _ => hcounts q
  intro q hp
  rw [hcounts, h.counted q hp, Tags.countP_update_of_eq halive]

include h hframe hreg in
lemma Counted.retire (hold : (pl thread).isAlive = true) (hnew : new.isAlive = false)
    (hn : (k'.processes (k.threads thread).owner).aliveThreadCount =
      (k.processes (k.threads thread).owner).aliveThreadCount - 1) (hcounts : ∀ q, q ≠ (k.threads thread).owner →
      (k'.processes q).aliveThreadCount = (k.processes q).aliveThreadCount) : Counted k' (update pl thread new) := by
  apply h.move hframe hreg hcounts
  have hless := Tags.countP_update_of_mem_of_false (h.nodup _) hreg.1 hold hnew
  rw [hn, h.counted _ hreg.2, hless, Nat.add_sub_cancel]

include h hreg in
lemma Counted.count_ne_zero (halive : (pl thread).isAlive = true) :
    (k.processes (k.threads thread).owner).aliveThreadCount ≠ 0 := by
  rw [h.counted _ hreg.2, ← Nat.pos_iff_ne_zero]
  exact List.countP_pos_iff.mpr ⟨thread, hreg.1, halive⟩

include h halive in
lemma Counted.isRegistered (hidle : ∀ cpu < k.cpuCount, (k.cpus cpu).idleTask ≠ thread) : k.Registered thread := by
  rcases h.member thread halive with ⟨cpu, hcpu, heq⟩ | hreg
  · exact absurd heq (hidle cpu hcpu)
  · exact hreg

end

structure Rests (k k' : Tasks) : Prop where
  queues : k'.queues = k.queues
  cpuCount : k'.cpuCount = k.cpuCount
  threadCount : k'.threadCount = k.threadCount
  unblocked : k'.unblocked = k.unblocked
  processes : k'.processes = k.processes
  processCount : k'.processCount = k.processCount
  mProcesses : k'.mProcesses = k.mProcesses

/-- The thread of a CPU changes what it asks for and its own flags, makes blockers, or enters or leaves
the scheduler. -/
structure Acts (k k' : Tasks) (cpu : Nat) : Prop extends Rests k k' where
  threads : ∀ other, other ≠ (k.cpus cpu).currentThread → k'.threads other = k.threads other
  state : (k'.threads (k.cpus cpu).currentThread).state = (k.threads (k.cpus cpu).currentThread).state
  owner : (k'.threads (k.cpus cpu).currentThread).owner = (k.threads (k.cpus cpu).currentThread).owner
  asks : Asks (k'.threads (k.cpus cpu).currentThread)
  idles : (k.cpus cpu).idleTask = (k.cpus cpu).currentThread →
    (k'.threads (k.cpus cpu).currentThread).requestedState = .undefined ∧
      (k'.threads (k.cpus cpu).currentThread).shouldDie = false
  called : ∀ blocker, (k'.threads (k.cpus cpu).currentThread).call = .preparing blocker ∨
    (k'.threads (k.cpus cpu).currentThread).call = .inside blocker →
    blocker < k'.blockerCount ∧ (k'.blockers blocker).thread = (k.cpus cpu).currentThread
  quiet : (k'.cpus cpu).phase = .thread ∨ (k'.cpus cpu).phase = .unlocked →
    (k'.threads (k.cpus cpu).currentThread).requestedState = .undefined
  blockers : ∀ blocker < k.blockerCount, k'.blockers blocker = k.blockers blocker
  blockerCount : k.blockerCount ≤ k'.blockerCount
  pending : ∀ blocker, (k.blockers blocker).Pending → (k'.blockers blocker).Pending
  currentThread : ∀ other, (k'.cpus other).currentThread = (k.cpus other).currentThread
  idleTask : ∀ other, (k'.cpus other).idleTask = (k.cpus other).idleTask
  phase : ∀ other, other ≠ cpu → (k'.cpus other).phase = (k.cpus other).phase

variable {k k' : Tasks} {pl : Nat → Place} {cpu : Nat}

lemma Acts.owner_eq (h : Acts k k' cpu) (u : Nat) : (k'.threads u).owner = (k.threads u).owner :=
  field_eq Thread.owner h.threads h.owner u

lemma Acts.mSleepingThreads (h : Acts k k' cpu) : k'.mSleepingThreads = k.mSleepingThreads :=
  congrArg (·.2.2.2) h.queues

lemma Placed.act (h : Placed k pl none) (hcpu : cpu < k.cpuCount) (ha : Acts k k' cpu) : Placed k' pl none where
  ready := show Tags.Lists pl .ready k'.queues.1 from ha.queues ▸ h.ready
  deferred := show Tags.Lists pl .deferred k'.queues.2.1 from ha.queues ▸ h.deferred
  freed := show Tags.Lists pl .freed k'.queues.2.2.1 from ha.queues ▸ h.freed
  sleeping b := by
    rw [ha.mSleepingThreads, h.sleeping]
    by_cases hlt : b < k.blockerCount
    · rw [ha.blockers b hlt]
    · exact iff_of_false (fun hold => hlt (h.blocker_lt hold.1).1) fun hnew => hlt (h.blocker_lt hnew.1).1
  sleeping_nodup := ha.mSleepingThreads ▸ h.sleeping_nodup
  fits u := by
    by_cases heq : u = (k.cpus cpu).currentThread
    · have hrung := h.onCpu cpu hcpu (by simp)
      have hfits := h.fits u
      rw [heq] at hfits ⊢
      rw [hrung] at hfits ⊢
      refine ⟨ha.cpuCount ▸ hcpu, ha.currentThread cpu, fun hhand => ?_, ha.asks, fun hidle => ?_⟩
      · rw [ha.state]
        exact hfits.2.2.1 hhand
      · rw [ha.idleTask] at hidle
        exact ha.idles hidle
    · apply (h.fits u).transport (ha.threads u heq) ha.cpuCount ha.idleTask
      · exact fun c _ => ⟨ha.currentThread c, id⟩
      · exact fun b hp => by rw [ha.blockers b (h.blocker_lt hp).1]
      · exact fun b hcall => by rw [ha.blockers b (h.called u b (.inr hcall)).1]
  onCpu u hu hhand := by
    rw [ha.cpuCount] at hu
    rw [ha.currentThread]
    exact h.onCpu u hu hhand
  quiet u hu hhand hphase := by
    rw [ha.cpuCount] at hu
    rw [ha.currentThread]
    by_cases heq : u = cpu
    · rw [heq] at hphase ⊢
      exact ha.quiet hphase
    · rw [ha.phase u heq] at hphase
      rw [ha.threads]
      · exact h.quiet u hu hhand hphase
      · intro hsame
        have hrung := h.onCpu u hu hhand
        rw [hsame, h.onCpu cpu hcpu (by simp)] at hrung
        exact heq (Place.running.inj hrung).symm
  idle u hu := by
    rw [ha.cpuCount] at hu
    rw [ha.idleTask]
    exact h.idle u hu
  idle_unique := by
    simp only [ha.cpuCount, ha.idleTask]
    exact h.idle_unique
  fresh u hu := h.fresh u (ha.threadCount ▸ hu)
  called u b hcall := by
    by_cases heq : u = (k.cpus cpu).currentThread
    · rw [heq] at hcall ⊢
      exact ha.called b hcall
    · rw [ha.threads u heq] at hcall
      obtain ⟨hlt, ht⟩ := h.called u b hcall
      exact ⟨hlt.trans_le ha.blockerCount, by rw [ha.blockers b hlt, ht]⟩
  pending b := ha.pending b (h.pending b)
  unblocked b hb := by
    rw [ha.unblocked] at hb
    obtain ⟨hlt, hsh⟩ := h.unblocked b hb
    exact ⟨hlt.trans_le ha.blockerCount, by rw [ha.blockers b hlt, hsh]⟩

lemma Acts.sameOwners (h : Acts k k' cpu) : SameOwners k k' where
  owner := h.owner_eq
  processThreads _ := by rw [h.processes]
  idleTask := h.idleTask
  cpuCount := h.cpuCount
  threadCount := h.threadCount
  processCount := h.processCount
  mProcesses := h.mProcesses

lemma Counted.act (h : Counted k pl) (ha : Acts k k' cpu) : Counted k' pl :=
  h.same ha.sameOwners fun _ => by rw [ha.processes]

end Tasks

end UltraOS
