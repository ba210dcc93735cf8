import UltraOS.Multitasking.Scheduler.PickNext

/-!
# The actions of the threads

Every action that the callers may take succeeds and leaves each thread in a place of its own.
-/

namespace UltraOS.Tasks

open Function BlockCall

variable {k k' : Tasks} {p p' : Nat → Place} {cpu th b : Nat}

structure Sound (k : Tasks) (place : Nat → Place) : Prop where
  placed : Placed k place none
  counted : Counted k place
  killers : Killers k place

variable (h : Sound k p) (hcpu : cpu < k.cpuCount) (hexec : k.ExecutesTask cpu)

structure Steady (k k' : Tasks) (place place' : Nat → Place) : Prop where
  finished : ∀ thread, (place' thread).isFinished = (place thread).isFinished
  fresh : ∀ thread, place' thread = .fresh → place thread = .fresh
  ready : ∀ thread, place thread = .ready → place' thread = .ready
  queued : Queued k k' place

lemma Steady.of_eq (heq : k'.mReadyThreads = k.mReadyThreads) : Steady k k' p p where
  finished _ := rfl
  fresh _ h := h
  ready _ h := h
  queued := by
    rw [Queued, heq]
    exact Queue.Flows.refl _ _

lemma Steady.trans {k'' : Tasks} {p'' : Nat → Place} (h : Steady k k' p p')
    (h' : Steady k' k'' p' p'') : Steady k k'' p p'' where
  finished th := (h'.finished th).trans (h.finished th)
  fresh th hfresh := h.fresh th (h'.fresh th hfresh)
  ready th hready := h'.ready th (h.ready th hready)
  queued := h.queued.trans (h'.queued.mono fun u hu hready => hu (h.ready u hready))

lemma Steady.of_append (hfin : (p th).isFinished = false) (hready : p th ≠ .ready)
    (hqueue : k'.mReadyThreads = k.mReadyThreads ++ [th]) : Steady k k' p (update p th .ready) where
  finished u := by
    by_cases heq : u = th
    · rw [heq, update_self, hfin]
      rfl
    · rw [update_of_ne heq]
  fresh u hu := by
    by_cases heq : u = th
    · rw [heq, update_self] at hu
      cases hu
    · rwa [update_of_ne heq] at hu
  ready u hu := by
    by_cases heq : u = th
    · rw [heq, update_self]
    · rw [update_of_ne heq, hu]
  queued := by
    rw [Queued, hqueue]
    exact Queue.Flows.append _ hready

lemma Acts.state_eq (h : Acts k k' cpu) (th : Nat) : (k'.threads th).state = (k.threads th).state :=
  field_eq Thread.state h.threads h.state th

include h hcpu in
lemma Sound.act (ha : Acts k k' cpu) (hkill : (k'.threads (k.cpus cpu).currentThread).shouldKillAllThreads =
      (k.threads (k.cpus cpu).currentThread).shouldKillAllThreads)
    (hprocesses : ∀ q, (k'.processes q).state = (k.processes q).state) : Sound k' p where
  placed := h.placed.act hcpu ha
  counted := h.counted.act ha
  killers := h.killers.transport ha.owner_eq (field_eq _ ha.threads hkill)
    (fun q hstate => hprocesses q ▸ hstate) (fun _ hmem => ha.mProcesses ▸ hmem) (fun _ ht => ht)
    (fun th ht => .inl ⟨ht, ha.state_eq th⟩)

/-- What the scheduler does not look at may change, and processes may exit. -/
lemma Sound.withProcesses {processes : Nat → Process} (h : Sound k p) (hexits : k.Exits processes)
    (owners : List (Nat × Nat)) (unblockers : List Nat) :
    Sound { k with processes := processes, mutexOwners := owners, unblockers := unblockers } p where
  placed := { h.placed with fits := fun th => (fits_congr rfl rfl rfl rfl _).mpr (h.placed.fits th) }
  counted := h.counted.same ⟨fun _ => rfl, fun q => (hexits q).1, fun _ => rfl, rfl, rfl, rfl, rfl⟩
    fun q => (hexits q).2.1
  killers := h.killers.transport (fun _ => rfl) (fun _ => rfl) (fun q => (hexits q).2.2)
    (fun _ hmem => hmem) (fun _ ht => ht) (fun _ ht => .inl ⟨ht, rfl⟩)

lemma Placed.executing (h : Placed k p none) (hexec : k.Executes cpu) :
    (k.threads (k.cpus cpu).currentThread).requestedState = .undefined ∧
    (k.threads (k.cpus cpu).currentThread).blocker = none := by
  obtain ⟨-, -, -, hasks, -⟩ := h.fits_of (h.onCpu cpu hexec.1 (by simp))
  have hreq := h.quiet cpu hexec.1 (by simp) (.inl hexec.2)
  exact ⟨hreq, hasks.blocker_eq_none hreq⟩

variable {phase : CpuPhase}

section

def acted (k : Tasks) (cpu : Nat) (t : Thread) (phase : CpuPhase) : Tasks :=
  { k with
    threads := update k.threads (k.cpus cpu).currentThread t
    cpus := update k.cpus cpu { k.cpus cpu with phase := phase } }

lemma acted_current (k : Tasks) (cpu : Nat) (t : Thread) (phase : CpuPhase) :
    (acted k cpu t phase).threads (k.cpus cpu).currentThread = t :=
  update_self ..

variable {t : Thread}

lemma acts_acted (hstate : t.state = (k.threads (k.cpus cpu).currentThread).state)
    (howner : t.owner = (k.threads (k.cpus cpu).currentThread).owner) (hasks : Asks t)
    (hidles : (k.cpus cpu).idleTask = (k.cpus cpu).currentThread → t.requestedState = .undefined ∧ t.shouldDie = false)
    (hcalled : ∀ b, t.call = .preparing b ∨ t.call = .inside b → b < k.blockerCount ∧
    (k.blockers b).thread = (k.cpus cpu).currentThread) (hquiet : phase = .thread ∨ phase = .unlocked →
    t.requestedState = .undefined) : Acts k (acted k cpu t phase) cpu := by
  have hself := acted_current k cpu t phase
  have hcpu : (acted k cpu t phase).cpus cpu = { k.cpus cpu with phase := phase } := update_self ..
  have hu (u : Nat) (hne : u ≠ cpu) : (acted k cpu t phase).cpus u = k.cpus u := update_of_ne hne _ _
  exact
    { threads := fun u hne => update_of_ne hne _ _
      state := by rw [hself, hstate]
      owner := by rw [hself, howner]
      asks := by rw [hself]; exact hasks
      idles := by rw [hself]; exact hidles
      called := by rw [hself]; exact hcalled
      quiet := by rw [hself, hcpu]; exact hquiet
      blockers := fun _ _ => rfl
      blockerCount := le_rfl
      pending := fun _ hpend => hpend
      currentThread := field_eq Cpu.currentThread hu (by rw [hcpu])
      idleTask := field_eq Cpu.idleTask hu (by rw [hcpu])
      phase := fun u hne => by rw [hu u hne]
      toRests := ⟨rfl, rfl, rfl, rfl, rfl, rfl, rfl⟩ }

lemma Placed.acted_flags (h : Placed k p none) (hexec : k.ExecutesTask cpu)
    (ht : ∃ die kill code invulnerable, t = { k.threads (k.cpus cpu).currentThread with
        shouldDie := die, shouldKillAllThreads := kill, exitCode := code,
        isInvulnerable := invulnerable }) :
    Acts k (acted k cpu t phase) cpu := by
  obtain ⟨hreq, hb⟩ := h.executing hexec.1
  obtain ⟨die, kill, code, invulnerable, rfl⟩ := ht
  refine acts_acted rfl rfl (.inl ⟨hreq, hb⟩) ?_ ?_ ?_
  · exact fun hidle => absurd hidle.symm hexec.2
  · exact fun b hcall => h.called _ b hcall
  · exact fun _ => hreq

lemma block_eq (h : Placed k p none) (hexec : k.Executes cpu) : k.block cpu b = .ok (acted k cpu
      { k.threads (k.cpus cpu).currentThread with
        blocker := some b, call := .inside b, requestedState := .blocked } .scheduling) := by
  obtain ⟨hreq, hb⟩ := h.executing hexec
  rw [block]
  rw [assert_bind hb]
  simp [requestState, updateThread, enterScheduler, updateCpu, acted, hreq, pure_eq_ok]

include h hexec in
lemma Sound.block (hcall : k.currentCall cpu = .preparing b) : ∃ k', k.block cpu b =
    .ok k' ∧ Sound k' p ∧ k'.mReadyThreads = k.mReadyThreads := by
  have hcalled := h.placed.called _ b (.inl hcall)
  refine ⟨_, block_eq h.placed hexec.1, ?_, rfl⟩
  apply h.act hexec.1.1
  · refine acts_acted rfl rfl (.inr ⟨b, rfl, rfl, rfl⟩) ?_ ?_ ?_
    · exact fun hidle => absurd hidle.symm hexec.2
    · rintro u (heq | heq)
      · cases heq
      · obtain rfl := inside.inj heq
        exact hcalled
    · rintro (heq | heq) <;> cases heq
  · rw [acted_current]
  · exact fun _ => rfl

lemma prepare_current (k : Tasks) (cpu : Nat) (type : BlockerType) (wakeTime : Nat) :
    (k.prepare cpu type wakeTime).threads (k.cpus cpu).currentThread =
    { k.threads (k.cpus cpu).currentThread with call := .preparing k.blockerCount } :=
  update_self ..

lemma acts_prepare (h : Placed k p none) (hexec : k.Executes cpu) (type : BlockerType)
    (wakeTime : Nat) : Acts k (k.prepare cpu type wakeTime) cpu := by
  have hself := prepare_current k cpu type wakeTime
  have hnew : (k.prepare cpu type wakeTime).blockers k.blockerCount =
      { thread := (k.cpus cpu).currentThread, type := type, wakeTime := wakeTime } :=
    update_self ..
  have hold (u : Nat) (hne : u ≠ k.blockerCount) : (k.prepare cpu type wakeTime).blockers u = k.blockers u :=
    update_of_ne hne _ _
  obtain ⟨hreq, hb⟩ := h.executing hexec
  obtain ⟨-, -, -, -, hidle⟩ := h.fits_of (h.onCpu cpu hexec.1 (by simp))
  refine
    { threads := fun u hne => update_of_ne hne _ _
      state := by rw [hself]
      owner := by rw [hself]
      asks := by rw [hself]; exact .inl ⟨hreq, hb⟩
      idles := by rw [hself]; exact hidle
      called := ?_
      quiet := fun _ => by rw [hself]; exact hreq
      blockers := fun u hlt => hold u hlt.ne
      blockerCount := Nat.le_succ _
      pending := ?_
      currentThread := fun _ => rfl
      idleTask := fun _ => rfl
      phase := fun _ _ => rfl
      toRests := ⟨rfl, rfl, rfl, rfl, rfl, rfl, rfl⟩ }
  · rw [hself]
    rintro b (heq | heq)
    · obtain rfl := preparing.inj heq
      exact ⟨lt_add_one _, by rw [hnew]⟩
    · cases heq
  · intro b hpend
    by_cases heq : b = k.blockerCount
    · rw [heq, hnew]
      exact fun _ => rfl
    · rwa [hold b heq]

lemma Sound.prepare (h : Sound k p) (hexec : k.Executes cpu) (type : BlockerType)
    (wakeTime : Nat) : Sound (k.prepare cpu type wakeTime) p := by
  apply h.act hexec.1 (acts_prepare h.placed hexec type wakeTime)
  · rw [prepare_current]
  · exact fun _ => rfl

include h hexec

lemma Sound.sleep (wakeTime : Nat) :
    ∃ k', k.sleep cpu wakeTime = .ok k' ∧ Sound k' p ∧ k'.mReadyThreads = k.mReadyThreads := by
  rw [Tasks.sleep]
  apply (h.prepare hexec.1 .sleep wakeTime).block
  · exact hexec
  · exact congrArg Thread.call (prepare_current k cpu .sleep wakeTime)

lemma Sound.returnFromBlock : Sound (k.returnFromBlock cpu) p := by
  obtain ⟨hreq, hb⟩ := h.placed.executing hexec.1
  have heq : k.returnFromBlock cpu = acted k cpu
      { k.threads (k.cpus cpu).currentThread with call := .outside } (k.cpus cpu).phase := by
    rw [acted, update_eq_self]
    rfl
  rw [heq]
  apply h.act hexec.1.1
  · refine acts_acted rfl rfl (.inl ⟨hreq, hb⟩) ?_ ?_ ?_
    · exact fun hidle => absurd hidle.symm hexec.2
    · rintro b (hcall | hcall) <;> cases hcall
    · exact fun _ => hreq
  · rw [acted_current]
  · exact fun _ => rfl

end

section

variable {hand : Option Nat}

lemma Placed.setResult (h : Placed k p hand) (hnone : ∀ th, p th ≠ .blocked b) (res : BlockResult) :
    Placed (k.setResult b res) p hand := by
  have hadvances (u : Nat) : (k.blockers u).Advances
      ((k.setResult b res).blockers u) := update_setResult k.blockers b res u
  have hoth (u : Nat) (hne : u ≠ b) : (k.setResult b res).blockers u = k.blockers u := update_of_ne hne _ _
  refine { h with sleeping := fun u => ?_, fits := fun th => ?_, called := fun th u hcall => ?_,
                  pending := fun u => (hadvances u).pending (h.pending u),
                  unblocked := fun u hu => ?_ }
  · rw [(hadvances u).thread, (hadvances u).type]
    exact h.sleeping u
  · refine (h.fits th).transport rfl rfl (fun _ => rfl) (fun _ _ => ⟨rfl, id⟩) (fun u hp => ?_)
      fun u _ => (hadvances u).type
    rw [hoth u fun heq => hnone th (heq ▸ hp)]
  · rw [(hadvances u).thread]
    exact h.called th u hcall
  · obtain ⟨hlt, hsh⟩ := h.unblocked u hu
    exact ⟨hlt, (hadvances u).resolved hsh⟩

lemma Placed.note (h : Placed k p hand) (hlt : b < k.blockerCount) (hsh : (k.blockers b).shouldBlock = false)
    (unblockers : List Nat) : Placed { k with unblockers := unblockers, unblocked := b :: k.unblocked } p hand := by
  refine { h with fits := fun th => (fits_congr rfl rfl rfl rfl _).mpr (h.fits th),
                  unblocked := fun u hu => ?_ }
  rcases List.mem_cons.mp hu with rfl | hu
  · exact ⟨hlt, hsh⟩
  · exact h.unblocked u hu

lemma setResult_shouldBlock (hpend : (k.blockers b).Pending) (res : BlockResult) :
    ((k.setResult b res).blockers b).shouldBlock = false := by
  have hself : (k.setResult b res).blockers b = (k.blockers b).setResult res := update_self ..
  rw [hself, Blocker.setResult]
  split
  · rfl
  · rename_i hres
    cases hsh : (k.blockers b).shouldBlock with
    | false => rfl
    | true => exact absurd (hpend hsh) hres

lemma Placed.place_of_blocked (h : Placed k p none) (hstate : (k.threads th).state = .blocked) :
    (∃ b, p th = .blocked b) ∨ p th = .freed := by
  have hfits := h.fits th
  cases hp : p th with
  | blocked b => exact .inl ⟨b, rfl⟩
  | freed => exact .inr rfl
  | fresh | idle | ready | running cpu | deferred => simp_all [Fits]

lemma Placed.place_of_inUse (h : Placed k p none) (huse : k.InUse b)
    (hstate : (k.threads (k.blockers b).thread).state = .blocked) : p (k.blockers b).thread = .blocked b := by
  obtain ⟨hlt, htype, hcall⟩ := huse
  have hfits := h.fits (k.blockers b).thread
  rcases h.place_of_blocked hstate with ⟨u, hp⟩ | hp
  · rw [hp] at hfits ⊢
    obtain ⟨-, -, -, hin, -⟩ := hfits
    rw [hin] at hcall
    rcases hcall with heq | heq
    · cases heq
    · rw [inside.inj heq]
  · rw [hp] at hfits
    obtain ⟨u, -, hin, hsleep⟩ := hfits.2 hstate
    rw [hin] at hcall
    rcases hcall with heq | heq
    · cases heq
    · rw [inside.inj heq] at hsleep
      exact absurd hsleep htype

lemma Sound.note (h : Sound k p) (hlt : b < k.blockerCount) (hsh : (k.blockers b).shouldBlock = false)
    (unblockers : List Nat) : Sound { k with unblockers := unblockers, unblocked := b :: k.unblocked } p where
  placed := h.placed.note hlt hsh unblockers
  counted := h.counted.same ⟨fun _ => rfl, fun _ => rfl, fun _ => rfl, rfl, rfl, rfl, rfl⟩ fun _ => rfl
  killers :=
    h.killers.transport (fun _ => rfl) (fun _ => rfl) (fun _ hstate => hstate) (fun _ hmem => hmem)
      (fun _ ht => ht) (fun _ ht => .inl ⟨ht, rfl⟩)

lemma Sound.unblock (h : Sound k p) (huse : k.InUse b) :
    ∃ k' p', k.unblock b = .ok k' ∧ Sound k' p' ∧ Steady k k' p p' := by
  have hsh := setResult_shouldBlock (h.placed.pending b) .unblocked
  by_cases hstate : (k.threads (k.blockers b).thread).state = .blocked
  · have hp := h.placed.place_of_inUse huse hstate
    have hwoken : Sound (woken k (k.blockers b).thread b .unblocked) (update p (k.blockers b).thread .ready) :=
      ⟨h.placed.wake hp .unblocked, h.counted.wake h.placed hp .unblocked,
        h.killers.spare (spares_woken h.placed hp .unblocked)⟩
    refine ⟨_, _, ?_, hwoken.note huse.1 hsh (k.unblockers.erase b),
      Steady.of_append (by rw [hp]; rfl) (by simp [hp]) rfl⟩
    obtain ⟨-, -, hb, -, hblocks⟩ := h.placed.fits_of hp
    have hawake : b ∉ k.mSleepingThreads := by
      rw [h.placed.sleeping]
      exact fun hsleeping => huse.2.1 hsleeping.2
    rw [Tasks.unblock, unblockUnchecked_blocked (by rfl) (by exact hstate) (by exact hb) (by exact hblocks)
      (by exact h.placed.isOnAList_eq_false (by simp [hp]) (by simp [hp]) (by simp [hp])),
      woken, List.erase_of_not_mem hawake]
  · have hnone (th : Nat) : p th ≠ .blocked b := by
      intro hp
      have hfits := h.placed.fits_of hp
      rw [(h.placed.blocker_lt hp).2, hfits.1] at hstate
      exact hstate rfl
    have hset : Sound (k.setResult b .unblocked) p :=
      ⟨h.placed.setResult hnone .unblocked,
        h.counted.same ⟨fun _ => rfl, fun _ => rfl, fun _ => rfl, rfl, rfl, rfl, rfl⟩ fun _ => rfl,
        h.killers.transport (fun _ => rfl) (fun _ => rfl) (fun _ hstate => hstate) (fun _ hmem => hmem)
          (fun _ ht => ht) (fun _ ht => .inl ⟨ht, rfl⟩)⟩
    refine ⟨_, p, ?_, hset.note huse.1 hsh (k.unblockers.erase b), Steady.of_eq rfl⟩
    rw [Tasks.unblock, unblockUnchecked]
    rw [if_pos hstate]
    rfl

end

section

include h hexec in
lemma Sound.exitThread (code : Int) : Sound (k.exitThread cpu code) p := by
  have heq : k.exitThread cpu code = acted k cpu
      { k.threads (k.cpus cpu).currentThread with shouldDie := true, exitCode := code }
      .scheduling := rfl
  rw [heq]
  apply h.act hexec.1.1 (h.placed.acted_flags hexec ⟨_, _, _, _, rfl⟩)
  · rw [acted_current]
  · exact fun _ => rfl

include h hexec in
lemma Sound.registered : k.Registered (k.cpus cpu).currentThread := by
  have hp := h.placed.onCpu cpu hexec.1.1 (by simp)
  apply h.counted.isRegistered
  · rw [hp]
    rfl
  · intro u hu heq
    rw [h.placed.idleTask_cpu hp hu heq] at heq
    exact hexec.2 heq.symm

variable {q : Nat}

lemma exitProcessWith_first (halive : (k.processes q).state = .alive) (code : Int)
    : (k.exitProcessWith q code).2 = true := by
  rw [exitProcessWith, if_pos halive]

lemma exitProcessWith_not_first (halive : (k.processes q).state ≠ .alive) (code : Int)
    : k.exitProcessWith q code = (k, false) := by
  rw [exitProcessWith, if_neg halive]

lemma exitProcessWith_state (k : Tasks) (q : Nat) (code : Int) :
    ((k.exitProcessWith q code).1.processes q).state ≠ .alive := by
  rw [exitProcessWith]
  split
  · simp [updateProcess]
  · rename_i halive
    exact halive

lemma Killers.appoint {cur : Nat} (hk : Killers k p) (halive : (k.processes (k.threads cur).owner).state = .alive)
    (hmem : (k.threads cur).owner ∈ k.mProcesses) (howner : ∀ th, (k'.threads th).owner = (k.threads th).owner)
    (hkill : ∀ th, (k'.threads th).shouldKillAllThreads = true ↔ th = cur ∨ (k.threads th).shouldKillAllThreads = true)
    (hstate : ∀ th, (k'.threads th).state = (k.threads th).state)
    (hexiting : (k'.processes (k.threads cur).owner).state ≠ .alive) (hoth : ∀ q, (k.processes q).state ≠ .alive →
    (k'.processes q).state ≠ .alive) (hreg : k'.mProcesses = k.mProcesses) : Killers k' p := by
  -- No other thread of the process is its killer yet.
  have hnone (th : Nat) (ht : (k.threads th).shouldKillAllThreads = true)
      (hsame : (k.threads th).owner = (k.threads cur).owner) : False :=
    (hk.exiting th ht).2 (hsame ▸ halive)
  refine ⟨fun th thread' ht hthread' hsame => ?_, fun th ht => ?_, fun th ht => ?_⟩
  · rw [hkill] at ht hthread'
    rw [howner, howner] at hsame
    rcases ht with rfl | ht
    · rcases hthread' with rfl | hthread'
      · rfl
      · exact (hnone thread' hthread' hsame.symm).elim
    · rcases hthread' with rfl | hthread'
      · exact (hnone th ht hsame).elim
      · exact hk.unique th thread' ht hthread' hsame
  · rw [howner, hreg]
    rcases (hkill th).mp ht with rfl | ht
    · exact ⟨hmem, hexiting⟩
    · obtain ⟨howned, hp⟩ := hk.exiting th ht
      exact ⟨howned, hoth _ hp⟩
  · rw [hstate]
    refine (hk.dead th ht).imp_right ?_
    rintro ⟨killer, hsame, hflag, hfin⟩
    exact ⟨killer, by rw [howner, howner, hsame], (hkill killer).mpr (.inr hflag), hfin⟩

lemma exitProcess_mReadyThreads (k : Tasks) (cpu : Nat) (code : Int) :
    (k.exitProcess cpu code).mReadyThreads = k.mReadyThreads := by
  by_cases halive : (k.processes (k.threads (k.cpus cpu).currentThread).owner).state = .alive
  · simp [Tasks.exitProcess, exitProcessWith, halive, updateProcess, updateThread, exitWith, enterScheduler, updateCpu]
  · simp [Tasks.exitProcess, exitProcessWith, halive, updateThread, exitWith, enterScheduler, updateCpu]

include h hexec

lemma Sound.exitProcess (code : Int) : Sound (k.exitProcess cpu code) p := by
  by_cases halive : (k.processes (k.threads (k.cpus cpu).currentThread).owner).state = .alive
  · obtain ⟨processes, hk1, hexits⟩ := exitProcessWith_eq k (k.threads (k.cpus cpu).currentThread).owner code
    have hexit : k.exitProcess cpu code = acted { k with processes := processes } cpu
        { k.threads (k.cpus cpu).currentThread with
          shouldKillAllThreads := true, shouldDie := true, exitCode := code } .scheduling := by
      rw [Tasks.exitProcess]
      dsimp only
      rw [exitProcessWith_first halive, if_pos rfl, hk1]
      simp [exitWith, updateThread, enterScheduler, updateCpu, acted]
    have hacts : Acts { k with processes := processes } (k.exitProcess cpu code) cpu := by
      rw [hexit]
      exact (h.placed.withProcesses processes).acted_flags hexec ⟨_, _, _, _, rfl⟩
    refine ⟨(h.placed.withProcesses processes).act hexec.1.1 hacts, (h.counted.withProcesses hexits).act hacts, ?_⟩
    have hstate := exitProcessWith_state k (k.threads (k.cpus cpu).currentThread).owner code
    rw [hk1] at hstate
    apply h.killers.appoint halive (h.registered hexec).2 hacts.owner_eq
    · intro th
      by_cases heq : th = (k.cpus cpu).currentThread
      · rw [heq, hexit, acted_current]
        simp
      · rw [hacts.threads th heq, or_iff_right heq]
    · exact hacts.state_eq
    · rwa [hexit]
    · intro q hp
      rw [hexit]
      exact (hexits q).2.2 hp
    · rw [hexit]
      rfl
  · have hexit : k.exitProcess cpu code = k.exitThread cpu code := by
      rw [Tasks.exitProcess]
      rw [exitProcessWith_not_first halive]
      rfl
    rw [hexit]
    exact h.exitThread hexec code

lemma Sound.crash (code : Int) : Sound (k.crash cpu code) p := by
  have hexits : (k.exitProcess cpu (-code)).Exits (k.crash cpu code).processes := by
    intro q
    by_cases heq : q = ((k.exitProcess cpu (-code)).threads (k.cpus cpu).currentThread).owner
    · simp [Tasks.crash, updateProcess, heq]
    · simp [Tasks.crash, updateProcess, update_of_ne heq]
  exact (h.exitProcess hexec (-code)).withProcesses hexits _ _

end

include h hcpu in
lemma Sound.advance {stack : Nat} {lock : Option Nat} (hquiet : phase = .thread ∨ phase = .unlocked →
      (k.threads (k.cpus cpu).currentThread).requestedState = .undefined) : Sound (advanced k cpu phase stack lock) p :=
  h.act hcpu (h.placed.acts_advanced hcpu hquiet) rfl fun _ => rfl

lemma Sound.tick (h : Sound k p) (hexec : k.Executes cpu) : Sound (k.enterScheduler cpu) p := by
  have heq : k.enterScheduler cpu = advanced k cpu .scheduling (k.cpus cpu).stack k.queuesLock := rfl
  rw [heq]
  apply h.advance hexec.1
  rintro (hphase | hphase) <;> cases hphase

include h hcpu in
lemma Sound.acquire : Sound (k.acquire cpu) p := by
  have heq : k.acquire cpu = advanced k cpu .locked (k.cpus cpu).stack (some cpu) := rfl
  rw [heq]
  apply h.advance hcpu
  rintro (hphase | hphase) <;> cases hphase

include h hcpu in
lemma Sound.switchTask (hphase : (k.cpus cpu).phase = .unlocked) : Sound (k.switchTask cpu) p := by
  have heq : k.switchTask cpu = advanced k cpu .thread (k.cpus cpu).currentThread k.queuesLock := rfl
  rw [heq]
  apply h.advance hcpu
  exact fun _ => h.placed.quiet cpu hcpu (by simp) (.inr hphase)

include h hexec in
lemma Sound.setInvulnerable (v : Bool) : Sound (k.setInvulnerable cpu v) p := by
  have heq : k.setInvulnerable cpu v = acted k cpu
      { k.threads (k.cpus cpu).currentThread with isInvulnerable := v } (k.cpus cpu).phase := by
    rw [acted, update_eq_self]
    rfl
  rw [heq]
  apply h.act hexec.1.1 (h.placed.acted_flags hexec ⟨_, _, _, _, rfl⟩)
  · rw [acted_current]
  · exact fun _ => rfl

lemma Sound.withMutexes (h : Sound k p) (owners : List (Nat × Nat)) (unblockers : List Nat) :
    Sound { k with mutexOwners := owners, unblockers := unblockers } p :=
  h.withProcesses (fun _ => ⟨rfl, rfl, id⟩) owners unblockers

end UltraOS.Tasks
