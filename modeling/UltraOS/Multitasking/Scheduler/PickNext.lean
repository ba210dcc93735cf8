import UltraOS.Multitasking.Scheduler.Kill

/-!
# The section of `pick_next`

The current thread of the CPU dies, or gets the state it has asked for, and then makes room for the next
one. It is the only thread that can leave its CPU.
-/

namespace UltraOS.Tasks

open List Function Spares

variable {k k' : Tasks} {pl : Nat → Place} {cpu cur blocker : Nat} {u : Nat}
  (h : Placed k pl (some cpu)) (hc : Counted k pl) (hcpu : cpu < k.cpuCount)
  (hcur : (k.cpus cpu).currentThread = cur) (hp : pl cur = .running cpu)

section

lemma Placed.enter (h : Placed k pl none) (cpu : Nat) : Placed k pl (some cpu) :=
  { h with
    fits := fun t => (h.fits t).transport rfl rfl (fun _ => rfl) (fun _ _ => ⟨rfl, by simp⟩)
      (fun _ _ => rfl) (fun _ _ => rfl)
    onCpu := fun u hu _ => h.onCpu u hu (by simp)
    quiet := fun u hu _ => h.quiet u hu (by simp) }

def parked (k : Tasks) (current blocker : Nat) : Tasks :=
  { k with
    threads := update k.threads current { k.threads current with state := .blocked, requestedState := .undefined }
    mSleepingThreads :=
      if (k.blockers blocker).type = .sleep then (k.insertSleeping blocker).mSleepingThreads
      else k.mSleepingThreads }

def resumed (k : Tasks) (current : Nat) : Tasks :=
  { k with
    threads := update k.threads current { k.threads current with blocker := none, requestedState := .undefined } }

variable (hreq : (k.threads cur).requestedState = .blocked) (hb : (k.threads cur).blocker = some blocker)

include hreq hb in
lemma applyRequest_parked (hsh : (k.blockers blocker).shouldBlock = true) :
    k.applyRequest cur = .ok (parked k cur blocker) := by
  rw [applyRequest]
  rw [hreq]
  rw [hb]
  dsimp only
  rw [if_pos hsh]
  by_cases hsleep : (k.blockers blocker).type = .sleep
  · have hsleep' : ((k.setState cur .blocked).blockers blocker).type = .sleep := hsleep
    rw [if_pos hsleep', parked, if_pos hsleep, SleepQueue.emplace, instSleepQueueListNat]
    simp [requestState, updateThread, setState, insertSleeping, hreq, pure_eq_ok]
  · have hsleep' : ¬ ((k.setState cur .blocked).blockers blocker).type = .sleep := hsleep
    rw [if_neg hsleep', parked, if_neg hsleep]
    simp [requestState, updateThread, setState, hreq, pure_eq_ok]

include hreq hb in
lemma applyRequest_resumed (hsh : (k.blockers blocker).shouldBlock = false)
    (hstate : (k.threads cur).state = .running) : k.applyRequest cur = .ok (resumed k cur) := by
  rw [applyRequest]
  rw [hreq]
  rw [hb]
  dsimp only
  rw [hsh, if_neg (by simp), threadUnblock, hb]
  dsimp only
  rw [hsh, if_neg (by simp), ok_bind, resumed]
  simp [requestState, updateThread, hreq, hstate, pure_eq_ok]

lemma insertSleeping_perm (k : Tasks) (blocker : Nat) :
    (k.insertSleeping blocker).mSleepingThreads.Perm (blocker :: k.mSleepingThreads) := by
  unfold insertSleeping
  apply perm_middle.trans
  rw [takeWhile_append_dropWhile]

variable {hand : Option Nat}

lemma Placed.idleTask_cpu (h : Placed k pl hand) (hp : pl cur = .running cpu)
    (hu : u < k.cpuCount) (heq : (k.cpus u).idleTask = cur) : u = cpu := by
  rcases h.idle u hu with hidle | hrung
  · rw [heq, hp] at hidle
    cases hidle
  · rw [heq, hp] at hrung
    exact (Place.running.inj hrung).symm

lemma Placed.ne_idle_of_requested (h : Placed k pl hand) (hp : pl cur = .running cpu)
    (hreq : (k.threads cur).requestedState = .blocked) : ∀ u < k.cpuCount, (k.cpus u).idleTask ≠ cur := by
  intro u hu heq
  obtain ⟨-, -, -, -, hidle⟩ := h.fits_of hp
  rw [h.idleTask_cpu hp hu heq] at heq
  rw [(hidle heq).1] at hreq
  cases hreq

lemma frame_parked (k : Tasks) (cur blocker : Nat) : Frame k (parked k cur blocker) cur :=
  .of_update rfl rfl rfl (fun _ => rfl) rfl

include h hp hreq hb in
lemma Placed.park (hcall : (k.threads cur).call = .inside blocker) (hsh : (k.blockers blocker).shouldBlock = true) :
    Placed (parked k cur blocker) (update pl cur (.blocked blocker)) (some cpu) := by
  have ht := (h.called cur blocker (.inr hcall)).2
  have hawake : blocker ∉ k.mSleepingThreads := by
    rw [h.sleeping, ht, hp]
    simp
  apply h.move (frame_parked k cur blocker)
  · exact h.ready.keep (by simp [hp]) (by simp)
  · exact h.deferred.keep (by simp [hp]) (by simp)
  · exact h.freed.keep (by simp [hp]) (by simp)
  · intro u
    have hu : update pl cur (.blocked blocker) (k.blockers u).thread =
        .blocked u ↔ u = blocker ∨ pl (k.blockers u).thread = .blocked u := by
      by_cases heq : (k.blockers u).thread = cur
      · rw [heq, update_self, hp, Place.blocked.injEq, eq_comm]
        simp
      · rw [update_of_ne heq]
        refine (or_iff_right ?_).symm
        rintro rfl
        exact heq ht
    rw [hu]
    by_cases hsleep : (k.blockers blocker).type = .sleep
    · rw [parked, if_pos hsleep, (insertSleeping_perm k blocker).mem_iff, mem_cons, h.sleeping, or_and_right]
      refine or_congr_left ⟨?_, fun hsame => hsame.1⟩
      rintro rfl
      exact ⟨rfl, hsleep⟩
    · rw [parked, if_neg hsleep, h.sleeping, or_and_right, or_iff_right]
      rintro ⟨rfl, hsame⟩
      exact hsleep hsame
  · rw [parked]
    split
    · exact (insertSleeping_perm k blocker).nodup_iff.mpr (nodup_cons.mpr ⟨hawake, h.sleeping_nodup⟩)
    · exact h.sleeping_nodup
  · simp [Fits, parked, hb, hcall, hsh]
  · exact h.loose_current hp fun u hu heq => absurd heq (h.ne_idle_of_requested hp hreq u hu)

include hc hp in
lemma Counted.park (blocker : Nat) : Counted (parked k cur blocker) (update pl cur (.blocked blocker)) :=
  hc.keep (frame_parked k cur blocker).sameOwners (by simp [hp]) (by rw [hp]; rfl) fun _ => rfl

include hp in
lemma spares_parked (blocker : Nat) : Spares k (parked k cur blocker) pl (update pl cur (.blocked blocker)) :=
  of_update (frame_parked k cur blocker) (by rw [hp]; rfl) rfl (by simp [hp]) (by simp)
    (by simp [parked]) (by simp [parked]) rfl rfl

lemma frame_resumed (k : Tasks) (cur : Nat) : Frame k (resumed k cur) cur := .of_update rfl rfl rfl (fun _ => rfl) rfl

include h hp hreq in
lemma Placed.resume : Placed (resumed k cur) pl (some cpu) := by
  obtain ⟨hcpu, hcur, -, -, -⟩ := h.fits_of hp
  have hidle := h.ne_idle_of_requested hp hreq
  have hmoved : Placed (resumed k cur) (update pl cur (pl cur)) (some cpu) := by
    rw [hp]
    refine h.shift (frame_resumed k cur) hp (by simp) rfl ?_ ?_
    · refine ⟨hcpu, hcur, fun hne => absurd rfl hne, .inl ?_, fun heq => absurd heq (hidle cpu hcpu)⟩
      simp [resumed]
    · exact h.loose_current hp fun u hu heq => absurd heq (hidle u hu)
  rwa [update_eq_self] at hmoved

include hp in
lemma spares_resumed : Spares k (resumed k cur) pl pl := by
  have hspares : Spares k (resumed k cur) pl (update pl cur (.running cpu)) :=
    of_update (frame_resumed k cur) (by rw [hp]; rfl) rfl (by simp [hp]) (by simp)
      (by simp [resumed]) (by simp [resumed]) rfl rfl
  rwa [← hp, update_eq_self] at hspares

include h hc hp in
lemma applyRequest_spec (hstate : (k.threads cur).state = .running) :
    ∃ k' p', k.applyRequest cur = .ok k' ∧ Placed k' p' (some cpu) ∧ Counted k' p' ∧
      Spares k k' pl p' ∧ k'.cpus = k.cpus ∧ k'.cpuCount = k.cpuCount ∧ k'.mReadyThreads = k.mReadyThreads ∧
      (p' cur = .running cpu ∧ (k'.threads cur).state = .running ∧ (k'.threads cur).requestedState = .undefined ∨
        (k'.threads cur).state = .blocked ∧ ∃ blocker, p' cur = .blocked blocker) := by
  obtain ⟨-, -, -, hasks, -⟩ := h.fits_of hp
  rcases hasks with ⟨hreq, -⟩ | ⟨blocker, hreq, hb, hcall⟩
  · refine ⟨k, pl, ?_, h, hc, refl k pl, rfl, rfl, rfl, .inl ⟨hp, hstate, hreq⟩⟩
    rw [applyRequest]
    rw [hreq]
  · cases hsh : (k.blockers blocker).shouldBlock with
    | true =>
      refine ⟨_, _, applyRequest_parked hreq hb hsh, h.park hp hreq hb hcall hsh, hc.park hp blocker,
        spares_parked hp blocker, rfl, rfl, rfl, .inr ⟨?_, blocker, update_self ..⟩⟩
      simp [parked]
    | false =>
      refine ⟨_, pl, applyRequest_resumed hreq hb hsh hstate,
        h.resume hp hreq, ?_, ?_, rfl, rfl, rfl, .inl ⟨hp, ?_, ?_⟩⟩
      · exact hc.same (frame_resumed k cur).sameOwners fun _ => rfl
      · exact spares_resumed hp
      · simp [resumed, hstate]
      · simp [resumed]

end

variable {p' : Nat → Place} {k'' : Tasks}

section

def taken (k : Tasks) (cpu thread : Nat) : Tasks :=
  { k with
    threads := update k.threads thread { k.threads thread with state := .running }
    cpus := update k.cpus cpu { k.cpus cpu with currentThread := thread }
    mReadyThreads := k.mReadyThreads.erase thread }

section

variable (k cpu) (t : Nat)

lemma taken_threads_self : (taken k cpu t).threads t = { k.threads t with state := .running } := update_self ..

lemma taken_threads_of_ne (hne : u ≠ t) : (taken k cpu t).threads u = k.threads u := update_of_ne hne _ _

lemma taken_cpus_self : (taken k cpu t).cpus cpu = { k.cpus cpu with currentThread := t } := update_self ..

lemma taken_cpus_of_ne (hne : u ≠ cpu) : (taken k cpu t).cpus u = k.cpus u := update_of_ne hne _ _

lemma taken_idleTask (u : Nat) : ((taken k cpu t).cpus u).idleTask = (k.cpus u).idleTask :=
  field_eq _ (fun _ => taken_cpus_of_ne k cpu t) (by rw [taken_cpus_self]) u

lemma taken_call (u : Nat) : ((taken k cpu t).threads u).call = (k.threads u).call :=
  field_eq _ (fun _ => taken_threads_of_ne k cpu t) (by rw [taken_threads_self]) u

lemma taken_owner (u : Nat) : ((taken k cpu t).threads u).owner = (k.threads u).owner :=
  field_eq _ (fun _ => taken_threads_of_ne k cpu t) (by rw [taken_threads_self]) u

end

def Offered (k : Tasks) (place : Nat → Place) (cpu thread : Nat) : Prop :=
  place thread = .ready ∨ place thread = .idle ∧ (k.cpus cpu).idleTask = thread

variable {t : Nat} (hoff : Offered k pl cpu t) (hleft : ∀ u, pl u ≠ .running cpu)

lemma Offered.place_ne {p : Place} (h : Offered k pl cpu t) (hready : p ≠ .ready) (hidle : p ≠ .idle) : pl t ≠ p := by
  rcases h with hp | ⟨hp, -⟩
  · exact hp ▸ hready.symm
  · exact hp ▸ hidle.symm

include h hoff in
lemma Placed.offered_calm : (k.threads t).state = .ready ∧
    (k.threads t).requestedState = .undefined ∧ (k.threads t).blocker = none := by
  have hfits := h.fits t
  rcases hoff with hp | ⟨hp, -⟩
  · rwa [hp] at hfits
  · rw [hp] at hfits
    exact ⟨hfits.1, hfits.2.1, hfits.2.2.1⟩

include h hcpu hoff in
lemma Placed.fits_taken_self : Fits (taken k cpu t) none t (.running cpu) := by
  obtain ⟨-, hreq, hb⟩ := h.offered_calm hoff
  rw [Fits, taken_cpus_self, taken_threads_self]
  refine ⟨hcpu, rfl, fun _ => rfl, .inl ⟨hreq, hb⟩, fun hidle => ⟨hreq, ?_⟩⟩
  have hfits := h.fits t
  rcases hoff with hp | ⟨hp, -⟩
  · -- The idle task is not in the ready queue.
    have hcases := h.idle cpu hcpu
    rw [show (k.cpus cpu).idleTask = t from hidle, hp] at hcases
    rcases hcases with heq | heq <;> cases heq
  · rw [hp] at hfits
    exact hfits.2.2.2.1

include h hleft in
lemma Placed.fits_taken_other (hne : u ≠ t) : Fits (taken k cpu t) none u (pl u) := by
  apply (h.fits u).transport (taken_threads_of_ne k cpu t hne) rfl (taken_idleTask k cpu t)
  · intro c hp
    have hnec : c ≠ cpu := fun heq => hleft u (heq ▸ hp)
    exact ⟨by rw [taken_cpus_of_ne k cpu t hnec], fun heq => absurd (Option.some.inj heq).symm hnec⟩
  · exact fun _ _ => rfl
  · exact fun _ _ => rfl

include h hcpu hoff hleft in
lemma Placed.take : Placed (taken k cpu t) (update pl t (.running cpu)) none where
  ready := h.ready.erase (by simp)
  deferred := h.deferred.keep (hoff.place_ne (by simp) (by simp)) (by simp)
  freed := h.freed.keep (hoff.place_ne (by simp) (by simp)) (by simp)
  sleeping := by rcases hoff with hp | ⟨hp, -⟩ <;> exact h.sleeping_unsleep hp (by simp)
  sleeping_nodup := h.sleeping_nodup
  fits u := by
    by_cases heq : u = t
    · rw [heq, update_self]
      exact h.fits_taken_self hcpu hoff
    · rw [update_of_ne heq]
      exact h.fits_taken_other hleft heq
  onCpu u hu _ := by
    by_cases heq : u = cpu
    · rw [heq, taken_cpus_self, update_self]
    · have hcur := h.onCpu u hu (by simpa using Ne.symm heq)
      rw [taken_cpus_of_ne k cpu t heq, update_of_ne]
      · exact hcur
      · intro hsame
        rw [hsame] at hcur
        exact hoff.place_ne (by simp) (by simp) hcur
  quiet u hu _ hphase := by
    by_cases heq : u = cpu
    · rw [heq, taken_cpus_self, taken_threads_self]
      exact (h.offered_calm hoff).2.1
    · rw [taken_cpus_of_ne k cpu t heq] at hphase ⊢
      have hhand : some cpu ≠ some u := by simpa using Ne.symm heq
      have hcur := h.onCpu u hu hhand
      rw [taken_threads_of_ne]
      · exact h.quiet u hu hhand hphase
      · intro hsame
        rw [hsame] at hcur
        exact hoff.place_ne (by simp) (by simp) hcur
  idle u hu := by
    rw [taken_idleTask]
    by_cases heq : (k.cpus u).idleTask = t
    · rw [heq, update_self]
      right
      rcases hoff with hp | ⟨-, hidle⟩
      · have hcases := h.idle u hu
        rw [heq, hp] at hcases
        rcases hcases with hcase | hcase <;> cases hcase
      · rw [h.idle_unique u hu cpu hcpu (heq.trans hidle.symm)]
    · rw [update_of_ne heq]
      exact h.idle u hu
  idle_unique := by
    simp only [taken_idleTask]
    exact h.idle_unique
  fresh u hu := by
    rw [update_of_ne]
    · exact h.fresh u hu
    · rintro rfl
      exact hoff.place_ne (by simp) (by simp) (h.fresh u hu)
  called u blocker hcall := by
    rw [taken_call] at hcall
    exact h.called u blocker hcall
  pending := h.pending
  unblocked := h.unblocked

lemma taken_sameOwners (k : Tasks) (cpu t : Nat) : SameOwners k (taken k cpu t) where
  owner := taken_owner k cpu t
  processThreads _ := rfl
  idleTask := taken_idleTask k cpu t
  cpuCount := rfl
  threadCount := rfl
  processCount := rfl
  mProcesses := rfl

include hc hcpu in
lemma Counted.idle_notMem (hidle : (k.cpus cpu).idleTask = t) {p : Nat}
    (hpr : p ∈ k.mProcesses) : t ∉ (k.processes p).threads := by
  intro hmem
  have howner := hc.idle cpu hcpu
  have hlarge := (hc.registered p hpr).1
  rw [hidle, hc.owner p t hmem] at howner
  omega

lemma Counted.keep_idle {new : Place} (hc : Counted k pl) (hsame : SameOwners k k') (hcpu : cpu < k.cpuCount)
    (hidle : (k.cpus cpu).idleTask = t) (hp : pl t ≠ .fresh)
    (halive : ∀ p, (k'.processes p).aliveThreadCount = (k.processes p).aliveThreadCount) :
    Counted k' (update pl t new) := by
  apply hc.relocate hsame (fun _ => .inl ⟨cpu, hcpu, hidle⟩) (fun hfresh => absurd hfresh hp) fun p _ => halive p
  intro p hpr
  rw [Tags.countP_update_of_notMem (hc.idle_notMem hcpu hidle hpr), halive]
  exact hc.counted p hpr

include hc hcpu hoff in
lemma Counted.take : Counted (taken k cpu t) (update pl t (.running cpu)) := by
  rcases hoff with hp | ⟨hp, hidle⟩
  · exact hc.keep (taken_sameOwners k cpu t) (by simp [hp]) (by rw [hp]; rfl) fun _ => rfl
  · exact hc.keep_idle (taken_sameOwners k cpu t) hcpu hidle (by simp [hp]) fun _ => rfl

include hoff in
lemma spares_taken : Spares k (taken k cpu t) pl (update pl t (.running cpu)) where
  finished u := by
    by_cases heq : u = t
    · rw [heq, update_self]
      rcases hoff with hp | ⟨hp, -⟩ <;> rw [hp] <;> rfl
    · rw [update_of_ne heq]
  fresh u := by
    by_cases heq : u = t
    · rw [heq, update_self]
      exact iff_of_false (by simp) (hoff.place_ne (by simp) (by simp))
    · rw [update_of_ne heq]
  state u hu := by
    rw [taken_threads_of_ne]
    rintro rfl
    rcases hoff with hp | ⟨hp, -⟩ <;> rw [hp] at hu <;> cases hu
  owner := taken_owner k cpu t
  shouldKillAllThreads := field_eq _ (fun _ => taken_threads_of_ne k cpu t) (by rw [taken_threads_self])
  isInvulnerable := field_eq _ (fun _ => taken_threads_of_ne k cpu t) (by rw [taken_threads_self])
  processes := rfl
  mProcesses := rfl
  mutexOwners := rfl

def vacated (k : Tasks) (current : Nat) (ready : List Nat) : Tasks :=
  { k with
    threads := update k.threads current { k.threads current with state := .ready }
    mReadyThreads := ready }

lemma frame_vacated (k : Tasks) (cur : Nat) (ready : List Nat) : Frame k (vacated k cur ready) cur :=
  .of_update rfl rfl rfl (fun _ => rfl) rfl

variable {new : Place}

section

include hp

lemma spares_vacated (ready : List Nat) (hnew : new.isFinished = false) (hfresh : new ≠ .fresh) :
    Spares k (vacated k cur ready) pl (update pl cur new) :=
  of_update (frame_vacated k cur ready) (by rw [hp]; rfl) hnew (by simp [hp]) hfresh
    (by simp [vacated]) (by simp [vacated]) rfl rfl

include h in
lemma Placed.requeue (hidle : (k.cpus cpu).idleTask ≠ cur) (hreq : (k.threads cur).requestedState = .undefined) :
    Placed (vacated k cur (k.mReadyThreads ++ [cur])) (update pl cur .ready) (some cpu) := by
  obtain ⟨hcpu, -, -, hasks, -⟩ := h.fits_of hp
  have hb := hasks.blocker_eq_none hreq
  refine h.shift (frame_vacated k cur _) hp (by simp) rfl ?_ ?_
  · simp [Fits, vacated, hreq, hb]
  · refine h.loose_current hp fun u hu heq => ?_
    rw [h.idleTask_cpu hp hu heq] at heq
    exact absurd heq hidle

include h in
lemma Placed.rest (hidle : (k.cpus cpu).idleTask = cur) :
    Placed (vacated k cur k.mReadyThreads) (update pl cur .idle) (some cpu) := by
  obtain ⟨hcpu, -, -, hasks, hcalm⟩ := h.fits_of hp
  obtain ⟨hreq, hdie⟩ := hcalm hidle
  have hb := hasks.blocker_eq_none hreq
  refine h.shift (frame_vacated k cur _) hp (by simp) rfl ?_ ?_
  · have ht : (vacated k cur k.mReadyThreads).threads cur = { k.threads cur with state := .ready } := update_self ..
    rw [Fits, ht]
    exact ⟨rfl, hreq, hb, hdie, cpu, hcpu, hidle⟩
  · exact h.loose_current hp fun _ _ _ => rfl

include hc in
lemma Counted.requeue : Counted (vacated k cur (k.mReadyThreads ++ [cur])) (update pl cur .ready) :=
  hc.keep (frame_vacated k cur _).sameOwners (by simp [hp]) (by rw [hp]; rfl) fun _ => rfl

include hc hcpu in
lemma Counted.rest (hidle : (k.cpus cpu).idleTask = cur) :
    Counted (vacated k cur k.mReadyThreads) (update pl cur .idle) :=
  hc.keep_idle (frame_vacated k cur _).sameOwners hcpu hidle (by simp [hp]) fun _ => rfl

include h hcur in
lemma Placed.leave (hstate : (k.threads cur).state = .running)
    (hreq : (k.threads cur).requestedState = .undefined) : Placed k pl none := by
  refine { h with fits := fun t => ?_, onCpu := fun u hu _ => ?_,
                  quiet := fun u hu _ hphase => ?_ }
  · have hfits := h.fits t
    cases ht : pl t with
    | running u =>
      rw [ht] at hfits
      obtain ⟨hu, hthreadCurrent, hrung, hrest⟩ := hfits
      refine ⟨hu, hthreadCurrent, fun _ => ?_, hrest⟩
      by_cases heq : u = cpu
      · rw [heq, hcur] at hthreadCurrent
        rw [← hthreadCurrent, hstate]
      · exact hrung (by simpa using Ne.symm heq)
    | fresh | idle | ready | blocked blocker | deferred | freed => rwa [ht] at hfits
  · by_cases heq : u = cpu
    · rw [heq, hcur, hp]
    · exact h.onCpu u hu (by simpa using Ne.symm heq)
  · by_cases heq : u = cpu
    · rw [heq, hcur, hreq]
    · exact h.quiet u hu (by simpa using Ne.symm heq) hphase

end

/-- What the end of the section of `pick_next` leaves behind. -/
structure Switched (k k' : Tasks) (place : Nat → Place) (cpu current : Nat) : Prop where
  placed : ∃ place', Placed k' place' none ∧ Counted k' place' ∧ Spares k k' place place'
  calm : (k'.threads (k'.cpus cpu).currentThread).requestedState = .undefined
  cpus : ∀ other, other ≠ cpu → k'.cpus other = k.cpus other
  cpu : ∃ next, k'.cpus cpu = { k.cpus cpu with currentThread := next }
  cpuCount : k'.cpuCount = k.cpuCount
  queue : ∃ added, k'.mReadyThreads = (k.mReadyThreads ++ added).tail ∧ ∀ other ∈ added, other = current
  mThreadsToFree : k'.mThreadsToFree = k.mThreadsToFree

include h hc hcur hp in
lemma switched_self (hstate : (k.threads cur).state = .running)
    (hreq : (k.threads cur).requestedState = .undefined) (hready : k.mReadyThreads = []) : Switched k k pl cpu cur where
  placed := ⟨pl, h.leave hcur hp hstate hreq, hc, refl k pl⟩
  calm := by rw [hcur, hreq]
  cpus _ _ := rfl
  cpu := ⟨(k.cpus cpu).currentThread, rfl⟩
  cpuCount := rfl
  queue := ⟨[], by rw [hready]; rfl, by simp⟩
  mThreadsToFree := rfl

include h hc hcpu hoff hleft in
lemma switched_taken (hready : k.mReadyThreads.erase t = k.mReadyThreads.tail)
    (cur : Nat) : Switched k (taken k cpu t) pl cpu cur where
  placed := ⟨_, h.take hcpu hoff hleft, hc.take hcpu hoff, spares_taken hoff⟩
  calm := by
    rw [taken_cpus_self, taken_threads_self]
    exact (h.offered_calm hoff).2.1
  cpus u hne := taken_cpus_of_ne k cpu t hne
  cpu := ⟨t, taken_cpus_self k cpu t⟩
  cpuCount := rfl
  queue := ⟨[], by rw [append_nil]; exact hready, by simp⟩
  mThreadsToFree := rfl

lemma Switched.after {added : List Nat} (hspares : Spares k k' pl p') (hcpus : k'.cpus = k.cpus)
    (hn : k'.cpuCount = k.cpuCount) (hready : k'.mReadyThreads = k.mReadyThreads ++ added)
    (hadded : ∀ u ∈ added, u = cur) (hfree : k'.mThreadsToFree = k.mThreadsToFree)
    (h : Switched k' k'' p' cpu cur) : Switched k k'' pl cpu cur where
  placed := by
    obtain ⟨p'', hpl, hcnt, hspares'⟩ := h.placed
    exact ⟨p'', hpl, hcnt, hspares.trans hspares'⟩
  calm := h.calm
  cpus := hcpus ▸ h.cpus
  cpu := hcpus ▸ h.cpu
  cpuCount := h.cpuCount.trans hn
  queue := by
    obtain ⟨added', heq, hadded'⟩ := h.queue
    refine ⟨added ++ added', by rw [heq, hready, append_assoc], fun u hu => ?_⟩
    exact (mem_append.mp hu).elim (hadded u) (hadded' u)
  mThreadsToFree := h.mThreadsToFree.trans hfree

lemma activate_eq (hstate : (k.threads t).state = .ready) : k.activate cpu t =
    .ok ((k.setState t .running).updateCpu cpu fun c => { c with currentThread := t }) := by
  rw [activate, assert_bind hstate]
  rfl

lemma pickNextThread_nil (hready : k.mReadyThreads = []) : k.pickNextThread cpu = (k, (k.cpus cpu).idleTask) := by
  unfold pickNextThread
  rw [hready]

variable {ready : List Nat} (hready : k.mReadyThreads = t :: ready)

include hready in
lemma pickNextThread_cons : k.pickNextThread cpu = ({ k with mReadyThreads := ready }, t) := by
  unfold pickNextThread
  rw [hready]

include h hready in
lemma offered_head : Offered k pl cpu t := by
  refine .inl ((h.ready.mem_iff t).mp ?_)
  rw [hready]
  exact mem_cons_self

include h hc hcpu hleft in
lemma switchThreads_of_left (hstate : (k.threads cur).state ≠ .running) (hready : pl cur ≠ .ready)
    (hidle : pl cur ≠ .idle) : ∃ k', k.switchThreads cpu cur = .ok k' ∧ Switched k k' pl cpu cur := by
  cases hqueue : k.mReadyThreads with
  | nil =>
    have hoff : Offered k pl cpu (k.cpus cpu).idleTask := .inr ⟨(h.idle cpu hcpu).resolve_right (hleft _), rfl⟩
    have hne : cur ≠ (k.cpus cpu).idleTask := by
      rintro rfl
      exact hidle ((h.idle cpu hcpu).resolve_right (hleft _))
    refine ⟨_, ?_, switched_taken h hc hcpu hoff hleft (by rw [hqueue]; rfl) cur⟩
    rw [switchThreads, if_neg (fun hcond => hstate hcond.1), ok_bind]
    dsimp only
    rw [pickNextThread_nil hqueue]
    rw [if_pos hne, deactivate, if_neg hstate, activate_eq (h.offered_calm hoff).1, taken, hqueue, erase_nil, ← hqueue]
    rfl
  | cons next ready =>
    have hoff := offered_head h hqueue
    have hne : cur ≠ next := by
      rintro rfl
      exact hready ((h.ready.mem_iff cur).mp (by rw [hqueue]; exact mem_cons_self))
    refine ⟨_, ?_, switched_taken h hc hcpu hoff hleft (by rw [hqueue, erase_cons_head, tail_cons]) cur⟩
    rw [switchThreads, if_neg (fun hcond => hstate hcond.1), ok_bind]
    dsimp only
    rw [pickNextThread_cons hqueue]
    rw [if_pos hne, deactivate, if_neg (by exact hstate),
      activate_eq (by exact (h.offered_calm hoff).1), taken, hqueue, erase_cons_head]
    rfl

include hready in
lemma erase_head : k.mReadyThreads.erase t = k.mReadyThreads.tail := by rw [hready, erase_cons_head, tail_cons]

lemma Offered.of_update (h : Offered k pl cpu t) (hne : t ≠ cur) :
    Offered (vacated k cur ready) (update pl cur new) cpu t := by
  rwa [Offered, update_of_ne hne]

lemma switchTo_eq (hne : t ≠ cur) (hstate : (k.threads cur).state = .running)
    (hready : (k.threads t).state = .ready) : (deactivate { k with mReadyThreads := ready } cur).activate cpu t =
    .ok (taken (vacated k cur (t :: ready)) cpu t) := by
  rw [deactivate, if_pos (by exact hstate), activate_eq]
  · rw [taken, vacated, erase_cons_head]
    rfl
  · exact (congrArg Thread.state (update_of_ne hne _ _)).trans hready

include h hc hcpu hcur hp in
lemma switchThreads_of_running (hstate : (k.threads cur).state = .running)
    (hreq : (k.threads cur).requestedState = .undefined) :
    ∃ k', k.switchThreads cpu cur = .ok k' ∧ Switched k k' pl cpu cur := by
  have hlist : k.isOnAList cur = false := h.isOnAList_eq_false (by simp [hp]) (by simp [hp]) (by simp [hp])
  have hleft {new : Place} (hnew : new ≠ .running cpu) : ∀ u, update pl cur new u ≠ .running cpu := by
    intro u hu
    by_cases heq : u = cur
    · rw [heq, update_self] at hu
      exact hnew hu
    · rw [update_of_ne heq] at hu
      have hfits := h.fits_of hu
      exact heq (hfits.2.1.symm.trans hcur)
  by_cases hidle : (k.cpus cpu).idleTask = cur
  · have hcond : ¬ ((k.threads cur).state = .running ∧ cur ≠ (k.cpus cpu).idleTask) := fun hand => hand.2 hidle.symm
    cases hqueue : k.mReadyThreads with
    | nil =>
      refine ⟨k, ?_, switched_self h hc hcur hp hstate hreq hqueue⟩
      rw [switchThreads, if_neg hcond, ok_bind]
      dsimp only
      rw [pickNextThread_nil hqueue]
      rw [if_neg (fun hne => hne hidle.symm)]
      rfl
    | cons next ready =>
      have hnext := offered_head h hqueue
      have hne : next ≠ cur := by
        rintro rfl
        exact hnext.place_ne (by simp) (by simp) hp
      refine ⟨_, ?_, (switched_taken (h.rest hp hidle) (hc.rest hcpu hp hidle) hcpu
        (hnext.of_update hne) (hleft (by simp)) (erase_head hqueue) cur).after
          (spares_vacated hp _ rfl (by simp)) rfl rfl (append_nil _).symm (by simp) rfl⟩
      rw [switchThreads, if_neg hcond, ok_bind]
      dsimp only
      rw [pickNextThread_cons hqueue]
      rw [if_pos hne.symm, switchTo_eq hne hstate (h.offered_calm hnext).1, hqueue]
  · have hcond : (k.threads cur).state = .running ∧ cur ≠ (k.cpus cpu).idleTask := ⟨hstate, Ne.symm hidle⟩
    rw [switchThreads, if_pos hcond, insertReady_eq hlist, ok_bind]
    dsimp only
    cases hqueue : k.mReadyThreads with
    | nil =>
      refine ⟨k, ?_, switched_self h hc hcur hp hstate hreq hqueue⟩
      rw [nil_append, pickNextThread_cons rfl]
      rw [if_neg (fun hne => hne rfl)]
      rw [← hqueue]
      rfl
    | cons next ready =>
      have hnext := offered_head h hqueue
      have hne : next ≠ cur := by
        rintro rfl
        exact hnext.place_ne (by simp) (by simp) hp
      refine ⟨_, ?_, (switched_taken (h.requeue hp hidle hreq) (hc.requeue hp) hcpu
        (hnext.of_update hne) (hleft (by simp)) (erase_head (by rw [vacated, hqueue]; rfl))
          cur).after (spares_vacated hp _ rfl (by simp)) rfl rfl rfl (by simp) rfl⟩
      rw [cons_append, pickNextThread_cons rfl]
      rw [if_pos hne.symm, switchTo_eq hne hstate (h.offered_calm hnext).1, hqueue, cons_append]

end

/-- A CPU gets on in its own code, with the lock or without it. -/
def advanced (k : Tasks) (cpu : Nat) (phase : CpuPhase) (stack : Nat) (lock : Option Nat) : Tasks :=
  { k with
    cpus := update k.cpus cpu { k.cpus cpu with phase := phase, stack := stack }
    queuesLock := lock }

lemma Placed.acts_advanced {phase : CpuPhase} {stack : Nat} {lock : Option Nat}
    (h : Placed k pl none) (hcpu : cpu < k.cpuCount) (hquiet : phase = .thread ∨ phase = .unlocked →
      (k.threads (k.cpus cpu).currentThread).requestedState = .undefined) :
    Acts k (advanced k cpu phase stack lock) cpu := by
  obtain ⟨-, -, -, hasks, hidle⟩ := h.fits_of (h.onCpu cpu hcpu (by simp))
  exact
    { threads := fun _ _ => rfl
      state := rfl
      owner := rfl
      asks := hasks
      idles := hidle
      called := fun blocker hcall => h.called _ blocker hcall
      quiet := fun hphase => hquiet (by simpa [advanced] using hphase)
      blockers := fun _ _ => rfl
      blockerCount := le_rfl
      pending := fun _ hpend => hpend
      currentThread := field_eq Cpu.currentThread (fun _ hne => update_of_ne hne _ _) (by simp [advanced])
      idleTask := field_eq Cpu.idleTask (fun _ hne => update_of_ne hne _ _) (by simp [advanced])
      phase := fun u hne => congrArg Cpu.phase (update_of_ne hne _ _)
      toRests := ⟨rfl, rfl, rfl, rfl, rfl, rfl, rfl⟩ }

lemma Spares.of_threads (hths : k'.threads = k.threads) (hprocesses : k'.processes = k.processes)
    (hreg : k'.mProcesses = k.mProcesses) (hmutexes : k'.mutexOwners = k.mutexOwners) : Spares k k' pl pl where
  finished _ := rfl
  fresh _ := Iff.rfl
  state _ _ := by rw [hths]
  owner _ := by rw [hths]
  shouldKillAllThreads _ := by rw [hths]
  isInvulnerable _ := by rw [hths]
  processes := hprocesses
  mProcesses := hreg
  mutexOwners := hmutexes

def Dies {Q : Type} (k : Tasks Q) (cpu : Nat) : Prop :=
  (k.threads (k.cpus cpu).currentThread).shouldDie = true ∧
    (k.threads (k.cpus cpu).currentThread).isInvulnerable = false

instance {Q : Type} (k : Tasks Q) (cpu : Nat) : Decidable (k.Dies cpu) := inferInstanceAs (Decidable (_ ∧ _))

/-- The threads are finished that were so, and those that the current one takes along when it dies. -/
structure Retires (k k' : Tasks) (place place' : Nat → Place) (cpu : Nat) : Prop where
  finished : ∀ thread, (place' thread).isFinished = true ↔ (place thread).isFinished = true ∨
    k.Dies cpu ∧ Condemned k place (k.cpus cpu).currentThread thread
  fresh : ∀ thread, place' thread = .fresh ↔ place thread = .fresh
  isInvulnerable : ∀ thread, (k'.threads thread).isInvulnerable = (k.threads thread).isInvulnerable
  mutexOwners : k'.mutexOwners = k.mutexOwners
  cpuCount : k'.cpuCount = k.cpuCount

lemma Executed.retires (h : Executed k k' pl p' (k.cpus cpu).currentThread) (hdies : k.Dies cpu) :
    Retires k k' pl p' cpu where
  finished t := by rw [h.finished, and_iff_right hdies]
  fresh := h.fresh
  isInvulnerable := h.isInvulnerable
  mutexOwners := h.mutexOwners
  cpuCount := h.cpuCount

lemma Spares.retires (h : Spares k k' pl p') (hdies : ¬ k.Dies cpu)
    (hn : k'.cpuCount = k.cpuCount) : Retires k k' pl p' cpu where
  finished t := by rw [h.finished, or_iff_left (fun hand => hdies hand.1)]
  fresh := h.fresh
  isInvulnerable := h.isInvulnerable
  mutexOwners := h.mutexOwners
  cpuCount := hn

variable {p'' : Nat → Place}

lemma Retires.spare (h : Retires k k' pl p' cpu) (hspares : Spares k' k'' p' p'')
    (hn : k''.cpuCount = k'.cpuCount) : Retires k k'' pl p'' cpu where
  finished t := by rw [hspares.finished, h.finished]
  fresh t := by rw [hspares.fresh, h.fresh]
  isInvulnerable t := by rw [hspares.isInvulnerable, h.isInvulnerable]
  mutexOwners := hspares.mutexOwners.trans h.mutexOwners
  cpuCount := hn.trans h.cpuCount

lemma Keeps.dies_iff (h : Keeps k k' pl p')
    (hp : pl (k.cpus cpu).currentThread = .running cpu) : k'.Dies cpu ↔ k.Dies cpu := by
  rw [Dies, Dies, h.cpus, (h.running _ cpu hp).1]

lemma Keeps.condemned_iff (h : Keeps k k' pl p') (cur t : Nat) : Condemned k' p' cur t ↔ Condemned k pl cur t := by
  rw [Condemned, Condemned, h.shouldKillAllThreads, h.processes, h.owner, h.exposed]

lemma Keeps.retires (h : Keeps k k' pl p') (hp : pl (k.cpus cpu).currentThread = .running cpu)
    (h' : Retires k' k'' p' p'' cpu) : Retires k k'' pl p'' cpu where
  finished t := by rw [h'.finished, h.finished, h.dies_iff hp, h.condemned_iff, h.cpus]
  fresh t := by rw [h'.fresh, h.fresh]
  isInvulnerable t := by rw [h'.isInvulnerable, h.isInvulnerable]
  mutexOwners := h'.mutexOwners.trans h.mutexOwners
  cpuCount := h'.cpuCount.trans h.cpuCount

lemma Switched.queue_flows {place1 : Nat → Place} {k1 : Tasks} (h : Switched k1 k' place1 cpu cur)
    (hqueued : Queued k k1 pl) (hcur : pl cur ≠ .ready) : ∃ queue,
    Queue.Flows (fun t => pl t ≠ .ready) k.mReadyThreads queue ∧ k'.mReadyThreads = queue.tail := by
  obtain ⟨added, heq, hadded⟩ := h.queue
  refine ⟨k1.mReadyThreads ++ added, hqueued.trans ?_, heq⟩
  exact ⟨k1.mReadyThreads, added, List.Sublist.refl _, rfl, fun u hu => hadded u hu ▸ hcur⟩

include h hc in
lemma turn_spec (hk : Killers k pl) (hcpu : cpu < k.cpuCount) (hcur : (k.cpus cpu).currentThread = cur)
    (hp : pl cur = .running cpu) (hstate : (k.threads cur).state = .running) :
    ∃ k1 k' p', (if (k.threads cur).shouldDie && !(k.threads cur).isInvulnerable then k.killCurrentThread cur
        else k.applyRequest cur) = .ok k1 ∧ k1.switchThreads cpu cur = .ok k' ∧ Placed k' p' none ∧ Counted k' p' ∧
      Killers k' p' ∧ Retires k k' pl p' cpu ∧ (k'.threads (k'.cpus cpu).currentThread).requestedState = .undefined ∧
      (∀ u, u ≠ cpu → k'.cpus u = k.cpus u) ∧ (∃ next, k'.cpus cpu = { k.cpus cpu with currentThread := next }) ∧
      cur ∉ k'.mThreadsToFree ∧
      ∃ queue, Queue.Flows (fun t => pl t ≠ .ready) k.mReadyThreads queue ∧ k'.mReadyThreads = queue.tail := by
  obtain ⟨-, -, -, -, hidle⟩ := h.fits_of hp
  by_cases hdies : k.Dies cpu
  · have hdie : (k.threads cur).shouldDie = true := hcur ▸ hdies.1
    have hvulnerable : (k.threads cur).isInvulnerable = false := hcur ▸ hdies.2
    have hreg : k.Registered cur := by
      apply hc.isRegistered (by rw [hp]; rfl)
      intro u hu heq
      rw [h.idleTask_cpu hp hu heq] at heq
      rw [(hidle heq).2] at hdie
      cases hdie
    obtain ⟨k1, place1, hok, h1, hc1, hk1, hexec⟩ := killCurrentThread_spec h hc hk hcur hp hreg
    have hleft : ∀ u, place1 u ≠ .running cpu := by
      intro u hu
      have hfits := h1.fits_of hu
      have heq : u = cur := by rw [← hfits.2.1, hexec.cpus, hcur]
      rw [heq, hexec.deferred] at hu
      cases hu
    obtain ⟨k', hswitch, hsw⟩ := switchThreads_of_left h1 hc1 (hexec.cpuCount ▸ hcpu) hleft
      (by rw [hexec.dead]; simp) (by rw [hexec.deferred]; simp)
      (by rw [hexec.deferred]; simp)
    obtain ⟨p', h', hc', hspares⟩ := hsw.placed
    have hkept : cur ∉ k'.mThreadsToFree := by
      rw [hsw.mThreadsToFree, h1.freed.mem_iff, hexec.deferred]
      simp
    rw [← hcur] at hexec
    refine ⟨k1, k', p', ?_, hswitch, h', hc', hk1.spare hspares,
      (hexec.retires hdies).spare hspares hsw.cpuCount, hsw.calm,
      hexec.cpus ▸ hsw.cpus, hexec.cpus ▸ hsw.cpu, hkept,
      hsw.queue_flows hexec.queued (by simp [hp])⟩
    rwa [hdie, hvulnerable]
  · have hcond : ((k.threads cur).shouldDie && !(k.threads cur).isInvulnerable) = false := by
      rw [Bool.and_eq_false_imp, Bool.not_eq_false']
      intro hdie
      by_contra hvulnerable
      exact hdies ⟨hcur.symm ▸ hdie, hcur.symm ▸ Bool.not_eq_true _ ▸ hvulnerable⟩
    obtain ⟨k1, place1, hok, h1, hc1, hspares1, hcpus, hn, hready, hcase⟩ := applyRequest_spec h hc hp hstate
    have hswitch : ∃ k', k1.switchThreads cpu cur = .ok k' ∧ Switched k1 k' place1 cpu cur := by
      rcases hcase with ⟨hplace1, hstate1, hrequested1⟩ | ⟨hstate1, blocker, hplace1⟩
      · exact switchThreads_of_running h1 hc1 (hn ▸ hcpu) (hcpus ▸ hcur) hplace1 hstate1 hrequested1
      · refine switchThreads_of_left h1 hc1 (hn ▸ hcpu) ?_ (by simp [hstate1]) (by simp [hplace1])
          (by simp [hplace1])
        intro u hu
        have hfits := h1.fits_of hu
        have heq : u = cur := by rw [← hfits.2.1, hcpus, hcur]
        rw [heq, hplace1] at hu
        cases hu
    obtain ⟨k', hswitch, hsw⟩ := hswitch
    obtain ⟨p', h', hc', hspares⟩ := hsw.placed
    have hkept : cur ∉ k'.mThreadsToFree := by
      rw [hsw.mThreadsToFree, h1.freed.mem_iff]
      rcases hcase with ⟨hplace1, -⟩ | ⟨-, blocker, hplace1⟩ <;> simp [hplace1]
    refine ⟨k1, k', p', ?_, hswitch, h', hc', (hk.spare hspares1).spare hspares,
      (hspares1.retires hdies hn).spare hspares hsw.cpuCount, hsw.calm,
      hcpus ▸ hsw.cpus, hcpus ▸ hsw.cpu, hkept,
      hsw.queue_flows (by rw [Queued, hready]; exact Queue.Flows.refl _ _) (by simp [hp])⟩
    rwa [hcond, if_neg (by simp)]

lemma pickNext_spec (h : Placed k pl none) (hc : Counted k pl) (hk : Killers k pl) (hcpu : cpu < k.cpuCount)
    (now : Nat) : ∃ k' p', k.pickNext cpu now = .ok k' ∧ Placed k' p' none ∧ Counted k' p' ∧ Killers k' p' ∧
    Retires k k' pl p' cpu ∧ (∀ u, u ≠ cpu → k'.cpus u = k.cpus u) ∧ (k'.cpus cpu).stack = (k.cpus cpu).stack ∧
    (k'.cpus cpu).phase = .unlocked ∧ k'.queuesLock = none ∧ (k.cpus cpu).currentThread ∉ k'.mThreadsToFree ∧ ∃ queue,
    Queue.Flows (fun t => pl t ≠ .ready) k.mReadyThreads queue ∧ k'.mReadyThreads = queue.tail := by
  have hp := h.onCpu cpu hcpu (by simp)
  have hfits := h.fits_of hp
  have hstate := hfits.2.2.1 (by simp)
  obtain ⟨k1, place1, hfree, h1, hc1, hkeeps1⟩ := settles_freeDeferredThreads (h.enter cpu) hc
  obtain ⟨k2, place2, hwake, h2, hc2, hkeeps2⟩ := settles_wakeLoop now h1 hc1 rfl
  change SleepQueue.wake k1 now = .ok k2 at hwake
  have hkeeps := hkeeps1.trans hkeeps2
  obtain ⟨ht, hplace2⟩ := hkeeps.running _ cpu hp
  obtain ⟨k3, k4, place4, hturn, hswitch, h4, hc4, hk4, hret, hcalm, hcpus, ⟨next, hcpu4⟩, hkept,
      queue, hqueue, htail⟩ :=
    turn_spec h2 hc2 (hk.spare hkeeps.toSpares) (hkeeps.cpuCount ▸ hcpu) (by rw [hkeeps.cpus]) hplace2
      (by rw [ht, hstate])
  have hn := hret.cpuCount.trans hkeeps.cpuCount
  -- The lock is released in a state in which the new thread asks for nothing.
  have hacts : Acts k4 (advanced k4 cpu .unlocked (k4.cpus cpu).stack none) cpu :=
    h4.acts_advanced (hn ▸ hcpu) fun _ => hcalm
  refine ⟨_, place4, ?_, h4.act (hn ▸ hcpu) hacts, hc4.act hacts, hk4.spare (of_threads rfl rfl rfl rfl),
    (hkeeps.retires hp hret).spare (of_threads rfl rfl rfl rfl) rfl, ?_, ?_, ?_, rfl, hkept,
    queue, hkeeps.queued.trans (hqueue.mono fun u hu hready => hu (hkeeps.ready u hready)),
    htail⟩
  · rw [pickNext]
    rw [hfree, ok_bind, hwake, ok_bind]
    split at hturn <;> rename_i hdies <;> simp only [hdies] <;> rw [hturn, ok_bind, hswitch, ok_bind] <;> rfl
  · intro u hne
    rw [show (advanced k4 cpu .unlocked (k4.cpus cpu).stack none).cpus u = k4.cpus u from
      update_of_ne hne _ _, hcpus u hne, hkeeps.cpus]
  · simp [advanced, hcpu4, hkeeps.cpus]
  · simp [advanced]

end UltraOS.Tasks
