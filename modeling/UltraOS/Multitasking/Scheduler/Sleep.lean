import Mathlib.Data.List.TakeWhile
import UltraOS.Common.RedBlackTree.Run
import UltraOS.Multitasking.Scheduler.Run

/-!
# The multiset of the sleeping blockers

`m_sleeping_threads` as the red-black tree that it is. A node is allocated for a blocker, so that its address is
the number of the blocker. As long as no thread falls asleep until the latest time in the tree, the scheduler does
the same with the tree as with an ordered list.
-/

namespace UltraOS.Tasks

open List RedBlackTree State

/-- Blockers are compared by their wake-up times, and several may have the same. -/
def wakeTraits (blockers : Nat → Blocker) : Traits Nat Nat := byNumber (fun b => (blockers b).wakeTime) true

/-- The loop of `remove_sleeping_blocker` from the lower bound on. -/
def searchLoop (sleeping : State Nat) (blocker : Nat) : (fuel : Nat) → (lb : NodePtr) → Run NodePtr
  | 0, _ => .error .outOfFuel
  | fuel + 1, lb =>
    if lb = .superRoot then .ok lb
    else do
      if (← sleeping.value lb) = blocker then return lb
      searchLoop sleeping blocker fuel (← sleeping.increment lb)

/-- `remove_sleeping_blocker` of `kill_current_thread`. -/
def removeFromTree (k : Tasks (State Nat)) (blocker : Nat) : Run (Tasks (State Nat)) := do
  let lb ← k.mSleepingThreads.lowerBoundNode (wakeTraits k.blockers) (k.blockers blocker).wakeTime
  let lb ← searchLoop k.mSleepingThreads blocker k.mSleepingThreads.fuel lb
  assert (lb ≠ .superRoot) "lb != m_sleeping_threads.end()"
  assert ((← k.mSleepingThreads.value lb) = blocker) "*lb == blocker"
  return { k with mSleepingThreads := ← k.mSleepingThreads.removeIterator lb }

/-- The loop of `wake_ready_threads`. The iterator is advanced before its node is removed. -/
def wakeTreeLoop (now : Nat) : (fuel : Nat) → Tasks (State Nat) → (threadItr : NodePtr) → Run (Tasks (State Nat))
  | 0, _, _ => .error .outOfFuel
  | fuel + 1, k, threadItr =>
    if threadItr = .superRoot then .ok k
    else do
      let readyThread ← k.mSleepingThreads.value threadItr
      if (k.blockers readyThread).wakeTime ≤ now then do
        let next ← k.mSleepingThreads.increment threadItr
        let sleeping ← k.mSleepingThreads.removeIterator threadItr
        let k ← { k with mSleepingThreads := sleeping }.unblockUnchecked readyThread
        wakeTreeLoop now fuel k next
      else return k

instance : Membership Nat (State Nat) where
  mem sleeping blocker := sleeping.nodes blocker ≠ none

instance : SleepQueue (State Nat) where
  emplace k blocker := do
    let (sleeping, _) ← k.mSleepingThreads.emplace (wakeTraits k.blockers) blocker blocker
    return { k with mSleepingThreads := sleeping }
  removeBlocker := removeFromTree
  wake k now :=
    if k.mSleepingThreads.size = 0 then .ok k
    else wakeTreeLoop now k.mSleepingThreads.fuel k k.mSleepingThreads.leftMostNode

def withSleeping (k : Tasks) (sleeping : State Nat) : Tasks (State Nat) := { k with mSleepingThreads := sleeping }

abbrev node (blocker : Nat) : Item Nat := ⟨blocker, blocker⟩

/-- The tree holds the blockers of the list in the same order, and its cached ends are right. -/
def Mirrors (k : Tasks) (sleeping : State Nat) : Prop :=
  ∃ t, Shape (wakeTraits k.blockers) sleeping t ∧ EndsCached sleeping t.inorder ∧
    t.inorder = k.mSleepingThreads.map node

/-- What succeeds with the list succeeds with the tree, and they hold the same afterwards. -/
def Sim (result : Run Tasks) (result' : Run (Tasks (State Nat))) : Prop :=
  ∀ k, result = .ok k → ∃ sleeping, result' = .ok (k.withSleeping sleeping) ∧ k.Mirrors sleeping

variable {k k' : Tasks} {s : State Nat} {r : Run Tasks} {rt : Run (Tasks (State Nat))}

@[simp] lemma withSleeping_mSleepingThreads : (k.withSleeping s).mSleepingThreads = s := rfl

@[simp] lemma withSleeping_blockers : (k.withSleeping s).blockers = k.blockers := rfl

@[simp] lemma withSleeping_threads : (k.withSleeping s).threads = k.threads := rfl

lemma Sim.bind {f : Tasks → Run Tasks} {f' : Tasks (State Nat) → Run (Tasks (State Nat))} (h : Sim r rt)
    (hf : ∀ k s, Mirrors k s → Sim (f k) (f' (k.withSleeping s))) : Sim (r >>= f) (rt >>= f') := by
  intro k hok
  obtain ⟨k1, hr, hf1⟩ := of_bind hok
  obtain ⟨s1, hrt, hm⟩ := h k1 hr
  rw [hrt]
  exact hf k1 s1 hm k hf1

lemma Sim.assert {c : Bool} {text : String} (h : Sim r rt) : Sim (do assert c text; r) (do assert c text; rt) := by
  cases c with
  | false => intro k hok; cases hok
  | true => exact h

lemma Sim.ite {c : Prop} [Decidable c] {r2 : Run Tasks} {rt2 : Run (Tasks (State Nat))} (h : c → Sim r rt)
    (h2 : ¬c → Sim r2 rt2) : Sim (if c then r else r2) (if c then rt else rt2) := by
  split
  · exact h ‹c›
  · exact h2 ‹¬c›

lemma Sim.ok_ite {c : Prop} [Decidable c] {k1 k2 : Tasks (State Nat)} (h : Sim (.ok k) (.ok k1))
    (h2 : Sim (.ok k') (.ok k2)) : Sim (.ok (if c then k else k')) (.ok (if c then k1 else k2)) := by
  split
  · exact h
  · exact h2

lemma Sim.error {e : Fault} : Sim (.error e) rt := nofun

variable (h : Mirrors k s)

include h

lemma Sim.ok : Sim (.ok k) (.ok (k.withSleeping s)) := by
  rintro _ ⟨⟩
  exact ⟨s, rfl, h⟩

/-- Nothing but the queue and the wake-up times of its blockers matters. -/
lemma Mirrors.congr (hqueue : k'.mSleepingThreads = k.mSleepingThreads)
    (hwake : ∀ b ∈ k.mSleepingThreads, (k'.blockers b).wakeTime = (k.blockers b).wakeTime) : Mirrors k' s := by
  obtain ⟨t, hshape, hends, horder⟩ := h
  refine ⟨t, ⟨hshape.represents, hshape.redBlack, ?_, hshape.size⟩, hends, hqueue ▸ horder⟩
  have hsorted := hshape.sorted
  rw [Ascending, horder, pairwise_map] at hsorted ⊢
  exact hsorted.imp_of_mem fun hx hy hle => by simpa [wakeTraits, byNumber, Traits.valueLess, hwake _ hx, hwake _ hy] using hle

lemma Mirrors.setResult (b : Nat) (result : BlockResult) : Mirrors (k.setResult b result) s := by
  refine h.congr rfl fun c _ => ?_
  change (Function.update k.blockers b ((k.blockers b).setResult result) c).wakeTime = _
  by_cases hc : c = b
  · rw [hc, Function.update_self, Blocker.setResult]
    split <;> rfl
  · rw [Function.update_of_ne hc]

/-! ### The parts that leave the queue alone -/

lemma Mirrors.threadUnblock (t : Nat) : Sim (k.threadUnblock t) ((k.withSleeping s).threadUnblock t) := by
  unfold Tasks.threadUnblock
  rw [withSleeping_threads]
  cases (k.threads t).blocker with
  | none => exact .error
  | some b =>
    change Sim (.ok (updateThread (if (k.blockers b).shouldBlock then _ else _) _ _))
      (.ok (updateThread (if (k.blockers b).shouldBlock then _ else _) _ _))
    split
    · exact .ok (h.setResult b .unblocked)
    · exact .ok h

lemma Mirrors.unblockUnchecked (b : Nat) : Sim (k.unblockUnchecked b) ((k.withSleeping s).unblockUnchecked b) :=
  .ite (fun _ => .ok (h.setResult b .unblocked)) fun _ => .bind (h.threadUnblock _) fun _ _ h => .assert (.ok h)

lemma Mirrors.freeDeferredLoop (n i : Nat) : Sim (freeDeferredLoop n k i) (freeDeferredLoop n (k.withSleeping s) i) := by
  induction n generalizing k s i with
  | zero => exact .error
  | succ n ih => exact .ite (fun _ => .ok h) fun _ => .bind (.assert (.ok h)) fun _ _ h => ih h _

lemma Mirrors.activate (cpu t next : Nat) : Sim (if t ≠ next then (k.deactivate t).activate cpu next else .ok k)
    (if t ≠ next then ((k.withSleeping s).deactivate t).activate cpu next else .ok (k.withSleeping s)) := by
  refine .ite (fun _ => ?_) fun _ => .ok h
  have hsame : (k.withSleeping s).deactivate t = (k.deactivate t).withSleeping s := by
    unfold deactivate
    change (if (k.threads t).state = .running then _ else _) = _
    split <;> rfl
  have hmirrors : Mirrors (k.deactivate t) s := by
    unfold deactivate
    split <;> exact h
  rw [hsame]
  exact .assert (.ok hmirrors)

lemma Mirrors.switchThreads (cpu t : Nat) : Sim (k.switchThreads cpu t) ((k.withSleeping s).switchThreads cpu t) := by
  have hnext : ∀ k s, Mirrors k s → Sim
      (let (k, next) := k.pickNextThread cpu; if t ≠ next then (k.deactivate t).activate cpu next else .ok k)
      (let (k, next) := (k.withSleeping s).pickNextThread cpu
        if t ≠ next then (k.deactivate t).activate cpu next else .ok k) := by
    intro k s h
    unfold pickNextThread
    rw [show (k.withSleeping s).mReadyThreads = k.mReadyThreads from rfl]
    cases k.mReadyThreads with
    | nil => exact h.activate cpu t _
    | cons next ready => exact Mirrors.activate (k := { k with mReadyThreads := ready }) h cpu t next
  exact .ite (fun _ => .bind (.assert (.ok h)) hnext) fun _ => .bind (.ok h) hnext

omit h

/-! ### The parts that work on the queue -/

lemma Mirrors.insertSleeping (h : Mirrors k s) {b : Nat} (hnew : b ∉ k.mSleepingThreads)
    (hlast : ∀ c ∈ k.mSleepingThreads.getLast?, (k.blockers c).wakeTime ≠ (k.blockers b).wakeTime) :
    Sim (SleepQueue.emplace k b) (SleepQueue.emplace (k.withSleeping s) b) := by
  obtain ⟨t, hshape, hends, horder⟩ := h
  have hfresh : s.nodes b = none := by
    by_contra hlive
    have hmem : b ∈ t.inorder.map Item.address := hshape.represents.mem_addresses.mpr hlive
    simp [horder, hnew] at hmem
  obtain ⟨s', t', before, after, hrun, hshape', hpl, hleft, hright⟩ := emplaceNew_spec b hshape hends hfresh
  rintro _ ⟨⟩
  refine ⟨s', ?_, t', hshape', ⟨hleft, hright.mpr fun y hy heq => ?_⟩, ?_⟩
  · have hemplace : s.emplace (wakeTraits k.blockers) b b = .ok (s', .node b, true) := by
      rw [emplace, hrun]
      rfl
    change (do let (sleeping, _) ← s.emplace (wakeTraits k.blockers) b b; _) = _
    rw [hemplace]
    rfl
  · rw [horder, getLast?_map] at hy
    obtain ⟨c, hc, rfl⟩ := Option.map_eq_some_iff.mp hy
    simp only [Traits.Equivalent, wakeTraits, byNumber, decide_eq_false_iff_not] at heq
    exact hlast c hc (by omega)
  · rw [hpl.new]
    obtain ⟨xs, ys, hsplit, rfl, rfl⟩ := map_eq_append_iff.mp (horder.symm.trans hpl.old)
    have hfront : ∀ c ∈ xs, decide ((k.blockers c).wakeTime < (k.blockers b).wakeTime) = true :=
      fun c hc => hpl.below (node c) (mem_map_of_mem hc)
    have hback : ∀ c ∈ ys, decide ((k.blockers c).wakeTime < (k.blockers b).wakeTime) = false :=
      fun c hc => hpl.notBelow (node c) (mem_map_of_mem hc)
    rw [Tasks.insertSleeping]
    rw [hsplit, takeWhile_append_of_pos hfront, dropWhile_append_of_pos hfront]
    cases ys with
    | nil => simp
    | cons c ys => simp [hback c mem_cons_self]

lemma searchLoop_eq {t : ColoredTree.CTree (Item Nat)} {traits : Traits Nat Nat} (h : Shape traits s t) {b : Nat}
    {front xs back : List (Item Nat)} (hsplit : t.inorder = front ++ (xs ++ node b :: back))
    (hother : ∀ x ∈ xs, x.value ≠ b) {n : Nat} (hn : xs.length < n) :
    searchLoop s b n (neighborPtr (xs ++ node b :: back).head?) = .ok (.node b) := by
  induction xs generalizing front n with
  | nil =>
    obtain ⟨n, rfl⟩ : ∃ m, n = m + 1 := ⟨n - 1, by simp at hn; omega⟩
    have hvalue : s.value (.node b) = .ok b := h.represents.value_of_mem (x := node b) (by simp [hsplit])
    simp [searchLoop, neighborPtr, hvalue]
  | cons x xs ih =>
    obtain ⟨n, rfl⟩ : ∃ m, n = m + 1 := ⟨n - 1, by omega⟩
    have hvalue := h.represents.value_of_mem (x := x) (by simp [hsplit])
    have hnext : s.increment (.node x.address) = _ := increment_spec h hsplit
    have hsplit' : t.inorder = front ++ [x] ++ (xs ++ node b :: back) := by simp [hsplit]
    have hrest := ih hsplit' (fun y hy => hother y (mem_cons_of_mem x hy)) (Nat.lt_of_succ_lt_succ hn)
    rw [cons_append, head?_cons, neighborPtr, searchLoop, if_neg (by simp), hvalue, ok_bind,
      if_neg (hother x mem_cons_self), hnext, ok_bind]
    exact hrest

lemma Mirrors.removeBlocker (h : Mirrors k s) (b : Nat) :
    Sim (SleepQueue.removeBlocker k b) (SleepQueue.removeBlocker (k.withSleeping s) b) := by
  intro k' hok
  obtain ⟨_, hfound, hreturn⟩ := of_bind hok
  have hmem : b ∈ k.mSleepingThreads := (dropWhile_sublist _).mem (of_decide_eq_true (assert_eq_ok.mp hfound))
  cases hreturn
  obtain ⟨t, hshape, hends, horder⟩ := h
  obtain ⟨xs, ys, hnot, hqueue, herase⟩ := exists_erase_eq hmem
  rw [hqueue, map_append, map_cons] at horder
  let isLess (x : Item Nat) : Bool := (wakeTraits k.blockers).less (k.blockers x.value).wakeTime (k.blockers b).wakeTime
  have hself : isLess (node b) = false := (wakeTraits k.blockers).less_irrefl _
  have hbound : s.lowerBoundNode (wakeTraits k.blockers) (k.blockers b).wakeTime = .ok (neighborPtr
      ((xs.map node).dropWhile isLess ++ node b :: ys.map node).head?) := by
    rw [lowerBoundNode_spec _ hshape.represents hshape.sorted hshape.size, horder, find?_eq_head?_dropWhile_not]
    simp only [Bool.not_not]
    change Except.ok (neighborPtr (dropWhile isLess _).head?) = _
    rw [dropWhile_append, dropWhile_cons_of_neg (by simp [hself])]
    split
    · rename_i hempty
      rw [isEmpty_iff.mp hempty, nil_append]
    · rfl
  have hshort : ((xs.map node).dropWhile isLess).length < s.fuel := by
    have hle := (dropWhile_sublist isLess (l := xs.map node)).length_le
    have hsize := hshape.size
    rw [horder, length_append, length_cons] at hsize
    rw [fuel]
    omega
  have hsplit : t.inorder = (xs.map node).takeWhile isLess ++ ((xs.map node).dropWhile isLess ++ node b :: ys.map node) := by
    rw [← append_assoc, takeWhile_append_dropWhile, horder]
  have hsearch := searchLoop_eq hshape hsplit (fun x hx heq => ?_) hshort
  · obtain ⟨s', t', hremove, hshape', hends', horder'⟩ := removeIterator_spec hshape hends horder
    have hvalue : s.value (.node b) = .ok b := hshape.represents.value_of_mem (x := node b) (by simp [horder])
    refine ⟨s', ?_, t', hshape', hends', ?_⟩
    · change removeFromTree (k.withSleeping s) b = _
      simp only [removeFromTree, withSleeping_mSleepingThreads, withSleeping_blockers, hbound, hsearch, ok_bind]
      simp only [hvalue, hremove, ok_bind, reduceCtorEq, ne_eq, not_false_eq_true, decide_true, assert_true]
      rfl
    · change t'.inorder = (k.mSleepingThreads.erase b).map _
      rw [horder', herase, map_append]
  · obtain ⟨c, hc, rfl⟩ := mem_map.mp ((dropWhile_sublist isLess).mem hx)
    exact hnot (heq ▸ hc)

lemma unblockUnchecked_mSleepingThreads {b : Nat} (hok : k.unblockUnchecked b = .ok k') :
    k'.mSleepingThreads = k.mSleepingThreads := by
  simp only [unblockUnchecked] at hok
  split at hok
  · cases hok
    rfl
  · obtain ⟨k1, hunblock, hinsert⟩ := of_bind hok
    obtain ⟨-, -, hinsert⟩ := of_bind hinsert
    cases hinsert
    unfold threadUnblock at hunblock
    split at hunblock
    · cases hunblock
    · cases hunblock
      dsimp only [updateThread]
      split <;> rfl

lemma Mirrors.wakeTreeLoop (now : Nat) {sleeping : List Nat} {n : Nat} (h : Mirrors k s)
    (hqueue : k.mSleepingThreads = sleeping) (hn : sleeping.length < n) : Sim (wakeLoop now sleeping k)
    (wakeTreeLoop now n (k.withSleeping s) (neighborPtr (sleeping.map node).head?)) := by
  induction sleeping generalizing k s n with
  | nil =>
    obtain ⟨n, rfl⟩ : ∃ m, n = m + 1 := ⟨n - 1, by simp at hn; omega⟩
    exact .ok h
  | cons b sleeping ih =>
    obtain ⟨n, rfl⟩ : ∃ m, n = m + 1 := ⟨n - 1, by omega⟩
    obtain ⟨t, hshape, hends, horder⟩ := id h
    rw [hqueue, map_cons] at horder
    have hvalue : s.value (.node b) = .ok b := hshape.represents.value_of_mem (x := node b) (by simp [horder])
    have hfirst : t.inorder = [] ++ node b :: sleeping.map node := horder
    have hnext := increment_spec hshape hfirst
    obtain ⟨s', t', hremove, hshape', hends', horder'⟩ := removeIterator_spec hshape hends hfirst
    have hmirrors : Mirrors { k with mSleepingThreads := sleeping } s' := ⟨t', hshape', hends', horder'⟩
    rw [map_cons, head?_cons, neighborPtr, Tasks.wakeTreeLoop, if_neg (by simp)]
    change Sim _ (do let b ← s.value (.node b); _)
    rw [hvalue, ok_bind, wakeLoop]
    refine Sim.ite (c := (k.blockers b).wakeTime ≤ now) (fun _ => ?_) fun _ => .ok h
    rw [withSleeping_mSleepingThreads, hnext, ok_bind, hremove, ok_bind]
    intro k2 hok
    obtain ⟨k1, hunblock, hrest⟩ := of_bind hok
    obtain ⟨s1, hunblock', h1⟩ := hmirrors.unblockUnchecked b k1 hunblock
    change ∃ _, (Tasks.unblockUnchecked (withSleeping { k with mSleepingThreads := sleeping } s') b >>= _) = _ ∧ _
    rw [hunblock']
    exact ih h1 (unblockUnchecked_mSleepingThreads hunblock) (Nat.lt_of_succ_lt_succ hn) k2 hrest

lemma Mirrors.wake (h : Mirrors k s) (now : Nat) :
    Sim (SleepQueue.wake k now) (SleepQueue.wake (k.withSleeping s) now) := by
  obtain ⟨t, hshape, hends, horder⟩ := id h
  have hsize : s.size = k.mSleepingThreads.length := by rw [hshape.size, horder, length_map]
  change Sim (wakeLoop now _ k) (if s.size = 0 then _ else Tasks.wakeTreeLoop now s.fuel _ s.leftMostNode)
  split
  · rename_i hzero
    rw [length_eq_zero_iff.mp (hsize.symm.trans hzero)]
    exact .ok h
  · rename_i hne
    have hfirst : s.leftMostNode = neighborPtr (k.mSleepingThreads.map node).head? := by
      rw [leftMostNode, if_neg hne, hends.left, horder]
      cases hqueue : k.mSleepingThreads with
      | nil => exact absurd (hsize.trans (congrArg length hqueue)) hne
      | cons b sleeping => rfl
    rw [hfirst]
    exact h.wakeTreeLoop now rfl (by rw [fuel]; omega)

lemma Mirrors.threadInterrupt (h : Mirrors k s) (t : Nat) : Sim
    (do let (k, interrupted) ← k.threadInterrupt t; if interrupted then k.insertReady t else .ok k)
    (do let (k, interrupted) ← (k.withSleeping s).threadInterrupt t; if interrupted then k.insertReady t else .ok k) := by
  unfold Tasks.threadInterrupt
  rw [withSleeping_threads]
  cases (k.threads t).blocker with
  | none => exact .error
  | some b =>
    dsimp only
    rw [withSleeping_blockers]
    by_cases hinterruptable : (k.blockers b).type.isInterruptable = true
    · rw [if_pos hinterruptable, if_pos hinterruptable]
      exact .assert (.ok (h.setResult b .interrupted))
    · rw [if_neg hinterruptable, if_neg hinterruptable]
      exact .ok h

lemma Mirrors.killThread (h : Mirrors k s) (q cur t : Nat) :
    Sim (k.killThread q cur t) ((k.withSleeping s).killThread q cur t) := by
  refine .ite (fun _ => .bind (.assert (.ok h)) fun _ _ h => .assert (.ok h)) fun _ => ?_
  have h : Mirrors (k.exitWith t 0) s := h
  rw [show (k.withSleeping s).exitWith t 0 = (k.exitWith t 0).withSleeping s from rfl]
  generalize k.exitWith t 0 = k at h
  dsimp only
  rw [withSleeping_threads]
  cases (k.threads t).state with
  | blocked =>
    cases (k.threads t).blocker with
    | none => exact .error
    | some b =>
      refine .ite (fun _ => .bind (.assert (.ok h)) fun _ _ h => ?_) fun _ => h.threadInterrupt t
      exact .bind (h.removeBlocker b) fun _ _ h => .assert (.ok h)
  | ready =>
    refine .bind (.assert (.ok h)) fun _ _ h => ?_
    exact .bind (.assert (.ok h)) fun _ _ h => .assert (.ok h)
  | _ => exact .ok h

lemma Mirrors.killLoop (h : Mirrors k s) (q cur : Nat) (ts : List Nat) :
    Sim (killLoop q cur ts k) (killLoop q cur ts (k.withSleeping s)) := by
  induction ts generalizing k s with
  | nil => exact .ok h
  | cons t ts ih => exact .bind (h.killThread q cur t) fun _ _ h => ih h

lemma Mirrors.exitProcessWith (h : Mirrors k s) (q : Nat) (code : Int) : Mirrors (k.exitProcessWith q code).1 s ∧
    (k.withSleeping s).exitProcessWith q code =
      ((k.exitProcessWith q code).1.withSleeping s, (k.exitProcessWith q code).2) := by
  unfold Tasks.exitProcessWith
  change _ ∧ (if (k.processes q).state = .alive then _ else _) = _
  split
  · exact ⟨h, rfl⟩
  · exact ⟨h, rfl⟩

lemma Mirrors.killCurrentThread (h : Mirrors k s) (cur : Nat) :
    Sim (k.killCurrentThread cur) ((k.withSleeping s).killCurrentThread cur) := by
  have h : Mirrors (k.setState cur .dead) s := h
  refine .ite (fun _ => h.killLoop _ cur _) fun _ => .bind (.assert (.ok h)) fun k s h => ?_
  have hlast (q : Nat) : Sim (Tasks.insertDeferred (if (k.processes q).aliveThreadCount = 0 then
        (k.exitProcessWith q (k.threads cur).exitCode).1 else k) cur)
      (Tasks.insertDeferred (if (k.processes q).aliveThreadCount = 0 then
        ((k.withSleeping s).exitProcessWith q (k.threads cur).exitCode).1 else k.withSleeping s) cur) := by
    obtain ⟨hexit, heq⟩ := h.exitProcessWith q (k.threads cur).exitCode
    rw [heq]
    split
    · exact .assert (.ok hexit)
    · exact .assert (.ok h)
  exact hlast _

lemma Mirrors.applyRequest (h : Mirrors k s) (cur : Nat) (hapart : ∀ b, (k.threads cur).requestedState = .blocked →
    (k.threads cur).blocker = some b → (k.blockers b).shouldBlock = true → (k.blockers b).type = .sleep →
    b ∉ k.mSleepingThreads ∧ ∀ c ∈ k.mSleepingThreads.getLast?, (k.blockers c).wakeTime ≠ (k.blockers b).wakeTime) :
    Sim (k.applyRequest cur) ((k.withSleeping s).applyRequest cur) := by
  unfold Tasks.applyRequest
  rw [withSleeping_threads]
  cases hrequest : (k.threads cur).requestedState with
  | undefined => exact .ok h
  | blocked =>
    cases hblocker : (k.threads cur).blocker with
    | none => exact .error
    | some b =>
      refine .ite (fun hblock => .ite (fun hsleep => ?_) fun _ => .bind (.ok h) fun _ _ h => .ok h) fun _ =>
        .bind (h.threadUnblock cur) fun _ _ h => .ok h
      obtain ⟨hnew, hlast⟩ := hapart b hrequest hblocker hblock hsleep
      exact .bind (Mirrors.insertSleeping (k := k.setState cur .blocked) h hnew hlast) fun _ _ h => .ok h
  | _ => exact .error

end UltraOS.Tasks
