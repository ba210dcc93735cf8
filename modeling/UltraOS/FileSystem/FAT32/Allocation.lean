import Mathlib.Data.List.Nodup
import UltraOS.FileSystem.FAT32.Lookup

/-!
# Allocating clusters

What `allocate_cluster_chain` does to the table: it takes the first free clusters in the order of
its two passes, links them behind the given cluster and puts an end mark into the last one.
-/

namespace UltraOS.FAT32

open List

variable {cluster c : Nat} {taken : List Nat}

section

def freeClusters (fat : Nat → Nat) (first count : Nat) : List Nat :=
  (List.range' first count).filter fun cluster => fat cluster = freeCluster

variable {fat fat' : Nat → Nat} {first n : Nat}

lemma mem_freeClusters : c ∈ freeClusters fat first n ↔ (first ≤ c ∧ c < first + n) ∧ fat c = freeCluster := by
  simp [freeClusters, mem_range'_1]

lemma nodup_freeClusters (fat : Nat → Nat) (first n : Nat) : (freeClusters fat first n).Nodup := (nodup_range').filter _

lemma freeClusters_cons_of_free (h : fat first = freeCluster) :
    freeClusters fat first (n + 1) = first :: freeClusters fat (first + 1) n := by
  simp [freeClusters, range'_succ, h]

lemma freeClusters_cons_of_used (h : fat first ≠ freeCluster) :
    freeClusters fat first (n + 1) = freeClusters fat (first + 1) n := by
  simp [freeClusters, range'_succ, h]

lemma freeClusters_congr (h : ∀ c, first ≤ c → c < first + n → (fat' c = freeCluster ↔ fat c = freeCluster)) :
    freeClusters fat' first n = freeClusters fat first n := by
  apply filter_congr
  intro c hc
  rw [mem_range'_1] at hc
  rw [decide_eq_decide]
  exact h c hc.1 hc.2

lemma length_freeClusters_of_taken (hnodup : taken.Nodup) (hfree : ∀ c ∈ taken, c ∈ freeClusters fat first n)
    (htaken : ∀ c ∈ taken, fat' c ≠ freeCluster) (hu : ∀ c, first ≤ c → c < first + n → c ∉ taken →
      (fat' c = freeCluster ↔ fat c = freeCluster)) :
    (freeClusters fat' first n).length + taken.length = (freeClusters fat first n).length := by
  have hperm : (taken ++ freeClusters fat' first n).Perm (freeClusters fat first n) := by
    rw [perm_ext_iff_of_nodup _ (nodup_freeClusters fat first n)]
    · intro c
      rw [mem_append]
      by_cases hmem : c ∈ taken
      · simp [hmem, hfree c hmem]
      · simp only [hmem, false_or, mem_freeClusters]
        constructor
        · intro h
          exact ⟨h.1, (hu c h.1.1 h.1.2 hmem).mp h.2⟩
        · intro h
          exact ⟨h.1, (hu c h.1.1 h.1.2 hmem).mpr h.2⟩
    · apply hnodup.append (nodup_freeClusters fat' first n)
      intro c hleft hright
      exact htaken c hleft (mem_freeClusters.mp hright).2
  have hlen := hperm.length_eq
  rw [length_append] at hlen
  omega

end

lemma entryType_eq_free_iff (v : Nat) : entryTypeOfFatValue v = .free ↔ v = freeCluster := by
  unfold entryTypeOfFatValue freeCluster
  split
  · simp_all
  · split
    · simp_all
    · split
      · simp_all
      · split <;> simp_all

section

variable {fs : FAT32} {clusters cs : List Nat}

lemma Chain.congr {fs' : FAT32} (h : fs.Chain cs)
    (heq : ∀ c ∈ cs, fs'.mFatCache c = fs.mFatCache c) : fs'.Chain cs := by
  induction cs with
  | nil => exact h
  | cons c ts ih =>
    rw [forall_mem_cons] at heq
    cases ts with
    | nil =>
      refine ⟨h.1, ?_⟩
      show entryTypeOfFatValue (fs'.mFatCache c) = .endOfChain
      rw [heq.1]
      exact h.2
    | cons next ts => exact ⟨h.1, by rw [heq.1]; exact h.2.1, ih h.2.2 heq.2⟩

lemma Chain.used (h : fs.Chain cs) : ∀ c ∈ cs, fs.mFatCache c ≠ freeCluster := by
  induction cs with
  | nil => simp
  | cons c ts ih =>
    cases ts with
    | nil =>
      intro last hlast hfree
      rw [mem_singleton.mp hlast] at hfree
      have hend : entryTypeOfFatValue (fs.mFatCache c) = .endOfChain := h.2
      rw [(entryType_eq_free_iff _).mpr hfree] at hend
      cases hend
    | cons next ts =>
      refine forall_mem_cons.mpr ⟨?_, ih h.2.2⟩
      intro hfree
      have hnext := (entryType_eq_link_iff next).mp (h.2.2.link next mem_cons_self)
      rw [h.2.1] at hfree
      unfold freeCluster at hfree
      omega

end

/-- The table after a pass over the clusters of a chain that is not complete. -/
def linkAll (fat : Nat → Nat) : (prev : Nat) → List Nat → Nat → Nat
  | _, [] => fat
  | prev, cluster :: rest => linkAll (fun i => if prev ≠ freeCluster ∧ i = prev then cluster else fat i) cluster rest

def endAt (fat : Nat → Nat) (cluster endOfChain : Nat) : Nat → Nat := fun i => if i = cluster then endOfChain else fat i

lemma link_eq (fs : FAT32) (prev c : Nat) :
    (if prev ≠ freeCluster then fs.setFatEntryAt prev c else fs) = { fs with
        mFatCache := fun i =>
          if prev ≠ freeCluster ∧ i = prev then c else fs.mFatCache i } := by
  split
  · rename_i hprev
    simp [setFatEntryAt, hprev]
  · rename_i hprev
    simp [hprev]

section

def Follows (fat : Nat → Nat) (endOfChain : Nat) : List Nat → Prop
  | [] => True
  | cluster :: rest =>
    match rest with
    | [] => fat cluster = endOfChain
    | next :: _ => fat cluster = next ∧ Follows fat endOfChain rest

variable {fat : Nat → Nat} {prev endOfChain : Nat} {ch : List Nat} {i : Nat}

lemma linkAll_of_not_mem (hprev : prev = freeCluster ∨ i ≠ prev) (hi : i ∉ ch) : linkAll fat prev ch i = fat i := by
  induction ch generalizing fat prev with
  | nil => rfl
  | cons c ch ih =>
    rw [mem_cons, not_or] at hi
    rw [linkAll, ih (Or.inr hi.1) hi.2]
    exact if_neg fun h => hprev.elim h.1 fun hne => hne h.2

lemma linkAll_prev (hprev : prev ≠ freeCluster) (hmem : prev ∉ c :: ch) : linkAll fat prev (c :: ch) prev = c := by
  rw [mem_cons, not_or] at hmem
  rw [linkAll, linkAll_of_not_mem (Or.inr hmem.1) hmem.2]
  exact if_pos ⟨hprev, rfl⟩

lemma endAt_of_ne (h : i ≠ c) : endAt fat c endOfChain i = fat i := if_neg h

lemma getLastD_mem (h : ch ≠ []) (prev : Nat) : ch.getLastD prev ∈ ch := by
  cases ch with
  | nil => exact absurd rfl h
  | cons c ch =>
    rw [getLastD_cons]
    exact getLastD_mem_cons

lemma follows_linkAll (hnodup : ch.Nodup) (hzero : freeCluster ∉ ch) :
    Follows (endAt (linkAll fat prev ch) (ch.getLastD prev) endOfChain) endOfChain ch := by
  induction ch generalizing fat prev with
  | nil => trivial
  | cons c ch ih =>
    obtain ⟨hc, hch⟩ := nodup_cons.mp hnodup
    rw [mem_cons, not_or] at hzero
    cases ch with
    | nil => exact if_pos rfl
    | cons next ch =>
      refine ⟨?_, ?_⟩
      · have hlast : c ≠ (next :: ch).getLastD c := by
          intro heq
          exact hc (heq ▸ getLastD_mem (cons_ne_nil next ch) c)
        rw [getLastD_cons, endAt_of_ne hlast, linkAll]
        exact linkAll_prev (fun h => hzero.1 h.symm) hc
      · rw [getLastD_cons, linkAll]
        exact ih hch hzero.2

end

section

variable {fs : FAT32} {n prev : Nat} {clusters cs ch free : List Nat}

/-- The two passes as one, over the clusters that they look at. -/
def allocateOver (count : Nat) : List Nat → FAT32 → (prev : Nat) → (chain : List Nat) → FAT32 × Nat × List Nat
  | [], fs, prev, chain => (fs, prev, chain)
  | cluster :: clusters, fs, prev, chain =>
    if entryTypeOfFatValue (fs.fatEntryAt cluster) ≠ .free then allocateOver count clusters fs prev chain
    else
      let chain := chain ++ [cluster]
      let fs := if prev ≠ freeCluster then fs.setFatEntryAt prev cluster else fs
      if chain.length = count then
        ({ fs with
            mFreeClusters := fs.mFreeClusters - count
            mLastFreeCluster := cluster + 1 }.setFatEntryAt cluster fs.mEndOfChain,
          cluster, chain)
      else allocateOver count clusters fs cluster chain

lemma allocatePass_eq (steps c : Nat) : allocatePass n steps c fs prev ch =
    allocateOver n (range' c steps) fs prev ch := by
  induction steps generalizing c fs prev ch with
  | zero => rfl
  | succ steps ih => simp only [allocatePass, range'_succ, allocateOver, ih]

lemma allocateOver_append (xs ys : List Nat) (hne : ch.length ≠ n) :
    allocateOver n (xs ++ ys) fs prev ch = let res := allocateOver n xs fs prev ch
      if res.2.2.length = n then res
      else allocateOver n ys res.1 res.2.1 res.2.2 := by
  induction xs generalizing fs prev ch with
  | nil => exact (if_neg hne).symm
  | cons c xs ih =>
    simp only [cons_append, allocateOver]
    split
    · exact ih hne
    · split
      · rfl
      · rename_i hlast
        exact ih hlast

lemma allocateOver_used (h : fs.mFatCache c ≠ freeCluster) :
    allocateOver n (c :: cs) fs prev ch = allocateOver n cs fs prev ch :=
  if_pos fun htype => h ((entryType_eq_free_iff _).mp htype)

lemma allocateOver_free (h : fs.mFatCache c = freeCluster) :
    allocateOver n (c :: cs) fs prev ch = if ch.length + 1 = n then
        ({ fs with
            mFatCache := endAt (linkAll fs.mFatCache prev [c]) c fs.mEndOfChain
            mFreeClusters := fs.mFreeClusters - n
            mLastFreeCluster := c + 1 }, c, ch ++ [c])
      else allocateOver n cs { fs with mFatCache := linkAll fs.mFatCache prev [c] } c
        (ch ++ [c]) := by
  have htype : entryTypeOfFatValue (fs.fatEntryAt c) = .free := (entryType_eq_free_iff _).mpr h
  rw [allocateOver, if_neg (not_not.mpr htype), link_eq]
  dsimp only
  rw [length_append, length_singleton]
  rfl

lemma allocateOver_eq (hnodup : cs.Nodup) (hzero : freeCluster ∈ cs → fs.mFatCache freeCluster ≠ freeCluster)
    (hprev : prev = freeCluster ∨ fs.mFatCache prev ≠ freeCluster ∨ prev ∉ cs)
    (hfree : cs.filter (fun c => fs.mFatCache c = freeCluster) = free)
    (hlen : ch.length < n) (htaken : free.take (n - ch.length) = taken) :
    if n ≤ ch.length + free.length then
      allocateOver n cs fs prev ch = ({ fs with
          mFatCache := endAt (linkAll fs.mFatCache prev taken) (taken.getLastD prev) fs.mEndOfChain
          mFreeClusters := fs.mFreeClusters - n
          mLastFreeCluster := taken.getLastD prev + 1 }, taken.getLastD prev, ch ++ taken)
    else (allocateOver n cs fs prev ch).2.2 = ch ++ free := by
  induction cs generalizing fs prev ch free taken with
  | nil =>
    subst hfree
    rw [if_neg (by simpa using hlen)]
    simp [allocateOver]
  | cons c cs ih =>
    obtain ⟨hnot, hnodup⟩ := nodup_cons.mp hnodup
    by_cases hc : fs.mFatCache c = freeCluster
    · have hne : c ≠ freeCluster := fun h => hzero (h ▸ mem_cons_self) (h ▸ hc)
      have hsame : cs.filter (fun i => linkAll fs.mFatCache prev [c] i = freeCluster) =
          cs.filter fun i => fs.mFatCache i = freeCluster := by
        apply filter_congr
        intro i hi
        rw [decide_eq_decide, linkAll, linkAll]
        split
        · rename_i hlinked
          have hused := (hprev.resolve_left hlinked.1).resolve_right fun h => h (hlinked.2 ▸ mem_cons_of_mem c hi)
          simp [hlinked.2, hne, hused]
        · rfl
      rw [filter_cons_of_pos (by simpa using hc)] at hfree
      generalize cs.filter (fun i => fs.mFatCache i = freeCluster) = ts at hfree hsame
      subst hfree
      rw [show n - ch.length = n - (ch.length + 1) + 1 by omega, take_succ_cons] at htaken
      rw [allocateOver_free hc, length_cons, add_comm ts.length, ← add_assoc]
      by_cases hlast : ch.length + 1 = n
      · rw [if_pos (by omega), if_pos hlast, ← htaken, show n - (ch.length + 1) = 0 by omega, take_zero]
        rfl
      · have hzero' (h : freeCluster ∈ cs) : linkAll fs.mFatCache prev [c] freeCluster ≠ freeCluster := by
          rw [linkAll, linkAll, if_neg fun h' => h'.1 h'.2.symm]
          exact hzero (mem_cons_of_mem c h)
        have hrest := @ih _ { fs with mFatCache := linkAll fs.mFatCache prev [c] } c (ch ++ [c]) _
          hnodup hzero' (Or.inr (Or.inr hnot)) hsame (by rw [length_append, length_singleton]; omega) rfl
        rw [length_append, length_singleton] at hrest
        rw [if_neg hlast]
        split at hrest
        · rename_i hfit
          rw [if_pos hfit, hrest, ← htaken, linkAll, getLastD_cons, append_assoc]
          rfl
        · rename_i hshort
          rw [if_neg hshort, hrest, append_assoc]
          rfl
    · rw [allocateOver_used hc]
      rw [filter_cons_of_neg (by simpa using hc)] at hfree
      exact ih hnodup (fun h => hzero (mem_cons_of_mem c h))
        (hprev.imp_right (Or.imp_right fun h h' => h (mem_cons_of_mem c h'))) hfree hlen htaken

end

variable {fs : FAT32} {n linkTo : Nat}

/-- The clusters in the order in which `allocate_cluster_chain` looks at them. -/
def looked (fs : FAT32) : List Nat :=
  range' fs.mLastFreeCluster (fs.mClusterCount - fs.mLastFreeCluster) ++
    range' reservedClusterCount (fs.mLastFreeCluster - reservedClusterCount)

/-- The free clusters in the order in which `allocate_cluster_chain` looks at them. -/
def candidates (fs : FAT32) : List Nat :=
  freeClusters fs.mFatCache fs.mLastFreeCluster (fs.mClusterCount - fs.mLastFreeCluster) ++
    freeClusters fs.mFatCache reservedClusterCount (fs.mLastFreeCluster - reservedClusterCount)

lemma mem_candidates : c ∈ fs.candidates ↔ fs.mFatCache c = freeCluster ∧
      (fs.mLastFreeCluster ≤ c ∧ c < fs.mClusterCount ∨ reservedClusterCount ≤ c ∧ c < fs.mLastFreeCluster) := by
  rw [candidates, mem_append, mem_freeClusters, mem_freeClusters]
  omega

lemma nodup_looked (fs : FAT32) : fs.looked.Nodup := by
  apply (nodup_range').append (nodup_range')
  intro c hfront hback
  have hge := (mem_range'_1.mp hfront).1
  have hlt := mem_range'_1.mp hback
  unfold reservedClusterCount at hlt
  omega

lemma zero_of_looked (h : freeCluster ∈ fs.looked) : fs.mLastFreeCluster = freeCluster := by
  simp only [looked, mem_append, mem_range'_1, freeCluster, reservedClusterCount] at h ⊢
  omega

lemma filter_looked (fs : FAT32) : fs.looked.filter (fun c => fs.mFatCache c = freeCluster) = fs.candidates :=
  filter_append _ _

lemma nodup_candidates (fs : FAT32) : fs.candidates.Nodup := filter_looked fs ▸ (nodup_looked fs).filter _

def allocated (fs : FAT32) (linkTo : Nat) (chain : List Nat) : FAT32 :=
  { fs with
    mFatCache := endAt (linkAll fs.mFatCache linkTo chain) (chain.getLastD linkTo) fs.mEndOfChain
    mFreeClusters := fs.mFreeClusters - chain.length
    mLastFreeCluster := chain.getLastD linkTo + 1 }

lemma allocated_of_not_mem {ch : List Nat} {i : Nat} (hne : ch ≠ []) (hi : i ∉ ch)
    (hlink : linkTo = freeCluster ∨ i ≠ linkTo) : (fs.allocated linkTo ch).mFatCache i = fs.mFatCache i :=
  (endAt_of_ne fun heq : i = ch.getLastD linkTo => hi (heq ▸ getLastD_mem hne linkTo)).trans
    (linkAll_of_not_mem hlink hi)

lemma allocated_linkTo {ch : List Nat} (hlink : linkTo ≠ freeCluster) (hmem : linkTo ∉ c :: ch) :
    (fs.allocated linkTo (c :: ch)).mFatCache linkTo = c :=
  (endAt_of_ne fun heq : linkTo = (c :: ch).getLastD linkTo =>
    hmem (heq ▸ getLastD_mem (cons_ne_nil _ _) linkTo)).trans (linkAll_prev hlink hmem)

lemma asserts_of_allocateClusterChain {res : FAT32 × List Nat}
    (h : fs.allocateClusterChain n linkTo = .ok res) : n ≠ 0 ∧ n ≤ fs.mFreeClusters := by
  obtain ⟨_, hn, h⟩ := of_bind h
  obtain ⟨_, hle, -⟩ := of_bind h
  exact ⟨of_decide_eq_true (assert_eq_ok.mp hn), of_decide_eq_true (assert_eq_ok.mp hle)⟩

lemma allocateClusterChain_over (hn : n ≠ 0) (hle : n ≤ fs.mFreeClusters) :
    fs.allocateClusterChain n linkTo = let res := allocateOver n fs.looked fs linkTo []
      if res.2.2.length = n then .ok (res.1, res.2.2)
      else .error (.panic ("FAT32: Failed to allocate enough clusters, requested: " ++ toString n)) := by
  rw [allocateClusterChain, assert_bind hn, decide_eq_true hle,
    assert_true, ok_bind, looked, allocateOver_append _ _ (show [].length ≠ n from hn.symm)]
  simp only [allocatePass_eq]
  split <;> simp

/-- `allocate_cluster_chain` takes the first candidates, and panics if there are too few of them. -/
lemma allocateClusterChain_eq (hzero : fs.mLastFreeCluster = freeCluster → fs.mFatCache freeCluster ≠ freeCluster)
    (hlink : linkTo = freeCluster ∨ fs.mFatCache linkTo ≠ freeCluster) (hn : n ≠ 0)
    (hle : n ≤ fs.mFreeClusters) :
    fs.allocateClusterChain n linkTo = if n ≤ fs.candidates.length then
        .ok (fs.allocated linkTo (fs.candidates.take n), fs.candidates.take n)
      else
        .error (.panic ("FAT32: Failed to allocate enough clusters, requested: " ++ toString n)) := by
  have hover := allocateOver_eq (nodup_looked fs) (fun h => hzero (zero_of_looked h)) (hlink.imp_right Or.inl) (filter_looked fs)
    (show [].length < n from Nat.pos_of_ne_zero hn) rfl
  rw [allocateClusterChain_over hn hle]
  simp only [length_nil, zero_add, Nat.sub_zero, nil_append] at hover
  split at hover
  · rename_i hfit
    simp [hover, hfit, allocated]
  · rename_i hshort
    simp [hover, hshort]
    omega

/-- The effect of an allocation, unless entry 0 is taken for a cluster or the chain is put behind a free one. -/
theorem allocateClusterChain_effect {fs' : FAT32} {chain : List Nat} (hzero : fs.mLastFreeCluster = freeCluster →
    fs.mFatCache freeCluster ≠ freeCluster) (hlink : linkTo = freeCluster ∨ fs.mFatCache linkTo ≠ freeCluster)
    (h : fs.allocateClusterChain n linkTo = .ok (fs', chain)) : chain.length = n ∧ chain.Nodup ∧
    (∀ c ∈ chain, fs.mFatCache c = freeCluster) ∧ (linkTo ≠ freeCluster → chain.head? = some (fs'.mFatCache linkTo)) ∧
    Follows fs'.mFatCache fs.mEndOfChain chain ∧ (∀ i ∉ chain, linkTo = freeCluster ∨ i ≠ linkTo →
    fs'.mFatCache i = fs.mFatCache i) ∧ fs'.mFreeClusters = fs.mFreeClusters - n ∧ ∀ cs, fs.Chain cs →
    cs.Disjoint chain ∧ (linkTo ∉ cs → fs'.Chain cs) := by
  obtain ⟨hn, hle⟩ := asserts_of_allocateClusterChain h
  rw [allocateClusterChain_eq hzero hlink hn hle] at h
  split at h
  · rename_i hfit
    have hlen := length_take_of_le hfit
    have hnodup := (take_sublist n _).nodup (nodup_candidates fs)
    have hmem (c) (hc : c ∈ fs.candidates.take n) := mem_candidates.mp (mem_of_mem_take hc)
    generalize fs.candidates.take n = taken at h hlen hnodup hmem
    cases h
    have hfree (c) (hc : c ∈ chain) := (hmem c hc).1
    have hnot : freeCluster ∉ chain := by
      intro hc
      have hr := (hmem _ hc).2
      unfold freeCluster reservedClusterCount at hr
      exact hzero (show fs.mLastFreeCluster = 0 by omega) (hfree _ hc)
    obtain ⟨first, ts, rfl⟩ := exists_cons_of_length_pos (hlen.symm ▸ Nat.pos_of_ne_zero hn)
    refine ⟨hlen, hnodup, hfree, fun hused => ?_, follows_linkAll hnodup hnot,
      fun i hi hne => allocated_of_not_mem (cons_ne_nil first ts) hi hne, hlen ▸ rfl, fun cs hcs => ?_⟩
    · rw [allocated_linkTo hused fun hc => hlink.resolve_left hused (hfree _ hc), head?_cons]
    · have hdisj : cs.Disjoint (first :: ts) := fun c hc hc' => hcs.used c hc (hfree c hc')
      refine ⟨hdisj, fun hnotMem => hcs.congr fun c hc => ?_⟩
      exact allocated_of_not_mem (cons_ne_nil first ts) (fun hc' => hdisj hc hc') (Or.inr fun heq => hnotMem (heq ▸ hc))
  · cases h

theorem allocateClusterChain_effect_two :
    ∃ fs, ({ linkedVolume fun i => if i < 3 then 0x0FFFFFFF else 0 with mFreeClusters := 2 } : FAT32).allocateClusterChain
      2 2 = .ok (fs, [3, 4]) ∧ Follows fs.mFatCache 0x0FFFFFFF [3, 4] :=
  have hok : ({ linkedVolume fun i => if i < 3 then 0x0FFFFFFF else 0 with mFreeClusters := 2 } :
      FAT32).allocateClusterChain 2 2 = .ok (_, [3, 4]) := rfl
  ⟨_, hok, (allocateClusterChain_effect (by decide) (by decide) hok).2.2.2.2.1⟩

/-- Allocated at the hint 0, cluster 0 is not linked to the next one. -/
theorem not_follows_zeroHint :
    ∃ fs, ({ linkedVolume fun i => if i = 1 then 0x0FFFFFFF else 0 with mFreeClusters := 2 } : FAT32).allocateClusterChain
      2 0 = .ok (fs, [0, 2]) ∧ ¬ Follows fs.mFatCache 0x0FFFFFFF [0, 2] :=
  ⟨_, rfl, fun h => absurd h.1 (by decide)⟩

end UltraOS.FAT32
