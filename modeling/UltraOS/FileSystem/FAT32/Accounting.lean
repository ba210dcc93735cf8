import UltraOS.Library.Machine
import UltraOS.FileSystem.FAT32.Extend

/-!
# Counting free clusters

`m_free_clusters` over runs that allocate and free chains. The count starts right, an allocation
keeps it right exactly if it finds enough clusters among those that it looks at and marks all of
them as used, and freeing a chain always breaks it.
-/

namespace UltraOS.FAT32

open List

variable {fs : FAT32} {count linkTo : Nat}

def Counted (fs : FAT32) : Prop :=
  fs.mFreeClusters = (freeClusters fs.mFatCache reservedClusterCount fs.mClusterCount).length

lemma freeClusters_concat (fat : Nat → Nat) (first count : Nat) : freeClusters fat first (count + 1) =
    freeClusters fat first count ++ if fat (first + count) = freeCluster then [first + count] else [] := by
  rw [freeClusters, range'_concat, filter_append, freeClusters, one_mul]
  congr 1
  split
  · rename_i h
    simp [h]
  · rename_i h
    simp [h]

lemma capacityLoop_eq (fs : FAT32) (lastFatEntry : Nat) (hlast : fs.mLastFreeCluster = freeCluster) :
    fs.capacityLoop (lastFatEntry + 1) = { fs with
      mFreeClusters := fs.mFreeClusters + (freeClusters fs.mFatCache reservedClusterCount lastFatEntry).length } := by
  induction lastFatEntry generalizing fs with
  | zero => rfl
  | succ lastFatEntry ih =>
    have hi : reservedClusterCount + lastFatEntry = lastFatEntry + 1 + 1 := add_comm 2 _
    rw [capacityLoop, if_pos (by omega), freeClusters_concat, hi]
    by_cases hfree : fs.mFatCache (lastFatEntry + 1 + 1) = freeCluster
    · have he : fs.fatEntryAt (lastFatEntry + 1 + 1) = freeCluster := hfree
      dsimp only
      rw [he, if_pos rfl, if_pos hfree, ih _ rfl, length_append, length_singleton, ← hlast]
      dsimp only
      congr 1
      omega
    · have he : fs.fatEntryAt (lastFatEntry + 1 + 1) ≠ freeCluster := hfree
      dsimp only
      rw [if_neg he, if_neg hfree, ih fs hlast, append_nil]

lemma calculateCapacity_eq (fs : FAT32) (hlast : fs.mLastFreeCluster = freeCluster) (hfree : fs.mFreeClusters = 0) :
    fs.calculateCapacity = { fs with
      mFreeClusters :=
        (freeClusters fs.mFatCache reservedClusterCount fs.mClusterCount).length } := by
  have he : fs.mClusterCount + 2 - 1 = fs.mClusterCount + 1 := by omega
  rw [calculateCapacity, he, capacityLoop_eq fs _ hlast, hfree, zero_add]

variable {ch : List Nat} {fat : Nat → Nat}

/-- The clusters of a chain that the table shows as used after the allocation. -/
def marked (fs : FAT32) (linkTo : Nat) (chain : List Nat) : List Nat :=
  chain.filter fun cluster => reservedClusterCount ≤ cluster ∧
    (fs.allocated linkTo chain).mFatCache cluster ≠ freeCluster

lemma length_freeClusters_allocated (fs : FAT32) (linkTo : Nat) (hne : ch ≠ []) (hnodup : ch.Nodup)
    (hfree : ∀ cl ∈ ch, fs.mFatCache cl = freeCluster ∧ cl < reservedClusterCount + fs.mClusterCount)
    (hzero : freeCluster ∉ ch) (hlink : linkTo = freeCluster ∨ fs.mFatCache linkTo ≠ freeCluster) :
    (freeClusters (fs.allocated linkTo ch).mFatCache reservedClusterCount fs.mClusterCount).length +
    (fs.marked linkTo ch).length = (freeClusters fs.mFatCache reservedClusterCount fs.mClusterCount).length := by
  apply length_freeClusters_of_taken (hnodup.filter _)
  · intro cl hcl
    obtain ⟨hmem, hcond⟩ := mem_filter.mp hcl
    exact mem_freeClusters.mpr ⟨⟨(of_decide_eq_true hcond).1, (hfree cl hmem).2⟩, (hfree cl hmem).1⟩
  · intro cl hcl
    exact (of_decide_eq_true (mem_filter.mp hcl).2).2
  · intro cl hge hlt hnot
    by_cases hmem : cl ∈ ch
    · have hsame : (fs.allocated linkTo ch).mFatCache cl = freeCluster := by
        by_contra hne'
        exact hnot (mem_filter.mpr ⟨hmem, decide_eq_true ⟨hge, hne'⟩⟩)
      simp [hsame, (hfree cl hmem).1]
    · by_cases hlinkTo : linkTo = freeCluster ∨ cl ≠ linkTo
      · rw [allocated_of_not_mem hne hmem hlinkTo]
      · rw [not_or, not_not] at hlinkTo
        obtain ⟨hused, rfl⟩ := hlinkTo
        obtain ⟨first, ts, rfl⟩ := exists_cons_of_ne_nil hne
        have hfirst : first ≠ freeCluster := fun h => hzero (by rw [h]; exact mem_cons_self)
        rw [allocated_linkTo hused hmem]
        simp [hfirst, hlink.resolve_left hused]

lemma Follows.ne_free {endOfChain : Nat} (h : Follows fat endOfChain ch) (hzero : freeCluster ∉ ch)
    (hend : endOfChain ≠ freeCluster) : ∀ cl ∈ ch, fat cl ≠ freeCluster := by
  induction ch with
  | nil => simp
  | cons cl ts ih =>
    rw [mem_cons, not_or] at hzero
    cases ts with
    | nil =>
      intro last hlast
      rwa [mem_singleton.mp hlast, show fat cl = endOfChain from h]
    | cons next ts =>
      refine forall_mem_cons.mpr ⟨?_, ih h.2 hzero.2⟩
      rw [h.1]
      exact fun hnext => hzero.2 (by rw [hnext]; exact mem_cons_self)

lemma counted_allocated_iff (hcnt : fs.Counted) (hne : ch ≠ []) (hnodup : ch.Nodup)
    (hfree : ∀ cl ∈ ch, fs.mFatCache cl = freeCluster ∧ cl < reservedClusterCount + fs.mClusterCount)
    (hzero : freeCluster ∉ ch) (hlink : linkTo = freeCluster ∨ fs.mFatCache linkTo ≠ freeCluster)
    (hle : ch.length ≤ fs.mFreeClusters) : (fs.allocated linkTo ch).Counted ↔
    (∀ cl ∈ ch, reservedClusterCount ≤ cl) ∧ fs.mEndOfChain ≠ freeCluster := by
  have hlen := length_freeClusters_allocated fs linkTo hne hnodup hfree hzero hlink
  have hfol : Follows (fs.allocated linkTo ch).mFatCache fs.mEndOfChain ch := follows_linkAll hnodup hzero
  have hlast : (fs.allocated linkTo ch).mFatCache (ch.getLastD linkTo) = fs.mEndOfChain := if_pos rfl
  have hall : (fs.marked linkTo ch).length = ch.length ↔
      (∀ cl ∈ ch, reservedClusterCount ≤ cl) ∧ fs.mEndOfChain ≠ freeCluster := by
    rw [marked, length_filter_eq_length_iff]
    simp only [decide_eq_true_eq]
    constructor
    · intro h
      refine ⟨fun cl hmem => (h cl hmem).1, ?_⟩
      rw [← hlast]
      exact (h _ (getLastD_mem hne linkTo)).2
    · intro h cl hmem
      exact ⟨h.1 cl hmem, hfol.ne_free hzero h.2 cl hmem⟩
  rw [← hall]
  have hmarked : (fs.marked linkTo ch).length ≤ ch.length := length_filter_le _ _
  unfold Counted at hcnt ⊢
  have hn : (fs.allocated linkTo ch).mFreeClusters = fs.mFreeClusters - ch.length := rfl
  have hcs : (fs.allocated linkTo ch).mClusterCount = fs.mClusterCount := rfl
  rw [hn, hcs]
  omega

section

variable (hhint : fs.mLastFreeCluster ≤ fs.mClusterCount)

include hhint in
lemma length_candidates (hzero : fs.mLastFreeCluster = 0 → fs.mFatCache 0 ≠ freeCluster)
    (hone : fs.mLastFreeCluster ≤ 1 → fs.mFatCache 1 ≠ freeCluster) : fs.candidates.length =
    (freeClusters fs.mFatCache reservedClusterCount (fs.mClusterCount - reservedClusterCount)).length := by
  apply List.Perm.length_eq
  rw [perm_ext_iff_of_nodup (nodup_candidates fs) (nodup_freeClusters _ _ _)]
  intro cl
  rw [mem_candidates, mem_freeClusters]
  unfold reservedClusterCount
  constructor
  · intro h
    have hge : 2 ≤ cl := by
      by_contra hlt
      have hcases : cl = 0 ∨ cl = 1 := by omega
      rcases hcases with rfl | rfl
      · exact hzero (by omega) h.1
      · exact hone (by omega) h.1
    exact ⟨by omega, h.1⟩
  · intro h
    exact ⟨h.2, by omega⟩

lemma candidates_eq_cons_one (hle : fs.mLastFreeCluster ≤ 1)
    (hzero : fs.mLastFreeCluster = 0 → fs.mFatCache 0 ≠ freeCluster) (hone : fs.mFatCache 1 = freeCluster)
    (hne : fs.candidates ≠ []) : ∃ tail, fs.candidates = 1 :: tail := by
  obtain ⟨cl, hmem⟩ := exists_mem_of_ne_nil _ hne
  obtain ⟨hfree, hcases⟩ := mem_candidates.mp hmem
  have hpos : cl ≠ 0 := by
    intro h
    rw [h] at hfree hcases
    exact hzero (by unfold reservedClusterCount at hcases; omega) hfree
  obtain ⟨n, hn⟩ : ∃ n, fs.mClusterCount = n + 2 := ⟨fs.mClusterCount - 2, by omega⟩
  rw [candidates, hn]
  have hcases : fs.mLastFreeCluster = 0 ∨ fs.mLastFreeCluster = 1 := by omega
  rcases hcases with hhint | hhint
  · rw [hhint, Nat.sub_zero, freeClusters_cons_of_used (hzero hhint), freeClusters_cons_of_free hone]
    exact ⟨_, rfl⟩
  · rw [hhint, show n + 2 - 1 = n + 1 from rfl, freeClusters_cons_of_free hone]
    exact ⟨_, rfl⟩

end

variable {fs' : FAT32}

lemma length_freeClusters_le {fat' : Nat → Nat} (h : ∀ cl, fat cl = freeCluster → fat' cl = freeCluster)
    (first count : Nat) : (freeClusters fat first count).length ≤ (freeClusters fat' first count).length := by
  apply List.Sublist.length_le
  apply monotone_filter_right
  intro cl hfree
  exact decide_eq_true (h cl (of_decide_eq_true hfree))

/-- A pass that finds entry 0 free takes it as a cluster, and uses up one counted cluster less than it was
asked for. -/
lemma allocateOver_zero {cs : List Nat} {prev : Nat} (hne : count ≠ 0) (hfree : fs.mFatCache 0 = freeCluster)
    (hnodup : cs.Nodup) (hcs : ∀ cl ∈ cs, 1 ≤ cl ∧ cl < fs.mClusterCount)
    (h : allocateOver count (0 :: cs) fs linkTo [] = (fs', prev, ch)) (hn : ch.length = count) :
    fs'.mFreeClusters = fs.mFreeClusters - count ∧ fs'.mClusterCount = fs.mClusterCount ∧
    (freeClusters fs.mFatCache reservedClusterCount fs.mClusterCount).length <
      (freeClusters fs'.mFatCache reservedClusterCount fs.mClusterCount).length + count := by
  have hstays : ∀ cl, fs.mFatCache cl = freeCluster → linkAll fs.mFatCache linkTo [0] cl = freeCluster := by
    intro cl hcl
    rw [linkAll, linkAll]
    split
    · rfl
    · exact hcl
  have hmore := length_freeClusters_le hstays reservedClusterCount fs.mClusterCount
  rw [allocateOver_free hfree, length_nil, zero_add, nil_append] at h
  generalize linkAll fs.mFatCache linkTo [0] = fat at h hmore
  by_cases hone : 1 = count
  · rw [if_pos hone] at h
    cases h
    refine ⟨rfl, rfl, ?_⟩
    have hsame : freeClusters (endAt fat 0 fs.mEndOfChain) reservedClusterCount fs.mClusterCount =
        freeClusters fat reservedClusterCount fs.mClusterCount := by
      apply freeClusters_congr
      intro cl hge _
      rw [endAt_of_ne (by unfold reservedClusterCount at hge; omega)]
    rw [hsame]
    omega
  · rw [if_neg hone] at h
    have hover := @allocateOver_eq _ { fs with mFatCache := fat } count 0 cs [0] _ hnodup
      (fun hmem => absurd (hcs _ hmem).1 (by decide)) (Or.inl rfl) rfl
      (by rw [length_singleton]; omega) rfl
    rw [h] at hover
    split at hover
    · rename_i hfit
      have hsub := (take_sublist (count - 1) _).trans (filter_sublist (p := fun c => fat c = freeCluster) (l := cs))
      have hall : ∀ c ∈ (cs.filter fun c => fat c = freeCluster).take (count - 1), fat c = freeCluster :=
        fun c hc => of_decide_eq_true (mem_filter.mp (mem_of_mem_take hc)).2
      have hlen := length_take_of_le (Nat.sub_le_iff_le_add'.mpr hfit)
      rw [length_singleton] at hover hlen
      generalize (cs.filter fun c => fat c = freeCluster).take (count - 1) = taken at hover hsub hlen hall
      cases hover
      refine ⟨rfl, rfl, ?_⟩
      have hmarked := length_freeClusters_allocated { fs with mFatCache := fat } 0
        (ne_nil_of_length_pos (by omega : 0 < taken.length)) (hsub.nodup hnodup)
        (fun c hc => ⟨hall c hc, Nat.lt_add_left _ (hcs c (hsub.subset hc)).2⟩)
        (fun hmem => absurd (hcs _ (hsub.subset hmem)).1 (by decide)) (Or.inl rfl)
      have hle := length_filter_le (fun cl => decide (reservedClusterCount ≤ cl ∧
        ({ fs with mFatCache := fat }.allocated 0 taken).mFatCache cl ≠ freeCluster)) taken
      rw [marked] at hmarked
      dsimp only [allocated] at hmarked hle ⊢
      omega
    · rename_i hshort
      rw [show ch = _ from hover, length_append] at hn
      omega

lemma not_counted_of_zero (hcnt : fs.Counted) (hhint : fs.mLastFreeCluster = 0) (hfree : fs.mFatCache 0 = freeCluster)
    (h : fs.allocateClusterChain count linkTo = .ok (fs', ch)) : ¬ fs'.Counted := by
  obtain ⟨hn, hle⟩ := asserts_of_allocateClusterChain h
  rw [allocateClusterChain_over hn hle] at h
  unfold Counted at hcnt ⊢
  cases hsteps : fs.mClusterCount with
  | zero =>
    rw [hsteps] at hcnt
    exact absurd (hcnt ▸ hle) (by simpa [freeClusters] using hn)
  | succ steps =>
    have hlooked : fs.looked = 0 :: range' 1 steps := by simp [looked, hhint, hsteps, range'_succ]
    generalize hover : allocateOver count fs.looked fs linkTo [] = res at h
    obtain ⟨fs1, prev, chain1⟩ := res
    dsimp only at h
    split at h
    · rename_i hdone
      cases h
      obtain ⟨hcount1, hcs, hlt⟩ := allocateOver_zero hn hfree (nodup_range') (fun cl hmem => by
        have hr := mem_range'_1.mp hmem
        omega) (hlooked ▸ hover) hdone
      rw [hcount1, hcs]
      omega
    · cases h

section

variable {rest ts : List Nat}

/-- The entries of the table that the loop reads and writes. -/
def freeAccesses : (fuel : Nat) → FAT32 → (current : Nat) → List Nat
  | 0, _, _ => []
  | fuel + 1, fs, current => current ::
    if entryTypeOfFatValue (fs.fatEntryAt current) = .endOfChain then []
    else freeAccesses fuel (fs.setFatEntryAt current freeCluster) (fs.fatEntryAt current)

lemma freeLoop_eq {cur : Nat} (h : fs.Chain (cur :: ts)) (n : Nat) (hm : ts.length < n) :
    freeLoop n fs cur = .ok { fs with
      mFatCache := fun i => if i ∈ cur :: ts then freeCluster else fs.mFatCache i } ∧
      freeAccesses n fs cur = cur :: ts := by
  induction ts generalizing cur fs n with
  | nil =>
    obtain ⟨n, rfl⟩ := Nat.exists_eq_succ_of_ne_zero hm.ne'
    have hend : entryTypeOfFatValue (fs.fatEntryAt cur) = .endOfChain := h.2
    simp [freeLoop, freeAccesses, hend, setFatEntryAt]
  | cons next ts ih =>
    obtain ⟨n, rfl⟩ := Nat.exists_eq_succ_of_ne_zero (ne_of_gt (Nat.zero_lt_of_lt hm))
    have he : fs.fatEntryAt cur = next := h.2.1
    have hlink : entryTypeOfFatValue next ≠ .endOfChain := by
      rw [h.2.2.link next mem_cons_self]
      exact FATEntryType.noConfusion
    have hch : (fs.setFatEntryAt cur freeCluster).Chain (next :: ts) := by
      apply h.2.2.congr
      intro cl hcl
      exact if_neg fun (heq : cl = cur) => (nodup_cons.mp h.nodup).1 (heq ▸ hcl)
    obtain ⟨hloop, haccesses⟩ := ih hch n (by rw [length_cons] at hm; omega)
    rw [freeLoop, freeAccesses, he, if_neg hlink, if_neg hlink, hloop, haccesses]
    refine ⟨?_, rfl⟩
    congr 2
    funext i
    simp only [setFatEntryAt, mem_cons (a := i) (b := cur)]
    by_cases hi : i = cur
    · simp [hi]
    · simp [hi]

lemma freeLoop_free {n cur i : Nat} (hok : freeLoop n fs cur = .ok fs')
    (hfree : i = cur ∨ fs.mFatCache i = freeCluster) : fs'.mFatCache i = freeCluster := by
  induction n generalizing fs cur with
  | zero => cases hok
  | succ n ih =>
    have hset : (fs.setFatEntryAt cur freeCluster).mFatCache i = freeCluster := by
      by_cases heq : i = cur
      · exact if_pos heq
      · exact (if_neg heq).trans (hfree.resolve_left heq)
    rw [freeLoop] at hok
    split at hok
    · cases hok
      exact hset
    · exact ih hok (.inr hset)

lemma freeLoop_zero (n : Nat) (hfree : fs.mFatCache 0 = freeCluster) : freeLoop n fs 0 = .error .outOfFuel := by
  induction n generalizing fs with
  | zero => rfl
  | succ n ih =>
    have he : fs.fatEntryAt 0 = 0 := hfree
    rw [freeLoop, he, if_neg (by decide)]
    exact ih (by simp [setFatEntryAt])

def freeChainAccesses (fs : FAT32) (first : Nat) : FreeMode → List Nat
  | .keepFirst => first :: freeAccesses chainFuel (fs.setFatEntryAt first fs.mEndOfChain) (fs.fatEntryAt first)
  | .includingFirst => freeAccesses chainFuel fs first

/-- The chain is freed, all of it or all but its first cluster, which becomes the last one, and nothing else
is changed. -/
def FreesChain (fs : FAT32) (first : Nat) (rest : List Nat) (mode : FreeMode) : Prop :=
  fs.freeClusterChainStartingAt first mode = .ok { fs with
      mFatCache := fun i => if i = first ∧ mode = .keepFirst then fs.mEndOfChain
        else if i ∈ first :: rest then freeCluster else fs.mFatCache i } ∧
    ∀ i ∈ fs.freeChainAccesses first mode, i < reservedClusterCount + fs.mClusterCount

lemma not_freesChain_single {first : Nat} (h : fs.Chain [first]) : ¬ fs.FreesChain first [] .keepFirst := by
  rintro ⟨hok, -⟩
  have hend : entryTypeOfFatValue (fs.mFatCache first) = .endOfChain := h.2
  have hne : fs.mFatCache first ≠ first := fun heq => by rw [heq, h.1] at hend; cases hend
  have hzero : 0 ≠ first := fun heq => by
    have hlink := h.1
    rw [← heq] at hlink
    cases hlink
  obtain ⟨n, hm⟩ : ∃ n, chainFuel = n + 1 := ⟨0x0FFFFFFF, rfl⟩
  rw [freeClusterChainStartingAt, hm] at hok
  have hmark : fs.mFatCache (fs.mFatCache first) = freeCluster := by
    have hfree := freeLoop_free hok (.inl rfl)
    simpa [fatEntryAt, hne] using hfree
  have he : (fs.setFatEntryAt first fs.mEndOfChain).fatEntryAt (fs.fatEntryAt first) = 0 := (if_neg hne).trans hmark
  rw [freeLoop, he, if_neg (by decide)] at hok
  have hfirst : fs.mFatCache 0 = freeCluster := by
    have hfree := freeLoop_free hok (.inl rfl)
    simpa [hzero] using hfree
  rw [freeLoop_zero] at hok
  · cases hok
  · simp [setFatEntryAt, hzero, hfirst]

/-- `free_cluster_chain_starting_at` frees every chain, but the first cluster can only be kept if it is not
the only one. -/
theorem freesChain_iff {first : Nat} (mode : FreeMode) (h : fs.Chain (first :: ts))
    (hbound : ∀ cl ∈ first :: ts, cl < reservedClusterCount + fs.mClusterCount) :
    fs.FreesChain first ts mode ↔ mode = .includingFirst ∨ ts ≠ [] := by
  have hlen := h.length_lt
  rw [length_cons] at hlen
  cases mode with
  | includingFirst =>
    obtain ⟨hloop, haccesses⟩ := freeLoop_eq h chainFuel (by omega)
    refine iff_of_true ⟨?_, ?_⟩ (.inl rfl)
    · rw [freeClusterChainStartingAt, hloop]
      simp
    · rwa [freeChainAccesses, haccesses]
  | keepFirst =>
    cases ts with
    | nil => exact iff_of_false (not_freesChain_single h) (by simp)
    | cons next ts =>
      have hnot := (nodup_cons.mp h.nodup).1
      have hch : (fs.setFatEntryAt first fs.mEndOfChain).Chain (next :: ts) :=
        h.2.2.congr fun cl hmem => if_neg fun (heq : cl = first) => hnot (heq ▸ hmem)
      have he : fs.fatEntryAt first = next := h.2.1
      obtain ⟨hloop, haccesses⟩ := freeLoop_eq hch chainFuel (by rw [length_cons] at hlen; omega)
      refine iff_of_true ⟨?_, ?_⟩ (.inr (cons_ne_nil _ _))
      · rw [freeClusterChainStartingAt, he, hloop]
        congr 2
        funext i
        by_cases heq : i = first
        · simp [heq, hnot, setFatEntryAt]
        · simp [heq, setFatEntryAt]
      · rwa [freeChainAccesses, he, haccesses]

theorem freesChain_iff_two : (linkedVolume fun i => if i = 2 then 3 else 0x0FFFFFFF).FreesChain 2 [3] .keepFirst :=
  (freesChain_iff .keepFirst (by decide) (by decide)).mpr (by decide)

/-- A directory of one cluster loses its last entry: the end mark is taken for a cluster. -/
theorem not_freesChain_oneCluster : (linkedVolume fun _ => 0x0FFFFFFF).Chain [2] ∧
    0x0FFFFFFF ∈ (linkedVolume fun _ => 0x0FFFFFFF).freeChainAccesses 2 .keepFirst ∧
    ¬ (linkedVolume fun _ => 0x0FFFFFFF).FreesChain 2 [] .keepFirst := by
  refine ⟨by decide, ?_, not_freesChain_single (by decide)⟩
  have hm : chainFuel = 0x0FFFFFFF + 1 := rfl
  rw [freeChainAccesses, hm, freeAccesses]
  exact mem_cons_of_mem _ mem_cons_self

/-- `free_cluster_chain_starting_at` does not count the clusters it frees. -/
lemma not_counted_of_free {first : Nat} (hcnt : fs.Counted) (hch : fs.Chain (first :: ts))
    (hnodup : (first :: ts).Nodup) (hbound : ∀ cl ∈ first :: ts, cl < reservedClusterCount + fs.mClusterCount)
    (h : fs.freeClusterChainStartingAt first .includingFirst = .ok fs') : ¬ fs'.Counted := by
  have hm := hch.length_lt
  rw [length_cons] at hm
  rw [freeClusterChainStartingAt, (freeLoop_eq hch chainFuel (by omega)).1] at h
  cases h
  have hlen : (freeClusters fs.mFatCache reservedClusterCount fs.mClusterCount).length +
      (first :: ts).length = (freeClusters (fun i => if i ∈ first :: ts then freeCluster else fs.mFatCache i)
        reservedClusterCount fs.mClusterCount).length := by
    apply length_freeClusters_of_taken hnodup
    · intro cl hmem
      have hlink := (entryType_eq_link_iff cl).mp (hch.link cl hmem)
      exact mem_freeClusters.mpr ⟨⟨hlink.1, hbound cl hmem⟩, if_pos hmem⟩
    · exact hch.used
    · intro cl _ _ hmem
      rw [if_neg hmem]
  unfold Counted at hcnt ⊢
  rw [length_cons] at hlen
  dsimp only
  omega

end

/-- The calls that change which clusters are in use. A chain that is freed is given by its
clusters. -/
inductive ChainCall where
  | allocate (count linkTo : Nat)
  | free (first : Nat) (rest : List Nat)

/-- Clusters are linked behind no cluster or behind one that is in use, and chains that are freed
exist. -/
def Permits (fs : FAT32) : ChainCall → Prop
  | .allocate count linkTo => 1 ≤ count ∧ count ≤ fs.mFreeClusters ∧
      (linkTo = freeCluster ∨ fs.mFatCache linkTo ≠ freeCluster)
  | .free first rest => fs.Chain (first :: rest) ∧ (first :: rest).Nodup ∧
      ∀ cluster ∈ first :: rest, cluster < reservedClusterCount + fs.mClusterCount

def chainCalls : Machine FAT32 ChainCall Fault where
  step fs
    | .allocate count linkTo => do return (← fs.allocateClusterChain count linkTo).1
    | .free first _ => fs.freeClusterChainStartingAt first .includingFirst
  admits := Permits

instance (fs : FAT32) (call : ChainCall) : Decidable (chainCalls.admits fs call) := by
  cases call <;> dsimp only [chainCalls, Permits] <;> infer_instance

/-- An allocation that the table in front of entry `m_cluster_count` can serve without the two
reserved entries, on a volume with a proper end mark. -/
def KeepsCount (fs : FAT32) : ChainCall → Prop
  | .allocate count _ => fs.mEndOfChain ≠ freeCluster ∧ (fs.mLastFreeCluster = 0 → fs.mFatCache 0 ≠ freeCluster) ∧
      (fs.mLastFreeCluster ≤ 1 → fs.mFatCache 1 ≠ freeCluster) ∧
      count ≤ (freeClusters fs.mFatCache reservedClusterCount (fs.mClusterCount - reservedClusterCount)).length
  | .free _ _ => False

instance (fs : FAT32) (call : ChainCall) : Decidable (fs.KeepsCount call) := by
  cases call <;> dsimp only [KeepsCount] <;> infer_instance

/-- The count is right and the hint lies on the volume. -/
structure Accounted (fs : FAT32) : Prop where
  counted : fs.Counted
  hint : fs.mLastFreeCluster ≤ fs.mClusterCount

lemma mem_take_candidates {cl : Nat} (h : cl ∈ fs.candidates.take count) : fs.mFatCache cl = freeCluster ∧
    (fs.mLastFreeCluster ≤ cl ∧ cl < fs.mClusterCount ∨ reservedClusterCount ≤ cl ∧ cl < fs.mLastFreeCluster) :=
  mem_candidates.mp (mem_of_mem_take h)

section

variable (hinv : Accounted fs) (hn : 1 ≤ count) (hle : count ≤ fs.mFreeClusters)
  (hlink : linkTo = freeCluster ∨ fs.mFatCache linkTo ≠ freeCluster)
  (hzero : fs.mLastFreeCluster = 0 → fs.mFatCache 0 ≠ freeCluster)

include hinv hn hle hlink hzero

/-- Where entry 0 is not taken, the count after an allocation is right exactly if the clusters are no
reserved ones and the end mark is one. -/
lemma Accounted.counted_allocated_iff (hfit : count ≤ fs.candidates.length) :
    (fs.allocated linkTo (fs.candidates.take count)).Counted ↔
    (∀ cl ∈ fs.candidates.take count, reservedClusterCount ≤ cl) ∧ fs.mEndOfChain ≠ freeCluster := by
  have hlen : (fs.candidates.take count).length = count := length_take_of_le hfit
  have hhint := hinv.hint
  apply FAT32.counted_allocated_iff hinv.counted
  · exact ne_nil_of_length_pos (by omega)
  · exact (take_sublist _ _).nodup (nodup_candidates fs)
  · intro cl h
    obtain ⟨hfree, hcases⟩ := mem_take_candidates h
    exact ⟨hfree, by unfold reservedClusterCount at hcases ⊢; omega⟩
  · intro h
    obtain ⟨hfree, hcases⟩ := mem_take_candidates h
    unfold freeCluster reservedClusterCount at hcases
    exact hzero (by omega) hfree
  · exact hlink
  · omega

lemma Accounted.allocate (hgood : fs.KeepsCount (.allocate count linkTo)) :
    ∃ fs' ch, fs.allocateClusterChain count linkTo = .ok (fs', ch) ∧ Accounted fs' := by
  obtain ⟨hend, -, hone, hcandidates⟩ := hgood
  have hfit : count ≤ fs.candidates.length := by rwa [length_candidates hinv.hint hzero hone]
  have hhint := hinv.hint
  rw [allocateClusterChain_eq hzero hlink (by omega) hle, if_pos hfit]
  refine ⟨_, _, rfl, ?_, ?_⟩
  · rw [hinv.counted_allocated_iff hn hle hlink hzero hfit]
    refine ⟨?_, hend⟩
    intro cl h
    obtain ⟨hfree, hcases⟩ := mem_take_candidates h
    by_contra hlt
    unfold reservedClusterCount at hlt hcases
    have hres : cl = 0 ∨ cl = 1 := by omega
    rcases hres with rfl | rfl
    · exact hzero (by omega) hfree
    · exact hone (by omega) hfree
  · have hlast := (mem_take_candidates (getLastD_mem (ne_nil_of_length_pos
      (by rw [length_take_of_le hfit]; omega)) linkTo)).2
    show (fs.candidates.take count).getLastD linkTo + 1 ≤ fs.mClusterCount
    omega

lemma Accounted.not_counted (hbad : ¬ fs.KeepsCount (.allocate count linkTo)) (h : fs.allocateClusterChain count linkTo = .ok (fs', ch)) :
    ¬ fs'.Counted := by
  have hhint := hinv.hint
  rw [allocateClusterChain_eq hzero hlink (by omega) hle] at h
  by_cases hfit : count ≤ fs.candidates.length
  · rw [if_pos hfit] at h
    cases h
    rw [hinv.counted_allocated_iff hn hle hlink hzero hfit]
    intro hgood
    apply hbad
    refine ⟨hgood.2, hzero, ?_⟩
    have hone : fs.mLastFreeCluster ≤ 1 → fs.mFatCache 1 ≠ freeCluster := by
      intro hhint hone
      obtain ⟨tail, htail⟩ := candidates_eq_cons_one hhint hzero hone (ne_nil_of_length_pos (by omega))
      obtain ⟨ts, rfl⟩ := Nat.exists_eq_add_of_le' hn
      have hge := hgood.1 1 (by rw [htail, take_succ_cons]; exact mem_cons_self)
      exact absurd hge (by decide)
    exact ⟨hone, by rwa [← length_candidates hinv.hint hzero hone]⟩
  · rw [if_neg hfit] at h
    cases h

end

/-- `m_free_clusters` is the number of free clusters in every state of a run, and no call fails, exactly if
the run frees no chain and every allocation can be served by the entries in front of `m_cluster_count`
without the two reserved ones. -/
theorem counted_iff_everyStep (fs : FAT32) (hlast : fs.mLastFreeCluster = 0) (hfree : fs.mFreeClusters = 0)
    (calls : List ChainCall) (hcalls : chainCalls.Admissible fs.calculateCapacity calls) :
    chainCalls.EveryState Counted fs.calculateCapacity calls ↔
    chainCalls.EveryStep KeepsCount fs.calculateCapacity calls := by
  apply Machine.everyState_iff_everyStep (I := Accounted) _ _ _ _ hcalls
  · intro fs hinv
    exact hinv.counted
  · intro fs call hinv hperm hgood
    cases call with
    | allocate count linkTo =>
      obtain ⟨hn, hle, hlink⟩ := hperm
      obtain ⟨fs', ch, hok, hinv'⟩ := hinv.allocate hn hle hlink hgood.2.1 hgood
      refine ⟨fs', ?_, hinv'⟩
      show (do return (← fs.allocateClusterChain count linkTo).1) = Except.ok fs'
      rw [hok]
      rfl
    | free first ts => exact hgood.elim
  · intro fs call fs' hinv hperm hbad hstep
    cases call with
    | allocate count linkTo =>
      obtain ⟨hn, hle, hlink⟩ := hperm
      obtain ⟨res, hok, hres⟩ := of_bind hstep
      cases hres
      by_cases hzero : fs.mLastFreeCluster = 0 → fs.mFatCache 0 ≠ freeCluster
      · exact hinv.not_counted hn hle hlink hzero hbad hok
      · rw [Classical.not_imp, not_not] at hzero
        exact not_counted_of_zero hinv.counted hzero.1 hzero.2 hok
    | free first ts => exact not_counted_of_free hinv.counted hperm.1 hperm.2.1 hperm.2.2 hstep
  · rw [calculateCapacity_eq fs hlast hfree]
    refine ⟨rfl, ?_⟩
    rw [hlast]
    exact zero_le

/-- No theorem depends on the number of the clusters, which is too small for a volume that mounts. -/
def smallVolume : FAT32 where
  mFatCache := fun i => if i < 2 then 0x0FFFFFFF else 0
  mDataCache := fun _ _ => 0
  mClusterCount := 4
  mBytesPerCluster := 512
  mEndOfChain := 0x0FFFFFFF

theorem counted_iff_everyStep_twoClusters :
    chainCalls.EveryState Counted smallVolume.calculateCapacity [.allocate 1 0, .allocate 1 2] :=
  (counted_iff_everyStep smallVolume rfl rfl [.allocate 1 0, .allocate 1 2] (by decide)).mpr
    (by decide)

/-- Of four free clusters the third is not found, and a freed one is not counted. -/
theorem not_counted_smallVolume : (chainCalls.Admissible smallVolume.calculateCapacity [.allocate 3 0] ∧
      smallVolume.calculateCapacity.allocateClusterChain 3 0 =
        .error (.panic "FAT32: Failed to allocate enough clusters, requested: 3")) ∧
    chainCalls.Admissible smallVolume.calculateCapacity [.allocate 1 0, .free 2 []] ∧
      ∃ fs, chainCalls.run smallVolume.calculateCapacity [.allocate 1 0, .free 2 []] = .ok fs ∧ fs.mFreeClusters = 3 ∧
        (freeClusters fs.mFatCache reservedClusterCount fs.mClusterCount).length = 4 :=
  ⟨⟨by decide, rfl⟩, by decide, _, rfl, by decide, by decide⟩

/-- A chain that is allocated and then freed leaves the table as it was. -/
theorem free_of_allocate {fs' : FAT32} {first : Nat} {ts : List Nat} (hzero : fs.mLastFreeCluster = freeCluster →
    fs.mFatCache freeCluster ≠ freeCluster) (hlink : ∀ c ∈ fs.candidates, entryTypeOfFatValue c = .link)
    (hend : entryTypeOfFatValue fs.mEndOfChain = .endOfChain)
    (h : fs.allocateClusterChain count freeCluster = .ok (fs', first :: ts)) :
    (fs'.freeClusterChainStartingAt first .includingFirst).map mFatCache = .ok fs.mFatCache := by
  obtain ⟨hn, hle⟩ := asserts_of_allocateClusterChain h
  rw [allocateClusterChain_eq hzero (.inl rfl) hn hle] at h
  split at h
  · have hmem (c) (hc : c ∈ fs.candidates.take count) := mem_of_mem_take hc
    have hnodup := (take_sublist count _).nodup (nodup_candidates fs)
    generalize fs.candidates.take count = taken at h hmem hnodup
    cases h
    have hch : (fs.allocated freeCluster (first :: ts)).Chain (first :: ts) :=
      (follows_linkAll hnodup fun hc => by cases hlink _ (hmem _ hc)).chain rfl (cons_ne_nil _ _) hend
        fun c hc => hlink c (hmem c hc)
    have hlen := hch.length_lt
    rw [length_cons] at hlen
    rw [freeClusterChainStartingAt, (freeLoop_eq hch chainFuel (by omega)).1]
    refine congrArg Except.ok (funext fun i => ?_)
    by_cases hi : i ∈ first :: ts
    · exact (if_pos hi).trans (mem_candidates.mp (hmem i hi)).1.symm
    · exact (if_neg hi).trans (allocated_of_not_mem (cons_ne_nil _ _) hi (.inl rfl))
  · cases h

theorem free_of_allocate_smallVolume : ∃ fs, smallVolume.calculateCapacity.allocateClusterChain 2 0 = .ok (fs, [2, 3]) ∧
    (fs.freeClusterChainStartingAt 2 .includingFirst).map mFatCache = .ok smallVolume.calculateCapacity.mFatCache :=
  have h : smallVolume.calculateCapacity.allocateClusterChain 2 0 = .ok (_, [2, 3]) := rfl
  ⟨_, h, free_of_allocate (by decide) (by decide) rfl h⟩

end UltraOS.FAT32
