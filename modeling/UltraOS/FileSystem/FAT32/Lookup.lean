import Mathlib.Data.List.Perm.Subperm
import UltraOS.FileSystem.FAT32.Model

/-!
# Looking clusters of a file up

The clusters of a file are a chain in the table. `compute_contiguous_ranges` encodes it by its ranges of consecutive
clusters, and `cluster_from_offset` and `last_cluster` decode it. They return the clusters of the chain exactly when
it is one range and its bytes can be counted in 32 bits: every further range is recorded one cluster too late.
-/

namespace UltraOS.FAT32

open List

def Chain (fs : FAT32) : List Nat → Prop
  | [] => False
  | cluster :: rest => entryTypeOfFatValue cluster = .link ∧ match rest with
      | [] => entryTypeOfFatValue (fs.mFatCache cluster) = .endOfChain
      | next :: _ => fs.mFatCache cluster = next ∧ Chain fs rest

instance decidableChain (fs : FAT32) : (clusters : List Nat) → Decidable (fs.Chain clusters)
  | [] => inferInstanceAs (Decidable False)
  | [_] => inferInstanceAs (Decidable (_ ∧ _ = _))
  | _ :: next :: rest =>
    have := decidableChain fs (next :: rest)
    inferInstanceAs (Decidable (_ ∧ _ = _ ∧ _))

def Consecutive : List Nat → Prop
  | [] => True
  | cluster :: rest =>
    match rest with
    | [] => True
    | next :: _ => next = cluster + 1 ∧ Consecutive rest

instance decidableConsecutive : (clusters : List Nat) → Decidable (Consecutive clusters)
  | [] | [_] => .isTrue trivial
  | _ :: next :: rest =>
    have := decidableConsecutive (next :: rest)
    inferInstanceAs (Decidable (_ ∧ _))

variable {fs : FAT32} {f : File} {cs : List Nat}

lemma entryType_eq_link_iff (v : Nat) : entryTypeOfFatValue v = .link ↔ 2 ≤ v ∧ v < badCluster := by
  unfold entryTypeOfFatValue endOfChainMinCluster badCluster
  split
  · simp_all
  · split
    · simp_all
    · split
      · simp only [reduceCtorEq, false_iff]
        omega
      · split
        · simp_all
        · simp only [true_iff]
          omega

lemma Chain.link (h : fs.Chain cs) : ∀ c ∈ cs, entryTypeOfFatValue c = .link := by
  induction cs with
  | nil => exact h.elim
  | cons c ts ih =>
    cases ts with
    | nil => exact forall_mem_singleton.mpr h.1
    | cons next ts => exact forall_mem_cons.mpr ⟨h.1, ih h.2.2⟩

lemma Chain.unique {ch chain' : List Nat} (h : fs.Chain ch) (h' : fs.Chain chain')
    (hhead : ch.head? = chain'.head?) : ch = chain' := by
  induction ch generalizing chain' with
  | nil => exact h.elim
  | cons c ts ih =>
    cases chain' with
    | nil => exact h'.elim
    | cons cluster' rest' =>
      obtain rfl : c = cluster' := Option.some.inj hhead
      have hclash : ∀ next tail, fs.mFatCache c = next → fs.Chain (next :: tail) →
          entryTypeOfFatValue (fs.mFatCache c) ≠ .endOfChain := by
        intro next tail hnext hch hend
        rw [hnext, hch.link next mem_cons_self] at hend
        cases hend
      cases ts with
      | nil =>
        cases rest' with
        | nil => rfl
        | cons next' rest' => exact absurd h.2 (hclash next' rest' h'.2.1 h'.2.2)
      | cons next ts =>
        cases rest' with
        | nil => exact absurd h'.2 (hclash next ts h.2.1 h.2.2)
        | cons next' rest' =>
          obtain rfl : next = next' := h.2.1.symm.trans h'.2.1
          rw [ih h.2.2 h'.2.2 rfl]

lemma Chain.of_append (xs : List Nat) {ys : List Nat} (hback : ys ≠ []) (h : fs.Chain (xs ++ ys)) : fs.Chain ys := by
  induction xs with
  | nil => exact h
  | cons c xs ih =>
    cases hrest : xs ++ ys with
    | nil => exact absurd (append_eq_nil_iff.mp hrest).2 hback
    | cons next ts =>
      rw [cons_append, hrest] at h
      rw [hrest] at ih
      exact ih h.2.2

lemma Chain.nodup (h : fs.Chain cs) : cs.Nodup := by
  induction cs with
  | nil => exact h.elim
  | cons c ts ih =>
    cases ts with
    | nil => simp
    | cons next ts =>
      refine nodup_cons.mpr ⟨?_, ih h.2.2⟩
      intro hmem
      obtain ⟨xs, ys, hsplit⟩ := append_of_mem hmem
      have hback : fs.Chain (c :: ys) := by
        apply Chain.of_append (c :: xs) (cons_ne_nil _ _)
        rwa [cons_append, ← hsplit]
      have hlen := congrArg List.length (h.unique hback rfl)
      rw [hsplit, length_cons, length_append, length_cons] at hlen
      omega

lemma Chain.length_lt (h : fs.Chain cs) : cs.length < chainFuel := by
  have hsub : cs ⊆ List.range badCluster := by
    intro c hmem
    exact mem_range.mpr ((entryType_eq_link_iff c).mp (h.link c hmem)).2
  have hle := (h.nodup.subperm hsub).length_le
  rw [length_range] at hle
  unfold badCluster at hle
  unfold chainFuel
  omega

variable {first : Nat} {rest ts : List Nat}

lemma Consecutive.getElem? (h : Consecutive (first :: ts)) (k : Nat) (hk : k ≤ ts.length)
    : (first :: ts)[k]? = some (first + k) := by
  induction ts generalizing first k with
  | nil =>
    obtain rfl : k = 0 := by simpa using hk
    rfl
  | cons next ts ih =>
    cases k with
    | zero => rfl
    | succ k =>
      rw [List.getElem?_cons_succ, ih h.2 k (by simpa using hk), h.1]
      congr 1
      omega

section

/-- The ranges that the scan of a chain records. A range that is not the first is recorded at the
offset behind its first cluster. -/
def rangesOf (range : ContiguousFileRange) (offset current : Nat) : List Nat → List ContiguousFileRange
  | [] => [range]
  | next :: rest =>
    if next = current + 1 then rangesOf range (offset + 1) next rest
    else range :: rangesOf ⟨offset + 1, next⟩ (offset + 1) next rest

lemma toU32_of_lt {v : Nat} (h : v < 0x100000000) : toU32 v = v := Nat.mod_eq_of_lt h

variable {cur : Nat}

lemma contiguousRangesLoop_eq (h : fs.Chain (cur :: ts)) (size n o : Nat)
    (rg : ContiguousFileRange) (ranges : List ContiguousFileRange) (hn : ts.length < n)
    (ho : o + ts.length < 0x100000000) :
    fs.contiguousRangesLoop size n rg o cur ranges = do
      assert (toU32 ((o + ts.length) * fs.mBytesPerCluster) ≥ size)
        "current_file_offset * fs.bytes_per_cluster() >= m_size"
      return ranges ++ rangesOf rg o cur ts := by
  induction ts generalizing cur n o rg ranges with
  | nil =>
    obtain ⟨n, rfl⟩ := Nat.exists_eq_succ_of_ne_zero hn.ne'
    have hend : entryTypeOfFatValue (fs.fatEntryAt cur) = .endOfChain := h.2
    simp only [contiguousRangesLoop, hend]
    rfl
  | cons next ts ih =>
    obtain ⟨n, rfl⟩ := Nat.exists_eq_succ_of_ne_zero (ne_of_gt (Nat.zero_lt_of_lt hn))
    obtain ⟨hlink, hnext, hch⟩ := h
    have he : fs.fatEntryAt cur = next := hnext
    have hnextLink : entryTypeOfFatValue next = .link := hch.link next (by simp)
    have hlt := ((entryType_eq_link_iff cur).mp hlink).2
    have hcur : toU32 (cur + 1) = cur + 1 := toU32_of_lt (by unfold badCluster at hlt; omega)
    rw [length_cons] at hn ho
    have hoff : toU32 (o + 1) = o + 1 := toU32_of_lt (by omega)
    have hlen : o + 1 + ts.length = o + (ts.length + 1) := by omega
    simp only [contiguousRangesLoop, he, hnextLink, hcur, hoff, rangesOf, length_cons]
    split
    · rw [ih hch n (o + 1) rg ranges (by omega) (by omega), hlen]
    · rw [ih hch n (o + 1) ⟨o + 1, next⟩ (ranges ++ [rg]) (by omega) (by omega), hlen, append_assoc]
      rfl

lemma rangesOf_of_consecutive (rg : ContiguousFileRange) (o : Nat) (h : Consecutive (cur :: ts)) :
    rangesOf rg o cur ts = [rg] := by
  induction ts generalizing cur o with
  | nil => rfl
  | cons next ts ih =>
    rw [rangesOf, if_pos h.1]
    exact ih (o + 1) h.2

lemma rangesOf_eq_cons (ts : List Nat) (rg : ContiguousFileRange) (o cur : Nat) :
    ∃ tail, rangesOf rg o cur ts = rg :: tail ∧ ∀ r ∈ tail, o < r.fileOffsetCluster := by
  induction ts generalizing rg o cur with
  | nil => exact ⟨[], rfl, by simp⟩
  | cons next ts ih =>
    rw [rangesOf]
    split
    · obtain ⟨tail, heq, htail⟩ := ih rg (o + 1) next
      exact ⟨tail, heq, fun r hr => Nat.lt_of_succ_lt (htail r hr)⟩
    · obtain ⟨tail, heq, htail⟩ := ih ⟨o + 1, next⟩ (o + 1) next
      refine ⟨_, rfl, ?_⟩
      rw [heq]
      exact forall_mem_cons.mpr ⟨lt_add_one o, fun r hr => Nat.lt_of_succ_lt (htail r hr)⟩

lemma rangesOf_pairwise (ts : List Nat) (rg : ContiguousFileRange) (o cur : Nat) (hrange : rg.fileOffsetCluster ≤ o) :
    (rangesOf rg o cur ts).Pairwise fun r r' => r.fileOffsetCluster < r'.fileOffsetCluster := by
  induction ts generalizing rg o cur with
  | nil => exact pairwise_singleton _ _
  | cons next ts ih =>
    rw [rangesOf]
    split
    · exact ih rg (o + 1) next (Nat.le_succ_of_le hrange)
    · refine pairwise_cons.mpr ⟨?_, ih ⟨o + 1, next⟩ (o + 1) next le_rfl⟩
      obtain ⟨tail, heq, htail⟩ := rangesOf_eq_cons ts ⟨o + 1, next⟩ (o + 1) next
      rw [heq]
      refine forall_mem_cons.mpr ⟨Nat.lt_succ_of_le hrange, ?_⟩
      intro r hr
      have hlt := htail r hr
      omega

/-- Where the chain breaks for the first time, the second range begins one cluster too late. -/
lemma exists_break (ts : List Nat) (rg : ContiguousFileRange) (o cur : Nat) (h : ¬ Consecutive (cur :: ts)) : ∃ k next,
    ts[k]? = some next ∧ next ≠ cur + k + 1 ∧ (∀ i ≤ k, (cur :: ts)[i]? = some (cur + i)) ∧ ∃ tail,
    rangesOf rg o cur ts = rg :: tail ∧ ∀ r ∈ tail, o + k < r.fileOffsetCluster := by
  induction ts generalizing o cur with
  | nil => exact absurd trivial h
  | cons next ts ih =>
    by_cases hnext : next = cur + 1
    · have hrest : ¬ Consecutive (next :: ts) := fun hc => h ⟨hnext, hc⟩
      obtain ⟨k, target, hget, hne, hfront, tail, heq, htail⟩ := ih (o + 1) next hrest
      refine ⟨k + 1, target, hget, by omega, ?_, tail, ?_, ?_⟩
      · intro i hi
        cases i with
        | zero => rfl
        | succ i =>
          rw [List.getElem?_cons_succ, hfront i (by omega), hnext]
          congr 1
          omega
      · rw [rangesOf, if_pos hnext, heq]
      · intro r hr
        have hlt := htail r hr
        omega
    · refine ⟨0, next, rfl, hnext, ?_, ?_⟩
      · intro i hi
        obtain rfl : i = 0 := by omega
        rfl
      · obtain ⟨tail, heq, htail⟩ := rangesOf_eq_cons ts ⟨o + 1, next⟩ (o + 1) next
        rw [rangesOf, if_neg hnext]
        refine ⟨_, rfl, ?_⟩
        rw [heq]
        refine forall_mem_cons.mpr ⟨lt_add_one o, ?_⟩
        intro r hr
        have hlt := htail r hr
        omega

end

section

lemma splits_ranges {ranges : List ContiguousFileRange}
    (h : ranges.Pairwise fun r r' => r.fileOffsetCluster < r'.fileOffsetCluster) (key : Nat) :
    Splits (fun key (rg : ContiguousFileRange) => decide (key < rg.fileOffsetCluster))
      (fun rg key => decide (rg.fileOffsetCluster < key)) ranges key := by
  exact splits_of_pairwise (h.imp fun hlt => by simp only [decide_eq_true_eq]; omega)

variable {o : Nat} {tail : List ContiguousFileRange} (hrs : f.mContiguousRanges = ⟨0, first⟩ :: tail)

include hrs in
/-- The binary search stops at the first range or right behind it when all others lie behind the
offset, and the step back returns to the first one. -/
lemma rangeForOffset_eq {itr : Nat}
    (htail : ∀ r ∈ tail, o < r.fileOffsetCluster) (hle : itr ≤ f.mContiguousRanges.length) (hbounds : Bounds
      (fun key (rg : ContiguousFileRange) => decide (key < rg.fileOffsetCluster))
      (fun rg key => decide (rg.fileOffsetCluster < key)) f.mContiguousRanges o itr) :
    rangeForOffset f o itr = .ok ⟨0, first⟩ := by
  rw [hrs] at hbounds hle
  rcases hbounds with ⟨x, hget, hge, hle⟩ | ⟨hless, hgreater⟩
  · have hzero : itr = 0 := by
      cases itr with
      | zero => rfl
      | succ itr =>
        have hlt := htail x (mem_of_getElem? (List.getElem?_cons_succ ▸ hget))
        simp only [decide_eq_false_iff_not] at hge
        omega
    simp [rangeForOffset, rangeAt, hrs, hzero]
  · have hone : itr = 1 := by
      have hpos : itr ≠ 0 := by
        intro hzero
        have hfirst := hgreater 0 ⟨0, first⟩ (by omega) rfl
        simp at hfirst
      by_contra hne
      cases tail with
      | nil =>
        rw [length_singleton] at hle
        omega
      | cons r tail =>
        have hsec := hless 1 r (by omega) rfl
        have hlt := htail r (by simp)
        simp only [decide_eq_true_eq] at hsec
        omega
    subst hone
    cases tail with
    | nil => simp [rangeForOffset, rangeAt, hrs]
    | cons r tail =>
      have hlt := htail r (by simp)
      simp [rangeForOffset, rangeAt, rangeBefore, hrs, hlt]

include hrs in
lemma clusterFromOffset_eq (hpairwise : f.mContiguousRanges.Pairwise fun r r' =>
      r.fileOffsetCluster < r'.fileOffsetCluster)
    (htail : ∀ r ∈ tail, o < r.fileOffsetCluster)
    (ho : o < ceilingDivide f.mSize fs.mBytesPerCluster)
    (hfirst : first + o < 0x100000000) :
    fs.clusterFromOffset f o = do
      assert (entryTypeOfFatValue (first + o) = .link)
        "fs_as_fat32().entry_type_of_fat_value(global_cluster) == FATEntryType::LINK"
      return first + o := by
  have hempty : f.mContiguousRanges.isEmpty = false := by rw [hrs]; rfl
  obtain ⟨itr, hitr, hle, hbounds⟩ := lowerBound_spec (splits_ranges hpairwise o)
  have hsub : subU32 o 0 = o := by
    unfold subU32
    omega
  have hc : toU32 (first + o) = first + o := toU32_of_lt hfirst
  rw [clusterFromOffset, hempty, Bool.not_false, assert_true, ok_bind, decide_eq_true ho,
    assert_true, ok_bind, hitr, ok_bind, rangeForOffset_eq hrs htail hle hbounds, ok_bind]
  rw [hsub, hc]

lemma clusterFromOffset_single (fs : FAT32) (hrs : f.mContiguousRanges = [⟨0, first⟩])
    (ho : o < ceilingDivide f.mSize fs.mBytesPerCluster)
    (hlink : entryTypeOfFatValue (first + o) = .link) : fs.clusterFromOffset f o = .ok (first + o) := by
  have hlt := ((entryType_eq_link_iff _).mp hlink).2
  rw [clusterFromOffset_eq hrs (by rw [hrs]; exact pairwise_singleton _ _) (by simp)
    ho (by unfold badCluster at hlt; omega), hlink]
  rfl

end

variable {l : Nat}

lemma ceilingDivide_eq (h : l ≠ 0) (r : Nat) : ceilingDivide l r = 1 + (l - 1) / r := by rw [ceilingDivide, if_pos h]

lemma ceilingDivide_mul {r : Nat} (hl : l ≠ 0) (hr : 0 < r) :
    l ≤ ceilingDivide l r * r ∧ ceilingDivide l r * r < l + r := by
  have hdiv := Nat.div_add_mod (l - 1) r
  have hmod := Nat.mod_lt (l - 1) hr
  rw [ceilingDivide_eq hl, add_mul, one_mul, mul_comm ((l - 1) / r) r]
  omega

/-- A file that is not empty, and the clusters of the volume that hold it. -/
structure Occupies (fs : FAT32) (f : File) (clusters : List Nat) : Prop where
  chain : fs.Chain clusters
  first : clusters.head? = some f.mFirstCluster
  nodup : clusters.Nodup
  length : clusters.length = ceilingDivide f.mSize fs.mBytesPerCluster
  size_pos : f.mSize ≠ 0
  size_lt : f.mSize < 0x100000000
  bytes_pos : 0 < fs.mBytesPerCluster
  bytes_lt : fs.mBytesPerCluster < 0x100000000

variable (h : Occupies fs f cs) (hrs : f.mContiguousRanges = [])

include h in
lemma Occupies.length_lt : cs.length < chainFuel := h.chain.length_lt

include h in
/-- The size that the scan counts wraps exactly if the clusters hold 4 GiB. -/
lemma Occupies.counted_iff : toU32 (cs.length * fs.mBytesPerCluster) ≥ f.mSize ↔
    cs.length * fs.mBytesPerCluster < 0x100000000 := by
  obtain ⟨hge, hlt⟩ := ceilingDivide_mul h.size_pos h.bytes_pos
  have hsize := h.size_lt
  have hbs := h.bytes_lt
  rw [h.length]
  unfold toU32
  omega

lemma Occupies.computeContiguousRanges_eq (h : Occupies fs f (f.mFirstCluster :: ts)) (hrs : f.mContiguousRanges = []) :
    fs.computeContiguousRanges f = do
      assert (toU32 ((ts.length + 1) * fs.mBytesPerCluster) ≥ f.mSize)
        "current_file_offset * fs.bytes_per_cluster() >= m_size"
      return { f with mContiguousRanges := rangesOf ⟨0, f.mFirstCluster⟩ 1 f.mFirstCluster ts } := by
  have hlen := h.length_lt
  rw [length_cons] at hlen
  have hloop := contiguousRangesLoop_eq h.chain f.mSize chainFuel 1 ⟨0, f.mFirstCluster⟩ []
    (by omega) (by unfold chainFuel at hlen; omega)
  rw [computeContiguousRanges, hrs, hloop, add_comm 1]
  cases assert (decide (toU32 ((ts.length + 1) * fs.mBytesPerCluster) ≥ f.mSize))
    "current_file_offset * fs.bytes_per_cluster() >= m_size" with
  | error e | ok _ => rfl

lemma lastCluster_of_single (fs : FAT32) (hrs : f.mContiguousRanges = [⟨0, first⟩]) (hfirst : f.mFirstCluster = first)
    (hsize : f.mSize ≠ 0) (hlt : first + ceilingDivide f.mSize fs.mBytesPerCluster ≤ 0x100000000) : fs.lastCluster f =
    .ok (first + (ceilingDivide f.mSize fs.mBytesPerCluster - 1)) := by
  have hpos : 1 ≤ ceilingDivide f.mSize fs.mBytesPerCluster := by
    rw [ceilingDivide_eq hsize]
    exact Nat.le_add_right 1 _
  have hlast : f.mContiguousRanges.getLast? = some ⟨0, first⟩ := by rw [hrs]; rfl
  rw [lastCluster, hlast]
  dsimp only
  split
  · rename_i hsmall
    have hone : ceilingDivide f.mSize fs.mBytesPerCluster = 1 := by
      rw [ceilingDivide_eq hsize, Nat.div_eq_of_lt (by omega)]
    rw [hone, hfirst]
    rfl
  · have hsub : subU32 (ceilingDivide f.mSize fs.mBytesPerCluster - 1) 0 =
        ceilingDivide f.mSize fs.mBytesPerCluster - 1 := by
      unfold subU32
      omega
    rw [hsub, toU32_of_lt (by omega)]

/-- After `compute_contiguous_ranges` every lookup returns the cluster of the chain. -/
def Resolves (fs : FAT32) (f : File) (clusters : List Nat) : Prop :=
  ∃ f', fs.computeContiguousRanges f = .ok f' ∧
    (∀ k cluster, clusters[k]? = some cluster → fs.clusterFromOffset f' k = .ok cluster) ∧
    ∃ last, clusters.getLast? = some last ∧ fs.lastCluster f' = .ok last

include h in
lemma Occupies.eq_cons : ∃ ts, cs = f.mFirstCluster :: ts := List.head?_eq_some_iff.mp h.first

include h hrs in
lemma Occupies.resolves (hcons : Consecutive cs)
    (hcnt : cs.length * fs.mBytesPerCluster < 0x100000000) : Resolves fs f cs := by
  obtain ⟨ts, rfl⟩ := h.eq_cons
  have hlen := h.length
  have has := decide_eq_true (h.counted_iff.mpr hcnt)
  have hcompute := h.computeContiguousRanges_eq hrs
  rw [length_cons] at has hlen
  rw [has, assert_true, ok_bind, rangesOf_of_consecutive _ _ hcons] at hcompute
  refine ⟨_, hcompute, ?_, ?_⟩
  · intro k c hk
    have hle : k ≤ ts.length := by
      obtain ⟨hlt, -⟩ := List.getElem?_eq_some_iff.mp hk
      exact Nat.le_of_lt_succ hlt
    have hc : c = f.mFirstCluster + k := by
      rw [hcons.getElem? k hle] at hk
      exact (Option.some.inj hk).symm
    have hlink := h.chain.link c (mem_of_getElem? hk)
    rw [hc] at hlink ⊢
    exact clusterFromOffset_single fs rfl (by dsimp only; omega) hlink
  · have hmem := mem_of_getElem? (hcons.getElem? ts.length le_rfl)
    have hbound := ((entryType_eq_link_iff _).mp (h.chain.link _ hmem)).2
    refine ⟨f.mFirstCluster + ts.length, ?_, ?_⟩
    · rw [List.getLast?_eq_getElem?, length_cons, Nat.add_sub_cancel]
      exact hcons.getElem? ts.length le_rfl
    · have hlast := lastCluster_of_single fs
        (f := { f with mContiguousRanges := [⟨0, f.mFirstCluster⟩] }) rfl rfl h.size_pos
        (by dsimp only; unfold badCluster at hbound; omega)
      rw [hlast]
      rw [← hlen, Nat.add_sub_cancel]

include h hrs in
/-- The first cluster behind a break is looked up in the range in front of the break. -/
lemma Occupies.not_resolves (hbroken : ¬ Consecutive cs) : ¬ Resolves fs f cs := by
  intro hresolves
  obtain ⟨ts, rfl⟩ := h.eq_cons
  have hlen := h.length
  obtain ⟨f', hcompute, hlookup, -⟩ := hresolves
  obtain ⟨k, next, hget, hne, hfront, tail, htailEq, htail⟩ :=
    exists_break ts ⟨0, f.mFirstCluster⟩ 1 f.mFirstCluster hbroken
  rw [h.computeContiguousRanges_eq hrs] at hcompute
  obtain ⟨-, -, hfile⟩ := of_bind hcompute
  cases hfile
  have hbound := ((entryType_eq_link_iff _).mp (h.chain.link _ (mem_of_getElem? (hfront k le_rfl)))).2
  have hk : k < ts.length := (List.getElem?_eq_some_iff.mp hget).1
  have heq := hlookup (k + 1) next hget
  rw [clusterFromOffset_eq htailEq (rangesOf_pairwise ts ⟨0, f.mFirstCluster⟩ 1 f.mFirstCluster (Nat.zero_le 1))
    (fun r hr => by have hlt := htail r hr; omega)
    (by rw [length_cons] at hlen; dsimp only; omega)
    (by unfold badCluster at hbound; omega)] at heq
  obtain ⟨-, -, hok⟩ := of_bind heq
  cases hok
  exact hne rfl

/-- Lookups return the clusters of a file exactly when these are consecutive on the disk and hold
less than 4 GiB. -/
theorem resolves_iff (h : Occupies fs f cs) (hranges : f.mContiguousRanges = []) :
    Resolves fs f cs ↔ Consecutive cs ∧ cs.length * fs.mBytesPerCluster < 0x100000000 := by
  constructor
  · intro hresolves
    refine ⟨Decidable.byContradiction fun hbroken => h.not_resolves hranges hbroken hresolves, ?_⟩
    obtain ⟨f', hcompute, -⟩ := hresolves
    obtain ⟨ts, rfl⟩ := h.eq_cons
    rw [h.computeContiguousRanges_eq hranges] at hcompute
    obtain ⟨_, has, _⟩ := of_bind hcompute
    exact h.counted_iff.mp (of_decide_eq_true (assert_eq_ok.mp has))
  · intro hgood
    exact h.resolves hranges hgood.1 hgood.2

/-- Smaller than a volume that mounts, like the other samples: no theorem here depends on the size. -/
def linkedVolume (next : Nat → Nat) : FAT32 where
  mFatCache := next
  mDataCache := fun _ _ => 0
  mClusterCount := 0x10000
  mBytesPerCluster := 512
  mEndOfChain := 0x0FFFFFFF

theorem resolves_iff_threeClusters : Resolves (linkedVolume fun i => if i < 4 then i + 1 else 0x0FFFFFFF)
      { mFirstCluster := 2, mSize := 1200 } [2, 3, 4] :=
  have hoccupies : Occupies (linkedVolume fun i => if i < 4 then i + 1 else 0x0FFFFFFF)
      { mFirstCluster := 2, mSize := 1200 } [2, 3, 4] :=
    ⟨by decide, by decide, by decide, by decide, by decide, by decide, by decide, by decide⟩
  (resolves_iff hoccupies rfl).mpr ⟨by decide, by decide⟩

/-- A file in the clusters 2 and 5 has its second cluster looked up as cluster 3. -/
theorem not_resolves_twoFragments : Occupies (linkedVolume fun i => if i = 2 then 5 else 0x0FFFFFFF)
        { mFirstCluster := 2, mSize := 1000 } [2, 5] ∧
      ¬ Resolves (linkedVolume fun i => if i = 2 then 5 else 0x0FFFFFFF)
        { mFirstCluster := 2, mSize := 1000 } [2, 5] ∧
      (linkedVolume fun i => if i = 2 then 5 else 0x0FFFFFFF).clusterFromOffset
        { mContiguousRanges := [⟨0, 2⟩, ⟨2, 5⟩], mFirstCluster := 2, mSize := 1000 } 1 = .ok 3 ∧
      (linkedVolume fun i => if i = 2 then 5 else 0x0FFFFFFF).computeContiguousRanges
        { mFirstCluster := 2, mSize := 1000 } =
          .ok { mContiguousRanges := [⟨0, 2⟩, ⟨2, 5⟩], mFirstCluster := 2, mSize := 1000 } := by
  have hoccupies : Occupies (linkedVolume fun i => if i = 2 then 5 else 0x0FFFFFFF)
      { mFirstCluster := 2, mSize := 1000 } [2, 5] :=
    ⟨by decide, by decide, by decide, by decide, by decide, by decide, by decide, by decide⟩
  exact ⟨hoccupies, hoccupies.not_resolves rfl (by decide), by decide, by decide +kernel⟩

end UltraOS.FAT32
