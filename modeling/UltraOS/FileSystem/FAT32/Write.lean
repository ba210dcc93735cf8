import Mathlib.Data.List.GetD
import UltraOS.FileSystem.FAT32.Allocation

/-!
# Reading and writing a file

What `read` and `write` do to the clusters of a file that are consecutive on the disk. A byte of such a
file is found by counting from the first cluster. The loops of `read` and `write` walk over it
cluster by cluster, and their effect is described byte by byte.
-/

namespace UltraOS.FAT32

open List List

section

variable {l r k : Nat}

lemma ceilingDivide_le_iff (hr : 0 < r) : ceilingDivide l r ≤ k ↔ l ≤ k * r := by
  by_cases hl : l = 0
  · subst hl
    simp [ceilingDivide]
  · have hdiv := Nat.div_lt_iff_lt_mul hr (x := l - 1) (y := k)
    rw [ceilingDivide_eq hl]
    omega

lemma lt_ceilingDivide_iff (hr : 0 < r) : k < ceilingDivide l r ↔ k * r < l := by
  have hle := ceilingDivide_le_iff hr (l := l) (k := k)
  omega

lemma ceilingDivide_mono {l' : Nat} (hr : 0 < r) (h : l ≤ l') : ceilingDivide l r ≤ ceilingDivide l' r :=
  (ceilingDivide_le_iff hr).mpr (h.trans ((ceilingDivide_le_iff hr).mp le_rfl))

lemma ceilingDivide_max (hr : 0 < r) (a b : Nat) :
    ceilingDivide (max a b) r = max (ceilingDivide a r) (ceilingDivide b r) := by
  rcases le_total a b with h | h
  · rw [max_eq_right h, max_eq_right (ceilingDivide_mono hr h)]
  · rw [max_eq_left h, max_eq_left (ceilingDivide_mono hr h)]

lemma div_lt_ceilingDivide {q : Nat} (hr : 0 < r) (h : q < l) : q / r < ceilingDivide l r :=
  (lt_ceilingDivide_iff hr).mpr (lt_of_le_of_lt (Nat.div_mul_le_self q r) h)

end

variable {j o : Nat}

section

/-- So many clusters of the file follow the first one on the disk, and the file knows it. -/
structure Straight (fs : FAT32) (f : File) (first count : Nat) : Prop where
  cached : f.mContiguousRanges.isEmpty = false
  bytes_pos : 0 < fs.mBytesPerCluster
  lookup : ∀ k < count, fs.clusterFromOffset f k = .ok (first + k)
  link : ∀ k < count, entryTypeOfFatValue (first + k) = .link

def byteAt (fs : FAT32) (first position : Nat) : UInt8 :=
  fs.mDataCache (first + position / fs.mBytesPerCluster - reservedClusterCount) (position % fs.mBytesPerCluster)

def bytesFrom (fs : FAT32) (first position count : Nat) : List UInt8 :=
  (range count).map fun i => byteAt fs first (position + i)

variable {fs : FAT32} {f : File} {first : Nat}

lemma bytesFrom_add (fs : FAT32) (first pos a b : Nat) :
    bytesFrom fs first pos (a + b) = bytesFrom fs first pos a ++ bytesFrom fs first (pos + a) b := by
  rw [bytesFrom, range_add, map_append, map_map]
  congr 1
  apply map_congr_left
  intro i _
  exact congrArg (byteAt fs first) (add_assoc pos a i).symm

lemma length_bytesFrom (fs : FAT32) (first pos n : Nat) : (bytesFrom fs first pos n).length = n := by
  rw [bytesFrom, length_map, length_range]

lemma take_drop_bytesFrom (fs : FAT32) (first size o n : Nat) :
    ((bytesFrom fs first 0 size).drop o).take n = bytesFrom fs first o (min n (size - o)) := by
  apply ext_getElem?
  intro i
  rw [getElem?_take]
  simp only [bytesFrom, getElem?_drop, getElem?_map, zero_add]
  by_cases hi : i < min n (size - o)
  · rw [if_pos (by omega), getElem?_range (by omega), getElem?_range hi]
    rfl
  · rw [getElem?_eq_none (l := range (min n (size - o))) (by rw [length_range]; omega)]
    split
    · rw [getElem?_eq_none (by rw [length_range]; omega)]
      rfl
    · rfl

lemma Straight.block {count : Nat} (h : Straight fs f first count) (hj : j < count) :
    fs.clusterFromOffset f j = .ok (first + j) ∧ pureClusterValue (first + j) =
    .ok (first + j - reservedClusterCount) ∧ reservedClusterCount ≤ first + j := by
  have hge : reservedClusterCount ≤ first + j := ((entryType_eq_link_iff _).mp (h.link j hj)).1
  refine ⟨h.lookup j hj, ?_, hge⟩
  rw [pureClusterValue, assert_bind hge]
  rfl

lemma byteAt_of_lt (fs : FAT32) (first j : Nat) (h : o < fs.mBytesPerCluster) :
    byteAt fs first (j * fs.mBytesPerCluster + o) = fs.mDataCache (first + j - reservedClusterCount) o := by
  have hpos : 0 < fs.mBytesPerCluster := Nat.zero_lt_of_lt h
  rw [byteAt, mul_comm, Nat.mul_add_div hpos, Nat.div_eq_of_lt h, add_zero, Nat.mul_add_mod, Nat.mod_eq_of_lt h]

variable {bs : Nat}

lemma lockedRead_eq (fs : FAT32) (b : Nat) (h : o + bs ≤ fs.mBytesPerCluster) :
    fs.lockedRead b o bs = .ok ((range bs).map fun i => fs.mDataCache b (o + i)) := by
  rw [lockedRead, assert_bind h]
  rfl

lemma lockedRead_byteAt (fs : FAT32) (first j : Nat) (h : o + bs ≤ fs.mBytesPerCluster) :
    fs.lockedRead (first + j - reservedClusterCount) o bs =
    .ok (bytesFrom fs first (j * fs.mBytesPerCluster + o) bs) := by
  rw [lockedRead_eq fs _ h, bytesFrom]
  congr 1
  apply map_congr_left
  intro i hi
  rw [mem_range] at hi
  rw [add_assoc (j * _), byteAt_of_lt fs first j (by omega)]

lemma Straight.readLoop_eq (h : Straight fs f first (ceilingDivide f.mSize fs.mBytesPerCluster)) (m j o n : Nat) (buf : List UInt8)
    (ho : o < fs.mBytesPerCluster) (hend : j * fs.mBytesPerCluster + o + n ≤ f.mSize)
    (hj : j * fs.mBytesPerCluster < f.mSize) (hn : n < m) : fs.readLoop f m j o n buf =
    .ok (buf ++ bytesFrom fs first (j * fs.mBytesPerCluster + o) n) := by
  induction m generalizing j o n buf with
  | zero => omega
  | succ m ih =>
    obtain ⟨hlookup, hb, -⟩ := h.block ((lt_ceilingDivide_iff h.bytes_pos).mpr hj)
    rw [readLoop, hlookup, ok_bind, hb, ok_bind, lockedRead_byteAt fs first j (by omega), ok_bind]
    by_cases hlast : n ≤ fs.mBytesPerCluster - o
    · rw [min_eq_left hlast, Nat.sub_self, if_pos rfl]
      rfl
    · have hnext : (j + 1) * fs.mBytesPerCluster =
          j * fs.mBytesPerCluster + fs.mBytesPerCluster := Nat.succ_mul _ _
      have hpos : j * fs.mBytesPerCluster + o + (fs.mBytesPerCluster - o) =
          (j + 1) * fs.mBytesPerCluster + 0 := by omega
      have hsplit : n = (fs.mBytesPerCluster - o) + (n - (fs.mBytesPerCluster - o)) := by omega
      rw [min_eq_right (by omega), if_neg (by omega),
        ih (j + 1) 0 _ _ h.bytes_pos (by omega) (by omega) (by omega), append_assoc,
        ← hpos, ← bytesFrom_add, ← hsplit]

lemma Straight.read_eq (h : Straight fs f first (ceilingDivide f.mSize fs.mBytesPerCluster)) (o size : Nat) :
    fs.read f o size = .ok (f, ((bytesFrom fs first 0 f.mSize).drop o).take size) := by
  rw [read, take_drop_bytesFrom]
  by_cases ho : o ≥ f.mSize
  · rw [if_pos ho, Nat.sub_eq_zero_of_le ho, Nat.min_zero]
    rfl
  · have hdiv := Nat.div_add_mod' o fs.mBytesPerCluster
    have hmod := Nat.mod_lt o h.bytes_pos
    have hpos : o / fs.mBytesPerCluster * fs.mBytesPerCluster +
        (o - o / fs.mBytesPerCluster * fs.mBytesPerCluster) = o := by omega
    rw [if_neg ho, withRanges, h.cached, if_neg (by simp), ok_bind]
    dsimp only
    rw [h.readLoop_eq _ _ _ _ _ (by omega) (by omega) (by omega) (lt_add_one _), ok_bind, nil_append, hpos]
    rfl

end

def positionOf (fs : FAT32) (first block i : Nat) : Nat :=
  (block + reservedClusterCount - first) * fs.mBytesPerCluster + i

def Within (fs : FAT32) (first position count block i : Nat) : Prop :=
  first ≤ block + reservedClusterCount ∧ i < fs.mBytesPerCluster ∧
    position ≤ positionOf fs first block i ∧ positionOf fs first block i < position + count

instance (fs : FAT32) (first position count block i : Nat) :
    Decidable (Within fs first position count block i) := inferInstanceAs (Decidable (_ ∧ _))

def overlay (fs : FAT32) (first position : Nat) (bytes : List UInt8) : FAT32 :=
  { fs with
    mDataCache := fun block i =>
      if Within fs first position bytes.length block i then
        bytes.getD (positionOf fs first block i - position) 0
      else fs.mDataCache block i }

variable {fs : FAT32} {f : File} {first : Nat}

lemma within_iff {n b i : Nat} (hge : reservedClusterCount ≤ first + j) (h : o + n ≤ fs.mBytesPerCluster) :
    Within fs first (j * fs.mBytesPerCluster + o) n b i ↔ b = first + j - reservedClusterCount ∧ o ≤ i ∧ i < o + n := by
  unfold Within positionOf
  constructor
  · rintro ⟨hfirst, hi, hlow, hhigh⟩
    have hj : b + reservedClusterCount - first = j := by
      rcases Nat.lt_trichotomy (b + reservedClusterCount - first) j with hlt | heq | hgt
      · have hmul := Nat.mul_le_mul_right fs.mBytesPerCluster hlt
        rw [Nat.succ_mul] at hmul
        omega
      · exact heq
      · have hmul := Nat.mul_le_mul_right fs.mBytesPerCluster hgt
        rw [Nat.succ_mul] at hmul
        omega
    rw [hj] at hlow hhigh
    omega
  · rintro ⟨rfl, hlow, hhigh⟩
    have hj : first + j - reservedClusterCount + reservedClusterCount - first = j := by omega
    rw [hj]
    omega

lemma lockedWrite_overlay (fs : FAT32) {bs : List UInt8} (hge : reservedClusterCount ≤ first + j)
    (h : o + bs.length ≤ fs.mBytesPerCluster) : fs.lockedWrite (first + j - reservedClusterCount) o bs =
    .ok (overlay fs first (j * fs.mBytesPerCluster + o) bs) := by
  rw [lockedWrite, assert_bind h, overlay]
  congr 2
  funext b i
  simp only [within_iff hge h]
  split
  · rename_i hin
    have hj : b + reservedClusterCount - first = j := by omega
    have hsub : j * fs.mBytesPerCluster + i - (j * fs.mBytesPerCluster + o) = i - o := by omega
    rw [positionOf, hj, hsub]
  · rfl

lemma overlay_overlay (fs : FAT32) (first pos : Nat) (xs ys : List UInt8) :
    overlay (overlay fs first pos xs) first (pos + xs.length) ys = overlay fs first pos (xs ++ ys) := by
  simp only [overlay]
  congr 1
  funext b i
  simp only [Within, positionOf, length_append]
  obtain ⟨q, hq⟩ : ∃ q, (b + reservedClusterCount - first) * fs.mBytesPerCluster + i = q := ⟨_, rfl⟩
  simp only [hq]
  by_cases hin : first ≤ b + reservedClusterCount ∧ i < fs.mBytesPerCluster
  · by_cases hfront : q < pos + xs.length
    · rw [if_neg (by omega)]
      by_cases hlow : pos ≤ q
      · rw [if_pos (by omega), if_pos (by omega), getD_append _ _ _ _ (by omega)]
      · rw [if_neg (by omega), if_neg (by omega)]
    · by_cases hhigh : q < pos + (xs.length + ys.length)
      · rw [if_pos (by omega), if_pos (by omega), getD_append_right _ _ _ _ (by omega)]
        congr 1
        omega
      · rw [if_neg (by omega), if_neg (by omega), if_neg (by omega)]
  · rw [if_neg (by omega), if_neg (by omega), if_neg (by omega)]

lemma Straight.overlaid {count : Nat} (h : Straight fs f first count) (first' pos : Nat) (bs : List UInt8) :
    Straight (overlay fs first' pos bs) f first count := ⟨h.cached, h.bytes_pos, h.lookup, h.link⟩

lemma Straight.writeLoop_eq {count : Nat} (h : Straight fs f first count) (m j o : Nat) (bs : List UInt8)
    (ho : o < fs.mBytesPerCluster) (hbs : bs.length ≠ 0)
    (hend : ceilingDivide (j * fs.mBytesPerCluster + o + bs.length) fs.mBytesPerCluster ≤ count) (hn : bs.length < m) :
    writeLoop f m fs j o bs = .ok (overlay fs first (j * fs.mBytesPerCluster + o) bs) := by
  induction m generalizing fs j o bs with
  | zero => omega
  | succ m ih =>
    obtain ⟨hlookup, hb, hge⟩ := h.block
      (lt_of_lt_of_le ((lt_ceilingDivide_iff h.bytes_pos (k := j)).mpr (by omega)) hend)
    have hlen : (bs.take (min bs.length (fs.mBytesPerCluster - o))).length =
        min bs.length (fs.mBytesPerCluster - o) := length_take_of_le (by omega)
    rw [writeLoop, hlookup, ok_bind, hb, ok_bind, lockedWrite_overlay fs hge (by rw [hlen]; omega), ok_bind]
    by_cases hlast : bs.length ≤ fs.mBytesPerCluster - o
    · rw [min_eq_left hlast, Nat.sub_self, if_pos rfl, take_length]
      rfl
    · rw [min_eq_right (by omega)] at hlen ⊢
      have hnext : (j + 1) * fs.mBytesPerCluster =
          j * fs.mBytesPerCluster + fs.mBytesPerCluster := Nat.succ_mul _ _
      have hpos : (j + 1) * fs.mBytesPerCluster + 0 = j * fs.mBytesPerCluster + o +
            (bs.take (fs.mBytesPerCluster - o)).length := by omega
      have hsum : (j + 1) * fs.mBytesPerCluster + 0 + (bs.length - (fs.mBytesPerCluster - o)) =
          j * fs.mBytesPerCluster + o + bs.length := by omega
      have hrest : (bs.drop (fs.mBytesPerCluster - o)).length = bs.length - (fs.mBytesPerCluster - o) := length_drop
      have hrun := ih (h.overlaid first (j * fs.mBytesPerCluster + o) (bs.take (fs.mBytesPerCluster - o))) (j + 1) 0
        (bs.drop (fs.mBytesPerCluster - o)) h.bytes_pos (by omega)
        (by rw [hrest]; show ceilingDivide ((j + 1) * fs.mBytesPerCluster + 0 + _) _ ≤ _; rwa [hsum]) (by omega)
      rw [if_neg (by omega), hrun]
      show Except.ok (overlay _ _ ((j + 1) * fs.mBytesPerCluster + 0) _) = _
      rw [hpos, overlay_overlay, take_append_drop]

end UltraOS.FAT32
