import UltraOS.FileSystem.FAT32.Files.Places

/-!
# Balance of path walks

Every exit of the three walks gives back the mutexes and the references that the walk has taken, except
for the exits that are named here.
-/

namespace UltraOS

open List

namespace FAT32

namespace Walk

variable {m m0 : Mount} {p : Place} {curFile : Nat} {nextFile : Option Nat}
  {nodes : List (List UInt8)} {node : List UInt8} {c : OnlyIf}

/-- The walk has unlocked and closed files as it may. -/
def Clean (m : Mount) : Prop := m.unlockedUnheld = false ∧ m.closedHeld = false

/-- What a walk that returns leaves: no mutex is held, and the references are those of before and
`gained`. -/
def Leaves (m0 : Mount) (gained : Identifier → Nat) (m : Mount) : Prop :=
  Clean m ∧ m.held = [] ∧ ∀ i, refs m i = refs m0 i + gained i

/-- A walk that opens a file returns, with one reference more to the file. -/
def OpenBalanced (m0 : Mount) : EStateM.Result Fault Mount (Except ErrorCode Nat) → Prop
  | .ok (.ok ptr) m => ∃ object, m.objects ptr = some object ∧
      Leaves m0 (fun i => if i = object.file.mIdentifier then 1 else 0) m
  | .ok (.error _) m => Leaves m0 (fun _ => 0) m
  | .error _ _ => False

/-- A walk that changes a directory may stop in the change, but not with a mutex misused. -/
def Balanced (m0 : Mount) : EStateM.Result Fault Mount ErrorCode → Prop
  | .ok _ m => Leaves m0 (fun _ => 0) m
  | .error _ m => Clean m

lemma Walking.leaves {Good : FileObject → Prop} (h : Walking Good m0 [] [] m) : Leaves m0 (fun _ => 0) m :=
  ⟨⟨h.unlockedUnheld, h.closedHeld⟩, h.held_eq, fun i => by rw [h.refs_eq]; simp [credit]⟩

variable {compare : Comparison}

section

variable {others : List Reference}

/-- The walk ends at the place that the path names with a reference to its file, or with none if there is no
admissible place. -/
def Opens (m0 : Mount) (others : List Reference) (constraint : OnlyIf) (place : Place)
    (nodes : List (List UInt8)) : EStateM.Result Fault Mount (Except ErrorCode Nat) → Prop
  | .ok (.ok ptr) m => ∃ (r : Reference) (entry : NativeEntry), r.1 = ptr ∧
      IsAt m0 r (.entry entry) ∧ Walks m0 [] (r :: others) m ∧
      placeFrom m0.fs m0.rootDirCluster exactly place nodes = some (.entry entry) ∧
      OnlyIf.admits entry.isDirectory constraint = true
  | .ok (.error _) m => Walks m0 [] others m ∧
      ∀ entry, placeFrom m0.fs m0.rootDirCluster exactly place nodes = some (.entry entry) →
        OnlyIf.admits entry.isDirectory constraint = false
  | .error _ _ => False

lemma openResult_next {cur r : Reference} {e : NativeEntry} (h : Walks m0 [cur.1] (cur :: r :: others) m)
    (hat : IsAt m0 r (.entry e)) : Opens m0 others c (.entry e) [] (openResult c cur.1 (some r.1) m) := by
  obtain ⟨m1, hclose, h1⟩ := h.unlockAndClose
  have hdir : r.2.isDirectory = e.isDirectory := (hat.agrees h1).1
  rw [openResult, bind_of_ok hclose, bind_of_ok (objectAt_eq h1.head_isOpen)]
  obtain ⟨m2, hclose2, h2⟩ := h1.close not_mem_nil
  rw [hdir]
  by_cases hfile : c = .file ∧ e.isDirectory = true
  · rw [if_pos hfile, bind_of_ok hclose2]
    refine ⟨h2, fun u hu => ?_⟩
    obtain rfl := Place.entry.inj (Option.some.inj hu)
    rw [hfile.1, hfile.2]
    rfl
  rw [if_neg hfile]
  by_cases hu : c = .directory ∧ (!e.isDirectory) = true
  · rw [if_pos hu, bind_of_ok hclose2]
    refine ⟨h2, fun u hp => ?_⟩
    obtain rfl := Place.entry.inj (Option.some.inj hp)
    rw [hu.1]
    exact Bool.not_eq_true' _ ▸ hu.2
  · rw [if_neg hu]
    refine ⟨r, e, rfl, hat, h1, rfl, ?_⟩
    cases c with
    | file => simpa [OnlyIf.admits] using hfile
    | directory => simpa [OnlyIf.admits] using hu

variable {fs : FAT32} {rootDirCluster : Nat} {p' : Place}

lemma placeFrom_cons (h : child fs rootDirCluster compare p node = some p') :
    placeFrom fs rootDirCluster compare p (node :: nodes) = placeFrom fs rootDirCluster compare p' nodes := by
  rw [placeFrom, foldlM_cons, h]
  rfl

lemma placeFrom_none (h : child fs rootDirCluster compare p node = none) :
    placeFrom fs rootDirCluster compare p (node :: nodes) = none := by
  rw [placeFrom, foldlM_cons, h]
  rfl

lemma opens_none (hchild : child m0.fs m0.rootDirCluster exactly p node = none) (h : Walks m0 [] others m)
    (code : ErrorCode) : Opens m0 others c p (node :: nodes) (.ok (.error code) m) := by
  refine ⟨h, fun e he => ?_⟩
  rw [placeFrom_none hchild] at he
  cases he

lemma child_dot : child fs rootDirCluster compare p dot = some p := by rw [child, if_pos rfl]

lemma child_of_file (hnode : node ≠ dot) (hp : p.isDirectory = false)
    : child fs rootDirCluster compare p node = none := by
  rw [child, if_neg hnode, hp, if_neg (by decide)]

variable {res : EStateM.Result Fault Mount (Except ErrorCode Nat)}

lemma Opens.cons (hchild : child m0.fs m0.rootDirCluster exactly p node = some p')
    (h : Opens m0 others c p' nodes res) : Opens m0 others c p (node :: nodes) res := by
  match res, h with
  | .ok (.ok ptr) m, h =>
    obtain ⟨r, e, hptr, hat, hwalks, hp, hadm⟩ := h
    exact ⟨r, e, hptr, hat, hwalks, (placeFrom_cons hchild).trans hp, hadm⟩
  | .ok (.error _) m, h => exact ⟨h.1, fun e he => h.2 e ((placeFrom_cons hchild).symm.trans he)⟩

lemma openLoop_opens (hm : Mounted m0) (h : Pending m0 others true m curFile nextFile p) (hnodes : nextFile = none →
    ∃ node ∈ nodes, node ≠ dot) : Opens m0 others c p nodes (openLoop c nodes curFile nextFile m) := by
  induction nodes generalizing m curFile nextFile p with
  | nil =>
    cases h with
    | start h =>
      obtain ⟨node, hnode, -⟩ := hnodes rfl
      cases hnode
    | next h hat => exact openResult_next h hat
  | cons node nodes ih =>
    rw [openLoop]
    by_cases hdot : node = dot
    · rw [if_pos hdot, hdot]
      refine .cons child_dot (ih h ?_)
      intro hnone
      obtain ⟨u, hu, hne⟩ := hnodes hnone
      rcases mem_cons.mp hu with rfl | hu
      · exact absurd hdot hne
      · exact ⟨u, hu, hne⟩
    · rw [if_neg hdot]
      obtain ⟨r, m1, hat, h1, hrest⟩ := h.arrive
      rw [show leaveWith true = unlockAndClose from rfl] at hrest
      rw [hrest]
      obtain ⟨hdir, hc⟩ := hat.agrees h1
      rw [hdir]
      cases hp : p.isDirectory with
      | false =>
        obtain ⟨m2, hclose, h2⟩ := h1.unlockAndClose
        rw [if_pos (by decide), bind_of_ok hclose]
        exact opens_none (child_of_file hdot hp) h2 _
      | true =>
        rw [if_neg (by decide)]
        rcases h1.openWanted exactly hm hat.1 hp (hc hp) hdot with
          ⟨hchild, hopen⟩ | ⟨e, next, m2, hchild, hopen, hnext, h2⟩
        · obtain ⟨m2, hclose, h2⟩ := h1.unlockAndClose
          rw [bind_of_ok hopen]
          change Opens _ _ _ _ _ (openResult c r.1 none m1)
          rw [openResult, bind_of_ok hclose]
          exact opens_none hchild h2 _
        · rw [bind_of_ok hopen]
          exact .cons hchild (ih (.next (h2.perm (.swap ..)) hnext) (fun hnone => by cases hnone))

lemma unlockAndClose_root (h : Walks m0 [] others m) :
    ∃ fault, unlockAndClose m.mRootDirectory m = .error fault { m with unlockedUnheld := true } := by
  obtain ⟨object, -, h'⟩ := h.root
  refine ⟨.assertion "m_owner == Thread::current()", ?_⟩
  rw [unlockAndClose, bind_of_error]
  rw [unlock, bind_of_ok (objectAt_eq h'.head_isOpen), giveBack, h.held_eq, if_neg not_mem_nil]

lemma openLoop_dots (c : OnlyIf) (h : Walks m0 [] others m) (hnodes : ∀ node ∈ nodes, node = dot) : ∃ fault,
    openLoop c nodes m.mRootDirectory none m = .error fault { m with unlockedUnheld := true } := by
  induction nodes with
  | nil =>
    obtain ⟨fault, hclose⟩ := unlockAndClose_root h
    refine ⟨fault, ?_⟩
    rw [openLoop, openResult, bind_of_error hclose]
  | cons node nodes ih =>
    rw [openLoop, if_pos (hnodes node mem_cons_self)]
    exact ih fun u hu => hnodes u (mem_cons_of_mem _ hu)

lemma Opens.balanced (h : Opens m0 [] c p nodes res) : OpenBalanced m0 res := by
  match res, h with
  | .ok (.ok ptr) m, h =>
    obtain ⟨r, e, rfl, ⟨hin, hid⟩, hwalks, -⟩ := h
    refine ⟨r.2, hwalks.head_isOpen.1, ⟨hwalks.unlockedUnheld, hwalks.closedHeld⟩, hwalks.held_eq, fun i => ?_⟩
    have hroot : r.identifier ≠ rootIdentifier := hid ▸ Listed.identifier_ne hin
    rw [hwalks.refs_eq, credit_cons hroot]
    simp [credit, Reference.identifier]
  | .ok (.error _) m, h => exact h.1.leaves

lemma openBalanced_iff (hm : Mounted m0) (path : List UInt8) :
    OpenBalanced m0 (openFileFromPath path c m0) ↔ ∃ node ∈ nodesOf path, node ≠ dot := by
  constructor
  · intro h
    by_contra hdots
    have hall : ∀ node ∈ nodesOf path, node = dot := by
      intro node hnode
      by_contra hne
      exact hdots ⟨node, hnode, hne⟩
    obtain ⟨fault, hres⟩ := openLoop_dots c hm.walks hall
    rwa [openFileFromPath, hres] at h
  · intro h
    exact (openLoop_opens hm (.start hm.walks) fun _ => h).balanced

end

section

variable {Good : FileObject → Prop} {r : Reference}

/-- The path ends in `.` or `..`, and the nodes in front of that name a place as `Q` says. -/
def EndsInDots (m0 : Mount) (compare : Comparison) (Q : Place → Prop) (place : Place)
    (nodes : List (List UInt8)) : Prop :=
  ∃ front last place', nodes = front ++ [last] ∧ (last = dot ∨ last = dotDot) ∧
    placeFrom m0.fs m0.rootDirCluster compare place front = some place' ∧ Q place'

variable {Q : Place → Prop}

lemma endsInDots_singleton : EndsInDots m0 compare Q p [node] ↔ (node = dot ∨ node = dotDot) ∧ Q p := by
  constructor
  · rintro ⟨xs, last, p', hnodes, hlast, hp, hQ⟩
    obtain ⟨rfl, rfl⟩ : xs = [] ∧ node = last := by simpa [singleton_eq_append_iff, eq_comm] using hnodes
    cases hp
    exact ⟨hlast, hQ⟩
  · rintro ⟨hlast, hQ⟩
    exact ⟨[], node, p, rfl, hlast, rfl, hQ⟩

lemma endsInDots_cons (hnodes : nodes ≠ []) : EndsInDots m0 compare Q p (node :: nodes) ↔ ∃ p',
    child m0.fs m0.rootDirCluster compare p node = some p' ∧ EndsInDots m0 compare Q p' nodes := by
  constructor
  · rintro ⟨xs, last, p', heq, hlast, hp, hQ⟩
    cases xs with
    | nil => exact absurd (cons.inj heq).2 hnodes
    | cons first xs =>
      obtain ⟨rfl, rfl⟩ := cons.inj heq
      obtain ⟨next, hchild, hrest⟩ := Option.bind_eq_some_iff.mp hp
      exact ⟨next, hchild, xs, last, p', rfl, hlast, hrest, hQ⟩
  · rintro ⟨next, hchild, xs, last, p', rfl, hlast, hp, hQ⟩
    exact ⟨node :: xs, last, p', rfl, hlast, (placeFrom_cons hchild).trans hp, hQ⟩

lemma not_endsInDots_cons (hnodes : nodes ≠ []) (hchild : child m0.fs m0.rootDirCluster compare p node = none) :
    ¬EndsInDots m0 compare Q p (node :: nodes) := by
  rw [endsInDots_cons hnodes, hchild]
  rintro ⟨_, h, -⟩
  cases h

lemma balanced_exit (h : Walking Good m0 [r.1] [r] m) (code : ErrorCode) :
    Balanced m0 ((do unlockAndClose r.1; return code : Walk ErrorCode) m) := by
  obtain ⟨m', hclose, h'⟩ := h.unlockAndClose
  rw [bind_of_ok hclose]
  exact h'.leaves

lemma Walking.withFs {held : List Nat} {owned : List Reference} (h : Walking Good m0 held owned m) (fs : FAT32) :
    Walking Good { m0 with fs := fs } held owned { m with fs := fs } where
  toFrame := { h.toFrame with fs_eq := rfl }
  consistent := ⟨h.consistent.opened, h.consistent.fresh, h.consistent.root⟩
  isOpen := h.isOpen
  refs_eq := h.refs_eq

/-- The computation changes the volume and nothing else, or stops. -/
def ChangesVolume (x : Walk ErrorCode) : Prop :=
  ∀ m, (∃ code fs, x m = .ok code { m with fs := fs }) ∨ ∃ fault, x m = .error fault m

lemma balanced_last {x : Walk ErrorCode} (hx : ChangesVolume x) (h : Walking Good m0 [r.1] [r] m) : Balanced m0 ((do
      let code ← x
      unlockAndClose r.1
      return code : Walk ErrorCode) m) := by
  rcases hx m with ⟨code, fs, hx⟩ | ⟨fault, hx⟩
  · rw [bind_of_ok hx]
    exact balanced_exit (h.withFs fs) code
  · rw [bind_of_error hx]
    exact ⟨h.unlockedUnheld, h.closedHeld⟩

lemma not_leaves {held : List Nat} (h : Walking Good m0 held [r] m)
    (hr : r.identifier ≠ rootIdentifier) : ¬Leaves m0 (fun _ => 0) m := by
  rintro ⟨-, -, hrefs⟩
  have heq : refs m r.identifier = refs m0 r.identifier := hrefs r.identifier
  rw [h.refs_eq, credit_cons_self hr] at heq
  omega

end

/-- The exit for a path that ends in `.` or `..` misses the file of the last node. -/
lemma not_balanced_dots (h : Pending m0 [] true m curFile nextFile p) (code : ErrorCode) :
    ¬Balanced m0 ((do unlockAndClose curFile; return code : Walk ErrorCode) m) := by
  cases h with
  | start h =>
    obtain ⟨fault, hclose⟩ := unlockAndClose_root h
    rw [bind_of_error hclose]
    rintro ⟨hunl, -⟩
    cases hunl
  | next h hat =>
    obtain ⟨m', hclose, h'⟩ := h.unlockAndClose
    rw [bind_of_ok hclose]
    exact not_leaves h' (hat.2 ▸ Listed.identifier_ne hat.1)

lemma removeLast_changesVolume (object : FileObject) : ChangesVolume (removeLast c object node) := by
  intro m
  rw [removeLast]
  split
  · exact .inl ⟨_, _, rfl⟩
  · exact .inr ⟨_, rfl⟩

lemma removeNodes_balanced_iff (hm : Mounted m0) (h : Pending m0 [] true m curFile nextFile p) (hnodes : nodes ≠ []) :
    Balanced m0 (removeNodes c nodes curFile nextFile m) ↔ ¬EndsInDots m0 exactly (fun _ => True) p nodes := by
  induction nodes generalizing m curFile nextFile p with
  | nil => exact absurd rfl hnodes
  | cons node nodes ih =>
    rw [removeNodes]
    by_cases hskip : node = dot ∧ nodes ≠ []
    · rw [if_pos hskip, ih h hskip.2, endsInDots_cons hskip.2, hskip.1, child_dot]
      simp
    rw [if_neg hskip]
    by_cases hdots : (node = dot ∨ node = dotDot) ∧ nodes = []
    · rw [if_pos hdots, hdots.2, endsInDots_singleton]
      exact iff_of_false (not_balanced_dots h _) (not_not_intro ⟨hdots.1, trivial⟩)
    rw [if_neg hdots]
    have hnode : node ≠ dot := fun heq => hskip ⟨heq, fun hnil => hdots ⟨.inl heq, hnil⟩⟩
    have hsingle : nodes = [] → ¬EndsInDots m0 exactly (fun _ => True) p (node :: nodes) := by
      rintro rfl
      rw [endsInDots_singleton]
      exact fun hends => hdots ⟨hends.1, rfl⟩
    obtain ⟨r, m1, hat, h1, hrest⟩ := h.arrive
    rw [show leaveWith true = unlockAndClose from rfl] at hrest
    rw [hrest]
    obtain ⟨hdir, hc⟩ := hat.agrees h1
    rw [hdir]
    cases hp : p.isDirectory with
    | false =>
      rw [if_pos (by decide)]
      refine iff_of_true (balanced_exit h1 _) ?_
      by_cases hnil : nodes = []
      · exact hsingle hnil
      · exact not_endsInDots_cons hnil (child_of_file hnode hp)
    | true =>
      rw [if_neg (by decide)]
      by_cases hnil : nodes = []
      · rw [if_pos hnil]
        exact iff_of_true (balanced_last (removeLast_changesVolume _) h1) (hsingle hnil)
      rw [if_neg hnil]
      rcases h1.openWanted exactly hm hat.1 hp (hc hp) hnode with
        ⟨hchild, hopen⟩ | ⟨e, next, m2, hchild, hopen, hnext, h2⟩
      · rw [bind_of_ok hopen]
        exact iff_of_true (balanced_exit h1 _) (not_endsInDots_cons hnil hchild)
      · rw [bind_of_ok hopen, endsInDots_cons hnil, hchild]
        have hrec := ih (.next (h2.perm (.swap ..)) hnext) hnil
        simpa using hrec

section

variable {new : NewFile}

def GoesThroughFile (m0 : Mount) (compare : Comparison) (place : Place) (nodes : List (List UInt8)) : Prop :=
  ∃ front node rest place', nodes = front ++ node :: rest ∧ node ≠ dot ∧ ¬(node = dotDot ∧ rest = []) ∧
    placeFrom m0.fs m0.rootDirCluster compare place front = some place' ∧
    place'.isDirectory = false

lemma goesThroughFile_cons : GoesThroughFile m0 compare p (node :: nodes) ↔
    (node ≠ dot ∧ ¬(node = dotDot ∧ nodes = []) ∧ p.isDirectory = false) ∨ ∃ p',
    child m0.fs m0.rootDirCluster compare p node = some p' ∧ GoesThroughFile m0 compare p' nodes := by
  constructor
  · rintro ⟨xs, u, ts, p', heq, hne, hlast, hp, hfile⟩
    cases xs with
    | nil =>
      obtain ⟨rfl, rfl⟩ := cons.inj heq
      cases hp
      exact .inl ⟨hne, hlast, hfile⟩
    | cons first xs =>
      obtain ⟨rfl, rfl⟩ := cons.inj heq
      obtain ⟨next, hchild, hrest⟩ := Option.bind_eq_some_iff.mp hp
      exact .inr ⟨next, hchild, xs, u, ts, p', rfl, hne, hlast, hrest, hfile⟩
  · rintro (⟨hne, hlast, hfile⟩ | ⟨next, hchild, xs, u, ts, p', rfl, hrest⟩)
    · exact ⟨[], node, nodes, p, rfl, hne, hlast, rfl, hfile⟩
    · exact ⟨node :: xs, u, ts, p', rfl, hrest.1, hrest.2.1, (placeFrom_cons hchild).trans hrest.2.2.1, hrest.2.2.2⟩

lemma not_goesThroughFile_nil : ¬GoesThroughFile m0 compare p [] := by
  rintro ⟨xs, node, ts, -, heq, -⟩
  exact absurd heq (by simp)

/-- The conditions under which `create_file` does not clean up. -/
def CreateFails (m0 : Mount) (place : Place) (nodes : List (List UInt8)) : Prop :=
  GoesThroughFile m0 caseInsensitiveEquals place nodes ∨ EndsInDots m0 caseInsensitiveEquals (· ≠ .root) place nodes

lemma createFails_cons (hnodes : nodes ≠ []) (hp : p.isDirectory = true) : CreateFails m0 p (node :: nodes) ↔ ∃ p',
    child m0.fs m0.rootDirCluster caseInsensitiveEquals p node = some p' ∧ CreateFails m0 p' nodes := by
  rw [CreateFails, goesThroughFile_cons, endsInDots_cons hnodes, hp]
  simp only [CreateFails, and_or_left, exists_or]
  simp

lemma close_held {r : Reference} (h : Walks m0 [r.1] [r] m) : ∃ m', close r.1 m = .ok () m' ∧ m'.closedHeld = true := by
  have hheld : decide (r.1 ∈ m.held) = true := decide_eq_true (by rw [h.held_eq]; simp)
  rw [close, hheld, Bool.or_true]
  by_cases hroot : r.1 = m.mRootDirectory
  · exact ⟨_, if_pos hroot, rfl⟩
  · obtain ⟨n, hmap⟩ := h.head_isOpen.2
    have hmap : m.mIdentifierToFile r.2.file.mIdentifier = some ⟨r.1, n⟩ := hmap
    have hopen : IsOpen { m with closedHeld := true } r := h.head_isOpen
    rw [if_neg hroot, closeObject, bind_of_ok (objectAt_eq hopen), decref, hmap]
    dsimp only
    split
    · exact ⟨_, rfl, rfl⟩
    · exact ⟨_, rfl, rfl⟩

lemma not_balanced_close_held {r : Reference} (h : Walks m0 [r.1] [r] m) (code : ErrorCode) :
    ¬Balanced m0 ((do close r.1; return code : Walk ErrorCode) m) := by
  obtain ⟨m', hclose, hmarked⟩ := close_held h
  rw [bind_of_ok hclose]
  rintro ⟨⟨-, hclean⟩, -⟩
  rw [hmarked] at hclean
  cases hclean

/-- The exit for a path that ends in `.` or `..` closes only the directory before. -/
lemma balanced_dots_iff (h : Pending m0 [] false m curFile nextFile p) (code : ErrorCode) :
    Balanced m0 ((do close curFile; return code : Walk ErrorCode) m) ↔ p = .root := by
  cases h with
  | start h =>
    obtain ⟨object, -, h'⟩ := h.root
    obtain ⟨m', hclose, h''⟩ := h'.close not_mem_nil
    rw [bind_of_ok hclose]
    exact iff_of_true h''.leaves rfl
  | next h hat =>
    obtain ⟨m', hclose, h'⟩ := h.close not_mem_nil
    rw [bind_of_ok hclose]
    exact iff_of_false (not_leaves h' (hat.2 ▸ Listed.identifier_ne hat.1)) (by simp)

lemma createLast_changesVolume (object : FileObject) : ChangesVolume (createLast new object node) := by
  intro m
  rw [createLast]
  split
  · exact .inl ⟨_, _, rfl⟩
  · exact .inr ⟨_, rfl⟩

lemma createNodes_balanced_iff (hm : Mounted m0) (h : Pending m0 [] false m curFile nextFile p)
    (hnodes : nodes ≠ []) : Balanced m0 (createNodes new nodes curFile nextFile m) ↔ ¬CreateFails m0 p nodes := by
  induction nodes generalizing m curFile nextFile p with
  | nil => exact absurd rfl hnodes
  | cons node nodes ih =>
    rw [createNodes]
    by_cases hskip : node = dot ∧ nodes ≠ []
    · rw [if_pos hskip, ih h hskip.2, CreateFails, CreateFails, goesThroughFile_cons,
        endsInDots_cons hskip.2, hskip.1, child_dot]
      simp
    rw [if_neg hskip]
    by_cases hdots : (node = dot ∨ node = dotDot) ∧ nodes = []
    · have hthrough : ¬GoesThroughFile m0 caseInsensitiveEquals p (node :: []) := by
        rw [goesThroughFile_cons]
        rintro (⟨hne, hlast, -⟩ | ⟨_, -, hnil⟩)
        · exact hlast ⟨hdots.1.resolve_left hne, rfl⟩
        · exact not_goesThroughFile_nil hnil
      rw [if_pos hdots, hdots.2, balanced_dots_iff h, CreateFails, endsInDots_singleton]
      simp [hthrough, hdots.1]
    rw [if_neg hdots]
    have hnode : node ≠ dot := fun heq => hskip ⟨heq, fun hnil => hdots ⟨.inl heq, hnil⟩⟩
    have hlast : ¬(node = dotDot ∧ nodes = []) := fun hlast => hdots ⟨.inr hlast.1, hlast.2⟩
    obtain ⟨r, m1, hat, h1, hrest⟩ := h.arrive
    rw [show leaveWith false = close from rfl] at hrest
    rw [hrest]
    obtain ⟨hdir, hc⟩ := hat.agrees h1
    rw [hdir]
    cases hp : p.isDirectory with
    | false =>
      rw [if_pos (by decide)]
      refine iff_of_false (not_balanced_close_held h1 _) (not_not_intro ?_)
      exact .inl (goesThroughFile_cons.mpr (.inl ⟨hnode, hlast, hp⟩))
    | true =>
      rw [if_neg (by decide)]
      by_cases hnil : nodes = []
      · rw [if_pos hnil]
        refine iff_of_true (balanced_last (createLast_changesVolume _) h1) ?_
        subst hnil
        rintro (hthrough | hends)
        · rcases goesThroughFile_cons.mp hthrough with ⟨-, -, hfile⟩ | ⟨_, -, hthrough⟩
          · rw [hp] at hfile
            cases hfile
          · exact not_goesThroughFile_nil hthrough
        · exact hdots ⟨(endsInDots_singleton.mp hends).1, rfl⟩
      rw [if_neg hnil, createFails_cons hnil hp]
      rcases h1.openWanted caseInsensitiveEquals hm hat.1 hp (hc hp) hnode with
        ⟨hchild, hopen⟩ | ⟨e, next, m2, hchild, hopen, hnext, h2⟩
      · rw [bind_of_ok hopen, hchild]
        exact iff_of_true (balanced_exit h1 _) (by simp)
      · obtain ⟨m3, hunlock, h3⟩ := h2.unlock (h2.isOpen r (by simp))
        have hrec := ih (.next (h3.perm (.swap ..)) hnext) hnil
        rw [bind_of_ok hopen, hchild]
        change Balanced m0 ((unlock r.1 >>= fun _ => createNodes new nodes r.1 (some next.1)) m2) ↔ _
        rw [bind_of_ok hunlock, hrec]
        simp

end

lemma walkedNodes_ne_nil (path : List UInt8) : walkedNodes path ≠ [] := by
  rw [walkedNodes]
  split <;> simp

lemma removeBalanced_iff (hm : Mounted m0) (path : List UInt8) :
    Balanced m0 (removeFile path c m0) ↔ ¬EndsInDots m0 exactly (fun _ => True) .root (walkedNodes path) :=
  removeNodes_balanced_iff hm (.start hm.walks) (walkedNodes_ne_nil path)

lemma createBalanced_iff (hm : Mounted m0) (path : List UInt8) (isDirectory : Bool) (time : HumanReadable) :
    Balanced m0 (createFile path isDirectory time m0) ↔ ¬CreateFails m0 .root (walkedNodes path) :=
  createNodes_balanced_iff hm (.start hm.walks) (walkedNodes_ne_nil path)

/-- Opening cleans up for every path with a node other than `.`, removing unless it comes to a last node `.`
or `..`, creating unless the path goes on behind a file, or comes to a last node `.` or `..` behind a node
it has opened. -/
theorem walks_balanced_iff (hm : Mounted m) (path : List UInt8) (constraint : OnlyIf) (isDirectory : Bool)
    (time : HumanReadable) : (OpenBalanced m (openFileFromPath path constraint m) ↔ ∃ node ∈ nodesOf path, node ≠ dot) ∧
    (Balanced m (removeFile path constraint m) ↔ ¬EndsInDots m exactly (fun _ => True) .root (walkedNodes path)) ∧
    (Balanced m (createFile path isDirectory time m) ↔
    ¬GoesThroughFile m caseInsensitiveEquals .root (walkedNodes path) ∧
    ¬EndsInDots m caseInsensitiveEquals (· ≠ .root) .root (walkedNodes path)) := by
  refine ⟨openBalanced_iff hm path, removeBalanced_iff hm path, ?_⟩
  rw [createBalanced_iff hm, CreateFails, not_or]

theorem walks_balanced_iff_sample : OpenBalanced (mount sampleVolume 2)
      (openFileFromPath [0x2F, 0x41, 0x2F, 0x4E] .file (mount sampleVolume 2)) ∧ Balanced (mount sampleVolume 2)
      (removeFile [0x2F, 0x41, 0x2F, 0x4E] .file (mount sampleVolume 2)) ∧ Balanced (mount sampleVolume 2)
      (createFile [0x2F, 0x41, 0x2F, 0x4E] false ⟨2021, 1, 1, 0, 0, 0⟩ (mount sampleVolume 2)) := by
  obtain ⟨hopen, hremove, hcr⟩ := walks_balanced_iff tree_sampleVolume.mounted
    [0x2F, 0x41, 0x2F, 0x4E] .file false ⟨2021, 1, 1, 0, 0, 0⟩
  have hnodes : walkedNodes [0x2F, 0x41, 0x2F, 0x4E] = [[0x41], [0x4E]] := by decide
  have hends : ∀ compare Q, ¬EndsInDots (mount sampleVolume 2) compare Q .root [[0x41], [0x4E]] := by
    intro compare Q
    rw [endsInDots_cons (by decide)]
    rintro ⟨p, -, h⟩
    exact absurd (endsInDots_singleton.mp h).1 (by decide)
  refine ⟨hopen.mpr (by decide), hremove.mpr ?_, hcr.mpr ⟨?_, ?_⟩⟩
  · rw [hnodes]
    exact hends _ _
  · rw [hnodes, goesThroughFile_cons]
    rintro (⟨-, -, h⟩ | ⟨p, hchild, h⟩)
    · cases h
    · rcases goesThroughFile_cons.mp h with ⟨-, -, hfile⟩ | ⟨_, -, h⟩
      · have hdir : (child sampleVolume 2 caseInsensitiveEquals .root [0x41]).all
            Place.isDirectory = true := by decide +kernel
        rw [show child sampleVolume 2 caseInsensitiveEquals .root [0x41] = some p from hchild] at hdir
        exact absurd hdir (by rw [Option.all_some, hfile]; decide)
      · exact not_goesThroughFile_nil h
  · rw [hnodes]
    exact hends _ _

/-- The root directory, a path that ends in `.`, and a path through a file. -/
theorem not_balanced_sample : Mounted (mount sampleVolume 2) ∧ ¬OpenBalanced (mount sampleVolume 2)
    (openFileFromPath [0x2F] .directory (mount sampleVolume 2)) ∧ ¬Balanced (mount sampleVolume 2)
    (removeFile [0x2F, 0x41, 0x2F, 0x2E] .directory (mount sampleVolume 2)) ∧ ¬Balanced (mount sampleVolume 2)
    (createFile [0x2F, 0x43, 0x2F, 0x4E] false ⟨2021, 1, 1, 0, 0, 0⟩ (mount sampleVolume 2)) := by
  refine ⟨tree_sampleVolume.mounted, ?_, ?_, ?_⟩
  · rw [openBalanced_iff tree_sampleVolume.mounted]
    decide
  · rw [removeBalanced_iff tree_sampleVolume.mounted, not_not]
    exact ⟨[[0x41]], dot, .entry ((sampleEntries 2).getD 0 {}), by decide, .inl rfl, by decide +kernel, trivial⟩
  · rw [createBalanced_iff tree_sampleVolume.mounted, not_not]
    exact .inl ⟨[[0x43]], [0x4E], [], .entry ((sampleEntries 2).getD 2 {}), by decide, by decide,
      by decide, by decide +kernel, by decide +kernel⟩

end Walk

end FAT32

end UltraOS
