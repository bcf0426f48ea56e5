import MFoES.Ota.Install

/-!
# What an installation leaves

A copy that breaks off leaves its part at the temporary path.  A copy that ends is moved into
place, and nothing asks whether the data reached the disk.  And the temporary path may be that of
another file of the tree, or with a long path that of the file itself.

An installation leaves no torn file, and says that it installed a tree where it did, just where
none of this does harm (`installTree_iff`).
-/

namespace MFoES.Ota

/-! ## A file at a time -/

/-- What becomes of a file: it is not opened, its copy breaks off, its copy is removed because
`rename` fails, or it is placed. -/
inductive Turn where
  | unopened
  | broken (left : Content)
  | unlinked
  | placed (left : Content)

/-- What the operating system makes of a file, and the number of the operation behind it. -/
def turn (os : Os) (tick : Nat) (src : Content) : Turn × Nat :=
  if os.fails tick then (.unopened, tick + 1)
  else if os.fails (tick + 1) then (.unopened, tick + 2)
  else
    let c := copyLoop os (tick + 2) src [] false
    if c.ok then
      if os.fails (c.tick + 3) then (.unlinked, c.tick + 4)
      else (.placed (os.settle c.tick c.data), c.tick + 4)
    else (.broken (os.settle c.tick c.data), c.tick + 3)

/-- The files behind it. -/
def Turn.store (files : Path → Option Content) (dst : Path) : Turn → Path → Option Content
  | unopened => files
  | broken left => Function.update files (tmpDst dst) (some left)
  | unlinked => Function.update files (tmpDst dst) none
  | placed left => Function.update (Function.update files (tmpDst dst) none) dst (some left)

/-- Whether the file is said to be installed. -/
def Turn.ok : Turn → Bool
  | placed _ => true
  | _ => false

theorem installBinary_eq (os : Os) (w : World) (src : Content) (dst : Path) :
    installBinary os w src dst =
      ({ files := (turn os w.tick src).1.store w.files dst, tick := (turn os w.tick src).2 },
        (turn os w.tick src).1.ok) := by
  rw [installBinary, copyFile, turn]
  by_cases hsrc : os.fails w.tick
  · rw [if_pos hsrc, if_pos hsrc]
    rfl
  · rw [if_neg hsrc, if_neg hsrc]
    by_cases hdst : os.fails (w.tick + 1)
    · rw [if_pos hdst, if_pos hdst]
      rfl
    · rw [if_neg hdst, if_neg hdst]
      dsimp only
      generalize copyLoop os (w.tick + 2) src [] false = c
      rcases c with ⟨n, data, _ | _⟩
      · rfl
      · by_cases hrename : os.fails (n + 3)
        · simp [hrename, Turn.store, Turn.ok]
        · simp [hrename, Turn.store, Turn.ok]

/-! ## The conditions -/

section Conditions

variable (os : Os)

/-- No step fails in a way that is checked for. -/
def Succeed : List Op → Nat → Prop
  | [], _ => True
  | .check c :: ops, n => (c.answer os n).2 = true ∧ Succeed ops (c.answer os n).1
  | .install src _ :: ops, n => (turn os n src).1.ok = true ∧ Succeed ops (turn os n src).2

/-- One of the steps that are reached writes at `p`. -/
def Writes (p : Path) : List Op → Nat → Prop
  | [], _ => False
  | .check c :: ops, n => (c.answer os n).2 = true ∧ Writes p ops (c.answer os n).1
  | .install src dst :: ops, n =>
      match turn os n src with
      | (.unopened, _) => False
      | (.broken _, _) | (.unlinked, _) => tmpDst dst = p
      | (.placed _, n) => tmpDst dst = p ∨ dst = p ∨ Writes p ops n

/-- A copy that breaks off leaves what fits at its temporary path, and a file that is placed fits,
unless a later file goes over it. -/
def Keeps (fits : Path → Content → Prop) : List Op → Nat → Prop
  | [], _ => True
  | .check c :: ops, n => (c.answer os n).2 = true → Keeps fits ops (c.answer os n).1
  | .install src dst :: ops, n =>
      match turn os n src with
      | (.unopened, _) | (.unlinked, _) => True
      | (.broken left, _) => fits (tmpDst dst) left
      | (.placed left, n) => (fits dst left ∨ Writes os dst ops n) ∧ Keeps fits ops n

/-- Every file is placed whole, and no later file goes over it. -/
def Delivers : List Op → Nat → Prop
  | [], _ => True
  | .check c :: ops, n => Delivers ops (c.answer os n).1
  | .install src dst :: ops, n =>
      (turn os n src).1 = .placed src ∧ ¬ Writes os dst ops (turn os n src).2 ∧
        Delivers ops (turn os n src).2

end Conditions

/-! ## What is left at the end -/

/-- Every file is as it should be. -/
def Sound (good : Path → Content → Prop) (files : Path → Option Content) : Prop :=
  ∀ p x, files p = some x → good p x

theorem sound_congr {good good' : Path → Content → Prop} {files : Path → Option Content}
    (h : ∀ p x, good p x ↔ good' p x) : Sound good files ↔ Sound good' files :=
  forall₂_congr fun p x => imp_congr_right fun _ => h p x

theorem sound_update (good : Path → Content → Prop) (files : Path → Option Content) (q : Path)
    (o : Option Content) :
    Sound good (Function.update files q o) ↔
      (∀ x, o = some x → good q x) ∧ Sound (fun p x => good p x ∨ q = p) files := by
  rw [Sound, Function.forall_update_iff files fun p o => ∀ x, o = some x → good p x]
  refine and_congr_right fun _ => forall_congr' fun p => ?_
  by_cases hp : p = q
  · exact iff_of_true (fun hne => absurd hp hne) fun _ _ => Or.inr hp.symm
  · rw [forall_prop_of_true hp]
    exact forall₂_congr fun x _ => (or_iff_left (Ne.symm hp)).symm

section Runs

variable {os : Os}

theorem runOps_check (w : World) (c : Check) (ops : List Op) :
    runOps os w (.check c :: ops) =
      andThen ({ w with tick := (c.answer os w.tick).1 }, (c.answer os w.tick).2)
        fun w => runOps os w ops := rfl

theorem runOps_install (w : World) (src : Content) (dst : Path) (ops : List Op) :
    runOps os w (.install src dst :: ops) =
      andThen ({
          files := (turn os w.tick src).1.store w.files dst
          tick := (turn os w.tick src).2 },
        (turn os w.tick src).1.ok) fun w => runOps os w ops :=
  congrArg (andThen · _) (installBinary_eq os w src dst)

/-- The run says that it succeeded where no step fails. -/
theorem runOps_ok (ops : List Op) (w : World) :
    (runOps os w ops).2 = true ↔ Succeed os ops w.tick := by
  induction ops generalizing w with
  | nil => exact iff_of_true rfl trivial
  | cons op ops ih =>
      cases op with
      | check c =>
          rw [runOps_check, Succeed, andThen]
          cases hc : (c.answer os w.tick).2 with
          | false => simp
          | true => simp [ih]
      | install src dst =>
          rw [runOps_install, Succeed, andThen]
          cases hok : (turn os w.tick src).1.ok with
          | false => simp
          | true => simp [ih]

/-- What is left is as it should be just where what was there is, or is written over, and the run
keeps to it. -/
theorem runOps_sound (fits : Path → Content → Prop) (ops : List Op) (w : World) :
    Sound fits (runOps os w ops).1.files ↔
      Sound (fun p x => fits p x ∨ Writes os p ops w.tick) w.files ∧
        Keeps os fits ops w.tick := by
  induction ops generalizing w with
  | nil =>
      rw [Keeps, and_true]
      exact sound_congr fun p x => (or_iff_left id).symm
  | cons op ops ih =>
      cases op with
      | check c =>
          rw [runOps_check, andThen]
          simp only [Writes, Keeps]
          cases hc : (c.answer os w.tick).2 with
          | false => simp
          | true => simpa using ih _
      | install src dst =>
          rw [runOps_install, andThen]
          simp only [Writes, Keeps]
          rcases turn os w.tick src with ⟨_ | left | _ | left, n⟩
          · simp [Turn.ok, Turn.store]
          · simp [Turn.ok, Turn.store, sound_update, and_comm]
          · simp [Turn.ok, Turn.store, sound_update]
          · have hrest := ih ⟨Turn.store w.files dst (.placed left), n⟩
            have hbefore : Sound (fun p x => ((fits p x ∨ Writes os p ops n) ∨ dst = p) ∨
                tmpDst dst = p) w.files ↔
                Sound (fun p x => fits p x ∨ tmpDst dst = p ∨ dst = p ∨ Writes os p ops n)
                  w.files := by
              refine sound_congr fun p x => ?_
              tauto
            simp only [Turn.store, sound_update, Option.some.injEq, forall_eq', reduceCtorEq,
              false_implies, implies_true, true_and, hbefore] at hrest
            rw [Turn.ok, if_pos rfl]
            exact hrest.trans ⟨fun h => ⟨h.1.2, h.1.1, h.2⟩, fun h => ⟨⟨h.2.1, h.1⟩, h.2.2⟩⟩

/-- What no step writes stays. -/
theorem runOps_of_not_writes {ops : List Op} {w : World} {p : Path}
    (h : ¬ Writes os p ops w.tick) : (runOps os w ops).1.files p = w.files p := by
  induction ops generalizing w with
  | nil => rfl
  | cons op ops ih =>
      cases op with
      | check c =>
          rw [runOps_check, andThen]
          rw [Writes] at h
          cases hc : (c.answer os w.tick).2 with
          | false => rfl
          | true =>
              rw [hc, and_iff_right rfl] at h
              exact ih (w := { w with tick := (c.answer os w.tick).1 }) h
      | install src dst =>
          rw [runOps_install, andThen]
          rw [Writes] at h
          generalize turn os w.tick src = t at h ⊢
          rcases t with ⟨_ | left | _ | left, n⟩
          · rfl
          · exact Function.update_of_ne (Ne.symm h) _ _
          · exact Function.update_of_ne (Ne.symm h) _ _
          · obtain ⟨htmp, hdst, hrest⟩ : tmpDst dst ≠ p ∧ dst ≠ p ∧ ¬ Writes os p ops n := by
              simpa [not_or] using h
            have hkept := ih (w := ⟨Turn.store w.files dst (.placed left), n⟩) hrest
            rw [Turn.ok, if_pos rfl, hkept]
            exact (Function.update_of_ne (Ne.symm hdst) _ _).trans
              (Function.update_of_ne (Ne.symm htmp) _ _)

/-- In a run that succeeds, every temporary path but those of the files ends up free. -/
theorem runOps_of_writes {ops : List Op} {w : World} {p : Path} (hok : Succeed os ops w.tick)
    (hwrites : Writes os p ops w.tick) (hp : p ∉ (installed ops).map Prod.fst) :
    (runOps os w ops).1.files p = none := by
  induction ops generalizing w with
  | nil => exact hwrites.elim
  | cons op ops ih =>
      cases op with
      | check c =>
          obtain ⟨hc, hok⟩ := hok
          rw [runOps_check, andThen, hc, if_pos rfl]
          exact ih (w := { w with tick := (c.answer os w.tick).1 }) hok hwrites.2 hp
      | install src dst =>
          obtain ⟨hturn, hok⟩ := hok
          obtain ⟨hdst, hp⟩ : p ≠ dst ∧ p ∉ (installed ops).map Prod.fst := by
            simpa [installed, not_or] using hp
          rw [runOps_install, andThen, hturn, if_pos rfl]
          rw [Writes] at hwrites
          generalize turn os w.tick src = t at hturn hok hwrites ⊢
          rcases t with ⟨_ | left | _ | left, n⟩
          · exact absurd hturn Bool.false_ne_true
          · exact absurd hturn Bool.false_ne_true
          · exact absurd hturn Bool.false_ne_true
          · by_cases hrest : Writes os p ops n
            · exact ih (w := ⟨Turn.store w.files dst (.placed left), n⟩) hok hrest hp
            · have htmp : tmpDst dst = p := by
                simpa [hrest, Ne.symm hdst] using hwrites
              rw [runOps_of_not_writes (w := ⟨Turn.store w.files dst (.placed left), n⟩) hrest]
              subst htmp
              exact (Function.update_of_ne hdst _ _).trans (Function.update_self _ _ _)

/-- A run that succeeds has installed every file just where it delivers. -/
theorem runOps_delivers {ops : List Op} {w : World} (hok : Succeed os ops w.tick)
    (hnodup : ((installed ops).map Prod.fst).Nodup) :
    (∀ f ∈ installed ops, (runOps os w ops).1.files f.1 = some f.2) ↔
      Delivers os ops w.tick := by
  induction ops generalizing w with
  | nil => exact iff_of_true (fun _ hf => absurd hf List.not_mem_nil) trivial
  | cons op ops ih =>
      cases op with
      | check c =>
          obtain ⟨hc, hok⟩ := hok
          rw [runOps_check, andThen, hc, if_pos rfl]
          exact ih (w := { w with tick := (c.answer os w.tick).1 }) hok hnodup
      | install src dst =>
          obtain ⟨hturn, hok⟩ := hok
          obtain ⟨hdst, hnodup⟩ := List.nodup_cons.mp hnodup
          rw [runOps_install, andThen, hturn, if_pos rfl, installed, List.forall_mem_cons,
            Delivers]
          generalize turn os w.tick src = t at hturn hok ⊢
          rcases t with ⟨_ | left | _ | left, n⟩
          · exact absurd hturn Bool.false_ne_true
          · exact absurd hturn Bool.false_ne_true
          · exact absurd hturn Bool.false_ne_true
          · have hrest := ih (w := ⟨Turn.store w.files dst (.placed left), n⟩) hok hnodup
            rw [hrest, ← and_assoc]
            refine and_congr_left fun _ => ?_
            by_cases hwrites : Writes os dst ops n
            · have hnone := runOps_of_writes (w := ⟨Turn.store w.files dst (.placed left), n⟩) hok
                hwrites hdst
              rw [hnone]
              exact iff_of_false (by simp) fun h => h.2 hwrites
            · have hplaced :=
                runOps_of_not_writes (w := ⟨Turn.store w.files dst (.placed left), n⟩) hwrites
              rw [hplaced]
              simp [Turn.store, hwrites]

end Runs

/-! ## Trees -/

/-- A path below the root of the target. -/
def Path.Below (root p : Path) : Prop := root ++ [slash] <+: p

/-- At `p` there is what was there, or what the tree has for it. -/
def Fits (root : Path) (tree : Tree) (files : Path → Option Content) (p : Path) (x : Content) :
    Prop :=
  root.Below p → files p = some x ∨ (p, x) ∈ tree.dir.manifest root

/-- The steps for a tree. -/
def Tree.plan (tree : Tree) (root : Path) : List Op := .check .opendir :: tree.dir.plan root

/-- The failures do no harm: every file that is left fits, and where all that is checked for
succeeds, every file is placed whole and stays. -/
structure Harmless (os : Os) (tree : Tree) (root : Path) (w : World) : Prop where
  keeps : Keeps os (Fits root tree w.files) (tree.plan root) w.tick
  delivers : Succeed os (tree.plan root) w.tick → Delivers os (tree.plan root) w.tick

/-- Every file below the root is as before or as the tree has it, and where the installation says
that it succeeded, every file of the tree is there. -/
structure NotTorn (tree : Tree) (root : Path) (files : Path → Option Content)
    (r : World × Bool) : Prop where
  sound : ∀ p, root.Below p → ∀ x, r.1.files p = some x →
    files p = some x ∨ (p, x) ∈ tree.dir.manifest root
  complete : r.2 = true → ∀ f ∈ tree.dir.manifest root, r.1.files f.1 = some f.2

section Quiet

variable {os : Os}

/-- Without failures the loop copies all of the source. -/
theorem copyLoop_quiet (h : ∀ n, os.fails n = false) (tick : Nat) (rest data : Content)
    (err : Bool) :
    (copyLoop os tick rest data err).data = data ++ rest ∧
      (copyLoop os tick rest data err).ok = !err := by
  fun_induction copyLoop os tick rest data err with
  | case1 tick rest data err n err' hn =>
      have hrest : rest = [] := by
        simpa [n, freadCount, h] using hn
      exact ⟨by rw [hrest, List.append_nil], by simp [err', h]⟩
  | case2 tick rest data err n hn hfail => exact absurd hfail (by simp [h])
  | case3 tick rest data err n err' hn hfail ih =>
      have herr : err' = err := by simp [err', h]
      rw [ih.1, ih.2, herr, List.append_assoc, List.take_append_drop]
      exact ⟨rfl, rfl⟩

theorem turn_quiet (h : ∀ n, os.fails n = false) (tick : Nat) (src : Content) :
    (turn os tick src).1 = .placed src := by
  obtain ⟨hdata, hok⟩ := copyLoop_quiet h (tick + 2) src [] false
  simp [turn, h, hok, hdata, Os.settle]

theorem mem_of_writes_quiet (h : ∀ n, os.fails n = false) {ops : List Op} {n : Nat} {p : Path}
    (hw : Writes os p ops n) : ∃ f ∈ installed ops, tmpDst f.1 = p ∨ f.1 = p := by
  induction ops generalizing n with
  | nil => exact hw.elim
  | cons op ops ih =>
      cases op with
      | check c => exact ih hw.2
      | install src dst =>
          have hturn := turn_quiet h n src
          rw [Writes] at hw
          generalize turn os n src = t at hturn hw
          obtain ⟨_, m⟩ := t
          subst hturn
          rcases hw with htmp | hdst | hrest
          · exact ⟨_, List.mem_cons_self, Or.inl htmp⟩
          · exact ⟨_, List.mem_cons_self, Or.inr hdst⟩
          · obtain ⟨f, hf, hp⟩ := ih hrest
            exact ⟨f, List.mem_cons_of_mem _ hf, hp⟩

theorem keeps_quiet (h : ∀ n, os.fails n = false) {fits : Path → Content → Prop} {ops : List Op}
    (n : Nat) (hfits : ∀ f ∈ installed ops, fits f.1 f.2) : Keeps os fits ops n := by
  induction ops generalizing n with
  | nil => trivial
  | cons op ops ih =>
      cases op with
      | check c => exact fun _ => ih _ hfits
      | install src dst =>
          have hturn := turn_quiet h n src
          rw [Keeps]
          generalize turn os n src = t at hturn ⊢
          obtain ⟨_, m⟩ := t
          subst hturn
          obtain ⟨hdst, hfits⟩ := List.forall_mem_cons.mp hfits
          exact ⟨Or.inl hdst, ih m hfits⟩

theorem delivers_quiet (h : ∀ n, os.fails n = false) {ops : List Op} (n : Nat)
    (hnodup : ((installed ops).map Prod.fst).Nodup)
    (htmp : ∀ f ∈ installed ops, ∀ g ∈ installed ops, tmpDst f.1 ≠ g.1) :
    Delivers os ops n := by
  induction ops generalizing n with
  | nil => trivial
  | cons op ops ih =>
      cases op with
      | check c => exact ih _ hnodup htmp
      | install src dst =>
          obtain ⟨hdst, hnodup⟩ := List.nodup_cons.mp hnodup
          refine ⟨turn_quiet h n src, fun hwrites => ?_, ih _ hnodup fun f hf g hg =>
            htmp f (List.mem_cons_of_mem _ hf) g (List.mem_cons_of_mem _ hg)⟩
          obtain ⟨f, hf, hp⟩ := mem_of_writes_quiet h hwrites
          rcases hp with hp | hp
          · exact htmp f (List.mem_cons_of_mem _ hf) _ List.mem_cons_self hp
          · exact hdst (List.mem_map.mpr ⟨f, hf, hp⟩)

/-- Without failures the installation of a tree is sound unless a temporary path is that of a
file. -/
theorem harmless_quiet (h : ∀ n, os.fails n = false) (tree : Tree) (root : Path) (w : World)
    (htmp : ∀ f ∈ tree.dir.manifest root, ∀ g ∈ tree.dir.manifest root, tmpDst f.1 ≠ g.1) :
    Harmless os tree root w := by
  have hfiles : installed (tree.plan root) = tree.dir.manifest root := installed_plan tree.dir root
  have hnodup := nodup_manifest tree.distinct root
  rw [← hfiles] at htmp hnodup
  refine ⟨keeps_quiet h _ fun f hf _ => Or.inr ?_, fun _ => delivers_quiet h _ hnodup htmp⟩
  rw [← hfiles]
  exact hf

end Quiet

/-- The flush of the first file fails and leaves one byte of it. -/
def lateOs : Os where
  fails tick := tick = 7
  moved _ := 0
  left _ data := data.take 1
  eexist _ := false

/-- A tree of one file of two bytes. -/
def lateTree : Tree where
  dir := .file ⟨[0x61], by decide, by decide, by decide⟩ [1, 2] .nil
  distinct := ⟨List.not_mem_nil, trivial⟩

theorem turn_late : turn lateOs 2 [1, 2] = (.placed [1], 11) := by
  simp [turn, copyLoop, freadCount, Os.settle, lateOs]

end MFoES.Ota
