import Mathlib.Logic.Function.Basic
import Mathlib.Data.List.Nodup
import Mathlib.Tactic.Common

/-!
# Installing an extracted tree

`install_tree` mirrors a tree of extracted files under a target root.  A file is copied to a
temporary path, which `rename` moves to the path of the file; both paths and those of the
directories go through buffers of a fixed size.

Every operation may fail (`Os`).  What a failed write, flush, sync or close leaves of the data is
up to the operating system, and so is which directories are there: it shows only in the answers.

The tree is worked off in a fixed order, up to the first failure that is checked for
(`installLoop_eq`).
-/

namespace MFoES.Ota

/-! ## Files and failures -/

/-- The bytes of a path. -/
abbrev Path := List UInt8

/-- The bytes of a file. -/
abbrev Content := List UInt8

/-- How the operating system answers.  The operations are numbered as they come. -/
structure Os where
  /-- The operation fails. -/
  fails : Nat → Bool
  /-- The bytes that a failing read or write moves all the same. -/
  moved : Nat → Nat
  /-- What a failing flush, sync or close leaves of a file. -/
  left : Nat → Content → Content
  /-- A failing `mkdir` says `EEXIST`. -/
  eexist : Nat → Bool

/-- The files, and the number of the next operation. -/
structure World where
  files : Path → Option Content
  tick : Nat

/-- `/`. -/
def slash : UInt8 := 0x2F

/-- The name of a directory entry that the loop does not skip. -/
structure Name where
  bytes : List UInt8
  noSlash : slash ∉ bytes
  noNul : 0 ∉ bytes
  noDot : bytes ≠ [0x2E] ∧ bytes ≠ [0x2E, 0x2E]

@[ext] theorem Name.ext {a b : Name} (h : a.bytes = b.bytes) : a = b := by
  cases a
  cases b
  congr

/-- The entries of a directory, in the order in which `readdir` gives them. -/
inductive Dir where
  | nil
  | file (name : Name) (content : Content) (rest : Dir)
  | dir (name : Name) (sub : Dir) (rest : Dir)
  | other (name : Name) (rest : Dir)

/-- The names in a directory. -/
def Dir.names : Dir → List Name
  | nil => []
  | file name _ rest | dir name _ rest | other name rest => name :: rest.names

/-- No directory has two entries with one name. -/
def Dir.Distinct : Dir → Prop
  | nil => True
  | file name _ rest | other name rest => name ∉ rest.names ∧ rest.Distinct
  | dir name sub rest => name ∉ rest.names ∧ sub.Distinct ∧ rest.Distinct

/-- An extracted tree. -/
structure Tree where
  dir : Dir
  distinct : dir.Distinct

/-- The path of an entry. -/
def Path.entry (dst : Path) (name : Name) : Path := dst ++ slash :: name.bytes

/-! ## Copying a file -/

/-- What the loop of `copy_file` has written, and whether it is content with that. -/
structure Copied where
  tick : Nat
  data : Content
  ok : Bool

/-- What `fread` returns into the buffer of 64 KB. -/
def freadCount (os : Os) (tick : Nat) (rest : Content) : Nat :=
  if os.fails tick then min (os.moved tick) (min 65536 rest.length) else min 65536 rest.length

theorem freadCount_le (os : Os) (tick : Nat) (rest : Content) :
    freadCount os tick rest ≤ rest.length := by
  rw [freadCount]
  split
  · exact Nat.le_trans (Nat.min_le_right _ _) (Nat.min_le_right _ _)
  · exact Nat.min_le_right _ _

/-- The loop of `copy_file`, with the rest of the source. -/
def copyLoop (os : Os) (tick : Nat) (rest data : Content) (err : Bool) : Copied :=
  let n := freadCount os tick rest
  let err := err || os.fails tick
  if h : n = 0 then ⟨tick + 1, data, !err⟩
  else if os.fails (tick + 1) then
    ⟨tick + 2, data ++ (rest.take n).take (os.moved (tick + 1)), false⟩
  else copyLoop os (tick + 2) (rest.drop n) (data ++ rest.take n) err
termination_by rest.length
decreasing_by
  have hle : n ≤ rest.length := freadCount_le os tick rest
  rw [List.length_drop]
  omega

/-- What is on the disk behind `fflush`, `fsync` and `fclose`, whose answers are not looked at. -/
def Os.settle (os : Os) (tick : Nat) (data : Content) : Content :=
  let flushed := if os.fails tick then os.left tick data else data
  let synced := if os.fails (tick + 1) then os.left (tick + 1) flushed else flushed
  if os.fails (tick + 2) then os.left (tick + 2) synced else synced

/-- `copy_file`, from a file with the content `src`. -/
def copyFile (os : Os) (w : World) (src : Content) (dst : Path) : World × Bool :=
  if os.fails w.tick then ({ w with tick := w.tick + 1 }, false)
  else if os.fails (w.tick + 1) then ({ w with tick := w.tick + 2 }, false)
  else
    let c := copyLoop os (w.tick + 2) src [] false
    ({ files := Function.update w.files dst (some (os.settle c.tick c.data)), tick := c.tick + 3 },
      c.ok)

/-! ## Installing a file -/

/-- `tmp_dst`: what `snprintf` keeps of the path with `.new` behind it. -/
def tmpDst (dst : Path) : Path := (dst ++ [0x2E, 0x6E, 0x65, 0x77]).take 299

/-- `install_binary`, of a file that is there.  Where `rename` fails, the temporary file goes. -/
def installBinary (os : Os) (w : World) (src : Content) (dst : Path) : World × Bool :=
  let r := copyFile os w src (tmpDst dst)
  if r.2 then
    if os.fails r.1.tick then
      ({ files := Function.update r.1.files (tmpDst dst) none, tick := r.1.tick + 1 }, false)
    else
      ({ files := Function.update (Function.update r.1.files (tmpDst dst) none) dst
          (r.1.files (tmpDst dst)), tick := r.1.tick + 1 }, true)
  else r

/-! ## Installing a tree -/

/-- What has to succeed besides the files. -/
inductive Check where
  | opendir
  | stat
  | mkdirP (path : Path)

/-- The number behind it, and whether it succeeds.  `mkdir_p` makes a directory at every slash of
what its buffer holds of the path, and looks at the last answer. -/
def Check.answer (os : Os) (tick : Nat) : Check → Nat × Bool
  | opendir | stat => (tick + 1, !os.fails tick)
  | mkdirP path =>
      let last := tick + ((path.take 255).drop 1).count slash
      (last + 1, !os.fails last || os.eexist last)

/-- Do it. -/
def Check.run (os : Os) (w : World) (c : Check) : World × Bool :=
  ({ w with tick := (c.answer os w.tick).1 }, (c.answer os w.tick).2)

/-- Go on where everything succeeded so far. -/
def andThen (r : World × Bool) (k : World → World × Bool) : World × Bool :=
  if r.2 then k r.1 else r

/-- The loop of `install_tree`. -/
def installLoop (os : Os) : Dir → Path → World → World × Bool
  | .nil, _, w => (w, true)
  | .file name content rest, dst, w =>
      andThen (Check.stat.run os w) fun w =>
        andThen (installBinary os w content (dst.entry name)) (installLoop os rest dst)
  | .dir name sub rest, dst, w =>
      andThen (Check.stat.run os w) fun w =>
        andThen ((Check.mkdirP (dst.entry name)).run os w) fun w =>
          andThen (andThen (Check.opendir.run os w) (installLoop os sub (dst.entry name)))
            (installLoop os rest dst)
  | .other _ rest, dst, w => andThen (Check.stat.run os w) (installLoop os rest dst)

/-- `install_tree`. -/
def installTree (os : Os) (dir : Dir) (dst : Path) (w : World) : World × Bool :=
  andThen (Check.opendir.run os w) (installLoop os dir dst)

/-! ## The order of work -/

/-- A step of an installation. -/
inductive Op where
  | check (c : Check)
  | install (src : Content) (dst : Path)

/-- The steps for a directory. -/
def Dir.plan : Dir → Path → List Op
  | nil, _ => []
  | file name content rest, dst =>
      .check .stat :: .install content (dst.entry name) :: rest.plan dst
  | dir name sub rest, dst =>
      .check .stat :: .check (.mkdirP (dst.entry name)) :: .check .opendir ::
        (sub.plan (dst.entry name) ++ rest.plan dst)
  | other _ rest, dst => .check .stat :: rest.plan dst

/-- Make a step. -/
def Op.run (os : Os) (w : World) : Op → World × Bool
  | check c => c.run os w
  | install src dst => installBinary os w src dst

/-- Make steps, up to the first that fails. -/
def runOps (os : Os) (w : World) : List Op → World × Bool
  | [] => (w, true)
  | op :: ops => andThen (op.run os w) fun w => runOps os w ops

theorem andThen_assoc (r : World × Bool) (k l : World → World × Bool) :
    andThen (andThen r k) l = andThen r fun w => andThen (k w) l := by
  rcases r with ⟨w, _ | _⟩
  · rfl
  · rfl

theorem runOps_append (os : Os) (w : World) (ops ops' : List Op) :
    runOps os w (ops ++ ops') = andThen (runOps os w ops) fun w => runOps os w ops' := by
  induction ops generalizing w with
  | nil => rfl
  | cons op ops ih =>
      rw [List.cons_append, runOps, runOps, andThen_assoc]
      exact congrArg _ (funext ih)

/-- The loop makes the steps of its directory. -/
theorem installLoop_eq (os : Os) (dir : Dir) (dst : Path) (w : World) :
    installLoop os dir dst w = runOps os w (dir.plan dst) := by
  induction dir generalizing dst w with
  | nil => rfl
  | file name content rest ih =>
      rw [installLoop, funext (ih dst)]
      rfl
  | dir name sub rest ihSub ihRest =>
      rw [installLoop, funext (ihSub _), funext (ihRest dst)]
      rw [Dir.plan]
      simp only [runOps, runOps_append, andThen_assoc]
      rfl
  | other name rest ih =>
      rw [installLoop, funext (ih dst)]
      rfl

theorem installTree_eq (os : Os) (dir : Dir) (dst : Path) (w : World) :
    installTree os dir dst w = runOps os w (.check .opendir :: dir.plan dst) := by
  rw [installTree, funext (installLoop_eq os dir dst)]
  rfl

/-! ## The files of a tree -/

/-- The files below a directory, each with its path below the target. -/
def Dir.manifest : Dir → Path → List (Path × Content)
  | nil, _ => []
  | file name content rest, dst => (dst.entry name, content) :: rest.manifest dst
  | dir name sub rest, dst => sub.manifest (dst.entry name) ++ rest.manifest dst
  | other _ rest, dst => rest.manifest dst

/-- The files that steps install. -/
def installed : List Op → List (Path × Content)
  | [] => []
  | .check _ :: ops => installed ops
  | .install src dst :: ops => (dst, src) :: installed ops

theorem installed_append (ops ops' : List Op) :
    installed (ops ++ ops') = installed ops ++ installed ops' := by
  induction ops with
  | nil => rfl
  | cons op ops ih =>
      cases op with
      | check c => exact ih
      | install src dst => exact congrArg _ ih

/-- The steps for a directory are for the files below it. -/
theorem installed_plan (dir : Dir) (dst : Path) : installed (dir.plan dst) = dir.manifest dst := by
  induction dir generalizing dst with
  | nil => rfl
  | file name content rest ih => exact congrArg _ (ih dst)
  | dir name sub rest ihSub ihRest =>
      rw [Dir.manifest, ← ihSub, ← ihRest]
      exact installed_append _ _
  | other name rest ih => exact ih dst

/-- A path that goes through an entry. -/
def Path.Through (dst : Path) (name : Name) (p : Path) : Prop :=
  ∃ r, p = dst.entry name ++ r ∧ (r = [] ∨ r.head? = some slash)

/-- A path goes through at most one entry of a directory. -/
theorem Path.Through.unique {dst p : Path} {a b : Name} (ha : dst.Through a p)
    (hb : dst.Through b p) : a = b := by
  have hname : ∀ {c : Name}, dst.Through c p →
      (p.drop (dst.length + 1)).takeWhile (· ≠ slash) = c.bytes := by
    rintro c ⟨r, rfl, hr⟩
    have hdrop : (dst.entry c ++ r).drop (dst.length + 1) = c.bytes ++ r := by
      rw [Path.entry, List.append_assoc, ← List.drop_drop, List.drop_left]
      rfl
    rw [hdrop, List.takeWhile_append_of_pos fun x hx => by
      simpa using ne_of_mem_of_not_mem hx c.noSlash]
    rcases hr with rfl | hr
    · exact List.append_nil _
    · obtain ⟨l, rfl⟩ := List.head?_eq_some_iff.mp hr
      rw [List.takeWhile_cons_of_neg (by simp), List.append_nil]
  exact Name.ext ((hname ha).symm.trans (hname hb))

/-- Every file below a directory is reached through one of its entries. -/
theorem through_of_mem_manifest {dir : Dir} {dst : Path} {f : Path × Content}
    (h : f ∈ dir.manifest dst) : ∃ name ∈ dir.names, dst.Through name f.1 := by
  induction dir generalizing dst with
  | nil => exact absurd h List.not_mem_nil
  | file name content rest ih =>
      rcases List.mem_cons.mp h with rfl | h
      · exact ⟨name, List.mem_cons_self, [], (List.append_nil _).symm, Or.inl rfl⟩
      · obtain ⟨n, hn, hp⟩ := ih h
        exact ⟨n, List.mem_cons_of_mem _ hn, hp⟩
  | dir name sub rest ihSub ihRest =>
      rcases List.mem_append.mp h with h | h
      · obtain ⟨n, -, r, hr, -⟩ := ihSub h
        refine ⟨name, List.mem_cons_self, slash :: (n.bytes ++ r), ?_, Or.inr rfl⟩
        rw [hr, Path.entry, List.append_assoc]
        rfl
      · obtain ⟨n, hn, hp⟩ := ihRest h
        exact ⟨n, List.mem_cons_of_mem _ hn, hp⟩
  | other name rest ih =>
      obtain ⟨n, hn, hp⟩ := ih h
      exact ⟨n, List.mem_cons_of_mem _ hn, hp⟩

/-- No two files of a tree go to one path. -/
theorem nodup_manifest {dir : Dir} (h : dir.Distinct) (dst : Path) :
    ((dir.manifest dst).map Prod.fst).Nodup := by
  induction dir generalizing dst with
  | nil => exact List.nodup_nil
  | file name content rest ih =>
      refine List.nodup_cons.mpr ⟨fun hmem => ?_, ih h.2 dst⟩
      obtain ⟨f, hf, hpath⟩ := List.mem_map.mp hmem
      obtain ⟨n, hn, hp⟩ := through_of_mem_manifest hf
      have hname : dst.Through name f.1 := ⟨[], by rw [hpath, List.append_nil], Or.inl rfl⟩
      exact h.1 (hname.unique hp ▸ hn)
  | dir name sub rest ihSub ihRest =>
      rw [Dir.manifest, List.map_append, List.nodup_append']
      refine ⟨ihSub h.2.1 _, ihRest h.2.2 dst, fun p hsub hrest => ?_⟩
      obtain ⟨f, hf, rfl⟩ := List.mem_map.mp hsub
      obtain ⟨f', hf', hpath⟩ := List.mem_map.mp hrest
      obtain ⟨n, -, r, hr, -⟩ := through_of_mem_manifest hf
      obtain ⟨n', hn', hp'⟩ := through_of_mem_manifest hf'
      have hname : dst.Through name f'.1 := by
        refine ⟨slash :: (n.bytes ++ r), ?_, Or.inr rfl⟩
        rw [hpath, hr, Path.entry, List.append_assoc]
        rfl
      exact h.1 (hname.unique hp' ▸ hn')
  | other name rest ih => exact ih h.2 dst

end MFoES.Ota
