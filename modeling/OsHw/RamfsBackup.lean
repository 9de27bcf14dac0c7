import Mathlib.Data.List.Infix
import Mathlib.Logic.Function.Basic
import OsHw.Run

/-! The `fsync` of `ramfs`, which copies the file into a backup directory with two user-mode helpers. The tree is
the one the helpers see, keyed by the components of a path, so that a mount anywhere in it is covered. The
helpers get strings: `d_path` writes the path of the file into one, and `cp` takes it apart again. -/

namespace OsHw.Ramfs

/-- One component of a path. -/
abbrev Name := List UInt8

def slash : UInt8 := 47

structure Name.Valid (n : Name) : Prop where
  nonempty : n ≠ []
  no_slash : slash ∉ n

/-- A file by its place in the tree. -/
structure File where
  dir : List Name
  name : Name
  dir_valid : ∀ n ∈ dir, n.Valid
  name_valid : name.Valid
deriving DecidableEq

def File.path (f : File) : List Name := f.dir ++ [f.name]

inductive Node where
  | dir
  | file (data : List UInt8)
deriving DecidableEq

abbrev Tree := List Name → Option Node

/-- The string of `d_path`, without its zero byte. -/
def dPath (f : File) : List UInt8 := [slash].intercalate ([] :: f.path)

/-- The components a path string leads through. -/
def resolve (path : List UInt8) : List Name := (path.splitOn slash).filter (· ≠ [])

/-- The last component of a path string. -/
def basename (path : List UInt8) : Name := ((path.splitOn slash).getLast?).getD []

theorem File.no_slash {f : File} : ∀ n ∈ [] :: f.path, slash ∉ n := by
  intro n hn
  rcases List.mem_cons.mp hn with rfl | hn
  · exact List.not_mem_nil
  · rcases List.mem_append.mp hn with hn | hn
    · exact (f.dir_valid n hn).no_slash
    · rw [List.mem_singleton.mp hn]
      exact f.name_valid.no_slash

theorem splitOn_dPath (f : File) : (dPath f).splitOn slash = [] :: f.path :=
  List.splitOn_intercalate slash File.no_slash (List.cons_ne_nil _ _)

@[simp] theorem resolve_dPath (f : File) : resolve (dPath f) = f.path := by
  rw [resolve, splitOn_dPath, List.filter_cons_of_neg (by simp), List.filter_eq_self]
  intro n hn
  rcases List.mem_append.mp hn with hn | hn
  · exact decide_eq_true (f.dir_valid n hn).nonempty
  · rw [List.mem_singleton.mp hn]
    exact decide_eq_true f.name_valid.nonempty

@[simp] theorem basename_dPath (f : File) : basename (dPath f) = f.name := by
  simp [basename, splitOn_dPath, File.path, List.getLast?_cons]

/-- A helper that could not be run, was killed or ended with an error: what `call_usermodehelper` returns. -/
abbrev Failure := {ret : Int // ret ≠ 0}

/-- The exit status 1 as `call_usermodehelper` returns it. -/
def exitFailure : Int := 256

/-- `/bin/mkdir -p` fails for a reason of its own after it made the first few directories. -/
structure MkdirFault where
  ret : Failure
  made : Nat

/-- `/bin/cp -f` fails for a reason of its own and leaves no file, a part or an old one in the place of the copy. -/
structure CpFault where
  ret : Failure
  left : Option (List UInt8)

/-- What can go wrong outside the tree during one call of `fsync`. -/
structure Faults where
  kmalloc : Bool
  mkdir : Option MkdirFault
  cp : Option CpFault

def isFile : Option Node → Bool
  | some (.file _) => true
  | _ => false

/-- Directories are made where there is nothing. -/
def makeDirs (t : Tree) (ps : List (List Name)) : Tree := fun p => if t p = none ∧ p ∈ ps then some .dir else t p

/-- `/bin/mkdir -p path`. -/
def mkdirP (t : Tree) (path : List UInt8) (fault : Option MkdirFault) : Tree × Int :=
  let ps := (resolve path).inits
  match fault with
  | some e => (makeDirs t (ps.take e.made), e.ret)
  | none =>
      if ps.any fun p => isFile (t p) then (makeDirs t (ps.takeWhile fun p => !isFile (t p)), exitFailure)
      else (makeDirs t ps, 0)

/-- `/bin/cp -f src dir`. -/
def cp (t : Tree) (src dir : List UInt8) (fault : Option CpFault) : Tree × Int :=
  match t (resolve src) with
  | some (.file data) =>
      let dst := if t (resolve dir) = some .dir then resolve dir ++ [basename src] else resolve dir
      -- a file is not copied onto itself, nor over a directory
      if dst = resolve src ∨ t dst = some .dir then (t, exitFailure)
      else
        match fault with
        | none => (Function.update t dst (some (.file data)), 0)
        | some e => (Function.update t dst (e.left.map .file), e.ret)
  | _ => (t, exitFailure)

def ENOMEM : Int := 12

def ENAMETOOLONG : Int := 36

def PATH_MAX : Nat := 4096

/-- `"/var/backup/ramfs"`. -/
def backupDir : List UInt8 := [47, 118, 97, 114, 47, 98, 97, 99, 107, 117, 112, 47, 114, 97, 109, 102, 115]

/-- The tree after the call and the number it returns. -/
def ramfsBackupFsync (t : Tree) (f : File) (e : Faults) : Tree × Int :=
  if e.kmalloc then (t, -ENOMEM)
  else if PATH_MAX < (dPath f).length + 1 then (t, -ENAMETOOLONG)
  else
    let (t', ret) := mkdirP t backupDir e.mkdir
    if ret ≠ 0 then (t', ret) else cp t' (dPath f) backupDir e.cp

/-- The tree, and what the last `fsync` of each file promised its caller: the content the file had when the call
returned 0. The promise is no part of the kernel, nothing reads it. -/
structure State where
  tree : Tree
  owed : File → Option (List UInt8)

inductive Label where
  | write (f : File) (pos : Nat) (data : List UInt8)
  | fsync (f : File) (e : Faults)

/-- The content after a write: a gap behind the old end is filled with zeros. -/
def overwrite (old : List UInt8) (pos : Nat) (data : List UInt8) : List UInt8 :=
  old.take pos ++ List.replicate (pos - old.length) 0 ++ data ++ old.drop (pos + data.length)

/-- A call on a file below the mount point. -/
def step (mount : List Name) (s : State) : Label → Option (State × Int)
  | .write f pos data =>
      match s.tree f.path with
      | some (.file old) =>
          if mount <+: f.dir then
            some ({ s with tree := Function.update s.tree f.path (some (.file (overwrite old pos data))) }, data.length)
          else none
      | _ => none
  | .fsync f e =>
      match s.tree f.path with
      | some (.file data) =>
          if mount <+: f.dir then
            let (t, ret) := ramfsBackupFsync s.tree f e
            some (⟨t, Function.update s.owed f (if ret = 0 then some data else none)⟩, ret)
          else none
      | _ => none

/-- Where the copy of a file goes. -/
def backup (f : File) : List Name := resolve backupDir ++ [f.name]

/-- Every copy that is owed is in the backup directory. -/
def State.Kept (s : State) : Prop := ∀ f data, s.owed f = some data → s.tree (backup f) = some (.file data)

/-- The call gets as far as writing the place of the copy. -/
structure Copies (t : Tree) (f : File) (e : Faults) : Prop where
  kmalloc : e.kmalloc = false
  short : (dPath f).length < PATH_MAX
  mkdir : e.mkdir = none
  no_file : ∀ p ∈ (resolve backupDir).inits, isFile (t p) = false
  not_self : backup f ≠ f.path
  not_dir : t (backup f) ≠ some .dir

/-- What a `cp` that gets so far leaves in the place of the copy. -/
def leftBy (e : Faults) (data : List UInt8) : Option (List UInt8) :=
  match e.cp with
  | none => some data
  | some fault => fault.left

/-- The call puts nothing new in the place of a copy that is owed for another file: a `write` to a file of the
mount that is such a copy itself, or an `fsync` of a file with the same last name. -/
def Spares (s : State) : Label → Prop
  | .write g pos data =>
      ∀ old, s.tree g.path = some (.file old) →
        ∀ f c, s.owed f = some c → backup f = g.path → overwrite old pos data = c
  | .fsync g e =>
      Copies s.tree g e → ∀ data, s.tree g.path = some (.file data) →
        ∀ f c, f ≠ g → f.name = g.name → s.owed f = some c → leftBy e data = some c

theorem makeDirs_of_file {t : Tree} {p : List Name} {data : List UInt8} (h : t p = some (.file data))
    (ps : List (List Name)) : makeDirs t ps p = some (.file data) := by
  simp [makeDirs, h]

theorem makeDirs_of_notMem {t : Tree} {p : List Name} {ps : List (List Name)} (h : p ∉ ps) :
    makeDirs t ps p = t p := by
  simp [makeDirs, h]

theorem makeDirs_of_mem {t : Tree} {p : List Name} {ps : List (List Name)} (h : p ∈ ps)
    (hfile : isFile (t p) = false) : makeDirs t ps p = some .dir := by
  rcases hp : t p with _ | (_ | _) <;> simp_all [makeDirs, isFile]

theorem mkdirP_keeps {t : Tree} {p : List Name} {data : List UInt8} (h : t p = some (.file data))
    (path : List UInt8) (fault : Option MkdirFault) : (mkdirP t path fault).1 p = some (.file data) := by
  unfold mkdirP
  dsimp only
  split
  · exact makeDirs_of_file h _
  · split
    · exact makeDirs_of_file h _
    · exact makeDirs_of_file h _

theorem mkdirP_none {t : Tree} {path : List UInt8} (h : ∀ p ∈ (resolve path).inits, isFile (t p) = false) :
    mkdirP t path none = (makeDirs t (resolve path).inits, 0) := by
  have hany : ¬((resolve path).inits.any fun p => isFile (t p)) = true := by simpa using h
  simp only [mkdirP, hany, Bool.false_eq_true, if_false]

theorem mkdirP_ok_iff {t : Tree} {path : List UInt8} {fault : Option MkdirFault} :
    (mkdirP t path fault).2 = 0 ↔ fault = none ∧ ∀ p ∈ (resolve path).inits, isFile (t p) = false := by
  cases fault with
  | some e => simp [mkdirP, e.ret.2]
  | none =>
      refine ⟨fun h => ⟨rfl, fun p hp => ?_⟩, fun h => by rw [mkdirP_none h.2]⟩
      by_contra hfile
      have hany : ((resolve path).inits.any fun p => isFile (t p)) = true :=
        List.any_eq_true.mpr ⟨p, hp, by simpa using hfile⟩
      simp [mkdirP, hany, exitFailure] at h

theorem backup_notMem (f : File) : backup f ∉ (resolve backupDir).inits := by
  intro h
  have hlen := ((List.mem_inits _ _).mp h).length_le
  rw [backup, List.length_append, List.length_singleton] at hlen
  omega

theorem backup_eq_iff {f g : File} : backup f = backup g ↔ f.name = g.name := by
  simp [backup]

/-- `cp` in the tree that the helper before it leaves. -/
theorem cp_makeDirs {t : Tree} {f : File} {data : List UInt8} (hf : t f.path = some (.file data))
    (hdir : ∀ p ∈ (resolve backupDir).inits, isFile (t p) = false) (fault : Option CpFault) :
    cp (makeDirs t (resolve backupDir).inits) (dPath f) backupDir fault =
      if backup f = f.path ∨ t (backup f) = some .dir then (makeDirs t (resolve backupDir).inits, exitFailure)
      else
        match fault with
        | none => (Function.update (makeDirs t (resolve backupDir).inits) (backup f) (some (.file data)), 0)
        | some e => (Function.update (makeDirs t (resolve backupDir).inits) (backup f) (e.left.map .file), e.ret) := by
  have hmem : resolve backupDir ∈ (resolve backupDir).inits := (List.mem_inits _ _).mpr (List.prefix_refl _)
  have hdst : makeDirs t (resolve backupDir).inits (resolve backupDir) = some .dir :=
    makeDirs_of_mem hmem (hdir _ hmem)
  have hplace : makeDirs t (resolve backupDir).inits (resolve backupDir ++ [f.name]) = t (backup f) :=
    makeDirs_of_notMem (backup_notMem f)
  simp only [cp, resolve_dPath, basename_dPath, makeDirs_of_file hf, hdst, if_true, hplace]
  rfl

/-- A call that does not get as far as the copy keeps every file there is, and fails. -/
theorem fsync_of_not_copies {t : Tree} {f : File} {e : Faults} {data : List UInt8} (hf : t f.path = some (.file data))
    (h : ¬Copies t f e) : (ramfsBackupFsync t f e).2 ≠ 0 ∧
      ∀ p c, t p = some (.file c) → (ramfsBackupFsync t f e).1 p = some (.file c) := by
  rw [ramfsBackupFsync]
  split
  · exact ⟨show -ENOMEM ≠ 0 by decide, fun _ _ hp => hp⟩
  · rename_i hkmalloc
    split
    · exact ⟨show -ENAMETOOLONG ≠ 0 by decide, fun _ _ hp => hp⟩
    · rename_i hshort
      dsimp only
      split
      · rename_i hret
        exact ⟨hret, fun _ _ hp => mkdirP_keeps hp _ _⟩
      · rename_i hret
        obtain ⟨hmkdir, hdir⟩ := mkdirP_ok_iff.mp (not_not.mp hret)
        have hno : backup f = f.path ∨ t (backup f) = some .dir := by
          by_contra hno
          obtain ⟨hself, hnot⟩ := not_or.mp hno
          exact h ⟨by simpa using hkmalloc, by omega, hmkdir, hdir, hself, hnot⟩
        rw [hmkdir, mkdirP_none hdir]
        dsimp only
        rw [cp_makeDirs hf hdir, if_pos hno]
        exact ⟨show exitFailure ≠ 0 by decide, fun _ _ hp => makeDirs_of_file hp _⟩

/-- A call that gets as far as the copy writes nothing else but directories, and returns 0 if `cp` ends well. -/
theorem fsync_of_copies {t : Tree} {f : File} {e : Faults} {data : List UInt8} (hf : t f.path = some (.file data))
    (h : Copies t f e) : ramfsBackupFsync t f e =
      (Function.update (makeDirs t (resolve backupDir).inits) (backup f) ((leftBy e data).map .file),
        match e.cp with
        | none => 0
        | some fault => fault.ret) := by
  have hshort : ¬PATH_MAX < (dPath f).length + 1 := by
    have := h.short
    omega
  have hno : ¬(backup f = f.path ∨ t (backup f) = some .dir) := not_or.mpr ⟨h.not_self, h.not_dir⟩
  simp only [ramfsBackupFsync, h.kmalloc, Bool.false_eq_true, if_false, if_neg hshort, h.mkdir, mkdirP_none h.no_file,
    ne_eq, not_true_eq_false, cp_makeDirs hf h.no_file, if_neg hno]
  cases hcp : e.cp <;> simp [leftBy, hcp]

def Label.file : Label → File
  | .write f _ _ => f
  | .fsync f _ => f

/-- What the call leaves, for a file with this content. -/
def State.after (s : State) (data : List UInt8) : Label → State
  | .write f pos new => { s with tree := Function.update s.tree f.path (some (.file (overwrite data pos new))) }
  | .fsync f e =>
      ⟨(ramfsBackupFsync s.tree f e).1,
        Function.update s.owed f (if (ramfsBackupFsync s.tree f e).2 = 0 then some data else none)⟩

theorem kept_write_iff {s : State} {g : File} {old : List UInt8} {pos : Nat} {data : List UInt8} (hs : s.Kept)
    (hg : s.tree g.path = some (.file old)) :
    (s.after old (.write g pos data)).Kept ↔ Spares s (.write g pos data) := by
  rw [State.after]
  constructor
  · intro h old' hold f c howed hback
    obtain rfl : old = old' := by simpa using hg.symm.trans hold
    have := h f c howed
    simpa [hback] using this
  · intro h f c howed
    by_cases hback : backup f = g.path
    · simp [hback, h old hg f c howed hback]
    · simpa [hback] using hs f c howed

theorem kept_fsync_iff {s : State} {g : File} {data : List UInt8} {e : Faults} (hs : s.Kept)
    (hg : s.tree g.path = some (.file data)) :
    (s.after data (.fsync g e)).Kept ↔ Spares s (.fsync g e) := by
  rw [State.after]
  by_cases hcopies : Copies s.tree g e
  · rw [fsync_of_copies hg hcopies]
    constructor
    · intro h _ data' hdata f c hne hname howed
      obtain rfl : data = data' := by simpa using hg.symm.trans hdata
      have hfile := h f c (by simpa [hne] using howed)
      simpa [backup_eq_iff.mpr hname] using hfile
    · intro h f c howed
      by_cases hfg : f = g
      · subst hfg
        cases hcp : e.cp with
        | none => simp_all [leftBy]
        | some fault => simp [hcp, fault.ret.2] at howed
      · have howed' : s.owed f = some c := by simpa [hfg] using howed
        by_cases hname : f.name = g.name
        · simp [backup_eq_iff.mpr hname, h hcopies data hg f c hfg hname howed']
        · have hback : backup f ≠ backup g := fun hback => hname (backup_eq_iff.mp hback)
          simp [hback, makeDirs_of_file (hs f c howed')]
  · obtain ⟨hret, hkeeps⟩ := fsync_of_not_copies hg hcopies
    refine iff_of_true (fun f c howed => ?_) (fun h => absurd h hcopies)
    by_cases hfg : f = g
    · simp [hfg, hret] at howed
    · exact hkeeps _ _ (hs f c (by simpa [hfg] using howed))

/-- Every call is for a file that exists. -/
theorem eq_after_of_step {mount : List Name} {s s' : State} {l : Label} {ret : Int}
    (h : step mount s l = some (s', ret)) :
    ∃ data, s.tree l.file.path = some (.file data) ∧ s' = s.after data l := by
  cases l with
  | write g pos data =>
      simp only [step] at h
      split at h
      · rename_i old hg
        split at h
        · cases h
          exact ⟨old, hg, rfl⟩
        · cases h
      · cases h
  | fsync g e =>
      simp only [step] at h
      split at h
      · rename_i data hg
        split at h
        · cases h
          exact ⟨data, hg, rfl⟩
        · cases h
      · cases h

theorem kept_step_iff {mount : List Name} {s s' : State} {l : Label} {ret : Int} (hs : s.Kept)
    (h : step mount s l = some (s', ret)) : s'.Kept ↔ Spares s l := by
  obtain ⟨data, hdata, rfl⟩ := eq_after_of_step h
  cases l with
  | write g pos new => exact kept_write_iff hs hdata
  | fsync g e => exact kept_fsync_iff hs hdata

/-- **Backups.** From a state in which no copy is owed, every copy that is owed stays in the backup directory
throughout a run of writes and synchronisations exactly if no call of it puts something else in the place of a
copy that is owed for another file. -/
theorem kept_throughout_iff (mount : List Name) (s : State) (ls : List Label) (h0 : ∀ f, s.owed f = none) :
    Throughout (step mount) (fun _ s => s.Kept) s ls ↔ Along (step mount) Spares s ls := by
  apply throughout_iff_along (fun _ _ => True) (fun _ _ => True)
  · intro _ _ _ _ _ _ _ _ _
    trivial
  · intro _ s l s' ret _ _ hs hstep
    exact kept_step_iff hs hstep
  · exact Along.of_forall s ls fun _ _ _ => trivial
  · trivial
  · intro f data howed
    rw [h0 f] at howed
    cases howed

theorem owed_step {mount : List Name} {s s' : State} {l : Label} {ret : Int} (h : step mount s l = some (s', ret))
    {f : File} (hf : f ≠ l.file) : s'.owed f = s.owed f := by
  obtain ⟨data, -, rfl⟩ := eq_after_of_step h
  cases l with
  | write g pos new => rfl
  | fsync g e => exact Function.update_of_ne hf _ _

/-- Files with different last names, none of them in the backup directory itself, keep their copies whatever the
order of the calls. -/
theorem kept_of_names (mount : List Name) (s : State) (ls : List Label) (h0 : ∀ f, s.owed f = none)
    (hname : ∀ l ∈ ls, ∀ l' ∈ ls, l.file.name = l'.file.name → l.file = l'.file)
    (hout : ∀ l ∈ ls, l.file.dir ≠ resolve backupDir) :
    Throughout (step mount) (fun _ s => s.Kept) s ls := by
  have hls : Along (step mount) (fun _ l => l ∈ ls) s ls := Along.of_forall s ls fun _ hl _ => hl
  refine throughout_of_along (fun _ (s : State) => s.Kept ∧ ∀ f, s.owed f ≠ none → ∃ l ∈ ls, l.file = f) ?_ ?_ ?_ hls
  · rintro _ s l s' ret ⟨hs, howed⟩ hl hstep
    constructor
    · rw [kept_step_iff hs hstep]
      cases l with
      | write g pos data =>
          intro _ _ f c _ hback
          have hdir := (List.append_inj' hback rfl).1
          exact absurd hdir.symm (hout _ hl)
      | fsync g e =>
          intro _ _ _ f c hne heq hf
          obtain ⟨l', hl', rfl⟩ := howed f (by simp [hf])
          exact absurd (hname l' hl' _ hl heq) hne
    · intro f hf
      by_cases heq : f = l.file
      · exact ⟨l, hl, heq.symm⟩
      · rw [owed_step hstep heq] at hf
        exact howed f hf
  · exact fun _ _ h => h.1
  · refine ⟨fun f data howed => ?_, fun f howed => absurd (h0 f) howed⟩
    rw [h0 f] at howed
    cases howed

/-- Nothing goes wrong outside the tree. -/
def noFaults : Faults := ⟨false, none, none⟩

/-- `/mnt/ramfs`. -/
def mountPoint : List Name := [[109, 110, 116], [114, 97, 109, 102, 115]]

/-- The file `x` of a directory of the mount with a name of one letter. -/
def fileIn (letter : UInt8) (h : letter ≠ slash) : File where
  dir := mountPoint ++ [[letter]]
  name := [120]
  dir_valid := by
    intro n hn
    simp only [mountPoint, List.cons_append, List.nil_append, List.mem_cons, List.not_mem_nil, or_false] at hn
    rcases hn with rfl | rfl | rfl
    · exact ⟨by decide, by decide⟩
    · exact ⟨by decide, by decide⟩
    · exact ⟨List.cons_ne_nil _ _, by simpa using h.symm⟩
  name_valid := ⟨by decide, by decide⟩

/-- `/mnt/ramfs/a/x`. -/
def fileA : File := fileIn 97 (by decide)

/-- `/mnt/ramfs/b/x`. -/
def fileB : File := fileIn 98 (by decide)

/-- The two files with different contents, and nothing owed. -/
def twoDirs : State where
  tree p := if p = fileA.path then some (.file [1]) else if p = fileB.path then some (.file [2])
    else if p <+: fileA.dir ∨ p <+: fileB.dir then some .dir else none
  owed _ := none

theorem twoDirs_owes_nothing : ∀ f, twoDirs.owed f = none := fun _ => rfl

/-- Both files are synchronised: the copy of the first is gone. -/
theorem sameName_not_kept :
    ¬Throughout (step mountPoint) (fun _ s => s.Kept) twoDirs [.fsync fileA noFaults, .fsync fileB noFaults] := by
  intro h
  have hrun : (run (step mountPoint) twoDirs [.fsync fileA noFaults, .fsync fileB noFaults]).map
      (fun r => (r.1.owed fileA, r.1.tree (backup fileA), r.2)) = some (some [1], some (.file [2]), [0, 0]) := by
    decide
  obtain ⟨⟨s', os⟩, hs', heq⟩ := Option.map_eq_some_iff.mp hrun
  obtain ⟨howed, htree, -⟩ := by simpa using heq
  have hkept := h _ (List.prefix_refl _) s' os hs' fileA [1] howed
  rw [htree] at hkept
  cases hkept

/-- Only one of the two is synchronised, again after a write. -/
theorem oneName_spares : Along (step mountPoint) Spares twoDirs
    [.fsync fileA noFaults, .write fileA 0 [3], .fsync fileA noFaults] := by
  refine (kept_throughout_iff mountPoint twoDirs _ twoDirs_owes_nothing).mp ?_
  have hfile : ∀ l ∈ [Label.fsync fileA noFaults, .write fileA 0 [3], .fsync fileA noFaults], l.file = fileA := by
    simp [Label.file]
  refine kept_of_names _ _ _ twoDirs_owes_nothing (fun l hl l' hl' _ => ?_) (fun l hl => ?_)
  · rw [hfile l hl, hfile l' hl']
  · rw [hfile l hl]
    decide

end OsHw.Ramfs
