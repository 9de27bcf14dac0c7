import OsHw.Gptfs

/-! Which paths exist, according to each operation. `open` reports a path of the wrong depth with a number, which
is a handle to its caller, and `truncate` does not look at the name of the file. The operations agree on a path
exactly when it has two components and, if the session exists, names one of its files. -/

namespace OsHw.Gpt.Gptfs

variable {fs : Gptfs} {path : String}

/-- Every operation that needs the path to exist fails and changes nothing. What `open` returns without raising is
a handle. -/
structure Refuses (fs : Gptfs) (path : String) : Prop where
  openFile : ∃ errno, fs.openFile path = (fs, .raised errno)
  readdir : ∃ errno, fs.readdir path = .error errno
  write : ∀ w data offset, ∃ r, fs.step (.write w path data offset) = some (fs, .outcome r) ∧ r.failed = true
  truncate : ∀ length, (fs.truncate path length).1 = fs ∧ (fs.truncate path length).2.failed = true
  rmdir : (fs.rmdir path).1 = fs ∧ (fs.rmdir path).2.failed = true

/-- The operations agree on a path. -/
structure Agrees (fs : Gptfs) (path : String) : Prop where
  handle : (∃ fh, (fs.openFile path).2 = .returned fh) ↔ ∃ size, fs.getattr path = .ok (.file size)
  absent : fs.getattr path = .error enoent → fs.Refuses path

theorem parts_root : parts "/" = [""] := by decide

/-- A path of another depth than two is opened and is no file. -/
theorem not_agrees_of_depth (h : ∀ name fname, parts path ≠ [name, fname]) : ¬fs.Agrees path := by
  intro hagree
  have hopen : (fs.openFile path).2 = .returned (-eperm) := by
    rw [openFile]
    split
    · rename_i name fname heq
      exact absurd heq (h name fname)
    · rfl
  obtain ⟨size, hfile⟩ := hagree.handle.mp ⟨_, hopen⟩
  rw [getattr] at hfile
  split at hfile
  · cases hfile
  split at hfile
  · split at hfile <;> cases hfile
  · rename_i name fname heq
    exact h name fname heq
  · cases hfile

section Depth

variable {name fname : String} (hparts : parts path = [name, fname])
include hparts

theorem ne_root : path ≠ "/" := by
  rintro rfl
  rw [parts_root] at hparts
  cases hparts

theorem openFile_of_parts : fs.openFile path =
    if (fs.find name).isSome then
      if isFile fname then ({ fs with fd := fs.fd + 1 }, .returned (fs.fd + 1)) else (fs, .raised enoent)
    else (fs, .raised enoent) := by
  rw [openFile, hparts]

theorem getattr_of_parts : fs.getattr path =
    match fs.find name with
    | none => .error enoent
    | some o => if isFile fname then .ok (.file (fs.getSize o fname)) else .error enoent := by
  cases hfind : fs.find name <;> simp [getattr, ne_root hparts, hparts, hfind]

theorem truncate_of_parts (length : Nat) : fs.truncate path length =
    match fs.find name with
    | none => (fs, .raised enoent)
    | some o =>
        if fname = "input" then (fs.setObj o ((fs.objs o).truncate length), .returned 0) else (fs, .returned 0) := by
  cases hfind : fs.find name <;> simp [truncate, hparts, hfind]

/-- No operation gets past a session that does not exist. -/
theorem refuses_of_absent (h : fs.find name = none) : fs.Refuses path where
  openFile := ⟨enoent, by rw [openFile_of_parts hparts, h]; rfl⟩
  readdir := ⟨enoent, by rw [readdir, if_neg (ne_root hparts), hparts]⟩
  write w data offset := by
    have htarget : fs.writeTarget path = .error (.raised enoent) := by simp only [writeTarget, hparts, h]
    exact ⟨.raised enoent, by rw [step, htarget], rfl⟩
  truncate length := by
    rw [truncate_of_parts hparts, h]
    exact ⟨rfl, rfl⟩
  rmdir := by
    rw [rmdir, hparts]
    exact ⟨rfl, rfl⟩

theorem agrees_of_parts : fs.Agrees path ↔ ((fs.find name).isSome → isFile fname = true) := by
  have hopen := @openFile_of_parts fs path name fname hparts
  have hattr := @getattr_of_parts fs path name fname hparts
  cases hfind : fs.find name with
  | none =>
      simp only [hfind] at hopen hattr
      refine ⟨fun _ => nofun, fun _ => ⟨?_, fun _ => refuses_of_absent hparts hfind⟩⟩
      simp [hopen, hattr]
  | some o =>
      cases hfile : isFile fname with
      | true =>
          simp only [hfind, hfile, Option.isSome_some, if_true] at hopen hattr
          refine ⟨fun _ _ => rfl, fun _ => ⟨?_, fun h => ?_⟩⟩
          · simp [hopen, hattr]
          · rw [hattr] at h
            cases h
      | false =>
          simp only [hfind, hfile, Bool.false_eq_true, if_false] at hattr
          refine ⟨fun h => ?_, fun h => nomatch h rfl⟩
          -- a name that is no file is truncated all the same
          have hinput : fname ≠ "input" := by
            rintro rfl
            cases hfile
          have hfail := ((h.absent hattr).truncate 0).2
          rw [truncate_of_parts hparts, hfind] at hfail
          simp [hinput, Outcome.failed] at hfail

end Depth

/-- **Paths.** In every state the operations agree on a path exactly when it has two components and does not name
anything but a file in a session that exists. -/
theorem agrees_iff (fs : Gptfs) (path : String) :
    fs.Agrees path ↔ ∃ name fname, parts path = [name, fname] ∧ ((fs.find name).isSome → isFile fname = true) := by
  by_cases h : ∃ name fname, parts path = [name, fname]
  · obtain ⟨name, fname, hparts⟩ := h
    rw [agrees_of_parts hparts]
    refine ⟨fun hf => ⟨name, fname, hparts, hf⟩, fun ⟨name', fname', hparts', hf⟩ => ?_⟩
    rw [hparts] at hparts'
    cases hparts'
    exact hf
  · refine ⟨fun hagree => absurd hagree (not_agrees_of_depth fun name fname hp => h ⟨name, fname, hp⟩), ?_⟩
    rintro ⟨name, fname, hparts, -⟩
    exact absurd ⟨name, fname, hparts⟩ h

/-- A session has been made. -/
def withSession : Gptfs := (init.mkdir "/s").1

theorem withSession_disagrees :
    (∃ es, run step init [.mkdir "/s"] = some (withSession, es)) ∧
      (withSession.getattr "/s/notes" = .error enoent ∧ (withSession.truncate "/s/notes" 0).2 = .returned 0 ∧
        ¬withSession.Agrees "/s/notes") ∧
      (withSession.getattr "/s/a/b" = .error enoent ∧ (withSession.openFile "/s/a/b").2 = .returned (-1) ∧
        ¬withSession.Agrees "/s/a/b") := by
  refine ⟨⟨_, rfl⟩, ⟨by decide, by decide, fun h => ?_⟩, ⟨by decide, by decide, fun h => ?_⟩⟩
  · have hfail := ((h.absent (by decide)).truncate 0).2
    revert hfail
    decide
  · obtain ⟨size, hfile⟩ := h.handle.mp ⟨-1, by decide⟩
    have hnone : withSession.getattr "/s/a/b" = .error enoent := by decide
    rw [hnone] at hfile
    cases hfile

end OsHw.Gpt.Gptfs
