import OsHw.GptfsPaths

/-! What the files of a session depend on. A name stands for the object that the last `mkdir` made for it; writers and
workers act on the object they hold, under whatever name it was found. So the object of a name follows the
operations that were addressed to the name since then, and the steps of its own writers and workers, and nothing
else in the file system reaches it. -/

namespace OsHw.Gpt

/-- What an operation does to a session, as far as it is addressed to it. -/
inductive NameLabel where
  | act (l : Label)
  | rmdir

/-- The operations that are addressed to a name, and the steps of the writers and workers of its object. -/
def addressedTo (name : String) (o : ObjId) : FsLabel → Option NameLabel
  | .write w path data offset => if parts path = [name, "input"] then some (.act (.write w data offset)) else none
  | .truncate path length => if parts path = [name, "input"] then some (.act (.truncate length)) else none
  | .rmdir path => if parts path = [name] then some .rmdir else none
  | .inner o' l => if o' = o then some (.act l) else none
  | _ => none

/-- A session by itself, `none` once it has been removed. -/
def follow : Option Session → NameLabel → Option Session
  | some s, .act l => (s.step l).map Prod.fst
  | _, _ => none

namespace Gptfs

variable {fs fs' : Gptfs} {name : String} {o : ObjId} {v : Option Session} {l : FsLabel} {e : FsEvent}

/-- Names are distinct and stand for objects that have been created. -/
structure WF (fs : Gptfs) : Prop where
  distinct : (fs.sessions.map Entry.name).Nodup
  below : ∀ n o, fs.find n = some o → o < fs.count

/-- The object stands for the name or for none, and is what the name shows. -/
structure Tracks (name : String) (o : ObjId) (fs : Gptfs) (v : Option Session) : Prop extends WF fs where
  lt : o < fs.count
  own : ∀ n, fs.find n = some o → n = name
  shows : fs.find name = some o ∧ v = some (fs.objs o) ∨ fs.find name = none ∧ v = none

theorem find_insert {n : String} {c : ObjId} (h : fs.find n = none) (x : String) :
    ((Table.find Entry.name x (fs.sessions ++ [⟨n, c⟩])).map Entry.obj) = if x = n then some c else fs.find x := by
  have hnone : Table.find Entry.name n fs.sessions = none := Option.map_eq_none_iff.mp h
  rw [Table.find, List.find?_append, ← Table.find]
  by_cases hx : x = n
  · subst hx
    simp [hnone]
  · have hne : ¬n = x := fun he => hx he.symm
    simp [hx, hne, find]

/-- What `mkdir` does: it makes a new object for a name that has none, or nothing. -/
theorem step_mkdir {path : String} (h : fs.step (.mkdir path) = some (fs', e)) :
    (∃ n, parts path = [n] ∧ fs.find n = none ∧ e = .made n ∧ fs'.count = fs.count + 1 ∧
        fs'.objs = Function.update fs.objs fs.count .new ∧ fs'.sessions = fs.sessions ++ [⟨n, fs.count⟩]) ∨
      (fs' = fs ∧ ∀ n, e ≠ .made n) := by
  have hfail : ∀ r : Outcome, r ≠ .returned 0 → fs.mkdir path = (fs, r) → fs' = fs ∧ ∀ n, e ≠ .made n := by
    intro r hr heq
    simp only [step, heq, Option.some.injEq, Prod.mk.injEq] at h
    obtain ⟨rfl, rfl⟩ := h
    refine ⟨rfl, fun n => ?_⟩
    split
    · exact absurd rfl hr
    · intro hmade
      cases hmade
  rcases hparts : parts path with _ | ⟨n, _ | ⟨m, rest⟩⟩
  · exact .inr (hfail (.returned (-eperm)) (by decide) (by rw [mkdir, hparts]))
  · cases hfind : fs.find n with
    | none =>
        simp only [step, mkdir, hparts, hfind, Option.isSome_none, Bool.false_eq_true, if_false, Option.some.injEq,
          Prod.mk.injEq] at h
        obtain ⟨rfl, rfl⟩ := h
        exact .inl ⟨n, rfl, hfind, rfl, rfl, rfl, rfl⟩
    | some o => exact .inr (hfail (.returned (-eexist)) (by decide) (by simp [mkdir, hparts, hfind]))
  · exact .inr (hfail (.returned (-eperm)) (by decide) (by rw [mkdir, hparts]))

/-- What `rmdir` does: it removes a name, or nothing. -/
theorem step_rmdir (hfs : fs.WF) {path : String} (h : fs.step (.rmdir path) = some (fs', e)) :
    fs'.count = fs.count ∧ fs'.objs = fs.objs ∧ (fs'.sessions.map Entry.name).Nodup ∧
      ∀ x, fs'.find x = if parts path = [x] then none else fs.find x := by
  simp only [step, Option.some.injEq, Prod.mk.injEq] at h
  obtain ⟨rfl, -⟩ := h
  rcases hparts : parts path with _ | ⟨n, _ | ⟨m, rest⟩⟩
  · have heq : fs.rmdir path = (fs, .returned (-eperm)) := by rw [rmdir, hparts]
    rw [heq]
    exact ⟨rfl, rfl, hfs.distinct, fun x => by simp⟩
  · cases hfind : fs.find n with
    | none =>
        simp only [rmdir, hparts, hfind, Option.isSome_none, Bool.false_eq_true, if_false, List.cons.injEq, and_true]
        refine ⟨trivial, trivial, hfs.distinct, fun x => ?_⟩
        by_cases hx : n = x
        · rw [if_pos hx, ← hx, hfind]
        · rw [if_neg hx]
    | some o =>
        simp only [rmdir, hparts, hfind, Option.isSome_some, if_true, List.cons.injEq, and_true]
        refine ⟨trivial, trivial, Table.nodup_erase hfs.distinct, fun x => ?_⟩
        by_cases hx : n = x
        · rw [if_pos hx, find, ← hx, Table.find_erase_self hfs.distinct]
          rfl
        · rw [if_neg hx, find, Table.find_erase_ne fun h => hx h.symm, find]
  · have heq : fs.rmdir path = (fs, .returned (-eperm)) := by rw [rmdir, hparts]
    rw [heq]
    exact ⟨rfl, rfl, hfs.distinct, fun x => by simp⟩

theorem WF.congr (h : fs.WF) (hsessions : fs'.sessions = fs.sessions) (hcount : fs'.count = fs.count) : fs'.WF := by
  refine ⟨hsessions ▸ h.distinct, fun n x hx => ?_⟩
  rw [find, hsessions] at hx
  rw [hcount]
  exact h.below n x hx

theorem find_mkdir {n : String} (hfree : fs.find n = none) (hsessions : fs'.sessions = fs.sessions ++ [⟨n, fs.count⟩])
    (x : String) : fs'.find x = if x = n then some fs.count else fs.find x := by
  rw [find, hsessions, find_insert hfree]

theorem WF.mkdir (h : fs.WF) {n : String} (hfree : fs.find n = none) (hcount : fs'.count = fs.count + 1)
    (hsessions : fs'.sessions = fs.sessions ++ [⟨n, fs.count⟩]) : fs'.WF := by
  constructor
  · have hnone : Table.find Entry.name n fs.sessions = none := Option.map_eq_none_iff.mp hfree
    rw [hsessions, List.map_append]
    exact List.nodup_append.mpr ⟨h.distinct, by simp, by simpa using Table.find_eq_none.mp hnone⟩
  · intro x o hx
    rw [hcount]
    rw [find_mkdir hfree hsessions] at hx
    split at hx
    · cases hx
      exact Nat.lt_succ_self _
    · exact Nat.lt_succ_of_lt (h.below x o hx)

theorem openFile_same (fs : Gptfs) (path : String) :
    (fs.openFile path).1.sessions = fs.sessions ∧ (fs.openFile path).1.objs = fs.objs ∧
      (fs.openFile path).1.count = fs.count := by
  rw [openFile]
  split
  · split
    · split <;> exact ⟨rfl, rfl, rfl⟩
    · exact ⟨rfl, rfl, rfl⟩
  · exact ⟨rfl, rfl, rfl⟩

theorem truncate_same (fs : Gptfs) (path : String) (length : Nat) :
    (fs.truncate path length).1.sessions = fs.sessions ∧ (fs.truncate path length).1.count = fs.count := by
  rw [truncate]
  split
  · split
    · exact ⟨rfl, rfl⟩
    · split <;> exact ⟨rfl, rfl⟩
  · exact ⟨rfl, rfl⟩

theorem stepObj_eq_some {o : ObjId} {l : Label} (h : fs.stepObj o l = some (fs', e)) :
    ∃ s ev, (fs.objs o).step l = some (s, ev) ∧ e = .inner ev ∧ fs' = fs.setObj o s := by
  rw [stepObj] at h
  split at h
  · cases h
  · rename_i s ev hstep
    cases h
    exact ⟨s, ev, hstep, rfl, rfl⟩

theorem wf_step (h : fs.WF) (hstep : fs.step l = some (fs', e)) : fs'.WF := by
  cases l with
  | getattr path =>
      cases hstep
      exact h
  | readdir path =>
      cases hstep
      exact h
  | mkdir path =>
      rcases step_mkdir hstep with ⟨n, -, hfree, -, hcount, -, hsessions⟩ | ⟨rfl, -⟩
      · exact h.mkdir hfree hcount hsessions
      · exact h
  | rmdir path =>
      obtain ⟨hcount, -, hdistinct, hfind⟩ := step_rmdir h hstep
      refine ⟨hdistinct, fun x o hx => ?_⟩
      rw [hfind] at hx
      rw [hcount]
      split at hx
      · cases hx
      · exact h.below x o hx
  | openFile path =>
      cases hstep
      exact h.congr (openFile_same fs path).1 (openFile_same fs path).2.2
  | read path size offset =>
      cases hstep
      exact h
  | write w path data offset =>
      simp only [step] at hstep
      split at hstep
      · cases hstep
        exact h
      · obtain ⟨s, ev, -, -, rfl⟩ := stepObj_eq_some hstep
        exact h.congr rfl rfl
  | truncate path length =>
      cases hstep
      exact h.congr (truncate_same fs path length).1 (truncate_same fs path length).2
  | unlink path =>
      cases hstep
      exact h
  | inner o a =>
      simp only [step] at hstep
      split at hstep
      · obtain ⟨s, ev, -, -, rfl⟩ := stepObj_eq_some hstep
        exact h.congr rfl rfl
      · cases hstep

theorem wf_init : init.WF := ⟨List.nodup_nil, fun _ _ => nofun⟩

theorem wf_run {ls : List FsLabel} {es : List FsEvent} (hrun : run step init ls = some (fs, es)) : fs.WF :=
  run_invariant (fun _ fs => fs.WF) (fun _ _ => True) (fun _ _ _ _ _ h _ hstep => wf_step h hstep) wf_init
    (Along.of_forall _ _ fun _ _ _ => trivial) hrun

/-- A name other than the tracked one stands for another object. -/
theorem Tracks.ne_obj (h : Tracks name o fs v) {n : String} {o' : ObjId} (hn : fs.find n = some o') (hne : n ≠ name) :
    o' ≠ o := by
  rintro rfl
  exact hne (h.own n hn)

/-- The tracked name stands for the tracked object. -/
theorem Tracks.eq_obj (h : Tracks name o fs v) {o' : ObjId} (hn : fs.find name = some o') : o' = o := by
  rcases h.shows with ⟨hfind, -⟩ | ⟨hfind, -⟩
  · rw [hfind] at hn
    cases hn
    rfl
  · rw [hfind] at hn
    cases hn

/-- Another object changes. -/
theorem Tracks.setObj_ne (h : Tracks name o fs v) {o' : ObjId} (hne : o' ≠ o) (s : Session) :
    Tracks name o (fs.setObj o' s) v := by
  refine ⟨h.congr rfl rfl, h.lt, h.own, ?_⟩
  rw [objs_setObj_of_ne (Ne.symm hne)]
  exact h.shows

/-- The tracked object takes a step. -/
theorem Tracks.setObj_self (h : Tracks name o fs v) {l : Label} {s : Session} {ev : Event}
    (hstep : (fs.objs o).step l = some (s, ev)) : Tracks name o (fs.setObj o s) (follow v (.act l)) := by
  refine ⟨h.congr rfl rfl, h.lt, h.own, ?_⟩
  rcases h.shows with ⟨hfind, rfl⟩ | ⟨hfind, rfl⟩
  · refine .inl ⟨hfind, ?_⟩
    rw [follow, hstep, objs_setObj]
    rfl
  · exact .inr ⟨hfind, rfl⟩

/-- What the tracked session does at a step of the file system. -/
def tracked (name : String) (o : ObjId) (v : Option Session) (l : FsLabel) : Option Session :=
  match addressedTo name o l with
  | none => v
  | some nl => follow v nl

theorem tracks_mkdir (h : Tracks name o fs v) {path : String} (hstep : fs.step (.mkdir path) = some (fs', e))
    (hmade : e ≠ .made name) : Tracks name o fs' v := by
  rcases step_mkdir hstep with ⟨n, -, hfree, rfl, hcount, hobjs, hsessions⟩ | ⟨rfl, -⟩
  · have hfind := find_mkdir hfree hsessions
    have hne : name ≠ n := fun heq => hmade (heq ▸ rfl)
    refine ⟨h.mkdir hfree hcount hsessions, Nat.lt_of_lt_of_eq (Nat.lt_succ_of_lt h.lt) hcount.symm, fun x hx => ?_, ?_⟩
    · rw [hfind] at hx
      split at hx
      · cases hx
        exact absurd h.lt (Nat.lt_irrefl _)
      · exact h.own x hx
    · rw [hfind, if_neg hne, hobjs, Function.update_of_ne (Nat.ne_of_lt h.lt)]
      exact h.shows
  · exact h

theorem tracks_rmdir (h : Tracks name o fs v) {path : String} (hstep : fs.step (.rmdir path) = some (fs', e)) :
    Tracks name o fs' (tracked name o v (.rmdir path)) := by
  obtain ⟨hcount, hobjs, -, hfind⟩ := step_rmdir h.toWF hstep
  refine ⟨wf_step h.toWF hstep, Nat.lt_of_lt_of_eq h.lt hcount.symm, fun x hx => ?_, ?_⟩
  · rw [hfind] at hx
    split at hx
    · cases hx
    · exact h.own x hx
  · rw [hfind, hobjs, tracked, addressedTo]
    by_cases hpath : parts path = [name]
    · rw [if_pos hpath, if_pos hpath]
      exact .inr ⟨rfl, by cases v <;> rfl⟩
    · rw [if_neg hpath, if_neg hpath]
      exact h.shows

/-- An operation on the input of the session that a path names: it finds no session and does nothing, or the object
of the session takes a step. -/
theorem Tracks.input (h : Tracks name o fs v) {path : String} {a : Label}
    (hcases : (fs' = fs ∧ ∀ n, parts path = [n, "input"] → fs.find n = none) ∨
      ∃ n o' s ev, parts path = [n, "input"] ∧ fs.find n = some o' ∧ (fs.objs o').step a = some (s, ev) ∧
        fs' = fs.setObj o' s) :
    Tracks name o fs' (if parts path = [name, "input"] then follow v (.act a) else v) := by
  rcases hcases with ⟨rfl, hnone⟩ | ⟨n, o', s, ev, hpath, hfind, hstep, rfl⟩
  · by_cases hpath : parts path = [name, "input"]
    · rw [if_pos hpath]
      rcases h.shows with ⟨hfind, -⟩ | ⟨-, rfl⟩
      · rw [hnone name hpath] at hfind
        cases hfind
      · exact h
    · rw [if_neg hpath]
      exact h
  · by_cases hn : n = name
    · subst hn
      rw [if_pos hpath]
      obtain rfl := h.eq_obj hfind
      exact h.setObj_self hstep
    · rw [if_neg fun hp => hn (by simpa [hpath] using hp)]
      exact h.setObj_ne (h.ne_obj hfind hn) s

theorem tracks_write (h : Tracks name o fs v) {w : WriterId} {path : String} {data : ByteArray} {offset : Nat}
    (hstep : fs.step (.write w path data offset) = some (fs', e)) :
    Tracks name o fs' (tracked name o v (.write w path data offset)) := by
  have hcases : (fs' = fs ∧ ∀ n, parts path = [n, "input"] → fs.find n = none) ∨
      ∃ n o' s ev, parts path = [n, "input"] ∧ fs.find n = some o' ∧
        (fs.objs o').step (.write w data offset) = some (s, ev) ∧ fs' = fs.setObj o' s := by
    simp only [step] at hstep
    cases htarget : fs.writeTarget path with
    | error r =>
        rw [htarget] at hstep
        cases hstep
        refine .inl ⟨rfl, fun n hpath => ?_⟩
        rw [writeTarget, hpath] at htarget
        cases hfind : fs.find n with
        | none => rfl
        | some o' => simp [hfind] at htarget
    | ok o' =>
        rw [htarget] at hstep
        obtain ⟨s, ev, hs, -, rfl⟩ := stepObj_eq_some hstep
        rw [writeTarget] at htarget
        split at htarget
        · rename_i n fname hpath
          split at htarget
          · cases htarget
          · rename_i x hfind
            split at htarget
            · cases htarget
            · rename_i hinput
              cases htarget
              rw [not_not] at hinput
              subst hinput
              exact .inr ⟨n, _, s, ev, hpath, hfind, hs, rfl⟩
        · cases htarget
  have htracks := h.input hcases
  rw [tracked, addressedTo]
  split_ifs at htracks ⊢ <;> exact htracks

theorem tracks_truncate (h : Tracks name o fs v) {path : String} {length : Nat}
    (hstep : fs.step (.truncate path length) = some (fs', e)) :
    Tracks name o fs' (tracked name o v (.truncate path length)) := by
  have hcases : (fs' = fs ∧ ∀ n, parts path = [n, "input"] → fs.find n = none) ∨
      ∃ n o' s ev, parts path = [n, "input"] ∧ fs.find n = some o' ∧
        (fs.objs o').step (.truncate length) = some (s, ev) ∧ fs' = fs.setObj o' s := by
    simp only [step, Option.some.injEq, Prod.mk.injEq] at hstep
    obtain ⟨rfl, -⟩ := hstep
    by_cases hpath : ∃ n fname, parts path = [n, fname]
    · obtain ⟨n, fname, hpath⟩ := hpath
      rw [truncate_of_parts hpath]
      cases hfind : fs.find n with
      | none =>
          refine .inl ⟨rfl, fun n' hp => ?_⟩
          rw [hpath] at hp
          cases hp
          exact hfind
      | some o' =>
          by_cases hinput : fname = "input"
          · subst hinput
            exact .inr ⟨n, o', _, .quiet, hpath, hfind, rfl, by simp⟩
          · refine .inl ⟨by simp [hinput], fun n' hp => ?_⟩
            rw [hpath] at hp
            cases hp
            exact absurd rfl hinput
    · refine .inl ⟨?_, fun n hp => absurd ⟨n, _, hp⟩ hpath⟩
      rw [truncate]
      split
      · rename_i n fname hp
        exact absurd ⟨n, fname, hp⟩ hpath
      · rfl
  have htracks := h.input hcases
  rw [tracked, addressedTo]
  split_ifs at htracks ⊢ <;> exact htracks

theorem tracks_inner (h : Tracks name o fs v) {o' : ObjId} {a : Label} (hstep : fs.step (.inner o' a) = some (fs', e)) :
    Tracks name o fs' (tracked name o v (.inner o' a)) := by
  simp only [step] at hstep
  split at hstep
  · obtain ⟨s, ev, hs, -, rfl⟩ := stepObj_eq_some hstep
    rw [tracked, addressedTo]
    by_cases ho : o' = o
    · subst ho
      simp only [if_true]
      exact h.setObj_self hs
    · simp only [if_neg ho]
      exact h.setObj_ne ho s
  · cases hstep

theorem tracks_openFile (h : Tracks name o fs v) {path : String} (hstep : fs.step (.openFile path) = some (fs', e)) :
    Tracks name o fs' v := by
  simp only [step, Option.some.injEq, Prod.mk.injEq] at hstep
  obtain ⟨rfl, -⟩ := hstep
  obtain ⟨hsessions, hobjs, hcount⟩ := openFile_same fs path
  have hfind : ∀ x, (fs.openFile path).1.find x = fs.find x := fun x => by rw [find, hsessions, find]
  refine ⟨h.congr hsessions hcount, Nat.lt_of_lt_of_eq h.lt hcount.symm, fun x hx => h.own x (hfind x ▸ hx), ?_⟩
  rw [hfind, hobjs]
  exact h.shows

/-- **One step.** The tracked session follows the operations addressed to it. -/
theorem tracks_step (h : Tracks name o fs v) (hstep : fs.step l = some (fs', e)) (hmade : e ≠ .made name) :
    Tracks name o fs' (tracked name o v l) := by
  cases l with
  | getattr path =>
      cases hstep
      exact h
  | readdir path =>
      cases hstep
      exact h
  | mkdir path => exact tracks_mkdir h hstep hmade
  | rmdir path => exact tracks_rmdir h hstep
  | openFile path => exact tracks_openFile h hstep
  | read path size offset =>
      cases hstep
      exact h
  | write w path data offset => exact tracks_write h hstep
  | truncate path length => exact tracks_truncate h hstep
  | unlink path =>
      cases hstep
      exact h
  | inner o' a => exact tracks_inner h hstep

/-- The operations of a run that are addressed to a name. -/
def addressed (name : String) (o : ObjId) (ls : List FsLabel) : List NameLabel := ls.filterMap (addressedTo name o)

theorem tracks_run {ls : List FsLabel} {es : List FsEvent} (h : Tracks name o fs v)
    (hrun : run step fs ls = some (fs', es)) (hmade : .made name ∉ es) :
    Tracks name o fs' ((addressed name o ls).foldl follow v) := by
  induction ls generalizing fs v es with
  | nil =>
      cases hrun
      exact h
  | cons l ls ih =>
      obtain ⟨fs₁, e, es', hstep, hrest, rfl⟩ := run_cons_eq_some_iff.mp hrun
      rw [List.mem_cons, not_or] at hmade
      obtain ⟨he, hes⟩ := hmade
      have hnext := ih (tracks_step h hstep (Ne.symm he)) hrest hes
      rw [tracked] at hnext
      rw [addressed, List.filterMap_cons]
      cases haddr : addressedTo name o l with
      | none =>
          rw [haddr] at hnext
          exact hnext
      | some nl =>
          rw [haddr] at hnext
          exact hnext

/-- A new session is tracked from the `mkdir` that makes it. -/
theorem tracks_made (h : fs.WF) {path : String} (hstep : fs.step (.mkdir path) = some (fs', .made name)) :
    Tracks name fs.count fs' (some .new) := by
  rcases step_mkdir hstep with ⟨n, -, hfree, hname, hcount, hobjs, hsessions⟩ | ⟨-, hnot⟩
  · cases hname
    have hfind := find_mkdir hfree hsessions
    refine ⟨h.mkdir hfree hcount hsessions, Nat.lt_of_lt_of_eq (Nat.lt_succ_self _) hcount.symm,
      fun x hx => ?_, .inl ?_⟩
    · rw [hfind] at hx
      split at hx
      · assumption
      · exact absurd (h.below x _ hx) (Nat.lt_irrefl _)
    · rw [hfind, if_pos rfl, hobjs, Function.update_self]
      exact ⟨rfl, rfl⟩
  · exact absurd rfl (hnot name)

/-- What `read` returns for a file of a session, given the session. -/
def readOf (v : Option Session) (fname : String) (size offset : Nat) : ReadResult :=
  match v with
  | none => .bytes .empty
  | some s =>
      match s.file fname with
      | some buf => .bytes (buf.extract offset (offset + size))
      | none => .attribute fname

/-- What `getattr` returns for a file of a session, given the session. -/
def attrOf (v : Option Session) (fname : String) : Except Errno Attr :=
  match v with
  | none => .error enoent
  | some s => if isFile fname then .ok (.file (((s.file fname).map ByteArray.size).getD 0)) else .error enoent

theorem Tracks.read (h : Tracks name o fs v) {path fname : String} (hparts : parts path = [name, fname])
    (size offset : Nat) : fs.read path size offset = readOf v fname size offset := by
  rcases h.shows with ⟨hfind, rfl⟩ | ⟨hfind, rfl⟩
  · cases hfile : (fs.objs o).file fname <;> simp [Gptfs.read, readOf, hparts, hfind, hfile]
  · simp [Gptfs.read, readOf, hparts, hfind]

theorem Tracks.getattr (h : Tracks name o fs v) {path fname : String} (hparts : parts path = [name, fname]) :
    fs.getattr path = attrOf v fname := by
  rw [getattr_of_parts hparts]
  rcases h.shows with ⟨hfind, rfl⟩ | ⟨hfind, rfl⟩
  · simp only [hfind, attrOf, getSize]
  · simp only [hfind, attrOf]

theorem file_new {fname : String} (h : isFile fname = true) : Session.new.file fname = some .empty := by
  simp only [isFile, decide_eq_true_eq] at h
  rcases h with rfl | rfl | rfl <;> rfl

/-- **Isolation.** Take two runs of the file system and in each the last `mkdir` that made the session. If the
operations addressed to the session since then, and the steps of its own writers and workers, are the same in
both, then `read` and `getattr` return the same for its files; if there are none, the files are empty. -/
theorem session_isolated {pre₁ pre₂ ls₁ ls₂ : List FsLabel} {ds₁ ds₂ es₁ es₂ : List FsEvent} {path₁ path₂ : String}
    {u₁ u₂ v₁ v₂ t₁ t₂ : Gptfs} (hpre₁ : run step init pre₁ = some (u₁, ds₁))
    (hmade₁ : u₁.step (.mkdir path₁) = some (v₁, .made name)) (hrun₁ : run step v₁ ls₁ = some (t₁, es₁))
    (hlast₁ : .made name ∉ es₁) (hpre₂ : run step init pre₂ = some (u₂, ds₂))
    (hmade₂ : u₂.step (.mkdir path₂) = some (v₂, .made name)) (hrun₂ : run step v₂ ls₂ = some (t₂, es₂))
    (hlast₂ : .made name ∉ es₂) (hsame : addressed name u₁.count ls₁ = addressed name u₂.count ls₂) :
    (∀ path fname, parts path = [name, fname] →
      (∀ size offset, t₁.read path size offset = t₂.read path size offset) ∧ t₁.getattr path = t₂.getattr path) ∧
    (addressed name u₁.count ls₁ = [] → ∀ path fname, parts path = [name, fname] → isFile fname = true →
      (∀ size offset, t₁.read path size offset = .bytes .empty) ∧ t₁.getattr path = .ok (.file 0)) := by
  have h₁ := tracks_run (tracks_made (wf_run hpre₁) hmade₁) hrun₁ hlast₁
  have h₂ := tracks_run (tracks_made (wf_run hpre₂) hmade₂) hrun₂ hlast₂
  refine ⟨fun path fname hparts => ⟨fun size offset => ?_, ?_⟩, fun hnone path fname hparts hfile => ?_⟩
  · rw [h₁.read hparts, h₂.read hparts, hsame]
  · rw [h₁.getattr hparts, h₂.getattr hparts, hsame]
  · rw [hnone] at h₁
    constructor
    · intro size offset
      rw [h₁.read hparts, List.foldl_nil, readOf, file_new hfile]
      simp
    · rw [h₁.getattr hparts, List.foldl_nil, attrOf, if_pos hfile, file_new hfile]
      rfl

/-- A worker of a session is under way when the session is removed. -/
def removedBusy : List FsLabel :=
  [.mkdir "/s", .write 0 "/s/input" "a".toUTF8 0, .inner 0 (.store 0), .inner 0 (.test 0), .inner 0 (.assign 0),
    .inner 0 (.start 0), .rmdir "/s"]

/-- It goes on after the session has been made again, and another session is made. -/
def oldWorker : List FsLabel := [.inner 0 (.sample 0), .mkdir "/t", .inner 0 (.save 0), .inner 0 (.terminate 0)]

theorem oldWorker_isolated :
    ∃ u ds v t es, run step init removedBusy = some (u, ds) ∧ u.step (.mkdir "/s") = some (v, .made "s") ∧
      run step v oldWorker = some (t, es) ∧ (t.objs 0).output = (reply "a").toUTF8 ∧
      (∀ size offset, t.read "/s/output" size offset = .bytes .empty) ∧ t.getattr "/s/output" = .ok (.file 0) := by
  have hruns : ∃ u ds v t, run step init removedBusy = some (u, ds) ∧ u.count = 1 ∧
      u.step (.mkdir "/s") = some (v, .made "s") ∧
      run step v oldWorker = some (t, [.inner .quiet, .made "t", .inner .quiet, .inner .quiet]) ∧
      (t.objs 0).output = (reply "a").toUTF8 :=
    ⟨_, _, _, _, rfl, rfl, rfl, rfl, congrArg Prod.fst (answer_toUTF8 "a")⟩
  have hfresh : ∃ v, init.step (.mkdir "/s") = some (v, .made "s") := ⟨_, rfl⟩
  obtain ⟨u, ds, v, t, hpre, hcount, hmade, hrun, hout⟩ := hruns
  obtain ⟨v', hmade'⟩ := hfresh
  have hnone : addressed "s" u.count oldWorker = [] := by
    rw [hcount]
    rfl
  have hisolated := session_isolated hpre hmade hrun (by simp) (run_nil init) hmade' (run_nil v') (by simp) hnone
  exact ⟨u, ds, v, t, _, hpre, hmade, hrun, hout, hisolated.2 hnone "/s/output" "output" (by decide) (by decide)⟩

end Gptfs

end OsHw.Gpt
