import Mathlib.Data.List.Induction
import OsHw.GptfsIsolation

/-! What can stand in the output and the error of a session. Workers read the input without the lock, and several of
them may store their answers in any order and between writes that clear both. Each pending worker holds a byte string
that was the input once, and whatever it stores is the answer to that byte string, so no more than one of output and
error is ever filled. -/

namespace OsHw.Gpt

theorem reply_toUTF8_ne (text : String) : (reply text).toUTF8 ≠ .empty := by
  intro h
  have hempty : reply text = "" := String.toByteArray_inj.mp h
  have hhead := (String.append_eq_empty_iff.mp hempty).1
  simp at hhead

/-- No answer fills both files. -/
theorem answer_exclusive (b : ByteArray) : (answer b).1 = .empty ∨ (answer b).2 = .empty := by
  rw [answer]
  split
  · exact .inr rfl
  · exact .inl rfl

/-- An answer with an output is the whole reply to a text. -/
theorem answer_output {b : ByteArray} (h : (answer b).1 ≠ .empty) :
    ∃ hvalid : b.IsValidUTF8, (answer b).1 = (reply (String.ofByteArray b hvalid)).toUTF8 := by
  by_cases hvalid : b.IsValidUTF8
  · refine ⟨hvalid, ?_⟩
    rw [answer, decode, dif_pos hvalid]
  · rw [answer, decode, dif_neg hvalid] at h
    exact absurd rfl h

namespace Session

variable {s s' : Session} {l : Label} {e : Event} {P : ByteArray → Prop}

/-- The byte strings that workers hold have a property, and the output and the error are clear or the answer to such
a byte string. -/
structure Sampled (P : ByteArray → Prop) (s : Session) : Prop where
  pending : ∀ k b, s.workers k = .answering b → P b
  shown : (s.output, s.error) = (.empty, .empty) ∨ ∃ b, P b ∧ (s.output, s.error) = answer b

theorem sampled_new : Sampled P .new := ⟨fun _ _ => nofun, .inl rfl⟩

/-- A step that leaves the answer alone, and lets no worker read. -/
theorem Sampled.keep {Q : ByteArray → Prop} (h : Sampled P s) (hPQ : ∀ b, P b → Q b)
    (hshown : (s'.output, s'.error) = (s.output, s.error))
    (hworkers : ∀ k b, s'.workers k = .answering b → s.workers k = .answering b) : Sampled Q s' := by
  refine ⟨fun k b hk => hPQ b (h.pending k b (hworkers k b hk)), ?_⟩
  rw [hshown]
  exact h.shown.imp_right fun ⟨b, hb, hans⟩ => ⟨b, hPQ b hb, hans⟩

/-- A worker that moves on without reading. -/
theorem answering_setWorker {k j : WorkerId} {pc : Worker} {b : ByteArray} (hpc : ∀ b, pc ≠ .answering b)
    (h : (s.setWorker k pc).workers j = .answering b) : s.workers j = .answering b := by
  by_cases hjk : j = k
  · subst hjk
    rw [workers_setWorker] at h
    exact absurd h (hpc b)
  · rwa [workers_setWorker_of_ne hjk] at h

/-- A write clears the answer or leaves it alone. -/
theorem Sampled.replaceOrAppend (h : Sampled P s) (data : ByteArray) (offset : Nat) :
    Sampled P (s.replaceOrAppend data offset) := by
  rw [Session.replaceOrAppend]
  split
  · exact ⟨h.pending, .inl rfl⟩
  · exact h.keep (fun _ => id) rfl fun _ _ => id

theorem Sampled.sample (h : Sampled P s) (k : WorkerId) :
    Sampled (fun b => P b ∨ b = s.input) (s.setWorker k (.answering s.input)) := by
  refine ⟨fun j b hj => ?_, h.shown.imp_right fun ⟨b, hb, hshown⟩ => ⟨b, .inl hb, hshown⟩⟩
  by_cases hjk : j = k
  · subst hjk
    rw [workers_setWorker] at hj
    cases hj
    exact .inr rfl
  · rw [workers_setWorker_of_ne hjk] at hj
    exact .inl (h.pending j b hj)

/-- **One step.** Besides what was held before, a worker can only get hold of the current input. -/
theorem Sampled.step (h : Sampled P s) (hstep : s.step l = some (s', e)) :
    Sampled (fun b => P b ∨ b = s.input) s' := by
  cases Step.of_step hstep with
  | write _ => exact h.keep (fun _ => .inl) rfl fun _ _ => id
  | @store _ data offset _ => exact (h.replaceOrAppend data offset).keep (fun _ => .inl) rfl fun _ _ => id
  | leave _ _ => exact h.keep (fun _ => .inl) rfl fun _ _ => id
  | request _ _ => exact h.keep (fun _ => .inl) rfl fun _ _ => id
  | assign _ => exact h.keep (fun _ => .inl) rfl fun _ _ => id
  | start _ _ _ => exact h.keep (fun _ => .inl) rfl fun _ _ => answering_setWorker fun _ => nofun
  | startTwice _ _ _ => exact h.keep (fun _ => .inl) rfl fun _ _ => id
  | truncate => exact h.keep (fun _ => .inl) rfl fun _ _ => id
  | sample _ => exact h.sample _
  | @save k input hpc =>
      refine ⟨fun j b hj => .inl (h.pending j b ?_), .inr ⟨input, .inl (h.pending k input hpc), rfl⟩⟩
      exact @answering_setWorker s k j .stored b (fun _ => nofun) hj
  | terminate _ => exact h.keep (fun _ => .inl) rfl fun _ _ => answering_setWorker fun _ => nofun

end Session

namespace Gptfs

variable {fs fs' : Gptfs} {l : FsLabel} {e : FsEvent} {o : ObjId}

/-- An object is put in the place of one that it comes from by a step. -/
theorem setObj_objs {o' : ObjId} {s : Session} {a : Label} {ev : Event} (h : (fs.objs o').step a = some (s, ev))
    (o : ObjId) : (fs.setObj o' s).objs o = fs.objs o ∨
      ∃ a ev, (fs.objs o).step a = some ((fs.setObj o' s).objs o, ev) := by
  by_cases ho : o = o'
  · subst ho
    refine .inr ⟨a, ev, ?_⟩
    rw [objs_setObj, h]
  · exact .inl (objs_setObj_of_ne ho fs s)

theorem truncate_objs (path : String) (length : Nat) (o : ObjId) : (fs.truncate path length).1.objs o = fs.objs o ∨
    ∃ a ev, (fs.objs o).step a = some ((fs.truncate path length).1.objs o, ev) := by
  rw [truncate]
  split
  · split
    · exact .inl rfl
    · split
      · exact @setObj_objs fs _ _ (.truncate length) .quiet rfl o
      · exact .inl rfl
  · exact .inl rfl

theorem rmdir_objs (fs : Gptfs) (path : String) : (fs.rmdir path).1.objs = fs.objs := by
  rw [rmdir]
  split
  · split <;> rfl
  · rfl

/-- What a step of the file system does to an object: nothing, the object is a new one, or it takes a step. -/
theorem step_objs (h : fs.step l = some (fs', e)) (o : ObjId) :
    fs'.objs o = .new ∨ fs'.objs o = fs.objs o ∨ ∃ a ev, (fs.objs o).step a = some (fs'.objs o, ev) := by
  cases l with
  | getattr path =>
      cases h
      exact .inr (.inl rfl)
  | readdir path =>
      cases h
      exact .inr (.inl rfl)
  | read path size offset =>
      cases h
      exact .inr (.inl rfl)
  | unlink path =>
      cases h
      exact .inr (.inl rfl)
  | openFile path =>
      cases h
      exact .inr (.inl (congrFun (openFile_same fs path).2.1 o))
  | mkdir path =>
      rcases step_mkdir h with ⟨n, -, -, -, -, hobjs, -⟩ | ⟨rfl, -⟩
      · rw [hobjs]
        by_cases ho : o = fs.count
        · subst ho
          exact .inl (Function.update_self _ _ _)
        · exact .inr (.inl (Function.update_of_ne ho _ _))
      · exact .inr (.inl rfl)
  | rmdir path =>
      cases h
      exact .inr (.inl (congrFun (rmdir_objs fs path) o))
  | truncate path length =>
      cases h
      exact .inr (truncate_objs path length o)
  | write w path data offset =>
      simp only [step] at h
      split at h
      · cases h
        exact .inr (.inl rfl)
      · obtain ⟨s, ev, hs, -, rfl⟩ := stepObj_eq_some h
        exact .inr (setObj_objs hs o)
  | inner o' a =>
      simp only [step] at h
      split at h
      · obtain ⟨s, ev, hs, -, rfl⟩ := stepObj_eq_some h
        exact .inr (setObj_objs hs o)
      · cases h

/-- A byte string was the input of an object at an earlier moment of a run. -/
def WasInput (o : ObjId) (ls : List FsLabel) (b : ByteArray) : Prop :=
  ∃ pre rest fs es, ls = pre ++ rest ∧ rest ≠ [] ∧ run step init pre = some (fs, es) ∧ (fs.objs o).input = b

theorem WasInput.append {ls : List FsLabel} {b : ByteArray} (h : WasInput o ls b) (l : FsLabel) :
    WasInput o (ls ++ [l]) b := by
  obtain ⟨pre, rest, fs, es, rfl, hrest, hrun, hinput⟩ := h
  exact ⟨pre, rest ++ [l], fs, es, List.append_assoc _ _ _, by simp, hrun, hinput⟩

/-- **Runs.** Every worker of a reachable state holds what was the input once, and so does every answer. -/
theorem sampled_run {ls : List FsLabel} {es : List FsEvent} (hrun : run step init ls = some (fs, es)) (o : ObjId) :
    (fs.objs o).Sampled (WasInput o ls) := by
  induction ls using List.reverseRecOn generalizing fs es with
  | nil =>
      cases hrun
      exact Session.sampled_new
  | append_singleton ls l ih =>
      obtain ⟨fs₀, es₀, e, hrun₀, hstep, -⟩ := run_concat_eq_some_iff.mp hrun
      have hsampled := ih hrun₀
      have hold : ∀ b, WasInput o ls b → WasInput o (ls ++ [l]) b := fun _ hb => hb.append l
      rcases step_objs hstep o with hobj | hobj | ⟨a, ev, hobj⟩
      · rw [hobj]
        exact Session.sampled_new
      · rw [hobj]
        exact hsampled.keep hold rfl fun _ _ => id
      · refine (hsampled.step hobj).keep ?_ rfl fun _ _ => id
        rintro b (hb | rfl)
        · exact hold b hb
        · exact ⟨ls, [l], fs₀, es₀, rfl, by simp, hrun₀, rfl⟩

/-- **Outputs.** In every reachable state no session has both an output and an error, and an output is the complete
reply to a byte string that was the input of the session at an earlier moment. -/
theorem output_run {ls : List FsLabel} {es : List FsEvent} (hrun : run step init ls = some (fs, es)) (o : ObjId) :
    ¬((fs.objs o).output ≠ .empty ∧ (fs.objs o).error ≠ .empty) ∧
      ((fs.objs o).output ≠ .empty → ∃ b, WasInput o ls b ∧
        ∃ h : b.IsValidUTF8, (fs.objs o).output = (reply (String.ofByteArray b h)).toUTF8) := by
  rcases (sampled_run hrun o).shown with hclear | ⟨b, hb, hans⟩
  · obtain ⟨hout, -⟩ := Prod.mk.inj hclear
    exact ⟨fun h => h.1 hout, fun h => absurd hout h⟩
  · obtain ⟨hout, herr⟩ : (fs.objs o).output = (answer b).1 ∧ (fs.objs o).error = (answer b).2 := Prod.mk.inj hans
    rw [hout, herr]
    refine ⟨fun h => ?_, fun h => ⟨b, hb, answer_output h⟩⟩
    rcases answer_exclusive b with hnone | hnone
    · exact h.1 hnone
    · exact h.2 hnone

/-- A second write replaces the input while the worker of the first has still to answer. -/
def lateAnswer : List FsLabel :=
  [.mkdir "/s", .write 0 "/s/input" "a".toUTF8 0, .inner 0 (.store 0), .inner 0 (.test 0), .inner 0 (.assign 0),
    .inner 0 (.start 0), .inner 0 (.sample 0), .write 1 "/s/input" "b".toUTF8 0, .inner 0 (.store 1),
    .inner 0 (.test 1), .inner 0 (.save 0)]

theorem lateAnswer_output : ∃ fs es, run step init lateAnswer = some (fs, es) ∧ (fs.objs 0).input = "b".toUTF8 ∧
    (fs.objs 0).output ≠ .empty ∧ (fs.objs 0).error = .empty ∧ ∃ b, WasInput 0 lateAnswer b ∧
      ∃ h : b.IsValidUTF8, (fs.objs 0).output = (reply (String.ofByteArray b h)).toUTF8 := by
  have hend : ∃ fs es, run step init lateAnswer = some (fs, es) ∧ (fs.objs 0).input = "b".toUTF8 ∧
      (fs.objs 0).output = (reply "a").toUTF8 :=
    ⟨_, _, rfl, rfl, congrArg Prod.fst (answer_toUTF8 "a")⟩
  obtain ⟨fs, es, hrun, hinput, hout⟩ := hend
  have hfilled : (fs.objs 0).output ≠ .empty := by
    rw [hout]
    exact reply_toUTF8_ne "a"
  obtain ⟨hnot, hreply⟩ := output_run hrun 0
  refine ⟨fs, es, hrun, hinput, hfilled, ?_, hreply hfilled⟩
  by_contra herr
  exact hnot ⟨hfilled, herr⟩

end Gptfs

end OsHw.Gpt
