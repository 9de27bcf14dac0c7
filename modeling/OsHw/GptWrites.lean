import Mathlib.Algebra.GroupWithZero.Nat
import OsHw.GptOutputs

/-! What a sequence of writes leaves in the input of a session. `write` tells offset 0 from all others and nothing else,
so a write at the size that `getattr` reports appends, and one at offset 0 replaces. A writer does one call after the
other while workers of any session go on; each call returns the length of its data, and the input does not depend on
how a buffer that is written from offset 0 is split. -/

namespace OsHw.Gpt

/-- A call of `write`. -/
structure Call where
  data : ByteArray
  offset : Nat

/-- What a call makes of the input. -/
def Call.apply (input : ByteArray) (c : Call) : ByteArray := if c.offset = 0 then c.data else input ++ c.data

/-- The calls that write chunks one behind the other, from an offset on. -/
def chunked : Nat → List ByteArray → List Call
  | _, [] => []
  | offset, c :: cs => ⟨c, offset⟩ :: chunked (offset + c.size) cs

def concat : List ByteArray → ByteArray
  | [] => .empty
  | c :: cs => c ++ concat cs

/-- At the end of the input a call appends, also when the input is empty. -/
theorem Call.apply_size (input data : ByteArray) : Call.apply input ⟨data, input.size⟩ = input ++ data := by
  rw [Call.apply]
  split
  · rename_i hsize
    have hempty : input = .empty := ByteArray.size_eq_zero_iff.mp hsize
    rw [hempty, ByteArray.empty_append]
  · rfl

theorem foldl_chunked (input : ByteArray) (cs : List ByteArray) :
    (chunked input.size cs).foldl Call.apply input = input ++ concat cs := by
  induction cs generalizing input with
  | nil => exact ByteArray.append_empty.symm
  | cons c cs ih =>
      have hsize : input.size + c.size = (input ++ c).size := ByteArray.size_append.symm
      calc (chunked input.size (c :: cs)).foldl Call.apply input
          = (chunked (input ++ c).size cs).foldl Call.apply (input ++ c) := by
            rw [chunked, List.foldl_cons, Call.apply_size, hsize]
        _ = input ++ c ++ concat cs := ih (input ++ c)
        _ = input ++ concat (c :: cs) := by rw [concat, ByteArray.append_assoc]

/-- **Chunks.** However a buffer is split, writing it from offset 0 gives the buffer. -/
theorem foldl_chunked_zero (input c : ByteArray) (cs : List ByteArray) :
    (chunked 0 (c :: cs)).foldl Call.apply input = concat (c :: cs) := by
  have hfirst : Call.apply input ⟨c, 0⟩ = c := if_pos rfl
  rw [chunked, List.foldl_cons, hfirst, Nat.zero_add, foldl_chunked, concat]

/-- The lengths that a writer has still to return. -/
def Writer.owed : Writer → List Nat
  | .idle => []
  | .storing data _ => [data.size]
  | .testing n => [n]
  | .assigning n => [n]
  | .starting n => [n]

theorem Writer.eq_idle_of_owed {pc : Writer} (h : pc.owed = []) : pc = .idle := by
  cases pc with
  | idle => rfl
  | _ => cases h

/-- The steps that a writer has still to take. -/
def Writer.rank : Writer → Nat
  | .idle => 0
  | .storing _ _ => 4
  | .testing _ => 3
  | .assigning _ => 2
  | .starting _ => 1

theorem Writer.rank_le (pc : Writer) : pc.rank ≤ 4 := by
  cases pc <;> simp [rank]

/-- A step of a writer. -/
def Label.By (w : WriterId) : Label → Prop
  | .write v _ _ => v = w
  | .store v => v = w
  | .test v => v = w
  | .assign v => v = w
  | .start v => v = w
  | _ => False

instance (w : WriterId) : DecidablePred (Label.By w)
  | .write v _ _ => inferInstanceAs (Decidable (v = w))
  | .store v => inferInstanceAs (Decidable (v = w))
  | .test v => inferInstanceAs (Decidable (v = w))
  | .assign v => inferInstanceAs (Decidable (v = w))
  | .start v => inferInstanceAs (Decidable (v = w))
  | .truncate _ => inferInstanceAs (Decidable False)
  | .sample _ => inferInstanceAs (Decidable False)
  | .save _ => inferInstanceAs (Decidable False)
  | .terminate _ => inferInstanceAs (Decidable False)

/-- A step of a worker. -/
def Label.isWorker : Label → Bool
  | .sample _ => true
  | .save _ => true
  | .terminate _ => true
  | _ => false

def Label.call : Label → Option Call
  | .write _ data offset => some ⟨data, offset⟩
  | _ => none

/-- What a call of `write` returns. -/
def Event.result : Event → Option (Except PyError Nat)
  | .returned _ r => some r
  | _ => none

namespace Session

variable {s s' : Session} {l : Label} {e : Event} {w : WriterId}

/-- The input once the call that is under way has stored its data. -/
def settled (s : Session) (w : WriterId) : ByteArray :=
  match s.writers w with
  | .storing data offset => Call.apply s.input ⟨data, offset⟩
  | _ => s.input

/-- A writer that is about to start a worker finds the one it has assigned. -/
structure Sound (w : WriterId) (s : Session) : Prop extends Fresh s where
  starting : ∀ n, s.writers w = .starting n → ∃ k, s.gptThread = some k ∧ s.workers k = .created

/-- What a step returns and what the writer owes after it are what it owed before and the length of a new call, and
the input becomes what the new call makes of it. -/
structure Accounts (w : WriterId) (s : Session) (l : Label) (s' : Session) (e : Event) : Prop where
  lengths : e.result.toList ++ (s'.writers w).owed.map .ok =
    (s.writers w).owed.map .ok ++ l.call.toList.map fun c => .ok c.data.size
  input : s'.settled w = l.call.toList.foldl Call.apply (s.settled w)

/-- A step of a worker leaves the writers alone, and the workers that have not been started. -/
theorem Sound.worker (h : Sound w s) (hl : l.isWorker = true) (hstep : s.step l = some (s', e)) :
    Sound w s' ∧ Accounts w s l s' e := by
  have hfresh := h.toFresh.step hstep
  have hkept : ∀ (k : WorkerId) (pc : Worker), s.workers k ≠ .created → ∀ n, s.writers w = .starting n →
      ∃ j, s.gptThread = some j ∧ (s.setWorker k pc).workers j = .created := by
    intro k pc hk n hn
    obtain ⟨j, hj, hcreated⟩ := h.starting n hn
    have hjk : j ≠ k := by
      rintro rfl
      exact hk hcreated
    exact ⟨j, hj, (workers_setWorker_of_ne hjk pc).trans hcreated⟩
  cases Step.of_step hstep with
  | sample hpc => exact ⟨⟨hfresh, hkept _ _ (by simp [hpc])⟩, ⟨(List.append_nil _).symm, rfl⟩⟩
  | save hpc => exact ⟨⟨hfresh, hkept _ .stored (by simp [hpc])⟩, ⟨(List.append_nil _).symm, rfl⟩⟩
  | terminate hpc => exact ⟨⟨hfresh, hkept _ _ (by simp [hpc])⟩, ⟨(List.append_nil _).symm, rfl⟩⟩
  | _ => cases hl

/-- A writer that is not about to start a worker keeps no one waiting. -/
theorem Sound.of_ne (hfresh : Fresh s') (hne : ∀ n, s'.writers w ≠ .starting n) : Sound w s' :=
  ⟨hfresh, fun n hn => absurd hn (hne n)⟩

theorem replaceOrAppend_input (s : Session) (data : ByteArray) (offset : Nat) :
    (s.replaceOrAppend data offset).input = Call.apply s.input ⟨data, offset⟩ := by
  rw [replaceOrAppend, Call.apply]
  split <;> rfl

/-- **Own steps.** A call is accounted for when it begins, and what is owed for it is returned in the end. -/
theorem Sound.own (h : Sound w s) (hl : l.By w) (hstep : s.step l = some (s', e)) :
    Sound w s' ∧ Accounts w s l s' e := by
  have hfresh := h.toFresh.step hstep
  cases Step.of_step hstep with
  | write hpc =>
      subst hl
      refine ⟨.of_ne hfresh (by simp), ?_, ?_⟩
      · simp [hpc, Event.result, Label.call, Writer.owed]
      · simp [hpc, settled, Label.call, setWriter]
  | @store _ data offset hpc =>
      subst hl
      refine ⟨.of_ne hfresh (by simp), ?_, ?_⟩
      · simp [hpc, Event.result, Label.call, Writer.owed]
      · simp [hpc, settled, Label.call, setWriter]
        exact replaceOrAppend_input s data offset
  | leave hpc _ =>
      subst hl
      refine ⟨.of_ne hfresh (by simp), ?_, ?_⟩
      · simp [hpc, Event.result, Label.call, Writer.owed]
      · simp [hpc, settled, Label.call, setWriter]
  | request hpc _ =>
      subst hl
      refine ⟨.of_ne hfresh (by simp), ?_, ?_⟩
      · simp [hpc, Event.result, Label.call, Writer.owed]
      · simp [hpc, settled, Label.call, setWriter]
  | assign hpc =>
      subst hl
      refine ⟨⟨hfresh, fun _ _ => ⟨s.count, rfl, h.created _ (Nat.le_refl _)⟩⟩, ?_, ?_⟩
      · simp [hpc, Event.result, Label.call, Writer.owed]
      · simp [hpc, settled, Label.call, setWriter]
  | start hpc _ _ =>
      subst hl
      refine ⟨.of_ne hfresh (by simp), ?_, ?_⟩
      · simp [hpc, Event.result, Label.call, Writer.owed]
      · simp [hpc, settled, Label.call, setWriter, setWorker]
  | startTwice hpc hk hstarted =>
      subst hl
      obtain ⟨j, hj, hcreated⟩ := h.starting _ hpc
      cases hk.symm.trans hj
      exact absurd hcreated hstarted
  | _ => cases hl

/-- **Progress.** A writer that has not returned can take its next step, whatever the workers do. -/
theorem Sound.progress (h : Sound w s) (hbusy : s.writers w ≠ .idle) : ∃ l s' e, l.By w ∧ l.isInner = true ∧
    s.step l = some (s', e) ∧ (s'.writers w).rank < (s.writers w).rank := by
  cases hpc : s.writers w with
  | idle => exact absurd hpc hbusy
  | storing data offset =>
      have hstep : s.step (.store w) =
          some ((s.replaceOrAppend data offset).setWriter w (.testing data.size), .accepted) := by
        simp only [Session.step, hpc]
      exact ⟨.store w, _, _, rfl, rfl, hstep, by simp [Writer.rank]⟩
  | testing n =>
      cases halive : s.workerAlive with
      | true =>
          have hstep : s.step (.test w) = some (s.setWriter w .idle, .returned w (.ok n)) := by
            simp only [Session.step, hpc, halive, if_true]
          exact ⟨.test w, _, _, rfl, rfl, hstep, by simp [Writer.rank]⟩
      | false =>
          have hstep : s.step (.test w) = some (s.setWriter w (.assigning n), .quiet) := by
            simp only [Session.step, hpc, halive, Bool.false_eq_true, if_false]
          exact ⟨.test w, _, _, rfl, rfl, hstep, by simp [Writer.rank]⟩
  | assigning n =>
      have hstep : s.step (.assign w) = some ({ s.setWriter w (.starting n) with
          gptThread := some s.count, count := s.count + 1 }, .quiet) := by
        simp only [Session.step, hpc]
      exact ⟨.assign w, _, _, rfl, rfl, hstep, by simp [setWriter, Writer.rank]⟩
  | starting n =>
      obtain ⟨k, hk, hcreated⟩ := h.starting n hpc
      have hstep : s.step (.start w) =
          some ((s.setWorker k .started).setWriter w .idle, .returned w (.ok n)) := by
        simp only [Session.step, hpc, hk, hcreated]
      exact ⟨.start w, _, _, rfl, rfl, hstep, by simp [Writer.rank]⟩

/-- Workers return nothing. -/
theorem result_worker (hl : l.isWorker = true) (hstep : s.step l = some (s', e)) : e.result = none := by
  cases Step.of_step hstep with
  | sample _ => rfl
  | save _ => rfl
  | terminate _ => rfl
  | _ => cases hl

theorem call_inner (hl : l.isInner = true) : l.call = none := by
  cases l with
  | write w data offset => cases hl
  | _ => rfl

end Session

/-- A call of `write`, wherever it leads. -/
def FsLabel.call : FsLabel → Option Call
  | .write _ _ data offset => some ⟨data, offset⟩
  | _ => none

def FsEvent.result : FsEvent → Option (Except PyError Nat)
  | .inner e => e.result
  | _ => none

/-- The bytes that are read; a slice of an attribute that is no file of a session has none. -/
def ReadResult.toBytes : ReadResult → ByteArray
  | .bytes b => b
  | .attribute _ => .empty

namespace Gptfs

/-- The steps of a writer that writes to the input of a session and does nothing else, of the workers of all sessions,
and of those who only look. -/
def Admitted (name : String) (o : ObjId) (w : WriterId) : FsLabel → Prop
  | .write v path _ _ => v = w ∧ parts path = [name, "input"]
  | .inner o' l => l.isWorker = true ∨ o' = o ∧ l.By w
  | .mkdir _ => False
  | .rmdir _ => False
  | .truncate _ _ => False
  | _ => True

instance (name : String) (o : ObjId) (w : WriterId) : DecidablePred (Admitted name o w)
  | .write _ _ _ _ => inferInstanceAs (Decidable (_ ∧ _))
  | .inner _ _ => inferInstanceAs (Decidable (_ ∨ _ ∧ _))
  | .mkdir _ => inferInstanceAs (Decidable False)
  | .rmdir _ => inferInstanceAs (Decidable False)
  | .truncate _ _ => inferInstanceAs (Decidable False)
  | .getattr _ => inferInstanceAs (Decidable True)
  | .readdir _ => inferInstanceAs (Decidable True)
  | .openFile _ => inferInstanceAs (Decidable True)
  | .read _ _ _ => inferInstanceAs (Decidable True)
  | .unlink _ => inferInstanceAs (Decidable True)

def calls (ls : List FsLabel) : List Call := ls.filterMap FsLabel.call

/-- What the calls of a run have returned. -/
def results (es : List FsEvent) : List (Except PyError Nat) := es.filterMap FsEvent.result

/-- Reads of consecutive ranges, each with the state in which it takes place. -/
def readChunks (path : String) : Nat → List (Gptfs × Nat) → ByteArray
  | _, [] => .empty
  | offset, (fs, size) :: rs => (fs.read path size offset).toBytes ++ readChunks path (offset + size) rs

/-- A state that is reached without another call. -/
def Later (name : String) (o : ObjId) (w : WriterId) (fs t : Gptfs) : Prop :=
  ∃ ls es, (∀ l ∈ ls, Admitted name o w l) ∧ calls ls = [] ∧ run step fs ls = some (t, es)

/-- What a sequence of calls does. The calls return the lengths of their data, in order, and the writer is never stuck.
Once it has returned, the input is what the calls make of it one after the other, the size is that of the input,
reads of consecutive ranges give the input, and a buffer that was written in chunks from offset 0 is the input. -/
structure Written (name path : String) (o : ObjId) (w : WriterId) (fs : Gptfs) (ls : List FsLabel) (t : Gptfs)
    (es : List FsEvent) : Prop where
  returned : results es <+: (calls ls).map fun c => .ok c.data.size
  finishes : ∃ ls' t' es', ls'.length ≤ 4 ∧ (∀ l ∈ ls', ∃ a, l = .inner o a ∧ a.By w) ∧
    run step t ls' = some (t', es') ∧ (t'.objs o).writers w = .idle
  size : t.getattr path = .ok (.file (t.objs o).input.size)
  all : (t.objs o).writers w = .idle → results es = (calls ls).map fun c => .ok c.data.size
  content : (t.objs o).writers w = .idle → (t.objs o).input = (calls ls).foldl Call.apply (fs.objs o).input
  reads : (t.objs o).writers w = .idle → ∀ rs, (∀ r ∈ rs, Later name o w t r.1) →
    (t.objs o).input.size ≤ (rs.map Prod.snd).sum → readChunks path 0 rs = (t.objs o).input
  chunks : (t.objs o).writers w = .idle → ∀ c cs, calls ls = chunked 0 (c :: cs) →
    (t.objs o).input = concat (c :: cs)

variable {fs fs' t : Gptfs} {l : FsLabel} {e : FsEvent} {name path : String} {o : ObjId} {w : WriterId}

/-- The session is there and its writer is accounted for. -/
structure Writing (name : String) (o : ObjId) (w : WriterId) (fs : Gptfs) : Prop where
  found : fs.find name = some o
  lt : o < fs.count
  sound : (fs.objs o).Sound w

/-- The accounts of a run, or of one step of it. -/
structure Accounts (o : ObjId) (w : WriterId) (fs : Gptfs) (cs : List Call) (t : Gptfs)
    (rs : List (Except PyError Nat)) : Prop where
  lengths : rs ++ ((t.objs o).writers w).owed.map .ok =
    ((fs.objs o).writers w).owed.map .ok ++ cs.map fun c => .ok c.data.size
  input : (t.objs o).settled w = cs.foldl Call.apply ((fs.objs o).settled w)

theorem Accounts.refl (o : ObjId) (w : WriterId) (fs : Gptfs) : Accounts o w fs [] fs [] :=
  ⟨(List.append_nil _).symm, rfl⟩

theorem Accounts.trans {cs cs' : List Call} {rs rs' : List (Except PyError Nat)} (h : Accounts o w fs cs fs' rs)
    (h' : Accounts o w fs' cs' t rs') : Accounts o w fs (cs ++ cs') t (rs ++ rs') := by
  refine ⟨?_, ?_⟩
  · calc rs ++ rs' ++ ((t.objs o).writers w).owed.map .ok
        = rs ++ (((fs'.objs o).writers w).owed.map .ok ++ cs'.map fun c => .ok c.data.size) := by
          rw [List.append_assoc, h'.lengths]
      _ = ((fs.objs o).writers w).owed.map .ok ++ (cs.map fun c => .ok c.data.size) ++
            cs'.map fun c => .ok c.data.size := by rw [← List.append_assoc, h.lengths]
      _ = ((fs.objs o).writers w).owed.map .ok ++ (cs ++ cs').map fun c => .ok c.data.size := by
          rw [List.map_append, List.append_assoc]
  · calc (t.objs o).settled w = cs'.foldl Call.apply ((fs'.objs o).settled w) := h'.input
      _ = (cs ++ cs').foldl Call.apply ((fs.objs o).settled w) := by rw [h.input, List.foldl_append]

/-- Nothing happens to the session. -/
theorem Accounts.of_obj (hobj : fs'.objs o = fs.objs o) : Accounts o w fs [] fs' [] := by
  constructor
  · rw [hobj]
    exact (List.append_nil _).symm
  · rw [hobj]
    rfl

theorem Writing.of_same (h : Writing name o w fs) (hsessions : fs'.sessions = fs.sessions)
    (hobj : fs'.objs o = fs.objs o) (hcount : fs'.count = fs.count) : Writing name o w fs' := by
  refine ⟨?_, hcount ▸ h.lt, hobj ▸ h.sound⟩
  rw [find, hsessions]
  exact h.found

/-- The session takes a step of its writer or of a worker. -/
theorem Writing.stepObj (h : Writing name o w fs) {a : Label} (ha : a.isWorker = true ∨ a.By w)
    (hstep : fs.stepObj o a = some (fs', e)) :
    Writing name o w fs' ∧ Accounts o w fs a.call.toList fs' e.result.toList := by
  obtain ⟨s, ev, hs, rfl, rfl⟩ := stepObj_eq_some hstep
  have hacc : s.Sound w ∧ (fs.objs o).Accounts w a s ev := ha.elim (h.sound.worker · hs) (h.sound.own · hs)
  refine ⟨⟨h.found, h.lt, ?_⟩, ?_, ?_⟩
  · rw [objs_setObj]
    exact hacc.1
  · rw [objs_setObj]
    exact hacc.2.lengths
  · rw [objs_setObj]
    exact hacc.2.input

/-- **One step.** -/
theorem writing_step (h : Writing name o w fs) (hl : Admitted name o w l) (hstep : fs.step l = some (fs', e)) :
    Writing name o w fs' ∧ Accounts o w fs l.call.toList fs' e.result.toList := by
  cases l with
  | getattr path =>
      cases hstep
      exact ⟨h, .refl o w fs⟩
  | readdir path =>
      cases hstep
      exact ⟨h, .refl o w fs⟩
  | read path size offset =>
      cases hstep
      exact ⟨h, .refl o w fs⟩
  | unlink path =>
      cases hstep
      exact ⟨h, .refl o w fs⟩
  | openFile path =>
      cases hstep
      obtain ⟨hsessions, hobjs, hcount⟩ := openFile_same fs path
      exact ⟨h.of_same hsessions (congrFun hobjs o) hcount, .of_obj (congrFun hobjs o)⟩
  | mkdir path => exact hl.elim
  | rmdir path => exact hl.elim
  | truncate path length => exact hl.elim
  | write v path data offset =>
      obtain ⟨rfl, hpath⟩ := hl
      have htarget : fs.writeTarget path = .ok o := by simp [writeTarget, hpath, h.found]
      simp only [step, htarget] at hstep
      have hby : (Label.write v data offset).By v := rfl
      exact h.stepObj (.inr hby) hstep
  | inner o' a =>
      simp only [step] at hstep
      split at hstep
      · rename_i hinner
        by_cases ho : o' = o
        · subst ho
          have hacc := h.stepObj (hl.imp_right And.right) hstep
          rwa [Session.call_inner hinner.2] at hacc
        · obtain ⟨s, ev, hs, rfl, rfl⟩ := stepObj_eq_some hstep
          have hworker : a.isWorker = true := hl.resolve_right fun h => ho h.1
          have hobj : (fs.setObj o' s).objs o = fs.objs o := objs_setObj_of_ne (Ne.symm ho) fs s
          have hresult : (FsEvent.inner ev).result = none := Session.result_worker hworker hs
          rw [hresult]
          exact ⟨h.of_same rfl hobj rfl, .of_obj hobj⟩
      · cases hstep

theorem filterMap_cons {α β : Type} (f : α → Option β) (a : α) (l : List α) :
    (a :: l).filterMap f = (f a).toList ++ l.filterMap f := by
  rw [List.filterMap_cons]
  cases f a <;> rfl

/-- **Runs.** The accounts of the steps add up. -/
theorem writing_run {ls : List FsLabel} {es : List FsEvent} (h : Writing name o w fs)
    (hls : ∀ l ∈ ls, Admitted name o w l) (hrun : run step fs ls = some (t, es)) :
    Writing name o w t ∧ Accounts o w fs (calls ls) t (results es) := by
  induction ls generalizing fs es with
  | nil =>
      cases hrun
      exact ⟨h, .refl o w t⟩
  | cons l ls ih =>
      obtain ⟨hl, hls⟩ := List.forall_mem_cons.mp hls
      obtain ⟨fs₁, e, es₁, hstep, hrest, rfl⟩ := run_cons_eq_some_iff.mp hrun
      obtain ⟨h₁, hacc₁⟩ := writing_step h hl hstep
      obtain ⟨h₂, hacc₂⟩ := ih h₁ hls hrest
      rw [calls, results, filterMap_cons, filterMap_cons]
      exact ⟨h₂, hacc₁.trans hacc₂⟩

/-- The writer's own steps bring it to an end. -/
theorem writing_finishes (h : Writing name o w fs) : ∃ ls t es, ls.length ≤ ((fs.objs o).writers w).rank ∧
    (∀ l ∈ ls, ∃ a, l = .inner o a ∧ a.By w) ∧ run step fs ls = some (t, es) ∧ (t.objs o).writers w = .idle := by
  induction hrank : ((fs.objs o).writers w).rank using Nat.strongRecOn generalizing fs with
  | ind n ih =>
      by_cases hidle : (fs.objs o).writers w = .idle
      · exact ⟨[], fs, [], Nat.zero_le _, nofun, rfl, hidle⟩
      · obtain ⟨a, s, ev, hby, hinner, hs, hlt⟩ := h.sound.progress hidle
        have hstep : fs.step (.inner o a) = some (fs.setObj o s, .inner ev) := by
          simp only [step, if_pos (And.intro h.lt hinner), stepObj, hs]
        have hadmitted : Admitted name o w (.inner o a) := Or.inr ⟨rfl, hby⟩
        have hnext := (writing_step h hadmitted hstep).1
        have hless : (((fs.setObj o s).objs o).writers w).rank < n := by
          rw [objs_setObj, ← hrank]
          exact hlt
        obtain ⟨ls, t, es, hlen, hls, hrun, hdone⟩ := ih _ hless hnext rfl
        have hwhole := run_cons_eq_some_iff.mpr ⟨_, _, _, hstep, hrun, rfl⟩
        refine ⟨.inner o a :: ls, t, .inner ev :: es, ?_, ?_, hwhole, hdone⟩
        · rw [List.length_cons]
          omega
        · exact List.forall_mem_cons.mpr ⟨⟨a, rfl, hby⟩, hls⟩

theorem Accounts.of_idle {cs : List Call} {rs : List (Except PyError Nat)} (h : Accounts o w fs cs t rs)
    (hfs : (fs.objs o).writers w = .idle) (ht : (t.objs o).writers w = .idle) :
    rs = cs.map (fun c => .ok c.data.size) ∧ (t.objs o).input = cs.foldl Call.apply (fs.objs o).input := by
  have hlengths := h.lengths
  have hinput := h.input
  rw [hfs, ht] at hlengths
  rw [Session.settled, Session.settled, hfs, ht] at hinput
  exact ⟨by simpa [Writer.owed] using hlengths, hinput⟩

/-- Without another call the input stays as it is. -/
theorem Writing.later (h : Writing name o w fs) (hidle : (fs.objs o).writers w = .idle) (hlater : Later name o w fs t) :
    Writing name o w t ∧ (t.objs o).input = (fs.objs o).input := by
  obtain ⟨ls, es, hls, hnone, hrun⟩ := hlater
  obtain ⟨hend, hacc⟩ := writing_run h hls hrun
  rw [hnone] at hacc
  have hlengths := hacc.lengths
  rw [hidle, Writer.owed, List.map_nil, List.map_nil, List.append_nil, List.append_eq_nil_iff, List.map_eq_nil_iff]
    at hlengths
  exact ⟨hend, (hacc.of_idle hidle (Writer.eq_idle_of_owed hlengths.2)).2⟩

/-- Reads of consecutive ranges give what is between the first and the end of the last. -/
theorem readChunks_eq {b : ByteArray} (offset : Nat) (rs : List (Gptfs × Nat))
    (hrs : ∀ r ∈ rs, ∀ size offset, r.1.read path size offset = .bytes (b.extract offset (offset + size))) :
    readChunks path offset rs = b.extract offset (offset + (rs.map Prod.snd).sum) := by
  induction rs generalizing offset with
  | nil => simp [readChunks]
  | cons r rs ih =>
      obtain ⟨hr, hrs⟩ := List.forall_mem_cons.mp hrs
      calc readChunks path offset (r :: rs)
          = b.extract offset (offset + r.2) ++
              b.extract (offset + r.2) (offset + r.2 + (rs.map Prod.snd).sum) := by
            rw [readChunks, hr, ReadResult.toBytes, ih _ hrs]
        _ = b.extract (min offset (offset + r.2)) (max (offset + r.2) (offset + r.2 + (rs.map Prod.snd).sum)) :=
            ByteArray.extract_append_extract
        _ = b.extract offset (offset + ((r :: rs).map Prod.snd).sum) := by
            rw [List.map_cons, List.sum_cons]
            congr 1
            · omega
            · omega

theorem Writing.read (h : Writing name o w fs) (hpath : parts path = [name, "input"]) (size offset : Nat) :
    fs.read path size offset = .bytes ((fs.objs o).input.extract offset (offset + size)) := by
  simp [Gptfs.read, hpath, h.found, Session.file]

theorem Writing.getattr (h : Writing name o w fs) (hpath : parts path = [name, "input"]) :
    fs.getattr path = .ok (.file (fs.objs o).input.size) := by
  rw [getattr_of_parts hpath, h.found]
  rfl

/-- In a reachable state workers are numbered in order. -/
theorem fresh_run {ls : List FsLabel} {es : List FsEvent} (hrun : run step init ls = some (fs, es)) (o : ObjId) :
    (fs.objs o).Fresh := by
  refine run_invariant (fun _ fs => ∀ o, (fs.objs o).Fresh) (fun _ _ => True) ?_ (fun _ => Session.fresh_new)
    (Along.of_forall _ _ fun _ _ _ => trivial) hrun o
  intro es fs l fs' e h _ hstep o
  rcases step_objs hstep o with hobj | hobj | ⟨a, ev, hobj⟩
  · rw [hobj]
    exact Session.fresh_new
  · rw [hobj]
    exact h o
  · exact (h o).step hobj

/-- **Writes.** In every reachable state of the file system a writer that writes to the input of a session, at whatever
offsets, behaves as described, whatever the workers of all sessions do. -/
theorem written_run {pre ls : List FsLabel} {ds es : List FsEvent} (hpre : run step init pre = some (fs, ds))
    (hfound : fs.find name = some o) (hidle : (fs.objs o).writers w = .idle) (hpath : parts path = [name, "input"])
    (hls : ∀ l ∈ ls, Admitted name o w l) (hrun : run step fs ls = some (t, es)) :
    Written name path o w fs ls t es := by
  have hbegin : Writing name o w fs :=
    ⟨hfound, (wf_run hpre).below name o hfound, .of_ne (fresh_run hpre o) (by simp [hidle])⟩
  obtain ⟨hend, hacc⟩ := writing_run hbegin hls hrun
  have hdone := fun hidle' => hacc.of_idle hidle hidle'
  refine ⟨?_, ?_, hend.getattr hpath, fun h => (hdone h).1, fun h => (hdone h).2, fun h rs hrs hsize => ?_,
    fun h c cs hcs => ?_⟩
  · have hlengths := hacc.lengths
    rw [hidle] at hlengths
    exact ⟨_, hlengths⟩
  · obtain ⟨ls', t', es', hlen, hfinish⟩ := writing_finishes hend
    exact ⟨ls', t', es', Nat.le_trans hlen (Writer.rank_le _), hfinish⟩
  · have hread : ∀ r ∈ rs, ∀ size offset,
        r.1.read path size offset = .bytes ((t.objs o).input.extract offset (offset + size)) := by
      intro r hr size offset
      obtain ⟨hlater, hsame⟩ := hend.later h (hrs r hr)
      rw [hlater.read hpath, hsame]
    rw [readChunks_eq 0 rs hread, Nat.zero_add, ← Nat.max_eq_left hsize, ByteArray.extract_zero_max_size]
  · rw [(hdone h).2, hcs, foldl_chunked_zero]

/-- Two bytes in two chunks, the second while the worker of the first is alive. -/
def twoChunks : List FsLabel :=
  [.write 0 "/s/input" "a".toUTF8 0, .inner 0 (.store 0), .inner 0 (.test 0), .inner 0 (.assign 0),
    .inner 0 (.start 0), .inner 0 (.sample 0), .write 0 "/s/input" "b".toUTF8 1, .inner 0 (.store 0),
    .inner 0 (.test 0)]

theorem twoChunks_written : ∃ t es, run step withSession twoChunks = some (t, es) ∧
    results es = [.ok 1, .ok 1] ∧ (t.objs 0).input = concat ["a".toUTF8, "b".toUTF8] ∧
      Written "s" "/s/input" 0 0 withSession twoChunks t es := by
  have hpre : ∃ ds, run step init [.mkdir "/s"] = some (withSession, ds) := ⟨_, rfl⟩
  have hend : ∃ t es, run step withSession twoChunks = some (t, es) ∧ (t.objs 0).writers 0 = .idle :=
    ⟨_, _, rfl, rfl⟩
  obtain ⟨ds, hpre⟩ := hpre
  obtain ⟨t, es, hrun, hidle⟩ := hend
  have hls : ∀ l ∈ twoChunks, Admitted "s" 0 0 l := by decide
  have hwritten : Written "s" "/s/input" 0 0 withSession twoChunks t es :=
    written_run hpre rfl rfl (by decide) hls hrun
  exact ⟨t, es, hrun, hwritten.all hidle, hwritten.chunks hidle _ ["b".toUTF8] rfl, hwritten⟩

end Gptfs

end OsHw.Gpt
