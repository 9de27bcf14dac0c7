import Mathlib.Data.List.Nodup
import Mathlib.Logic.Function.Basic

/-! A log that is written to volumes. A volume has a name, and to open one is to empty what is stored under its name,
so a volume can be read as long as no later one has taken the name. When the names come back only after a while, as in
a ring, the last volumes are all there and hold the end of the log. -/

namespace OsHw

structure Volume (κ α : Type) where
  name : κ
  entries : List α

namespace Volume

variable {κ ι α : Type}

def rename (f : κ → ι) (v : Volume κ α) : Volume ι α := ⟨f v.name, v.entries⟩

/-- What was written, to one volume after the other. -/
def log (vs : List (Volume κ α)) : List α := vs.flatMap Volume.entries

theorem log_append (us vs : List (Volume κ α)) : log (us ++ vs) = log us ++ log vs := List.flatMap_append

theorem log_rename (f : κ → ι) (vs : List (Volume κ α)) : log (vs.map (rename f)) = log vs :=
  List.flatMap_map (rename f) entries vs

theorem names_rename (f : κ → ι) (vs : List (Volume κ α)) :
    (vs.map (rename f)).map name = (vs.map name).map f := by
  rw [List.map_map, List.map_map]
  rfl

variable [DecidableEq κ]

/-- What is stored after the volumes were written, the first one first. -/
def disk (d : κ → Option (List α)) (vs : List (Volume κ α)) : κ → Option (List α) :=
  vs.foldl (fun d v => Function.update d v.name (some v.entries)) d

/-- What is read from the volumes with these names; all of them have to be there. -/
def readAll (d : κ → Option (List α)) (names : List κ) : Option (List α) := (names.mapM d).map List.flatten

variable {d d' : κ → Option (List α)} {us vs : List (Volume κ α)} {v : Volume κ α}

theorem disk_append (d : κ → Option (List α)) (us vs : List (Volume κ α)) :
    disk d (us ++ vs) = disk (disk d us) vs := List.foldl_append

theorem disk_concat (d : κ → Option (List α)) (vs : List (Volume κ α)) (v : Volume κ α) :
    disk d (vs ++ [v]) = Function.update (disk d vs) v.name (some v.entries) := disk_append d vs [v]

/-- What no volume was named stays as it was. -/
theorem disk_of_notMem {k : κ} (h : k ∉ vs.map name) : disk d vs k = d k := by
  induction vs generalizing d with
  | nil => rfl
  | cons v vs ih =>
      rw [List.map_cons, List.mem_cons, not_or] at h
      calc disk d (v :: vs) k = disk (Function.update d v.name (some v.entries)) vs k := rfl
        _ = Function.update d v.name (some v.entries) k := ih h.2
        _ = d k := Function.update_of_ne h.1 _ _

/-- A volume whose name was not used again is there. -/
theorem disk_of_mem (hnodup : (vs.map name).Nodup) (hv : v ∈ vs) : disk d vs v.name = some v.entries := by
  obtain ⟨us, ws, rfl⟩ := List.append_of_mem hv
  rw [List.map_append, List.map_cons] at hnodup
  have hlast : v.name ∉ ws.map name := (List.nodup_cons.mp (List.nodup_append.mp hnodup).2.1).1
  calc disk d (us ++ v :: ws) v.name = disk (Function.update (disk d us) v.name (some v.entries)) ws v.name := by
        rw [disk_append]
        rfl
    _ = Function.update (disk d us) v.name (some v.entries) v.name := disk_of_notMem hlast
    _ = some v.entries := Function.update_self ..

omit [DecidableEq κ] in
theorem readAll_of_forall (h : ∀ v ∈ vs, d v.name = some v.entries) : readAll d (vs.map name) = some (log vs) := by
  induction vs with
  | nil => rfl
  | cons v vs ih =>
      obtain ⟨hv, hvs⟩ := List.forall_mem_cons.mp h
      have hrest := ih hvs
      rw [readAll, Option.map_eq_some_iff] at hrest ⊢
      obtain ⟨contents, hcontents, hflat⟩ := hrest
      refine ⟨v.entries :: contents, ?_, ?_⟩
      · rw [List.map_cons, List.mapM_cons, hv, hcontents]
        rfl
      · rw [List.flatten_cons, hflat]
        rfl

/-- **The end of the log** is read from the last volumes, when their names are different. -/
theorem readAll_disk (hnodup : (vs.map name).Nodup) :
    readAll (disk d (us ++ vs)) (vs.map name) = some (log vs) := by
  apply readAll_of_forall
  intro v hv
  rw [disk_append]
  exact disk_of_mem hnodup hv

end Volume

end OsHw
