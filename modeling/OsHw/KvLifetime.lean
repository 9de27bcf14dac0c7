import OsHw.KvLinearizable

/-! How long a written value stays readable. The store lives in the leader's `task_struct` and
`kv_store_exit` empties it when the leader goes through `do_exit`, whether or not other threads of the
group are left. A value is lost exactly when an iteration of that loop finds a pair while some thread of
the group lives. -/

namespace OsHw.Kv

namespace Kernel

variable {s s' : Kernel} {x t : TaskPtr} {tx tx' : Task} {k v : Int32} {e : Event} {es : List Event}

theorem readKv_of_lookup (h : s.lookup tx.groupLeader k = some v) : s.readKv tx k = some v.toInt := by
  rw [readKv_eq, h]
  cases hk : bucketIdx k with
  | none =>
      rw [lookup, hk] at h
      cases h
  | some i => rfl

end Kernel

end OsHw.Kv
