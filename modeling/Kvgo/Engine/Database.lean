import Kvgo.Lib.Writes
import Kvgo.Engine.Compaction

/-! The database (`db.go`): a key lives in the shard that its hash selects. The server
applies the committed entries in their order through `PutAsync`; after a restart it applies
them again from some boundary, over shards that have been flushed to different points. -/

namespace Kvgo

namespace Engine

def hash (key : Bytes) : UInt32 :=
  key.foldl (fun h b => (h ^^^ b.toUInt32) * 16777619) 2166136261

def numShards : Nat := 256

structure DB where
  shards : Fin numShards → Shard := fun _ => {}

def shardOf (key : Bytes) : Fin numShards :=
  ⟨(hash key).toNat % numShards, Nat.mod_lt _ (by decide)⟩

namespace DB

def getShard (db : DB) (key : Bytes) : Shard := db.shards (shardOf key)

def putAsync (db : DB) (key value : Bytes) : DB where
  shards := Function.update db.shards (shardOf key) ((db.getShard key).putAsync key value)

def contents (db : DB) (key : Bytes) : Option Bytes := (db.getShard key).contents key

end DB

abbrev PutEntry := Bytes × Bytes

def DB.applyPuts (db : DB) (entries : List PutEntry) : DB :=
  entries.foldl (fun db e => db.putAsync e.1 e.2) db

def Shard.applyPuts (s : Shard) (entries : List PutEntry) : Shard :=
  entries.foldl (fun s e => s.putAsync e.1 e.2) s

theorem Shard.putAsync_contents (s : Shard) (key value : Bytes) :
    (s.putAsync key value).contents = Function.update s.contents key (some value) := by
  funext other
  simp only [Shard.putAsync, Shard.putInternal, Shard.contents, Shard.setEntry_data,
    Function.update_apply]
  split
  · rfl
  · rfl

theorem Shard.applyPuts_contents (s : Shard) (entries : List PutEntry) :
    (s.applyPuts entries).contents = Writes.assign s.contents entries := by
  induction entries using List.reverseRecOn with
  | nil => rfl
  | append_singleton entries e ih =>
    rw [Writes.assign_snoc, ← ih, ← Shard.putAsync_contents, Shard.applyPuts, List.foldl_append]
    rfl

theorem DB.putAsync_contents (db : DB) (key value : Bytes) :
    (db.putAsync key value).contents = Function.update db.contents key (some value) := by
  funext other
  simp only [DB.contents, DB.getShard, DB.putAsync, Function.update_apply]
  split
  · next same =>
    rw [same, Shard.putAsync_contents, Function.update_apply]
  · next apart =>
    rw [if_neg (fun same => apart (congrArg shardOf same))]

theorem DB.applyPuts_contents (db : DB) (entries : List PutEntry) :
    (db.applyPuts entries).contents = Writes.assign db.contents entries := by
  induction entries using List.reverseRecOn with
  | nil => rfl
  | append_singleton entries e ih =>
    rw [Writes.assign_snoc, ← ih, ← DB.putAsync_contents, DB.applyPuts, List.foldl_append]
    rfl

def flushedShards (entries : List PutEntry) (position : Fin numShards → Nat) : DB where
  shards i := Shard.applyPuts {} ((entries.take (position i)).filter (fun e => shardOf e.1 = i))

/-- Each shard holds, in memory or in its files, what the puts to it up to its own position
make of an empty shard. -/
def FlushedTo (db : DB) (entries : List PutEntry) (position : Fin numShards → Nat) : Prop :=
  ∀ i, (db.shards i).contents = ((flushedShards entries position).shards i).contents

theorem FlushedTo.contents {db : DB} {entries : List PutEntry} {position : Fin numShards → Nat}
    (flushed : FlushedTo db entries position) (key : Bytes) :
    db.contents key = Writes.last (entries.take (position (shardOf key))) key := by
  rw [DB.contents, DB.getShard, flushed, flushedShards, Shard.applyPuts_contents]
  exact Writes.last_filter (entries.take (position (shardOf key)))
    (fun other => decide (shardOf other = shardOf key)) (by simp)

/-- Replay from a boundary that every shard has passed gives the map of the whole history. -/
theorem replay_over_flushed_shards (entries : List PutEntry) (boundary : Nat)
    (position : Fin numShards → Nat) (passed : ∀ i, boundary ≤ position i) (db : DB)
    (flushed : FlushedTo db entries position) (key : Bytes) :
    (db.applyPuts (entries.drop boundary)).contents key =
      (DB.applyPuts {} entries).contents key := by
  rw [DB.applyPuts_contents, DB.applyPuts_contents, Writes.assign_eq, flushed.contents,
    Writes.last_replay entries (passed (shardOf key))]
  rfl

/-- Two puts to one key and one to another, replayed from the second over shards of which
one has seen the first put only. -/
theorem replay_over_uneven_shards :
    ((flushedShards [([97], [1]), ([98], [2]), ([97], [3])]
        (fun i => if i = shardOf [97] then 3 else 1)).applyPuts [([98], [2]), ([97], [3])]).contents
      [97] = some [3] :=
  replay_over_flushed_shards [([97], [1]), ([98], [2]), ([97], [3])] 1
    (fun i => if i = shardOf [97] then 3 else 1) (fun i => by split <;> omega) _
    (fun _ => rfl) [97]

end Engine

end Kvgo
