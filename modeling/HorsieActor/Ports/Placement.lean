import HorsieActor.Ports.Delivery
import HorsieActor.Verified.BigEndian
import HorsieActor.Verified.OrdMap

/-!
# Who hosts what

Port of `src/cluster/placement.rs`: rendezvous placement over the live members.
The member set is ordered, because `max_by_key` walks it in order and keeps the
last of several members with the highest score.
-/

namespace HorsieActor.Ports

open HorsieActor.Verified

/-- One FNV-1a round. -/
def eat (hash : UInt64) (byte : UInt8) : UInt64 :=
  (hash ^^^ byte.toUInt64) * 0x00000100000001b3

/-- The separator is never a byte of UTF-8, so no id can contain one. -/
def separator : UInt8 := 0xff

/-- The bytes a shard and a member are hashed as. -/
def scoreBytes (typeName shardId : String) (node : NodeId) : List UInt8 :=
  typeName.toUTF8.data.toList ++ [separator] ++ shardId.toUTF8.data.toList ++ [separator] ++
    toBeBytes node.idx

/-- How well one member suits one shard.  Highest wins. -/
def score (typeName shardId : String) (node : NodeId) : UInt64 :=
  (scoreBytes typeName shardId node).foldl eat 0xcbf29ce484222325

/-- `Iterator::max_by_key`: of several highest, the last. -/
def maxByKey {α : Type} (key : α → UInt64) : List α → Option α
  | [] => none
  | x :: rest => some (rest.foldl (fun best y => if key y < key best then best else y) x)

structure PlacementTable where
  members : OrdMap NodeId Unit

namespace PlacementTable

def new : PlacementTable := ⟨OrdMap.empty⟩

/-- Replace the members placement may use. -/
def setMembers (_ : PlacementTable) (members : List NodeId) : PlacementTable :=
  ⟨members.foldl (fun set node => set.insert node ()) OrdMap.empty⟩

/-- Which node hosts a shard; `none` when nothing is alive. -/
def ownerOf (table : PlacementTable) (typeName shardId : String) : Option NodeId :=
  maxByKey (score typeName shardId) (table.members.rows.map Prod.fst)

end PlacementTable

end HorsieActor.Ports
