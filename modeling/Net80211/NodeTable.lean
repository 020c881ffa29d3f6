import Mathlib.Algebra.Ring.Nat
import Mathlib.Logic.Function.Basic

/-!
# Node tables

`ieee80211_iterate_nodes` of `net80211/ieee80211_node.c`, with what the scan results of the
supplicant are collected from (`port/wpa/driver_net80211.c`). The callback runs without the lock
of the table, so other contexts change the table between two rounds of the loop: `others k` is
what they do during the callback number `k`. The references that are held for the callback are
left out.
-/

namespace Net80211

open List Function

variable {ν ρ : Type} [DecidableEq ν]

/-- A node table while `ieee80211_iterate_nodes` goes over it. `visited` are the nodes the
callback was called for. -/
structure IterTable (ν : Type) where
  nodes : List ν
  niScangen : ν → UInt32
  ntScangen : UInt32
  visited : List ν

/-- What others do to a table. `insert` is `ieee80211_setup_node` of a new node, which is zero;
`beacon` is `ieee80211_add_scan` of a frame of the node. -/
inductive TableOp (ν : Type) where
  | insert (n : ν)
  | remove (n : ν)
  | beacon (n : ν)
  deriving DecidableEq

def IterTable.op (t : IterTable ν) : TableOp ν → IterTable ν
  | .insert n =>
    if n ∈ t.nodes then t
    else { t with nodes := t.nodes ++ [n], niScangen := update t.niScangen n 0 }
  | .remove n => { t with nodes := t.nodes.erase n }
  | .beacon n => { t with niScangen := update t.niScangen n t.ntScangen }

def IterTable.visit (t : IterTable ν) (gen : UInt32) (n : ν) : IterTable ν :=
  { t with niScangen := update t.niScangen n gen, visited := t.visited ++ [n] }

/-- The rounds from `restart` on; no fuel is left where this is `none`. -/
def iterRounds (gen : UInt32) (others : Nat → List (TableOp ν)) :
    Nat → IterTable ν → Option (IterTable ν)
  | 0, _ => none
  | fuel + 1, t =>
    if gen ≠ t.ntScangen then some t
    else
      match t.nodes.find? (t.niScangen · ≠ gen) with
      | none => some t
      | some n =>
        iterRounds gen others fuel ((others t.visited.length).foldl .op (t.visit gen n))

/-- `ieee80211_iterate_nodes`. -/
def iterateNodes (others : Nat → List (TableOp ν)) (fuel : Nat) (t : IterTable ν) :
    Option (IterTable ν) :=
  let gen := t.ntScangen + 1
  iterRounds gen others fuel { t with ntScangen := gen, visited := [] }

/-- `freertos_collect_cb`; `entry` is `none` where there is no memory for an entry. -/
def collectCb (entry : ν → Option ρ) (res : List ρ) (n : ν) : List ρ :=
  if res.length ≥ 64 then res
  else
    match entry n with
    | none => res
    | some r => res ++ [r]

/-- `freertos_get_scan_results2`, from the calls of the callback. -/
def getScanResults2 (entry : ν → Option ρ) (visited : List ν) : List ρ :=
  visited.foldl (collectCb entry) []

end Net80211
