import Net80211.Iwm.Cmd
import Net80211.Lib.Bytes

/-!
# Reading a section of the NVM

`iwm_nvm_read_chunk` and `iwm_nvm_read_section` of `driver/iwm/if_iwm.c`. The firmware is a function
from a command to its response or the error of `iwm_send_cmd`. `data` is the memory from the start
of the caller's buffer on.

The loop of `iwm_nvm_read_section` runs on fuel: `none` is a run that has not returned yet.
-/

namespace Net80211.Iwm

open Lib

/-- `struct iwm_nvm_access_cmd`, for reading. -/
structure NvmAccessCmd where
  type : UInt16
  offset : UInt16
  length : UInt16
  deriving DecidableEq, Repr

/-- The response: whether `IWM_CMD_FAILED_MSK` is set, and `struct iwm_nvm_access_resp`. -/
structure NvmAccessResp where
  failed : Bool
  offset : UInt16
  length : UInt16
  status : UInt16
  data : Nat → UInt8

/-- `IWM_NVM_DEFAULT_CHUNK_SIZE`. -/
def nvmDefaultChunkSize : UInt16 := 2048

/-- `iwm_nvm_read_chunk`: the memory and `*len`. The first statement of the function sets
`offset`. -/
def nvmReadChunk (fw : NvmAccessCmd → Except Errno NvmAccessResp)
    (nvmSection _offset length : UInt16) (data : Nat → UInt8) :
    Except Errno ((Nat → UInt8) × UInt16) :=
  let offset : UInt16 := 0
  match fw { type := nvmSection, offset, length } with
  | .error err => .error err
  | .ok resp =>
    if resp.failed then .error .eio
    else if resp.status ≠ 0 then .error .einval
    else if resp.offset ≠ offset then .error .einval
    else if resp.length > length then .error .einval
    else .ok (store data offset.toNat (window resp.data 0 resp.length.toNat), resp.length)

/-- The loop of `iwm_nvm_read_section`: the error, the memory and `*len`. -/
def nvmReadLoop (fw : NvmAccessCmd → Except Errno NvmAccessResp) (nvmSection : UInt16)
    (maxLen : Nat) : Nat → (Nat → UInt8) → UInt16 → UInt16 →
    Option (Option Errno × (Nat → UInt8) × UInt16)
  | 0, _, _, _ => none
  | fuel + 1, data, len, seglen =>
    if seglen = nvmDefaultChunkSize ∧ len.toNat < maxLen then
      match nvmReadChunk fw nvmSection len nvmDefaultChunkSize data with
      | .error err => some (some err, data, len)
      | .ok (data, seglen) => nvmReadLoop fw nvmSection maxLen fuel data (len + seglen) seglen
    else some (none, data, len)

/-- `iwm_nvm_read_section`. -/
def nvmReadSection (fw : NvmAccessCmd → Except Errno NvmAccessResp) (nvmSection : UInt16)
    (maxLen fuel : Nat) (data : Nat → UInt8) : Option (Option Errno × (Nat → UInt8) × UInt16) :=
  nvmReadLoop fw nvmSection maxLen fuel data 0 nvmDefaultChunkSize

/-- A firmware that answers each request with what the section has there. -/
def faithfulNvm (nvm : UInt16 → List UInt8) (cmd : NvmAccessCmd) : Except Errno NvmAccessResp :=
  let contents := (nvm cmd.type).drop cmd.offset.toNat
  .ok
    { failed := false, offset := cmd.offset,
      length := UInt16.ofNat (min cmd.length.toNat contents.length), status := 0
      data := fun i => contents.getD i 0 }

end Net80211.Iwm
