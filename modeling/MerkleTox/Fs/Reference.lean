import MerkleTox.Core.Reference
import MerkleTox.Fs.Conversation

/-! # A reference index and format

An instance of what the file-system store takes from outside, for evaluating runs: the
index finds the first record of a hash, and a wire form is a tag and a payload.
-/

namespace MerkleTox.Fs

open Library Proto MerkleTox.Core

instance referenceSearch : IndexSearch where
  lookup records nodeHash := records.find? fun record => record.hash = nodeHash
  lookup_some h := by
    have hhash := List.find?_some h
    exact ⟨List.mem_of_find?_eq_some h, of_decide_eq_true hhash⟩
  lookup_none h record hmem heq :=
    absurd (decide_eq_true heq) (List.find?_eq_none.mp h record hmem)

namespace Reference

/-- A wire node with a payload; the tag tells whether it is signed. -/
def wireOf (tag : UInt8) (payload : Bytes) : WireNode where
  parents := []
  senderHint := 0
  encryptedRouting := []
  payloadData := payload
  topologicalRank := 0
  flags := 2
  authentication := if tag = 1 then .signature ⟨0⟩ else .ephemeralSignature ⟨0⟩

end Reference

open Reference

instance referenceFormat : WireFormat where
  blake3 data := ⟨BitVec.ofNat 256 (1 + Core.Reference.digest (data.map UInt8.toNat))⟩
  serializeWire wire :=
    (if wire.authentication.isSignature then 1 else 0) :: wire.payloadData
  deserializeWire
    | [] => none
    | tag :: payload => some (wireOf tag payload)
  decompress data := some data
  deserializeContent _ := none

end MerkleTox.Fs
