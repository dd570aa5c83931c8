import Mathlib.Data.BitVec
import Mathlib.Logic.Function.Iterate
import MerkleTox.Core.Ratchet
import MerkleTox.Core.Reference
import MerkleTox.Library.Dispenser

/-! # Message keys in any order

A message key is looked up and then consumed. Its source is the chain key of the ratchet, a key
kept when the ratchet stepped over it, or the root of the epoch. Whatever the order in which the
messages of a sender come, the key is the one that lies as many steps from the root as the
counter of the message says, and while the ratchet does not stand in a later epoch it is handed
out once.
-/

namespace MerkleTox.Core

open Library Proto

variable {ratchet : SenderRatchet} {found : Established}

/-- A message of a sender whose key is wanted. -/
structure KeyRequest where
  seq : BitVec 64
  nowMs : Int
  nodeHash : NodeHash

namespace KeyRequest

def epoch (message : KeyRequest) : Nat := epochOf message.seq.toNat

def counter (message : KeyRequest) : Nat := counterOf message.seq.toNat

def request (message : KeyRequest) : Request := ⟨message.counter, message.nowMs⟩

theorem seq_eq (message : KeyRequest) :
    message.seq.toNat = message.epoch * 2 ^ 32 + message.counter :=
  (Nat.div_add_mod' message.seq.toNat (2 ^ 32)).symm

theorem counter_lt (message : KeyRequest) : message.counter < 2 ^ 32 :=
  Nat.mod_lt _ (Nat.two_pow_pos 32)

end KeyRequest

namespace Established

variable [Primitives]

/-- `peek_keys`, and `commit_node_key` if there is a key. -/
def useKey (em : Established) (senderPk : PhysicalDevicePk) (message : KeyRequest) :
    Option MessageKey × Established :=
  match em.peekKeys senderPk message.seq.toNat message.nowMs with
  | (none, em) => (none, em)
  | (some (key, nextKey), em) =>
      (some key,
        (em.commitNodeKey senderPk message.seq.toNat nextKey message.nodeHash message.epoch).2)

/-- The keys that are handed out, in the order in which they are. -/
def handedOut (senderPk : PhysicalDevicePk) :
    Established → List KeyRequest → List (BitVec 64 × MessageKey)
  | _, [] => []
  | em, message :: rest =>
      (em.useKey senderPk message).1.toList.map (message.seq, ·) ++
        handedOut senderPk (em.useKey senderPk message).2 rest

/-- The message key of a counter, counted from 1. -/
def keyAt (root : ChainKey) (counter : Nat) : MessageKey :=
  Primitives.ratchetMessageKey (Primitives.ratchetStep^[counter - 1] root)

/-- The chain key with which the epoch of a sender starts. -/
def StartsFrom (em : Established) (senderPk : PhysicalDevicePk) (epoch : Nat) (root : ChainKey) :
    Prop :=
  ∃ kConv, em.getKeys epoch = some kConv ∧ em.initialChainKey senderPk epoch kConv = root

variable {em : Established} {senderPk : PhysicalDevicePk} {nowMs : Int}

/-! ## Looking up -/

theorem skipKeys_snd (em : Established) (senderPk : PhysicalDevicePk) (nowMs : Int)
    (count first : Nat) (chainKey : ChainKey) :
    (em.skipKeys senderPk nowMs count first chainKey).2 =
      Primitives.ratchetStep^[count] chainKey := by
  induction count generalizing em first chainKey with
  | zero => rfl
  | succ count ih => exact ih _ _ _

theorem get_skipKeys (em : Established) (senderPk : PhysicalDevicePk) (nowMs : Int)
    {count first seq : Nat} (chainKey : ChainKey) (hfirst : first ≤ seq)
    (hseq : seq < first + count) :
    (em.skipKeys senderPk nowMs count first chainKey).1.skippedKeys.get (senderPk, seq) =
      some (Primitives.ratchetMessageKey (Primitives.ratchetStep^[seq - first] chainKey),
        nowMs) := by
  induction count generalizing em first chainKey with
  | zero => omega
  | succ count ih =>
      rw [skipKeys]
      rcases Nat.eq_or_lt_of_le hfirst with rfl | hlt
      · have hbefore : (senderPk, first).1 ≠ senderPk ∨ (senderPk, first).2 < first + 1 ∨
            first + 1 + count ≤ (senderPk, first).2 := .inr (.inl (Nat.lt_succ_self first))
        rw [get_skipKeys_of_outside _ _ _ _ _ _ hbefore, AssocMap.get_insert_self, Nat.sub_self]
        rfl
      · rw [ih _ _ hlt (by omega), ← Function.iterate_succ_apply]
        have hsteps : (seq - (first + 1)).succ = seq - first := by omega
        rw [hsteps]

theorem findKeys_initial {root : ChainKey} {seq : Nat}
    (helsewhere : em.ratchetEpoch senderPk ≠ some (epochOf seq))
    (hroot : em.StartsFrom senderPk (epochOf seq) root) :
    em.findKeys senderPk seq nowMs =
      if maxRatchetSkip < counterOf seq then (none, em)
      else em.peekForward senderPk nowMs (counterOf seq - 1) (seqOf (epochOf seq) 1) root := by
  obtain ⟨kConv, hkeys, rfl⟩ := hroot
  have hinitial : em.peekInitial senderPk seq nowMs =
      if maxRatchetSkip < counterOf seq then (none, em)
      else em.peekForward senderPk nowMs (counterOf seq - 1) (seqOf (epochOf seq) 1)
        (em.initialChainKey senderPk (epochOf seq) kConv) := by
    rw [peekInitial, hkeys]
  unfold findKeys
  cases hratchet : em.senderRatchets.get senderPk with
  | none => exact hinitial
  | some ratchet =>
      have hepoch : ratchet.epochId ≠ epochOf seq := by
        intro heq
        exact helsewhere (by rw [ratchetEpoch, hratchet, Option.map_some, heq])
      simp only
      rw [if_pos hepoch]
      exact hinitial

section

variable {seq : BitVec 64} (hratchet : em.senderRatchets.get senderPk = some ratchet) (hepoch :
  ratchet.epochId = epochOf seq.toNat)
include hratchet hepoch

theorem findKeys_live (hahead : ratchet.lastSeq < seq.toNat) :
    em.findKeys senderPk seq.toNat nowMs =
      if maxRatchetSkip < seq.toNat - (ratchet.lastSeq + 1) then (none, em)
      else em.peekForward senderPk nowMs (seq.toNat - (ratchet.lastSeq + 1))
        (ratchet.lastSeq + 1) ratchet.nextKey := by
  have hnext : wrap64 (ratchet.lastSeq + 1) = ratchet.lastSeq + 1 :=
    Nat.mod_eq_of_lt (Nat.lt_of_le_of_lt hahead seq.isLt)
  unfold findKeys
  rw [hratchet]
  simp only
  rw [if_neg (not_not.mpr hepoch), hnext]
  split
  next heq =>
    -- the next message: no key is stepped over
    rw [heq, Nat.sub_self, if_neg (Nat.not_lt_zero _)]
    rfl
  next => rw [if_neg (Nat.not_le.mpr hahead)]

theorem findKeys_past (hpast : seq.toNat ≤ ratchet.lastSeq) (hcounter : 0 < seq.toNat)
    (hlast : ratchet.lastSeq < 2 ^ 64) :
    em.findKeys senderPk seq.toNat nowMs =
      ((em.skippedKeys.get (senderPk, seq.toNat)).map fun entry => (entry.1, ⟨0⟩), em) := by
  have hnext : seq.toNat ≠ wrap64 (ratchet.lastSeq + 1) := by
    unfold wrap64
    omega
  unfold findKeys
  rw [hratchet]
  simp only
  rw [if_neg (not_not.mpr hepoch), if_neg hnext, if_pos hpast]

end

/-! ## The keys as a dispenser -/

/-- The ratchet of a sender and the keys kept for an epoch, as numbers that are taken. -/
structure Dispenses (em : Established) (senderPk : PhysicalDevicePk) (epoch : Nat)
    (root : ChainKey) (dispenser : Dispenser) : Prop where
  starts : em.StartsFrom senderPk epoch root
  new : dispenser.reached = none → ∀ other, em.ratchetEpoch senderPk = some other → other < epoch
  stands : ∀ number, dispenser.reached = some number → number < 2 ^ 32 ∧
    ∃ nodeHash, em.senderRatchets.get senderPk =
      some ⟨epoch * 2 ^ 32 + number, Primitives.ratchetStep^[number] root, nodeHash, epoch⟩
  kept : ∀ number < 2 ^ 32, em.skippedKeys.get (senderPk, epoch * 2 ^ 32 + number) =
    (dispenser.kept number).map fun time => (keyAt root number, time)

variable {epoch : Nat} {root : ChainKey} {dispenser : Dispenser} {message : KeyRequest}

/-- Expired keys are dropped on both sides. -/
theorem Dispenses.expire (h : em.Dispenses senderPk epoch root dispenser) (nowMs : Int)
    (use : RatchetUse) :
    ((em.expireSkipped nowMs).record use).Dispenses senderPk epoch root
      (dispenser.expire skippedKeyTtlMs nowMs) where
  starts := h.starts
  new := h.new
  stands := h.stands
  kept number hnumber := by
    have hget : ((em.expireSkipped nowMs).record use).skippedKeys.get
        (senderPk, epoch * 2 ^ 32 + number) =
        (em.skippedKeys.get (senderPk, epoch * 2 ^ 32 + number)).filter
          fun entry => nowMs - entry.2 ≤ skippedKeyTtlMs := AssocMap.get_retain ..
    rw [hget, h.kept number hnumber, Dispenser.kept_expire, Option.filter_map]
    rfl

/-- The look-up of a message that is ahead of the ratchet. -/
theorem Dispenses.findKeys_ahead (h : em.Dispenses senderPk message.epoch root dispenser)
    (hahead : dispenser.next ≤ message.counter) :
    em.findKeys senderPk message.seq.toNat nowMs =
      if dispenser.limit maxRatchetSkip < message.counter then (none, em)
      else em.peekForward senderPk nowMs (message.counter - dispenser.next)
        (message.epoch * 2 ^ 32 + dispenser.next)
        (Primitives.ratchetStep^[dispenser.next - 1] root) := by
  cases hreached : dispenser.reached with
  | none =>
      have helsewhere : em.ratchetEpoch senderPk ≠ some (epochOf message.seq.toNat) :=
        fun hepoch => absurd (h.new hreached _ hepoch) (Nat.lt_irrefl _)
      have hnext : dispenser.next = 1 := by rw [Dispenser.next, hreached]; rfl
      have hlimit : dispenser.limit maxRatchetSkip = maxRatchetSkip := by
        rw [Dispenser.limit, hreached]
      rw [findKeys_initial helsewhere h.starts, seqOf_epochOf_one, hnext, hlimit]
      rfl
  | some number =>
      obtain ⟨hnumber, nodeHash, hratchet⟩ := h.stands number hreached
      have hnext : dispenser.next = number + 1 := by rw [Dispenser.next, hreached]; rfl
      have hlimit : dispenser.limit maxRatchetSkip = number + 1 + maxRatchetSkip := by
        rw [Dispenser.limit, hreached]
      have hseq := message.seq_eq
      rw [hnext] at hahead
      have hepoch : message.epoch = epochOf message.seq.toNat := rfl
      have hlt : message.epoch * 2 ^ 32 + number < message.seq.toNat := by omega
      have hcount : message.seq.toNat - (message.epoch * 2 ^ 32 + number + 1) =
        message.counter - (number + 1) := by omega
      rw [findKeys_live hratchet hepoch hlt, hnext, hlimit]
      dsimp only
      rw [hcount, Nat.add_sub_cancel, Nat.add_assoc]
      refine if_congr ?_ rfl rfl
      omega

section

variable (h : em.Dispenses senderPk message.epoch root dispenser) (hpositive : 0 < message.counter)
include h hpositive

/-- The look-up of a message that the ratchet has passed. -/
theorem Dispenses.findKeys_behind (hbehind : message.counter < dispenser.next) :
    em.findKeys senderPk message.seq.toNat nowMs =
      ((dispenser.kept message.counter).map fun _ => (keyAt root message.counter, ⟨0⟩), em) := by
  cases hreached : dispenser.reached with
  | none =>
      have hnext : dispenser.next = 1 := by rw [Dispenser.next, hreached]; rfl
      omega
  | some number =>
      obtain ⟨hnumber, nodeHash, hratchet⟩ := h.stands number hreached
      have hnext : dispenser.next = number + 1 := by rw [Dispenser.next, hreached]; rfl
      have hseq := message.seq_eq
      have hlt := message.seq.isLt
      have hepoch : message.epoch = epochOf message.seq.toNat := rfl
      have hpast : message.seq.toNat ≤ message.epoch * 2 ^ 32 + number := by omega
      have hlast : message.epoch * 2 ^ 32 + number < 2 ^ 64 := by omega
      rw [findKeys_past hratchet hepoch hpast (by omega) hlast, hseq,
        h.kept _ message.counter_lt, Option.map_map]
      rfl

/-- Where the ratchet stands and whether a commit moves it. -/
theorem Dispenses.ratchetBeyond :
    em.ratchetBeyond senderPk message.seq.toNat message.epoch =
      decide (message.counter < dispenser.next) := by
  have hseq := message.seq_eq
  cases hreached : dispenser.reached with
  | none =>
      have hnext : dispenser.next = 1 := by rw [Dispenser.next, hreached]; rfl
      rw [hnext, decide_eq_false (by omega), Established.ratchetBeyond]
      cases hratchet : em.senderRatchets.get senderPk with
      | none => rfl
      | some ratchet =>
          have hold := h.new hreached ratchet.epochId
            (by rw [ratchetEpoch, hratchet, Option.map_some])
          simp only [Bool.or_eq_false_iff, Bool.and_eq_false_iff, decide_eq_false_iff_not]
          exact ⟨by omega, .inl (by omega)⟩
  | some number =>
      obtain ⟨-, nodeHash, hratchet⟩ := h.stands number hreached
      have hnext : dispenser.next = number + 1 := by rw [Dispenser.next, hreached]; rfl
      rw [Established.ratchetBeyond, hratchet, hnext]
      simp only [Nat.lt_irrefl, decide_false, decide_true, Bool.false_or, Bool.true_and,
        decide_eq_decide]
      omega

/-- A message that was passed is taken: its key is no longer kept. -/
theorem Dispenses.erase (hbehind : message.counter < dispenser.next) (key : ChainKey)
    (nodeHash : NodeHash) :
    (em.commitNodeKey senderPk message.seq.toNat key nodeHash message.epoch).2.Dispenses senderPk
      message.epoch root (dispenser.erase message.counter) := by
  have hbeyond := h.ratchetBeyond hpositive
  rw [decide_eq_true hbehind] at hbeyond
  rw [commitNodeKey_frame, if_pos hbeyond]
  refine ⟨h.starts, h.new, h.stands, fun number hnumber => ?_⟩
  rw [Dispenser.kept_erase]
  dsimp only
  rw [message.seq_eq]
  by_cases heq : number = message.counter
  · rw [heq, Function.update_self, AssocMap.get_erase_self]
    rfl
  · rw [Function.update_of_ne heq, AssocMap.get_erase_of_ne _ (by simp [heq])]
    exact h.kept number hnumber

/-- A message ahead is taken: the ratchet moves to it and the keys before it are kept. -/
theorem Dispenses.advance (hahead : dispenser.next ≤ message.request.number) (nodeHash : NodeHash) :
    (((em.skipKeys senderPk message.nowMs (message.counter - dispenser.next)
        (message.epoch * 2 ^ 32 + dispenser.next)
        (Primitives.ratchetStep^[dispenser.next - 1] root)).1.commitNodeKey senderPk
          message.seq.toNat (Primitives.ratchetStep^[message.counter] root) nodeHash
          message.epoch).2).Dispenses senderPk message.epoch root
      (dispenser.advance message.request hahead) := by
  have hbeyond := h.ratchetBeyond hpositive
  have hcounter : dispenser.next ≤ message.counter := hahead
  rw [decide_eq_false (Nat.not_lt.mpr hcounter)] at hbeyond
  obtain ⟨skipped, hskipped⟩ : ∃ skipped, skipped = em.skipKeys senderPk message.nowMs
    (message.counter - dispenser.next) (message.epoch * 2 ^ 32 + dispenser.next)
    (Primitives.ratchetStep^[dispenser.next - 1] root) := ⟨_, rfl⟩
  obtain ⟨kept, hframe⟩ := em.skipKeys_frame senderPk message.nowMs
    (message.counter - dispenser.next) (message.epoch * 2 ^ 32 + dispenser.next)
    (Primitives.ratchetStep^[dispenser.next - 1] root)
  rw [← hskipped] at hframe ⊢
  have hmoves : skipped.1.ratchetBeyond senderPk message.seq.toNat message.epoch = false := by
    rw [hframe]
    exact hbeyond
  have hnone : dispenser.kept message.counter = none := dispenser.kept_of_lt _ hahead
  -- The ratchet ends at the key of the message; the numbers in between are kept as skipped keys,
  -- each with the chain key of its number.
  refine ⟨?_, nofun, fun number hnumber => ?_, fun number hnumber => ?_⟩
  · rw [commitNodeKey_frame, hframe]
    exact h.starts
  · rw [← Option.some.inj hnumber, commitNodeKey_ratchets, hmoves, if_neg Bool.false_ne_true,
      AssocMap.get_insert_self, message.seq_eq]
    exact ⟨message.counter_lt, some nodeHash, rfl⟩
  · rw [commitNodeKey_skipped, Dispenser.kept_advance, message.seq_eq]
    change _ = Option.map _ (if dispenser.next ≤ number ∧ number < message.counter then
      some message.nowMs else dispenser.kept number)
    by_cases heq : number = message.counter
    · rw [heq, AssocMap.get_erase_self, if_neg fun hbetween => Nat.lt_irrefl _ hbetween.2, hnone]
      rfl
    · rw [AssocMap.get_erase_of_ne _ (by simp [heq]), hskipped]
      by_cases hbetween : dispenser.next ≤ number ∧ number < message.counter
      · rw [if_pos hbetween, get_skipKeys _ _ _ _ (by omega) (by omega),
          ← Function.iterate_add_apply]
        have hsteps : message.epoch * 2 ^ 32 + number - (message.epoch * 2 ^ 32 + dispenser.next) +
          (dispenser.next - 1) = number - 1 := by
            have hnext : 0 < dispenser.next := Nat.succ_pos _
            omega
        rw [hsteps]
        rfl
      · have houtside : (senderPk, message.epoch * 2 ^ 32 + number).1 ≠ senderPk ∨
            (senderPk, message.epoch * 2 ^ 32 + number).2 <
              message.epoch * 2 ^ 32 + dispenser.next ∨
            message.epoch * 2 ^ 32 + dispenser.next + (message.counter - dispenser.next) ≤
              (senderPk, message.epoch * 2 ^ 32 + number).2 := .inr (by dsimp only; omega)
        rw [if_neg hbetween, get_skipKeys_of_outside _ _ _ _ _ _ houtside]
        exact h.kept number hnumber

end

theorem useKey_of_some {key : MessageKey} {nextKey : ChainKey}
    (hpeek : em.peekKeys senderPk message.seq.toNat message.nowMs = (some (key, nextKey), found)) :
    em.useKey senderPk message = (some key, (found.commitNodeKey senderPk message.seq.toNat
      nextKey message.nodeHash message.epoch).2) := by
  rw [useKey, hpeek]

theorem useKey_of_none
    (hpeek : em.peekKeys senderPk message.seq.toNat message.nowMs = (none, found)) :
    em.useKey senderPk message = (none, found) := by
  rw [useKey, hpeek]

/-- The keys of a message ahead, and the keys before it. -/
theorem peekForward_eq (em : Established) (senderPk : PhysicalDevicePk) (nowMs : Int)
    (count first : Nat) (chainKey : ChainKey) :
    em.peekForward senderPk nowMs count first chainKey =
      (some (Primitives.ratchetMessageKey (Primitives.ratchetStep^[count] chainKey),
        Primitives.ratchetStep^[count + 1] chainKey),
        (em.skipKeys senderPk nowMs count first chainKey).1) := by
  rw [Function.iterate_succ_apply', ← em.skipKeys_snd senderPk nowMs count first chainKey]
  rfl

/-- Using a key is taking its number. -/
theorem Dispenses.useKey (h : em.Dispenses senderPk message.epoch root dispenser)
    (hpositive : 0 < message.counter) :
    (em.useKey senderPk message).1 =
      (if (dispenser.take maxRatchetSkip skippedKeyTtlMs message.request).1 then
        some (keyAt root message.counter) else none) ∧
      (em.useKey senderPk message).2.Dispenses senderPk message.epoch root
        (dispenser.take maxRatchetSkip skippedKeyTtlMs message.request).2 := by
  have hexpired := h.expire message.nowMs
    (.peeked senderPk message.seq.toNat (em.ratchetEpoch senderPk))
  obtain ⟨found, hfound⟩ : ∃ found, found = (em.expireSkipped message.nowMs).record
    (.peeked senderPk message.seq.toNat (em.ratchetEpoch senderPk)) := ⟨_, rfl⟩
  obtain ⟨alive, halive⟩ : ∃ alive, alive = dispenser.expire skippedKeyTtlMs message.nowMs :=
    ⟨_, rfl⟩
  have hpeek : em.peekKeys senderPk message.seq.toNat message.nowMs =
      found.findKeys senderPk message.seq.toNat message.nowMs := by rw [hfound]; rfl
  rw [← hfound, ← halive] at hexpired
  have hcases := Dispenser.take_cases maxRatchetSkip skippedKeyTtlMs dispenser message.request
  have hrequest : message.request.time = message.nowMs := rfl
  rw [hrequest, ← halive] at hcases
  -- |The number is behind the counter, too far ahead of it, or within reach; the engine branches
  -- alike.
  obtain ⟨hbehind, htake⟩ | ⟨hahead, hlimit, htake⟩ | ⟨hahead, hlimit, htake⟩ := hcases
  · have hnext : message.counter < alive.next := by rw [halive]; exact hbehind
    rw [hexpired.findKeys_behind hpositive hnext] at hpeek
    have hnumber : message.request.number = message.counter := rfl
    rw [htake, hnumber]
    cases hkept : alive.kept message.counter with
    | none =>
        rw [hkept] at hpeek
        rw [useKey_of_none hpeek, Dispenser.erase_of_none hkept]
        exact ⟨rfl, hexpired⟩
    | some time =>
        rw [hkept] at hpeek
        rw [useKey_of_some hpeek]
        exact ⟨rfl, hexpired.erase hpositive hnext _ _⟩
  · have hnext : alive.next ≤ message.counter := by rw [halive]; exact hahead
    have hrefused : alive.limit maxRatchetSkip < message.counter := by rw [halive]; exact hlimit
    rw [hexpired.findKeys_ahead hnext, if_pos hrefused] at hpeek
    rw [htake, useKey_of_none hpeek]
    exact ⟨rfl, hexpired⟩
  · have hnext : alive.next ≤ message.counter := hahead
    have hreach : ¬ alive.limit maxRatchetSkip < message.counter := by
      rw [halive]
      exact Nat.not_lt.mpr hlimit
    have hfirst : 0 < alive.next := Nat.succ_pos _
    have hsteps : message.counter - alive.next + (alive.next - 1) = message.counter - 1 := by omega
    have hmore : message.counter - alive.next + 1 + (alive.next - 1) = message.counter := by omega
    rw [hexpired.findKeys_ahead hnext, if_neg hreach, peekForward_eq,
      ← Function.iterate_add_apply, ← Function.iterate_add_apply, hsteps, hmore] at hpeek
    rw [htake, useKey_of_some hpeek]
    exact ⟨rfl, hexpired.advance hpositive hahead _⟩

/-! ## All messages -/

variable {messages : List KeyRequest}

/-- The keys of the numbers that are taken are handed out, and they are the right ones. -/
theorem Dispenses.handedOut (h : em.Dispenses senderPk epoch root dispenser)
    (hmessages : ∀ message ∈ messages, message.epoch = epoch ∧ 0 < message.counter) :
    (em.handedOut senderPk messages).Sublist
        (messages.map fun message => (message.seq, keyAt root message.counter)) ∧
      (em.handedOut senderPk messages).map (fun handed => counterOf handed.1.toNat) =
        dispenser.taken maxRatchetSkip skippedKeyTtlMs (messages.map KeyRequest.request) := by
  induction messages generalizing em dispenser with
  | nil => exact ⟨List.Sublist.slnil, rfl⟩
  | cons message rest ih =>
      obtain ⟨⟨rfl, hpositive⟩, hrest⟩ := List.forall_mem_cons.mp hmessages
      obtain ⟨hkey, hnext⟩ := h.useKey hpositive
      obtain ⟨hsublist, htaken⟩ := ih hnext hrest
      rw [Established.handedOut, hkey, List.map_cons, List.map_cons, Dispenser.taken]
      split
      · exact ⟨hsublist.cons_cons _, congrArg (message.counter :: ·) htaken⟩
      · exact ⟨hsublist.cons _, htaken⟩

/-- While the ratchet stands in a later epoch, each key is found from the root. -/
theorem useKey_of_later {later : Nat} (hstarts : em.StartsFrom senderPk message.epoch root)
    (hlater : em.ratchetEpoch senderPk = some later) (hepoch : message.epoch < later) :
    ((em.useKey senderPk message).1 = none ∨
      (em.useKey senderPk message).1 = some (keyAt root message.counter)) ∧
      (em.useKey senderPk message).2.StartsFrom senderPk message.epoch root ∧
      (em.useKey senderPk message).2.ratchetEpoch senderPk = some later := by
  obtain ⟨found, hfound⟩ : ∃ found, found = (em.expireSkipped message.nowMs).record
    (.peeked senderPk message.seq.toNat (em.ratchetEpoch senderPk)) := ⟨_, rfl⟩
  have hpeek : em.peekKeys senderPk message.seq.toNat message.nowMs =
      found.findKeys senderPk message.seq.toNat message.nowMs := by rw [hfound]; rfl
  have hfoundStarts : found.StartsFrom senderPk message.epoch root := by rw [hfound]; exact hstarts
  have hfoundLater : found.ratchetEpoch senderPk = some later := by rw [hfound]; exact hlater
  have helsewhere : found.ratchetEpoch senderPk ≠ some (epochOf message.seq.toNat) := by
    rw [hfoundLater]
    exact fun heq => absurd hepoch (Option.some.inj heq ▸ Nat.lt_irrefl _)
  rw [findKeys_initial helsewhere hfoundStarts, peekForward_eq] at hpeek
  split at hpeek
  · rw [useKey_of_none hpeek]
    exact ⟨.inl rfl, hfoundStarts, hfoundLater⟩
  · rw [useKey_of_some hpeek]
    obtain ⟨kept, hframe⟩ := found.skipKeys_frame senderPk message.nowMs
      (counterOf message.seq.toNat - 1) (seqOf (epochOf message.seq.toNat) 1) root
    have hbeyond : found.ratchetBeyond senderPk message.seq.toNat message.epoch = true := by
      obtain ⟨ratchet, hratchet, hid⟩ := Option.map_eq_some_iff.mp hfoundLater
      simp only [ratchetBeyond, hratchet, hid, hepoch, decide_true, Bool.true_or]
    have hstays : ({ found with skippedKeys := kept } : Established).ratchetBeyond senderPk
      message.seq.toNat message.epoch = true := hbeyond
    refine ⟨.inr rfl, ?_, ?_⟩
    · rw [commitNodeKey_frame, hframe]
      exact hfoundStarts
    · rw [hframe, ratchetEpoch, commitNodeKey_ratchets, if_pos hstays]
      exact hfoundLater

theorem handedOut_of_later {later : Nat} (hstarts : em.StartsFrom senderPk epoch root)
    (hlater : em.ratchetEpoch senderPk = some later) (hepoch : epoch < later)
    (hmessages : ∀ message ∈ messages, message.epoch = epoch) :
    (em.handedOut senderPk messages).Sublist
      (messages.map fun message => (message.seq, keyAt root message.counter)) := by
  induction messages generalizing em with
  | nil => exact List.Sublist.slnil
  | cons message rest ih =>
      obtain ⟨rfl, hrest⟩ := List.forall_mem_cons.mp hmessages
      obtain ⟨hkey, hnext, hstays⟩ := useKey_of_later hstarts hlater hepoch
      have hsublist := ih hnext hstays hrest
      rw [handedOut, List.map_cons]
      rcases hkey with hkey | hkey
      · rw [hkey]
        exact hsublist.cons _
      · rw [hkey]
        exact hsublist.cons_cons _

/-- Nothing of the epoch was seen: the ratchet of the sender stands elsewhere and none of its
keys is kept. -/
structure Fresh (em : Established) (senderPk : PhysicalDevicePk) (epoch : Nat)
    (root : ChainKey) : Prop where
  starts : em.StartsFrom senderPk epoch root
  elsewhere : em.ratchetEpoch senderPk ≠ some epoch
  kept : ∀ counter < 2 ^ 32, em.skippedKeys.get (senderPk, epoch * 2 ^ 32 + counter) = none

/-- Whatever the order of the messages of an epoch, their keys lie as many steps from the root
as their counters say, and each is handed out once: all of them, if none comes too far ahead or
too late. -/
theorem handedOut_in_any_order (hfresh : em.Fresh senderPk epoch root)
    (hmessages : ∀ message ∈ messages, message.epoch = epoch ∧ 0 < message.counter) :
    (∀ handed ∈ em.handedOut senderPk messages,
      handed.2 = keyAt root (counterOf handed.1.toNat)) ∧
    ((∀ other, em.ratchetEpoch senderPk = some other → other < epoch) →
      ((em.handedOut senderPk messages).map Prod.fst).Nodup ∧
      ((∀ before message after, messages = before ++ message :: after →
        Dispenser.InTime maxRatchetSkip skippedKeyTtlMs (before.map KeyRequest.request)
          message.request) →
        em.handedOut senderPk messages =
          messages.map fun message => (message.seq, keyAt root message.counter))) := by
  have hnew : (∀ other, em.ratchetEpoch senderPk = some other → other < epoch) →
      em.Dispenses senderPk epoch root .new := by
    refine fun hearlier => ⟨hfresh.starts, fun _ => hearlier, nofun, fun counter hcounter => ?_⟩
    exact hfresh.kept counter hcounter
  -- Whether the ratchet is behind the epoch or beyond it, what is handed out is the key of its
  -- message.
  have hright : (em.handedOut senderPk messages).Sublist
      (messages.map fun message => (message.seq, keyAt root message.counter)) := by
    cases hratchet : em.ratchetEpoch senderPk with
    | none => exact ((hnew (by rw [hratchet]; nofun)).handedOut hmessages).1
    | some other =>
        rcases Nat.lt_trichotomy other epoch with hlt | rfl | hgt
        · refine ((hnew fun found hfound => ?_).handedOut hmessages).1
          rw [hratchet] at hfound
          exact Option.some.inj hfound ▸ hlt
        · exact absurd hratchet hfresh.elsewhere
        · exact handedOut_of_later hfresh.starts hratchet hgt
            fun message hmem => (hmessages message hmem).1
  refine ⟨fun handed hmem => ?_, fun hearlier => ?_⟩
  · obtain ⟨message, -, rfl⟩ := List.mem_map.mp (hright.mem hmem)
    rfl
  · obtain ⟨-, htaken⟩ := (hnew hearlier).handedOut hmessages
    refine ⟨?_, fun hinTime => ?_⟩
    · have hcounters := Dispenser.nodup_taken maxRatchetSkip skippedKeyTtlMs .new
        (messages.map KeyRequest.request)
      rw [← htaken] at hcounters
      refine List.Nodup.of_map (fun seq => counterOf seq.toNat) ?_
      rw [List.map_map]
      exact hcounters
    -- Every message in time takes its key, so nothing is missing from the list.
    · refine hright.eq_of_length ?_
      rw [Dispenser.taken_of_inTime] at htaken
      · have hlength := congrArg List.length htaken
        rw [List.length_map, List.length_map, List.length_map] at hlength
        rw [hlength, List.length_map]
      · intro before request after hsplit
        obtain ⟨earlier, rest, rfl, rfl, hrest⟩ := List.map_eq_append_iff.mp hsplit
        obtain ⟨message, later, rfl, rfl, -⟩ := List.map_eq_cons_iff.mp hrest
        exact hinTime earlier message later rfl

end Established

namespace Reference

def keyRequest (seq : BitVec 64) : KeyRequest := ⟨seq, 0, ⟨0⟩⟩

def keyStart : Established := .new ⟨3⟩ 0

/-- The ratchet of a sender in the epoch after the first. -/
def keyLater : Established :=
  ((keyStart.addEpoch 1 ⟨4⟩).useKey ⟨5⟩ (keyRequest (2 ^ 32 + 1))).2

/-- The counter 0 takes the key of 1 if it comes first, and 1 then has the next one. Once the
ratchet is in a later epoch, a key is handed out as often as it is asked for. -/
theorem handedOut_depends_on_order :
    (keyStart.handedOut ⟨5⟩ [keyRequest 0, keyRequest 1]).lookup 1 ≠
        (keyStart.handedOut ⟨5⟩ [keyRequest 1, keyRequest 0]).lookup 1 ∧
      ¬ ((keyLater.handedOut ⟨5⟩ [keyRequest 1, keyRequest 1]).map Prod.fst).Nodup := by
  decide +kernel

theorem fresh_keyStart : keyStart.Fresh ⟨5⟩ 0 (Primitives.ratchetInitSender ⟨3⟩ ⟨5⟩) :=
  ⟨⟨⟨3⟩, by decide, rfl⟩, by decide, fun _ _ => rfl⟩

def swapped : List KeyRequest := [keyRequest 2, keyRequest 1]

theorem inTime_swapped (before : List KeyRequest) (message : KeyRequest)
    (after : List KeyRequest) (hsplit : swapped = before ++ message :: after) :
    Dispenser.InTime maxRatchetSkip skippedKeyTtlMs (before.map KeyRequest.request)
      message.request := by
  rcases before with _ | ⟨first, _ | ⟨second, rest⟩⟩
  · cases hsplit
    exact ⟨by decide, by decide, fun _ => by decide, fun hne => absurd rfl hne,
      fun earlier step later hbefore => absurd hbefore.symm (by simp)⟩
  · cases hsplit
    refine ⟨by decide, by decide, nofun, fun _ => by decide, ?_⟩
    intro earlier step later hbefore _ _ other hother
    obtain ⟨rfl, hlater⟩ | ⟨_, rfl, hnil⟩ := List.cons_eq_append_iff.mp hbefore
    · cases hlater
      have hlast : other = (keyRequest 1).request := List.mem_singleton.mp hother
      rw [hlast]
      decide
    · cases List.append_eq_nil_iff.mp hnil.symm |>.2
  · have hlength := congrArg List.length hsplit
    simp [swapped] at hlength

theorem handedOut_swapped :
    keyStart.handedOut ⟨5⟩ swapped = swapped.map fun message =>
      (message.seq, Established.keyAt (Primitives.ratchetInitSender ⟨3⟩ ⟨5⟩)
        message.counter) := by
  have hmessages : ∀ message ∈ swapped, message.epoch = 0 ∧ 0 < message.counter := by decide
  exact ((Established.handedOut_in_any_order fresh_keyStart hmessages).2 nofun).2 inTime_swapped

end Reference

end MerkleTox.Core
