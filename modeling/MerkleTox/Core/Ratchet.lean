import Mathlib.Logic.Relation
import MerkleTox.Core.Conversation

/-! # The ratchets move forward

`RatchetStep` says once what the engine can do to the keys of an established
conversation. A ratchet forgets what it has consumed when it is dropped, so the
forward-only property rests on how it is used: `Orderly` says of a history that,
once a key of an epoch was consumed, every later use in that epoch still finds the
ratchet there, and that no distribution moves it. The orderly histories are closed
under forgetting the newest uses, so the condition on a final history is one on
every use that led to it.
-/

namespace MerkleTox.Core

open Library Proto

/-! ## Orderly histories -/

/-- The key of a sequence number was consumed. -/
def Committed (history : List RatchetUse) (senderPk : PhysicalDevicePk) (seq : Nat) : Prop :=
  ∃ nodeHash found, .committed senderPk seq nodeHash found ∈ history

/-- Some key of the epoch was consumed. -/
def CommittedIn (history : List RatchetUse) (senderPk : PhysicalDevicePk) (epoch : Nat) : Prop :=
  ∃ seq, Committed history senderPk seq ∧ epochOf seq = epoch

/-- A position a ratchet of an epoch may have: within the epoch, or so far before it
that no message of the epoch is within reach. -/
def InEpoch (epoch lastSeq : Nat) : Prop :=
  epoch * 2 ^ 32 ≤ lastSeq + 1 ∨ lastSeq + maxRatchetSkip + 1 < epoch * 2 ^ 32

/-- A use of a ratchet that respects the uses before it. -/
def UseOrderly (older : List RatchetUse) : RatchetUse → Prop
  | .peeked senderPk seq found | .committed senderPk seq _ found =>
      CommittedIn older senderPk (epochOf seq) → found = some (epochOf seq)
  | .tracked senderPk seq found =>
      CommittedIn older senderPk (epochOf seq) → ∀ epoch ∈ found, epochOf seq ≤ epoch
  | .seeded senderPk epoch lastSeq => ¬ CommittedIn older senderPk epoch ∧ InEpoch epoch lastSeq

/-- Every use respects the ones before it; the newest use comes first. -/
def Orderly : List RatchetUse → Prop
  | [] => True
  | use :: older => UseOrderly older use ∧ Orderly older

variable {history older newer : List RatchetUse} {use : RatchetUse}
variable {senderPk : PhysicalDevicePk} {seq epoch : Nat}

theorem Orderly.suffix (horderly : Orderly history) (hsuffix : older <:+ history) :
    Orderly older := by
  induction history with
  | nil => exact List.eq_nil_of_suffix_nil hsuffix ▸ trivial
  | cons use rest ih =>
      rcases List.suffix_cons_iff.mp hsuffix with heq | hrest
      · exact heq ▸ horderly
      · exact ih horderly.2 hrest

theorem Committed.mono (hcommitted : Committed older senderPk seq) (hsuffix : older <:+ history) :
    Committed history senderPk seq := by
  obtain ⟨nodeHash, found, hmem⟩ := hcommitted
  exact ⟨nodeHash, found, hsuffix.subset hmem⟩

theorem CommittedIn.mono (hcommitted : CommittedIn older senderPk epoch)
    (hsuffix : older <:+ history) : CommittedIn history senderPk epoch := by
  obtain ⟨seq, hseq, hepoch⟩ := hcommitted
  exact ⟨seq, hseq.mono hsuffix, hepoch⟩

theorem Committed.committedIn (hcommitted : Committed history senderPk seq) :
    CommittedIn history senderPk (epochOf seq) := ⟨seq, hcommitted, rfl⟩

/-- What a use adds to the consumed keys: its own, if it is a commit. -/
theorem committed_cons_iff :
    Committed (use :: older) senderPk seq ↔
      (∃ nodeHash found, use = .committed senderPk seq nodeHash found) ∨
        Committed older senderPk seq := by
  constructor
  · rintro ⟨nodeHash, found, hmem⟩
    rcases List.mem_cons.mp hmem with heq | hold
    · exact .inl ⟨nodeHash, found, heq.symm⟩
    · exact .inr ⟨nodeHash, found, hold⟩
  · rintro (⟨nodeHash, found, heq⟩ | hold)
    · exact ⟨nodeHash, found, List.mem_cons.mpr (.inl heq.symm)⟩
    · exact hold.mono (List.suffix_cons use older)

/-- The use consumes a key of the epoch. -/
def RatchetUse.commitsIn (senderPk : PhysicalDevicePk) (epoch : Nat) : RatchetUse → Bool
  | .committed other seq _ _ => other = senderPk && epochOf seq = epoch
  | _ => false

instance decidableCommittedIn : Decidable (CommittedIn history senderPk epoch) :=
  decidable_of_iff (history.any fun use => use.commitsIn senderPk epoch) (by
    rw [List.any_eq_true]
    constructor
    · rintro ⟨use, hmem, hcommits⟩
      cases use with
      | committed other seq nodeHash found =>
          simp only [RatchetUse.commitsIn, Bool.and_eq_true, decide_eq_true_eq] at hcommits
          obtain ⟨rfl, hepoch⟩ := hcommits
          exact ⟨seq, ⟨nodeHash, found, hmem⟩, hepoch⟩
      | _ => cases hcommits
    · rintro ⟨seq, ⟨nodeHash, found, hmem⟩, hepoch⟩
      exact ⟨_, hmem, by simp [RatchetUse.commitsIn, hepoch]⟩)

instance decidableUseOrderly : (use : RatchetUse) → Decidable (UseOrderly older use)
  | .peeked .. | .committed .. | .tracked .. => inferInstanceAs (Decidable (_ → _))
  | .seeded .. => inferInstanceAs (Decidable (¬ _ ∧ (_ ∨ _)))

instance decidableOrderly : (history : List RatchetUse) → Decidable (Orderly history)
  | [] => isTrue trivial
  | _ :: older =>
      have := decidableOrderly older
      inferInstanceAs (Decidable (_ ∧ _))

/-! ## Steps of the ratchets -/

/-- What the engine does to the ratchets of a conversation. `other` covers every
change of the remaining data, and the rotations, epochs and distributions that drop
ratchets without looking at them. -/
inductive RatchetStep [Primitives] : Established → Established → Prop
  | peek (em : Established) (senderPk : PhysicalDevicePk) (seq : BitVec 64) (nowMs : Int) :
      RatchetStep em (em.peekKeys senderPk seq.toNat nowMs).2
  | commit (em : Established) (senderPk : PhysicalDevicePk) (seq : Nat) (key : ChainKey)
      (nodeHash : NodeHash) :
      RatchetStep em (em.commitNodeKey senderPk seq key nodeHash (epochOf seq)).2
  | track (em : Established) (senderPk : PhysicalDevicePk) (seq : Nat) :
      RatchetStep em (em.trackSenderSeq senderPk seq (epochOf seq))
  | seed (em : Established) (senderPk : PhysicalDevicePk) (epoch : Nat) (payload : Bytes) :
      RatchetStep em (em.seedSender senderPk epoch payload)
  | other {em em' : Established}
      (hratchets : ∀ senderPk ratchet, em'.senderRatchets.get senderPk = some ratchet →
        em.senderRatchets.get senderPk = some ratchet)
      (hskipped : em'.skippedKeys = em.skippedKeys) (hhistory : em'.history = em.history) :
      RatchetStep em em'

/-- The keys already consumed are behind: none of them is kept as skipped, a ratchet
in their epoch stands at or after them, and every ratchet stands in its epoch. -/
structure Forward (em : Established) : Prop where
  notSkipped : ∀ {senderPk seq}, Committed em.history senderPk seq →
    em.skippedKeys.get (senderPk, seq) = none
  behind : ∀ {senderPk seq ratchet}, Committed em.history senderPk seq →
    em.senderRatchets.get senderPk = some ratchet → ratchet.epochId = epochOf seq →
    seq ≤ ratchet.lastSeq
  inEpoch : ∀ {senderPk ratchet}, em.senderRatchets.get senderPk = some ratchet →
    InEpoch ratchet.epochId ratchet.lastSeq

theorem epochOf_mul_le (seq : Nat) : epochOf seq * 2 ^ 32 ≤ seq := Nat.div_mul_le_self seq _

theorem inEpoch_epochOf (seq : Nat) : InEpoch (epochOf seq) seq :=
  .inl (Nat.le_succ_of_le (epochOf_mul_le seq))

/-- A number between the start of an epoch and a message of it belongs to the epoch. -/
theorem epochOf_eq_of_between {low seq : Nat} (hlow : epochOf seq * 2 ^ 32 ≤ low)
    (hle : low ≤ seq) : epochOf low = epochOf seq := by
  simp only [epochOf] at *
  omega

/-- The first message of an epoch has the first counter of the epoch. -/
theorem seqOf_epochOf_one (seq : BitVec 64) :
    seqOf (epochOf seq.toNat) 1 = epochOf seq.toNat * 2 ^ 32 + 1 := by
  have hlt := seq.isLt
  simp only [seqOf, wrap64, epochOf]
  omega

/-- In a conversation where nothing was consumed and nothing is kept, the ratchets
are trivially forward. -/
theorem Forward.of_fresh {em : Established} (hhistory : em.history = [])
    (hratchets : em.senderRatchets = .empty) : Forward em where
  notSkipped h := by
    obtain ⟨_, _, hmem⟩ := h
    simp [hhistory] at hmem
  behind h := by
    obtain ⟨_, _, hmem⟩ := h
    simp [hhistory] at hmem
  inEpoch h := by simp [hratchets] at h

namespace Established

section Keys

variable [Primitives] (em : Established) (senderPk : PhysicalDevicePk) (nowMs : Int)

/-! ### Skipping keys -/

/-- Skipping touches the skipped keys only. -/
theorem skipKeys_frame (count first : Nat) (chainKey : ChainKey) :
    ∃ kept, (em.skipKeys senderPk nowMs count first chainKey).1 =
      { em with skippedKeys := kept } := by
  induction count generalizing em first chainKey with
  | zero => exact ⟨em.skippedKeys, rfl⟩
  | succ count ih => exact ih _ _ _

variable {key : PhysicalDevicePk × Nat}

/-- Skipping keeps the keys of the sequence numbers it steps over, and no others. -/
theorem get_skipKeys_of_outside (count first : Nat) (chainKey : ChainKey)
    (houtside : key.1 ≠ senderPk ∨ key.2 < first ∨ first + count ≤ key.2) :
    (em.skipKeys senderPk nowMs count first chainKey).1.skippedKeys.get key =
      em.skippedKeys.get key := by
  induction count generalizing em first chainKey with
  | zero => rfl
  | succ count ih =>
      have hne : key ≠ (senderPk, first) := by
        rintro rfl
        simp only [ne_eq, not_true_eq_false, false_or] at houtside
        omega
      have hrest : key.1 ≠ senderPk ∨ key.2 < first + 1 ∨ first + 1 + count ≤ key.2 := by
        rcases houtside with hother | hbefore | hafter
        · exact .inl hother
        · exact .inr (.inl (by omega))
        · exact .inr (.inr (by omega))
      rw [skipKeys, ih _ _ _ hrest]
      exact em.skippedKeys.get_insert_of_ne _ hne

/-- A look-up notes itself in the history and otherwise touches the skipped keys only. -/
theorem peekKeys_frame (seq : Nat) :
    ∃ kept, (em.peekKeys senderPk seq nowMs).2 =
      { em.record (.peeked senderPk seq (em.ratchetEpoch senderPk)) with
          skippedKeys := kept } := by
  have hinitial : ∀ em : Established, ∃ kept,
      (em.peekInitial senderPk seq nowMs).2 = { em with skippedKeys := kept } := by
    intro em
    unfold peekInitial
    split
    · exact ⟨_, rfl⟩
    · split
      · exact ⟨_, rfl⟩
      · exact em.skipKeys_frame senderPk nowMs _ _ _
  unfold peekKeys findKeys
  split
  · exact hinitial _
  · simp only
    split
    · exact hinitial _
    · split
      · exact ⟨_, rfl⟩
      · split
        · exact ⟨_, rfl⟩
        · split
          · exact ⟨_, rfl⟩
          · exact skipKeys_frame _ senderPk nowMs _ _ _

theorem peekKeys_ratchets (seq : Nat) :
    (em.peekKeys senderPk seq nowMs).2.senderRatchets = em.senderRatchets := by
  obtain ⟨kept, heq⟩ := em.peekKeys_frame senderPk nowMs seq
  rw [heq]
  rfl

theorem peekKeys_history (seq : Nat) :
    (em.peekKeys senderPk seq nowMs).2.history =
      .peeked senderPk seq (em.ratchetEpoch senderPk) :: em.history := by
  obtain ⟨kept, heq⟩ := em.peekKeys_frame senderPk nowMs seq
  rw [heq]
  rfl

/-- The sequence numbers whose keys a look-up may keep: all those of the epoch before
the message when the ratchet stands elsewhere, and otherwise those between the ratchet
and the message. -/
def StepsOver (seq skipped : Nat) : Prop :=
  skipped < seq ∧
    ((em.ratchetEpoch senderPk ≠ some (epochOf seq) ∧ epochOf skipped = epochOf seq) ∨
      ∃ ratchet, em.senderRatchets.get senderPk = some ratchet ∧
        ratchet.epochId = epochOf seq ∧ ratchet.lastSeq < skipped ∧
        seq ≤ ratchet.lastSeq + maxRatchetSkip + 1)

variable {em senderPk nowMs}

/-- Starting an epoch keeps keys of that epoch before the message. -/
theorem get_peekInitial_of_none {seq : BitVec 64} (habsent : em.skippedKeys.get key = none)
    (houtside : ¬ (key.1 = senderPk ∧ key.2 < seq.toNat ∧ epochOf key.2 = epochOf seq.toNat)) :
    (em.peekInitial senderPk seq.toNat nowMs).2.skippedKeys.get key = none := by
  unfold peekInitial
  split
  · exact habsent
  · split
    · exact habsent
    · unfold peekForward
      simp only
      rw [get_skipKeys_of_outside, habsent]
      rw [seqOf_epochOf_one]
      by_cases hsender : key.1 = senderPk
      · -- Outside the epoch or not before the message, hence outside the skipped range.
        refine .inr ?_
        by_contra hinside
        refine houtside ⟨hsender, ?_, epochOf_eq_of_between ?_ ?_⟩ <;>
          · simp only [counterOf, epochOf] at hinside ⊢
            omega
      · exact .inl hsender

/-- A look-up keeps no key but those it steps over. -/
theorem get_peekKeys_of_none {seq : BitVec 64} (habsent : em.skippedKeys.get key = none)
    (houtside : ¬ (key.1 = senderPk ∧ em.StepsOver senderPk seq.toNat key.2)) :
    (em.peekKeys senderPk seq.toNat nowMs).2.skippedKeys.get key = none := by
  have hexpired : (em.expireSkipped nowMs).skippedKeys.get key = none := by
    simp [expireSkipped, AssocMap.get_retain, habsent]
  unfold peekKeys findKeys
  split
  next hnone =>
    refine get_peekInitial_of_none hexpired fun hin => houtside ⟨hin.1, hin.2.1, .inl ⟨?_, hin.2.2⟩⟩
    have hratchet : em.senderRatchets.get senderPk = none := hnone
    simp [ratchetEpoch, hratchet]
  next ratchet hsome =>
    have hratchet : em.senderRatchets.get senderPk = some ratchet := hsome
    simp only
    split
    next hother =>
      refine get_peekInitial_of_none hexpired
        fun hin => houtside ⟨hin.1, hin.2.1, .inl ⟨?_, hin.2.2⟩⟩
      simpa [ratchetEpoch, hratchet] using hother
    next hepoch =>
      split
      · exact hexpired
      next hnext =>
        split
        · exact hexpired
        next hpast =>
          split
          · exact hexpired
          next hreach =>
            have hlt := seq.isLt
            have hwrap : wrap64 (ratchet.lastSeq + 1) = ratchet.lastSeq + 1 :=
              Nat.mod_eq_of_lt (by omega)
            rw [hwrap] at hnext hreach ⊢
            unfold peekForward
            simp only
            rw [get_skipKeys_of_outside]
            · exact hexpired
            · by_cases hsender : key.1 = senderPk
              · refine .inr ?_
                by_contra hinside
                exact houtside ⟨hsender, by omega, .inr ⟨ratchet, hratchet, not_not.mp hepoch,
                  by omega, by omega⟩⟩
              · exact .inl hsender

end Keys

/-! ### Each step keeps the ratchets forward -/

variable (em : Established)

section

variable (senderPk : PhysicalDevicePk) (seq : Nat) (key : ChainKey) (nodeHash : NodeHash) (epochId :
  Nat)

/-- What a commit leaves: its key is gone, and the ratchet is where it was if it stood
beyond the message, and at the message otherwise. -/
theorem commitNodeKey_frame :
    (em.commitNodeKey senderPk seq key nodeHash epochId).2 =
      { em.record (.committed senderPk seq nodeHash (em.ratchetEpoch senderPk)) with
          skippedKeys := em.skippedKeys.erase (senderPk, seq)
          senderRatchets :=
            if em.ratchetBeyond senderPk seq epochId then em.senderRatchets
            else em.senderRatchets.insert senderPk ⟨seq, key, some nodeHash, epochId⟩ } := by
  unfold commitNodeKey
  simp only [show ∀ kept : AssocMap (PhysicalDevicePk × Nat) (MessageKey × Int),
    ({ em.record (.committed senderPk seq nodeHash (em.ratchetEpoch senderPk)) with
      skippedKeys := kept } : Established).ratchetBeyond senderPk seq epochId =
        em.ratchetBeyond senderPk seq epochId from fun _ => rfl]
  split <;> rfl

theorem commitNodeKey_skipped :
    (em.commitNodeKey senderPk seq key nodeHash epochId).2.skippedKeys =
      em.skippedKeys.erase (senderPk, seq) := by
  rw [commitNodeKey_frame]

theorem commitNodeKey_history :
    (em.commitNodeKey senderPk seq key nodeHash epochId).2.history =
      .committed senderPk seq nodeHash (em.ratchetEpoch senderPk) :: em.history := by
  rw [commitNodeKey_frame]
  rfl

theorem commitNodeKey_ratchets :
    (em.commitNodeKey senderPk seq key nodeHash epochId).2.senderRatchets =
      if em.ratchetBeyond senderPk seq epochId then em.senderRatchets
      else em.senderRatchets.insert senderPk ⟨seq, key, some nodeHash, epochId⟩ := by
  rw [commitNodeKey_frame]

end

theorem trackSenderSeq_ratchets (senderPk other : PhysicalDevicePk)
    (seq epochId : Nat) :
    (em.trackSenderSeq senderPk seq epochId).senderRatchets.get other =
      if other = senderPk then (em.senderRatchets.get other).map fun ratchet =>
        if ratchet.epochId < epochId || (epochId = ratchet.epochId && ratchet.lastSeq < seq) then
          { ratchet with lastSeq := seq, epochId := epochId }
        else ratchet
      else em.senderRatchets.get other := by
  unfold trackSenderSeq
  split
  next heq => rw [heq, AssocMap.get_modify_self]
  next hne => exact AssocMap.get_modify_of_ne _ _ hne

/-- A distribution that carries a ratchet sets it; any other leaves the ratchets. -/
theorem seedSender_cases (senderPk : PhysicalDevicePk) (epoch : Nat)
    (payload : Bytes) :
    (∃ lastSeq key,
      (em.seedSender senderPk epoch payload).senderRatchets =
        em.senderRatchets.insert senderPk ⟨lastSeq, key, none, epoch⟩ ∧
      (em.seedSender senderPk epoch payload).history =
        .seeded senderPk epoch lastSeq :: em.history ∧
      (em.seedSender senderPk epoch payload).skippedKeys = em.skippedKeys) ∨
    ((em.seedSender senderPk epoch payload).senderRatchets = em.senderRatchets ∧
      (em.seedSender senderPk epoch payload).history = em.history ∧
      (em.seedSender senderPk epoch payload).skippedKeys = em.skippedKeys) := by
  unfold seedSender
  split
  · exact .inl ⟨_, _, rfl, rfl, rfl⟩
  · split <;> exact .inr ⟨rfl, rfl, rfl⟩

end Established

/-- Keys of an epoch were consumed, and while the ratchet stands in that epoch it stands
at or after a bound. -/
structure Ahead (em : Established) (senderPk : PhysicalDevicePk) (epoch bound : Nat) : Prop where
  committed : CommittedIn em.history senderPk epoch
  bounded : ∀ {ratchet}, em.senderRatchets.get senderPk = some ratchet →
    ratchet.epochId = epoch → bound ≤ ratchet.lastSeq

/-- After its own commit a message is behind the ratchet. -/
theorem commitNodeKey_behind (em : Established) (senderPk : PhysicalDevicePk) (seq : Nat)
    (key : ChainKey) (nodeHash : NodeHash) {ratchet : SenderRatchet}
    (hget : (em.commitNodeKey senderPk seq key nodeHash (epochOf seq)).2.senderRatchets.get
      senderPk = some ratchet)
    (hepoch : ratchet.epochId = epochOf seq) : seq ≤ ratchet.lastSeq := by
  rw [em.commitNodeKey_ratchets] at hget
  split at hget
  next hbeyond =>
    simp only [Established.ratchetBeyond, hget, hepoch, lt_irrefl, decide_false, decide_true,
      Bool.true_and, Bool.false_or, decide_eq_true_eq] at hbeyond
    exact hbeyond
  · rw [AssocMap.get_insert_self] at hget
    cases hget
    exact le_rfl

section Steps

variable [Primitives] {em em' : Established}

/-- Histories only grow. -/
theorem RatchetStep.history_suffix (hstep : RatchetStep em em') : em.history <:+ em'.history := by
  cases hstep with
  | peek senderPk seq nowMs =>
      rw [em.peekKeys_history senderPk nowMs]
      exact List.suffix_cons _ _
  | commit senderPk seq key nodeHash =>
      rw [em.commitNodeKey_history]
      exact List.suffix_cons _ _
  | track senderPk seq => exact List.suffix_cons _ _
  | seed senderPk epoch payload =>
      obtain ⟨_, _, -, hhistory, -⟩ | ⟨-, hhistory, -⟩ :=
        em.seedSender_cases senderPk epoch payload
      · rw [hhistory]
        exact List.suffix_cons _ _
      · exact hhistory ▸ List.suffix_rfl
  | other hratchets hskipped hhistory => exact hhistory ▸ List.suffix_rfl

/-- In an orderly history a ratchet never falls behind a bound of its epoch. -/
theorem RatchetStep.ahead {epoch bound : Nat} (hstep : RatchetStep em em')
    (horderly : Orderly em'.history) (hahead : Ahead em senderPk epoch bound) :
    Ahead em' senderPk epoch bound := by
  refine ⟨hahead.committed.mono hstep.history_suffix, ?_⟩
  intro ratchet hget hepoch
  cases hstep with
  | peek other seq nowMs =>
      rw [em.peekKeys_ratchets other nowMs] at hget
      exact hahead.bounded hget hepoch
  | commit other seq key nodeHash =>
      rw [em.commitNodeKey_ratchets] at hget
      rw [em.commitNodeKey_history] at horderly
      split at hget
      · exact hahead.bounded hget hepoch
      next hbeyond =>
        rw [AssocMap.get_insert] at hget
        split at hget
        next heq =>
          -- The commit moves this ratchet: it was found in the epoch, before the message.
          subst heq
          cases hget
          simp only at hepoch
          subst hepoch
          have hfound := horderly.1 hahead.committed
          simp only [Established.ratchetEpoch, Option.map_eq_some_iff] at hfound
          obtain ⟨old, hold, holdEpoch⟩ := hfound
          have hbound := hahead.bounded hold holdEpoch
          simp only [Established.ratchetBeyond, hold, holdEpoch, lt_irrefl, decide_false,
            decide_true, Bool.true_and, Bool.false_or, decide_eq_true_eq, not_le] at hbeyond
          exact hbound.trans hbeyond.le
        · exact hahead.bounded hget hepoch
  | track other seq =>
      rw [Established.trackSenderSeq_ratchets] at hget
      split at hget
      next heq =>
        subst heq
        obtain ⟨old, hold, rfl⟩ := Option.map_eq_some_iff.mp hget
        have hfound : em.ratchetEpoch senderPk = some old.epochId := by
          simp [Established.ratchetEpoch, hold]
        split at hepoch
        next hmoves =>
          subst hepoch
          have hle := horderly.1 hahead.committed old.epochId hfound
          simp only [Bool.or_eq_true, Bool.and_eq_true, decide_eq_true_eq] at hmoves
          have hsame : old.epochId = epochOf seq := by omega
          have hbound := hahead.bounded hold hsame
          rw [if_pos (by simpa using hmoves)]
          simp only
          omega
        next hstays =>
          rw [if_neg hstays]
          exact hahead.bounded hold hepoch
      · exact hahead.bounded hget hepoch
  | seed other seedEpoch payload =>
      obtain ⟨lastSeq, key, hratchets, hhistory, -⟩ | ⟨hratchets, -, -⟩ :=
        em.seedSender_cases other seedEpoch payload
      · rw [hratchets, AssocMap.get_insert] at hget
        rw [hhistory] at horderly
        split at hget
        next heq =>
          subst heq
          cases hget
          simp only at hepoch
          subst hepoch
          exact absurd hahead.committed horderly.1.1
        · exact hahead.bounded hget hepoch
      · rw [hratchets] at hget
        exact hahead.bounded hget hepoch
  | other hratchets hskipped hhistory =>
      exact hahead.bounded (hratchets _ _ hget) hepoch

/-- A consumed key does not come back: a look-up steps over no consumed number. -/
theorem Forward.notSkipped_step (hforward : Forward em) (hstep : RatchetStep em em')
    (horderly : Orderly em'.history) {seq : Nat} (hcommitted : Committed em.history senderPk seq) :
    em'.skippedKeys.get (senderPk, seq) = none := by
  have habsent := hforward.notSkipped hcommitted
  cases hstep with
  | peek other message nowMs =>
      rw [em.peekKeys_history other nowMs] at horderly
      refine Established.get_peekKeys_of_none habsent ?_
      rintro ⟨heq, hbefore, ⟨helsewhere, hepoch⟩ | ⟨ratchet, hget, hepoch, hafter, hreach⟩⟩
      · simp only at heq hepoch
        subst heq
        exact helsewhere (horderly.1 (hepoch ▸ hcommitted.committedIn))
      · simp only at heq hafter hbefore
        subst heq
        -- The number lies between the ratchet and the message, so it is in their epoch.
        have hstart := epochOf_mul_le message.toNat
        have hsame : epochOf seq = epochOf message.toNat := by
          refine epochOf_eq_of_between ?_ hbefore.le
          rcases hforward.inEpoch hget with hin | hfar
          · rw [hepoch] at hin
            omega
          · rw [hepoch] at hfar
            omega
        have hle := hforward.behind hcommitted hget (hepoch.trans hsame.symm)
        omega
  | commit other message key nodeHash =>
      rw [em.commitNodeKey_skipped, AssocMap.erase,
        AssocMap.get_retain, habsent]
      rfl
  | track other message => exact habsent
  | seed other epoch payload =>
      obtain ⟨_, _, -, -, hskipped⟩ | ⟨-, -, hskipped⟩ := em.seedSender_cases other epoch payload
      · rw [hskipped]
        exact habsent
      · rw [hskipped]
        exact habsent
  | other hratchets hskipped hhistory =>
      rw [hskipped]
      exact habsent

/-- A ratchet that a step moves stands in its epoch again. -/
theorem Forward.inEpoch_step (hforward : Forward em) (hstep : RatchetStep em em')
    (horderly : Orderly em'.history) {ratchet : SenderRatchet}
    (hget : em'.senderRatchets.get senderPk = some ratchet) :
    InEpoch ratchet.epochId ratchet.lastSeq := by
  cases hstep with
  | peek other message nowMs =>
      rw [em.peekKeys_ratchets other nowMs] at hget
      exact hforward.inEpoch hget
  | commit other message key nodeHash =>
      rw [em.commitNodeKey_ratchets] at hget
      split at hget
      · exact hforward.inEpoch hget
      · rw [AssocMap.get_insert] at hget
        split at hget
        · cases hget
          exact inEpoch_epochOf message
        · exact hforward.inEpoch hget
  | track other message =>
      rw [Established.trackSenderSeq_ratchets] at hget
      split at hget
      · obtain ⟨old, hold, rfl⟩ := Option.map_eq_some_iff.mp hget
        split
        · exact inEpoch_epochOf message
        · exact hforward.inEpoch hold
      · exact hforward.inEpoch hget
  | seed other epoch payload =>
      obtain ⟨lastSeq, key, hratchets, hhistory, -⟩ | ⟨hratchets, -, -⟩ :=
        em.seedSender_cases other epoch payload
      · rw [hratchets, AssocMap.get_insert] at hget
        rw [hhistory] at horderly
        split at hget
        · cases hget
          exact horderly.1.2
        · exact hforward.inEpoch hget
      · rw [hratchets] at hget
        exact hforward.inEpoch hget
  | other hratchets hskipped hhistory => exact hforward.inEpoch (hratchets _ _ hget)

/-- The key a step consumes, if it consumes one, is a commit's. -/
theorem RatchetStep.committed_cases (hstep : RatchetStep em em') {seq : Nat}
    (hcommitted : Committed em'.history senderPk seq) :
    Committed em.history senderPk seq ∨
      ∃ key nodeHash, em' =
        (em.commitNodeKey senderPk seq key nodeHash (epochOf seq)).2 := by
  cases hstep with
  | peek other message nowMs =>
      rw [em.peekKeys_history other nowMs] at hcommitted
      rcases committed_cons_iff.mp hcommitted with ⟨_, _, heq⟩ | hold
      · cases heq
      · exact .inl hold
  | commit other message key nodeHash =>
      rw [em.commitNodeKey_history] at hcommitted
      rcases committed_cons_iff.mp hcommitted with ⟨_, _, heq⟩ | hold
      · cases heq
        exact .inr ⟨key, nodeHash, rfl⟩
      · exact .inl hold
  | track other message =>
      rcases committed_cons_iff.mp hcommitted with ⟨_, _, heq⟩ | hold
      · cases heq
      · exact .inl hold
  | seed other epoch payload =>
      obtain ⟨_, _, -, hhistory, -⟩ | ⟨-, hhistory, -⟩ :=
        em.seedSender_cases other epoch payload
      · rw [hhistory] at hcommitted
        rcases committed_cons_iff.mp hcommitted with ⟨_, _, heq⟩ | hold
        · cases heq
        · exact .inl hold
      · exact .inl (hhistory ▸ hcommitted)
  | other hratchets hskipped hhistory => exact .inl (hhistory ▸ hcommitted)

theorem Forward.step (hforward : Forward em) (hstep : RatchetStep em em')
    (horderly : Orderly em'.history) : Forward em' where
  notSkipped hcommitted := by
    rcases hstep.committed_cases hcommitted with hold | ⟨key, nodeHash, rfl⟩
    · exact hforward.notSkipped_step hstep horderly hold
    · rw [em.commitNodeKey_skipped]
      exact AssocMap.get_erase_self _ _
  behind hcommitted hget hepoch := by
    rcases hstep.committed_cases hcommitted with hold | ⟨key, nodeHash, rfl⟩
    · have hahead : Ahead em _ _ _ := ⟨hold.committedIn, fun h => hforward.behind hold h⟩
      exact (hstep.ahead horderly hahead).bounded hget hepoch
    · exact commitNodeKey_behind em _ _ key nodeHash hget hepoch
  inEpoch hget := hforward.inEpoch_step hstep horderly hget

end Steps

/-! ## Runs of the ratchets -/

section Runs

open Relation

variable [Primitives] {em em' : Established}

/-- Any number of steps. -/
abbrev RatchetRun (em em' : Established) : Prop := ReflTransGen RatchetStep em em'

theorem RatchetRun.history_suffix (hrun : RatchetRun em em') : em.history <:+ em'.history := by
  induction hrun with
  | refl => exact List.suffix_rfl
  | tail _ hstep ih => exact ih.trans hstep.history_suffix

theorem RatchetRun.ahead {epoch bound : Nat} (hrun : RatchetRun em em')
    (horderly : Orderly em'.history) (hahead : Ahead em senderPk epoch bound) :
    Ahead em' senderPk epoch bound := by
  induction hrun with
  | refl => exact hahead
  | tail _ hstep ih =>
      exact hstep.ahead horderly (ih (horderly.suffix hstep.history_suffix))

end Runs

end MerkleTox.Core
