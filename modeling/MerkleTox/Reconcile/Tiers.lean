import MerkleTox.Reconcile.FetchQueue

/-! # Larger sketches

A range starts with a small sketch. Where one fails, here or at the peer, the next is larger,
until the largest has failed too.
-/

namespace MerkleTox.Reconcile

open MerkleTox.Core Library
open IbltSketch (encode)

/-- How far the sketches of a range have grown; after the largest there is none. -/
def tierLevel : Option Tier → Nat
  | some .tiny => 0
  | some .small => 1
  | some .medium => 2
  | some .large => 3
  | none => 4

theorem tierLevel_le (tier : Option Tier) : tierLevel tier ≤ 4 := by
  rcases tier with _ | tier
  · exact Nat.le_refl 4
  · cases tier <;> decide

/-- A failure moves its own range up, and no other. -/
theorem ActiveSession.tierLevel_promote (session : ActiveSession) (failed range : SyncRange) :
    tierLevel ((session.promoteIbltTier failed).getIbltTier range) =
      min 4 (tierLevel (session.getIbltTier range) + if failed = range then 1 else 0) := by
  split
  next hrange =>
    subst hrange
    cases hget : session.getIbltTier failed with
    | none =>
        have hsame : session.promoteIbltTier failed = session := by rw [promoteIbltTier, hget]
        rw [hsame, hget]
        rfl
    | some tier =>
        have hopen : failed ∉ session.exhaustedIbltRanges := by
          intro hmem
          rw [getIbltTier, if_pos (List.contains_iff_mem.mpr hmem)] at hget
          cases hget
        rw [promoteIbltTier, hget]
        cases tier <;>
          simp [getIbltTier, hopen, tierLevel, mem_insertOnce, AssocMap.get_insert_self]
  next hrange =>
    have hsame : (session.promoteIbltTier failed).getIbltTier range =
        session.getIbltTier range := by
      unfold promoteIbltTier
      split <;> simp [getIbltTier, AssocMap.get_insert_of_ne, AssocMap.get_erase_of_ne,
        mem_insertOnce, Ne.symm hrange]
    rw [hsame]
    exact (min_eq_right (tierLevel_le _)).symm

section

variable [Primitives] [IbltHash]

/-- The range of a sketch that could not be decoded, here or at the peer. -/
def SessionEvent.failed (conversationId : ConversationId) : SessionEvent → Option SyncRange
  | .reconFail range => some range
  | .sketch received overlay kIblt =>
      if received.conversationId ≠ conversationId then none
      else
        match IbltSketch.subtract ⟨received.cells, kIblt⟩
          (encode received.cells.length kIblt (overlay.getNodeHashesInRange received.range)) with
        | .error _ => none
        | .ok difference => if difference.decode.isOk then none else some received.range
  | _ => none

namespace ActiveSession

variable {session next : ActiveSession}

/-- What an event does to the sketches: the range of one that fails is promoted. -/
theorem getIbltTier_step {event : SessionEvent} (hok : session.step event = some next) :
    next.conversationId = session.conversationId ∧
      next.getIbltTier = ((event.failed session.conversationId).elim session
        session.promoteIbltTier).getIbltTier := by
  have hpromoted : ∀ failed, (session.promoteIbltTier failed).conversationId =
      session.conversationId := by
    intro failed
    unfold promoteIbltTier
    split <;> rfl
  cases event with
  | heads heads overlay =>
      cases hok
      unfold handleSyncHeads
      split <;> exact ⟨rfl, rfl⟩
  | sketch received overlay kIblt =>
      cases hok
      simp only [handleSyncSketchKeyed, SessionEvent.failed]
      split
      · exact ⟨rfl, rfl⟩
      · cases IbltSketch.subtract ⟨received.cells, kIblt⟩
            (encode received.cells.length kIblt (overlay.getNodeHashesInRange received.range)) with
        | error error => exact ⟨rfl, rfl⟩
        | ok difference =>
            dsimp only
            cases difference.decode with
            | error error => exact ⟨hpromoted received.range, rfl⟩
            | ok found => exact ⟨rfl, rfl⟩
  | reconFail failed =>
      cases hok
      exact ⟨hpromoted failed, rfl⟩
  | gossip nodeHash overlay =>
      cases hok
      unfold onAdminGossip
      split <;> exact ⟨rfl, rfl⟩
  | node node store hasBlob =>
      rw [step, onNodeReceived] at hok
      split at hok <;> cases hok
      exact ⟨rfl, rfl⟩
  | wireNode nodeHash wire store =>
      cases hok
      exact ⟨rfl, rfl⟩
  | batch batchSize =>
      cases hok
      exact ⟨rfl, rfl⟩

/-- In every run the level of a range is the one it started with, raised by one for each of its
sketches that failed, up to where there are no sketches left. -/
theorem run_tierLevel {session after : ActiveSession} {events : List SessionEvent}
    (hrun : session.run events = some after) (range : SyncRange) :
    tierLevel (after.getIbltTier range) = min 4 (tierLevel (session.getIbltTier range) +
      events.countP (SessionEvent.failed session.conversationId · = some range)) := by
  induction events generalizing session with
  | nil =>
      cases hrun
      exact (min_eq_right (tierLevel_le _)).symm
  | cons event rest ih =>
      obtain ⟨between, hstep, hrest⟩ := Option.bind_eq_some_iff.mp hrun
      obtain ⟨hconversation, htier⟩ := getIbltTier_step hstep
      rw [ih hrest, hconversation, htier, List.countP_cons]
      cases SessionEvent.failed session.conversationId event with
      | none => simp
      | some failed =>
          rw [Option.elim_some, tierLevel_promote]
          simp only [Option.some.injEq, decide_eq_true_eq]
          omega

end ActiveSession

end

namespace Reference

open MerkleTox.Core.Reference (room)

/-- A sketch whose one cell holds two hashes fails, as do the peer's of another range and the
next of this range. -/
def failures : List SessionEvent :=
  [.sketch ⟨room, [⟨2, 0, 0⟩], ⟨0, 9⟩⟩ ⟨.new, .new⟩ none, .reconFail ⟨1, 5⟩,
    .gossip ⟨14⟩ ⟨.new, .new⟩, .reconFail ⟨0, 9⟩]

def failing : ActiveSession := (asking.run failures).getD asking

theorem run_tierLevel_failing :
    tierLevel (failing.getIbltTier ⟨0, 9⟩) = 3 ∧ tierLevel (failing.getIbltTier ⟨1, 5⟩) = 2 := by
  have hrun : asking.run failures = some failing := rfl
  constructor
  · rw [ActiveSession.run_tierLevel hrun ⟨0, 9⟩]
    decide +kernel
  · rw [ActiveSession.run_tierLevel hrun ⟨1, 5⟩]
    decide +kernel

end Reference

end MerkleTox.Reconcile
