import Mathlib.Data.List.TakeWhile
import MerkleTox.Fs.JournalFile
import MerkleTox.Fs.Reference

/-! # Recovery of the journal

A crash leaves a torn record or a torn footer behind the records of a journal. When the
records that are appended once it is read again are found, and found where they are.
-/

namespace MerkleTox.Fs

open Library Proto MerkleTox.Core

namespace JournalFile

variable [WireFormat]

/-- What is appended: a type and a payload. -/
abbrev Entry := RecordType × Bytes

def writeEntry (entry : Entry) : Bytes :=
  writeFields (WireFormat.blake3 entry.2, entry.1, entry.2)

/-- The records of the entries, the first at the given offset. -/
def placed (offset : Nat) : List Entry → List Record
  | [] => []
  | entry :: rest =>
      ⟨WireFormat.blake3 entry.2, entry.1, entry.2, offset⟩ ::
        placed (offset + recordSize entry.2) rest

def appendAll (journal : Journal) (entries : List Entry) : Journal :=
  entries.foldl (fun journal entry => (journal.append entry.1 entry.2).2) journal

/-- No record can be read at the front, or none with the hash of its payload. -/
def Rejected (input : Bytes) : Prop :=
  ∀ fields rest, readFields input = some (fields, rest) → WireFormat.blake3 fields.2.2 ≠ fields.1

/-- The hash of a payload that is too long for its four bytes is not that of the part which
they tell. -/
def RejectsLong (entry : Entry) : Prop :=
  ¬ Short entry.2 →
    WireFormat.blake3 (entry.2.take (entry.2.length % 2 ^ 32)) ≠ WireFormat.blake3 entry.2

/-! ## Walking -/

variable {input data rest : Bytes} {fuel offset : Nat} {entry : Entry} {contents header : Bytes}

omit [WireFormat] in
theorem le_of_readExact {n : Nat} (hread : readExact n input = some (data, rest)) :
    n ≤ input.length := by
  rw [readExact] at hread
  split at hread
  next hle => exact hle
  next => cases hread

omit [WireFormat] in
theorem length_of_readExact {n : Nat} (hread : readExact n input = some (data, rest)) :
    rest.length + n = input.length := by
  have hle := le_of_readExact hread
  rw [readExact, if_pos hle] at hread
  obtain ⟨-, rfl⟩ := Prod.mk.inj (Option.some.inj hread)
  rw [List.length_drop]
  omega

omit [WireFormat] in
theorem readLe_isNone_iff {width : Nat} {input : Bytes} :
    (readLe width input).isNone = true ↔ input.length < width := by
  rw [readLe, readExact]
  split
  next hle => simp [hle]
  next hlt => simpa using hlt

theorem length_writeEntry (entry : Entry) : (writeEntry entry).length = recordSize entry.2 :=
  length_writeFields _ _ _

variable {tail : Bytes} {entries : List Entry} {journal : Journal}

/-- A tail that is too short for a length is left as it is. -/
theorem walk_short (hlength : tail.length < 4) : walk fuel offset tail = ([], none) := by
  cases fuel with
  | zero => rfl
  | succ fuel => rw [walk, if_pos (readLe_isNone_iff.mpr hlength)]

theorem walk_rejected (hlength : 4 ≤ tail.length) (hrejected : Rejected tail)
    (hfuel : tail.length ≤ fuel) : walk fuel offset tail = ([], some offset) := by
  cases fuel with
  | zero => omega
  | succ fuel =>
      rw [walk, if_neg fun hnone => absurd (readLe_isNone_iff.mp hnone) (by omega)]
      cases hread : readFields tail with
      | none => rfl
      | some found =>
          obtain ⟨⟨nodeHash, recordType, payload⟩, rest⟩ := found
          exact if_pos (hrejected _ _ hread)

theorem walk_entry (hshort : Short entry.2) (rest : Bytes) :
    walk (fuel + 1) offset (writeEntry entry ++ rest) =
      (⟨WireFormat.blake3 entry.2, entry.1, entry.2, offset⟩ ::
          (walk fuel (offset + recordSize entry.2) rest).1,
        (walk fuel (offset + recordSize entry.2) rest).2) := by
  have hlength : ¬ (writeEntry entry ++ rest).length < 4 := by
    rw [List.length_append, length_writeEntry, recordSize]
    omega
  have hread : readFields (writeEntry entry ++ rest) =
      some ((WireFormat.blake3 entry.2, entry.1, entry.2), rest) := by
    rw [writeEntry, readFields_writeFields_append, Nat.mod_eq_of_lt hshort, List.take_length,
      List.drop_length, List.nil_append]
  rw [walk, if_neg fun hnone => hlength (readLe_isNone_iff.mp hnone), hread]
  dsimp only
  rw [if_neg fun hne => hne rfl]

/-- Walking finds the entries, then goes on with what follows them. -/
theorem walk_entries (hshort : ∀ entry ∈ entries, Short entry.2) {cut : Option Nat} (offset : Nat)
    (htail : ∀ fuel, tail.length ≤ fuel →
      walk fuel (offset + (encodeAll writeEntry entries).length) tail = ([], cut)) {fuel : Nat}
    (hfuel : (encodeAll writeEntry entries ++ tail).length ≤ fuel) :
    walk fuel offset (encodeAll writeEntry entries ++ tail) = (placed offset entries, cut) := by
  induction entries generalizing offset fuel with
  | nil => exact htail fuel hfuel
  | cons entry rest ih =>
      rw [List.forall_mem_cons] at hshort
      rw [encodeAll_cons, List.length_append, length_writeEntry, ← Nat.add_assoc] at htail
      rw [encodeAll_cons, List.append_assoc, List.length_append, length_writeEntry, recordSize]
        at hfuel
      rw [encodeAll_cons, List.append_assoc, placed]
      cases fuel with
      | zero => omega
      | succ fuel => rw [walk_entry hshort.1, ih hshort.2 _ htail (by omega)]

/-! ## Tails -/

/-- What is left of a tail once it was read. -/
def kept (tail : Bytes) : Bytes := if tail.length < 4 then tail else []

omit [WireFormat] in
theorem length_kept (tail : Bytes) : (kept tail).length < 4 := by
  unfold kept
  split
  next hlt => exact hlt
  next => decide

theorem rejected_torn {torn more : Bytes} (hrejects : RejectsLong entry) (hmore : more ≠ [])
    (htorn : torn ++ more = writeEntry entry) : Rejected torn := by
  rintro ⟨nodeHash, recordType, payload⟩ rest hread
  have hwhole := readFields_append_right hread more
  have hentry := readFields_writeFields_append (WireFormat.blake3 entry.2) entry.1 entry.2 []
  rw [List.append_nil, List.append_nil] at hentry
  rw [htorn, writeEntry, hentry] at hwhole
  obtain ⟨hfields, hrest⟩ := Prod.mk.inj (Option.some.inj hwhole)
  obtain ⟨rfl, -, rfl⟩ : WireFormat.blake3 entry.2 = nodeHash ∧ entry.1 = recordType ∧
      entry.2.take (entry.2.length % 2 ^ 32) = payload := by simpa using hfields
  refine hrejects fun hshort => hmore ?_
  rw [Nat.mod_eq_of_lt hshort, List.drop_length] at hrest
  exact (List.append_eq_nil_iff.mp hrest.symm).2

theorem rejected_long (hrejects : RejectsLong entry) (hlong : ¬ Short entry.2) (rest : Bytes) :
    Rejected (writeEntry entry ++ rest) := by
  rintro fields after hread
  rw [writeEntry, readFields_writeFields_append] at hread
  obtain ⟨rfl, -⟩ := Prod.mk.inj (Option.some.inj hread)
  exact hrejects hlong

omit [WireFormat] in
/-- Bytes that start with the magic of a footer and end soon are no record. -/
theorem readFields_magic {rest : Bytes} (hlength : rest.length ≤ 36) :
    readFields (toLe 4 journalFooterMagic ++ rest) = none := by
  rw [Option.eq_none_iff_forall_ne_some]
  rintro ⟨fields, after⟩ hread
  simp only [readFields, Option.bind_eq_bind, Option.bind_eq_some_iff] at hread
  obtain ⟨⟨length, _⟩, hmagic, ⟨nodeHash, afterHash⟩, hhash, ⟨byte, afterType⟩, hbyte, -, -,
    ⟨payload, afterPayload⟩, hpayload, -⟩ := hread
  rw [readLe_toLe_append 4 (by decide)] at hmagic
  obtain ⟨rfl, rfl⟩ := Prod.mk.inj (Option.some.inj hmagic)
  have hle := le_of_readExact hpayload
  have hafter : afterHash.length + 32 = rest.length := length_of_readExact hhash
  have htype : afterType.length + 1 = afterHash.length := by
    cases afterHash with
    | nil => cases hbyte
    | cons first others =>
        obtain ⟨-, rfl⟩ := Prod.mk.inj (Option.some.inj hbyte)
        rfl
  dsimp only at hle
  rw [journalFooterMagic] at hle
  omega

theorem rejected_footer {torn more : Bytes} {records : List Record}
    (htorn : torn ++ more = Journal.footerOf records) : Rejected torn := by
  intro fields rest hread
  have hwhole := readFields_append_right hread more
  rw [htorn, Journal.footerOf, List.append_assoc, readFields_magic] at hwhole
  · cases hwhole
  · simp [hashBytes]

/-! ## Reading -/

/-- The file of a journal with the entries and a tail that was read before. -/
structure Holds (journal : Journal) (entries : List Entry) (tail : Bytes) : Prop where
  short : ∀ entry ∈ entries, Short entry.2
  contents : ∃ header, header.length = 16 ∧
    journal.contents = header ++ encodeAll writeEntry entries ++ tail

/-- Reading finds the entries, and leaves a tail only if it is too short for a length. -/
theorem Holds.readAll (h : Holds journal entries tail) (htail : 4 ≤ tail.length → Rejected tail) :
    journal.readAll.1 = placed 16 entries ∧
      Holds journal.readAll.2 entries (kept tail) ∧
        journal.readAll.2.hasFooter = journal.hasFooter := by
  obtain ⟨header, hheader, hcontents⟩ := h.contents
  have hdrop : journal.contents.drop 16 = encodeAll writeEntry entries ++ tail := by
    rw [hcontents, List.append_assoc, ← hheader, List.drop_left]
  have hfuel : (encodeAll writeEntry entries ++ tail).length ≤ journal.contents.length := by
    rw [← hdrop, List.length_drop]
    omega
  by_cases hlength : tail.length < 4
  · have hwalk := walk_entries h.short 16 (fun _ _ => walk_short hlength) hfuel
    rw [Journal.readAll, hdrop, hwalk, kept, if_pos hlength]
    exact ⟨rfl, ⟨h.short, header, hheader, hcontents⟩, rfl⟩
  · have hwalk := walk_entries h.short 16
      (fun fuel => walk_rejected (by omega) (htail (by omega))) hfuel
    have hcut : setLen journal.contents (16 + (encodeAll writeEntry entries).length) =
        header ++ encodeAll writeEntry entries := by
      have hend : 16 + (encodeAll writeEntry entries).length =
          (header ++ encodeAll writeEntry entries).length := by
        rw [List.length_append, hheader]
      rw [setLen, hcontents, hend, List.append_assoc (header ++ _), List.take_left]
    rw [Journal.readAll, hdrop, hwalk, kept, if_neg hlength]
    exact ⟨rfl, ⟨h.short, header, hheader, hcut.trans (List.append_nil _).symm⟩, rfl⟩

/-! ## Appending -/

theorem endOffset_placed (entries : List Entry) (offset : Nat) :
    (match (placed offset entries).getLast? with
      | some last => last.offset + 4 + 32 + 1 + last.payload.length
      | none => offset) = offset + (encodeAll writeEntry entries).length := by
  induction entries generalizing offset with
  | nil => rfl
  | cons entry rest ih =>
      rw [encodeAll_cons, List.length_append, length_writeEntry, ← Nat.add_assoc, ← ih, placed,
        List.getLast?_cons]
      cases (placed (offset + recordSize entry.2) rest).getLast? with
      | none => simp only [Option.getD_none, recordSize]; omega
      | some last => rfl

/-- Where a footer was found, the tail is cut off before anything is appended. -/
theorem Holds.dropFooter (h : Holds journal entries tail) (htail : tail.length < 4) :
    Holds journal.dropFooter entries (if journal.hasFooter then [] else tail) ∧
      journal.dropFooter.hasFooter = false := by
  rw [Journal.dropFooter]
  by_cases hfooter : journal.hasFooter = true
  · obtain ⟨hrecords, ⟨-, header, hheader, hcontents⟩, -⟩ := h.readAll fun hle => by omega
    rw [if_pos hfooter, if_pos hfooter]
    have hend := endOffset_placed entries 16
    rw [← hrecords] at hend
    refine ⟨⟨h.short, header, hheader, ?_⟩, rfl⟩
    have hlength : 16 + (encodeAll writeEntry entries).length =
        (header ++ encodeAll writeEntry entries).length := by
      rw [List.length_append, hheader]
    refine (congrArg (setLen journal.readAll.2.contents) hend).trans ?_
    rw [setLen, hcontents, hlength, List.append_assoc (header ++ _), List.take_left,
      List.append_nil]
  · rw [if_neg hfooter, if_neg hfooter]
    exact ⟨h, by simpa using hfooter⟩

theorem contents_append (journal : Journal) (entry : Entry) :
    (journal.append entry.1 entry.2).2.contents =
        journal.dropFooter.contents ++ writeEntry entry ∧
      (journal.append entry.1 entry.2).2.hasFooter = journal.dropFooter.hasFooter :=
  ⟨rfl, rfl⟩

theorem contents_appendAll (hfooter : journal.hasFooter = false) (entries : List Entry) :
    (appendAll journal entries).contents = journal.contents ++ encodeAll writeEntry entries := by
  induction entries generalizing journal with
  | nil => exact (List.append_nil _).symm
  | cons entry rest ih =>
      have hdrop : journal.dropFooter = journal := by
        rw [Journal.dropFooter, hfooter]
        rfl
      obtain ⟨hcontents, hfooter'⟩ := contents_append journal entry
      rw [hdrop] at hcontents hfooter'
      change (appendAll (journal.append entry.1 entry.2).2 rest).contents = _
      rw [ih (hfooter'.trans hfooter), hcontents, encodeAll_cons, List.append_assoc]

/-- What stands before the entries that are appended. -/
theorem Holds.appendAll (h : Holds journal entries tail) (htail : tail.length < 4)
    (second : List Entry) :
    ∃ header, header.length = 16 ∧ (appendAll journal second).contents =
      header ++ encodeAll writeEntry entries ++
        ((if journal.hasFooter ∧ second ≠ [] then [] else tail) ++
          encodeAll writeEntry second) := by
  cases second with
  | nil =>
      obtain ⟨header, hheader, hcontents⟩ := h.contents
      refine ⟨header, hheader, ?_⟩
      rw [if_neg fun hboth => hboth.2 rfl, encodeAll_nil, List.append_nil]
      exact hcontents
  | cons entry rest =>
      obtain ⟨⟨-, header, hheader, hcontents⟩, hfooter⟩ := h.dropFooter htail
      obtain ⟨happend, hfooter'⟩ := contents_append journal entry
      refine ⟨header, hheader, ?_⟩
      change (JournalFile.appendAll (journal.append entry.1 entry.2).2 rest).contents = _
      rw [contents_appendAll (hfooter'.trans hfooter), happend, hcontents, encodeAll_cons]
      have hcons : entry :: rest ≠ [] := List.cons_ne_nil _ _
      simp only [hcons, ne_eq, not_false_eq_true, and_true, List.append_assoc]

/-! ## A crash -/

/-- The file a crash leaves behind: the torn bytes are part of a further record, or of the
footer that follows the records that were read. -/
inductive Crashes (journal : Journal) (further : Entry) (torn : Bytes) : Bytes → Prop
  | append (more : Bytes) (hmore : more ≠ []) (htorn : torn ++ more = writeEntry further) :
      Crashes journal further torn (journal.contents ++ torn)
  | footer (more : Bytes) (hmore : more ≠ [])
      (htorn : torn ++ more = Journal.footerOf journal.readAll.1) :
      Crashes journal further torn (journal.readAll.2.contents ++ torn)

/-- The journal once the file was read after the crash, more was appended, and it is opened
again. -/
def reopened (file : Bytes) (second : List Entry) (now later : Nat) : Journal :=
  Journal.open (appendAll (Journal.open file now).readAll.2 second).contents later

/-- Everything that was appended is read, and each record is found at its offset. -/
def Recovers (first second : List Entry) (file : Bytes) (now later : Nat) : Prop :=
  ((reopened file second now later).readAll.1.map fun record =>
      (record.hash, record.recordType, record.payload)) =
      ((first ++ second).map fun entry => (WireFormat.blake3 entry.2, entry.1, entry.2)) ∧
    ∀ record ∈ (reopened file second now later).readAll.1,
      (reopened file second now later).readAll.2.readRecordAt record.offset = some record

/-- The hash does not accept what a torn file has in its place: the part of a long payload,
or the records behind a torn length. -/
structure Rejects (first second : List Entry) (further : Entry) (torn : Bytes) : Prop where
  long : ∀ entry ∈ further :: (first ++ second), RejectsLong entry
  misread : torn ≠ [] → torn.length < 4 → Rejected (torn ++ encodeAll writeEntry second)

/-- Every payload fits its four bytes, and the crash leaves nothing of a length behind, unless
nothing is appended or the file seems to have a footer. -/
def Recoverable (first second : List Entry) (file torn : Bytes) (now : Nat) : Prop :=
  (∀ entry ∈ first ++ second, Short entry.2) ∧
    (torn = [] ∨ 4 ≤ torn.length ∨ second = [] ∨ (Journal.open file now).hasFooter = true)

/-- The entries before the first whose payload is too long. -/
def shortPart (entries : List Entry) : List Entry :=
  entries.takeWhile fun entry => entry.2.length < 2 ^ 32

omit [WireFormat] in
theorem short_of_mem_shortPart (hmem : entry ∈ shortPart entries) : Short entry.2 := by
  rw [shortPart] at hmem
  have hlt := List.mem_takeWhile_imp hmem
  rw [decide_eq_true_iff] at hlt
  exact hlt

omit [WireFormat] in
theorem shortPart_eq (hshort : ∀ entry ∈ entries, Short entry.2) : shortPart entries = entries :=
  List.takeWhile_eq_self_iff.mpr fun entry hmem => decide_eq_true (hshort entry hmem)

omit [WireFormat] in
theorem length_shortPart_le (entries : List Entry) :
    (shortPart entries).length ≤ entries.length :=
  (List.takeWhile_sublist _).length_le

/-- Behind the short entries there is nothing, or what is there is rejected. -/
theorem exists_longPart (hrejects : ∀ entry ∈ entries, RejectsLong entry) :
    ∃ long, entries = shortPart entries ++ long ∧ (long = [] ∨ ∀ tail,
      4 ≤ (encodeAll writeEntry long ++ tail).length ∧
        Rejected (encodeAll writeEntry long ++ tail)) := by
  refine ⟨entries.dropWhile fun entry => entry.2.length < 2 ^ 32,
    List.takeWhile_append_dropWhile.symm, ?_⟩
  cases hlong : entries.dropWhile fun entry => entry.2.length < 2 ^ 32 with
  | nil => exact .inl rfl
  | cons entry rest =>
      refine .inr fun tail => ?_
      have hmem : entry ∈ entries :=
        (List.dropWhile_sublist _).subset (hlong ▸ List.mem_cons_self)
      have hnot : ¬ Short entry.2 := by
        have hhead := List.head_dropWhile_not
          (fun entry : Entry => decide (entry.2.length < 2 ^ 32))
          (by rw [hlong]; exact List.cons_ne_nil entry rest)
        simp only [hlong, List.head_cons, decide_eq_false_iff_not] at hhead
        exact hhead
      rw [encodeAll_cons, List.append_assoc]
      refine ⟨?_, rejected_long (hrejects entry hmem) hnot _⟩
      rw [List.length_append, length_writeEntry, recordSize]
      omega

theorem holds_open (now : Nat) (hshort : ∀ entry ∈ entries, Short entry.2)
    (hheader : header.length = 16)
    (hcontents : contents = header ++ encodeAll writeEntry entries ++ tail) :
    Holds (Journal.open contents now) entries tail := by
  refine ⟨hshort, header, hheader, ?_⟩
  have hlength : ¬ contents.length < 16 := by
    rw [hcontents, List.length_append, List.length_append]
    omega
  rw [Journal.open, if_neg hlength]
  exact hcontents

/-- The entries of a new journal stand behind its header. -/
theorem contents_created (first : List Entry) (created : Nat) :
    ∃ header, header.length = 16 ∧ (appendAll (Journal.open [] created) first).contents =
      header ++ encodeAll writeEntry first := by
  refine ⟨toLe 8 created ++ List.replicate 8 0, by simp, ?_⟩
  rw [contents_appendAll rfl]
  rfl

/-- What a crash leaves: the short entries, then a tail that is the torn bytes unless an entry
is too long. -/
theorem Crashes.file_eq {first : List Entry} {further : Entry} {torn file : Bytes} {created : Nat}
    (h : Crashes (appendAll (Journal.open [] created) first) further torn file)
    (hrejects : ∀ entry ∈ further :: first, RejectsLong entry) :
    ∃ header tail, header.length = 16 ∧
      file = header ++ encodeAll writeEntry (shortPart first) ++ tail ∧
      (4 ≤ tail.length → Rejected tail) ∧ (shortPart first = first → tail = torn) ∧
        (kept tail = [] ∨ kept tail = torn) := by
  obtain ⟨header, hheader, hcontents⟩ := contents_created first created
  rw [List.forall_mem_cons] at hrejects
  -- An entry that is too long ends what reopening reads; from it on, nothing counts.
  obtain ⟨long, hsplit, hlong⟩ := exists_longPart hrejects.2
  have hnil : shortPart first = first → long = [] := fun heq =>
    List.append_right_eq_self.mp (hsplit.symm.trans heq.symm)
  have hcontents' : (appendAll (Journal.open [] created) first).contents =
      header ++ encodeAll writeEntry (shortPart first) ++ encodeAll writeEntry long := by
    rw [hcontents, List.append_assoc, ← encodeAll_append, ← hsplit]
  have hkept : ∀ tail, kept tail = [] ∨ kept tail = tail := by
    intro tail
    unfold kept
    split
    · exact .inr rfl
    · exact .inl rfl
  cases h with
  | append more hmore htorn =>
      refine ⟨header, encodeAll writeEntry long ++ torn, hheader, ?_, ?_, ?_, ?_⟩
      · rw [hcontents', List.append_assoc]
      · intro _
        rcases hlong with rfl | hlong
        · exact rejected_torn hrejects.1 hmore htorn
        · exact (hlong torn).2
      · intro heq
        rw [hnil heq]
        rfl
      · rcases hlong with rfl | hlong
        · exact hkept torn
        · exact .inl (if_neg (by have := (hlong torn).1; omega))
  | footer more hmore htorn =>
      have hholds : Holds (appendAll (Journal.open [] created) first) (shortPart first)
          (encodeAll writeEntry long) :=
        ⟨fun _ => short_of_mem_shortPart, header, hheader, hcontents'⟩
      have hdone : kept (encodeAll writeEntry long) = [] := by
        rcases hlong with rfl | hlong
        · rfl
        · have hlength := (hlong []).1
          rw [List.append_nil] at hlength
          exact if_neg (by omega)
      -- Writing the footer reads the whole file first, which cuts off the long entries.
      obtain ⟨-, ⟨-, header', hheader', hread⟩, -⟩ := hholds.readAll fun hle => by
        rcases hlong with rfl | hlong
        · cases hle
        · have hrejected := (hlong []).2
          rwa [List.append_nil] at hrejected
      rw [hdone, List.append_nil] at hread
      exact ⟨header', torn, hheader', by rw [hread], fun _ => rejected_footer htorn,
        fun _ => rfl, hkept torn⟩

/-- What is read at the end: the second entries too, unless a torn length hides them. -/
theorem readAll_end {entries second : List Entry} (later : Nat)
    (hshort : ∀ entry ∈ entries, Short entry.2) (hrejects : ∀ entry ∈ second, RejectsLong entry)
    (hheader : header.length = 16) (hcontents : contents =
      header ++ encodeAll writeEntry entries ++ (tail ++ encodeAll writeEntry second))
    (htail : tail.length < 4)
    (hmisread : tail ≠ [] → Rejected (tail ++ encodeAll writeEntry second) ∨ second = []) :
    ∃ left, Holds (Journal.open contents later).readAll.2
        (if tail = [] then entries ++ shortPart second else entries) left ∧
      (Journal.open contents later).readAll.1 =
        placed 16 (if tail = [] then entries ++ shortPart second else entries) := by
  by_cases hnil : tail = []
  · obtain ⟨long, hsplit, hlong⟩ := exists_longPart hrejects
    rw [if_pos hnil]
    have hwritten : contents = header ++ encodeAll writeEntry (entries ++ shortPart second) ++
        encodeAll writeEntry long := by
      have hsecond : encodeAll writeEntry second =
          encodeAll writeEntry (shortPart second) ++ encodeAll writeEntry long := by
        rw [← encodeAll_append, ← hsplit]
      rw [hcontents, hnil, List.nil_append, hsecond, encodeAll_append]
      simp only [List.append_assoc]
    have hholds := holds_open later (fun entry hmem => (List.mem_append.mp hmem).elim
      (hshort entry) short_of_mem_shortPart) hheader hwritten
    obtain ⟨hrecords, hafter, -⟩ := hholds.readAll fun hle => by
      rcases hlong with rfl | hlong
      · cases hle
      · have hrejected := (hlong []).2
        rwa [List.append_nil] at hrejected
    exact ⟨_, hafter, hrecords⟩
  · rw [if_neg hnil]
    have hholds := holds_open later hshort hheader hcontents
    obtain ⟨hrecords, hafter, -⟩ := hholds.readAll fun hle => by
      refine (hmisread hnil).resolve_right ?_
      rintro rfl
      rw [encodeAll_nil, List.append_nil] at hle
      omega
    exact ⟨_, hafter, hrecords⟩

theorem map_placed (entries : List Entry) (offset : Nat) :
    ((placed offset entries).map fun record => (record.hash, record.recordType, record.payload)) =
      entries.map fun entry => (WireFormat.blake3 entry.2, entry.1, entry.2) := by
  induction entries generalizing offset with
  | nil => rfl
  | cons entry rest ih => rw [placed, List.map_cons, ih, List.map_cons]

/-- The records that a journal holds are found at their offsets. -/
theorem Holds.readRecordAt (h : Holds journal entries tail) {record : Record}
    (hmem : record ∈ placed 16 entries) : journal.readRecordAt record.offset = some record := by
  obtain ⟨header, hheader, hcontents⟩ := h.contents
  have hplaced : ∀ (entries : List Entry) (before : Bytes),
      (∀ entry ∈ entries, Short entry.2) →
      journal.contents = before ++ encodeAll writeEntry entries ++ tail →
      ∀ record ∈ placed before.length entries,
        journal.readRecordAt record.offset = some record := by
    intro entries
    induction entries with
    | nil => exact fun _ _ _ _ hmem => absurd hmem List.not_mem_nil
    | cons entry rest ih =>
        intro before hshort heq record hmem
        rw [List.forall_mem_cons] at hshort
        rw [encodeAll_cons] at heq
        rcases List.mem_cons.mp hmem with rfl | hrest
        · rw [Journal.readRecordAt, heq, List.append_assoc, List.drop_left, List.append_assoc,
            writeEntry, readFields_writeFields_append, Nat.mod_eq_of_lt hshort.1, List.take_length]
          rfl
        · refine ih (before ++ writeEntry entry) hshort.2 ?_ record ?_
          · rw [heq]
            simp only [List.append_assoc]
          · rwa [List.length_append, length_writeEntry]
  exact hplaced entries header h.short hcontents record (hheader ▸ hmem)

/-- After a crash the journal recovers exactly if it is recoverable. -/
theorem recovers_iff {first second : List Entry} {further : Entry} {torn file : Bytes}
    {created now later : Nat}
    (hcrashes : Crashes (appendAll (Journal.open [] created) first) further torn file)
    (hrejects : Rejects first second further torn) :
    Recovers first second file now later ↔ Recoverable first second file torn now := by
  obtain ⟨header, tail, hheader, hfile, htail, htorn, hkept⟩ := hcrashes.file_eq fun entry hmem =>
    hrejects.long entry (List.cons_subset_cons _ (List.subset_append_left _ _) hmem)
  obtain ⟨-, hread, hfooter⟩ :=
    (holds_open now (fun _ => short_of_mem_shortPart) hheader hfile).readAll htail
  obtain ⟨header', hheader', happended⟩ := hread.appendAll (length_kept tail) second
  rw [hfooter] at happended
  -- The bytes of the torn append that are still in the file when the second run has written; a
  -- footer with a later append cuts them off.
  generalize hleft : (if (Journal.open file now).hasFooter = true ∧ second ≠ [] then []
    else kept tail) = left at happended
  have hlength : left.length < 4 := by
    rw [← hleft]
    split
    · decide
    · exact length_kept tail
  obtain ⟨after, hholds, hrecords⟩ := readAll_end later
    (fun _ => short_of_mem_shortPart)
    (fun entry hmem => hrejects.long entry
      (List.mem_cons_of_mem _ (List.mem_append_right _ hmem)))
    hheader' happended hlength fun hne => by
      refine or_iff_not_imp_right.mpr fun hsecond => ?_
      have hopen : left = kept tail := by
        rw [← hleft]
        exact if_neg fun hboth => hne (hleft ▸ if_pos hboth)
      rcases hkept with hnone | hsame
      · exact absurd (hopen.trans hnone) hne
      · rw [hopen.trans hsame] at hne hlength ⊢
        exact hrejects.misread hne hlength
  have hfields : Function.Injective
      fun entry : Entry => (WireFormat.blake3 entry.2, entry.1, entry.2) := fun _ _ heq =>
    (Prod.mk.inj heq).2
  -- Records are what they were appended as, so recovery is a statement about the short prefixes
  -- alone.
  have hrecovers : Recovers first second file now later ↔
      (if left = [] then shortPart first ++ shortPart second else shortPart first) =
        first ++ second := by
    rw [Recovers, reopened, hrecords, map_placed, (List.map_injective_iff.mpr hfields).eq_iff]
    exact and_iff_left fun record hmem => hholds.readRecordAt hmem
  have hopen : ¬ ((Journal.open file now).hasFooter = true ∧ second ≠ []) →
      left = kept tail := fun hboth => hleft.symm.trans (if_neg hboth)
  rw [hrecovers]
  constructor
  · intro heq
    have hlengths := congrArg List.length heq
    -- A short prefix is no longer than its list, so equal totals make both prefixes whole.
    have hle := length_shortPart_le first
    have hle' := length_shortPart_le second
    by_cases hnil : left = []
    · rw [if_pos hnil] at heq hlengths
      rw [List.length_append, List.length_append] at hlengths
      obtain ⟨hfirst, hsecond⟩ := List.append_inj heq (by omega)
      refine ⟨fun entry hmem => ?_, ?_⟩
      · rcases List.mem_append.mp hmem with hmem | hmem
        · exact short_of_mem_shortPart (hfirst.symm ▸ hmem)
        · exact short_of_mem_shortPart (hsecond.symm ▸ hmem)
      · by_cases hboth : (Journal.open file now).hasFooter = true ∧ second ≠ []
        · exact .inr (.inr (.inr hboth.1))
        · have hgone := (hopen hboth).symm.trans hnil
          rw [htorn hfirst, kept] at hgone
          split at hgone
          next => exact .inl hgone
          next hlong => exact .inr (.inl (Nat.not_lt.mp hlong))
    · rw [if_neg hnil] at heq hlengths
      rw [List.length_append] at hlengths
      have hsecond : second = [] := List.eq_nil_of_length_eq_zero (by omega)
      rw [hsecond, List.append_nil] at heq
      refine ⟨fun entry hmem => ?_, .inr (.inr (.inl hsecond))⟩
      rw [hsecond, List.append_nil, ← heq] at hmem
      exact short_of_mem_shortPart hmem
  · rintro ⟨hshort, hcond⟩
    have hfirst := shortPart_eq fun entry hmem => hshort entry (List.mem_append_left _ hmem)
    have hsecond := shortPart_eq fun entry hmem => hshort entry (List.mem_append_right _ hmem)
    rw [hfirst, hsecond]
    by_cases hnone : second = []
    · rw [hnone, List.append_nil, ite_self]
    · refine if_pos ?_
      rcases hcond with hnil | hlong | hempty | hfooter'
      · rw [← hleft, htorn hfirst, hnil]
        exact ite_self _
      · have hnone : kept torn = [] := if_neg (by omega)
        rw [← hleft, htorn hfirst, hnone]
        exact ite_self _
      · exact absurd hempty hnone
      · exact hleft.symm.trans (if_pos ⟨hfooter', hnone⟩)

end JournalFile

namespace Recovery

open JournalFile

def written : Entry := (.node, [1])

theorem short_written : Short written.2 := by
  rw [Short]
  decide

theorem rejectsLong_written : RejectsLong written := fun hlong => absurd short_written hlong

/-- The journal with one record and the first bytes of another. -/
def tornAt (length : Nat) : Bytes :=
  (appendAll (Journal.open [] 0) [written]).contents ++ (writeEntry written).take length

theorem crashes_tornAt {length : Nat} (hlength : (writeEntry written).drop length ≠ []) :
    Crashes (appendAll (Journal.open [] 0) [written]) written
      ((writeEntry written).take length) (tornAt length) :=
  .append _ hlength (List.take_append_drop _ _)

/-- Five bytes of a torn record are cut off. -/
theorem recovers_five : Recovers [written] [written] (tornAt 5) 0 0 := by
  refine (recovers_iff (crashes_tornAt (by decide +kernel)) ⟨?_, ?_⟩).mpr ⟨?_, ?_⟩
  · simpa using rejectsLong_written
  · intro _ hlt
    exact absurd hlt (by decide +kernel)
  · simpa using short_written
  · exact .inr (.inl (by decide +kernel))

/-- One byte of a torn record stays, and hides what is appended behind it. -/
theorem torn_length_hides :
    Crashes (appendAll (Journal.open [] 0) [written]) written
        ((writeEntry written).take 1) (tornAt 1) ∧
      Rejects [written] [written] written ((writeEntry written).take 1) ∧
        ¬ Recovers [written] [written] (tornAt 1) 0 0 := by
  refine ⟨crashes_tornAt (by decide +kernel), ⟨?_, fun _ _ fields rest hread => ?_⟩, ?_⟩
  · simpa using rejectsLong_written
  · have hnone : readFields ((writeEntry written).take 1 ++ encodeAll writeEntry [written]) =
        none := by decide +kernel
    rw [hnone] at hread
    cases hread
  · rintro ⟨hrecords, -⟩
    revert hrecords
    decide +kernel

end Recovery

end MerkleTox.Fs
