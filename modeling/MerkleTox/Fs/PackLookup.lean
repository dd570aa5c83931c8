import MerkleTox.Fs.PackIndex

/-! # Looking up in a pack index

Each of the three stages of a lookup only leaves out records of other hashes: the bits of a hash
that was added are set, the table splits the sorted records by their leading bits, and the binary
search finds a hash that is in its range.
-/

namespace MerkleTox.Fs.PackIndex

open Library Library.Checked Proto MerkleTox.Core

/-! ## The Bloom filter -/

section Bloom

variable {digest : Bytes → Bytes} {bits : Nat}

/-- The bit of the `k`-th hash of a node. -/
def place (digest : Bytes → Bytes) (bits : Nat) (hash : NodeHash) (k : Nat) : Nat :=
  fromLe ((digest (UInt8.ofNat k :: JournalFile.hashBytes hash)).take 8) % bits

theorem bloomIndex_eq (hbits : 0 < bits) (hash : NodeHash) (k : Nat) :
    bloomIndex digest bits hash k = ⟨place digest bits hash k, false⟩ :=
  remainder_of_pos hbits _

variable {filter : Bytes}

theorem place_div_lt (hlength : filter.length * 8 = bits) (hbits : 0 < bits) (hash : NodeHash)
    (k : Nat) : place digest bits hash k / 8 < filter.length := by
  have hlt : place digest bits hash k < bits := Nat.mod_lt _ hbits
  omega

/-- The bits of a record. -/
def placesOf (digest : Bytes → Bytes) (bits bloomK : Nat) (record : StoredRecord) : List Nat :=
  (List.range bloomK).map (place digest bits record.hash)

theorem length_foldl_setBit (places : List Nat) (filter : Bytes) :
    (places.foldl setBit filter).length = filter.length := by
  induction places generalizing filter with
  | nil => rfl
  | cons i rest ih => rw [List.foldl_cons, ih, length_setBit]

theorem addToBloom_eq (hlength : filter.length * 8 = bits) (hbits : 0 < bits)
    (record : StoredRecord) (bloomK : Nat) :
    addToBloom digest bits filter record bloomK =
      ⟨(placesOf digest bits bloomK record).foldl setBit filter, false⟩ := by
  rw [placesOf, List.foldl_map]
  refine (foldlM_of_fits (fun filter => filter.length * 8 = bits)
    (fun filter hfilter k _ => ⟨?_, by rw [length_setBit]; exact hfilter⟩) hlength).1
  rw [bind_of_fits (bloomIndex_eq hbits _ k)]
  exact update_of_lt (place_div_lt hfilter hbits _ k) _

theorem addAll_eq (hlength : filter.length * 8 = bits) (hbits : 0 < bits)
    (records : List StoredRecord) (bloomK : Nat) :
    records.foldlM (fun filter record => addToBloom digest bits filter record bloomK) filter =
      ⟨(records.flatMap (placesOf digest bits bloomK)).foldl setBit filter, false⟩ := by
  rw [List.foldl_flatMap]
  exact (foldlM_of_fits (fun filter => filter.length * 8 = bits)
    (fun filter hfilter record _ => ⟨addToBloom_eq hfilter hbits record bloomK,
      by rw [length_foldl_setBit]; exact hfilter⟩) hlength).1

theorem inBloom_eq (hlength : filter.length * 8 = bits) (hbits : 0 < bits) (hash : NodeHash)
    (ks : List Nat) :
    inBloom digest bits filter hash ks =
      ⟨ks.all fun k => testBit filter (place digest bits hash k), false⟩ := by
  induction ks with
  | nil => rfl
  | cons k rest ih =>
      have hlt : place digest bits hash k / 8 < filter.length :=
        place_div_lt hlength hbits hash k
      have hbit : testBit filter (place digest bits hash k) =
          bitOf filter[place digest bits hash k / 8] (place digest bits hash k) := by
        rw [testBit, List.getElem?_eq_getElem hlt, Option.any_some]
      rw [inBloom, bind_of_fits (bloomIndex_eq hbits hash k), bind_of_fits (get_of_lt hlt 0),
        List.all_cons, hbit]
      split
      next hset => rw [ih, hset, Bool.true_and]
      next hclear => rw [Bool.not_eq_true _ |>.mp hclear, Bool.false_and, pure_eq]

end Bloom

/-! ## The table -/

section Table

variable {bits : Nat} {table counts : List Nat} {records : List StoredRecord}

theorem getD_modify (table : List Nat) {i : Nat} (hi : i < table.length) (f : Nat → Nat)
    (j : Nat) : (table.modify i f).getD j 0 = if i = j then f (table.getD j 0) else
      table.getD j 0 := by
  rw [List.getD_eq_getElem?_getD, List.getD_eq_getElem?_getD, List.getElem?_modify]
  by_cases heq : i = j
  · subst heq
    simp [hi]
  · simp [heq]

/-- The entries count the records by their leading bits. -/
theorem countRecords_spec (hbits : bits ≤ 24) (hlength : table.length = 2 ^ bits)
    (hroom : ∀ entry, table.getD entry 0 + records.length < 2 ^ 32) :
    ∃ counts, records.foldlM (countRecord bits) table = ⟨counts, false⟩ ∧
      counts.length = 2 ^ bits ∧ ∀ entry, counts.getD entry 0 = table.getD entry 0 +
        records.countP fun record => decide (getPrefix record.hash bits = entry) := by
  induction records generalizing table with
  | nil => exact ⟨table, rfl, hlength, fun _ => rfl⟩
  | cons record rest ih =>
      have hlt : getPrefix record.hash bits < table.length := hlength ▸ getPrefix_lt record.hash hbits
      have hfits : table.getD (getPrefix record.hash bits) 0 + 1 < 2 ^ 32 := by
        have h := hroom (getPrefix record.hash bits)
        rw [List.length_cons] at h
        omega
      have hstep : countRecord bits table record = ⟨table.modify (getPrefix record.hash bits)
          fun _ => table.getD (getPrefix record.hash bits) 0 + 1, false⟩ := by
        rw [countRecord, bind_of_fits (get_eq_getD hlt 0), bind_of_fits (unsigned_of_lt hfits),
          update_of_lt hlt]
      have hentry := getD_modify table hlt fun _ => table.getD (getPrefix record.hash bits) 0 + 1
      obtain ⟨counts, hcounts, hcountsLength, hspec⟩ := @ih (table.modify
          (getPrefix record.hash bits) fun _ => table.getD (getPrefix record.hash bits) 0 + 1)
        (by rw [List.length_modify, hlength]) (fun entry => by
          have h := hroom entry
          rw [List.length_cons] at h
          rw [hentry]
          split
          next heq => rw [heq]; omega
          next => omega)
      refine ⟨counts, by rw [List.foldlM_cons, bind_of_fits hstep, hcounts], hcountsLength, ?_⟩
      intro entry
      rw [hspec, hentry, List.countP_cons]
      by_cases heq : getPrefix record.hash bits = entry
      · simp only [heq, if_true, decide_true]
        omega
      · simp [heq]

/-- The entries of a table up to one of them sum up to the records of their leading bits. -/
theorem sum_take_counts (hcounts : ∀ entry, counts.getD entry 0 =
      records.countP fun record => decide (getPrefix record.hash bits = entry))
    {entry : Nat} (hentry : entry ≤ counts.length) :
    (counts.take entry).sum =
      records.countP fun record => decide (getPrefix record.hash bits < entry) := by
  induction entry with
  | zero => simp
  | succ entry ih =>
      have hsplit : ∀ list : List StoredRecord,
          (list.countP fun record => decide (getPrefix record.hash bits < entry + 1)) =
            (list.countP fun record => decide (getPrefix record.hash bits < entry)) +
              list.countP fun record => decide (getPrefix record.hash bits = entry) := by
        intro list
        induction list with
        | nil => rfl
        | cons record rest ih =>
            rw [List.countP_cons, List.countP_cons, List.countP_cons, ih]
            simp only [decide_eq_true_eq]
            split <;> split <;> split <;> omega
      have hlt : entry < counts.length := hentry
      have hvalue := hcounts entry
      rw [List.getD_eq_getElem?_getD, List.getElem?_eq_getElem hlt, Option.getD_some] at hvalue
      rw [List.sum_take_succ counts entry hlt, ih (Nat.le_of_succ_le hentry), hvalue, hsplit]

theorem prefixSums_spec {sum : Nat} (hroom : sum + table.sum < 2 ^ 32) :
    ∃ sums, prefixSums sum table = ⟨sums, false⟩ ∧ sums.length = table.length ∧
      (∀ entry ∈ sums, entry < 2 ^ 32) ∧
      ∀ entry < table.length, sums.getD entry 0 = sum + (table.take (entry + 1)).sum := by
  induction table generalizing sum with
  | nil => exact ⟨[], rfl, rfl, nofun, fun entry hentry => absurd hentry (Nat.not_lt_zero _)⟩
  | cons count rest ih =>
      rw [List.sum_cons, ← Nat.add_assoc] at hroom
      have hfits : sum + count < 2 ^ 32 := by omega
      obtain ⟨sums, hsums, hlength, hbound, hspec⟩ := ih hroom
      refine ⟨(sum + count) :: sums, ?_, by rw [List.length_cons, List.length_cons, hlength],
        List.forall_mem_cons.mpr ⟨hfits, hbound⟩, fun entry hentry => ?_⟩
      · rw [prefixSums, bind_of_fits (unsigned_of_lt hfits), bind_of_fits hsums, pure_eq]
      · cases entry with
        | zero => simp
        | succ entry =>
            rw [List.getD_cons_succ, hspec entry (Nat.lt_of_succ_lt_succ hentry),
              List.take_succ_cons, List.sum_cons, Nat.add_assoc]

end Table

/-! ## The index -/

variable {digest : Bytes → Bytes} {records : List StoredRecord} {fanoutBits bloomK : Nat}

/-- What a lookup relies on. -/
structure Built (digest : Bytes → Bytes) (records : List StoredRecord) (index : PackIndex) :
    Prop where
  fanoutBits_le : index.fanoutBits ≤ 24
  filter_pos : 0 < index.bloomFilter.length * 8
  filter_lt : index.bloomFilter.length * 8 < 2 ^ 32
  added : ∀ record ∈ records, ∀ k < index.bloomK, testBit index.bloomFilter
    (place digest (index.bloomFilter.length * 8) record.hash k) = true
  table_length : index.fanoutTable.length = 2 ^ index.fanoutBits
  table_lt : ∀ entry ∈ index.fanoutTable, entry < 2 ^ 32
  table_eq : ∀ entry < 2 ^ index.fanoutBits, index.fanoutTable.getD entry 0 =
    index.records.countP fun record => decide (getPrefix record.hash index.fanoutBits ≤ entry)
  perm : index.records.Perm records
  sorted : index.records.Pairwise fun first second => first.key ≤ second.key

/-- The numbers of records for which the bits of the filter and the records fit into 32 bits. The
size of the filter in bytes is cut to 32 bits, so it fits again beyond the point where the cut
sets in. -/
def Supported (n : Nat) : Prop := n ≤ 429496728 ∨ 3435973837 ≤ n ∧ n ≤ 3865470565

theorem bloomBytes_cases {n : Nat} (hn : n < 2 ^ 32) :
    bloomBytes n = max ((n * 10 + 7) / 8) 64 ∧ n ≤ 3435973836 ∨
      bloomBytes n + 2 ^ 32 = (n * 10 + 7) / 8 ∧ 3435973837 ≤ n := by
  unfold bloomBytes
  rcases Nat.lt_or_ge n 3435973837 with hsmall | hlarge
  · exact .inl ⟨Nat.mod_eq_of_lt (by omega), by omega⟩
  · have hmax : max ((n * 10 + 7) / 8) 64 = (n * 10 + 7) / 8 := by omega
    have hle : 2 ^ 32 ≤ (n * 10 + 7) / 8 := by omega
    rw [hmax, Nat.mod_eq_sub_mod hle, Nat.mod_eq_of_lt (by omega)]
    exact .inr ⟨Nat.sub_add_cancel hle, hlarge⟩

theorem supported_iff (n : Nat) : Supported n ↔ n < 2 ^ 32 ∧ bloomBytes n * 8 < 2 ^ 32 := by
  unfold Supported
  by_cases hn : n < 2 ^ 32
  · rcases bloomBytes_cases hn with ⟨heq, hle⟩ | ⟨heq, hge⟩ <;> omega
  · exact iff_of_false (by omega) fun h => hn h.1

theorem bloomBytes_pos {n : Nat} (h : Supported n) : 0 < bloomBytes n := by
  obtain ⟨hn, -⟩ := (supported_iff n).mp h
  rcases bloomBytes_cases hn with ⟨heq, hle⟩ | ⟨heq, hge⟩ <;> omega

theorem sortByHash_perm (records : List StoredRecord) : (sortByHash records).Perm records :=
  List.mergeSort_perm records _

theorem sorted_sortByHash (records : List StoredRecord) :
    (sortByHash records).Pairwise fun first second => first.key ≤ second.key := by
  have hsorted := @List.pairwise_mergeSort _ (fun first second : StoredRecord =>
    decide (first.key ≤ second.key))
    (fun first second third hfirst hsecond =>
      decide_eq_true ((of_decide_eq_true hfirst).trans (of_decide_eq_true hsecond)))
    (fun first second => by
      rw [Bool.or_eq_true, decide_eq_true_eq, decide_eq_true_eq]
      exact le_total _ _) records
  exact hsorted.imp fun h => of_decide_eq_true h

theorem build_spec (hfanout : fanoutBits ≤ 24) (hsupported : Supported records.length) :
    ∃ index, build digest records fanoutBits bloomK = ⟨index, false⟩ ∧ Built digest records index ∧
      index.fanoutBits = fanoutBits ∧ index.bloomK = bloomK := by
  obtain ⟨hn, hbits⟩ := (supported_iff _).mp hsupported
  have hperm := sortByHash_perm records
  have hsorted := sorted_sortByHash records
  have hpos : 0 < bloomBytes records.length * 8 :=
    Nat.mul_pos (bloomBytes_pos hsupported) (by decide)
  rw [← hperm.length_eq] at hn hbits hpos
  unfold build
  generalize sortByHash records = sorted at hperm hsorted hn hbits hpos
  have hempty : (List.replicate (bloomBytes sorted.length) (0 : UInt8)).length * 8 =
      bloomBytes sorted.length * 8 := by rw [List.length_replicate]
  have hzero : ∀ entry, (List.replicate (2 ^ fanoutBits) 0).getD entry 0 = 0 := fun entry => by
    rw [List.getD_eq_getElem?_getD, List.getElem?_replicate]
    split <;> rfl
  obtain ⟨counts, hcounts, hcountsLength, hcountsSpec⟩ :=
    @countRecords_spec fanoutBits (List.replicate (2 ^ fanoutBits) 0) sorted hfanout
      List.length_replicate fun entry => by rw [hzero]; omega
  simp only [hzero, Nat.zero_add] at hcountsSpec
  have hsum := fun {entry} => @sum_take_counts fanoutBits counts sorted hcountsSpec entry
  have htotal : counts.sum < 2 ^ 32 := by
    have hall := hsum le_rfl
    rw [List.take_length] at hall
    rw [hall]
    exact List.countP_le_length.trans_lt hn
  obtain ⟨sums, hsums, hsumsLength, hsumsBound, hsumsSpec⟩ :=
    @prefixSums_spec counts 0 (by omega)
  dsimp only
  rw [bind_of_fits (unsigned_of_lt hbits), bind_of_fits (addAll_eq hempty hpos sorted bloomK),
    bind_of_fits hcounts, bind_of_fits hsums, pure_eq]
  have hfilter := length_foldl_setBit (sorted.flatMap (placesOf digest
    (bloomBytes sorted.length * 8) bloomK)) (List.replicate (bloomBytes sorted.length) (0 : UInt8))
  rw [List.length_replicate] at hfilter
  refine ⟨_, rfl, ?_, rfl, rfl⟩
  refine ⟨hfanout, by rw [hfilter]; exact hpos, by rw [hfilter]; exact hbits, ?_,
    hsumsLength.trans hcountsLength, hsumsBound, ?_, hperm, hsorted⟩
  · intro record hmem k hk
    dsimp only
    have hplaces : ∀ i ∈ sorted.flatMap (placesOf digest (bloomBytes sorted.length * 8) bloomK),
        i / 8 < (List.replicate (bloomBytes sorted.length) (0 : UInt8)).length := by
      intro i hi
      obtain ⟨other, -, hother⟩ := List.mem_flatMap.mp hi
      obtain ⟨k, -, rfl⟩ := List.mem_map.mp hother
      exact place_div_lt hempty hpos _ k
    rw [hfilter, testBit_foldl_setBit hplaces, Bool.or_eq_true]
    refine .inr (decide_eq_true (List.mem_flatMap.mpr ⟨record, hperm.mem_iff.mpr hmem, ?_⟩))
    exact List.mem_map_of_mem (List.mem_range.mpr hk)
  · intro entry hentry
    dsimp only at hentry ⊢
    rw [hsumsSpec entry (hcountsLength ▸ hentry), Nat.zero_add, hsum (hcountsLength ▸ hentry)]
    simp only [Nat.lt_succ_iff]

/-- A hash whose bits are set is searched in the range of its leading bits. -/
theorem Built.lookup_eq {index : PackIndex} (h : Built digest records index) (hash : NodeHash) :
    index.lookup digest hash =
      if (List.range index.bloomK).all fun k => testBit index.bloomFilter
          (place digest (index.bloomFilter.length * 8) hash k) then
        let range := index.records.filter fun record => decide
          (getPrefix record.hash index.fanoutBits = getPrefix hash index.fanoutBits)
        ⟨(binarySearch StoredRecord.key hash.bytes.toNat range).bind fun idx => range[idx]?, false⟩
      else ⟨none, false⟩ := by
  have hlt := getPrefix_lt hash h.fanoutBits_le
  have hmarks : index.records.Pairwise fun first second =>
      getPrefix first.hash index.fanoutBits ≤ getPrefix second.hash index.fanoutBits :=
    h.sorted.imp fun hle => getPrefix_mono h.fanoutBits_le hle
  have hrange := range_eq_filter hmarks (getPrefix hash index.fanoutBits)
  unfold lookup
  dsimp only
  rw [Nat.mod_eq_of_lt h.filter_lt, bind_of_fits (inBloom_eq rfl h.filter_pos hash _)]
  split
  next hpasses =>
    generalize getPrefix hash index.fanoutBits = entry at hlt hrange ⊢
    have hhigh : get index.fanoutTable entry 0 = ⟨index.records.countP fun record =>
        decide (getPrefix record.hash index.fanoutBits ≤ entry), false⟩ := by
      rw [get_eq_getD (h.table_length ▸ hlt), h.table_eq entry hlt]
    have hlow : rangeStart index.fanoutTable entry = ⟨index.records.countP fun record =>
        decide (getPrefix record.hash index.fanoutBits < entry), false⟩ := by
      unfold rangeStart
      split
      next hzero => simp [hzero]
      next hpos =>
        have hbefore : entry - 1 < 2 ^ index.fanoutBits := by omega
        have hsame : ∀ mark, decide (mark ≤ entry - 1) = decide (mark < entry) := by
          intro mark
          rw [decide_eq_decide]
          omega
        rw [get_eq_getD (h.table_length ▸ hbefore), h.table_eq _ hbefore]
        simp only [hsame]
    have hordered : (index.records.countP fun record =>
        decide (getPrefix record.hash index.fanoutBits < entry)) ≤
          index.records.countP fun record =>
            decide (getPrefix record.hash index.fanoutBits ≤ entry) :=
      List.countP_mono_left fun record _ hless => by
        rw [decide_eq_true_eq] at hless ⊢
        exact hless.le
    rw [bind_of_fits hlow, bind_of_fits hhigh,
      bind_of_fits (slice_of_le hordered List.countP_le_length), hrange]
    rfl
  next => rfl

/-- A lookup stays in bounds, finds only what it should, and misses nothing. -/
theorem Built.lookup_spec {index : PackIndex} (h : Built digest records index)
    (hash : NodeHash) : ∃ found, index.lookup digest hash = ⟨found, false⟩ ∧
      (∀ record, found = some record → record ∈ records ∧ record.hash = hash) ∧
      (found = none → ∀ record ∈ records, record.hash ≠ hash) := by
  have hkey : ∀ record : StoredRecord, record.key = hash.bytes.toNat ↔ record.hash = hash := by
    intro record
    constructor
    · intro heq
      have hbytes : record.hash.bytes = hash.bytes := BitVec.eq_of_toNat_eq heq
      obtain ⟨⟨bytes⟩, _, _, _, _, _, _⟩ := record
      cases hash
      cases hbytes
      rfl
    · rintro rfl
      rfl
  rw [h.lookup_eq hash]
  split
  next hpasses =>
    generalize hrange : (index.records.filter fun record => decide
      (getPrefix record.hash index.fanoutBits = getPrefix hash index.fanoutBits)) = range
    have hmem : ∀ record, record ∈ range ↔ record ∈ records ∧
        getPrefix record.hash index.fanoutBits = getPrefix hash index.fanoutBits := by
      intro record
      rw [← hrange, List.mem_filter, decide_eq_true_eq, h.perm.mem_iff]
    refine ⟨_, rfl, fun record hfound => ?_, fun hnone record hrecord heq => ?_⟩
    · obtain ⟨idx, hsearch, hget⟩ := Option.bind_eq_some_iff.mp hfound
      obtain ⟨element, helement, htarget⟩ := binarySearch_some hsearch
      cases hget.symm.trans helement
      exact ⟨((hmem record).mp (List.mem_of_getElem? hget)).1, (hkey record).mp htarget⟩
    · have hsorted : range.Pairwise fun first second => first.key ≤ second.key :=
        hrange ▸ h.sorted.filter _
      have hin : record ∈ range := (hmem record).mpr ⟨hrecord, by rw [heq]⟩
      cases hsearch : binarySearch StoredRecord.key hash.bytes.toNat range with
      | none => exact binarySearch_none hsorted hsearch record hin ((hkey record).mpr heq)
      | some idx =>
          obtain ⟨element, helement, -⟩ := binarySearch_some hsearch
          rw [hsearch, Option.bind_some, helement] at hnone
          cases hnone
  next habsent =>
    refine ⟨none, rfl, nofun, fun _ record hrecord heq => habsent ?_⟩
    rw [List.all_eq_true]
    intro k hk
    rw [← heq]
    exact h.added record hrecord k (List.mem_range.mp hk)

/-! ## Too many records -/

variable {table : List Nat}

theorem sum_modify_succ {i : Nat} (hi : i < table.length) :
    (table.modify i fun _ => table[i] + 1).sum = table.sum + 1 := by
  induction table generalizing i with
  | nil => exact absurd hi (Nat.not_lt_zero i)
  | cons count rest ih =>
      cases i with
      | zero =>
          simp only [List.modify_zero_cons, List.sum_cons, List.getElem_cons_zero]
          omega
      | succ i =>
          have hrest := ih (Nat.lt_of_succ_lt_succ hi)
          simp only [List.modify_succ_cons, List.sum_cons, List.getElem_cons_succ, hrest]
          omega

/-- Unless an operation overflows, each record is counted once. -/
theorem sum_countRecords {bits : Nat}
    (h : (records.foldlM (countRecord bits) table).overflowed = false) :
    (records.foldlM (countRecord bits) table).value.sum = table.sum + records.length := by
  induction records generalizing table with
  | nil => rfl
  | cons record rest ih =>
      rw [List.foldlM_cons, overflowed_bind, Bool.or_eq_false_iff] at h
      obtain ⟨hstep, hrest⟩ := h
      rw [List.foldlM_cons, value_bind, ih hrest, List.length_cons]
      unfold countRecord at hstep ⊢
      simp only [overflowed_bind, Bool.or_eq_false_iff] at hstep
      obtain ⟨hget, hcount, -⟩ := hstep
      have hlt : getPrefix record.hash bits < table.length :=
        Nat.not_le.mp (of_decide_eq_false hget)
      rw [get_of_lt hlt] at hcount
      have hfits := Nat.not_le.mp (of_decide_eq_false hcount)
      rw [bind_of_fits (get_of_lt hlt 0), bind_of_fits (unsigned_of_lt hfits), update,
        sum_modify_succ hlt]
      omega

theorem prefixSums_overflowed {sum : Nat} (hsum : sum < 2 ^ 32)
    (h : (prefixSums sum table).overflowed = false) : sum + table.sum < 2 ^ 32 := by
  induction table generalizing sum with
  | nil => exact hsum
  | cons count rest ih =>
      unfold prefixSums at h
      rw [overflowed_bind, Bool.or_eq_false_iff] at h
      obtain ⟨hfirst, hrest⟩ := h
      have hfits : sum + count < 2 ^ 32 := Nat.not_le.mp (of_decide_eq_false hfirst)
      rw [unsigned_of_lt hfits, overflowed_bind, Bool.or_eq_false_iff] at hrest
      rw [List.sum_cons, ← Nat.add_assoc]
      exact ih hfits hrest.1

/-- A build without an overflow has a supported number of records. -/
theorem supported_of_build (h : (build digest records fanoutBits bloomK).overflowed = false) :
    Supported records.length := by
  rw [supported_iff, ← (sortByHash_perm records).length_eq]
  unfold build at h
  dsimp only at h
  generalize sortByHash records = sorted at h
  simp only [overflowed_bind, Bool.or_eq_false_iff] at h
  obtain ⟨hbits, -, hcounts, hsums, -⟩ := h
  refine ⟨?_, Nat.not_le.mp (of_decide_eq_false hbits)⟩
  have htotal := prefixSums_overflowed (Nat.two_pow_pos 32) hsums
  rw [sum_countRecords hcounts] at htotal
  omega

/-! ## Exactness -/

theorem find?_of_distinct {Record : Type} {hashOf : Record → NodeHash} {records : List Record}
    {hash : NodeHash} {found : Option Record} (hdistinct : (records.map hashOf).Nodup)
    (hsome : ∀ record, found = some record → record ∈ records ∧ hashOf record = hash)
    (hnone : found = none → ∀ record ∈ records, hashOf record ≠ hash) :
    found = records.find? fun record => decide (hashOf record = hash) := by
  cases found with
  | none =>
      refine (List.find?_eq_none.mpr fun record hmem => ?_).symm
      simpa using hnone rfl record hmem
  | some record =>
      obtain ⟨hmem, hhash⟩ := hsome record rfl
      have hexists : (records.find? fun record => decide (hashOf record = hash)).isSome = true :=
        List.find?_isSome.mpr ⟨record, hmem, decide_eq_true hhash⟩
      obtain ⟨other, hother⟩ := Option.isSome_iff_exists.mp hexists
      have hotherHash : hashOf other = hash := by simpa using List.find?_some hother
      rw [hother, List.inj_on_of_nodup_map hdistinct hmem (List.mem_of_find?_eq_some hother)
        (hhash.trans hotherHash.symm)]

/-- What the store looks up is what the index of its filed records finds. -/
theorem lookup_stored [IndexSearch] (digest : Bytes → Bytes) {records : List IndexRecord}
    (place : NodeHash → UInt64 × UInt32) {fanoutBits bloomK : Nat}
    (hdistinct : (records.map IndexRecord.hash).Nodup) (hfanout : fanoutBits ≤ 24)
    (hsupported : Supported records.length) :
    ∃ index, build digest (records.map (IndexRecord.stored place)) fanoutBits bloomK =
        ⟨index, false⟩ ∧
      ∀ hash, index.lookup digest hash =
        ⟨(IndexSearch.lookup records hash).map (IndexRecord.stored place), false⟩ := by
  have hhashes : (records.map (IndexRecord.stored place)).map StoredRecord.hash =
      records.map IndexRecord.hash := by
    rw [List.map_map]
    rfl
  obtain ⟨index, hbuild, hbuilt, -⟩ := @build_spec digest (records.map (IndexRecord.stored place))
    fanoutBits bloomK hfanout (by rw [List.length_map]; exact hsupported)
  refine ⟨index, hbuild, fun hash => ?_⟩
  obtain ⟨found, hlookup, hsome, hnone⟩ := hbuilt.lookup_spec hash
  rw [hlookup, find?_of_distinct (hhashes ▸ hdistinct) hsome hnone, List.find?_map,
    find?_of_distinct hdistinct (fun _ => IndexSearch.lookup_some) IndexSearch.lookup_none]
  rfl

/-- The index of a list of records with distinct hashes is built without an overflow, is loaded as
it was saved and finds for every hash the record of the list that has it, within bounds, just when
the number of records is supported. -/
theorem lookup_exact_iff (digest : Bytes → Bytes) (records : List StoredRecord)
    (fanoutBits bloomK : Nat) (hdistinct : (records.map StoredRecord.hash).Nodup)
    (hfanout : fanoutBits ≤ 24) (hbloomK : bloomK < 2 ^ 32) :
    ((∃ index, build digest records fanoutBits bloomK = ⟨index, false⟩ ∧
        load index.save = some index ∧ ∀ hash, index.lookup digest hash =
          ⟨records.find? fun record => decide (record.hash = hash), false⟩) ↔
      records.length ≤ 429496728 ∨
        3435973837 ≤ records.length ∧ records.length ≤ 3865470565) := by
  constructor
  · rintro ⟨index, hbuild, -⟩
    exact supported_of_build (congrArg Checked.overflowed hbuild)
  · intro hsupported
    obtain ⟨index, hbuild, hbuilt, hbits, hk⟩ :=
      @build_spec digest records fanoutBits bloomK hfanout hsupported
    refine ⟨index, hbuild, load_save ?_, fun hash => ?_⟩
    · refine ⟨?_, hk ▸ hbloomK, ?_, hbuilt.table_length, hbuilt.table_lt, ?_⟩
      · exact hbuilt.fanoutBits_le.trans_lt (by decide)
      · have hlt := hbuilt.filter_lt
        omega
      · rw [hbuilt.perm.length_eq]
        have hn := ((supported_iff _).mp hsupported).1
        omega
    · obtain ⟨found, hlookup, hsome, hnone⟩ := hbuilt.lookup_spec hash
      rw [hlookup, find?_of_distinct hdistinct hsome hnone]

/-- The record of a node, with a hash of its own. -/
def numbered (i : Nat) : StoredRecord := ⟨⟨BitVec.ofNat 256 i⟩, 0, 0, 0, 1, 1, 0⟩

theorem lookup_exact_two : (∃ index, build id [numbered 5, numbered 3] 9 7 = ⟨index, false⟩ ∧
      load index.save = some index ∧ ∀ hash, index.lookup id hash =
        ⟨[numbered 5, numbered 3].find? fun record => decide (record.hash = hash), false⟩) ↔
    2 ≤ 429496728 ∨ 3435973837 ≤ 2 ∧ 2 ≤ 3865470565 :=
  lookup_exact_iff id [numbered 5, numbered 3] 9 7 (by decide) (by decide) (by decide)

theorem nodup_numbered {n : Nat} (hn : n ≤ 2 ^ 256) :
    (((List.range n).map numbered).map StoredRecord.hash).Nodup := by
  rw [List.map_map]
  refine List.Nodup.map_on ?_ List.nodup_range
  intro i hi j hj heq
  rw [List.mem_range] at hi hj
  have hbytes := congrArg (fun hash : NodeHash => hash.bytes.toNat) heq
  simp only [Function.comp_apply, numbered, BitVec.toNat_ofNat] at hbytes
  rwa [Nat.mod_eq_of_lt (hi.trans_le hn), Nat.mod_eq_of_lt (hj.trans_le hn)] at hbytes

/-- From 429496729 records on the number of bits of the filter does not fit. -/
theorem build_overflows :
    let records := (List.range 429496729).map numbered
    (records.map StoredRecord.hash).Nodup ∧
      ∀ digest, (build digest records 8 7).overflowed = true := by
  refine ⟨nodup_numbered (Nat.le_of_lt (Nat.lt_trans (by decide : 429496729 < 2 ^ 32)
    (Nat.pow_lt_pow_right (by decide) (by decide)))), fun digest => ?_⟩
  rw [← Bool.not_eq_false]
  intro hfits
  have hsupported := supported_of_build hfits
  rw [List.length_map, List.length_range] at hsupported
  unfold Supported at hsupported
  omega

end MerkleTox.Fs.PackIndex
